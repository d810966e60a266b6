import Strace.Trie.Refinement

/-! `pidns.c`: translating an id of a tracee's PID namespace to strace's own, by
what `/proc` shows and by what earlier calls have remembered of it. -/
namespace Strace.Pidns
open Packed Tries

/-- `MAX_NS_DEPTH`. -/
def maxNsDepth : Nat := 32

def intMax : Nat := 2147483647

/-- `enum pid_type`. -/
inductive PidType where
  | tid
  | tgid
  | pgid
  | sid
  deriving DecidableEq, Repr

/-! ## What `/proc` shows -/

inductive ParentErrno where
  | eperm
  | enotty
  | other
  deriving DecidableEq, Repr

inductive NsFile where
  | top (ino : Option UInt32) (errno : ParentErrno)
  | inner (ino : Option UInt32) (parent : NsFile)
  deriving DecidableEq, Repr

structure DirEntry where
  /-- `d_type == DT_DIR` -/
  isDir : Bool := true
  /-- what `strtol` makes of the name, without an error -/
  number : Option Int
  deriving DecidableEq, Repr

/-- The process that an entry stands for. -/
def DirEntry.procPid (entry : DirEntry) : Option Nat :=
  if !entry.isDir then none
  else
    match entry.number with
    | none => none
    | some n => if n < 1 ∨ n > intMax then none else some n.toNat

structure IdList where
  ids : List Nat := []
  depth : ids.length ≤ maxNsDepth := by decide

structure Proc where
  /-- `/proc` -/
  root : Option (List DirEntry)
  /-- `/proc/PID/task` -/
  task : Nat → Option (List DirEntry)
  /-- `/proc/PID/ns/pid` -/
  nsPid : Nat → Option NsFile
  /-- `/proc/PID/status` -/
  status : PidType → Nat → IdList

def nsHierarchyOf (enotty : Bool) : NsFile → Nat → List UInt32 × Bool
  | _, 0 => ([], enotty)
  | .top none _, _ + 1 | .inner none _, _ + 1 => ([], enotty)
  | .top (some ino) errno, size + 1 => ([ino], enotty || (size != 0 && errno == .enotty))
  | .inner (some ino) parent, size + 1 =>
    if size = 0 ∨ enotty then ([ino], enotty)
    else
      let (above, enotty) := nsHierarchyOf enotty parent size
      (ino :: above, enotty)

/-! ## What is remembered -/

structure ProcData where
  nsHierarchy : List UInt32 := []
  idHierarchy : PidType → List Nat := fun _ => []

structure State where
  pidMax : Nat
  nsPidToProcPid : PidType → UInt32 → Word → Word := fun _ _ _ => 0
  /-- a process's `proc_data` stands under its `proc_pid` -/
  procDataCache : Nat → Option ProcData := fun _ => none
  nsGetParentEnotty : Bool := false
  /-- `cached_val` of `is_proc_ours` -/
  procOurs : Option Bool := none
  /-- `our_ns`, once it is initialised -/
  ourNs : Option UInt32 := none
  pid : Nat → Nat := fun _ => 0
  pidNs : Nat → UInt32 := fun _ => 0

namespace State

variable (s : State)

def pidMaxSize : Nat := Nat.log2 (s.pidMax - 1) + 1

def pidMaxSizeLg : Nat := Nat.log2 (s.pidMaxSize - 1) + 1

def pidTrie : Trie := newTrie true s.pidMaxSize s.pidMaxSizeLg 4 4 0

def putProcPid (ns : UInt32) (nsPid : Nat) (type : PidType) (procPid : Nat) : State :=
  { s with nsPidToProcPid := fun type' ns' =>
      if type' = type ∧ ns' = ns then
        setMap s.pidTrie (s.nsPidToProcPid type ns) (BitVec.ofNat 64 nsPid)
            (BitVec.ofNat 64 procPid)
      else s.nsPidToProcPid type' ns' }

def getCachedProcPid (ns : UInt32) (nsPid : Nat) (type : PidType) : Nat :=
  (s.nsPidToProcPid type ns (BitVec.ofNat 64 nsPid)).toNat

/-- `trie_set` on `proc_data_cache`. -/
def setProcData (procPid : Nat) (pd : Option ProcData) : State :=
  { s with procDataCache := fun key =>
      if key = procPid ∧ procPid < 2 ^ s.pidMaxSize then pd else s.procDataCache key }

end State

variable (w : Proc)

def getNsHierarchy (procPid size : Nat) (s : State) : List UInt32 × State :=
  match w.nsPid procPid with
  | none => ([], s)
  | some file =>
    let (ns, enotty) := nsHierarchyOf s.nsGetParentEnotty file size
    (ns, { s with nsGetParentEnotty := enotty })

def getIdList (procPid : Nat) (type : PidType) : List Nat := (w.status type procPid).ids

def isProcOurs (s : State) : Bool × State :=
  match s.procOurs with
  | some ours => (ours, s)
  | none =>
    let ours := decide ((getIdList w 0 .tid).length ≤ 1)
    (ours, { s with procOurs := some ours })

def getOurNs (s : State) : UInt32 × State :=
  match s.ourNs with
  | some ns => (ns, s)
  | none =>
    let (ns, s) := getNsHierarchy w 0 1 s
    (ns.headD 0, { s with ourNs := some (ns.headD 0) })

def updateProcData (procPid : Nat) (type : PidType) (pd : ProcData) (s : State) :
    Option ProcData × State :=
  let (ns, s) := getNsHierarchy w procPid maxNsDepth s
  let ids := getIdList w procPid type
  if ns = [] ∨ ids = [] then (none, s.setProcData procPid none)
  else
    let pd := { nsHierarchy := ns, idHierarchy := Function.update pd.idHierarchy type ids }
    (some pd, s.setProcData procPid (some pd))

/-! ## Translation -/

structure Query where
  fromNs : UInt32
  fromId : Nat
  type : PidType

structure Found where
  resultId : Nat := 0
  pd : Option Nat := none
  deriving DecidableEq, Repr

def searchLevels (q : Query) (ids : List Nat) (ourId : Nat) : Nat → List UInt32 → Option Nat
  | _, [] => none
  | i, ns :: above =>
    if ns ≠ q.fromNs then searchLevels q ids ourId (i + 1) above
    else if ids.getD (ids.length - i - 1) 0 ≠ q.fromId then none
    else some ourId

variable (q : Query)

def translateFrom (procPid : Nat) (ns : List UInt32) (ids : List Nat) : Found :=
  if ns = [] ∨ ids.length < ns.length then {}
  else
    match searchLevels q ids (ids.getD (ids.length - ns.length) 0) 0 ns with
    | none => {}
    | some ourId => ⟨ourId, some procPid⟩

def translateIdProcPid (procPid : Nat) (s : State) : Found × State :=
  match updateProcData w procPid q.type ((s.procDataCache procPid).getD {}) s with
  | (none, s) => ({}, s)
  | (some pd, s) => (translateFrom q procPid pd.nsHierarchy (pd.idHierarchy q.type), s)

def readDir (visit : Nat → Found × State → Found × State) :
    List DirEntry → Found × State → Found × State
  | [], x => x
  | entry :: rest, x =>
    if x.1.resultId ≠ 0 then x
    else
      match entry.procPid with
      | none => readDir visit rest x
      | some procPid => readDir visit rest (visit procPid x)

def translateTaskDir (procPid : Nat) (x : Found × State) : Found × State :=
  match w.task procPid with
  | none => x
  | some entries => readDir (fun task x => translateIdProcPid w q task x.2) entries x

def translateProcess (procPid : Nat) (x : Found × State) : Found × State :=
  let x := translateTaskDir w q procPid x
  if x.1.resultId ≠ 0 then x else translateIdProcPid w q procPid x.2

/-- `translate_id_dir` for `/proc`. -/
def translateIdDir (x : Found × State) : Found × State :=
  match w.root with
  | none => x
  | some entries => readDir (translateProcess w q) entries x

def procDataCacheIteratorFn (x : Found × State) (key : Nat) :
    Found × State :=
  match x.2.procDataCache key with
  | none => x
  | some pd =>
    if x.1.resultId ≠ 0 then x
    else
      let found := translateFrom q key pd.nsHierarchy (pd.idHierarchy q.type)
      if found.resultId = 0 then (found, x.2) else translateIdProcPid w q key x.2

def tryCachedProcPid (s : State) : Found × State :=
  let cachedProcPid := s.getCachedProcPid q.fromNs q.fromId q.type
  if cachedProcPid ≠ 0 then translateIdProcPid w q cachedProcPid s else ({}, s)

def lookUp (s : State) : Found × State :=
  let x := tryCachedProcPid w q s
  if x.1.resultId ≠ 0 then x
  else
    let x := (List.range s.pidMax).foldl (procDataCacheIteratorFn w q) x
    if x.1.resultId ≠ 0 then x else translateIdDir w q x

structure Answer where
  id : Nat := 0
  procPid : Option Nat := none
  deriving DecidableEq, Repr

abbrev TcbNs := Option (State → UInt32 × State)

def isTrivial (tcbNs : TcbNs) (wantsProcPid : Bool) (s : State) : Bool × State :=
  let (same, s) :=
    match tcbNs with
    | none => (true, s)
    | some getNs =>
      let (theirs, s) := getNs s
      let (ours, s) := getOurNs w s
      (theirs == ours, s)
  if !same then (false, s)
  else if !wantsProcPid then (true, s)
  else isProcOurs w s

def fromNamespace (tcbNs : TcbNs) (s : State) : UInt32 × State :=
  match tcbNs with
  | none => getOurNs w s
  | some getNs => getNs s

def translateFromNs (wantsProcPid : Bool) (s : State) : Answer × State :=
  if q.fromNs = 0 ∨ s.nsGetParentEnotty then ({}, s)
  else
    let (found, s) := lookUp w q s
    match found.pd with
    | none => ({ id := found.resultId }, s)
    | some procPid =>
      ({ id := found.resultId, procPid := if wantsProcPid then some procPid else none },
        if procPid ≠ 0 then s.putProcPid q.fromNs q.fromId q.type procPid else s)

def translatePidWith (tcbNs : TcbNs) (fromId : Int) (type : Option PidType)
    (wantsProcPid : Bool) (s : State) : Answer × State :=
  match type with
  | none => ({}, s)
  | some type =>
    if fromId ≤ 0 then ({}, s)
    else
      let (trivial, s) := isTrivial w tcbNs wantsProcPid s
      if trivial then
        ({ id := fromId.toNat, procPid := if wantsProcPid then some fromId.toNat else none }, s)
      else
        let (fromNs, s) := fromNamespace w tcbNs s
        translateFromNs w ⟨fromNs, fromId.toNat, type⟩ wantsProcPid s

def getNs (i : Nat) (s : State) : UInt32 × State :=
  if s.pidNs i ≠ 0 then (s.pidNs i, s)
  else
    let (answer, s) := translatePidWith w none (s.pid i) (some .tid) true s
    let procPid := answer.procPid.getD 0
    if procPid = 0 then (s.pidNs i, s)
    else
      let (ns, s) := getNsHierarchy w procPid 1 s
      let s := { s with pidNs := Function.update s.pidNs i (ns.headD (s.pidNs i)) }
      (s.pidNs i, s)

def translatePid (tcb : Option Nat) : Int → Option PidType → Bool → State →
    Answer × State :=
  translatePidWith w (tcb.map (getNs w))

end Strace.Pidns
