import Strace.Pidns.Translate
import Strace.Runs

/-! What earlier calls have remembered never changes an answer: everything that
is found with its help is read again from `/proc` before it is returned. -/
namespace Strace.Pidns
open List Packed Tries Runs

/-! ## The first answer -/

section
variable {α : Type} {f : α → Nat}

def firstNonzero (f : α → Nat) : List α → Nat
  | [] => 0
  | a :: rest => if f a ≠ 0 then f a else firstNonzero f rest

theorem firstNonzero_append (l l' : List α) : firstNonzero f (l ++ l') =
    if firstNonzero f l ≠ 0 then firstNonzero f l else firstNonzero f l' := by
  induction l with
  | nil => rfl
  | cons a rest ih =>
    rw [cons_append, firstNonzero, firstNonzero, ih]
    by_cases zero : f a = 0 <;> simp [zero]

theorem firstNonzero_flatMap {β : Type} (g : β → List α) (l : List β) :
    firstNonzero f (l.flatMap g) = firstNonzero (fun b => firstNonzero f (g b)) l := by
  induction l with
  | nil => rfl
  | cons b rest ih => rw [flatMap_cons, firstNonzero_append, ih, firstNonzero]

theorem firstNonzero_eq {l : List α} {a : α} (mem : a ∈ l) (answers : f a ≠ 0)
    (agree : ∀ b ∈ l, f b ≠ 0 → f b = f a) : firstNonzero f l = f a := by
  induction l with
  | nil => cases mem
  | cons b rest ih =>
    rw [firstNonzero]
    split
    · next first => exact agree b mem_cons_self first
    · next silent =>
      have later : a ∈ rest := by
        rcases mem_cons.mp mem with rfl | later
        · exact absurd answers silent
        · exact later
      exact ih later fun b mem => agree b (mem_cons_of_mem _ mem)

end

/-! ## What the kernel shows -/

variable (w : Proc)

def nsOf (procPid size : Nat) : List UInt32 :=
  match w.nsPid procPid with
  | none => []
  | some file => (nsHierarchyOf false file size).1

def shownId (q : Query) (procPid : Nat) : Nat :=
  if nsOf w procPid maxNsDepth = [] ∨ getIdList w procPid q.type = [] then 0
  else (translateFrom q procPid (nsOf w procPid maxNsDepth) (getIdList w procPid q.type)).resultId

/-- The processes that a directory names. -/
def pidsIn (dir : Option (List DirEntry)) : List Nat := (dir.getD []).filterMap DirEntry.procPid

def scanned : List Nat :=
  (pidsIn w.root).flatMap fun procPid => pidsIn (w.task procPid) ++ [procPid]

def NsFile.Supported : NsFile → Prop
  | .top _ errno => errno ≠ .enotty
  | .inner _ parent => parent.Supported

/-- What is assumed of the kernel. -/
structure Kernel (w : Proc) : Prop where
  /-- `NS_GET_PARENT` is supported -/
  supported : ∀ procPid file, w.nsPid procPid = some file → file.Supported
  /-- each id of a namespace has one id in strace's namespace -/
  consistent : ∀ q procPid procPid', 0 < q.fromId → procPid ≠ 0 → procPid' ≠ 0 →
    shownId w q procPid ≠ 0 → shownId w q procPid' ≠ 0 → shownId w q procPid = shownId w q procPid'
  /-- a process whose files can be read is listed -/
  listed : ∀ procPid type, procPid ≠ 0 → nsOf w procPid maxNsDepth ≠ [] →
    getIdList w procPid type ≠ [] → procPid ∈ scanned w

/-- The namespace of strace itself. -/
def ourNsNow : UInt32 := (nsOf w 0 1).headD 0

section
variable {w : Proc} {q : Query} {s : State} {procPid : Nat}
  {visit : Nat → Found × State → Found × State} {x : Found × State}

theorem DirEntry.procPid_ne_zero {entry : DirEntry} (some : entry.procPid = some procPid) :
    procPid ≠ 0 := by
  unfold DirEntry.procPid at some
  split at some
  · cases some
  · split at some
    · cases some
    · grind

theorem DirEntry.procPid_number (process : procPid ≠ 0) (small : procPid ≤ intMax) :
    DirEntry.procPid { number := some (procPid : Int) } = some procPid := by
  have inside : ¬ ((procPid : Int) < 1 ∨ (procPid : Int) > intMax) := by omega
  simp only [DirEntry.procPid, if_neg inside]
  rfl

theorem nsHierarchyOf_supported {file : NsFile} (supported : file.Supported) (size : Nat) :
    (nsHierarchyOf false file size).2 = false := by
  induction file generalizing size with
  | top ino errno =>
    cases size with
    | zero => rfl
    | succ size =>
      cases ino with
      | none => rfl
      | some ino =>
        have other := beq_eq_false_iff_ne.mpr supported
        simp [nsHierarchyOf, other]
  | inner ino parent ih =>
    cases size with
    | zero => rfl
    | succ size =>
      cases ino with
      | none => rfl
      | some ino =>
        rw [nsHierarchyOf]
        split
        · rfl
        · exact ih supported size

structure Ready (w : Proc) (s : State) : Prop where
  supported : s.nsGetParentEnotty = false
  positive : s.procDataCache 0 = none
  ours : ∀ ns, s.ourNs = some ns → ns = ourNsNow w

theorem Ready.getNsHierarchy (ready : Ready w s) (kernel : Kernel w) (procPid size : Nat) :
    getNsHierarchy w procPid size s = (nsOf w procPid size, s) := by
  unfold Pidns.getNsHierarchy nsOf
  cases file : w.nsPid procPid with
  | none => rfl
  | some file =>
    have supported := nsHierarchyOf_supported (kernel.supported procPid _ file) size
    simp only [ready.supported, supported]
    rw [← ready.supported]

theorem Ready.setProcData (ready : Ready w s) (process : procPid ≠ 0) (pd : Option ProcData) :
    Ready w (s.setProcData procPid pd) := by
  refine ⟨ready.supported, ?_, ready.ours⟩
  have other : ¬ (0 = procPid ∧ procPid < 2 ^ s.pidMaxSize) := fun both => process both.1.symm
  exact (if_neg other).trans ready.positive

theorem Ready.translateIdProcPid (ready : Ready w s) (kernel : Kernel w) (process : procPid ≠ 0) :
    (translateIdProcPid w q procPid s).1.resultId = shownId w q procPid ∧
      Ready w (translateIdProcPid w q procPid s).2 := by
  unfold Pidns.translateIdProcPid updateProcData shownId
  rw [ready.getNsHierarchy kernel]
  by_cases unread : nsOf w procPid maxNsDepth = [] ∨ getIdList w procPid q.type = []
  · simp only [if_pos unread, true_and]
    exact ready.setProcData process none
  · simp only [if_neg unread, Function.update_self, true_and]
    exact ready.setProcData process _

/-! ## The scan -/

theorem readDir_done (entries : List DirEntry) (done : x.1.resultId ≠ 0) :
    readDir visit entries x = x := by
  cases entries with
  | nil => rfl
  | cons entry rest => rw [readDir, if_pos done]

theorem readDir_spec {f : Nat → Nat}
    (visited : ∀ procPid x, procPid ≠ 0 → Ready w x.2 → x.1.resultId = 0 →
      (visit procPid x).1.resultId = f procPid ∧ Ready w (visit procPid x).2)
    (entries : List DirEntry) (ready : Ready w x.2) (empty : x.1.resultId = 0) :
    (readDir visit entries x).1.resultId = firstNonzero f (entries.filterMap DirEntry.procPid) ∧
      Ready w (readDir visit entries x).2 := by
  induction entries generalizing x with
  | nil => exact ⟨empty, ready⟩
  | cons entry rest ih =>
    rw [readDir, if_neg (not_not.mpr empty)]
    cases named : entry.procPid with
    | none =>
      grind
    | some procPid =>
      obtain ⟨result, after⟩ := visited procPid x (DirEntry.procPid_ne_zero named) ready empty
      rw [filterMap_cons_some named, firstNonzero]
      by_cases silent : f procPid = 0
      · grind
      · rw [if_pos silent]
        have done : (visit procPid x).1.resultId ≠ 0 := by rw [result]; exact silent
        simp only [readDir_done rest done]
        exact ⟨result, after⟩

section
variable {x : Found × State} (ready : Ready w x.2) (empty : x.1.resultId = 0) (kernel : Kernel w)
include ready empty kernel

theorem Ready.translateTaskDir (procPid : Nat) :
    (translateTaskDir w q procPid x).1.resultId =
        firstNonzero (shownId w q) (pidsIn (w.task procPid)) ∧
      Ready w (translateTaskDir w q procPid x).2 := by
  unfold Pidns.translateTaskDir
  cases w.task procPid with
  | none => exact ⟨empty, ready⟩
  | some entries =>
    apply readDir_spec _ entries ready empty
    intro task x process ready _
    exact ready.translateIdProcPid kernel process

theorem Ready.translateProcess {procPid : Nat} (process : procPid ≠ 0) :
    (translateProcess w q procPid x).1.resultId =
        firstNonzero (shownId w q) (pidsIn (w.task procPid) ++ [procPid]) ∧
      Ready w (translateProcess w q procPid x).2 := by
  obtain ⟨result, after⟩ := ready.translateTaskDir empty kernel procPid
  rw [firstNonzero_append, ← result]
  unfold Pidns.translateProcess
  simp only
  split
  · exact ⟨rfl, after⟩
  · obtain ⟨own, last⟩ := after.translateIdProcPid kernel process
    refine ⟨own.trans ?_, last⟩
    rw [firstNonzero]
    split
    · rfl
    · next silent => exact not_not.mp silent

theorem Ready.translateIdDir :
    (translateIdDir w q x).1.resultId = firstNonzero (shownId w q) (scanned w) ∧
      Ready w (translateIdDir w q x).2 := by
  unfold Pidns.translateIdDir scanned
  rw [firstNonzero_flatMap]
  cases w.root with
  | none => exact ⟨empty, ready⟩
  | some entries =>
    apply readDir_spec _ entries ready empty
    intro procPid x process ready empty
    exact ready.translateProcess empty kernel process

end

/-! ## The caches -/

def Backed (w : Proc) (q : Query) (x : Found × State) : Prop :=
  x.1.resultId = 0 ∨ ∃ procPid, procPid ≠ 0 ∧ x.1.resultId = shownId w q procPid

def Shown (w : Proc) (q : Query) (found : Found) : Prop :=
  found.resultId ≠ 0 → ∃ procPid, procPid ≠ 0 ∧ found.pd = some procPid ∧
    found.resultId = shownId w q procPid

theorem shown_of_silent {found : Found} (silent : found.resultId = 0) : Shown w q found :=
  fun answers => absurd silent answers

theorem Shown.backed (shown : Shown w q x.1) : Backed w q x := by
  by_cases silent : x.1.resultId = 0
  · exact .inl silent
  · obtain ⟨procPid, process, -, result⟩ := shown silent
    exact .inr ⟨procPid, process, result⟩

theorem translateFrom_pd (procPid : Nat) {ns : List UInt32} {ids : List Nat}
    (answers : (translateFrom q procPid ns ids).resultId ≠ 0) :
    (translateFrom q procPid ns ids).pd = some procPid := by
  unfold translateFrom at answers ⊢
  split
  · grind
  · next deep =>
    split
    · grind
    · rfl

theorem Ready.translateIdProcPid_shown (ready : Ready w s) (kernel : Kernel w)
    (process : procPid ≠ 0) : Shown w q (Pidns.translateIdProcPid w q procPid s).1 ∧
      Ready w (Pidns.translateIdProcPid w q procPid s).2 := by
  obtain ⟨result, after⟩ := ready.translateIdProcPid kernel process
  refine ⟨fun answers => ⟨procPid, process, ?_, result⟩, after⟩
  unfold Pidns.translateIdProcPid at answers ⊢
  split
  · grind
  · next read =>
    rw [read] at answers
    exact translateFrom_pd procPid answers

theorem Ready.iteratorFn (kernel : Kernel w) (ready : Ready w x.2) (shown : Shown w q x.1)
    (key : Nat) : Shown w q (procDataCacheIteratorFn w q x key).1 ∧
      Ready w (procDataCacheIteratorFn w q x key).2 := by
  unfold procDataCacheIteratorFn
  split
  · exact ⟨shown, ready⟩
  · next pd cached =>
    have process : key ≠ 0 := by
      rintro rfl
      cases ready.positive.symm.trans cached
    split
    · exact ⟨shown, ready⟩
    · grind [shown_of_silent, ready.translateIdProcPid_shown]

theorem Ready.iterate (kernel : Kernel w) (keys : List Nat) (ready : Ready w x.2)
    (shown : Shown w q x.1) :
    Shown w q (keys.foldl (procDataCacheIteratorFn w q) x).1 ∧
      Ready w (keys.foldl (procDataCacheIteratorFn w q) x).2 := by
  induction keys generalizing x with
  | nil => exact ⟨shown, ready⟩
  | cons key rest ih =>
    obtain ⟨still, after⟩ := ready.iteratorFn kernel shown key
    exact ih after still

theorem ne_zero_of_mem_pidsIn {dir : Option (List DirEntry)} (mem : procPid ∈ pidsIn dir) :
    procPid ≠ 0 := by
  obtain ⟨entry, _, named⟩ := mem_filterMap.mp mem
  exact entry.procPid_ne_zero named

theorem ne_zero_of_mem_scanned (mem : procPid ∈ scanned w) : procPid ≠ 0 := by
  obtain ⟨leader, found, mem⟩ := mem_flatMap.mp mem
  rcases mem_append.mp mem with task | own
  · exact ne_zero_of_mem_pidsIn task
  · grind [ne_zero_of_mem_pidsIn]

theorem Kernel.scan_eq (kernel : Kernel w) (valid : 0 < q.fromId) (process : procPid ≠ 0)
    (answers : shownId w q procPid ≠ 0) :
    firstNonzero (shownId w q) (scanned w) = shownId w q procPid := by
  have read : ¬ (nsOf w procPid maxNsDepth = [] ∨ getIdList w procPid q.type = []) := by
    intro unread
    exact answers (if_pos unread)
  rw [not_or] at read
  apply firstNonzero_eq (kernel.listed procPid q.type process read.1 read.2) answers
  intro other mem shown
  exact kernel.consistent q other procPid valid (ne_zero_of_mem_scanned mem) process shown answers

theorem Kernel.backed_eq (kernel : Kernel w) (valid : 0 < q.fromId) (backed : Backed w q x)
    (found : x.1.resultId ≠ 0) :
    x.1.resultId = firstNonzero (shownId w q) (scanned w) := by
  rcases backed with none | ⟨procPid, process, shown⟩
  · exact absurd none found
  · rw [shown] at found ⊢
    exact (kernel.scan_eq valid process found).symm

theorem Ready.tryCachedProcPid (ready : Ready w s) (kernel : Kernel w) :
    Shown w q (tryCachedProcPid w q s).1 ∧ Ready w (tryCachedProcPid w q s).2 := by
  unfold Pidns.tryCachedProcPid
  simp only
  split
  · next process => exact ready.translateIdProcPid_shown kernel process
  · exact ⟨shown_of_silent rfl, ready⟩

theorem Ready.lookUp (ready : Ready w s) (kernel : Kernel w) (valid : 0 < q.fromId) :
    (lookUp w q s).1.resultId = firstNonzero (shownId w q) (scanned w) ∧
      Ready w (lookUp w q s).2 := by
  obtain ⟨first, after⟩ := ready.tryCachedProcPid kernel
  unfold Pidns.lookUp
  simp only
  split
  · next found => exact ⟨kernel.backed_eq valid first.backed found, after⟩
  · obtain ⟨second, after⟩ := after.iterate kernel (List.range s.pidMax) first
    split
    · next found => exact ⟨kernel.backed_eq valid second.backed found, after⟩
    · next silent => exact after.translateIdDir (not_not.mp silent) kernel

/-! ## Calls -/

theorem Ready.isProcOurs (ready : Ready w s) : Ready w (isProcOurs w s).2 := by
  unfold Pidns.isProcOurs
  split
  · exact ready
  · exact ⟨ready.supported, ready.positive, ready.ours⟩

def Keeps (w : Proc) (tcbNs : TcbNs) : Prop :=
  ∀ getNs ∈ tcbNs, ∀ s, Ready w s → Ready w (getNs s).2

section
variable (ready : Ready w s) (kernel : Kernel w)
include ready kernel

theorem Ready.getOurNs :
    (getOurNs w s).1 = ourNsNow w ∧ Ready w (getOurNs w s).2 := by
  unfold Pidns.getOurNs
  split
  · next ns known => exact ⟨ready.ours ns known, ready⟩
  · rw [ready.getNsHierarchy kernel]
    exact ⟨rfl, ready.supported, ready.positive, fun ns known => (Option.some.inj known).symm⟩

variable {tcbNs : TcbNs}

theorem Ready.isTrivial (keeps : Keeps w tcbNs) (wantsProcPid : Bool) :
    Ready w (isTrivial w tcbNs wantsProcPid s).2 := by
  have test (same : Bool) {s : State} (ready : Ready w s) :
      Ready w (if !same then (false, s) else if !wantsProcPid then (true, s)
        else Pidns.isProcOurs w s).2 := by
    split
    · exact ready
    · split
      · exact ready
      · exact ready.isProcOurs
  cases tcbNs with
  | none => exact test true ready
  | some getNs => exact test _ ((keeps getNs rfl s ready).getOurNs kernel).2

theorem Ready.fromNamespace (keeps : Keeps w tcbNs) : Ready w (fromNamespace w tcbNs s).2 := by
  cases tcbNs with
  | none => exact (ready.getOurNs kernel).2
  | some getNs => exact keeps getNs rfl s ready

theorem Ready.translateFromNs (valid : 0 < q.fromId)
    (wantsProcPid : Bool) :
    (translateFromNs w q wantsProcPid s).1.id =
        (if q.fromNs = 0 then 0 else firstNonzero (shownId w q) (scanned w)) ∧
      Ready w (translateFromNs w q wantsProcPid s).2 := by
  unfold Pidns.translateFromNs
  by_cases unknown : q.fromNs = 0
  · grind
  · have goes : ¬ (q.fromNs = 0 ∨ s.nsGetParentEnotty = true) := by
      rw [ready.supported]
      simpa using unknown
    rw [if_neg goes, if_neg unknown]
    obtain ⟨result, after⟩ := ready.lookUp kernel valid
    generalize Pidns.lookUp w q s = x at result after ⊢
    obtain ⟨⟨resultId, pd⟩, s'⟩ := x
    cases pd with
    | none => exact ⟨result, after⟩
    | some procPid =>
      refine ⟨result, ?_⟩
      simp only
      split
      · exact ⟨after.supported, after.positive, after.ours⟩
      · exact after

theorem Ready.translatePidWith (keeps : Keeps w tcbNs) (fromId : Int) (type : Option PidType)
    (wantsProcPid : Bool) :
    Ready w (translatePidWith w tcbNs fromId type wantsProcPid s).2 := by
  unfold Pidns.translatePidWith
  split
  · exact ready
  · split
    · exact ready
    · have tested := ready.isTrivial kernel keeps wantsProcPid
      simp only
      split
      · exact tested
      · have valid : 0 < fromId.toNat := by omega
        exact ((tested.fromNamespace kernel keeps).translateFromNs kernel valid wantsProcPid).2

theorem Ready.getNs (i : Nat) : Ready w (getNs w i s).2 := by
  have none : Keeps w none := fun _ mem => by cases mem
  unfold Pidns.getNs
  split
  · exact ready
  · have asked := ready.translatePidWith kernel none (s.pid i) (some .tid) true
    simp only
    split
    · exact asked
    · rw [asked.getNsHierarchy kernel]
      exact ⟨asked.supported, asked.positive, asked.ours⟩

end

theorem keeps_getNs (kernel : Kernel w) (tcb : Option Nat) : Keeps w (tcb.map (getNs w)) := by
  intro get mem s ready
  obtain ⟨i, _, rfl⟩ := Option.map_eq_some_iff.mp mem
  exact ready.getNs kernel i

end

/-! ## Runs -/

structure World where
  proc : Proc
  state : State

inductive Event where
  /-- processes are created, exit, and their pids are used again -/
  | changes (proc : Proc)
  /-- a tcb is given to a process, or to another one -/
  | attaches (i pid : Nat)
  /-- `translate_pid` is called -/
  | translates (tcb : Option Nat) (fromId : Int) (type : Option PidType) (wantsProcPid : Bool)

def World.after (u : World) : Event → World
  | .changes proc => { u with proc }
  | .attaches i pid =>
    { u with
      state := { u.state with
        pid := Function.update u.state.pid i pid
        pidNs := Function.update u.state.pidNs i 0 } }
  | .translates tcb fromId type wantsProcPid =>
    { u with state := (translatePid u.proc tcb fromId type wantsProcPid u.state).2 }

def Step (u : World) (event : Event) (u' : World) : Prop := u' = u.after event

def Start (u : World) : Prop := Kernel u.proc ∧ ∃ pidMax, u.state = { pidMax }

/-- Strace itself stays in its namespace. -/
def Lawful (u : World) : Event → Prop
  | .changes proc => Kernel proc ∧ proc.nsPid 0 = u.proc.nsPid 0
  | _ => True

variable {u : World}

theorem Ready.step {u' : World} {event : Event} (kernel : Kernel u.proc)
    (ready : Ready u.proc u.state) (lawful : Lawful u event) (step : Step u event u') :
    Kernel u'.proc ∧ Ready u'.proc u'.state := by
  subst step
  cases event with
  | changes proc =>
    have same : ourNsNow proc = ourNsNow u.proc := by
      simp [lawful.2, ourNsNow, nsOf]
    exact ⟨lawful.1, ready.supported, ready.positive, fun ns known =>
      (ready.ours ns known).trans same.symm⟩
  | attaches i pid => exact ⟨kernel, ready.supported, ready.positive, ready.ours⟩
  | translates tcb fromId type wantsProcPid =>
    exact ⟨kernel, ready.translatePidWith kernel (keeps_getNs kernel tcb) fromId type wantsProcPid⟩

theorem Ready.run (run : Run Start Step Lawful u) : Kernel u.proc ∧ Ready u.proc u.state := by
  apply run.invariant (P := fun u => Kernel u.proc ∧ Ready u.proc u.state)
  · rintro u ⟨kernel, pidMax, start⟩
    rw [start]
    exact ⟨kernel, rfl, rfl, fun ns known => by cases known⟩
  · intro u event u' ready lawful step
    exact ready.2.step ready.1 lawful step

/-- The test of a call for the trivial case. -/
def Trivial (u : World) (tcb : Option Nat) (wantsProcPid : Bool) : Prop :=
  (isTrivial u.proc (tcb.map (getNs u.proc)) wantsProcPid u.state).1 = true

instance (u : World) (tcb : Option Nat) (wantsProcPid : Bool) :
    Decidable (Trivial u tcb wantsProcPid) :=
  inferInstanceAs (Decidable (_ = _))

def callNs (u : World) (tcb : Option Nat) (wantsProcPid : Bool) : UInt32 :=
  let tcbNs := tcb.map (getNs u.proc)
  (fromNamespace u.proc tcbNs (isTrivial u.proc tcbNs wantsProcPid u.state).2).1

def freshScan (pidMax : Nat) (fromNs : UInt32) (fromId : Int) (type : Option PidType) :
    Nat :=
  match type with
  | none => 0
  | some type =>
    if fromId ≤ 0 ∨ fromNs = 0 then 0
    else (translateIdDir w ⟨fromNs, fromId.toNat, type⟩ ({}, { pidMax })).1.resultId

theorem freshScan_eq {w : Proc} (kernel : Kernel w) (pidMax : Nat) {fromNs : UInt32} {fromId : Int}
    (positive : ¬ fromId ≤ 0) (type : PidType) :
    freshScan w pidMax fromNs fromId (some type) =
      if fromNs = 0 then 0
      else firstNonzero (shownId w ⟨fromNs, fromId.toNat, type⟩) (scanned w) := by
  have empty : Ready w { pidMax } := ⟨rfl, rfl, fun ns known => by cases known⟩
  unfold freshScan
  by_cases unknown : fromNs = 0
  · simp only [unknown, or_true, if_true]
  · simpa [positive, unknown] using (Ready.translateIdDir empty rfl kernel).1

/-- In every run, whatever processes there have been and whatever has been asked
before, a call that is not trivial returns what a fresh scan of `/proc` gives. -/
theorem translate_pid_is_fresh (u : World) (run : Run Start Step Lawful u) (tcb : Option Nat)
    (fromId : Int) (type : Option PidType) (wantsProcPid : Bool)
    (nontrivial : ¬ Trivial u tcb wantsProcPid) :
    (translatePid u.proc tcb fromId type wantsProcPid u.state).1.id =
        freshScan u.proc u.state.pidMax (callNs u tcb wantsProcPid) fromId type ∧
      (tcb = none → callNs u tcb wantsProcPid = ourNsNow u.proc) := by
  obtain ⟨kernel, ready⟩ := Ready.run run
  have keeps := keeps_getNs kernel tcb
  have tested := ready.isTrivial kernel keeps wantsProcPid
  constructor
  · cases type with
    | none => rfl
    | some type =>
      by_cases negative : fromId ≤ 0
      · rw [translatePid, translatePidWith, freshScan, if_pos negative, if_pos (.inl negative)]
      · have answer := (tested.fromNamespace kernel keeps).translateFromNs
          (q := ⟨callNs u tcb wantsProcPid, fromId.toNat, type⟩) kernel (by simp only; omega)
          wantsProcPid
        rw [freshScan_eq kernel u.state.pidMax negative type, ← answer.1, translatePid,
          translatePidWith, if_neg negative]
        rw [Trivial] at nontrivial
        simp only [if_neg nontrivial]
        rfl
  · rintro rfl
    exact (tested.getOurNs kernel).1

def procOf (pids : List Nat) (inner : Nat → Option (Option Nat)) : Proc where
  root := some (pids.map fun (pid : Nat) => { number := some pid })
  task procPid := some [{ number := some procPid }]
  nsPid procPid :=
    if procPid = 0 then some (.top (some 2) .eperm)
    else
      (inner procPid).map fun id =>
        if id = none then .top (some 2) .eperm else .inner (some 3) (.top (some 2) .eperm)
  status _ procPid :=
    match inner procPid with
    | some (some id) => ⟨[procPid, id], by simp [maxNsDepth]⟩
    | some none => ⟨[procPid], by simp [maxNsDepth]⟩
    | none => {}

section
variable {pids : List Nat} {inner : Nat → Option (Option Nat)} {q : Query} {procPid : Nat}

theorem nsOf_procOf (process : procPid ≠ 0) : nsOf (procOf pids inner) procPid maxNsDepth =
    (inner procPid).elim [] fun id => if id = none then [2] else [3, 2] := by
  unfold nsOf procOf
  simp only [if_neg process]
  cases inner procPid with
  | none => rfl
  | some id => cases id <;> rfl

theorem getIdList_procOf (type : PidType) : getIdList (procOf pids inner) procPid type =
    (inner procPid).elim [] fun id => procPid :: id.toList := by
  unfold getIdList procOf
  cases named : inner procPid with
  | none => simp only [named]; rfl
  | some id => cases id <;> simp only [named] <;> rfl

theorem shownId_procOf (process : procPid ≠ 0) (shown : shownId (procOf pids inner) q procPid ≠ 0) :
    shownId (procOf pids inner) q procPid = procPid ∧
      (q.fromNs = 3 ∧ inner procPid = some (some q.fromId) ∨ q.fromNs = 2 ∧
        procPid = q.fromId) := by
  revert shown
  rw [shownId, nsOf_procOf process, getIdList_procOf]
  cases inner procPid with
  | none => exact fun shown => absurd rfl shown
  | some id =>
    by_cases outer : q.fromNs = 2
    · cases id <;> by_cases same : procPid = q.fromId <;>
        simp [translateFrom, searchLevels, outer, same]
    · have notOuter := Ne.symm outer
      cases id with
      | none => simp [translateFrom, searchLevels, notOuter]
      | some id =>
        by_cases nested : 3 = q.fromNs
        · by_cases same : id = q.fromId <;> simp [translateFrom, searchLevels, ← nested, same]
        · simp [translateFrom, searchLevels, nested, notOuter]

theorem kernel_procOf (listed : ∀ procPid, inner procPid ≠ none → procPid ∈ pids)
    (valid : ∀ procPid ∈ pids, procPid ≤ intMax)
    (distinct : ∀ procPid procPid' id, inner procPid = some (some id) →
      inner procPid' = some (some id) → procPid = procPid') : Kernel (procOf pids inner) := by
  constructor
  · intro procPid file shown
    simp only [procOf] at shown
    split at shown
    · obtain rfl := Option.some.inj shown
      exact ParentErrno.noConfusion
    · obtain ⟨id, _, rfl⟩ := Option.map_eq_some_iff.mp shown
      cases id <;> exact ParentErrno.noConfusion
  · intro q procPid procPid' _ process process' shown shown'
    obtain ⟨own, place⟩ := shownId_procOf process shown
    obtain ⟨own', place'⟩ := shownId_procOf process' shown'
    rw [own, own']
    rcases place with ⟨nested, named⟩ | ⟨outer, same⟩ <;>
      rcases place' with ⟨nested', named'⟩ | ⟨outer', same'⟩
    · exact distinct procPid procPid' q.fromId named named'
    · cases nested.symm.trans outer'
    · cases outer.symm.trans nested'
    · exact same.trans same'.symm
  · intro procPid type process read _
    have mem : procPid ∈ pids := by
      apply listed
      intro absent
      rw [nsOf_procOf process, absent] at read
      exact read rfl
    have named := DirEntry.procPid_number process (valid procPid mem)
    refine mem_flatMap.mpr ⟨procPid, mem_filterMap.mpr ⟨_, ?_, named⟩, ?_⟩
    · exact mem_map.mpr ⟨procPid, mem, rfl⟩
    · exact mem_append_right _ mem_cons_self

end

def before : Proc :=
  procOf [7, 8] fun pid =>
    if pid = 7 then some (some 1) else if pid = 8 then some (some 5) else none

def later : Proc :=
  procOf [7, 8, 9] fun pid =>
    if pid = 7 then some (some 1) else if pid = 8 then some none
    else if pid = 9 then some (some 5) else none

theorem kernel_before : Kernel before := by
  apply kernel_procOf
  · grind
  · decide
  · grind

theorem kernel_later : Kernel later := by
  apply kernel_procOf
  · grind
  · decide
  · grind

def asked : World :=
  (World.after ⟨before, { pidMax := 16 }⟩ (.attaches 0 7)).after
    (.translates (some 0) 5 (some .tid) false)

/-- After the change the call gives the other process, although the first is cached. -/
theorem translate_pid_is_fresh_reused :
    asked.state.getCachedProcPid 3 5 .tid = 8 ∧
      (translatePid later (some 0) 5 (some .tid) false asked.state).1.id = 9 := by
  have start : Run Start Step Lawful ⟨before, { pidMax := 16 }⟩ := .start ⟨kernel_before, 16, rfl⟩
  have attached := start.next (x := Event.attaches 0 7) trivial rfl
  have called := attached.next (x := Event.translates (some 0) 5 (some .tid) false) trivial rfl
  have changed := called.next (x := Event.changes later) ⟨kernel_later, rfl⟩ rfl
  have answer := translate_pid_is_fresh _ changed (some 0) 5 (some .tid) false (by decide)
  exact ⟨by decide, answer.1.trans (by decide)⟩

end Strace.Pidns
