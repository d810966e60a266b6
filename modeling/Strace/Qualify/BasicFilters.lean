import Strace.Config
import Strace.Qualify.StringToUint

/-! `basic_filters.c`: the sets of syscalls that a specification selects. A
string is the list of its characters before the terminating zero. -/
namespace Strace

inductive Fatal where
  | die (msg : String)
  | help (msg : String)
  deriving DecidableEq, Repr

inductive ShuffleScno where
  | generic
  | x86_64
  | x32
  | ia64
  | arm (eabi : Bool)
  | aarch64 (eabi : Bool)
  deriving DecidableEq, Repr

def x32SyscallBit : Nat := 0x40000000
def syscallentBaseNr : Nat := 1024
def sysSocketSubcall : Nat := 500
def sysSocketNsubcalls : Nat := 21
def sysIpcSubcall : Nat := sysSocketSubcall + sysSocketNsubcalls
def sysIpcNsubcalls : Nat := 25
def armLastSpecialSyscall : Nat := 6

def armFirstShuffledSyscall (eabi : Bool) : Nat :=
  if eabi then 500 else sysIpcSubcall + sysIpcNsubcalls

def armShuffleScnoPers (eabi : Bool) (scno : Nat) : Nat :=
  let first := armFirstShuffledSyscall eabi
  let second := first + 1
  if scno < first then scno
  else if scno = first then 0x000ffff0
  else if scno = 0x000ffff0 then first
  else if 0x000f0000 ≤ scno ∧ scno ≤ 0x000f0000 + armLastSpecialSyscall then
    scno - 0x000f0000 + second
  else if scno ≤ second + armLastSpecialSyscall then scno + 0x000f0000 - second
  else scno

def shuffleScnoPers : ShuffleScno → (scno pers : Nat) → Nat
  | .generic, scno, _ => scno
  | .x86_64, scno, pers => if pers = 2 then scno ^^^ x32SyscallBit else scno
  | .x32, scno, pers => if pers = 0 ∧ scno ≠ 2 ^ 64 - 1 then scno ^^^ x32SyscallBit else scno
  | .ia64, scno, _ => scno ^^^ syscallentBaseNr
  | .arm eabi, scno, _ => armShuffleScnoPers eabi scno
  | .aarch64 eabi, scno, pers => if pers = 1 then armShuffleScnoPers eabi scno else scno

structure FilterTables extends Config where
  /-- The `sys_name` fields of `sysent_vec` -/
  sysName : Nat → Nat → Option (List Char)
  personalityDesignators : List (List Char)
  shuffle : ShuffleScno := .generic
  /-- `ARCH_NEEDS_NON_SHUFFLED_SCNO_CHECK` -/
  needsNonShuffledScnoCheck : Bool := false
  /-- `regcomp`: the text of `regerror`, if it fails -/
  regcomp : List Char → Option String
  /-- `regexec` of a compiled pattern: whether it matches, or the text of `regerror` -/
  regexec : List Char → List Char → Except String Bool
  designators_length : personalityDesignators.length = supportedPersonalities
  tables_small : ∀ p, (nsyscallVec p).toNat ≤ 2 ^ 30

abbrev NumberSets := Nat → NumberSet

variable (t : FilterTables)

def FilterTables.nsyscalls (p : Nat) : Nat := (t.nsyscallVec p).toNat

def scnoPersIsValid (scno pers : Nat) : Bool :=
  decide (scno < t.nsyscalls pers) && (t.sysentVec pers scno).sysFunc &&
    ((t.sysentVec pers scno).sysFlags &&& traceIndirectSubcall == 0)

def strrchr : List Char → Char → Option (List Char × List Char)
  | [], _ => none
  | c :: s, x =>
    match strrchr s x with
    | some (before, after) => some (c :: before, after)
    | none => if c = x then some ([], s) else none

def qualifySyscallSeparatePersonality (s : List Char) :
    Except Fatal (Option (List Char × Nat)) :=
  match strrchr s '@' with
  | none => .ok none
  | some (before, after) =>
    match t.personalityDesignators.idxOf? after with
    | some p => .ok (some (before, p))
    | none => .error (.help ("incorrect personality designator '" ++ String.ofList after ++
        "' in qualification '" ++ String.ofList s ++ "'"))

def stringToUint (str : List Char) : Option Nat := stringToUintUpto str 0x7fffffff

def qualifySyscallNumber (str : List Char) (p : Nat) (set : NumberSets) : Bool × NumberSets :=
  let nr := (stringToUint str).getD (2 ^ 32 - 1)
  let scno := shuffleScnoPers t.shuffle nr p % 2 ^ 32
  if scnoPersIsValid t scno p then (true, addNumberToSetArray scno set p)
  else if t.needsNonShuffledScnoCheck && scnoPersIsValid t nr p then
    (true, addNumberToSetArray nr set p)
  else (false, set)

def qualifyEach {α : Type} (body : α → NumberSets → Except Fatal (Bool × NumberSets)) :
    List α → Bool → NumberSets → Except Fatal (Bool × NumberSets)
  | [], found, set => .ok (found, set)
  | x :: xs, found, set =>
    match body x set with
    | .error e => .error e
    | .ok (r, set) => qualifyEach body xs (found || r) set

def regerrorMsgAndDie (str pattern buf : String) : Fatal :=
  .die (str ++ ": " ++ pattern ++ ": " ++ buf)

def regexRound (str : List Char) (p i : Nat) (set : NumberSets) :
    Except Fatal (Bool × NumberSets) :=
  match t.sysName p i with
  | none => .ok (false, set)
  | some name =>
    match t.regexec str name with
    | .ok false => .ok (false, set)
    | .error buf => .error (regerrorMsgAndDie "regexec" (String.ofList str) buf)
    | .ok true => .ok (true, addNumberToSetArray i set p)

def qualifySyscallRegex (str : List Char) (p : Nat) (set : NumberSets) :
    Except Fatal (Bool × NumberSets) :=
  match t.regcomp str with
  | some buf => .error (regerrorMsgAndDie "regcomp" (String.ofList str) buf)
  | none => qualifyEach (regexRound t str p) (List.range (t.nsyscalls p)) false set

def traceFile : UInt32 := 0o1
def traceIpc : UInt32 := 0o2
def traceNetwork : UInt32 := 0o4
def traceProcess : UInt32 := 0o10
def traceSignal : UInt32 := 0o20
def traceDesc : UInt32 := 0o40
def traceMemory : UInt32 := 0o100
def traceStat : UInt32 := 0o4000
def traceLstat : UInt32 := 0o10000
def traceStatfs : UInt32 := 0o20000
def traceFstatfs : UInt32 := 0o40000
def traceStatfsLike : UInt32 := 0o100000
def traceFstat : UInt32 := 0o200000
def traceStatLike : UInt32 := 0o400000
def tracePure : UInt32 := 0o1000000
def traceCreds : UInt32 := 0o4000000
def traceClock : UInt32 := 0o10000000

def syscallClass : List (UInt32 × String) :=
  [(traceDesc, "%desc"),
   (traceFile, "%file"),
   (traceMemory, "%memory"),
   (traceProcess, "%process"),
   (traceCreds, "%creds"),
   (traceSignal, "%signal"),
   (traceIpc, "%ipc"),
   (traceNetwork, "%net"),
   (traceNetwork, "%network"),
   (traceStat, "%stat"),
   (traceLstat, "%lstat"),
   (traceFstat, "%fstat"),
   (traceStatLike, "%%stat"),
   (traceStatfs, "%statfs"),
   (traceFstatfs, "%fstatfs"),
   (traceStatfsLike, "%%statfs"),
   (tracePure, "%pure"),
   (traceClock, "%clock"),
   (0, "all"),
   (traceDesc, "desc"),
   (traceFile, "file"),
   (traceMemory, "memory"),
   (traceProcess, "process"),
   (traceSignal, "signal"),
   (traceIpc, "ipc"),
   (traceNetwork, "network")]

def findXlatValCase (items : List (UInt32 × String)) (s : List Char) : Option UInt32 :=
  (items.find? fun item => item.2.toList = s).map (·.1)

def classRound (n : UInt32) (p : Nat) (set : NumberSets) (i : Nat) : NumberSets :=
  if (t.sysName p i).isSome ∧ (t.sysentVec p i).sysFlags &&& n = n then
    addNumberToSetArray i set p
  else set

def qualifySyscallClass (str : List Char) (p : Nat) (set : NumberSets) : Bool × NumberSets :=
  match findXlatValCase syscallClass str with
  | none => (false, set)
  | some n => (true, (List.range (t.nsyscalls p)).foldl (classRound t n p) set)

def scnoByName (s : List Char) (p start : Nat) : Option Nat :=
  if t.supportedPersonalities ≤ p then none
  else (List.range' start (t.nsyscalls p - start)).find? fun i => t.sysName p i = some s

def nameLoop (s : List Char) (p : Nat) : Nat → Nat → Bool → NumberSets → Bool × NumberSets
  | 0, _, found, set => (found, set)
  | fuel + 1, scno, found, set =>
    match scnoByName t s p scno with
    | none => (found, set)
    | some scno => nameLoop s p fuel (scno + 1) true (addNumberToSetArray scno set p)

def qualifySyscallName (s : List Char) (p : Nat) (set : NumberSets) : Bool × NumberSets :=
  nameLoop t s p (t.nsyscalls p) 0 false set

def qualifySyscallPers (token : List Char) (p : Nat) (set : NumberSets) :
    Except Fatal (Bool × NumberSets) :=
  if token.head?.any Char.isDigit then .ok (qualifySyscallNumber t token p set)
  else if token.head? = some '/' then qualifySyscallRegex t token.tail p set
  else
    match qualifySyscallClass t token p set with
    | (true, set) => .ok (true, set)
    | (false, set) => .ok (qualifySyscallName t token p set)

def skipQuestionMarks : Bool → List Char → Bool × List Char
  | _, '?' :: token => skipQuestionMarks true token
  | rc, token => (rc, token)

def qualifySyscall (token : List Char) (set : NumberSets) : Except Fatal (Bool × NumberSets) :=
  let (rc, token) := skipQuestionMarks false token
  match qualifySyscallSeparatePersonality t token with
  | .error e => .error e
  | .ok (some (str, p)) => qualifyEach (qualifySyscallPers t str) [p] rc set
  | .ok none =>
    qualifyEach (qualifySyscallPers t token) (List.range t.supportedPersonalities) rc set

def strtokR (s : List Char) : Option (List Char × List Char) :=
  match s.dropWhile (· == ',') with
  | [] => none
  | c :: rest =>
    some ((c :: rest).takeWhile (· != ','), ((c :: rest).dropWhile (· != ',')).tail)

def invalidSystemCall (str : List Char) : Fatal :=
  .die ("invalid system call '" ++ String.ofList str ++ "'")

def tokenLoop : Nat → List Char → Bool → NumberSets → Except Fatal (Bool × NumberSets)
  | 0, _, done, set => .ok (done, set)
  | fuel + 1, copy, done, set =>
    match strtokR copy with
    | none => .ok (done, set)
    | some (token, copy) =>
      match qualifySyscall t token set with
      | .error e => .error e
      | .ok (true, set) => tokenLoop fuel copy true set
      | .ok (false, _) => .error (invalidSystemCall token)

/-- Each leading `!` inverts the sets. -/
def invertLeading (nmemb : Nat) : NumberSets → List Char → NumberSets × List Char
  | set, '!' :: s => invertLeading nmemb (invertNumberSetArray set nmemb) s
  | set, s => (set, s)

def qualifySyscallTokens (str : List Char) (set : NumberSets) : Except Fatal NumberSets :=
  let nmemb := t.supportedPersonalities
  let (set, s) := invertLeading nmemb (clearNumberSetArray set nmemb) str
  if s = ['n', 'o', 'n', 'e'] then .ok set
  else if s = ['a', 'l', 'l'] then .ok (invertNumberSetArray set nmemb)
  else
    match tokenLoop t s.length s false set with
    | .error e => .error e
    | .ok (true, set) => .ok set
    | .ok (false, _) => .error (invalidSystemCall str)

end Strace
