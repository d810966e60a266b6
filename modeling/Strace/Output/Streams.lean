import Strace.NumberSet

/-! Where the output of a tcb goes: log files, and the memory streams of
`stage_output.c` that hold back the text of a syscall until its status is known.
The fields that no code reads say which text belongs together. -/
namespace Strace

inductive Stream where
  | log (n : Nat)
  | mem (n : Nat)
  deriving DecidableEq, Repr

structure Piece where
  tracee : Nat
  line : Nat
  call : Nat
  text : String
  deriving DecidableEq, Repr

structure StagedOutput where
  mem : Nat
  realOutf : Option Stream
  deriving DecidableEq, Repr

structure TcbOut where
  outf : Option Stream := none
  stagedOutput : Option StagedOutput := none
  curcol : Nat := 0
  reprint : Bool := false
  log : Nat := 0
  tracee : Nat := 0
  line : Nat := 0
  call : Nat := 0
  text : List Piece := []

structure Done where
  call : Nat
  log : Nat
  failed : Bool
  text : List Piece

@[ext]
structure Output where
  tcbs : Nat → TcbOut := fun _ => {}
  currentTcp : Option Nat := none
  printingTcp : Option Nat := none
  logs : Nat → List Piece := fun _ => []
  mems : Nat → List Piece := fun _ => []
  nextLog : Nat := 1
  nextMem : Nat := 0
  nextLine : Nat := 1
  nextCall : Nat := 1
  nextTracee : Nat := 0
  done : List Done := []
  overStaged : Bool := false

namespace Output
variable (s : Output) (i j : Nat) (t : TcbOut) (text : String) (ps : List Piece)

def setTcb : Output := { s with tcbs := fun j => if j = i then t else s.tcbs j }

@[simp] theorem setTcb_tcbs_self : (s.setTcb i t).tcbs i = t := if_pos rfl

theorem setTcb_tcbs_other {i j : Nat} (other : j ≠ i) : (s.setTcb i t).tcbs j = s.tcbs j :=
  if_neg other

/-- Write to a stream. -/
def write (stream : Option Stream) : Output :=
  { s with
    logs := fun l => if stream = some (.log l) then s.logs l ++ ps else s.logs l
    mems := fun m => if stream = some (.mem m) then s.mems m ++ ps else s.mems m }

/-- What tcb `i` writes with `text`. -/
def piece : Piece := ⟨(s.tcbs i).tracee, (s.tcbs i).line, (s.tcbs i).call, text⟩

/-- `fprintf` to the stream of tcb `i`. -/
def fprintf : Output :=
  (s.write [s.piece i text] (s.tcbs i).outf).setTcb i
    { s.tcbs i with text := (s.tcbs i).text ++ [s.piece i text] }

def setCurcol (curcol : Nat) : Output := s.setTcb i { s.tcbs i with curcol }

def setCurrentTcp (current : Option Nat) : Output := { s with currentTcp := current }

def setPrintingTcp (printing : Option Nat) : Output := { s with printingTcp := printing }

def say : Output := (s.fprintf i text).setCurcol i ((s.tcbs i).curcol + text.length)

def tprintsString : Output :=
  match s.currentTcp with
  | none => s
  | some i => s.say i text

theorem tprintsString_current {s : Output} {i : Nat} (current : s.currentTcp = some i)
    (text : String) : s.tprintsString text = s.say i text := by
  simp [current, tprintsString]

theorem tprintsString_currentTcp : (s.tprintsString text).currentTcp = s.currentTcp := by
  unfold tprintsString
  split <;> rfl

theorem say_tcbs_self : (s.say i text).tcbs i = { s.tcbs i with
    text := (s.tcbs i).text ++ [s.piece i text]
    curcol := (s.tcbs i).curcol + text.length } := by
  simp [say, setCurcol, fprintf]

theorem say_tcbs_other {i j : Nat} (other : j ≠ i) : (s.say i text).tcbs j = s.tcbs j := by
  unfold say setCurcol fprintf
  rw [setTcb_tcbs_other _ _ other, setTcb_tcbs_other _ _ other]
  rfl

theorem say_logs (l : Nat) : (s.say i text).logs l =
    if (s.tcbs i).outf = some (.log l) then s.logs l ++ [s.piece i text] else s.logs l := rfl

theorem say_piece (text' : String) : (s.say i text).piece i text' = s.piece i text' := by
  simp [say_tcbs_self, piece]

def endCurrent : Output :=
  match s.currentTcp with
  | none => s
  | some i => s.setCurcol i 0

def endPrinting : Output :=
  match s.printingTcp with
  | none => s
  | some i => (s.setCurcol i 0).setPrintingTcp none

def lineEnded : Output := s.endCurrent.endPrinting

def straceOpenMemstream : Output :=
  { s with
    mems := fun k => if k = s.nextMem then [] else s.mems k
    nextMem := s.nextMem + 1
    nextCall := s.nextCall + 1
    overStaged := s.overStaged || (s.tcbs i).stagedOutput.isSome }.setTcb i
    { s.tcbs i with
      stagedOutput := some ⟨s.nextMem, (s.tcbs i).outf⟩
      outf := some (.mem s.nextMem)
      call := s.nextCall
      text := [] }

/-- Put the real stream of tcb `i` back. -/
def unstage (data : StagedOutput) : Output :=
  s.setTcb i { s.tcbs i with outf := data.realOutf, stagedOutput := none }

def straceCloseMemstream (publish : Bool) : Output :=
  match (s.tcbs i).stagedOutput with
  | none => s
  | some data =>
    let s := s.unstage i data
    if publish then s.write (s.mems data.mem) data.realOutf else s

def forget : Output :=
  { s with
    currentTcp := if s.currentTcp = some i then none else s.currentTcp
    printingTcp := if s.printingTcp = some i then none else s.printingTcp }.setTcb i {}

def startLine : Output :=
  { s with nextLine := s.nextLine + 1, currentTcp := some i, printingTcp := some i }.setTcb i
    { s.tcbs i with curcol := 0, line := s.nextLine }

def attach (outputSeparately : Bool) : Output :=
  let log := if outputSeparately then s.nextLog else 0
  { s with
    nextLog := s.nextLog + 1
    nextTracee := s.nextTracee + 1
    nextLine := s.nextLine + 1
    nextCall := s.nextCall + 1 }.setTcb i
    { outf := some (.log log), log, tracee := s.nextTracee, line := s.nextLine, call := s.nextCall }

end Output

end Strace
