import Strace.Output.Streams
import Strace.Tracer.Acts

/-! `strace.c` and `syscall.c`: what is printed while an event is dispatched. The
texts of the decoders are inputs; colours are left out, as they do not move the
column. -/
namespace Strace

/-- `enum status_t`. -/
inductive Status where
  | successful
  | failed
  | unfinished
  | unavailable
  | detached
  deriving DecidableEq, Repr

def Status.number : Status → Nat
  | .successful => 0
  | .failed => 1
  | .unfinished => 2
  | .unavailable => 3
  | .detached => 4

def numberOfStatuses : Nat := 5

/-- Of `enum quiet_bits`. -/
def quietExit : Nat := 1
def quietPersonality : Nat := 3
def quietThreadExecve : Nat := 4

/-- `RVAL_DECODED`: the decoder has finished on entering. -/
def rvalDecoded : Nat := 0o100

def wtermsig (status : UInt32) : Nat := (status &&& 0x7f).toNat
def wcoredump (status : UInt32) : Bool := status &&& 0x80 != 0
def wexitstatus (status : UInt32) : Nat := ((status &&& 0xff00) >>> 8).toNat

/-- What the command line says about the output. -/
structure OutputOptions where
  /-- `-ff` -/
  outputSeparately : Bool := false
  statusSet : NumberSet := { not := true }
  signalSet : NumberSet := { not := true }
  quietSet : NumberSet := {}
  /-- `cflag == CFLAG_ONLY_STATS` -/
  onlyStats : Bool := false
  acolumn : Nat := 40
  sprintsigname : Nat → String := fun sig => "SIG_" ++ toString sig
  personalityNames : Nat → String := fun p => toString p

variable (po : OutputOptions)

/-- `!is_complete_set(status_set, NUMBER_OF_STATUSES)`. -/
def OutputOptions.filtersStatus : Bool :=
  !isCompleteSet (some po.statusSet) numberOfStatuses

def OutputOptions.hasStatus (status : Status) : Bool :=
  isNumberInSet status.number (some po.statusSet)

def OutputOptions.quiet (bit : Nat) : Bool :=
  isNumberInSet bit (some po.quietSet)

/-- What is printed while one event is handled, as far as it is found out from the
tracee or the system. -/
structure Texts where
  /-- the pid, the time and so on at the beginning of a line -/
  leader : Nat → String := fun _ => ""
  sysName : String := "????"
  args : String := ""
  /-- what the decoder prints on exiting -/
  exitArgs : String := ""
  result : String := ""
  /-- the lines of `dumpio` -/
  dump : List String := []
  /-- the lines of the stack trace -/
  stack : List String := []
  /-- the lines of `kvm_run_structure_decode` -/
  kvm : List String := []
  siginfo : Option String := none
  restartError : String := ""
  /-- `PTRACE_DETACH` fails with an error that is printed -/
  detachFails : Bool := false

namespace Output
variable (po : OutputOptions) (o : Options) (a : Answers) (x : Texts)

variable (s : Output)

/-- `" <unfinished ...>"` and a newline. -/
def unfinished : Output :=
  ((s.tprintsString " ").tprintsString "<unfinished ...>").tprintsString "\n"

/-- The part of `printleader` that ends the line of the tcb that has printed last. -/
def interruptPrinting (i : Nat) : Output :=
  match s.printingTcp with
  | none => s
  | some p =>
    if (s.tcbs p).curcol ≠ 0 ∧
        (p = i ∨ po.outputSeparately = false ∧ (s.tcbs p).stagedOutput = none) then
      (s.setCurrentTcp (some p)).unfinished.setCurcol p 0
    else s

def printleader (i : Nat) : Output :=
  let s := (if po.outputSeparately then s.setPrintingTcp (some i) else s).interruptPrinting po i
  (s.startLine i).tprintsString (x.leader s.nextLine)

def tabto : Output :=
  match s.currentTcp with
  | none => s
  | some i =>
    if (s.tcbs i).curcol < po.acolumn then
      s.tprintsString (String.ofList (List.replicate (po.acolumn - (s.tcbs i).curcol) ' '))
    else s

/-- A line of its own. -/
def printNotice (i : Nat) (text : String) : Output :=
  (((s.printleader po x i).tprintsString text).tprintsString "\n").lineEnded

/-- Lines without a leader. -/
def printLines (lines : List String) : Output :=
  lines.foldl (fun s line => (s.tprintsString line).tprintsString "\n") s

/-- `unwind_tcb_print`. -/
def unwindTcbPrint : Output :=
  x.stack.foldl (fun s line => ((s.tprintsString line).tprintsString "\n").lineEnded) s

/-- With a filter for the status, the text of a syscall is staged. -/
def openStaged (i : Nat) : Output :=
  if po.filtersStatus then s.straceOpenMemstream i else s

/-- With a filter for the status, text that is staged is published or dropped. -/
def closeStaged (i : Nat) (publish : Bool) : Output :=
  if po.filtersStatus then s.straceCloseMemstream i publish else s

/-- The part of `droptcb` that closes the stream of the tcb. -/
def closeOutput (i : Nat) : Output :=
  match (s.tcbs i).outf with
  | none => s
  | some _ =>
    let publish := !po.filtersStatus || po.hasStatus .detached
    let s := s.closeStaged po i publish
    if (po.outputSeparately ∨ s.printingTcp = some i) ∧ (s.tcbs i).curcol ≠ 0 ∧ publish then
      s.fprintf i " <detached ...>\n"
    else s

def droptcb (i : Nat) : Output := (s.closeOutput po i).forget i

/-- The streams and columns of the leader `i` and the thread are swapped. -/
def swapOutput (i thread : Nat) : Output :=
  let leader := s.tcbs i
  let t := s.tcbs thread
  (s.setTcb thread { t with
    outf := leader.outf
    stagedOutput := leader.stagedOutput
    curcol := leader.curcol
    log := leader.log }).setTcb i { leader with
    outf := t.outf
    stagedOutput := t.stagedOutput
    curcol := 0
    log := t.log }

def setReprint (i : Nat) (reprint : Bool) : Output :=
  s.setTcb i { s.tcbs i with reprint }

def pidChanged (thread pid : Nat) : Output :=
  if (s.tcbs thread).curcol ≠ 0 then
    s.fprintf thread (" <pid changed to " ++ toString pid ++ " ...>\n")
  else s

/-- `maybe_switch_tcbs` from the leader `i` to the thread. -/
def maybeSwitchTcbs (i thread pid oldPid : Nat) : Output :=
  let s := s.pidChanged thread pid
  let s := (s.swapOutput i thread).droptcb po i
  if po.onlyStats then s
  else
    let s :=
      if po.quiet quietThreadExecve then s
      else s.printNotice po x thread
        ("+++ superseded by execve in pid " ++ toString oldPid ++ " +++")
    (s.openStaged po thread).setReprint thread true

def killedText (status : UInt32) : String :=
  "+++ killed by " ++ po.sprintsigname (wtermsig status) ++ " " ++
    (if wcoredump status then "(core dumped) " else "") ++ "+++"

def exitedText (status : UInt32) : String :=
  "+++ exited with " ++ toString (wexitstatus status) ++ " +++"

def printSignalled (i : Nat) (status : UInt32) : Output :=
  if !po.onlyStats && isNumberInSet (wtermsig status) (some po.signalSet) then
    s.printNotice po x i (killedText po status)
  else s

def printExited (i : Nat) (status : UInt32) : Output :=
  if !po.onlyStats && !po.quiet quietExit then s.printNotice po x i (exitedText status) else s

/-- `print_stopped`; `text` is what it says of the signal. -/
def printStopped (t : Tcb) (i sig : Nat) (text : String) : Output :=
  if !po.onlyStats && !t.hideLog && isNumberInSet sig (some po.signalSet) then
    (s.printNotice po x i text).unwindTcbPrint x
  else s

def stoppedText (sig : Nat) : Option String → String
  | some siginfo => "--- " ++ po.sprintsigname sig ++ " " ++ siginfo ++ " ---"
  | none => "--- stopped by " ++ po.sprintsigname sig ++ " ---"

def printSyscallResume (i : Nat) : Output :=
  let s :=
    if po.outputSeparately = false ∧ s.printingTcp ≠ some i ∧ (s.tcbs i).stagedOutput = none ∨
        (s.tcbs i).reprint then
      ((((s.setReprint i false).printleader po x i).tprintsString "<... ").tprintsString
        x.sysName).tprintsString " resumed>"
    else s
  s.setPrintingTcp (some i)

/-- The end of a syscall's line: `)`, the column of the result, and the result. -/
def printResult (result : String) : Output :=
  ((((((s.tprintsString ")").tprintsString " ").tabto po).tprintsString "=").tprintsString
    result).tprintsString "\n")

/-- The part of `print_event_exit` that ends the line of another tcb. -/
def interruptOther (i : Nat) : Output :=
  match s.printingTcp with
  | none => s
  | some p =>
    if po.outputSeparately = false ∧ p ≠ i ∧ (s.tcbs p).curcol ≠ 0 ∧
        (s.tcbs p).stagedOutput = none then
      ((s.setCurrentTcp (some p)).unfinished.setCurcol p 0).setCurrentTcp (some i)
    else s

def printEventExit (t : Tcb) (i : Nat) : Output :=
  if t.entering || t.filtered || t.hideLog || po.onlyStats then s
  else
    let s := (s.interruptOther po i).printSyscallResume po x i
    let s :=
      if t.sysFuncRval &&& rvalDecoded = 0 then
        (s.tprintsString " ").tprintsString "<unfinished ...>"
      else s
    ((s.printResult po " ?").closeStaged po i (po.hasStatus .unfinished)).lineEnded

/-- The part of `syscall_entering_decode` for a syscall that cannot be read. -/
def syscallEnteringFailed (i : Nat) : Output :=
  ((s.printleader po x i).tprintsString x.sysName).tprintsString "("

def syscallEnteringTrace (filtered : Bool) (i : Nat) : Output :=
  if filtered || po.onlyStats then s
  else
    ((s.openStaged po i).syscallEnteringFailed po x i).tprintsString x.args

/-- The result of the syscall of tcb `i` has been read, and its text is complete. -/
def finishCall (i : Nat) (failed : Bool) : Output :=
  { s with
    nextCall := s.nextCall + 1
    done := s.done ++ [Done.mk (s.tcbs i).call (s.tcbs i).log failed (s.tcbs i).text] }.setTcb i
    { s.tcbs i with call := s.nextCall, text := [] }

/-- A syscall that returned is to be published. -/
def publishes (failed : Bool) : Bool :=
  if failed then po.hasStatus .failed else po.hasStatus .successful

/-- The line of a syscall whose result is printed, and what follows it. -/
def printReturned : Output :=
  (((((s.printResult po x.result).printLines x.dump).lineEnded).unwindTcbPrint x).printLines x.kvm)

/-- `syscall_exiting_trace`; `t` is the tcb once its result has been tampered with. -/
def syscallExitingTrace (res : Int) (t : Tcb) (i : Nat) : Output :=
  if po.onlyStats then s
  else
    let s := s.printSyscallResume po x i
    if res ≠ 1 then
      ((s.printResult po " ? <unavailable>").closeStaged po i (po.hasStatus .unavailable)).lineEnded
    else
      let failed := decide (t.uError ≠ 0)
      let s := (s.tprintsString x.exitArgs).closeStaged po i (publishes po failed)
      let s :=
        if po.filtersStatus && !publishes po failed then s.lineEnded else s.printReturned po x
      s.finishCall i failed

/-- `update_personality`: a change of the personality is noted. -/
def notePersonality (t : Tcb) (i : Nat) : Output :=
  match a.regsRead, a.newPers with
  | true, some p =>
    if p ≠ t.currpers ∧ !po.quiet quietPersonality then
      s.printNotice po x i ("[ Process PID=" ++ toString t.pid ++ " runs in " ++
        po.personalityNames p ++ " mode. ]")
    else s
  | _, _ => s

def traceSyscall (r : Stop) (i : Nat) : Output :=
  if r.tcb.entering then
    let s := s.notePersonality po a x r.tcb i
    let (d, res) := syscallEnteringDecode o a r
    if res = 0 then s
    else if res = 1 then
      s.syscallEnteringTrace po x (Strace.syscallEnteringTrace o a d).1.tcb.filtered i
    else s.syscallEnteringFailed po x i
  else if r.tcb.filtered then s
  else
    let s := s.notePersonality po a x r.tcb i
    let (d, res) := syscallExitingDecode a r
    s.syscallExitingTrace po x res (Strace.syscallExitingTrace o a res d).1.tcb i

/-- The part of `ptrace_restart` for an error. -/
def ptraceRestartError : Output :=
  match s.currentTcp with
  | none => s
  | some i =>
    if (s.tcbs i).curcol ≠ 0 then
      (((s.tprintsString " ").tprintsString x.restartError).tprintsString "\n").lineEnded
    else s

variable (tracer : Tracer)

/-- The end of `dispatch_event`. -/
def restartCurrent (i : Nat) : Output :=
  if tracer.interrupted || (tracer.tcbtab i).delayed then s
  else if a.restartFails then s.ptraceRestartError x
  else s

def detach (i : Nat) : Output :=
  (if x.detachFails then s.ptraceRestartError x else s).droptcb po i

def dispatchSyscallStop (i : Nat) : Output :=
  let s := s.traceSyscall po o a x (tracer.stopOf i 0) i
  let (tracer, _, res) := tracer.traceSyscallOf o a i 0
  if res < 0 then s else s.restartCurrent a x tracer i

def detachOrRestart (i : Nat) : Output :=
  if o.detachOnExecve && !(tracer.tcbtab i).skipDetachOnFirstExec then s.detach po x i
  else s.restartCurrent a x tracer i

/-- The `TE_STOP_BEFORE_EXECVE` case. -/
def dispatchExecve (i : Nat) : Output :=
  let tracer := tracer.setTcb i (tracer.tcbtab i).execSucceeded
  match tracer.execveThread o i with
  | some thread =>
    let oldPid := (tracer.tcbWaitTab (tracer.tcbtab i).waitDataIdx).msg
    let s := s.maybeSwitchTcbs po x i thread (tracer.tcbtab i).pid oldPid
    (s.setCurrentTcp (some thread)).detachOrRestart po o a x (tracer.switchTcbs i thread) thread
  | none =>
    if (tracer.tcbtab i).entering then
      let recovering := tracer.setTcb i ((tracer.tcbtab i).setRecovering true)
      let s := s.traceSyscall po o a x (recovering.stopOf i 0) i
      let (tracer, _, res) := tracer.recoverExecve o a i
      if res < 0 then s else s.detachOrRestart po o a x tracer i
    else s.detachOrRestart po o a x tracer i

/-- `dispatch_event` with current tcb `i`. -/
def dispatchCurrent (wd : WaitData) (i : Nat) : Output :=
  let t := tracer.tcbtab i
  let sig := wstopsig wd.status
  match wd.te with
  | .brk | .next => s
  | .restart => s.restartCurrent a x tracer i
  | .seccomp =>
    if !t.seccompFilter || o.seccompBeforeSysentry then s.restartCurrent a x tracer i
    else s.dispatchSyscallStop po o a x tracer i
  | .syscallStop => s.dispatchSyscallStop po o a x tracer i
  | .signalDeliveryStop =>
    (s.printStopped po x t i sig (stoppedText po sig x.siginfo)).restartCurrent a x tracer i
  | .groupStop =>
    (s.printStopped po x t i sig (stoppedText po sig none)).restartCurrent a x tracer i
  | .signalled => (s.printSignalled po x i wd.status).droptcb po i
  | .exited => (s.printExited po x i wd.status).droptcb po i
  | .stopBeforeExecve => s.dispatchExecve po o a x tracer i
  | .stopBeforeExit => (s.printEventExit po x t i).restartCurrent a x tracer i

end Output

end Strace
