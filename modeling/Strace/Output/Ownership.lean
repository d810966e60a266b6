import Strace.Lines
import Strace.Runs
import Strace.Output.Emits
import Strace.Output.System

/-! Who owns the line that is open in a shared log. -/
namespace Strace.Ownership
open Output Lines Runs

def chars (log : List Piece) : List (Nat × Char) := log.flatMap fun p => written p.tracee p.text

theorem chars_append (log : List Piece) (p : Piece) :
    chars (log ++ [p]) = chars log ++ written p.tracee p.text := by
  simp [chars]

structure Plain (att : Nat → Prop) (s : Output) : Prop where
  unstaged : ∀ i, (s.tcbs i).stagedOutput = none
  outf : ∀ i, att i → (s.tcbs i).outf = some (.log 0)
  free : ∀ i, ¬ att i → (s.tcbs i).curcol = 0

structure Shared (att : Nat → Prop) (s : Output) : Prop where
  plain : Plain att s
  column : ∀ i, (s.tcbs i).curcol ≠ 0 → s.printingTcp = some i
  line : ∃ line, read none (chars (s.logs 0)) = some line ∧
    ∀ w, line = some w → ∃ i, s.printingTcp = some i ∧ (s.tcbs i).curcol ≠ 0 ∧ (s.tcbs i).tracee = w

/-- No line is open. -/
structure Idle (att : Nat → Prop) (s : Output) : Prop where
  plain : Plain att s
  column : ∀ i, (s.tcbs i).curcol = 0
  line : read none (chars (s.logs 0)) = some none

structure Turn (att : Nat → Prop) (i : Nat) (s : Output) : Prop where
  plain : Plain att s
  attached : att i
  current : s.currentTcp = some i
  others : ∀ j, j ≠ i → (s.tcbs j).curcol = 0
  line : ∃ line, read none (chars (s.logs 0)) = some line ∧ OpenFor (s.tcbs i).tracee line ∧
    (line ≠ none → (s.tcbs i).curcol ≠ 0)

/-- Tcb `i` has ended its line. -/
structure Ended (att : Nat → Prop) (i : Nat) (s : Output) : Prop where
  turn : Turn att i s
  line : read none (chars (s.logs 0)) = some none

section
variable {att att' : Nat → Prop} {po : OutputOptions} {a : Answers} {x : Texts} {s s' : Output}
  {i j : Nat}

theorem Plain.replace (plain : Plain att s)
    (others : ∀ j, j ≠ i → (att' j ↔ att j) ∧ s'.tcbs j = s.tcbs j)
    (unstaged : (s'.tcbs i).stagedOutput = none)
    (outf : att' i → (s'.tcbs i).outf = some (.log 0))
    (free : ¬ att' i → (s'.tcbs i).curcol = 0) : Plain att' s' := by
  refine ⟨?_, ?_, ?_⟩ <;> intro j <;> by_cases eq : j = i
  · exact eq ▸ unstaged
  · rw [(others j eq).2]
    exact plain.unstaged j
  · exact eq ▸ outf
  · rw [(others j eq).1, (others j eq).2]
    exact plain.outf j
  · exact eq ▸ free
  · rw [(others j eq).1, (others j eq).2]
    exact plain.free j

variable {t : TcbOut}

theorem Plain.setTcb (plain : Plain att s) (unstaged : t.stagedOutput = (s.tcbs i).stagedOutput)
    (outf : t.outf = (s.tcbs i).outf) (free : ¬ att i → t.curcol = 0) :
    Plain att (s.setTcb i t) := by
  refine plain.replace (fun j other => ⟨.rfl, setTcb_tcbs_other s t other⟩) ?_ ?_ ?_ <;>
    rw [setTcb_tcbs_self]
  · exact unstaged.trans (plain.unstaged i)
  · exact fun attached => outf.trans (plain.outf i attached)
  · exact free

theorem Plain.of_tcbs (plain : Plain att s) (tcbs : s'.tcbs = s.tcbs) :
    Plain att s' := by
  refine ⟨?_, ?_, ?_⟩ <;> rw [tcbs]
  · exact plain.unstaged
  · exact plain.outf
  · exact plain.free

theorem Plain.curcol (plain : Plain att s) (attached : att i) (n : Nat) :
    Plain att (s.setCurcol i n) :=
  plain.setTcb rfl rfl fun free => absurd attached free

theorem columns_ended (others : ∀ j, j ≠ i → (s.tcbs j).curcol = 0) (ended : t.curcol = 0)
    (j : Nat) : ((s.setTcb i t).tcbs j).curcol = 0 := by
  by_cases eq : j = i
  · rw [eq, setTcb_tcbs_self, ended]
  · rw [setTcb_tcbs_other _ _ eq, others j eq]

theorem Plain.congr (plain : Plain att s) (same : ∀ i, att' i ↔ att i) : Plain att' s :=
  ⟨plain.unstaged, fun i attached => plain.outf i ((same i).mp attached),
    fun i free => plain.free i fun attached => free ((same i).mpr attached)⟩

theorem Shared.congr (shared : Shared att s) (same : ∀ i, att' i ↔ att i) : Shared att' s :=
  ⟨shared.plain.congr same, shared.column, shared.line⟩

theorem Shared.attached (shared : Shared att s) (moved : (s.tcbs i).curcol ≠ 0) : att i := by
  by_contra free
  exact moved (shared.plain.free i free)

theorem Idle.shared (idle : Idle att s) : Shared att s where
  plain := idle.plain
  column i moved := absurd (idle.column i) moved
  line := ⟨none, idle.line, nofun⟩

theorem Shared.idle (shared : Shared att s)
    (ended : ∀ p, s.printingTcp = some p → (s.tcbs p).curcol = 0) : Idle att s := by
  obtain ⟨line, read, owner⟩ := shared.line
  refine ⟨shared.plain, ?_, ?_⟩
  · intro j
    by_contra moved
    exact moved (ended j (shared.column j moved))
  · cases line with
    | none => exact read
    | some w =>
      obtain ⟨p, printing, moved, -⟩ := owner w rfl
      exact absurd (ended p printing) moved

theorem Idle.turn (idle : Idle att s) (attached : att i) (current : s.currentTcp = some i) :
    Turn att i s :=
  ⟨idle.plain, attached, current, fun j _ => idle.column j,
    none, idle.line, nofun, fun open_ => absurd rfl open_⟩

theorem Shared.turn (shared : Shared att s) (attached : att i) (current : s.currentTcp = some i)
    (printing : s.printingTcp = some i) : Turn att i s := by
  obtain ⟨line, read, owner⟩ := shared.line
  refine ⟨shared.plain, attached, current, ?_, line, read, ?_, ?_⟩
  · intro j other
    by_contra moved
    exact other (Option.some.inj ((shared.column j moved).symm.trans printing))
  · intro w open_
    obtain ⟨p, printing', -, rfl⟩ := owner w open_
    obtain rfl := Option.some.inj (printing.symm.trans printing')
    rfl
  · intro open_
    obtain ⟨w, open_⟩ := Option.ne_none_iff_exists'.mp open_
    obtain ⟨p, printing', moved, -⟩ := owner w open_
    obtain rfl := Option.some.inj (printing.symm.trans printing')
    exact moved

theorem Turn.shared (turn : Turn att i s) (printing : s.printingTcp = some i) : Shared att s := by
  obtain ⟨line, read, openFor, moved⟩ := turn.line
  refine ⟨turn.plain, ?_, line, read, ?_⟩
  · intro j moved
    by_cases eq : j = i
    · rw [eq, printing]
    · exact absurd (turn.others j eq) moved
  · intro w open_
    exact ⟨i, printing, moved (by rw [open_]; exact nofun), (openFor w open_).symm⟩

/-! ## Printing a line -/

theorem Turn.say (turn : Turn att i s) (text : String) : Turn att i (s.say i text) := by
  obtain ⟨line, before, openFor, moved⟩ := turn.line
  obtain ⟨line', written, openFor', same⟩ := read_written openFor text
  have self := say_tcbs_self s i text
  have plain : Plain att (s.say i text) := by
    refine Plain.curcol (Plain.setTcb (s := s.write _ _) (turn.plain.of_tcbs rfl) ?_ ?_ ?_)
      turn.attached _
    · rfl
    · rfl
    · exact turn.plain.free i
  refine ⟨plain, turn.attached, turn.current, ?_, line', ?_, ?_, ?_⟩
  · intro j other
    rw [say_tcbs_other s text other]
    exact turn.others j other
  · rw [say_logs, if_pos (turn.plain.outf i turn.attached), chars_append, read_append, before]
    exact written
  · simp [self, openFor']
  · intro open_
    rw [self]
    dsimp only
    by_cases empty : text = ""
    · have : (s.tcbs i).curcol ≠ 0 := moved (by rw [← same empty]; exact open_)
      omega
    · have : text.length ≠ 0 := by simpa using empty
      omega

theorem Turn.tprintsString (turn : Turn att i s) (text : String) :
    Turn att i (s.tprintsString text) := by
  rw [tprintsString_current turn.current]
  exact turn.say text

theorem tprintsString_printing (s : Output) (text : String) :
    (s.tprintsString text).printingTcp = s.printingTcp := by
  unfold Output.tprintsString
  split <;> rfl

theorem Turn.newline (turn : Turn att i s) : Ended att i (s.tprintsString "\n") := by
  obtain ⟨line, before, openFor, -⟩ := turn.line
  refine ⟨turn.tprintsString _, ?_⟩
  rw [tprintsString_current turn.current, say_logs, if_pos (turn.plain.outf i turn.attached),
    chars_append, read_append, before]
  exact read_newline openFor ""

theorem Ended.lineEnded (ended : Ended att i s) :
    Idle att s.lineEnded ∧ s.lineEnded.currentTcp = some i := by
  have turn := ended.turn
  have current : s.endCurrent = s.setCurcol i 0 := by
    simp [turn.current, endCurrent]
  have idle : Idle att (s.setCurcol i 0) :=
    ⟨turn.plain.curcol turn.attached 0, columns_ended turn.others rfl, ended.line⟩
  unfold Output.lineEnded endPrinting
  rw [current]
  cases printing : (s.setCurcol i 0).printingTcp with
  | none => exact ⟨idle, turn.current⟩
  | some p =>
    refine ⟨⟨?_, columns_ended (fun j _ => idle.column j) rfl, idle.line⟩, turn.current⟩
    have plain : Plain att ((s.setCurcol i 0).setCurcol p 0) :=
      idle.plain.setTcb rfl rfl fun _ => rfl
    exact plain.of_tcbs rfl

theorem Turn.unfinished (turn : Turn att i s) : Ended att i s.unfinished :=
  ((turn.tprintsString " ").tprintsString "<unfinished ...>").newline

theorem Shared.interrupted (shared : Shared att s) (printing : s.printingTcp = some i)
    (moved : (s.tcbs i).curcol ≠ 0) :
    Idle att ((s.setCurrentTcp (some i)).unfinished.setCurcol i 0) := by
  have again : Shared att (s.setCurrentTcp (some i)) :=
    ⟨shared.plain.of_tcbs rfl, shared.column, shared.line⟩
  have ended := (again.turn (shared.attached moved) rfl printing).unfinished
  exact ⟨ended.turn.plain.curcol ended.turn.attached 0, columns_ended ended.turn.others rfl,
    ended.line⟩

theorem Shared.interruptPrinting (shared : Shared att s) (together : po.outputSeparately = false)
    (i : Nat) : Idle att (s.interruptPrinting po i) := by
  unfold Output.interruptPrinting
  split
  · next printing =>
    exact shared.idle fun p some => by rw [printing] at some; cases some
  · next p printing =>
    split
    · next cond => exact shared.interrupted printing cond.1
    · next cond =>
      refine shared.idle fun q some => ?_
      obtain rfl := Option.some.inj (printing.symm.trans some)
      by_contra moved
      exact cond ⟨moved, .inr ⟨together, shared.plain.unstaged p⟩⟩

theorem Idle.startLine (idle : Idle att s) (attached : att i) : Turn att i (s.startLine i) := by
  refine Idle.turn ⟨?_, columns_ended (fun j _ => idle.column j) rfl, idle.line⟩ attached rfl
  exact Plain.setTcb
    (idle.plain.of_tcbs rfl) rfl rfl fun _ => rfl

theorem Shared.printleader (shared : Shared att s) (together : po.outputSeparately = false)
    (attached : att i) : Turn att i (s.printleader po x i) ∧
      (s.printleader po x i).printingTcp = some i := by
  have idle := shared.interruptPrinting together i
  unfold Output.printleader
  rw [together]
  exact ⟨(idle.startLine attached).tprintsString _, tprintsString_printing ..⟩

theorem Shared.printNotice (shared : Shared att s) (together : po.outputSeparately = false)
    (attached : att i) (text : String) : Idle att (s.printNotice po x i text) ∧
      (s.printNotice po x i text).currentTcp = some i :=
  ((shared.printleader together attached).1.tprintsString text).newline.lineEnded

theorem Ended.printLines (ended : Ended att i s) (lines : List String) :
    Ended att i (s.printLines lines) := by
  induction lines generalizing s with
  | nil => exact ended
  | cons line rest ih => exact ih (ended.turn.tprintsString line).newline

theorem Idle.unwindTcbPrint (idle : Idle att s) (attached : att i)
    (current : s.currentTcp = some i) : Idle att (s.unwindTcbPrint x) ∧
      (s.unwindTcbPrint x).currentTcp = some i := by
  unfold Output.unwindTcbPrint
  generalize x.stack = lines
  induction lines generalizing s with
  | nil => exact ⟨idle, current⟩
  | cons line rest ih =>
    obtain ⟨idle, current⟩ :=
      ((idle.turn attached current).tprintsString line).newline.lineEnded
    exact ih idle current

theorem Turn.tabto (turn : Turn att i s) : Turn att i (s.tabto po) := by
  unfold Output.tabto
  split
  · exact turn
  · split
    · exact turn.tprintsString _
    · exact turn

theorem Turn.printResult (turn : Turn att i s) (po : OutputOptions) (result : String) :
    Ended att i (s.printResult po result) :=
  (((((turn.tprintsString ")").tprintsString " ").tabto).tprintsString "=").tprintsString
    result).newline

end

/-! ## What an event prints -/

structure Mode (po : OutputOptions) : Prop where
  together : po.outputSeparately = false
  complete : po.filtersStatus = false

section
variable {att : Nat → Prop} {po : OutputOptions} {o : Options} {a : Answers} {x : Texts}
  {s : Output} {i j : Nat}

theorem closeStaged_complete (mode : Mode po) (publish : Bool) :
    s.closeStaged po i publish = s := by
  simp [mode.complete, closeStaged]

theorem openStaged_complete (mode : Mode po) : s.openStaged po i = s := by
  simp [mode.complete, openStaged]

section
variable (shared : Shared att s)
include shared

theorem Shared.setTcb {t : TcbOut}
    (unstaged : t.stagedOutput = (s.tcbs i).stagedOutput) (outf : t.outf = (s.tcbs i).outf)
    (curcol : t.curcol = (s.tcbs i).curcol) (tracee : t.tracee = (s.tcbs i).tracee) :
    Shared att (s.setTcb i t) := by
  have tcb (j : Nat) : ((s.setTcb i t).tcbs j).curcol = (s.tcbs j).curcol ∧
      ((s.setTcb i t).tcbs j).tracee = (s.tcbs j).tracee := by
    by_cases eq : j = i
    · rw [eq, setTcb_tcbs_self]
      exact ⟨curcol, tracee⟩
    · simp [setTcb_tcbs_other _ _ eq]
  obtain ⟨line, read, owner⟩ := shared.line
  refine ⟨shared.plain.setTcb unstaged outf ?_, ?_, line, read, ?_⟩
  · exact fun free => curcol.trans (shared.plain.free i free)
  · intro j
    rw [(tcb j).1]
    exact shared.column j
  · intro w open_
    obtain ⟨p, printing, moved, rfl⟩ := owner w open_
    exact ⟨p, printing, by rw [(tcb p).1]; exact moved, (tcb p).2⟩

theorem Shared.setReprint (reprint : Bool) :
    Shared att (s.setReprint i reprint) := shared.setTcb rfl rfl rfl rfl

theorem Shared.finishCall (failed : Bool) :
    Shared att (s.finishCall i failed) := by
  refine Shared.setTcb ?_ rfl rfl rfl rfl
  exact ⟨shared.plain.of_tcbs rfl, shared.column, shared.line⟩

theorem Shared.setCurrentTcp (current : Option Nat) :
    Shared att (s.setCurrentTcp current) :=
  ⟨shared.plain.of_tcbs rfl, shared.column, shared.line⟩

end

theorem Turn.setPrintingTcp (turn : Turn att i s) (printing : Option Nat) :
    Turn att i (s.setPrintingTcp printing) :=
  ⟨turn.plain.of_tcbs rfl, turn.attached, turn.current, turn.others, turn.line⟩

structure Ready (att : Nat → Prop) (i : Nat) (s : Output) : Prop where
  shared : Shared att s
  attached : att i
  current : s.currentTcp = some i

theorem Ready.of_idle (idle : Idle att s ∧ s.currentTcp = some i) (attached : att i) :
    Ready att i s := ⟨idle.1.shared, attached, idle.2⟩

theorem Ready.of_turn (turn : Turn att i s) (printing : s.printingTcp = some i) :
    Ready att i s := ⟨turn.shared printing, turn.attached, turn.current⟩

theorem Ready.interruptOther (ready : Ready att i s) (po : OutputOptions) :
    Ready att i (s.interruptOther po i) := by
  unfold Output.interruptOther
  split
  · exact ready
  · next p printing =>
    split
    · next cond =>
      have idle := ready.shared.interrupted printing cond.2.2.1
      exact ⟨idle.shared.setCurrentTcp _, ready.attached, rfl⟩
    · exact ready

theorem Turn.printReturned (turn : Turn att i s) (po : OutputOptions) (kvm : x.kvm = []) :
    Ready att i (s.printReturned po x) := by
  have line := ((turn.printResult po x.result).printLines x.dump).lineEnded
  have stack := line.1.unwindTcbPrint (x := x) turn.attached line.2
  unfold Output.printReturned
  rw [kvm]
  exact .of_idle stack turn.attached

section
variable (ready : Ready att i s) (mode : Mode po)
include ready mode

theorem Ready.printSyscallResume :
    Turn att i (s.printSyscallResume po x i) ∧
      (s.printSyscallResume po x i).printingTcp = some i := by
  refine ⟨?_, rfl⟩
  unfold Output.printSyscallResume
  split
  · have turn := ((ready.shared.setReprint (i := i) false).printleader (x := x) mode.together
      ready.attached).1
    exact (((turn.tprintsString _).tprintsString _).tprintsString _).setPrintingTcp _
  · next cond =>
    have printing : s.printingTcp = some i := by
      by_contra other
      exact cond (.inl ⟨mode.together, other, ready.shared.plain.unstaged i⟩)
    exact (ready.shared.turn ready.attached ready.current printing).setPrintingTcp _

theorem Ready.printEventExit (t : Tcb) :
    Ready att i (s.printEventExit po x t i) := by
  unfold Output.printEventExit
  split
  · exact ready
  · dsimp only
    rw [closeStaged_complete mode]
    have turn := (ready.interruptOther po).printSyscallResume (x := x) mode
    refine .of_idle (Turn.printResult ?_ po _).lineEnded ready.attached
    split
    · exact (turn.1.tprintsString _).tprintsString _
    · exact turn.1

theorem Ready.syscallEnteringFailed :
    Turn att i (s.syscallEnteringFailed po x i) ∧
      (s.syscallEnteringFailed po x i).printingTcp = some i := by
  obtain ⟨turn, printing⟩ := ready.shared.printleader mode.together ready.attached
  refine ⟨(turn.tprintsString _).tprintsString _, ?_⟩
  unfold Output.syscallEnteringFailed
  rw [tprintsString_printing, tprintsString_printing, printing]

theorem Ready.syscallEnteringTrace (filtered : Bool) :
    Ready att i (s.syscallEnteringTrace po x filtered i) := by
  unfold Output.syscallEnteringTrace
  split
  · exact ready
  · rw [openStaged_complete mode]
    obtain ⟨turn, printing⟩ := ready.syscallEnteringFailed mode
    exact .of_turn (turn.tprintsString _) (by rw [tprintsString_printing, printing])

theorem Ready.syscallExitingTrace (kvm : x.kvm = [])
    (res : Int) (t : Tcb) : Ready att i (s.syscallExitingTrace po x res t i) := by
  unfold Output.syscallExitingTrace
  split
  · exact ready
  · obtain ⟨turn, -⟩ := ready.printSyscallResume mode
    dsimp only
    rw [closeStaged_complete mode, closeStaged_complete mode]
    split
    · exact .of_idle (turn.printResult po _).lineEnded ready.attached
    · rw [mode.complete]
      have returned := (turn.tprintsString x.exitArgs).printReturned po kvm
      exact ⟨returned.shared.finishCall _, returned.attached, returned.current⟩

theorem Ready.notePersonality (t : Tcb) :
    Ready att i (s.notePersonality po a x t i) := by
  unfold Output.notePersonality
  split
  · split
    · exact .of_idle (ready.shared.printNotice mode.together ready.attached _) ready.attached
    · exact ready
  · exact ready

theorem Ready.traceSyscall (kvm : x.kvm = []) (r : Stop) :
    Ready att i (s.traceSyscall po o a x r i) := by
  have noted := ready.notePersonality (a := a) (x := x) mode r.tcb
  unfold Output.traceSyscall
  split
  · dsimp only
    split
    · exact noted
    · split
      · exact noted.syscallEnteringTrace mode _
      · obtain ⟨turn, printing⟩ := noted.syscallEnteringFailed mode
        exact .of_turn turn printing
  · split
    · exact ready
    · exact noted.syscallExitingTrace mode kvm _ _

theorem Ready.printStopped (t : Tcb) (sig : Nat)
    (text : String) : Ready att i (s.printStopped po x t i sig text) := by
  unfold Output.printStopped
  split
  · obtain ⟨idle, current⟩ := ready.shared.printNotice mode.together ready.attached text
    exact .of_idle (idle.unwindTcbPrint ready.attached current) ready.attached
  · exact ready

theorem Ready.printSignalled (status : UInt32) :
    Ready att i (s.printSignalled po x i status) := by
  unfold Output.printSignalled
  split
  · exact .of_idle (ready.shared.printNotice mode.together ready.attached _) ready.attached
  · exact ready

theorem Ready.printExited (status : UInt32) :
    Ready att i (s.printExited po x i status) := by
  unfold Output.printExited
  split
  · exact .of_idle (ready.shared.printNotice mode.together ready.attached _) ready.attached
  · exact ready

end

theorem Ready.ptraceRestartError (ready : Ready att i s) :
    Ready att i (s.ptraceRestartError x) := by
  unfold Output.ptraceRestartError
  rw [ready.current]
  dsimp only
  split
  · next moved =>
    have turn := ready.shared.turn ready.attached ready.current (ready.shared.column i moved)
    exact .of_idle ((turn.tprintsString _).tprintsString _).newline.lineEnded ready.attached
  · exact ready

theorem Ready.restartCurrent (ready : Ready att i s) (tracer : Tracer) :
    Ready att i (s.restartCurrent a x tracer i) := by
  unfold Output.restartCurrent
  split
  · exact ready
  · split
    · exact ready.ptraceRestartError
    · exact ready

theorem Turn.fprintf (turn : Turn att i s) (text : String) :
    read none (chars ((s.fprintf i (text ++ "\n")).logs 0)) = some none := by
  obtain ⟨line, before, openFor, -⟩ := turn.line
  have log : (s.fprintf i (text ++ "\n")).logs 0 = s.logs 0 ++ [s.piece i (text ++ "\n")] :=
    if_pos (turn.plain.outf i turn.attached)
  rw [log, chars_append, read_append, before]
  exact read_newline openFor text

theorem Shared.moved (shared : Shared att s) (moved : (s.tcbs i).curcol ≠ 0) :
    Turn att i (s.setCurrentTcp (some i)) :=
  (shared.setCurrentTcp (some i)).turn (shared.attached moved) rfl (shared.column i moved)

theorem closeOutput_complete (mode : Mode po) {stream : Stream}
    (outf : (s.tcbs i).outf = some stream) : s.closeOutput po i =
      if s.printingTcp = some i ∧ (s.tcbs i).curcol ≠ 0 then s.fprintf i " <detached ...>\n"
      else s := by
  unfold closeOutput
  simp only [outf, closeStaged_complete mode, mode.together, mode.complete, Bool.false_eq_true,
    false_or, Bool.not_false, Bool.true_or, and_true]

theorem Shared.replace (shared : Shared att s)
    (others : ∀ j, j ≠ i → (att' j ↔ att j) ∧ s'.tcbs j = s.tcbs j)
    (unstaged : (s'.tcbs i).stagedOutput = none)
    (outf : att' i → (s'.tcbs i).outf = some (.log 0)) (ended : (s'.tcbs i).curcol = 0)
    (printing : ∀ j, j ≠ i → s.printingTcp = some j → s'.printingTcp = some j)
    (line : read none (chars (s'.logs 0)) = some none ∨
      (s.tcbs i).curcol = 0 ∧ s'.logs 0 = s.logs 0) : Shared att' s' := by
  refine ⟨shared.plain.replace others unstaged outf fun _ => ended, ?_, ?_⟩
  · intro j moved
    have other : j ≠ i := fun eq => moved (eq ▸ ended)
    rw [(others j other).2] at moved
    exact printing j other (shared.column j moved)
  · rcases line with closed | ⟨still, log⟩
    · exact ⟨none, closed, nofun⟩
    · obtain ⟨line, read, owner⟩ := shared.line
      refine ⟨line, log ▸ read, fun w open_ => ?_⟩
      obtain ⟨p, last, moved, rfl⟩ := owner w open_
      have other : p ≠ i := fun eq => moved (eq ▸ still)
      rw [← (others p other).2] at moved ⊢
      exact ⟨p, printing p other last, moved, rfl⟩

theorem fprintf_tcbs_other {text : String} (other : j ≠ i) :
    (s.fprintf i text).tcbs j = s.tcbs j := setTcb_tcbs_other _ _ other

theorem Shared.droptcb (shared : Shared att s) (mode : Mode po) (attached : att i) :
    Shared (fun j => att j ∧ j ≠ i) (s.droptcb po i) := by
  have forget {u : Output} (tcbs : ∀ j, j ≠ i → u.tcbs j = s.tcbs j)
      (last : u.printingTcp = s.printingTcp) (line : read none (chars (u.logs 0)) = some none ∨
        (s.tcbs i).curcol = 0 ∧ u.logs 0 = s.logs 0) :
      Shared (fun j => att j ∧ j ≠ i) (u.forget i) := by
    have self : (u.forget i).tcbs i = {} := setTcb_tcbs_self ..
    refine shared.replace ?_ (by rw [self]) (fun gone => absurd rfl gone.2) (by rw [self]) ?_ line
    · exact fun j other =>
        ⟨and_iff_left other, (setTcb_tcbs_other _ _ other).trans (tcbs j other)⟩
    · intro j other printing
      refine (if_neg fun own => ?_).trans (last.trans printing)
      exact other (Option.some.inj ((last.trans printing).symm.trans own))
  unfold Output.droptcb
  rw [closeOutput_complete mode (shared.plain.outf i attached)]
  split
  · next open_ =>
    exact forget (fun j => fprintf_tcbs_other) rfl
      (.inl ((shared.moved open_.2).fprintf " <detached ...>"))
  · next closed =>
    refine forget (fun _ _ => rfl) rfl (.inr ⟨?_, rfl⟩)
    by_contra moved
    exact closed ⟨shared.column i moved, moved⟩

theorem Shared.swapOutput (shared : Shared att s) (leader : att i) (attached : att j)
    (other : j ≠ i) (ended : (s.tcbs i).curcol = 0) (pid : Nat) :
    Shared att ((s.pidChanged j pid).swapOutput i j) := by
  have thread (u : Output) (t : TcbOut) : (u.setTcb j t).tcbs i = u.tcbs i :=
    setTcb_tcbs_other u t other.symm
  -- the thread leaves its line, and then the leader, which is not inside one, is replaced
  have swapped {u : Output} (tcbs : ∀ k, k ≠ j → u.tcbs k = s.tcbs k)
      (same : (u.tcbs j).stagedOutput = none ∧ (u.tcbs j).outf = some (.log 0))
      (last : u.printingTcp = s.printingTcp) (line : read none (chars (u.logs 0)) = some none ∨
        (s.tcbs j).curcol = 0 ∧ u.logs 0 = s.logs 0) : Shared att (u.swapOutput i j) := by
    have tcb := tcbs i other.symm
    unfold Output.swapOutput
    refine Shared.replace (shared.replace
      (fun k away => ⟨.rfl, (setTcb_tcbs_other _ _ away).trans (tcbs k away)⟩) ?_ ?_ ?_
      (fun _ _ => last.trans) line) (fun k away => ⟨.rfl, setTcb_tcbs_other _ _ away⟩) ?_ ?_ ?_
      (fun _ _ => id) (.inr ⟨?_, rfl⟩)
    all_goals first | rw [thread, tcb] | rw [setTcb_tcbs_self]
    · rw [tcb]
      exact shared.plain.unstaged i
    · rw [tcb]
      exact fun _ => shared.plain.outf i leader
    · simp [tcb, ended]
    · exact same.1
    · exact fun _ => same.2
    · exact ended
  have kept := shared.plain.unstaged j
  have outf := shared.plain.outf j attached
  unfold pidChanged
  split
  · next moved =>
    refine swapped (fun k => fprintf_tcbs_other) ?_ rfl (.inl ?_)
    · grind [setTcb_tcbs_self, Output.fprintf]
    · have closed := (shared.moved moved).fprintf (" <pid changed to " ++ toString pid ++ " ...>")
      rw [String.append_assoc] at closed
      exact closed
  · next still => exact swapped (fun _ _ => rfl) ⟨kept, outf⟩ rfl (.inr ⟨not_not.mp still, rfl⟩)

theorem Shared.maybeSwitchTcbs (shared : Shared att s) (mode : Mode po) (leader : att i)
    (attached : att j) (other : j ≠ i) (ended : (s.tcbs i).curcol = 0) (pid oldPid : Nat) :
    Ready (fun k => att k ∧ k ≠ i) j
      ((s.maybeSwitchTcbs po x i j pid oldPid).setCurrentTcp (some j)) := by
  have dropped := (shared.swapOutput leader attached other ended pid).droptcb mode leader
  refine ⟨Shared.setCurrentTcp ?_ _, ⟨attached, other⟩, rfl⟩
  unfold Output.maybeSwitchTcbs
  dsimp only
  split
  · exact dropped
  · rw [openStaged_complete mode]
    refine Shared.setReprint ?_ true
    split
    · exact dropped
    · exact (dropped.printNotice mode.together ⟨attached, other⟩ _).1.shared

/-! ## Dispatching an event -/

theorem Ready.congr {att' : Nat → Prop} (ready : Ready att i s) (same : ∀ k, att' k ↔ att k) :
    Ready att' i s := ⟨ready.shared.congr same, (same i).mpr ready.attached, ready.current⟩

variable {tracer : Tracer}

variable (ready : Ready tracer.live i s)
include ready

theorem Ready.restarted {tracer' : Tracer}
    (shown : tracer.Shown tracer') (from_ : Tracer) (wd : WaitData) (op : RestartOp) (sig : Nat) :
    Shared (tracer'.restartCurrent a wd i op sig).1.live (s.restartCurrent a x from_ i) :=
  (ready.restartCurrent from_).shared.congr fun k =>
    ((Tracer.restartCurrent_shown op sig).live k).trans (shown.live k)

theorem Ready.detachOrRestart (mode : Mode po) (wd : WaitData)
    (op : RestartOp) (sig : Nat) :
    Shared (tracer.detachOrRestart o a wd i op sig).1.live
      (s.detachOrRestart po o a x tracer i) := by
  unfold Output.detachOrRestart Tracer.detachOrRestart
  cases detach : o.detachOnExecve with
  | false => exact ready.restarted (fun _ => .refl _) tracer wd op sig
  | true =>
    cases skip : (tracer.tcbtab i).skipDetachOnFirstExec with
    | true =>
      have shown : tracer.Shown (tracer.setTcb i (tracer.tcbtab i).firstExecSkipped) :=
        Tracer.setTcb_shown ⟨rfl, rfl, rfl⟩
      exact ready.restarted shown tracer wd op sig
    | false =>
      refine Shared.congr (Shared.droptcb ?_ mode ready.attached)
        (Tracer.droptcb_live ready.attached)
      split
      · exact ready.ptraceRestartError.shared
      · exact ready.shared

theorem Ready.dispatchSyscallStop (mode : Mode po)
    (kvm : x.kvm = []) (wd : WaitData) :
    Shared (tracer.dispatchSyscallStop o a wd i).1.live
      (s.dispatchSyscallStop po o a x tracer i) := by
  have traced : Ready (tracer.traceSyscallOf o a i 0).1.live i
      (s.traceSyscall po o a x (tracer.stopOf i 0) i) :=
    (ready.traceSyscall mode kvm _).congr (Tracer.traceSyscallOf_live 0)
  unfold Output.dispatchSyscallStop Tracer.dispatchSyscallStop
  dsimp only
  split
  · exact traced.shared
  · exact traced.restarted (fun _ => .refl _) _ wd _ _

theorem Ready.dispatchExecve (mode : Mode po) (kvm : x.kvm = [])
    (wd : WaitData)
    (ended : ∀ thread, tracer.execveThread o i = some thread → (s.tcbs i).curcol = 0) :
    Shared (tracer.dispatchExecve o a wd i).1.live (s.dispatchExecve po o a x tracer i) := by
  have succeeded : tracer.Shown (tracer.setTcb i (tracer.tcbtab i).execSucceeded) :=
    Tracer.setTcb_shown ⟨rfl, rfl, rfl⟩
  have thread := Tracer.execveThread_execSucceeded o tracer i
  unfold Output.dispatchExecve Tracer.dispatchExecve
  dsimp only
  generalize eq : tracer.setTcb i (tracer.tcbtab i).execSucceeded = u at succeeded thread
  have ready := ready.congr succeeded.live
  cases found : u.execveThread o i with
  | some j =>
    have attached := Tracer.execveThread_live found
    have other := Tracer.execveThread_ne found
    have switched := (ready.shared.maybeSwitchTcbs (x := x) mode ready.attached attached other
      (ended j (thread.symm.trans found)) (u.tcbtab i).pid
      (u.tcbWaitTab (u.tcbtab i).waitDataIdx).msg).congr
      (Tracer.switchTcbs_live ready.attached attached other)
    exact switched.detachOrRestart mode wd _ _
  | none =>
    dsimp only
    split
    · have recovered : Ready (u.recoverExecve o a i).1.live i _ :=
        (ready.traceSyscall (o := o) (a := a) mode kvm
          ((u.setTcb i ((u.tcbtab i).setRecovering true)).stopOf i 0)).congr
            Tracer.recoverExecve_live
      split
      · exact recovered.shared
      · exact recovered.detachOrRestart mode wd _ _
    · exact ready.detachOrRestart mode wd _ _

theorem Ready.dispatchCurrent (mode : Mode po) (kvm : x.kvm = [])
    (wd : WaitData) (ended : wd.te = .stopBeforeExecve →
      ∀ thread, tracer.execveThread o i = some thread → (s.tcbs i).curcol = 0) :
    Shared (tracer.dispatchCurrent o a wd i).1.live
      (s.dispatchCurrent po o a x tracer wd i) := by
  have same : tracer.Shown tracer := fun _ => .refl _
  unfold Output.dispatchCurrent Tracer.dispatchCurrent
  dsimp only
  cases te : wd.te
  case brk | next => exact ready.shared
  case restart => exact ready.restarted same tracer wd _ _
  case syscallStop => exact ready.dispatchSyscallStop mode kvm wd
  case signalDeliveryStop =>
    exact (ready.printStopped mode _ _ _).restarted same tracer wd _ _
  case groupStop =>
    have printed := ready.printStopped (x := x) mode (tracer.tcbtab i) (wstopsig wd.status)
      (stoppedText po (wstopsig wd.status) none)
    dsimp only
    split <;> exact printed.restarted same tracer wd _ _
  case signalled =>
    exact Shared.congr ((ready.printSignalled mode _).shared.droptcb mode ready.attached)
      (Tracer.droptcb_live ready.attached)
  case exited =>
    exact Shared.congr ((ready.printExited mode _).shared.droptcb mode ready.attached)
      (Tracer.droptcb_live ready.attached)
  case stopBeforeExecve => exact ready.dispatchExecve mode kvm wd (ended te)
  case stopBeforeExit => exact (ready.printEventExit mode _).restarted same tracer wd _ _
  case seccomp =>
    cases filter : (tracer.tcbtab i).seccompFilter with
    | false =>
      have shown : tracer.Shown (tracer.setTcb i (tracer.tcbtab i).setSeccompFilter) :=
        Tracer.setTcb_shown ⟨rfl, rfl, rfl⟩
      exact ready.restarted shown tracer wd _ _
    | true =>
      cases o.seccompBeforeSysentry with
      | true => exact ready.restarted same tracer wd _ _
      | false => exact ready.dispatchSyscallStop mode kvm wd

end

end Strace.Ownership
