import Strace.Runs
import Strace.Tracer.Acts

/-! What is logged of a started child while it still executes strace's own code.
An exec that fails is to hide the log again, but its exit is not looked at when
the exec has been filtered out. -/
namespace Strace.HideLog
open Tracer Runs

structure SameLog (t t' : Tcb) : Prop where
  hideLog : t'.hideLog = t.hideLog
  checkExec : t'.checkExecSyscall = t.checkExecSyscall
  filtered : t'.filtered = t.filtered
  insyscall : t'.insyscall = t.insyscall

inductive Event where
  | dispatch (a : Answers) (wd : WaitData)
  | other

inductive Step (o : Options) (i : Nat) : Tracer → Event → Tracer → Prop
  | dispatch (s : Tracer) (a : Answers) (wd : WaitData)
      (alive : wd.te ≠ .signalled ∧ wd.te ≠ .exited) (before : wd.te ≠ .stopBeforeExecve) :
      Step o i s (.dispatch a wd) ((s.setCurrentTcp (some i)).dispatchCurrent o a wd i).1
  | other (s s' : Tracer) (same : SameLog (s.tcbtab i) (s'.tcbtab i)) : Step o i s .other s'

/-- A child that has just been started. -/
structure Initial (i : Nat) (s : Tracer) : Prop where
  hidden : (s.tcbtab i).hideLog = true
  outside : (s.tcbtab i).insyscall = false

variable (o : Options)

def Restrained (t : Tcb) : Prop :=
  ∀ (a : Answers) (n personality : Nat) (timer : DelayTimer) (sig : Nat),
    t.insyscall = false → a.Shows n →
    let s := (syscallEnteringDecode o a ⟨t, personality, timer, sig⟩).1
    isExec (tcpSysent s.tcb).sen = false →
      (syscallEnteringTrace o a s).1.tcb.filtered = true ∧
        (syscallEnteringTrace o a s).1.tcb.qualInject = false

def Wanted (a : Answers) (s : Stop) : Prop :=
  s.tcb.qualTrace = true ∧ (o.tracingPaths = true → a.pathMatch = true)

/-- No exec that the child enters is filtered out. The condition is only sufficient: a filtered one
that does not return, because it succeeds or the child ends in it, shows nothing. -/
def ExecWanted (i : Nat) (s : Tracer) : Event → Prop
  | .dispatch a wd =>
    let s := s.setCurrentTcp (some i)
    IsSyscallStop o s wd i → (s.tcbtab i).insyscall = false → ∀ n, a.Shows n →
      let d := (syscallEnteringDecode o a (s.stopOf i 0)).1
      isExec (tcpSysent d.tcb).sen = true → Wanted o a d
  | .other => True

def Hidden (t : Tcb) : Prop :=
  t.hideLog = true ∨ t.insyscall = true ∧ t.checkExecSyscall = true ∧ t.filtered = false

section
variable {o : Options} {a : Answers} {s : Stop}

theorem syscallEnteringTrace_plain (hidden : s.tcb.hideLog = true)
    (plain : isExec (tcpSysent s.tcb).sen = false) :
    (syscallEnteringTrace o a s).1.tcb.filtered = true ∧
      (syscallEnteringTrace o a s).1.tcb.qualInject = false ∧
      (syscallEnteringTrace o a s).1.tcb.hideLog = true := by
  simp [hidden, plain, syscallEnteringTrace, checkHideLog]

theorem syscallEnteringTrace_exec (hidden : s.tcb.hideLog = true)
    (exec : isExec (tcpSysent s.tcb).sen = true) (wanted : Wanted o a s) :
    (syscallEnteringTrace o a s).1.tcb.checkExecSyscall = true ∧
      (syscallEnteringTrace o a s).1.tcb.filtered = false := by
  have paths : (o.tracingPaths && !a.pathMatch) = false := by
    cases tracing : o.tracingPaths with
    | false => rfl
    | true => simp [wanted.2 tracing]
  unfold syscallEnteringTrace checkHideLog
  simp [hidden, exec, wanted.1, paths]

theorem syscallExitingDecode_hideLog (visible : s.tcb.filtered = false) :
    (syscallExitingDecode a s).1.tcb.hideLog = (s.tcb.checkExecSyscall || s.tcb.hideLog) := by
  unfold syscallExitingDecode getSyscallResult
  rw [visible]
  cases read : a.regsRead with
  | false =>
    simp only [getSyscallRegs, read]
    cases check : s.tcb.checkExecSyscall <;> simp [updatePersonality]
  | true =>
    simp only [getSyscallRegs_read read]
    cases check : s.tcb.checkExecSyscall <;> simp [updatePersonality, getError]

theorem syscallEnteringDecode_hideLog : (syscallEnteringDecode o a s).1.tcb.hideLog =
    s.tcb.hideLog := by
  have decoded := (syscallEnteringDecode_decoded (o := o) (a := a) s).1
  rw [decoded]

theorem traceSyscall_hidden (hidden : Hidden s.tcb)
    (wanted : s.tcb.insyscall = false → ∀ n, a.Shows n →
      isExec (tcpSysent (syscallEnteringDecode o a s).1.tcb).sen = true →
      Wanted o a (syscallEnteringDecode o a s).1) :
    Hidden (traceSyscall o a s).1.tcb := by
  have decoded := syscallEnteringDecode_hideLog (o := o) (a := a) (s := s)
  have before (outside : s.tcb.insyscall = false) : s.tcb.hideLog = true := by
    rcases hidden with hidden | ⟨inside, -⟩
    · exact hidden
    · exact absurd (inside.symm.trans outside) (by decide)
  have traced := traceSyscall_traced o a s
  generalize traceSyscall o a s = r at traced
  cases traced with
  | entered n outside shows =>
    have hidden := decoded.trans (before outside)
    cases exec : isExec (tcpSysent (syscallEnteringDecode o a s).1.tcb).sen with
    | false => exact .inl (syscallEnteringTrace_plain hidden exec).2.2
    | true =>
      exact .inr ⟨rfl, syscallEnteringTrace_exec hidden exec (wanted outside n shows exec)⟩
  | ignored outside => exact .inl (decoded.trans (before outside))
  | unread outside => exact .inl (decoded.trans (before outside))
  | passed inside filtered =>
    rcases hidden with hidden | ⟨-, -, visible⟩
    · refine .inl ?_
      unfold syscallExitingDecode
      rw [filtered]
      exact hidden
    · exact absurd (visible.symm.trans filtered) (by decide)
  | exited inside visible res =>
    have again : (syscallExitingDecode a s).1.tcb.hideLog = true := by
      rw [syscallExitingDecode_hideLog visible]
      rcases hidden with hidden | ⟨-, check, -⟩
      · rw [hidden, Bool.or_true]
      · rw [check, Bool.true_or]
    have kept := (syscallExitingTrace_tamper o a (syscallExitingDecode a s).1 res).tcb
    refine .inl ?_
    dsimp only [syscallExitingFinish]
    rw [kept]
    exact again

end

section
variable {o : Options} {a : Answers} {wd : WaitData} {s s' : Tracer} {i : Nat} {t t' : Tcb}

theorem Hidden.same (hidden : Hidden t) (same : SameLog t t') : Hidden t' := by
  simpa [same.hideLog, same.checkExec, same.filtered, same.insyscall, Hidden] using hidden

theorem restartCurrent_hidden (op : RestartOp) (sig : Nat) (hidden : Hidden (s.tcbtab i)) :
    Hidden ((s.restartCurrent a wd i op sig).1.tcbtab i) := by
  unfold restartCurrent
  split
  · exact hidden
  · split
    · rw [setTcb_tcbtab_self]
      exact hidden.same ⟨rfl, rfl, rfl, rfl⟩
    · exact hidden

theorem dispatchSyscallStop_hidden
    (after : Hidden (traceSyscall o a (s.stopOf i 0)).1.tcb) :
    Hidden ((s.dispatchSyscallStop o a wd i).1.tcbtab i) := by
  have traced : Hidden ((s.traceSyscallOf o a i 0).1.tcbtab i) := by
    unfold traceSyscallOf
    simp only [record_tcbtab, withStop_tcbtab, setTcb_tcbtab_self]
    exact after
  unfold dispatchSyscallStop
  dsimp only
  split
  · exact traced
  · exact restartCurrent_hidden _ _ traced

theorem dispatchCurrent_hidden (alive : wd.te ≠ .signalled ∧ wd.te ≠ .exited)
    (before : wd.te ≠ .stopBeforeExecve) (hidden : Hidden (s.tcbtab i))
    (after : IsSyscallStop o s wd i → Hidden (traceSyscall o a (s.stopOf i 0)).1.tcb) :
    Hidden ((s.dispatchCurrent o a wd i).1.tcbtab i) := by
  unfold dispatchCurrent
  cases te : wd.te
  case brk | next => exact hidden
  case restart | stopBeforeExit | signalDeliveryStop => exact restartCurrent_hidden _ _ hidden
  case groupStop =>
    grind [restartCurrent_hidden]
  case signalled => exact absurd te alive.1
  case exited => exact absurd te alive.2
  case stopBeforeExecve => exact absurd te before
  case syscallStop => exact dispatchSyscallStop_hidden (after (.inl te))
  case seccomp =>
    dsimp only
    split
    · refine restartCurrent_hidden _ _ ?_
      rw [setTcb_tcbtab_self]
      exact hidden.same ⟨rfl, rfl, rfl, rfl⟩
    · next filter =>
      split
      · exact restartCurrent_hidden _ _ hidden
      · next order =>
        exact dispatchSyscallStop_hidden
          (after (.inr ⟨te, by simpa using filter, by simpa using order⟩))

theorem step_hidden {x : Event} (hidden : Hidden (s.tcbtab i)) (meets : ExecWanted o i s x)
    (moved : Step o i s x s') : Hidden (s'.tcbtab i) := by
  cases moved with
  | other _ same => exact hidden.same same
  | dispatch a wd alive before =>
    refine dispatchCurrent_hidden alive before hidden ?_
    intro stop
    exact traceSyscall_hidden hidden (meets stop)

theorem Hidden.restrained (hidden : Hidden t) : Restrained o t := by
  intro a n personality timer sig outside shows s plain
  have before : t.hideLog = true := by
    rcases hidden with hidden | ⟨inside, -⟩
    · exact hidden
    · exact absurd (inside.symm.trans outside) (by decide)
  obtain ⟨filtered, inject, -⟩ := syscallEnteringTrace_plain
    (syscallEnteringDecode_hideLog.trans before) plain
  exact ⟨filtered, inject⟩

end

/-- Until the child has executed, nothing but an exec of it is logged or
tampered with, in every run in which no exec that it enters is filtered out. -/
theorem child_restrained (o : Options) (i : Nat) (s : Tracer)
    (run : Run (Initial i) (Step o i) (ExecWanted o i) s) : Restrained o (s.tcbtab i) := by
  have hidden :=
    run.invariant (P := fun s => Hidden (s.tcbtab i)) (fun _ initial => .inl initial.hidden) fun _ _
      _ hidden meets moved => step_hidden hidden meets moved
  exact hidden.restrained

/-! ## An exec that fails -/

def execOptions (traced : UInt32) : Options where
  supportedPersonalities := 1
  auditArchVec _ := ⟨0xc000003e, 0⟩
  nsyscallVec _ := 2
  sysentVec _ n := if n = 0 then { sen := .execve } else {}
  traceSet := some fun _ => ⟨[traced], false⟩

/-- The child as it is started. -/
def started : Tracer where
  tcbtab _ := { pid := 7, hideLog := true }

theorem started_initial : Initial 0 started := ⟨rfl, rfl⟩

/-- The child at a stop of syscall `n`. -/
def calls (n : Nat) : Answers := { scno := .number n, error := 2 }

def stopped (a : Answers) (s : Tracer) : Tracer :=
  ((s.setCurrentTcp (some 0)).dispatchCurrent o a { te := .syscallStop } 0).1

/-- Once an execve that is traced has failed, the log is hidden again. -/
theorem child_restrained_failed : Restrained (execOptions 0b11)
    ((stopped (execOptions 0b11) (calls 0) (stopped (execOptions 0b11) (calls 0) started)).tcbtab
      0) := by
  refine child_restrained _ 0 _ (.next (.next (.start started_initial) ?_
    (.dispatch _ (calls 0) { te := .syscallStop } (by decide) (by decide))) ?_
    (.dispatch _ (calls 0) { te := .syscallStop } (by decide) (by decide)))
  · intro _ _ n _ s _
    exact ⟨rfl, by simp [execOptions]⟩
  · intro _ outside
    exact absurd outside (by decide)

/-- After an execve that is not traced has failed, the child's next syscall is
logged. -/
theorem failed_exec_shown : ¬ ∀ (o : Options) (i : Nat) (s : Tracer),
    Run (Initial i) (Step o i) (fun _ _ => True) s → Restrained o (s.tcbtab i) := by
  intro stated
  have run : Run (Initial 0) (Step (execOptions 0b10) 0) (fun _ _ => True)
      (stopped (execOptions 0b10) (calls 0) (stopped (execOptions 0b10) (calls 0) started)) :=
    .next (.next (.start started_initial) trivial
      (.dispatch _ (calls 0) { te := .syscallStop } (by decide) (by decide))) trivial
      (.dispatch _ (calls 0) { te := .syscallStop } (by decide) (by decide))
  have restrained := stated _ 0 _ run (calls 1) 1 0 {} 0 rfl ⟨rfl, rfl, rfl⟩ rfl
  exact absurd restrained.1 (by decide)

end Strace.HideLog
