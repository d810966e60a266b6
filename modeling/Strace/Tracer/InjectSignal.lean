import Strace.Tracer.Acts

/-! The signal of an injection. It is a local of the `dispatch_event` call that
handles the syscall stop: a tracee that is delayed is restarted by another call,
without it. -/
namespace Strace.Tracer

def restartSignal (i : Nat) (actions : List Action) : Option Nat :=
  actions.findSome? fun
    | .restart _ j sig => if j = i then some sig else none
    | _ => none

/-- What is logged between `s` and `s'`. -/
def since (s s' : Tracer) : List Action := s'.log.drop s.log.length

def nextSignal (o : Options) (a : Answers) (s : Tracer) (wd : WaitData) (a' : Answers)
    (later : Tracer) (i : Nat) : Option Nat :=
  (restartSignal i (since s (s.dispatchEvent o a (some wd)).1)).or
    (restartSignal i (since later (later.restartDelayedTcb o a' i).1))

section
variable {o : Options} {a a' : Answers} {s later : Tracer} {wd : WaitData} {i : Nat}
  {data : InjectData}

theorem since_eq {s' : Tracer} {actions : List Action} (log : s'.log = s.log ++ actions) :
    since s s' = actions := by
  unfold since
  rw [log, List.drop_left]

theorem restartDelayedTcb_signal (running : later.interrupted = false) :
    restartSignal i (since later (later.restartDelayedTcb o a' i).1) = some 0 := by
  have log : (later.restartDelayedTcb o a' i).1.log =
      later.log ++ [.restart (later.restartOp o i) i 0] := by
    rw [restartDelayedTcb_eq]
    simp [running]
  rw [since_eq log]
  simp [restartSignal]

theorem dispatchEvent_syscallStop (current : s.currentTcp = some i)
    (stop : IsSyscallStop o s wd i) :
    s.dispatchEvent o a (some wd) = s.dispatchSyscallStop o a wd i := by
  unfold dispatchEvent
  rw [current]
  unfold dispatchCurrent
  rcases stop with te | ⟨te, filter, order⟩
  · simp only [te]
  · simp only [te, filter, order, Bool.not_true, Bool.false_eq_true, ↓reduceIte]

theorem traceSyscallOf_injection (outside : (s.tcbtab i).insyscall = false)
    (made : injection o a (s.stopOf i 0) = some data) :
    0 ≤ (s.traceSyscallOf o a i 0).2.2 ∧
      (s.traceSyscallOf o a i 0).2.1 = (if data.signal then data.signo.toNat else 0) ∧
      ((s.traceSyscallOf o a i 0).1.tcbtab i).delayed =
        ((s.tcbtab i).delayed || data.delayEnter) ∧
      (s.traceSyscallOf o a i 0).1.log = s.log ++ [.entering i] ∧
      (s.traceSyscallOf o a i 0).1.interrupted = s.interrupted := by
  have injected := traceSyscall_injection (o := o) (a := a)
    (s := s.stopOf i 0) outside
  rw [made] at injected
  obtain ⟨u, first, last⟩ := injected
  obtain ⟨-, delayed, sig⟩ := injectEntering_delay data u
  refine ⟨(injection_some outside made).1, ?_, ?_, ?_, rfl⟩
  · exact last.sig.trans (sig.trans (by rw [first.sig]; rfl))
  · unfold traceSyscallOf
    simp only [record_tcbtab, withStop_tcbtab, setTcb_tcbtab_self]
    exact last.delayed.trans (delayed.trans (by rw [first.delayed]; rfl))
  · simp [Tcb.entering, outside, traceSyscallOf]

theorem dispatchSyscallStop_signal (running : s.interrupted = false)
    (outside : (s.tcbtab i).insyscall = false)
    (made : injection o a (s.stopOf i 0) = some data)
    (signal : data.signal = true) :
    restartSignal i (since s (s.dispatchSyscallStop o a wd i).1) =
      if (s.tcbtab i).delayed || data.delayEnter then none else some data.signo.toNat := by
  obtain ⟨found, sig, delayed, log, interrupted⟩ := traceSyscallOf_injection outside made
  unfold dispatchSyscallStop
  simp only [sig, Int.not_lt.mpr found, ↓reduceIte]
  unfold restartCurrent
  rw [interrupted, running, delayed, if_neg Bool.false_ne_true]
  split
  · have waits (t : Tcb) : since s ((s.traceSyscallOf o a i 0).1.setTcb i t) = [.entering i] :=
      since_eq log
    rw [waits]
    rfl
  · rw [since_eq (by rw [record_log, log, List.append_assoc])]
    simp [restartSignal]

end

/-- When an invocation is selected whose options have a signal, the tracee is
restarted next with that signal exactly if it is not delayed on entering (or the
signal is the zero that stands for none). -/
theorem nextSignal_iff (o : Options) (a : Answers) (s : Tracer) (wd : WaitData) (i : Nat)
    (data : InjectData) (current : s.currentTcp = some i) (stop : IsSyscallStop o s wd i)
    (outside : (s.tcbtab i).insyscall = false)
    (made : injection o a (s.stopOf i 0) = some data)
    (signal : data.signal = true) (running : s.interrupted = false)
    (a' : Answers) (later : Tracer) (still : later.interrupted = false) :
    nextSignal o a s wd a' later i = some data.signo.toNat ↔
      data.delayEnter = false ∧ (s.tcbtab i).delayed = false ∨ data.signo = 0 := by
  unfold nextSignal
  rw [dispatchEvent_syscallStop current stop,
    dispatchSyscallStop_signal running outside made signal,
    restartDelayedTcb_signal still]
  have zero : 0 = data.signo.toNat ↔ data.signo = 0 := by
    rw [eq_comm]
    exact UInt8.toNat_inj (b := 0)
  cases delayed : (s.tcbtab i).delayed <;> cases asked : data.delayEnter <;> simp [zero]

/-! ## A signal with a delay -/

def signalOptions (delay : Bool) : Options where
  supportedPersonalities := 1
  auditArchVec _ := ⟨0xc000003e, 0⟩
  nsyscallVec _ := 3
  sysentVec _ _ := {}
  traceSet := some fun _ => ⟨[], true⟩
  injectSet := some fun _ => ⟨[0b10], false⟩
  injectVec _ n := if n = 1 then
    { first := 1, last := injectLastInf, step := 1
      data := { signal := true, signo := 10, delayEnter := delay } }
    else {}
  delayDataVec _ := (1000, 0)

/-- A tracee at a syscall stop. -/
def oneTracee : Tracer where
  tcbtab i := if i = 0 then { pid := 7 } else {}
  tcbtabsize := 1
  nprocs := 1
  currentTcp := some 0

theorem nextSignal_prompt : nextSignal (signalOptions false) { scno := .number 1 } oneTracee
    { te := .syscallStop } {} oneTracee 0 = some 10 :=
  (nextSignal_iff (signalOptions false) { scno := .number 1 } oneTracee { te := .syscallStop } 0
    { signal := true, signo := 10 } rfl (.inl rfl) rfl rfl rfl rfl {} oneTracee rfl).mpr
    (.inl ⟨rfl, rfl⟩)

/-- With a delay on entering the signal is lost. -/
theorem delayed_signal_lost :
    ¬ ∀ (o : Options) (a : Answers) (s : Tracer) (wd : WaitData) (i : Nat) (data : InjectData),
      s.currentTcp = some i → IsSyscallStop o s wd i → (s.tcbtab i).insyscall = false →
      injection o a (s.stopOf i 0) = some data →
      data.signal = true → s.interrupted = false →
      ∀ (a' : Answers) (later : Tracer), later.interrupted = false →
        nextSignal o a s wd a' later i = some data.signo.toNat := by
  intro stated
  have restarted := stated (signalOptions true) { scno := .number 1 } oneTracee
    { te := .syscallStop } 0 { signal := true, signo := 10, delayEnter := true } rfl (.inl rfl) rfl
    rfl rfl rfl {} (oneTracee.dispatchEvent (signalOptions true) { scno := .number 1 }
      (some { te := .syscallStop })).1 rfl
  exact absurd restarted (by decide)

end Strace.Tracer
