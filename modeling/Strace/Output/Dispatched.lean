import Strace.Output.Emits
import Strace.Output.System

/-! What a dispatch does to the tracer and its output together. -/
namespace Strace.Output

structure Kept (po : OutputOptions) (P : Tracer → Output → Prop) : Prop where
  shown : ∀ {t t' : Tracer} {s : Output}, P t s → t.Shown t' → P t' s
  speaks : ∀ {t : Tracer} {s u : Output} {j : Nat}, P t s → s.Speaks j u → P t u
  dropped : ∀ {t : Tracer} {s : Output} {j : Nat}, P t s → t.live j →
    P (t.droptcb j) (s.droptcb po j)

section
variable {po : OutputOptions} {o : Options} {a : Answers} {x : Texts} {P : Tracer → Output → Prop}
  {tracer : Tracer} {s : Output} {i : Nat} {wd : WaitData}

theorem Kept.restarted (kept : Kept po P) {tracer' : Tracer} (holds : P tracer s)
    (shown : tracer.Shown tracer') (from_ : Tracer) (op : RestartOp) (sig : Nat) :
    P (tracer'.restartCurrent a wd i op sig).1 (s.restartCurrent a x from_ i) :=
  kept.speaks (kept.shown (kept.shown holds shown) (Tracer.restartCurrent_shown op sig))
    (restartCurrent_speaks a x s i from_)

theorem Kept.detachOrRestart (kept : Kept po P) (holds : P tracer s) (attached : tracer.live i)
    (op : RestartOp) (sig : Nat) :
    P (tracer.detachOrRestart o a wd i op sig).1 (s.detachOrRestart po o a x tracer i) := by
  unfold Output.detachOrRestart Tracer.detachOrRestart
  cases detach : o.detachOnExecve with
  | false => exact kept.restarted holds (fun _ => .refl _) tracer op sig
  | true =>
    cases skip : (tracer.tcbtab i).skipDetachOnFirstExec with
    | true =>
      have shown : tracer.Shown (tracer.setTcb i (tracer.tcbtab i).firstExecSkipped) :=
        Tracer.setTcb_shown ⟨rfl, rfl, rfl⟩
      exact kept.restarted holds shown tracer op sig
    | false =>
      refine kept.dropped ?_ attached
      split
      · exact kept.speaks holds (ptraceRestartError_speaks x s i)
      · exact holds

def TracesTo (po : OutputOptions) (o : Options) (a : Answers) (x : Texts)
    (P : Tracer → Output → Prop) (tracer : Tracer) (s : Output) (i : Nat) : Prop :=
  P (tracer.traceSyscallOf o a i 0).1 (s.traceSyscall po o a x (tracer.stopOf i 0) i)

theorem Kept.dispatchSyscallStop (kept : Kept po P) (traced : TracesTo po o a x P tracer s i) :
    P (tracer.dispatchSyscallStop o a wd i).1 (s.dispatchSyscallStop po o a x tracer i) := by
  unfold Output.dispatchSyscallStop Tracer.dispatchSyscallStop
  dsimp only
  split
  · exact traced
  · exact kept.restarted traced (fun _ => .refl _) _ _ _

theorem Kept.dispatchExecve (kept : Kept po P) (holds : P tracer s) (attached : tracer.live i)
    (recovered : ∀ u, tracer.Shown u → ¬ u.busy i → P u s → TracesTo po o a x P u s i)
    (switched : ∀ u j, tracer.Shown u → tracer.execveThread o i = some j → u.live i → u.live j →
      j ≠ i → P u s → ∀ pid oldPid, P (u.switchTcbs i j) (s.maybeSwitchTcbs po x i j pid oldPid)) :
    P (tracer.dispatchExecve o a wd i).1 (s.dispatchExecve po o a x tracer i) := by
  have succeeded : tracer.Shown (tracer.setTcb i (tracer.tcbtab i).execSucceeded) :=
    Tracer.setTcb_shown ⟨rfl, rfl, rfl⟩
  have thread := Tracer.execveThread_execSucceeded o tracer i
  unfold Output.dispatchExecve Tracer.dispatchExecve
  dsimp only
  generalize eq : tracer.setTcb i (tracer.tcbtab i).execSucceeded = u at succeeded thread
  have holds := kept.shown holds succeeded
  have leader := (succeeded.live i).mpr attached
  cases found : u.execveThread o i with
  | some j =>
    have attached := Tracer.execveThread_live found
    have different := Tracer.execveThread_ne found
    have taken := switched u j succeeded (thread.symm.trans found) leader attached different holds
      (u.tcbtab i).pid (u.tcbWaitTab (u.tcbtab i).waitDataIdx).msg
    have live := (Tracer.switchTcbs_live leader attached different j).mpr ⟨attached, different⟩
    exact kept.detachOrRestart (kept.speaks taken (.aside (i := j) (.refl _))) live _ _
  | none =>
    dsimp only
    split
    · next entering =>
      have recovering : u.Shown (u.setTcb i ((u.tcbtab i).setRecovering true)) :=
        Tracer.setTcb_shown ⟨rfl, rfl, rfl⟩
      have outside : ¬ (u.setTcb i ((u.tcbtab i).setRecovering true)).busy i := by
        rw [recovering.busy]
        intro inside
        simp [Tcb.entering, inside.1] at entering
      have traced := recovered _ (fun k => (succeeded k).trans (recovering k)) outside
        (kept.shown holds recovering)
      have ended (v : Tracer) : v.Shown (v.setTcb i ((v.tcbtab i).setRecovering false)) :=
        Tracer.setTcb_shown ⟨rfl, rfl, rfl⟩
      have recovered := kept.shown traced (ended _)
      split
      · exact recovered
      · exact kept.detachOrRestart recovered ((Tracer.recoverExecve_live i).mpr leader) _ _
    · exact kept.detachOrRestart holds leader _ _

theorem Kept.dispatchCurrent (kept : Kept po P) (holds : P tracer s) (attached : tracer.live i)
    (traced : Tracer.IsSyscallStop o tracer wd i → TracesTo po o a x P tracer s i)
    (exits : P tracer (s.printEventExit po x (tracer.tcbtab i) i))
    (recovered : ∀ u, tracer.Shown u → ¬ u.busy i → P u s → TracesTo po o a x P u s i)
    (switched : wd.te = .stopBeforeExecve → ∀ u j, tracer.Shown u →
      tracer.execveThread o i = some j → u.live i → u.live j → j ≠ i → P u s →
      ∀ pid oldPid, P (u.switchTcbs i j) (s.maybeSwitchTcbs po x i j pid oldPid)) :
    P (tracer.dispatchCurrent o a wd i).1 (s.dispatchCurrent po o a x tracer wd i) := by
  have same : tracer.Shown tracer := fun _ => .refl _
  unfold Output.dispatchCurrent Tracer.dispatchCurrent
  dsimp only
  cases te : wd.te
  case brk | next => exact holds
  case restart => exact kept.restarted holds same tracer _ _
  case syscallStop => exact kept.dispatchSyscallStop (traced (.inl te))
  case signalDeliveryStop =>
    exact kept.restarted (kept.speaks holds (printStopped_speaks po x s i _ _ _)) same tracer _ _
  case groupStop =>
    have printed := kept.speaks holds (printStopped_speaks po x s i (tracer.tcbtab i)
      (wstopsig wd.status) (stoppedText po (wstopsig wd.status) none))
    dsimp only
    split <;> exact kept.restarted printed same tracer _ _
  case signalled =>
    exact kept.dropped (kept.speaks holds (printSignalled_speaks po x s i _)) attached
  case exited => exact kept.dropped (kept.speaks holds (printExited_speaks po x s i _)) attached
  case stopBeforeExecve => exact kept.dispatchExecve holds attached recovered (switched te)
  case stopBeforeExit => exact kept.restarted exits same tracer _ _
  case seccomp =>
    cases filter : (tracer.tcbtab i).seccompFilter with
    | false =>
      have shown : tracer.Shown (tracer.setTcb i (tracer.tcbtab i).setSeccompFilter) :=
        Tracer.setTcb_shown ⟨rfl, rfl, rfl⟩
      exact kept.restarted holds shown tracer _ _
    | true =>
      cases order : o.seccompBeforeSysentry with
      | true => exact kept.restarted holds same tracer _ _
      | false => exact kept.dispatchSyscallStop (traced (.inr ⟨te, filter, order⟩))

end

end Strace.Output
