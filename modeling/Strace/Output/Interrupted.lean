import Strace.Output.Ownership

/-! Every line of a shared log is about one tracee, and a line that is interrupted
is ended before another tracee prints. -/
namespace Strace.Ownership
open Output Lines Runs

inductive Closing (s : Output) (p : Nat) : List Piece → Prop
  | unfinished : Closing s p [s.piece p " ", s.piece p "<unfinished ...>", s.piece p "\n"]
  | detached : Closing s p [s.piece p " <detached ...>\n"]
  | pidChanged (pid : Nat) :
      Closing s p [s.piece p (" <pid changed to " ++ toString pid ++ " ...>\n")]

def Closes (p : Nat) (s s' : Output) : Prop :=
  ∃ closing, Closing s p closing ∧ s.logs 0 ++ closing <+: s'.logs 0

section
variable {att : Nat → Prop} {po : OutputOptions} {o : Options} {a : Answers} {x : Texts}
  {s u v : Output} {i j p : Nat}

theorem Closes.emits (closes : Closes p s u) (emits : u.Emits v) : Closes p s v := by
  obtain ⟨closing, kind, added⟩ := closes
  exact ⟨closing, kind, added.trans (emits.grows 0)⟩

theorem Closes.prints (closes : Closes p s u) (prints : u.Prints v) : Closes p s v :=
  closes.emits (.prints prints)

def Cuts (p : Nat) (s s' : Output) : Prop := s' = s ∨ Closes p s s'

theorem Cuts.andThen (cuts : Cuts p s u) (emits : u.Emits v) (own : u = s → Cuts p s v) :
    Cuts p s v := cuts.elim own fun closes => .inr (closes.emits emits)

theorem Cuts.ite {q : Prop} [Decidable q] (closes : Closes p s u) :
    Cuts p s (if q then u else s) := by
  split
  · exact .inr closes
  · exact .inl rfl

theorem Closes.of_same (closes : Closes p s u) (log : s.logs 0 = v.logs 0)
    (tcb : s.tcbs p = v.tcbs p) : Closes p v u := by
  have piece (text : String) : s.piece p text = v.piece p text := by
    simp [tcb, Output.piece]
  obtain ⟨closing, kind, added⟩ := closes
  refine ⟨closing, ?_, log ▸ added⟩
  cases kind with
  | unfinished =>
    simpa [piece] using .unfinished
  | detached =>
    rw [piece]
    exact .detached
  | pidChanged pid =>
    rw [piece]
    exact .pidChanged pid

theorem unfinished_logs (current : s.currentTcp = some p)
    (outf : (s.tcbs p).outf = some (.log 0)) : s.unfinished.logs 0 =
      s.logs 0 ++ [s.piece p " ", s.piece p "<unfinished ...>", s.piece p "\n"] := by
  have say {u : Output} (outf : (u.tcbs p).outf = some (.log 0)) (text : String) :
      ((u.say p text).tcbs p).outf = some (.log 0) ∧
        (u.say p text).logs 0 = u.logs 0 ++ [u.piece p text] := by
    rw [say_tcbs_self, say_logs, if_pos outf]
    exact ⟨outf, rfl⟩
  unfold Output.unfinished
  rw [tprintsString_current current, tprintsString_current (s := s.say p " ") current,
    tprintsString_current (s := (s.say p " ").say p "<unfinished ...>") current]
  have first := say outf " "
  have second := say first.1 "<unfinished ...>"
  have third := say second.1 "\n"
  rw [third.2, second.2, first.2, say_piece, say_piece, say_piece]
  simp

theorem Shared.interrupted_closes (shared : Shared att s) (moved : (s.tcbs p).curcol ≠ 0) :
    Closes p s ((s.setCurrentTcp (some p)).unfinished.setCurcol p 0) := by
  refine ⟨_, .unfinished, ?_⟩
  have log := unfinished_logs (s := s.setCurrentTcp (some p)) rfl
    (shared.plain.outf p (shared.attached moved))
  have same : ((s.setCurrentTcp (some p)).unfinished.setCurcol p 0).logs 0 =
      (s.setCurrentTcp (some p)).unfinished.logs 0 := rfl
  rw [same, log]
  exact List.prefix_refl _

section
variable (shared : Shared att s) (mode : Mode po) (moved : (s.tcbs p).curcol ≠ 0)
include shared mode moved

theorem Shared.printleader_closes (i : Nat) : Closes p s (s.printleader po x i) := by
  have printing := shared.column p moved
  have interrupted : s.interruptPrinting po i =
      (s.setCurrentTcp (some p)).unfinished.setCurcol p 0 := by
    unfold Output.interruptPrinting
    rw [printing]
    exact if_pos ⟨moved, .inr ⟨mode.together, shared.plain.unstaged p⟩⟩
  have closes := shared.interrupted_closes moved
  rw [← interrupted] at closes
  unfold Output.printleader
  rw [mode.together]
  exact closes.prints (.trans (.start _ i) (tprintsString_prints _ _))

theorem Shared.printNotice_closes (i : Nat) (text : String) :
    Closes p s (s.printNotice po x i text) :=
  (shared.printleader_closes mode moved i).prints <| (tprintsString_prints _ _).trans <|
    (tprintsString_prints _ _).trans (lineEnded_prints _)

theorem Shared.syscallEnteringFailed_closes (i : Nat) :
    Closes p s (s.syscallEnteringFailed po x i) :=
  (shared.printleader_closes mode moved i).prints <| (tprintsString_prints _ _).trans
    (tprintsString_prints _ _)

theorem Shared.notePersonality_cuts (t : Tcb) (i : Nat) :
    Cuts p s (s.notePersonality po a x t i) := by
  unfold Output.notePersonality
  split
  · exact .ite (shared.printNotice_closes mode moved i _)
  · exact .inl rfl

theorem Shared.printStopped_cuts (t : Tcb) (i sig : Nat) (text : String) :
    Cuts p s (s.printStopped po x t i sig text) :=
  .ite ((shared.printNotice_closes mode moved i text).prints (unwindTcbPrint_speaks x _ i).prints)

end

section
variable (ready : Ready att i s) (mode : Mode po) (moved : (s.tcbs p).curcol ≠ 0) (other : p ≠ i)
include ready moved other

theorem Ready.ptraceRestartError_same : s.ptraceRestartError x = s := by
  have still : (s.tcbs i).curcol = 0 := by
    by_contra away
    exact other (Option.some.inj
      ((ready.shared.column p moved).symm.trans (ready.shared.column i away)))
  unfold Output.ptraceRestartError
  rw [ready.current]
  exact if_neg (not_not_intro still)

theorem Ready.restart_cuts (printed : Cuts p s u) (tracer : Tracer) :
    Cuts p s (u.restartCurrent a x tracer i) := by
  refine printed.andThen (restartCurrent_speaks a x u i tracer).emits fun same => .inl ?_
  unfold Output.restartCurrent
  rw [same, ready.ptraceRestartError_same moved other, ite_self, ite_self]

include mode

theorem Ready.printSyscallResume_closes : Closes p s (s.printSyscallResume po x i) := by
  have tcb : (s.setReprint i false).tcbs p = s.tcbs p := setTcb_tcbs_other _ _ other
  have closes : Closes p (s.setReprint i false) ((s.setReprint i false).printleader po x i) :=
    (ready.shared.setReprint false).printleader_closes mode (by rw [tcb]; exact moved) i
  have closes : Closes p s ((s.setReprint i false).printleader po x i) := closes.of_same rfl tcb
  have cond : po.outputSeparately = false ∧ s.printingTcp ≠ some i ∧
      (s.tcbs i).stagedOutput = none := by
    refine ⟨mode.together, ?_, ready.shared.plain.unstaged i⟩
    rw [ready.shared.column p moved]
    exact fun eq => other (Option.some.inj eq)
  unfold Output.printSyscallResume
  rw [if_pos (.inl cond)]
  exact closes.prints <| (tprintsString_prints _ _).trans <| (tprintsString_prints _ _).trans <|
    (tprintsString_prints _ _).trans (.printing _ _)

theorem Ready.syscallExitingTrace_cuts (res : Int) (t : Tcb) :
    Cuts p s (s.syscallExitingTrace po x res t i) := by
  by_cases hidden : po.onlyStats
  · refine .inl ?_
    unfold Output.syscallExitingTrace
    rw [if_pos hidden]
  · exact .inr ((ready.printSyscallResume_closes mode moved other).emits
      (printExiting_emits po x s i hidden res t))

theorem Ready.traceSyscall_cuts (r : Stop) : Cuts p s (s.traceSyscall po o a x r i) := by
  have noted := ready.shared.notePersonality_cuts (a := a) (x := x) mode moved r.tcb i
  have failed := ready.shared.syscallEnteringFailed_closes (x := x) mode moved i
  unfold Output.traceSyscall
  dsimp only
  split
  · split
    · exact noted
    · split
      · refine noted.andThen (syscallEnteringTrace_emits po x _ i _) fun same => ?_
        unfold Output.syscallEnteringTrace
        rw [same, openStaged_complete mode]
        split
        · exact .inl rfl
        · exact .inr (failed.prints (tprintsString_prints _ _))
      · refine noted.andThen (syscallEnteringFailed_speaks po x _ i).emits fun same => .inr ?_
        rw [same]
        exact failed
  · split
    · exact .inl rfl
    · refine noted.andThen (syscallExitingTrace_emits po x _ i _ _) fun same => ?_
      rw [same]
      exact ready.syscallExitingTrace_cuts mode moved other _ _

theorem Ready.printEventExit_cuts (t : Tcb) : Cuts p s (s.printEventExit po x t i) := by
  have interrupted : s.interruptOther po i =
      ((s.setCurrentTcp (some p)).unfinished.setCurcol p 0).setCurrentTcp (some i) := by
    unfold Output.interruptOther
    rw [ready.shared.column p moved]
    exact if_pos ⟨mode.together, other, moved, ready.shared.plain.unstaged p⟩
  have closes := (ready.shared.interrupted_closes moved).prints (.current _ (some i))
  rw [← interrupted] at closes
  by_cases hidden : t.entering || t.filtered || t.hideLog || po.onlyStats
  · refine .inl ?_
    unfold Output.printEventExit
    rw [if_pos hidden]
  · exact .inr (closes.emits (printUnfinished_emits po x s i hidden))

theorem Ready.dispatchSyscallStop_cuts (tracer : Tracer) :
    Cuts p s (s.dispatchSyscallStop po o a x tracer i) := by
  have printed := ready.traceSyscall_cuts (o := o) (a := a) (x := x) mode moved other
    (tracer.stopOf i 0)
  unfold Output.dispatchSyscallStop
  dsimp only
  split
  · exact printed
  · exact ready.restart_cuts moved other printed _

end

def Interrupted (p : Nat) (s s' : Output) : Prop := s'.logs 0 = s.logs 0 ∨ Closes p s s'

theorem Cuts.interrupted (cuts : Cuts p s u) : Interrupted p s u :=
  cuts.imp_left fun same => by rw [same]

theorem Cuts.andInterrupted (cuts : Cuts p s u) (emits : u.Emits v)
    (own : u = s → Interrupted p s v) : Interrupted p s v :=
  cuts.elim own fun closes => .inr (closes.emits emits)

theorem Interrupted.of_same (interrupted : Interrupted p s u) (log : s.logs 0 = v.logs 0)
    (tcb : s.tcbs p = v.tcbs p) : Interrupted p v u :=
  interrupted.imp (fun same => same.trans log) fun closes => closes.of_same log tcb

theorem Shared.droptcb_silent (shared : Shared att s) (mode : Mode po) (attached : att i)
    (moved : (s.tcbs p).curcol ≠ 0) (other : p ≠ i) :
    (s.droptcb po i).logs 0 = s.logs 0 ∧ (s.droptcb po i).tcbs p = s.tcbs p := by
  unfold Output.droptcb
  rw [closeOutput_complete mode (shared.plain.outf i attached), if_neg]
  · exact ⟨rfl, setTcb_tcbs_other _ _ other⟩
  · rintro ⟨printing, -⟩
    exact other (Option.some.inj ((shared.column p moved).symm.trans printing))

theorem Ready.detachOrRestart_interrupted (ready : Ready att i s) (mode : Mode po)
    (moved : (s.tcbs p).curcol ≠ 0) (other : p ≠ i) (tracer : Tracer) :
    Interrupted p s (s.detachOrRestart po o a x tracer i) := by
  unfold Output.detachOrRestart
  split
  · simpa [ready.ptraceRestartError_same moved other, Output.detach] using .inl
      (ready.shared.droptcb_silent mode ready.attached moved other).1
  · exact (ready.restart_cuts moved other (.inl rfl) tracer).interrupted

theorem Ready.maybeSwitchTcbs_closes (ready : Ready att i s) (mode : Mode po) (attached : att j)
    (different : j ≠ i) (ended : (s.tcbs i).curcol = 0) (moved : (s.tcbs p).curcol ≠ 0)
    (pid oldPid : Nat) : Closes p s (s.maybeSwitchTcbs po x i j pid oldPid) ∨
      (s.maybeSwitchTcbs po x i j pid oldPid).logs 0 = s.logs 0 ∧
        (s.maybeSwitchTcbs po x i j pid oldPid).tcbs p = s.tcbs p ∧ p ≠ j := by
  have notLeader : p ≠ i := fun eq => moved (eq ▸ ended)
  by_cases own : p = j
  · -- the line is that of the thread, whose pid changes
    have closes : Closes p s (s.pidChanged j pid) := by
      unfold pidChanged
      rw [← own, if_pos moved]
      refine ⟨_, .pidChanged pid, ?_⟩
      have log : (s.fprintf p (" <pid changed to " ++ toString pid ++ " ...>\n")).logs 0 =
          s.logs 0 ++ [s.piece p (" <pid changed to " ++ toString pid ++ " ...>\n")] :=
        if_pos (ready.shared.plain.outf p (own ▸ attached))
      exact log ▸ List.prefix_refl _
    exact .inl (closes.emits (switchedTcbs_emits po x s i j pid oldPid))
  · have still : (s.tcbs j).curcol = 0 := by
      by_contra away
      exact own (Option.some.inj
        ((ready.shared.column p moved).symm.trans (ready.shared.column j away)))
    have unchanged : s.pidChanged j pid = s := if_neg (not_not_intro still)
    have swapped := ready.shared.swapOutput ready.attached attached different ended pid
    rw [unchanged] at swapped
    have tcb : (s.swapOutput i j).tcbs p = s.tcbs p := by
      unfold Output.swapOutput
      rw [setTcb_tcbs_other _ _ notLeader, setTcb_tcbs_other _ _ own]
    have moved' : ((s.swapOutput i j).tcbs p).curcol ≠ 0 := by rw [tcb]; exact moved
    have dropped := swapped.droptcb mode ready.attached
    have silent := swapped.droptcb_silent mode ready.attached moved' notLeader
    have log : ((s.swapOutput i j).droptcb po i).logs 0 = s.logs 0 := silent.1
    have tcb' := silent.2.trans tcb
    unfold Output.maybeSwitchTcbs
    rw [unchanged]
    dsimp only
    generalize (s.swapOutput i j).droptcb po i = u at dropped log tcb' ⊢
    rw [openStaged_complete mode]
    split
    · exact .inr ⟨log, tcb', own⟩
    · split
      · exact .inr ⟨log, (setTcb_tcbs_other _ _ own).trans tcb', own⟩
      · have closes := dropped.printNotice_closes (x := x) mode (by rw [tcb']; exact moved) j
          ("+++ superseded by execve in pid " ++ toString oldPid ++ " +++")
        exact .inl ((closes.of_same log tcb').prints (.reprint _ j true))

variable {tracer : Tracer}

theorem Ready.dispatchExecve_interrupted (ready : Ready tracer.live i s) (mode : Mode po)
    (moved : (s.tcbs p).curcol ≠ 0) (other : p ≠ i)
    (ended : ∀ thread, tracer.execveThread o i = some thread → (s.tcbs i).curcol = 0) :
    Interrupted p s (s.dispatchExecve po o a x tracer i) := by
  have succeeded : tracer.Shown (tracer.setTcb i (tracer.tcbtab i).execSucceeded) :=
    Tracer.setTcb_shown ⟨rfl, rfl, rfl⟩
  have thread := Tracer.execveThread_execSucceeded o tracer i
  unfold Output.dispatchExecve
  dsimp only
  generalize eq : tracer.setTcb i (tracer.tcbtab i).execSucceeded = u at succeeded thread
  have ready := ready.congr succeeded.live
  cases found : u.execveThread o i with
  | some j =>
    have attached := Tracer.execveThread_live found
    have different := Tracer.execveThread_ne found
    have leader := ended j (thread.symm.trans found)
    have switched := ready.shared.maybeSwitchTcbs (x := x) mode ready.attached attached different
      leader (u.tcbtab i).pid (u.tcbWaitTab (u.tcbtab i).waitDataIdx).msg
    rcases ready.maybeSwitchTcbs_closes mode attached different leader moved
      (u.tcbtab i).pid (u.tcbWaitTab (u.tcbtab i).waitDataIdx).msg with closes | ⟨log, tcb, own⟩
    · exact .inr ((closes.prints (.current _ _)).emits (detachOrRestart_emits po o a x _ _ _))
    · refine Interrupted.of_same (switched.detachOrRestart_interrupted mode ?_ own _) log tcb
      exact fun ended => moved ((congrArg TcbOut.curcol tcb).symm.trans ended)
  | none =>
    dsimp only
    split
    · have printed := ready.traceSyscall_cuts (o := o) (a := a) (x := x) mode moved other
        ((u.setTcb i ((u.tcbtab i).setRecovering true)).stopOf i 0)
      split
      · exact printed.interrupted
      · refine printed.andInterrupted (detachOrRestart_emits po o a x _ i _) fun same => ?_
        rw [same]
        exact ready.detachOrRestart_interrupted mode moved other _
    · exact ready.detachOrRestart_interrupted mode moved other _

theorem Ready.dropped_interrupted (ready : Ready att i s) (mode : Mode po)
    (moved : (s.tcbs p).curcol ≠ 0) (printed : Cuts p s u) : Interrupted p s (u.droptcb po i) := by
  have outf := ready.shared.plain.outf i ready.attached
  refine printed.andInterrupted (droptcb_emits po _ i) fun same => ?_
  rw [same]
  by_cases own : p = i
  · subst own
    refine .inr (Closes.emits ?_ (.drop (s.closeOutput po p) p))
    rw [closeOutput_complete mode outf, if_pos ⟨ready.shared.column p moved, moved⟩]
    refine ⟨_, .detached, ?_⟩
    have log : (s.fprintf p " <detached ...>\n").logs 0 =
        s.logs 0 ++ [s.piece p " <detached ...>\n"] := if_pos outf
    exact log ▸ List.prefix_refl _
  · exact .inl (ready.shared.droptcb_silent mode ready.attached moved own).1

theorem Ready.dispatchCurrent_interrupted (ready : Ready tracer.live i s) (mode : Mode po)
    (wd : WaitData) (moved : (s.tcbs p).curcol ≠ 0) (ended : wd.te = .stopBeforeExecve →
      ∀ thread, tracer.execveThread o i = some thread → (s.tcbs i).curcol = 0)
    (event : p ≠ i ∨ wd.te = .signalled ∨ wd.te = .exited) :
    Interrupted p s (s.dispatchCurrent po o a x tracer wd i) := by
  have notice (text : String) := ready.shared.printNotice_closes (x := x) mode moved i text
  unfold Output.dispatchCurrent
  cases te : wd.te
  case signalled => exact ready.dropped_interrupted mode moved (.ite (notice _))
  case exited => exact ready.dropped_interrupted mode moved (.ite (notice _))
  all_goals have other : p ≠ i := by simpa [te] using event
  case stopBeforeExecve => exact ready.dispatchExecve_interrupted mode moved other (ended te)
  -- whatever does not drop a tcb prints nothing, or ends the line
  all_goals refine Cuts.interrupted ?_
  case brk | next => exact .inl rfl
  case restart => exact ready.restart_cuts moved other (.inl rfl) tracer
  case syscallStop => exact ready.dispatchSyscallStop_cuts mode moved other tracer
  case signalDeliveryStop | groupStop =>
    exact ready.restart_cuts moved other (ready.shared.printStopped_cuts mode moved _ _ _ _) tracer
  case stopBeforeExit =>
    exact ready.restart_cuts moved other (ready.printEventExit_cuts mode moved other _) tracer
  case seccomp =>
    dsimp only
    split
    · exact ready.restart_cuts moved other (.inl rfl) tracer
    · exact ready.dispatchSyscallStop_cuts mode moved other tracer

end

/-! ## Runs -/

def Proper (o : Options) (m : System) : SystemEvent → Prop
  | .dispatch _ x wd i => x.kvm = [] ∧ (wd.te = .stopBeforeExecve →
      ∀ thread, m.tracer.execveThread o i = some thread → (m.out.tcbs i).curcol = 0)
  | .attach _ | .startup _ _ _ | .other => True

def Interrupts (p : Nat) : SystemEvent → Prop
  | .dispatch _ _ wd i => p ≠ i ∨ wd.te = .signalled ∨ wd.te = .exited
  | .attach _ | .startup _ _ _ | .other => True

section
variable {att : Nat → Prop} {po : OutputOptions} {o : Options} {a : Answers} {x : Texts}
  {m m' : System} {s : Output} {i p : Nat} {event : SystemEvent}

theorem shared_initial (initial : m.Initial) : Shared m.tracer.live m.out := by
  rw [initial.out]
  refine ⟨⟨fun _ => rfl, ?_, fun _ _ => rfl⟩, fun i moved => absurd rfl moved, none, rfl, nofun⟩
  intro i live
  exact absurd (initial.free i) live

theorem Shared.attach (shared : Shared att s) (mode : Mode po) (free : ¬ att i) :
    Shared (fun k => att k ∨ k = i) (s.attach i po.outputSeparately) := by
  rw [mode.together]
  refine shared.replace (fun k other => ⟨or_iff_left other, setTcb_tcbs_other _ _ other⟩)
    ?_ ?_ ?_ (fun _ _ => id) (.inr ⟨shared.plain.free i free, rfl⟩)
  all_goals
    unfold Output.attach
    rw [setTcb_tcbs_self]
  exact fun _ => rfl

theorem Shared.notePersonality (shared : Shared att s) (mode : Mode po) (attached : att i)
    (t : Tcb) : Shared att (s.notePersonality po a x t i) := by
  unfold Output.notePersonality
  split
  · split
    · exact (shared.printNotice mode.together attached _).1.shared
    · exact shared
  · exact shared

theorem step_shared (mode : Mode po) (shared : Shared m.tracer.live m.out)
    (proper : Proper o m event) (moved : SystemStep po o m event m') :
    Shared m'.tracer.live m'.out := by
  cases moved with
  | dispatch a x wd i live =>
    have ready : Ready (m.tracer.setCurrentTcp (some i)).live i (m.out.setCurrentTcp (some i)) :=
      ⟨shared.setCurrentTcp _, live, rfl⟩
    exact ready.dispatchCurrent mode proper.1 wd proper.2
  | attach i t free pid outside =>
    exact (shared.attach mode (not_not_intro free)).congr (Tracer.setTcb_live pid)
  | startup a x i live =>
    refine Shared.congr ?_ Tracer.startupTcb_shown.live
    unfold System.startup
    split
    · exact shared.notePersonality mode live _
    · exact shared
  | other tracer shown => exact shared.congr shown.live

theorem step_interrupted (mode : Mode po) (shared : Shared m.tracer.live m.out)
    (proper : Proper o m event) (moved : SystemStep po o m event m')
    (inside : (m.out.tcbs p).curcol ≠ 0) (interrupts : Interrupts p event) :
    Interrupted p m.out m'.out := by
  cases moved with
  | dispatch a x wd i live =>
    have ready : Ready (m.tracer.setCurrentTcp (some i)).live i (m.out.setCurrentTcp (some i)) :=
      ⟨shared.setCurrentTcp _, live, rfl⟩
    exact (ready.dispatchCurrent_interrupted mode wd inside proper.2 interrupts).of_same rfl rfl
  | attach => exact .inl rfl
  | startup a x i live =>
    unfold System.startup
    split
    · exact (shared.notePersonality_cuts mode inside _ i).interrupted
    · exact .inl rfl
  | other => exact .inl rfl

end

/-- In every state that is reached by proper steps, only the tcb that has printed
last is inside a line and no line of the log is about two tracees; and whatever
interrupts a line ends it before anything else is printed. -/
theorem lines_kept_apart (po : OutputOptions) (o : Options) (mode : Mode po) (m : System)
    (run : Run System.Initial (SystemStep po o) (Proper o) m) :
    (∀ i, m.tracer.live i → (m.out.tcbs i).curcol ≠ 0 → m.out.printingTcp = some i) ∧
      (∀ i j, m.tracer.live i → m.tracer.live j → (m.out.tcbs i).curcol ≠ 0 →
        (m.out.tcbs j).curcol ≠ 0 → i = j) ∧
      Unmixed (chars (m.out.logs 0)) ∧
      ∀ event m', SystemStep po o m event m' → Proper o m event →
        ∀ p, (m.out.tcbs p).curcol ≠ 0 → Interrupts p event → Interrupted p m.out m'.out := by
  have shared :=
    run.invariant (P := fun m => Shared m.tracer.live m.out) (fun _ initial => shared_initial
      initial) fun _ _ _ shared proper moved => step_shared mode shared proper moved
  refine ⟨fun i _ => shared.column i, ?_, ?_, ?_⟩
  · intro i j _ _ first second
    exact Option.some.inj ((shared.column i first).symm.trans (shared.column j second))
  · obtain ⟨line, read, -⟩ := shared.line
    exact unmixed_of_read read
  · intro event m' moved proper p inside interrupts
    exact step_interrupted mode shared proper moved inside interrupts

/-! ## The structure of a vcpu -/

def ioctlTexts : Texts := { sysName := "ioctl", args := "3", result := " 0" }

def vcpuTexts : Texts := { ioctlTexts with kvm := [" * exit_reason = KVM_EXIT_IO"] }

theorem mode_default : Mode {} := ⟨rfl, by decide⟩

def insideCall : System :=
  ((System.attach {} {} 0 { pid := 7 }).attach {} 1 { pid := 8 }).dispatch {} oneCall
    {} ioctlTexts 0
    { te := .syscallStop }

/-- When the second tracee enters a syscall, the line of the first is ended. -/
theorem lines_kept_apart_twoTracees : (insideCall.out.tcbs 0).curcol ≠ 0 ∧
    Interrupted 0 insideCall.out
      (insideCall.dispatch {} oneCall {} ioctlTexts 1 { te := .syscallStop }).out := by
  have inside : (insideCall.out.tcbs 0).curcol ≠ 0 := by decide
  refine ⟨inside, ?_⟩
  have run : Run System.Initial (SystemStep {} oneCall) (Proper oneCall) insideCall := by
    refine .next (.next (.next (.start System.initial_default) ?_
      (.attach {} 0 { pid := 7 } rfl (by decide) rfl)) ?_
      (.attach _ 1 { pid := 8 } rfl (by decide) rfl)) ?_
      (.dispatch _ {} ioctlTexts { te := .syscallStop } 0 (by decide))
    · trivial
    · trivial
    · exact ⟨rfl, nofun⟩
  exact (lines_kept_apart {} oneCall mode_default _ run).2.2.2 _ _
    (.dispatch _ {} ioctlTexts { te := .syscallStop } 1 (by decide)) ⟨rfl, nofun⟩ 0 inside
    (.inl (by decide))

/-- No leader is replaced. -/
def KeepsLeader (_ : System) : SystemEvent → Prop
  | .dispatch _ _ wd _ => wd.te ≠ .stopBeforeExecve
  | .attach _ | .startup _ _ _ | .other => True

/-- After the structure of a vcpu has been printed, its tcb is inside a line that
nobody owns. -/
theorem vcpu_line_unowned : ¬ ∀ (po : OutputOptions) (o : Options) (m : System),
    Mode po → po.onlyStats = false → Run System.Initial (SystemStep po o) KeepsLeader m →
    ∀ i, m.tracer.live i → (m.out.tcbs i).curcol ≠ 0 → m.out.printingTcp = some i := by
  intro stated
  have run : Run System.Initial (SystemStep {} oneCall) KeepsLeader
      (((System.attach {} {} 0 { pid := 7 }).dispatch {} oneCall {} ioctlTexts 0
        { te := .syscallStop }).dispatch {} oneCall {} vcpuTexts 0 { te := .syscallStop }) := by
    refine .next (.next (.next (.start System.initial_default) ?_
      (.attach {} 0 { pid := 7 } rfl (by decide) rfl)) ?_
      (.dispatch _ {} ioctlTexts { te := .syscallStop } 0 (by decide))) ?_
      (.dispatch _ {} vcpuTexts { te := .syscallStop } 0 (by decide))
    · trivial
    · exact nofun
    · exact nofun
  have unowned := stated {} oneCall _ mode_default rfl run 0 (by unfold Tracer.live; decide)
    (by decide)
  exact absurd unowned (by decide)

end Strace.Ownership
