import Strace.Output.Reprint
import Strace.Output.StatusFilter

/-! When the exit of a syscall is printed as a resumption. -/
namespace Strace.Resumption
open Output Runs
open Notices (Valid Steady)
open Staging (untracedExecve twoTcbs)
open Ownership (Mode closeStaged_complete openStaged_complete tprintsString_printing)

section
variable {po : OutputOptions} {o : Options} {a : Answers} {x : Texts} {s s₀ : Output}
  {i j line : Nat}
  {tracer : Tracer} {wd : WaitData}

/-! ## The tcb whose entry was printed -/

structure Beside (i line j : Nat) (s₀ s : Output) : Prop where
  watched : Watched i line s₀ s
  logged : Logged j s
  current : s.currentTcp = some j

section
variable (beside : Beside i line j s₀ s) (other : j ≠ i)

include beside

theorem Beside.printStopped (mode : Mode po) (t : Tcb) (sig : Nat) (text : String) :
    Beside i line j s₀ (s.printStopped po x t j sig text) :=
  ⟨beside.watched.printStopped mode beside.logged t sig text,
    beside.logged.speaks (printStopped_speaks po x s j t sig text),
    (printStopped_speaks po x s j t sig text).currentTcp beside.current⟩

include other

theorem Beside.restartCurrent (tracer : Tracer) :
    Watched i line s₀ (s.restartCurrent a x tracer j) :=
  beside.watched.restartCurrent other beside.logged beside.current tracer

theorem Beside.traceSyscall (mode : Mode po) {r : Stop} (set : (s.tcbs j).reprint = true →
      (r.tcb.insyscall = true ∧ r.tcb.filtered = false) ∧ po.onlyStats = false) :
    Beside i line j s₀ (s.traceSyscall po o a x r j) := by
  have watched := beside.watched.traceSyscall (o := o) (a := a) (x := x) other mode beside.logged r
  obtain ⟨v, speaks, -, same | ⟨failed, finished⟩⟩ :=
    traceSyscall_speaks mode r set
  · rw [same] at watched ⊢
    exact ⟨watched, beside.logged.speaks speaks, speaks.currentTcp beside.current⟩
  · rw [finished] at watched ⊢
    exact ⟨watched, (beside.logged.speaks speaks).finishCall failed,
      speaks.currentTcp beside.current⟩

theorem Beside.dispatchSyscallStop (mode : Mode po) (clean : Clean po tracer.live tracer.busy s) :
    Watched i line s₀ (s.dispatchSyscallStop po o a x tracer j) := by
  have traced : Beside i line j s₀ (s.traceSyscall po o a x (tracer.stopOf j 0) j) :=
    beside.traceSyscall other mode (clean.reprint j)
  unfold Output.dispatchSyscallStop
  dsimp only
  split
  · exact traced.watched
  · exact traced.restartCurrent other _

end

variable {op : RestartOp} {sig : Nat}

theorem detachOrRestart_busy {k : Nat} (attached : tracer.live j)
    (busy : (tracer.detachOrRestart o a wd j op sig).1.busy k) :
    tracer.busy k ∧ (k = j → tracer.detached o j = []) := by
  unfold Tracer.detachOrRestart at busy
  unfold Tracer.detached
  cases detach : o.detachOnExecve with
  | false =>
    rw [detach] at busy
    exact ⟨((Tracer.restartCurrent_shown op sig).busy k).mp busy, fun _ => rfl⟩
  | true =>
    rw [detach] at busy
    cases skip : (tracer.tcbtab j).skipDetachOnFirstExec with
    | true =>
      rw [skip] at busy
      have shown : tracer.Shown (tracer.setTcb j (tracer.tcbtab j).firstExecSkipped) :=
        Tracer.setTcb_shown ⟨rfl, rfl, rfl⟩
      exact ⟨(shown.busy k).mp (((Tracer.restartCurrent_shown op sig).busy k).mp busy),
        fun _ => rfl⟩
    | false =>
      rw [skip] at busy
      obtain ⟨busy, other⟩ := (Tracer.droptcb_busy attached k).mp busy
      exact ⟨busy, fun eq => absurd eq other⟩

theorem restartCurrent_silent {tracer' : Tracer}
    (goesOn : (tracer'.restartCurrent a wd i op sig).2 = true)
    (interrupted : tracer'.interrupted = tracer.interrupted)
    (delayed : (tracer'.tcbtab i).delayed = (tracer.tcbtab i).delayed) :
    s.restartCurrent a x tracer i = s := by
  unfold Tracer.restartCurrent at goesOn
  unfold Output.restartCurrent
  rw [interrupted, delayed] at goesOn
  split
  · rfl
  · next restarts =>
    obtain ⟨running, prompt⟩ := Bool.or_eq_false_iff.mp (Bool.eq_false_iff.mpr restarts)
    rw [running, prompt] at goesOn
    exact if_neg (by simpa using goesOn)

theorem detachOrRestart_silent (kept : tracer.detached o i = [])
    (goesOn : (tracer.detachOrRestart o a wd i op sig).2 = true) :
    s.detachOrRestart po o a x tracer i = s := by
  unfold Tracer.detached at kept
  unfold Tracer.detachOrRestart at goesOn
  unfold Output.detachOrRestart
  split at kept
  · cases kept
  · next restarts =>
    rw [if_neg restarts]
    cases detach : o.detachOnExecve with
    | false =>
      rw [detach] at goesOn
      exact restartCurrent_silent goesOn rfl rfl
    | true =>
      have skip : (tracer.tcbtab i).skipDetachOnFirstExec = true := by simpa [detach] using restarts
      rw [detach, skip] at goesOn
      refine restartCurrent_silent goesOn rfl ?_
      rw [Tracer.setTcb_tcbtab_self]
      rfl

theorem switched_unbusy {thread : Nat} (leader : tracer.live i)
    (found : tracer.execveThread o i = some thread) :
    ¬ ((tracer.switchTcbs i thread).detachOrRestart o a wd thread op sig).1.busy i := by
  intro still
  have attached := Tracer.execveThread_live found
  have different := Tracer.execveThread_ne found
  have live := Tracer.switchTcbs_live leader attached different
  have busy := (detachOrRestart_busy ((live thread).mpr ⟨attached, different⟩) still).1
  exact absurd rfl ((Tracer.switchTcbs_busy leader different i).mp busy).2

theorem Beside.dispatchExecve (beside : Beside i line j s₀ s) (other : j ≠ i) (mode : Mode po)
    (shown : po.onlyStats = false) (clean : Clean po tracer.live tracer.busy s)
    (attached : tracer.live j)
    (replaced : ∀ thread, tracer.execveThread o j = some thread → tracer.busy thread)
    (still : (tracer.dispatchExecve o a wd j).1.busy i)
    (goesOn : (tracer.dispatchExecve o a wd j).2 = true) :
    Watched i line s₀ (s.dispatchExecve po o a x tracer j) := by
  have succeeded : tracer.Shown (tracer.setTcb j (tracer.tcbtab j).execSucceeded) :=
    Tracer.setTcb_shown ⟨rfl, rfl, rfl⟩
  have thread := Tracer.execveThread_execSucceeded o tracer j
  unfold Output.dispatchExecve
  unfold Tracer.dispatchExecve at still goesOn
  dsimp only at still goesOn ⊢
  generalize eq : tracer.setTcb j (tracer.tcbtab j).execSucceeded = u
    at succeeded thread still goesOn
  have clean := clean.shown succeeded
  have leader := (succeeded.live j).mpr attached
  cases found : u.execveThread o j with
  | some k =>
    rw [found] at still goesOn
    dsimp only at still goesOn ⊢
    have attached := Tracer.execveThread_live found
    have different := Tracer.execveThread_ne found
    have live := Tracer.switchTcbs_live leader attached different
    by_cases own : k = i
    · subst own
      have switched :=
        beside.watched.maybeSwitchTcbs_self (k := j) (x := x) (clean.logged k attached)
        shown (u.tcbtab j).pid (u.tcbWaitTab (u.tcbtab j).waitDataIdx).msg
      have kept := (detachOrRestart_busy ((live k).mpr ⟨attached, different⟩) still).2 rfl
      rw [detachOrRestart_silent kept goesOn]
      exact switched.kept (.prints (.current _ _)) rfl rfl rfl
    · have switched := beside.watched.maybeSwitchTcbs (x := x) mode beside.logged
        (clean.logged k attached) different ⟨other, own⟩ (u.tcbtab j).pid
        (u.tcbWaitTab (u.tcbtab j).waitDataIdx).msg
      have inside := (succeeded.busy k).mpr (replaced k (thread.symm.trans found))
      have logged := (clean.maybeSwitchTcbs (x := x) mode leader attached different inside
        (u.tcbtab j).pid (u.tcbWaitTab (u.tcbtab j).waitDataIdx).msg).logged k ⟨attached, different⟩
      have current := Prints.current (s.maybeSwitchTcbs po x j k (u.tcbtab j).pid
        (u.tcbWaitTab (u.tcbtab j).waitDataIdx).msg) (some k)
      exact Watched.detachOrRestart (switched.kept (.prints current) rfl rfl rfl) own mode
        (logged.prints current) rfl _
  | none =>
    dsimp only
    split
    · have recovering : u.Shown (u.setTcb j ((u.tcbtab j).setRecovering true)) :=
        Tracer.setTcb_shown ⟨rfl, rfl, rfl⟩
      have traced : Beside i line j s₀ (s.traceSyscall po o a x
          ((u.setTcb j ((u.tcbtab j).setRecovering true)).stopOf j 0) j) :=
        beside.traceSyscall other mode ((clean.shown recovering).reprint j)
      split
      · exact traced.watched
      · exact traced.watched.detachOrRestart other mode traced.logged traced.current _
    · exact beside.watched.detachOrRestart other mode beside.logged beside.current _

theorem Beside.dispatchOther (beside : Beside i line j s₀ s) (other : j ≠ i) (mode : Mode po)
    (shown : po.onlyStats = false) (clean : Clean po tracer.live tracer.busy s)
    (attached : tracer.live j) (replaced : wd.te = .stopBeforeExecve →
      ∀ thread, tracer.execveThread o j = some thread → tracer.busy thread)
    (still : (tracer.dispatchCurrent o a wd j).1.busy i)
    (goesOn : (tracer.dispatchCurrent o a wd j).2 = true) :
    Watched i line s₀ (s.dispatchCurrent po o a x tracer wd j) := by
  have watched := beside.watched
  unfold Output.dispatchCurrent
  unfold Tracer.dispatchCurrent at still goesOn
  cases te : wd.te
  case brk | next => exact watched
  case restart => exact beside.restartCurrent other tracer
  case syscallStop => exact beside.dispatchSyscallStop other mode clean
  case signalDeliveryStop | groupStop =>
    exact (beside.printStopped mode _ _ _).restartCurrent other tracer
  case signalled =>
    exact (watched.printSignalled mode beside.logged _).droptcb other mode
      (beside.logged.speaks (printSignalled_speaks po x s j _))
  case exited =>
    exact (watched.printExited mode beside.logged _).droptcb other mode
      (beside.logged.speaks (printExited_speaks po x s j _))
  case stopBeforeExecve =>
    rw [te] at still goesOn
    exact beside.dispatchExecve other mode shown clean attached (replaced te) still goesOn
  case stopBeforeExit =>
    have exits : Beside i line j s₀ (s.printEventExit po x (tracer.tcbtab j) j) :=
      ⟨watched.printEventExit other mode beside.logged _,
        beside.logged.speaks (printEventExit_speaks mode _),
        (printEventExit_speaks mode _).currentTcp beside.current⟩
    exact exits.restartCurrent other tracer
  case seccomp =>
    dsimp only
    split
    · exact beside.restartCurrent other tracer
    · exact beside.dispatchSyscallStop other mode clean

theorem Watched.dispatchOwn (watched : Watched i line s₀ s) (mode : Mode po)
    (clean : Clean po tracer.live tracer.busy s) (attached : tracer.live i)
    (inside : tracer.busy i) (ends : ¬ Tracer.IsSyscallStop o tracer wd i)
    (exits : wd.te ≠ .stopBeforeExit)
    (still : (tracer.dispatchCurrent o a wd i).1.busy i)
    (goesOn : (tracer.dispatchCurrent o a wd i).2 = true) :
    Watched i line s₀ (s.dispatchCurrent po o a x tracer wd i) := by
  have logged := clean.logged i attached
  unfold Output.dispatchCurrent
  unfold Tracer.dispatchCurrent at still goesOn
  cases te : wd.te <;> rw [te] at still goesOn <;> dsimp only at still goesOn ⊢
  case brk | next => exact watched
  case restart =>
    rw [restartCurrent_silent goesOn rfl rfl]
    exact watched
  case syscallStop => exact absurd (.inl te) ends
  case signalDeliveryStop =>
    rw [restartCurrent_silent goesOn rfl rfl]
    exact watched.printStopped mode logged _ _ _
  case groupStop =>
    have silent (u : Output) : u.restartCurrent a x tracer i = u := by
      split at goesOn <;> exact restartCurrent_silent goesOn rfl rfl
    rw [silent]
    exact watched.printStopped mode logged _ _ _
  case signalled | exited => exact absurd rfl ((Tracer.droptcb_busy attached i).mp still).2
  case stopBeforeExit => exact absurd te exits
  case stopBeforeExecve =>
    have succeeded : tracer.Shown (tracer.setTcb i (tracer.tcbtab i).execSucceeded) :=
      Tracer.setTcb_shown ⟨rfl, rfl, rfl⟩
    unfold Output.dispatchExecve
    unfold Tracer.dispatchExecve at still goesOn
    dsimp only at still goesOn ⊢
    generalize eq : tracer.setTcb i (tracer.tcbtab i).execSucceeded = u at succeeded still goesOn
    have leader := (succeeded.live i).mpr attached
    cases found : u.execveThread o i with
    | some k =>
      -- the tcb would be dropped
      rw [found] at still
      exact absurd still (switched_unbusy leader found)
    | none =>
      have insyscall := ((succeeded.busy i).mpr inside).1
      have exiting : ¬ (u.tcbtab i).entering = true := by simp [Tcb.entering, insyscall]
      rw [found] at still goesOn
      rw [if_neg exiting] at still goesOn ⊢
      rw [detachOrRestart_silent ((detachOrRestart_busy leader still).2 rfl) goesOn]
      exact watched
  case seccomp =>
    split at goesOn
    · next filter =>
      have silent : s.restartCurrent a x tracer i = s := by
        refine restartCurrent_silent goesOn rfl ?_
        rw [Tracer.setTcb_tcbtab_self]
        rfl
      rw [filter, silent]
      exact watched
    · next filter =>
      split at goesOn
      · next order =>
        rw [order, Bool.or_true, restartCurrent_silent goesOn rfl rfl]
        exact watched
      · next order =>
        exact absurd (.inr ⟨te, by simpa using filter, by simpa using order⟩) ends

/-! ## The entry of a syscall -/

structure Opened (i : Nat) (s : Output) : Prop where
  apart : Apart i (s.tcbs i).line s
  current : s.currentTcp = some i
  printing : s.printingTcp = some i
  unset : (s.tcbs i).reprint = false

theorem Opened.tprintsString (opened : Opened i s) (text : String) :
    Opened i (s.tprintsString text) := by
  have speaks := tprintsString_speaks s i text
  have tcb := say_tcbs_self s i text
  rw [← tprintsString_current opened.current] at tcb
  refine ⟨?_, (tprintsString_currentTcp ..).trans opened.current,
    (tprintsString_printing ..).trans opened.printing, ?_⟩
  · rw [tcb]
    exact opened.apart.emits speaks.emits
  · rw [tcb]
    exact opened.unset

structure Entered (i : Nat) (s : Output) : Prop extends Opened i s where
  moved : (s.tcbs i).curcol ≠ 0

theorem Entered.watched (entered : Entered i s) : Watched i (s.tcbs i).line s s := by
  refine ⟨entered.apart, List.prefix_refl _, ?_, fun _ => ⟨entered.moved, rfl⟩⟩
  refine iff_of_false (not_cutOff rfl) ?_
  rintro (other | set)
  · exact other entered.printing
  · rw [entered.unset] at set
    cases set

section
variable (mode : Mode po) (valid : Valid s) (unset : (s.tcbs i).reprint = false)

include mode valid unset

theorem opened_printleader : Opened i (s.printleader po x i) := by
  have writes := interruptPrinting_writes po s i
  unfold Output.printleader
  rw [mode.together, if_neg Bool.false_ne_true]
  have valid := valid.prints writes.prints
  have unset := (writes.same.1 i).trans unset
  generalize s.interruptPrinting po i = u at valid unset ⊢
  have self : ((u.startLine i).tcbs i) = { u.tcbs i with curcol := 0, line := u.nextLine } :=
    setTcb_tcbs_self ..
  refine Opened.tprintsString ⟨⟨?_, ?_, fun j other => ?_⟩, rfl, rfl, ?_⟩ _
  · rw [self]
    exact Nat.ne_of_gt (Nat.lt_of_le_of_lt (Nat.zero_le _) (valid.line i))
  · rw [self]
    exact Nat.lt_succ_self _
  · rw [self, show (u.startLine i).tcbs j = u.tcbs j from setTcb_tcbs_other _ _ other]
    exact Nat.ne_of_lt (valid.line j)
  · rw [self]
    exact unset

theorem syscallEnteringFailed_entered : Entered i (s.syscallEnteringFailed po x i) := by
  have opened := (opened_printleader (x := x) mode valid unset).tprintsString x.sysName
  refine ⟨opened.tprintsString "(", ?_⟩
  unfold Output.syscallEnteringFailed
  rw [tprintsString_current opened.current, say_tcbs_self]
  exact Nat.succ_ne_zero _

variable (shown : po.onlyStats = false)
include shown

theorem traceSyscall_entered {r : Stop} (outside : r.tcb.insyscall = false)
    (inside : (Strace.traceSyscall o a r).1.tcb.insyscall = true)
    (unfiltered : (Strace.traceSyscall o a r).1.tcb.filtered = false) :
    Entered i (s.traceSyscall po o a x r i) := by
  have entering : r.tcb.entering = true := by simp [Tcb.entering, outside]
  have noted := notePersonality_speaks po a x s i r.tcb
  have valid := valid.emits noted.emits
  have entered := syscallEnteringFailed_entered (x := x) mode valid (noted.unset unset)
  unfold Output.traceSyscall
  unfold Strace.traceSyscall at inside unfiltered
  rw [if_pos entering] at inside unfiltered ⊢
  dsimp only at inside unfiltered ⊢
  split
  · next ignored =>
    rw [if_pos ignored] at inside
    have decoded := (syscallEnteringDecode_decoded (o := o) (a := a) r).1.shown.insyscall
    rw [decoded, outside] at inside
    cases inside
  · next read =>
    rw [if_neg read] at unfiltered
    split
    · next one =>
      rw [if_pos one] at unfiltered
      have filtered :
        (Strace.syscallEnteringTrace o a (syscallEnteringDecode o a r).1).1.tcb.filtered =
          false := unfiltered
      unfold Output.syscallEnteringTrace
      rw [filtered, shown, openStaged_complete mode]
      refine ⟨entered.tprintsString x.args, ?_⟩
      have args :=
        say_tcbs_self (((s.notePersonality po a x r.tcb i).syscallEnteringFailed po x i)) i
        x.args
      have moved := entered.moved
      intro ended
      have zero := (congrArg TcbOut.curcol args).symm.trans ended
      dsimp only at zero
      omega
    · exact entered

theorem traced_entered (outside : (tracer.tcbtab i).insyscall = false)
    (busy : (tracer.traceSyscallOf o a i 0).1.busy i) :
    Entered i (s.traceSyscall po o a x (tracer.stopOf i 0) i) := by
  unfold Tracer.busy at busy
  rw [Tracer.traceSyscallOf_self] at busy
  exact traceSyscall_entered mode valid unset shown outside busy.1 busy.2

variable (outside : (tracer.tcbtab i).insyscall = false)
include outside

theorem dispatchSyscallStop_entered (inside : (tracer.dispatchSyscallStop o a wd i).1.busy i)
    (goesOn : (tracer.dispatchSyscallStop o a wd i).2 = true) :
    Entered i (s.dispatchSyscallStop po o a x tracer i) := by
  unfold Tracer.dispatchSyscallStop at inside goesOn
  dsimp only at inside goesOn
  have busy : (tracer.traceSyscallOf o a i 0).1.busy i := by
    split at inside
    · exact inside
    · exact ((Tracer.restartCurrent_shown _ _).busy i).mp inside
  have entered := traced_entered (x := x) mode valid unset shown outside busy
  unfold Output.dispatchSyscallStop
  dsimp only
  split
  · exact entered
  · next res =>
    rw [if_neg res] at goesOn
    rw [restartCurrent_silent goesOn rfl rfl]
    exact entered

theorem dispatchExecve_entered (live : tracer.live i)
    (inside : (tracer.dispatchExecve o a wd i).1.busy i)
    (goesOn : (tracer.dispatchExecve o a wd i).2 = true) :
    Entered i (s.dispatchExecve po o a x tracer i) := by
  have succeeded : tracer.Shown (tracer.setTcb i (tracer.tcbtab i).execSucceeded) :=
    Tracer.setTcb_shown ⟨rfl, rfl, rfl⟩
  unfold Output.dispatchExecve
  unfold Tracer.dispatchExecve at inside goesOn
  dsimp only at inside goesOn ⊢
  generalize eq : tracer.setTcb i (tracer.tcbtab i).execSucceeded = u at succeeded inside goesOn
  have leader := (succeeded.live i).mpr live
  have outside := (succeeded i).insyscall.trans outside
  cases found : u.execveThread o i with
  | some k =>
    -- the tcb would be dropped
    rw [found] at inside
    exact absurd inside (switched_unbusy leader found)
  | none =>
    have entering : (u.tcbtab i).entering = true := by simp [Tcb.entering, outside]
    rw [found] at inside goesOn
    dsimp only at inside goesOn ⊢
    rw [if_pos entering] at inside goesOn ⊢
    have recovered (v : Tracer) : v.Shown (v.setTcb i ((v.tcbtab i).setRecovering false)) :=
      Tracer.setTcb_shown ⟨rfl, rfl, rfl⟩
    have self : ((u.setTcb i ((u.tcbtab i).setRecovering true)).tcbtab i) =
        (u.tcbtab i).setRecovering true := Tracer.setTcb_tcbtab_self ..
    have busy : (u.recoverExecve o a i).1.busy i ∧
        ((u.recoverExecve o a i).2.2 < 0 ∨ (u.recoverExecve o a i).1.detached o i = []) := by
      split at inside
      · next failed => exact ⟨inside, .inl failed⟩
      · obtain ⟨busy, kept⟩ :=
          detachOrRestart_busy ((Tracer.recoverExecve_live i).mpr leader) inside
        exact ⟨busy, .inr (kept rfl)⟩
    have entered := traced_entered (x := x) mode valid unset shown
      (by rw [self]; exact outside) (((recovered _).busy i).mp busy.1)
    split
    · exact entered
    · next res =>
      rw [if_neg res] at goesOn
      rw [detachOrRestart_silent (busy.2.resolve_left res) goesOn]
      exact entered

theorem dispatchCurrent_entered (live : tracer.live i)
    (inside : (tracer.dispatchCurrent o a wd i).1.busy i)
    (goesOn : (tracer.dispatchCurrent o a wd i).2 = true) :
    Entered i (s.dispatchCurrent po o a x tracer wd i) := by
  have unbusy : ¬ tracer.busy i := fun busy => absurd busy.1 (by simp [outside])
  have restarted {tracer' : Tracer} {op : RestartOp} {sig : Nat} (same : tracer.Shown tracer') :
      ¬ (tracer'.restartCurrent a wd i op sig).1.busy i := fun busy =>
    unbusy ((same.busy i).mp (((Tracer.restartCurrent_shown op sig).busy i).mp busy))
  have same : tracer.Shown tracer := fun _ => .refl _
  unfold Output.dispatchCurrent
  unfold Tracer.dispatchCurrent at inside goesOn
  cases te : wd.te <;> rw [te] at inside goesOn <;> dsimp only at inside goesOn ⊢
  case brk | next => exact absurd inside unbusy
  case restart | stopBeforeExit | signalDeliveryStop => exact absurd inside (restarted same)
  case groupStop =>
    split at inside <;> exact absurd inside (restarted same)
  case signalled | exited => exact absurd ((Tracer.droptcb_busy live i).mp inside).1 unbusy
  case syscallStop => exact dispatchSyscallStop_entered mode valid unset shown outside inside goesOn
  case stopBeforeExecve =>
    exact dispatchExecve_entered mode valid unset shown outside live inside goesOn
  case seccomp =>
    split at inside
    · exact absurd inside (restarted (Tracer.setTcb_shown ⟨rfl, rfl, rfl⟩))
    · next filter =>
      split at inside
      · exact absurd inside (restarted same)
      · next order =>
        rw [if_neg filter, if_neg order] at goesOn
        have stops : ¬ (!(tracer.tcbtab i).seccompFilter || o.seccompBeforeSysentry) = true := by
          simp [filter, order]
        rw [if_neg stops]
        exact dispatchSyscallStop_entered mode valid unset shown outside inside goesOn

end

/-! ## What is printed for a resumption -/

theorem tprintsString_logs (current : s.currentTcp = some i)
    (outf : (s.tcbs i).outf = some (.log 0)) (text : String) :
    (s.tprintsString text).logs 0 = s.logs 0 ++ [s.piece i text] ∧
      ((s.tprintsString text).tcbs i).outf = some (.log 0) ∧
      ∀ text', (s.tprintsString text).piece i text' = s.piece i text' := by
  rw [tprintsString_current current, say_logs, if_pos outf, say_tcbs_self]
  exact ⟨rfl, outf, say_piece s i text⟩

end

def PrintsResumed (x : Texts) (i : Nat) (s u : Output) : Prop :=
  ∃ before, u.logs 0 = s.logs 0 ++ before ++
    [u.piece i "<... ", u.piece i x.sysName, u.piece i " resumed>"]

section
variable {po : OutputOptions} {x : Texts} {s s₀ : Output} {i line : Nat}

theorem printsResumed_iff (mode : Mode po) (logged : Logged i s) :
    PrintsResumed x i s (s.printSyscallResume po x i) ↔
      s.printingTcp ≠ some i ∨ (s.tcbs i).reprint = true := by
  unfold Output.printSyscallResume
  split
  · next cond =>
    refine iff_of_true ?_ ?_
    · have leads := printleader_speaks po x (s.setReprint i false) i
      obtain ⟨before, log⟩ := leads.emits.grows 0
      have outf : ((s.setReprint i false).tcbs i).outf = some (.log 0) := by
        simpa [setReprint] using logged.outf
      have outf := (Steady.of_prints leads.prints i).outf.trans outf
      have current : ((s.setReprint i false).printleader po x i).currentTcp = some i :=
        tprintsString_currentTcp ..
      generalize (s.setReprint i false).printleader po x i = u at log outf current ⊢
      obtain ⟨log₁, outf₁, piece₁⟩ := tprintsString_logs current outf "<... "
      have current₁ := (tprintsString_currentTcp u "<... ").trans current
      obtain ⟨log₂, outf₂, piece₂⟩ := tprintsString_logs current₁ outf₁ x.sysName
      have current₂ := (tprintsString_currentTcp _ x.sysName).trans current₁
      obtain ⟨log₃, -, piece₃⟩ := tprintsString_logs current₂ outf₂ " resumed>"
      refine ⟨before, ?_⟩
      change Output.logs (Output.tprintsString _ _) 0 = s.logs 0 ++ before ++
        [Output.piece (Output.tprintsString _ _) i _, Output.piece (Output.tprintsString _ _) i _,
          Output.piece (Output.tprintsString _ _) i _]
      rw [log₃, log₂, log₁, piece₃, piece₃, piece₃, piece₂, piece₂, piece₂, piece₁, piece₁, piece₁,
        ← log]
      simp [setReprint, setTcb]
    · rcases cond with ⟨-, away, -⟩ | set
      · exact .inl away
      · exact .inr set
  · next cond =>
    refine iff_of_false ?_ fun either => cond ?_
    · rintro ⟨before, log⟩
      have length := congrArg List.length log
      simp [setPrintingTcp] at length
    · rcases either with away | set
      · exact .inl ⟨mode.together, away, logged.unstaged⟩
      · exact .inr set

theorem Watched.interruptOther (watched : Watched i line s₀ s) :
    Watched i line s₀ (s.interruptOther po i) := by
  have speaks := interruptOther_speaks po s i
  obtain ⟨printing, -⟩ := interruptOther_same po s i
  by_cases last : s.printingTcp = some i
  · simpa [last, Output.interruptOther] using watched
  · have cut := (watched.cut.mpr (.inl last)).grows (speaks.emits.grows 0)
    exact watched.cutOff speaks.emits cut (.inl (printing ▸ last))

end

/-! ## Runs -/

def TracesExecve (o : Options) (m : System) : SystemEvent → Prop
  | .dispatch _ _ wd i => wd.te = .stopBeforeExecve →
      ∀ thread, m.tracer.execveThread o i = some thread → m.tracer.busy thread
  | .attach _ | .startup _ _ _ | .other => True

/-- The event loop goes on after the event. -/
def GoesOn (o : Options) (m : System) : SystemEvent → Prop
  | .dispatch a _ wd i => ((m.tracer.setCurrentTcp (some i)).dispatchCurrent o a wd i).2 = true
  | .attach _ | .startup _ _ _ | .other => True

def Ends (o : Options) (i : Nat) (m : System) : SystemEvent → Prop
  | .dispatch _ _ wd j => j = i ∧ (Tracer.IsSyscallStop o m.tracer wd i ∨ wd.te = .stopBeforeExit)
  | .attach _ | .startup _ _ _ | .other => False

structure Enters (po : OutputOptions) (o : Options) (i : Nat) (m : System) (event : SystemEvent)
    (m' : System) : Prop where
  step : SystemStep po o m event m'
  own : ∃ a x wd, event = .dispatch a x wd i
  goesOn : GoesOn o m event
  outside : (m.tracer.tcbtab i).insyscall = false
  inside : m'.tracer.busy i

structure Inside (po : OutputOptions) (o : Options) (i : Nat) (m : System) (event : SystemEvent)
    (m' : System) : Prop where
  step : SystemStep po o m event m'
  goesOn : GoesOn o m event
  unended : ¬ Ends o i m event
  inside : m'.tracer.busy i

inductive Resuming (po : OutputOptions) (m : System) (i : Nat) (x : Texts) : Output → Prop
  | exiting (a : Answers) (live : m.tracer.live i) (shown : po.onlyStats = false) :
      Resuming po m i x
        ((m.out.setCurrentTcp (some i)).notePersonality po a x (m.tracer.tcbtab i) i)
  | eventExit (live : m.tracer.live i) (shown : po.onlyStats = false)
      (visible : (m.tracer.tcbtab i).hideLog = false) :
      Resuming po m i x ((m.out.setCurrentTcp (some i)).interruptOther po i)

section
variable {po : OutputOptions} {o : Options} {s s₀ : Output} {i line : Nat} {m m' : System}
  {event : SystemEvent}

theorem clean_initial (initial : m.Initial) : Clean po m.tracer.live m.tracer.busy m.out := by
  rw [initial.out]
  exact ⟨fun i live => absurd (initial.free i) live, nofun⟩

theorem step_clean (mode : Mode po) (clean : Clean po m.tracer.live m.tracer.busy m.out)
    (traces : TracesExecve o m event) (moved : SystemStep po o m event m') :
    Clean po m'.tracer.live m'.tracer.busy m'.out := by
  cases moved with
  | dispatch a x wd i live =>
    have current : Clean po (m.tracer.setCurrentTcp (some i)).live
        (m.tracer.setCurrentTcp (some i)).busy (m.out.setCurrentTcp (some i)) :=
      clean.speaks (Speaks.aside (i := i) (.refl _))
    exact current.dispatchCurrent mode live traces
  | attach i t free pid outside =>
    have own : (m.out.attach i po.outputSeparately).tcbs i = _ := setTcb_tcbs_self ..
    have others (k : Nat) (other : k ≠ i) :
        (m.out.attach i po.outputSeparately).tcbs k = m.out.tcbs k := setTcb_tcbs_other _ _ other
    refine ⟨fun k live => ?_, fun k set => ?_⟩
    · by_cases eq : k = i
      · rw [eq]
        unfold System.attach
        constructor <;> rw [own]
        rw [mode.together]
        rfl
      · have logged := clean.logged k (((Tracer.setTcb_live pid k).mp live).resolve_right eq)
        unfold System.attach
        constructor <;> rw [others k eq]
        · exact logged.outf
        · exact logged.unstaged
    · unfold System.attach at set
      by_cases eq : k = i
      · rw [eq, own] at set
        cases set
      · rw [others k eq] at set
        unfold Tracer.busy System.attach
        rw [Tracer.setTcb_tcbtab_other _ _ eq]
        exact clean.reprint k set
  | startup a x i live =>
    refine Clean.shown ?_ Tracer.startupTcb_shown
    unfold System.startup
    split
    · exact clean.speaks (notePersonality_speaks po a x _ i _)
    · exact clean
  | other tracer shown => exact clean.shown shown

theorem run_clean (mode : Mode po)
    (run : Run System.Initial (SystemStep po o) (TracesExecve o) m) :
    Clean po m.tracer.live m.tracer.busy m.out :=
  run.invariant (P := fun m => Clean po m.tracer.live m.tracer.busy m.out)
    (fun _ initial => clean_initial initial)
    fun _ _ _ clean traces moved => step_clean mode clean traces moved

theorem Inside.watched (mode : Mode po) (shown : po.onlyStats = false)
    (clean : Clean po m.tracer.live m.tracer.busy m.out) (busy : m.tracer.busy i)
    (watched : Watched i line s₀ m.out) (traces : TracesExecve o m event)
    (moved : Inside po o i m event m') : Watched i line s₀ m'.out := by
  obtain ⟨step, goesOn, unended, still⟩ := moved
  cases step with
  | dispatch a x wd j attached =>
    have current : Clean po (m.tracer.setCurrentTcp (some j)).live
        (m.tracer.setCurrentTcp (some j)).busy (m.out.setCurrentTcp (some j)) :=
      clean.speaks (Speaks.aside (i := j) (.refl _))
    have watched : Watched i line s₀ (m.out.setCurrentTcp (some j)) :=
      watched.kept (.prints (.current _ _)) rfl rfl rfl
    by_cases own : j = i
    · subst own
      refine watched.dispatchOwn mode current attached busy ?_ ?_ still goesOn
      · exact fun stop => unended ⟨rfl, .inl stop⟩
      · exact fun exits => unended ⟨rfl, .inr exits⟩
    · have beside : Beside i line j s₀ (m.out.setCurrentTcp (some j)) :=
        ⟨watched, current.logged j attached, rfl⟩
      exact beside.dispatchOther own mode shown current attached traces still goesOn
  | attach j t free pid outside =>
    have other : i ≠ j := by
      rintro rfl
      have insyscall : ((m.tracer.setTcb i t).tcbtab i).insyscall = true := still.1
      rw [Tracer.setTcb_tcbtab_self, outside] at insyscall
      cases insyscall
    refine watched.same ?_ watched.grows .rfl .rfl (setTcb_tcbs_other _ _ other)
    refine Apart.setTcb ?_ fun _ => ?_
    · exact watched.apart.grow rfl (Nat.le_succ _)
    · exact (Nat.ne_of_lt watched.apart.begun).symm
  | startup a x j attached =>
    unfold System.startup
    split
    · exact watched.notePersonality mode (clean.logged j attached) _
    · exact watched
  | other => exact watched

theorem Enters.watched (mode : Mode po) (shown : po.onlyStats = false)
    (clean : Clean po m.tracer.live m.tracer.busy m.out) (valid : Valid m.out)
    (entered : Enters po o i m event m') : Watched i (m'.out.tcbs i).line m'.out m'.out := by
  obtain ⟨step, ⟨a, x, wd, own⟩, goesOn, outside, inside⟩ := entered
  subst own
  have unset : (m.out.tcbs i).reprint = false := by
    by_contra set
    exact absurd (clean.reprint i (by simpa using set)).1.1 (by simp [outside])
  cases step with
  | dispatch a x wd i live =>
    have outside : ((m.tracer.setCurrentTcp (some i)).tcbtab i).insyscall = false := outside
    exact (dispatchCurrent_entered (s := m.out.setCurrentTcp (some i)) mode
      (valid.prints (.current _ _)) unset shown outside live inside goesOn).watched

end

/-- In every run in which a thread takes the place of its leader only while its execve is
traced: the exit of a syscall is printed as a resumption exactly if, since the text of its
entry was printed, another line has been written to the log or the line of the entry has
been closed by a note of a changed pid. -/
theorem resumed_iff_cut_off (po : OutputOptions) (o : Options) (mode : Mode po) (i : Nat)
    (m₀ m₁ m₂ : System) (event : SystemEvent)
    (run : Run System.Initial (SystemStep po o) (TracesExecve o) m₀)
    (traces : TracesExecve o m₀ event) (entered : Enters po o i m₀ event m₁)
    (inside : Run (· = m₁) (Inside po o i) (TracesExecve o) m₂) (x : Texts) (s : Output)
    (resuming : Resuming po m₂ i x s) :
    PrintsResumed x i s (s.printSyscallResume po x i) ↔ CutOff (m₁.out.tcbs i).line m₁.out s := by
  have shown : po.onlyStats = false := by cases resuming <;> assumption
  have clean := run_clean mode run
  have kept : Clean po m₂.tracer.live m₂.tracer.busy m₂.out ∧ m₂.tracer.busy i ∧
      Watched i (m₁.out.tcbs i).line m₁.out m₂.out := by
    refine inside.invariant (P := fun m => Clean po m.tracer.live m.tracer.busy m.out ∧
      m.tracer.busy i ∧ Watched i (m₁.out.tcbs i).line m₁.out m.out) ?_ ?_
    · rintro m rfl
      exact ⟨step_clean mode clean traces entered.step, entered.inside,
        entered.watched mode shown clean (Notices.run_valid run)⟩
    · rintro m event m' ⟨clean, busy, watched⟩ traces moved
      exact ⟨step_clean mode clean traces moved.step, moved.inside,
        moved.watched mode shown clean busy watched traces⟩
  obtain ⟨clean, -, watched⟩ := kept
  have current : Watched i (m₁.out.tcbs i).line m₁.out (m₂.out.setCurrentTcp (some i)) :=
    watched.kept (.prints (.current _ _)) rfl rfl rfl
  cases resuming with
  | exiting a live =>
    have logged := (clean.logged i live).prints (.current _ (some i))
    rw [printsResumed_iff mode (logged.speaks (notePersonality_speaks po a x _ i _))]
    exact (current.notePersonality mode logged _).cut.symm
  | eventExit live =>
    have logged := (clean.logged i live).prints (.current _ (some i))
    rw [printsResumed_iff mode (logged.speaks (interruptOther_speaks po _ i))]
    exact current.interruptOther.cut.symm

/-! ## A line that is interrupted, and an execve that is not traced -/

theorem mode_plain : Mode {} := ⟨rfl, by decide⟩

def twoTracees : System := (System.attach {} {} 0 { pid := 7 }).attach {} 1 { pid := 8 }

/-- A tracee enters a syscall. -/
def entersCall (i : Nat) (m : System) : System :=
  m.dispatch {} oneCall {} {} i { te := .syscallStop }

/-- The line of the first tracee is cut off by the second, so that its exit is printed as
a resumption. -/
theorem resumed_iff_cut_off_interrupted :
    PrintsResumed {} 0 ((entersCall 1 (entersCall 0 twoTracees)).out.setCurrentTcp (some 0))
      (((entersCall 1 (entersCall 0 twoTracees)).out.setCurrentTcp (some 0)).printSyscallResume {}
        {}
        0) := by
  have run : Run System.Initial (SystemStep {} oneCall) (TracesExecve oneCall) twoTracees := by
    refine .next (.next (.start System.initial_default) ?_ (.attach _ 0 _ rfl (by decide) rfl)) ?_
      (.attach _ 1 _ rfl (by decide) rfl)
    · trivial
    · trivial
  have stop (m : System) (i : Nat) :
      TracesExecve oneCall m (.dispatch {} {} { te := .syscallStop } i) := fun te => nomatch te
  have first : Enters {} oneCall 0 twoTracees (.dispatch {} {} { te := .syscallStop } 0)
      (entersCall 0 twoTracees) :=
    ⟨.dispatch _ {} {} _ 0 (by decide), ⟨_, _, _, rfl⟩, by unfold GoesOn; decide, by decide,
      by unfold Tracer.busy; decide⟩
  have second : Inside {} oneCall 0 (entersCall 0 twoTracees)
      (.dispatch {} {} { te := .syscallStop } 1) (entersCall 1 (entersCall 0 twoTracees)) :=
    ⟨.dispatch _ {} {} _ 1 (by decide), by unfold GoesOn; decide, fun ends =>
      absurd ends.1 (by decide), by unfold Tracer.busy; decide⟩
  refine (resumed_iff_cut_off {} oneCall mode_plain 0 _ _ _ _ run (stop _ _) first
    (.next (.start rfl) (stop _ _) second) {} _
    (.exiting {} (by unfold Tracer.live; decide) rfl)).mpr ?_
  refine ⟨[⟨0, 3, 1, " "⟩, ⟨0, 3, 1, "<unfinished ...>"⟩, ⟨0, 3, 1, "\n"⟩, ⟨1, 4, 2, ""⟩,
    ⟨1, 4, 2, "????"⟩, ⟨1, 4, 2, "("⟩, ⟨1, 4, 2, ""⟩], by decide, ⟨1, 4, 2, "("⟩, by decide, ?_⟩
  exact .inl ⟨by decide, not_pidNote (by decide)⟩

def handled (scno : Nat) (te : TraceEvent) (i : Nat) (m : System) : System :=
  m.dispatch {} untracedExecve { scno := .number scno } {} i { te }

def execveReturned : System :=
  handled 1 .syscallStop 1 <| handled 1 .stopBeforeExecve 0 <| handled 1 .syscallStop 1 <|
    ((System.mk twoTcbs {}).attach {} 0 { pid := 7 }).attach {} 1 { pid := 8 }

/-- After an execve of a thread that is not traced, the exit of the next syscall is printed
as a resumption, although the log ends with the text of its entry. -/
theorem untraced_execve_resumes : ¬ ∀ (po : OutputOptions) (o : Options) (_ : Mode po) (i : Nat)
    (m₀ m₁ m₂ : System) (event : SystemEvent)
    (_ : Run System.Initial (SystemStep po o) (fun _ _ => True) m₀)
    (_ : Enters po o i m₀ event m₁) (_ : Run (· = m₁) (Inside po o i) (fun _ _ => True) m₂)
    (x : Texts) (s : Output) (_ : Resuming po m₂ i x s),
    PrintsResumed x i s (s.printSyscallResume po x i) ↔ CutOff (m₁.out.tcbs i).line m₁.out s := by
  intro stated
  have run :
      Run System.Initial (SystemStep {} untracedExecve) (fun _ _ => True) execveReturned := by
    refine .next (.next (.next (.next (.next (.start ⟨fun _ => rfl, rfl⟩) trivial
      (.attach _ 0 _ rfl (by decide) rfl)) trivial (.attach _ 1 _ rfl (by decide) rfl)) trivial
      (.dispatch _ _ {} { te := .syscallStop } 1 (by decide))) trivial
      (.dispatch _ _ {} { te := .stopBeforeExecve } 0 (by decide))) trivial
      (.dispatch _ _ {} { te := .syscallStop } 1 (by decide))
  have entered : Enters {} untracedExecve 1 execveReturned
      (.dispatch { scno := .number 0 } {} { te := .syscallStop } 1)
        (handled 0 .syscallStop 1 execveReturned) :=
    ⟨.dispatch _ _ {} _ 1 (by decide), ⟨_, _, _, rfl⟩, by unfold GoesOn; decide, by decide,
      by unfold Tracer.busy; decide⟩
  have resumed := stated {} untracedExecve mode_plain 1 _ _ _ _ run entered (.start rfl) {} _
    (.exiting {} (by unfold Tracer.live; decide) rfl)
  have log (s : Output) : (s.setCurrentTcp (some 1)).logs 0 = s.logs 0 := rfl
  refine absurd (resumed.mp ?_) (not_cutOff (log _))
  exact (printsResumed_iff mode_plain ⟨by decide, by decide⟩).mpr (.inr (by decide))

end Strace.Resumption
