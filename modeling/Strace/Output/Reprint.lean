import Strace.Output.CutOff
import Strace.Output.Dispatched

/-! A tcb that is to print the name of its syscall again is inside a syscall. -/
namespace Strace.Resumption
open Output Runs
open Notices (Valid Steady)
open Ownership (Mode closeStaged_complete openStaged_complete tprintsString_printing)

structure Clean (po : OutputOptions) (live busy : Nat → Prop) (s : Output) : Prop where
  logged : ∀ i, live i → Logged i s
  reprint : ∀ i, (s.tcbs i).reprint = true → busy i ∧ po.onlyStats = false

section
variable {po : OutputOptions} {o : Options} {a : Answers} {x : Texts} {s u : Output} {i j : Nat}
  {live busy live' busy' : Nat → Prop} {tracer : Tracer} {wd : WaitData}

theorem Clean.congr (clean : Clean po live busy s) (same : ∀ k, live' k ↔ live k)
    (more : ∀ k, busy k → busy' k) : Clean po live' busy' s :=
  ⟨fun k attached => clean.logged k ((same k).mp attached),
    fun k set => ⟨more k (clean.reprint k set).1, (clean.reprint k set).2⟩⟩

theorem Clean.shown {tracer' : Tracer} (clean : Clean po tracer.live tracer.busy s)
    (shown : tracer.Shown tracer') : Clean po tracer'.live tracer'.busy s :=
  clean.congr shown.live fun k => (shown.busy k).mpr

theorem Clean.speaks (clean : Clean po live busy s) (speaks : s.Speaks i u) :
    Clean po live busy u := by
  refine ⟨fun k attached => (clean.logged k attached).speaks speaks, fun k set => ?_⟩
  rcases speaks.reprint k with same | ⟨-, taken⟩
  · exact clean.reprint k (same.symm.trans set)
  · rw [taken] at set
    cases set

theorem Clean.droptcb (clean : Clean po live busy s) (mode : Mode po) (attached : live i) :
    Clean po (fun k => live k ∧ k ≠ i) (fun k => busy k ∧ k ≠ i) (s.droptcb po i) := by
  have own := clean.logged i attached
  refine ⟨fun k attached =>
    (clean.logged k attached.1).droptcb mode own attached.2, fun k set => ?_⟩
  rw [droptcb_tcbs mode own] at set
  split at set
  · cases set
  · next other => exact ⟨⟨(clean.reprint k set).1, other⟩, (clean.reprint k set).2⟩

theorem Clean.maybeSwitchTcbs (clean : Clean po live busy s) (mode : Mode po) (leader : live i)
    (thread : live j) (different : j ≠ i) (inside : busy j) (pid oldPid : Nat) :
    Clean po (fun k => live k ∧ k ≠ i) (fun k => busy k ∧ k ≠ i)
      (s.maybeSwitchTcbs po x i j pid oldPid) := by
  have changed : Clean po live busy (s.pidChanged j pid) := by
    unfold Output.pidChanged
    split
    · exact clean.speaks (Speaks.fprintf (i := j) s j _)
    · exact clean
  have swapped : Clean po live busy ((s.pidChanged j pid).swapOutput i j) := by
    refine ⟨fun k attached => ?_, fun k set => ?_⟩
    · exact swapOutput_logged (changed.logged i leader) (changed.logged j thread)
        (changed.logged k attached)
    · rw [swapOutput_reprint] at set
      exact changed.reprint k set
  have dropped := swapped.droptcb mode leader
  unfold Output.maybeSwitchTcbs
  dsimp only
  split
  · exact dropped
  · next shown =>
    rw [openStaged_complete mode]
    have noted : Clean po (fun k => live k ∧ k ≠ i) (fun k => busy k ∧ k ≠ i)
        (if po.quiet quietThreadExecve then ((s.pidChanged j pid).swapOutput i j).droptcb po i
        else (((s.pidChanged j pid).swapOutput i j).droptcb po i).printNotice po x j
          ("+++ superseded by execve in pid " ++ toString oldPid ++ " +++")) := by
      split
      · exact dropped
      · exact dropped.speaks (printNotice_speaks po x _ j _)
    refine ⟨fun k attached => (noted.logged k attached).prints (.reprint _ j true), fun k set => ?_⟩
    by_cases eq : k = j
    · exact ⟨⟨eq ▸ inside, eq ▸ different⟩, Bool.eq_false_iff.mpr shown⟩
    · rw [setReprint, setTcb_tcbs_other _ _ eq] at set
      exact noted.reprint k set

theorem traceSyscall_speaks (mode : Mode po) (r : Stop)
    (set : (s.tcbs i).reprint = true →
      (r.tcb.insyscall = true ∧ r.tcb.filtered = false) ∧ po.onlyStats = false) :
    ∃ v, s.Speaks i v ∧ (v.tcbs i).reprint = false ∧ (s.traceSyscall po o a x r i = v ∨
      ∃ failed, s.traceSyscall po o a x r i = v.finishCall i failed) := by
  have noted := notePersonality_speaks po a x s i r.tcb
  unfold Output.traceSyscall
  by_cases entering : r.tcb.entering
  · have unset : (s.tcbs i).reprint = false := by
      by_contra flag
      have inside := (set (by simpa using flag)).1.1
      simp [Tcb.entering, inside] at entering
    rw [if_pos entering]
    dsimp only
    split
    · exact ⟨_, noted, noted.unset unset, .inl rfl⟩
    · split
      · unfold Output.syscallEnteringTrace
        split
        · exact ⟨_, noted, noted.unset unset, .inl rfl⟩
        · rw [openStaged_complete mode]
          have printed := noted.trans <| (syscallEnteringFailed_speaks po x _ i).trans
            (tprintsString_speaks _ i x.args)
          exact ⟨_, printed, printed.unset unset, .inl rfl⟩
      · have printed := noted.trans (syscallEnteringFailed_speaks po x _ i)
        exact ⟨_, printed, printed.unset unset, .inl rfl⟩
  · rw [if_neg entering]
    split
    · next filtered =>
      refine ⟨s, .refl s, ?_, .inl rfl⟩
      by_contra flag
      have shown := (set (by simpa using flag)).1.2
      rw [filtered] at shown
      cases shown
    · unfold Output.syscallExitingTrace
      dsimp only
      split
      · next stats =>
        refine ⟨_, noted, noted.unset ?_, .inl rfl⟩
        by_contra flag
        have shown := (set (by simpa using flag)).2
        rw [stats] at shown
        cases shown
      · rw [closeStaged_complete mode, closeStaged_complete mode]
        generalize s.notePersonality po a x r.tcb i = u at noted ⊢
        have resumed := noted.trans (printSyscallResume_speaks po x u i)
        have unset : ((u.printSyscallResume po x i).tcbs i).reprint = false :=
          printSyscallResume_reprint po x
        split
        · have printed := (printResult_speaks po (u.printSyscallResume po x i) i
            " ? <unavailable>").trans (lineEnded_speaks _ i)
          exact ⟨_, resumed.trans printed, printed.unset unset, .inl rfl⟩
        · rw [mode.complete]
          have printed := (tprintsString_speaks (u.printSyscallResume po x i) i x.exitArgs).trans
            (printReturned_speaks po x _ i)
          exact ⟨_, resumed.trans printed, printed.unset unset, .inr ⟨_, rfl⟩⟩

theorem Clean.finishCall (clean : Clean po live busy s) (failed : Bool) :
    Clean po live busy (s.finishCall i failed) := by
  refine ⟨fun k attached => (clean.logged k attached).finishCall failed, fun k set => ?_⟩
  refine clean.reprint k (Eq.trans ?_ set)
  exact (setTcb_reprint (by rfl) k).symm

theorem Clean.traced (clean : Clean po tracer.live tracer.busy s) (mode : Mode po) (i : Nat) :
    Clean po (tracer.traceSyscallOf o a i 0).1.live (tracer.traceSyscallOf o a i 0).1.busy
      (s.traceSyscall po o a x (tracer.stopOf i 0) i) := by
  obtain ⟨v, speaks, cleared, printed⟩ :=
    traceSyscall_speaks mode (tracer.stopOf i 0) (clean.reprint i)
  have spoken : Clean po (tracer.traceSyscallOf o a i 0).1.live
      (tracer.traceSyscallOf o a i 0).1.busy v := by
    have before := clean.speaks speaks
    refine ⟨fun k attached => before.logged k ((Tracer.traceSyscallOf_live 0 k).mp attached),
      fun k set => ?_⟩
    have other : k ≠ i := by
      rintro rfl
      rw [cleared] at set
      cases set
    refine ⟨?_, (before.reprint k set).2⟩
    unfold Tracer.busy
    rw [Tracer.traceSyscallOf_other other]
    exact (before.reprint k set).1
  rcases printed with same | ⟨failed, finished⟩
  · rw [same]
    exact spoken
  · rw [finished]
    exact spoken.finishCall failed

theorem Clean.dropped (clean : Clean po tracer.live tracer.busy s) (mode : Mode po)
    (attached : tracer.live i) :
    Clean po (tracer.droptcb i).live (tracer.droptcb i).busy (s.droptcb po i) :=
  (clean.droptcb mode attached).congr (Tracer.droptcb_live attached)
    fun k => (Tracer.droptcb_busy attached k).mpr

theorem Clean.kept (mode : Mode po) :
    Kept po fun tracer s => Clean po tracer.live tracer.busy s where
  shown := Clean.shown
  speaks := Clean.speaks
  dropped clean attached := clean.dropped mode attached

theorem printEventExit_speaks (mode : Mode po) (t : Tcb) :
    s.Speaks i (s.printEventExit po x t i) := by
  unfold Output.printEventExit
  split
  · exact .refl s
  · dsimp only
    rw [closeStaged_complete mode]
    refine (interruptOther_speaks po s i).trans ((printSyscallResume_speaks po x _ i).trans ?_)
    refine .trans ?_ ((printResult_speaks po _ i _).trans (lineEnded_speaks _ i))
    split
    · exact (tprintsString_speaks _ i _).trans (tprintsString_speaks _ i _)
    · exact .refl _

theorem Clean.dispatchCurrent (clean : Clean po tracer.live tracer.busy s) (mode : Mode po)
    (attached : tracer.live i) (replaced : wd.te = .stopBeforeExecve →
      ∀ thread, tracer.execveThread o i = some thread → tracer.busy thread) :
    Clean po (tracer.dispatchCurrent o a wd i).1.live (tracer.dispatchCurrent o a wd i).1.busy
      (s.dispatchCurrent po o a x tracer wd i) := by
  refine (Clean.kept mode).dispatchCurrent clean attached (fun _ => clean.traced mode i)
    (clean.speaks (printEventExit_speaks mode _)) (fun _ _ _ clean => clean.traced mode i) ?_
  intro te u j shown found leader thread different clean pid oldPid
  have inside := (shown.busy j).mpr (replaced te j found)
  exact (clean.maybeSwitchTcbs mode leader thread different inside pid oldPid).congr
    (Tracer.switchTcbs_live leader thread different)
    fun k => (Tracer.switchTcbs_busy leader different k).mpr

end

end Strace.Resumption
