import Strace.Tracer.Injection
import Strace.Tracer.Dispatch

/-! What the dispatch of an event is made of: bookkeeping in a tcb, syscall
stops, and tcbs that are dropped or renumbered. What each of these keeps is kept
by every dispatch. -/
namespace Strace

structure Tcb.Bookkept (t t' : Tcb) : Prop where
  pid : t'.pid = t.pid
  waitDataIdx : t'.waitDataIdx = t.waitDataIdx
  delayed : t'.delayed = true → t.delayed = true
  flags : t'.injectFlags = t.injectFlags
  insyscall : t'.insyscall = t.insyscall

namespace Tracer

def detached (o : Options) (s : Tracer) (i : Nat) : List Nat :=
  if o.detachOnExecve && !(s.tcbtab i).skipDetachOnFirstExec then [i] else []

def touched (o : Options) (s : Tracer) (wd : WaitData) (i : Nat) : List Nat :=
  match wd.te with
  | .signalled | .exited => [i]
  | .stopBeforeExecve => match s.execveThread o i with
    | some thread => [i, thread]
    | none => detached o s i
  | _ => []

def IsSyscallStop (o : Options) (s : Tracer) (wd : WaitData) (i : Nat) : Prop :=
  wd.te = .syscallStop ∨
    wd.te = .seccomp ∧ (s.tcbtab i).seccompFilter = true ∧ o.seccompBeforeSysentry = false

def stopOf (s : Tracer) (i sig : Nat) : Stop :=
  ⟨s.tcbtab i, s.currentPersonality, s.timer, sig⟩

inductive Acts (o : Options) (ok : Answers → Stop → Prop) (gone : List Nat) :
    Tracer → Tracer → Prop
  | refl (s : Tracer) : Acts o ok gone s s
  | trans {s u v : Tracer} : Acts o ok gone s u → Acts o ok gone u v → Acts o ok gone s v
  | tcb (s : Tracer) (i : Nat) (t : Tcb) (kept : (s.tcbtab i).Bookkept t) :
      Acts o ok gone s (s.setTcb i t)
  | stop (s : Tracer) (a : Answers) (i sig : Nat) (allowed : ok a (s.stopOf i sig)) :
      Acts o ok gone s (s.traceSyscallOf o a i sig).1
  | drop (s : Tracer) (i : Nat) (mem : i ∈ gone) : Acts o ok gone s (s.droptcb i)
  | rename (s : Tracer) (i pid : Nat) (mem : i ∈ gone) (live : (s.tcbtab i).pid ≠ 0) :
      Acts o ok gone s (s.setTcb i ((s.tcbtab i).setPid pid))
  | current (s : Tracer) (i : Option Nat) : Acts o ok gone s (s.setCurrentTcp i)
  | record (s : Tracer) (x : Action) : Acts o ok gone s (s.record x)

section
variable {o : Options} {ok : Answers → Stop → Prop} {gone gone' : List Nat} {a : Answers}
  {wd : WaitData} {s s' : Tracer} {i j : Nat}

theorem Acts.mono (h : Acts o ok gone s s') (more : gone ⊆ gone') : Acts o ok gone' s s' := by
  induction h with
  | refl s => exact .refl s
  | trans _ _ first second => exact first.trans second
  | tcb s i t kept => exact .tcb s i t kept
  | stop s a i sig allowed => exact .stop s a i sig allowed
  | drop s i mem => exact .drop s i (more mem)
  | rename s i pid mem live => exact .rename s i pid (more mem) live
  | current s i => exact .current s i
  | record s x => exact .record s x

theorem restartCurrent_acts (op : RestartOp) (sig : Nat) :
    Acts o ok gone s (s.restartCurrent a wd i op sig).1 := by
  unfold restartCurrent
  split
  · exact .refl s
  · split
    · exact .tcb s i _ ⟨rfl, rfl, id, rfl, rfl⟩
    · exact .record s _

theorem switchTcbs_acts (live : (s.tcbtab j).pid ≠ 0) (other : j ≠ i) :
    Acts o ok [i, j] s (s.switchTcbs i j) := by
  have same := droptcb_tcbtab_other s other
  refine .trans (.drop s i (by simp)) (.trans (.rename _ j (s.tcbtab i).pid (by simp) ?_) ?_)
  · rw [same]
    exact live
  · exact .current _ (some j)

theorem recoverExecve_acts
    (recovering : ∀ s, s.tcb.insyscall = false → s.tcb.recovering = true → ok a s)
    (outside : (s.tcbtab i).insyscall = false) : Acts o ok gone s (s.recoverExecve o a i).1 := by
  have started : Acts o ok gone s (s.setTcb i ((s.tcbtab i).setRecovering true)) :=
    .tcb s i _ ⟨rfl, rfl, id, rfl, rfl⟩
  have self := setTcb_tcbtab_self s i ((s.tcbtab i).setRecovering true)
  refine started.trans (.trans (.stop _ a i 0 (recovering _ ?_ ?_)) ?_)
  · unfold stopOf
    rw [self]
    exact outside
  · unfold stopOf
    rw [self]
    rfl
  · exact .tcb _ i _ ⟨rfl, rfl, id, rfl, rfl⟩

theorem detachOrRestart_acts (op : RestartOp) (sig : Nat) :
    Acts o ok (detached o s i) s (s.detachOrRestart o a wd i op sig).1 := by
  unfold detachOrRestart
  cases detach : o.detachOnExecve with
  | false => exact restartCurrent_acts op sig
  | true =>
    cases skip : (s.tcbtab i).skipDetachOnFirstExec with
    | true =>
      exact .trans (.tcb s i (s.tcbtab i).firstExecSkipped ⟨rfl, rfl, id, rfl, rfl⟩)
        (restartCurrent_acts op sig)
    | false =>
      have gone : detached o s i = [i] := by simp [detached, detach, skip]
      rw [gone]
      exact .drop s i (by simp)

theorem detached_subset (o : Options) (s : Tracer) (i : Nat) : detached o s i ⊆ [i] := by
  unfold detached
  split <;> simp

theorem recoverExecve_skipDetach : ((s.recoverExecve o a i).1.tcbtab i).skipDetachOnFirstExec =
    (s.tcbtab i).skipDetachOnFirstExec := by
  have kept := (traceSyscall_traced o a
    ⟨(s.tcbtab i).setRecovering true, s.currentPersonality, s.timer, 0⟩).kept
  unfold recoverExecve traceSyscallOf
  simp only [setTcb_tcbtab_self, record_tcbtab, withStop_tcbtab]
  exact kept.skipDetach

theorem execveThread_live (found : s.execveThread o i = some j) : (s.tcbtab j).pid ≠ 0 := by
  unfold execveThread at found
  dsimp only at found
  split at found
  · cases found
  · split at found
    · cases found
    · next other =>
      rw [(pid2tcb_some found).2]
      exact fun zero => other (.inl zero)

theorem dispatchExecve_acts
    (recovering : ∀ s, s.tcb.insyscall = false → s.tcb.recovering = true → ok a s)
    (te : wd.te = .stopBeforeExecve) :
    Acts o ok (touched o s wd i) s (s.dispatchExecve o a wd i).1 := by
  have started (gone : List Nat) : Acts o ok gone s (s.setTcb i (s.tcbtab i).execSucceeded) :=
    .tcb s i _ ⟨rfl, rfl, id, rfl, rfl⟩
  have self := setTcb_tcbtab_self s i (s.tcbtab i).execSucceeded
  have same : detached o (s.setTcb i (s.tcbtab i).execSucceeded) i = detached o s i := by
    unfold detached
    rw [self]
    rfl
  have thread := execveThread_execSucceeded o s i
  unfold dispatchExecve touched
  simp only [te, thread]
  cases found : s.execveThread o i with
  | some j =>
    rw [found] at thread
    have switched : Acts o ok [i, j] _ _ :=
      switchTcbs_acts (execveThread_live thread) (execveThread_ne thread)
    refine (started _).trans (switched.trans ?_)
    exact (detachOrRestart_acts _ _).mono (List.Subset.trans (detached_subset o _ j) (by simp))
  | none =>
    refine (started _).trans ?_
    dsimp only
    split
    · next entering =>
      have outside : ((s.setTcb i (s.tcbtab i).execSucceeded).tcbtab i).insyscall = false := by
        simpa [Tcb.entering] using entering
      have recovered : Acts o ok (detached o s i) _
          ((s.setTcb i (s.tcbtab i).execSucceeded).recoverExecve o a i).1 :=
        recoverExecve_acts recovering outside
      split
      · exact recovered
      · refine recovered.trans ?_
        have after : detached o ((s.setTcb i (s.tcbtab i).execSucceeded).recoverExecve o a i).1 i =
            detached o s i := by
          rw [← same]
          unfold detached
          rw [recoverExecve_skipDetach]
        rw [← after]
        exact detachOrRestart_acts _ _
    · rw [← same]
      exact detachOrRestart_acts _ _

theorem dispatchSyscallStop_acts (allowed : ok a (s.stopOf i 0)) :
    Acts o ok gone s (s.dispatchSyscallStop o a wd i).1 := by
  have traced : Acts o ok gone s (s.traceSyscallOf o a i 0).1 := .stop s a i 0 allowed
  unfold dispatchSyscallStop
  dsimp only
  split
  · exact traced
  · exact traced.trans (restartCurrent_acts _ _)

theorem dispatchCurrent_acts
    (recovering : ∀ s, s.tcb.insyscall = false → s.tcb.recovering = true → ok a s)
    (allowed : IsSyscallStop o s wd i → ok a (s.stopOf i 0)) :
    Acts o ok (touched o s wd i) s (s.dispatchCurrent o a wd i).1 := by
  cases te : wd.te
  case stopBeforeExecve =>
    simpa [dispatchCurrent, te] using dispatchExecve_acts recovering te
  case seccomp =>
    simp only [dispatchCurrent, te]
    split
    · exact .trans (.tcb s i (s.tcbtab i).setSeccompFilter ⟨rfl, rfl, id, rfl, rfl⟩)
        (restartCurrent_acts _ _)
    · next filter =>
      split
      · exact restartCurrent_acts _ _
      · next order =>
        exact dispatchSyscallStop_acts
          (allowed (.inr ⟨te, by simpa using filter, by simpa using order⟩))
  case groupStop =>
    simp only [dispatchCurrent, te]
    split <;> exact restartCurrent_acts _ _
  case signalled => simpa [dispatchCurrent, touched, te] using .drop s i (by simp)
  case exited => simpa [dispatchCurrent, touched, te] using .drop s i (by simp)
  case syscallStop =>
    simpa [dispatchCurrent, te] using dispatchSyscallStop_acts (allowed (.inl te))
  case brk => simpa [dispatchCurrent, te] using .refl s
  case next => simpa [dispatchCurrent, te] using .refl s
  all_goals simpa [dispatchCurrent, te] using restartCurrent_acts _ _

theorem restartDelayedTcb_acts : Acts o ok gone s (s.restartDelayedTcb o a i).1 := by
  have set : Acts o ok gone s (s.setTcb i ((s.tcbtab i).undelay.setDelayedWaitData none)) :=
    .tcb s i _ ⟨rfl, rfl, nofun, rfl, rfl⟩
  rw [restartDelayedTcb_eq]
  split
  · exact set
  · exact set.trans (.record _ _)

theorem restartExpired_acts (answers : Nat → Answers) (now : Nat) (indices : List Nat)
    (next : Option Nat) (s : Tracer) :
    Acts o ok gone s (s.restartExpired o answers now indices next).1 := by
  induction indices generalizing next s with
  | nil => exact .refl s
  | cons i rest ih =>
    unfold restartExpired
    dsimp only
    split
    · grind [restartDelayedTcb_acts.trans, restartDelayedTcb_acts]
    · exact ih _ _

theorem timerSighandler_keep {P : Tracer → Prop} (answers : Nat → Answers) (now : Nat)
    (acts : ∀ s s', Acts o (fun _ _ => False) [] s s' → P s → P s')
    (timed : ∀ (s : Tracer) timer, P s → P { s with timer := timer })
    (failed : ∀ s : Tracer, P s → P { s with restartFailed := true }) (holds : P s) :
    P (s.timerSighandler o answers now) := by
  have restarted (s : Tracer) (holds : P s) : P (s.restartDelayedTcbs o answers now).1 := by
    have loop := acts _ _ (restartExpired_acts answers now (List.range s.tcbtabsize) none s) holds
    unfold restartDelayedTcbs
    dsimp only
    split
    · exact loop
    · grind
  have expired := timed s { delayTimerExpired s.timer with alarm := false } holds
  unfold timerSighandler
  dsimp only
  split
  · exact expired
  · split
    · exact restarted _ expired
    · exact failed _ (restarted _ expired)

end

end Tracer

end Strace
