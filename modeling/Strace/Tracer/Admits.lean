import Strace.Tracer.Injection
import Strace.Tracer.NextEvent

/-! What `next_event` does to the tcbs: it notes which status a tcb has, and
admits new tracees to free places of the table. -/
namespace Strace

structure Tcb.Noted (t t' : Tcb) : Prop where
  pid : t'.pid = t.pid
  delayed : t'.delayed = t.delayed
  flags : t'.injectFlags = t.injectFlags
  insyscall : t'.insyscall = t.insyscall

structure Tcb.New (t : Tcb) : Prop where
  delayed : t.delayed = false
  flags : t.injectFlags = {}
  insyscall : t.insyscall = false

variable {t u : Tcb}

theorem Tcb.Noted.trans {v : Tcb} (h : t.Noted u) (h' : u.Noted v) : t.Noted v :=
  ⟨h'.pid.trans h.pid, h'.delayed.trans h.delayed, h'.flags.trans h.flags,
    h'.insyscall.trans h.insyscall⟩

theorem Tcb.New.noted (h : t.New) (h' : t.Noted u) : u.New :=
  ⟨h'.delayed.trans h.delayed, h'.flags.trans h.flags, h'.insyscall.trans h.insyscall⟩

theorem Tcb.Decoded.noted {t' : Tcb} (h : t.Decoded t') : t.Noted t' := by
  rw [h]
  exact ⟨rfl, rfl, rfl, rfl⟩

theorem noteSigstop_noted (w : Waited) (t : Tcb) : t.Noted (noteSigstop w t) := by
  unfold noteSigstop
  split <;> exact ⟨rfl, rfl, rfl, rfl⟩

namespace Tracer

structure Admits (s s' : Tracer) : Prop where
  tcb : ∀ j, (s.tcbtab j).Noted (s'.tcbtab j) ∨
    (s.tcbtab j).pid = 0 ∧ (s'.tcbtab j).New ∧ j < s'.tcbtabsize
  size : s.tcbtabsize ≤ s'.tcbtabsize
  timer : s'.timer = s.timer
  failed : s'.restartFailed = s.restartFailed

section
variable {o : Options} {a : Answers} {s s' u : Tracer} {i : Nat} {t : Tcb}

theorem Admits.of_eq (tcbtab : s'.tcbtab = s.tcbtab) (size : s'.tcbtabsize = s.tcbtabsize)
    (timer : s'.timer = s.timer) (failed : s'.restartFailed = s.restartFailed) : Admits s s' := by
  refine ⟨fun j => .inl ?_, Nat.le_of_eq size.symm, timer, failed⟩
  rw [tcbtab]
  exact ⟨rfl, rfl, rfl, rfl⟩

theorem Admits.refl (s : Tracer) : Admits s s := .of_eq rfl rfl rfl rfl

theorem Admits.trans (h : Admits s u) (h' : Admits u s') : Admits s s' := by
  refine ⟨?_, Nat.le_trans h.size h'.size, h'.timer.trans h.timer,
    h'.failed.trans h.failed⟩
  intro j
  rcases h.tcb j with before | ⟨free, new, inTable⟩
  · rcases h'.tcb j with after | ⟨free, new, inTable⟩
    · exact .inl (before.trans after)
    · exact .inr ⟨before.pid.symm.trans free, new, inTable⟩
  · rcases h'.tcb j with after | ⟨_, new', inTable'⟩
    · exact .inr ⟨free, new.noted after, Nat.lt_of_lt_of_le inTable h'.size⟩
    · exact .inr ⟨free, new', inTable'⟩

theorem setTcb_admits (noted : (s.tcbtab i).Noted t) : Admits s (s.setTcb i t) := by
  refine ⟨fun j => .inl ?_, Nat.le_refl _, rfl, rfl⟩
  by_cases self : j = i
  · simp [self, noted]
  · rw [setTcb_tcbtab_other s t self]
    exact ⟨rfl, rfl, rfl, rfl⟩

theorem expandTcbtab_admits (s : Tracer) : Admits s s.expandTcbtab := by
  refine ⟨fun j => .inl ⟨rfl, rfl, rfl, rfl⟩, ?_, rfl, rfl⟩
  unfold expandTcbtab
  dsimp only
  split <;> omega

theorem alloctcb_admits {pid : Nat} (allocated : s.alloctcb pid = some (s', i)) : Admits s s' := by
  obtain ⟨u, expanded, free, inTable, rfl⟩ := alloctcb_some allocated
  have grown : Admits s u := by
    rcases expanded with rfl | rfl
    · exact .refl u
    · exact expandTcbtab_admits s
  refine grown.trans ⟨?_, Nat.le_refl _, rfl, rfl⟩
  intro j
  by_cases self : j = i
  · refine .inr ⟨self ▸ free, ?_, self ▸ inTable⟩
    rw [self, setTcb_tcbtab_self]
    exact ⟨rfl, rfl, rfl⟩
  · refine .inl ?_
    rw [setTcb_tcbtab_other u _ self]
    exact ⟨rfl, rfl, rfl, rfl⟩

theorem tcbOf_admits {w : Waited} {found : Option Nat} (eq : s.tcbOf o w = some (s', found)) :
    Admits s s' := by
  unfold tcbOf at eq
  split at eq
  · obtain ⟨rfl, -⟩ : s = s' ∧ _ := by simpa using eq
    exact .refl s
  · split at eq
    · obtain ⟨⟨u, j⟩, allocated, eq⟩ := Option.map_eq_some_iff.mp eq
      obtain ⟨rfl, -⟩ := Prod.mk.inj eq
      exact (alloctcb_admits allocated).trans (setTcb_admits ⟨rfl, rfl, rfl, rfl⟩)
    · obtain ⟨rfl, -⟩ : s = s' ∧ _ := by simpa using eq
      exact .refl s

theorem setWaitDataIdx_admits (s : Tracer) (i pos : Nat) :
    Admits s (s.setTcb i ((s.tcbtab i).setWaitDataIdx pos)) :=
  setTcb_admits ⟨rfl, rfl, rfl, rfl⟩

theorem queueTcb_admits (w : Waited) (pos : Nat) : Admits s (s.queueTcb o i w pos) := by
  have stored : Admits s (s.storeWaitData pos (waitData o (s.tcbtab i) w)) :=
    .of_eq rfl rfl rfl rfl
  have noted (s : Tracer) : Admits s (s.setTcb i (noteSigstop w (s.tcbtab i))) :=
    setTcb_admits (noteSigstop_noted w _)
  refine (stored.trans (noted _)).trans ?_
  unfold queueTcb
  dsimp only
  split
  · exact .of_eq rfl rfl rfl rfl
  · exact (setWaitDataIdx_admits _ i pos).trans (.of_eq rfl rfl rfl rfl)

theorem collect_admits (results : List Waited) (pos : Nat) {ws : List Waited}
    (collected : s.collect o results pos = some (s', ws)) : Admits s s' := by
  induction results generalizing s pos ws with
  | nil =>
    obtain ⟨rfl, -⟩ : s = s' ∧ [] = ws := by simpa [collect] using collected
    exact .refl s
  | cons w rest ih =>
    unfold collect at collected
    split at collected
    · cases collected
    · next u ignored => exact (tcbOf_admits ignored).trans (ih pos collected)
    · next u i found =>
      have queued : Admits s (u.queueTcb o i w pos) :=
        (tcbOf_admits found).trans (queueTcb_admits w pos)
      dsimp only at collected
      split at collected
      · obtain ⟨rfl, -⟩ : u.queueTcb o i w pos = s' ∧ [w] = ws := by simpa using collected
        exact queued
      · obtain ⟨⟨v, vs⟩, rest, eq⟩ := Option.map_eq_some_iff.mp collected
        obtain ⟨rfl, -⟩ : v = s' ∧ w :: vs = ws := by simpa using eq
        exact queued.trans (ih (pos + 1) rest)

theorem startupTcb_admits (s : Tracer) (i : Nat) : Admits s (s.startupTcb o a i) := by
  unfold startupTcb
  dsimp only
  split
  · split
    · obtain ⟨decoded, timer, -⟩ := getScno_decoded
        ⟨{ s.tcbtab i with startup := false }, s.currentPersonality, s.timer, 0⟩
      have started : (s.tcbtab i).Noted { s.tcbtab i with startup := false } :=
        ⟨rfl, rfl, rfl, rfl⟩
      have set := setTcb_admits (started.trans decoded.noted)
      exact ⟨set.tcb, set.size, timer, rfl⟩
    · exact setTcb_admits ⟨rfl, rfl, rfl, rfl⟩
  · exact .refl s

theorem deliver_admits (s : Tracer) (i : Nat) : Admits s (s.deliver o a i).1 := by
  have current : Admits (s.startupTcb o a i) ((s.startupTcb o a i).setCurrentTcp (some i)) :=
    .of_eq rfl rfl rfl rfl
  exact (startupTcb_admits s i).trans current

theorem takePending_admits (s : Tracer) (rest : List Nat) : Admits s (s.takePending rest) :=
  .of_eq rfl rfl rfl rfl

theorem takeExtra_admits (s : Tracer) (i : Nat) : Admits s (s.takeExtra i) :=
  (setWaitDataIdx_admits s i s.waitExtraDataIdx).trans (.of_eq rfl rfl rfl rfl)

variable {wd : WaitData}

theorem nextQueued_admits (taken : s.nextQueued o a = some (s', wd)) : Admits s s' := by
  unfold nextQueued at taken
  split at taken
  · next i rest _ =>
    have handed : ((s.takePending rest).deliver o a i).1 = s' :=
      congrArg Prod.fst (Option.some.inj taken)
    rw [← handed]
    exact (takePending_admits s rest).trans (deliver_admits _ i)
  · next i _ _ =>
    have handed : ((s.takeExtra i).deliver o a i).1 = s' :=
      congrArg Prod.fst (Option.some.inj taken)
    rw [← handed]
    exact (takeExtra_admits s i).trans (deliver_admits _ i)
  · cases taken

theorem afterWait_admits {results batch : List Waited}
    (waited : s.afterWait o a results = some (s', wd, batch)) : Admits s s' := by
  obtain ⟨⟨u, stored⟩, collected, eq⟩ := Option.map_eq_some_iff.mp waited
  have admits := collect_admits results 0 collected
  dsimp only at eq
  split at eq
  · next i rest _ =>
    have handed : ((u.takePending rest).deliver o a i).1 = s' := congrArg Prod.fst eq
    rw [← handed]
    exact admits.trans ((takePending_admits u rest).trans (deliver_admits _ i))
  · obtain ⟨rfl, -⟩ := Prod.mk.inj eq
    exact admits.trans (.of_eq rfl rfl rfl rfl)

end

end Tracer

end Strace
