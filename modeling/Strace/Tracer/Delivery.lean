import Strace.Runs
import Strace.Tracer.Acts
import Strace.Tracer.NextEvent

/-! Every wait status that is stored is handed out once, with the tcb of the
tracee it is about, as long as no event drops or renumbers a tcb that still has
a status queued. -/
namespace Strace.Delivery
open List Tracer Runs

def queued (s : Tracer) (batch : List Waited) : List (Option Waited) :=
  s.pendingTcps.map (fun i => batch[(s.tcbtab i).waitDataIdx]?) ++
    s.extraTcp.toList.map fun _ => batch[s.waitExtraDataIdx]?

structure Delivered (m : Loop) : Prop where
  right : ∀ r ∈ m.returned, ∃ w, r.status = some w ∧ r.wd.status = w.status ∧ r.pid = w.pid
  once : m.returned.map (·.status) ++ queued m.tracer m.batch = m.collected.map some

/-- No status of tcb `i` is queued. -/
def Unqueued (s : Tracer) (i : Nat) : Prop := i ∉ s.pendingTcps ∧ s.extraTcp ≠ some i

def Harmless (o : Options) (m : Loop) : Move → Prop
  | .dispatch _ => ∀ wd, m.control = .ready wd → ∀ i ∈ m.tracer.currentTcp,
      ∀ j ∈ touched o m.tracer wd i, Unqueued m.tracer j
  | _ => True

/-! ## What a dispatch leaves in the queue -/

structure KeepsQueue (gone : List Nat) (s s' : Tracer) : Prop where
  pid : ∀ j ∉ gone, (s'.tcbtab j).pid = (s.tcbtab j).pid
  idx : ∀ j ∉ gone, (s'.tcbtab j).waitDataIdx = (s.tcbtab j).waitDataIdx
  pending : (∀ j ∈ gone, j ∉ s.pendingTcps) → s'.pendingTcps = s.pendingTcps
  extra : s'.extraTcp = s.extraTcp
  extraIdx : s'.waitExtraDataIdx = s.waitExtraDataIdx
  table : s'.tcbWaitTab = s.tcbWaitTab

section
variable {o : Options} {a : Answers} {wd : WaitData} {s s' u : Tracer} {i j : Nat} {gone : List Nat}

theorem KeepsQueue.refl (gone : List Nat) (s : Tracer) : KeepsQueue gone s s :=
  ⟨fun _ _ => rfl, fun _ _ => rfl, fun _ => rfl, rfl, rfl, rfl⟩

theorem KeepsQueue.trans (h : KeepsQueue gone s u) (h' : KeepsQueue gone u s') :
    KeepsQueue gone s s' := by
  refine ⟨fun j out => (h'.pid j out).trans (h.pid j out),
    fun j out => (h'.idx j out).trans (h.idx j out), ?_, h'.extra.trans h.extra,
    h'.extraIdx.trans h.extraIdx, h'.table.trans h.table⟩
  intro free
  have same := h.pending free
  exact (h'.pending (same ▸ free)).trans same

theorem KeepsQueue.mono {gone' : List Nat} (h : KeepsQueue gone s s') (more : gone ⊆ gone') :
    KeepsQueue gone' s s' :=
  ⟨fun j out => h.pid j fun mem => out (more mem), fun j out => h.idx j fun mem => out (more mem),
    fun free => h.pending fun j mem => free j (more mem), h.extra, h.extraIdx, h.table⟩

theorem setTcb_keeps {t : Tcb} (pid : t.pid = (s.tcbtab i).pid)
    (idx : t.waitDataIdx = (s.tcbtab i).waitDataIdx) : KeepsQueue gone s (s.setTcb i t) := by
  refine ⟨?_, ?_, fun _ => rfl, rfl, rfl, rfl⟩
  · intro j _
    by_cases self : j = i
    · rw [self, setTcb_tcbtab_self, pid]
    · rw [setTcb_tcbtab_other s t self]
  · intro j _
    by_cases self : j = i
    · rw [self, setTcb_tcbtab_self, idx]
    · rw [setTcb_tcbtab_other s t self]

theorem traceSyscallOf_keeps (sig : Nat) : KeepsQueue gone s (s.traceSyscallOf o a i sig).1 := by
  have kept := (traceSyscall_traced o a ⟨s.tcbtab i, s.currentPersonality, s.timer, sig⟩).kept
  have set : KeepsQueue gone s (s.setTcb i _) := setTcb_keeps kept.pid kept.waitDataIdx
  exact ⟨set.pid, set.idx, set.pending, set.extra, set.extraIdx, set.table⟩

theorem droptcb_keeps : KeepsQueue [i] s (s.droptcb i) := by
  have other (j : Nat) (out : j ∉ [i]) := droptcb_tcbtab_other s (ne_of_not_mem_cons out)
  refine ⟨fun j out => by rw [other j out], fun j out => by rw [other j out], ?_, ?_, ?_, ?_⟩ <;>
    unfold droptcb
  · intro free
    have unchanged : s.pendingTcps.filter (· ≠ i) = s.pendingTcps := by
      rw [filter_eq_self]
      intro j mem
      simp only [decide_eq_true_eq]
      rintro rfl
      exact free j (by simp) mem
    split
    · rfl
    · dsimp only
      split <;> exact unchanged
  all_goals
    split
    · rfl
    · dsimp only
      split <;> rfl

theorem KeepsQueue.of_eq (tcbtab : s'.tcbtab = s.tcbtab) (pending : s'.pendingTcps = s.pendingTcps)
    (extra : s'.extraTcp = s.extraTcp) (extraIdx : s'.waitExtraDataIdx = s.waitExtraDataIdx)
    (table : s'.tcbWaitTab = s.tcbWaitTab) : KeepsQueue gone s s' :=
  ⟨fun _ _ => by rw [tcbtab], fun _ _ => by rw [tcbtab], fun _ => pending, extra, extraIdx, table⟩

theorem KeepsQueue.of_acts {ok : Answers → Stop → Prop} (acts : Acts o ok gone s s') :
    KeepsQueue gone s s' := by
  induction acts with
  | refl s => exact .refl gone s
  | trans _ _ first second => exact first.trans second
  | tcb s i t kept => exact setTcb_keeps kept.pid kept.waitDataIdx
  | stop s a i sig => exact traceSyscallOf_keeps sig
  | drop s i mem => exact droptcb_keeps.mono (by simpa using mem)
  | rename s i pid mem =>
    refine ⟨?_, ?_, fun _ => rfl, rfl, rfl, rfl⟩
    · grind [setTcb_tcbtab_other]
    · grind [setTcb_tcbtab_other]
  | current s i => cases i <;> exact .of_eq rfl rfl rfl rfl rfl
  | record s x => exact .of_eq rfl rfl rfl rfl rfl

theorem dispatchCurrent_keeps : KeepsQueue (touched o s wd i) s (s.dispatchCurrent o a wd i).1 := by
  have acts : Acts o (fun _ _ => True) (touched o s wd i) s (s.dispatchCurrent o a wd i).1 :=
    dispatchCurrent_acts (fun _ _ _ => trivial) fun _ => trivial
  exact .of_acts acts

theorem timerSighandler_keeps (answers : Nat → Answers) (now : Nat) :
    KeepsQueue gone s (s.timerSighandler o answers now) := by
  refine timerSighandler_keep answers now ?_ ?_
    ?_ (.refl gone s)
  · intro u v acts keeps
    exact keeps.trans ((KeepsQueue.of_acts acts).mono (nil_subset gone))
  · intro u timer keeps
    exact keeps.trans (.of_eq rfl rfl rfl rfl rfl)
  · intro u keeps
    exact keeps.trans (.of_eq rfl rfl rfl rfl rfl)

end

/-! ## The queue of a batch -/

structure Queued (s : Tracer) (batch : List Waited) : Prop where
  pending : ∀ i ∈ s.pendingTcps,
    ∃ w, batch[(s.tcbtab i).waitDataIdx]? = some w ∧ (s.tcbtab i).pid = w.pid
  extra : ∀ i ∈ s.extraTcp,
    ∃ w, batch[s.waitExtraDataIdx]? = some w ∧ (s.tcbtab i).pid = w.pid
  table : ∀ k w, batch[k]? = some w →
    (s.tcbWaitTab k).status = w.status ∧ (s.tcbWaitTab k).te ≠ .next

section
variable {o : Options} {s s' : Tracer} {batch : List Waited} {gone : List Nat}
  {w : Waited} {i : Nat}

theorem KeepsQueue.queued (keeps : KeepsQueue gone s s') (free : ∀ j ∈ gone, Unqueued s j)
    (queue : Queued s batch) : Queued s' batch ∧ queued s' batch = queued s batch := by
  have pending := keeps.pending fun j mem => (free j mem).1
  have out (j : Nat) (mem : j ∈ s.pendingTcps) : j ∉ gone := fun touched => (free j touched).1 mem
  refine ⟨⟨?_, ?_, ?_⟩, ?_⟩
  · intro i mem
    rw [pending] at mem
    rw [keeps.pid i (out i mem), keeps.idx i (out i mem)]
    exact queue.pending i mem
  · intro i mem
    rw [keeps.extra] at mem
    have out : i ∉ gone := fun touched => (free i touched).2 mem
    rw [keeps.pid i out, keeps.extraIdx]
    exact queue.extra i mem
  · intro k w stored
    rw [keeps.table]
    exact queue.table k w stored
  · unfold Delivery.queued
    rw [pending, keeps.extra, keeps.extraIdx]
    congr 1
    exact map_congr_left fun i mem => by rw [keeps.idx i (out i mem)]

theorem Queued.live (queue : Queued s batch) (mem : i ∈ s.pendingTcps) : (s.tcbtab i).pid ≠ 0 := by
  obtain ⟨w, -, pid⟩ := queue.pending i mem
  have := w.positive
  omega

theorem alloctcb_keeps {pid : Nat} (allocated : s.alloctcb pid = some (s', i)) :
    KeepsQueue [i] s s' ∧ (s.tcbtab i).pid = 0 ∧ (s'.tcbtab i).pid = pid := by
  obtain ⟨u, expanded, free, -, rfl⟩ := alloctcb_some allocated
  have grown : KeepsQueue [i] s u ∧ u.tcbtab = s.tcbtab := by
    rcases expanded with rfl | rfl
    · exact ⟨.refl _ u, rfl⟩
    · exact ⟨.of_eq rfl rfl rfl rfl rfl, rfl⟩
  refine ⟨grown.1.trans ⟨?_, ?_, fun _ => rfl, rfl, rfl, rfl⟩,
    grown.2 ▸ free, ?_⟩
  · intro k out
    exact congrArg Tcb.pid (setTcb_tcbtab_other u _ (ne_of_not_mem_cons out))
  · intro k out
    exact congrArg Tcb.waitDataIdx (setTcb_tcbtab_other u _ (ne_of_not_mem_cons out))
  · exact congrArg Tcb.pid (setTcb_tcbtab_self u i _)

theorem tcbOf_ignored (ignored : s.tcbOf o w = some (s', none)) : s' = s := by
  unfold tcbOf at ignored
  split at ignored
  · simp at ignored
  · split at ignored
    · simp at ignored
    · simpa using ignored.symm

theorem tcbOf_found (queue : Queued s batch) (none : s.extraTcp = none)
    (found : s.tcbOf o w = some (s', some i)) :
    (s'.tcbtab i).pid = w.pid ∧ s'.extraTcp = .none ∧ Queued s' batch ∧
      queued s' batch = queued s batch := by
  unfold tcbOf at found
  split at found
  · next j known =>
    obtain ⟨rfl, rfl⟩ : s = s' ∧ j = i := by simpa using found
    exact ⟨(pid2tcb_some known).2, none, queue, rfl⟩
  · split at found
    · obtain ⟨⟨u, j⟩, allocated, eq⟩ := Option.map_eq_some_iff.mp found
      obtain ⟨rfl, rfl⟩ : u.setTcb j (attachChild o (u.tcbtab j)) = s' ∧ j = i := by simpa using eq
      obtain ⟨keeps, free, pid⟩ := alloctcb_keeps allocated
      have attached : KeepsQueue [j] u (u.setTcb j (attachChild o (u.tcbtab j))) :=
        setTcb_keeps rfl rfl
      have keeps := keeps.trans attached
      have unqueued : ∀ k ∈ [j], Unqueued s k := by
        intro k mem
        obtain rfl := mem_singleton.mp mem
        exact ⟨fun mem => queue.live mem free, by simp [none]⟩
      obtain ⟨queue, same⟩ := keeps.queued unqueued queue
      exact ⟨by rw [setTcb_tcbtab_self]; exact pid, keeps.extra.trans none, queue, same⟩
    · simp at found

theorem getElem?_snoc {k : Nat} {v : Waited} (stored : batch[k]? = some v) (w : Waited) :
    (batch ++ [w])[k]? = some v := by
  obtain ⟨bound, -⟩ := List.getElem?_eq_some_iff.mp stored
  rw [List.getElem?_append_left bound, stored]

theorem storeWaitData_queued {wd : WaitData} (queue : Queued s batch)
    (status : wd.status = w.status) (te : wd.te ≠ .next) :
    Queued (s.storeWaitData batch.length wd) (batch ++ [w]) ∧
      queued (s.storeWaitData batch.length wd) (batch ++ [w]) = queued s batch := by
  refine ⟨⟨?_, ?_, ?_⟩, ?_⟩
  · intro i mem
    obtain ⟨v, stored, pid⟩ := queue.pending i mem
    exact ⟨v, getElem?_snoc stored w, pid⟩
  · intro i mem
    obtain ⟨v, stored, pid⟩ := queue.extra i mem
    exact ⟨v, getElem?_snoc stored w, pid⟩
  · intro k v stored
    unfold storeWaitData
    dsimp only
    by_cases last : k = batch.length
    · grind
    · rw [if_neg last]
      rw [getElem?_append] at stored
      split at stored
      · exact queue.table k v stored
      · have : k - batch.length ≠ 0 := by omega
        simp [this] at stored
  · unfold Delivery.queued storeWaitData
    congr 1
    · refine map_congr_left ?_
      intro i mem
      obtain ⟨v, stored, -⟩ := queue.pending i mem
      rw [stored, getElem?_snoc stored w]
    · refine map_congr_left ?_
      intro i mem
      obtain ⟨i, extra⟩ : ∃ i, s.extraTcp = some i := by
        grind
      obtain ⟨v, stored, -⟩ := queue.extra i extra
      rw [stored, getElem?_snoc stored w]

theorem noteSigstop_same (w : Waited) (t : Tcb) : (noteSigstop w t).pid = t.pid ∧
    (noteSigstop w t).waitDataIdx = t.waitDataIdx := by
  unfold noteSigstop
  split <;> exact ⟨rfl, rfl⟩

theorem queued_of_none (none : s.extraTcp = none) :
    queued s batch = s.pendingTcps.map fun i => batch[(s.tcbtab i).waitDataIdx]? := by
  simp [none, Delivery.queued]

variable {pos : Nat}

theorem queueExtra_queued (queue : Queued s batch) (none : s.extraTcp = none)
    (pid : (s.tcbtab i).pid = w.pid) (stored : batch[pos]? = some w) :
    Queued (s.queueExtra i pos) batch ∧
      queued (s.queueExtra i pos) batch = queued s batch ++ [some w] := by
  refine ⟨⟨queue.pending, ?_, queue.table⟩, ?_⟩
  · intro j mem
    obtain rfl := Option.some.inj mem
    exact ⟨w, stored, pid⟩
  · rw [queued_of_none none, ← stored]
    rfl

theorem queuePending_queued (queue : Queued s batch) (none : s.extraTcp = none)
    (pid : (s.tcbtab i).pid = w.pid) (stored : batch[pos]? = some w) (first : i ∉ s.pendingTcps) :
    Queued (s.queuePending i pos) batch ∧
      queued (s.queuePending i pos) batch = queued s batch ++ [some w] := by
  have self : (s.queuePending i pos).tcbtab i = (s.tcbtab i).setWaitDataIdx pos :=
    setTcb_tcbtab_self ..
  have other (j : Nat) (mem : j ∈ s.pendingTcps) : (s.queuePending i pos).tcbtab j = s.tcbtab j :=
    setTcb_tcbtab_other s _ fun eq => first (eq ▸ mem)
  refine ⟨⟨?_, ?_, queue.table⟩, ?_⟩
  · intro j mem
    rcases mem_append.mp mem with earlier | last
    · rw [other j earlier]
      exact queue.pending j earlier
    · obtain rfl := mem_singleton.mp last
      rw [self]
      exact ⟨w, stored, pid⟩
  · intro j mem
    cases none.symm.trans mem
  · have appended : (s.queuePending i pos).pendingTcps = s.pendingTcps ++ [i] := rfl
    rw [queued_of_none none, queued_of_none (s := s.queuePending i pos) none, appended,
      map_append, map_congr_left fun j mem => by rw [other j mem], map_singleton, self,
      ← stored]
    rfl

theorem traceEvent_ne_next (o : Options) (t : Tcb) (w : Waited) : traceEvent o t w ≠ .next := by
  unfold traceEvent stopEvent signalStopEvent
  dsimp only
  repeat' split
  all_goals simp

theorem queueTcb_queued (queue : Queued s batch) (none : s.extraTcp = none)
    (pid : (s.tcbtab i).pid = w.pid) :
    Queued (s.queueTcb o i w batch.length) (batch ++ [w]) ∧
      queued (s.queueTcb o i w batch.length) (batch ++ [w]) = queued s batch ++ [some w] := by
  have status : (waitData o (s.tcbtab i) w).status = w.status := rfl
  have last : (batch ++ [w])[batch.length]? = some w := getElem?_concat_length ..
  obtain ⟨queue, stored⟩ := storeWaitData_queued queue status (traceEvent_ne_next o (s.tcbtab i) w)
  have noted : KeepsQueue [] (s.storeWaitData batch.length (waitData o (s.tcbtab i) w)) _ :=
    setTcb_keeps (noteSigstop_same w (s.tcbtab i)).1 (noteSigstop_same w (s.tcbtab i)).2
  obtain ⟨queue, same⟩ := noted.queued (by simp) queue
  rw [← stored, ← same]
  unfold queueTcb
  dsimp only
  split
  · refine queueExtra_queued queue none ?_ last
    rw [setTcb_tcbtab_self, (noteSigstop_same w _).1]
    exact pid
  · next first =>
    refine queuePending_queued queue none ?_ last first
    rw [setTcb_tcbtab_self, (noteSigstop_same w _).1]
    exact pid

theorem queueTcb_extra (none : s.extraTcp = none) :
    ∀ j ∈ (s.queueTcb o i w pos).extraTcp, j ∈ (s.queueTcb o i w pos).pendingTcps := by
  unfold queueTcb
  dsimp only
  split
  · next mem =>
    intro j extra
    obtain rfl := Option.some.inj extra
    exact mem
  · intro j extra
    cases none.symm.trans extra

theorem collect_queued (results : List Waited) {ws : List Waited} (queue : Queued s batch)
    (none : s.extraTcp = none) (collected : s.collect o results batch.length = some (s', ws)) :
    Queued s' (batch ++ ws) ∧ queued s' (batch ++ ws) = queued s batch ++ ws.map some ∧
      ∀ j ∈ s'.extraTcp, j ∈ s'.pendingTcps := by
  induction results generalizing s batch ws with
  | nil =>
    obtain ⟨rfl, rfl⟩ : s = s' ∧ [] = ws := by simpa [collect] using collected
    exact ⟨by simpa using queue, by simp, by simp [none]⟩
  | cons w rest ih =>
    unfold collect at collected
    split at collected
    · cases collected
    · grind [tcbOf_ignored]
    · next u i found =>
      obtain ⟨pid, single, found_queue, same⟩ := tcbOf_found queue none found
      obtain ⟨stored, more⟩ := queueTcb_queued found_queue single pid
      dsimp only at collected
      split at collected
      · obtain ⟨rfl, rfl⟩ : u.queueTcb o i w batch.length = s' ∧ [w] = ws := by
          simpa using collected
        exact ⟨stored, by rw [more, same]; rfl, queueTcb_extra single⟩
      · next single =>
        obtain ⟨⟨v, vs⟩, rest, eq⟩ := Option.map_eq_some_iff.mp collected
        obtain ⟨rfl, rfl⟩ : v = s' ∧ w :: vs = ws := by simpa using eq
        have length : batch.length + 1 = (batch ++ [w]).length := by simp
        rw [length] at rest
        obtain ⟨final, all, extra⟩ := ih stored (by simpa using single) rest
        rw [append_assoc] at final all
        refine ⟨final, all.trans ?_, extra⟩
        rw [more, same, append_assoc]
        rfl

end

/-! ## Handing out -/

section
variable {o : Options} {a : Answers} {s : Tracer} {i : Nat} {batch : List Waited}

theorem startupTcb_keeps (gone : List Nat) : KeepsQueue gone s (s.startupTcb o a i) := by
  unfold startupTcb
  dsimp only
  split
  · split
    · have kept := (getScno_decoded (o := o) (a := a) ⟨{ s.tcbtab i with startup := false },
        s.currentPersonality, s.timer, 0⟩).1.kept
      have set : KeepsQueue gone s (s.setTcb i _) := setTcb_keeps kept.pid kept.waitDataIdx
      exact ⟨set.pid, set.idx, set.pending, set.extra, set.extraIdx, set.table⟩
    · exact setTcb_keeps rfl rfl
  · exact KeepsQueue.refl _ s

theorem deliver_keeps (gone : List Nat) : KeepsQueue gone s (s.deliver o a i).1 :=
  (startupTcb_keeps gone).trans (.of_eq rfl rfl rfl rfl rfl)

theorem deliver_current : (s.deliver o a i).1.currentTcp = some i := rfl

theorem deliver_wd : (s.deliver o a i).2 = s.tcbWaitTab (s.tcbtab i).waitDataIdx := by
  have keeps := startupTcb_keeps (o := o) (a := a) (s := s) (i := i) []
  unfold deliver
  dsimp only [setCurrentTcp]
  rw [keeps.table, keeps.idx i (by simp)]

/-- The invariant of the main loop. -/
structure Valid (m : Loop) : Prop where
  queue : Queued m.tracer m.batch
  idle : ∀ unblocked, m.control = .waiting unblocked →
    m.tracer.pendingTcps = [] ∧ m.tracer.extraTcp = none
  delivered : Delivered m

variable {m : Loop} {results : List Waited} {s' : Tracer} {wd : WaitData}

theorem returning_valid {w : Waited} (queue : Queued s m.batch)
    (stored : m.batch[(s.tcbtab i).waitDataIdx]? = some w) (pid : (s.tcbtab i).pid = w.pid)
    (right : ∀ r ∈ m.returned, ∃ w, r.status = some w ∧ r.wd.status = w.status ∧ r.pid = w.pid)
    (once : m.returned.map (·.status) ++ some w :: queued s m.batch = m.collected.map some) :
    Valid (m.returning (s.deliver o a i).1 (s.deliver o a i).2) := by
  have keeps := deliver_keeps (o := o) (a := a) (s := s) (i := i) []
  obtain ⟨queue', same⟩ := keeps.queued (by simp) queue
  have returned : (m.returning (s.deliver o a i).1 (s.deliver o a i).2).returned = m.returned ++
      [⟨i, (s.tcbtab i).pid, (s.deliver o a i).2, some w⟩] := by
    unfold Loop.returning
    simp only [deliver_current, Option.toList_some, map_cons, map_nil,
      keeps.pid i not_mem_nil, keeps.idx i not_mem_nil, stored]
  refine ⟨queue', (fun _ waiting => by cases waiting), ?_, ?_⟩
  · intro r mem
    rw [returned] at mem
    rcases mem_append.mp mem with earlier | last
    · exact right r earlier
    · obtain rfl := mem_singleton.mp last
      refine ⟨w, rfl, ?_, pid⟩
      rw [deliver_wd]
      exact (queue.table _ w stored).1
  · rw [returned, map_append, append_assoc]
    change _ ++ ([some w] ++ queued (s.deliver o a i).1 m.batch) = _
    rw [same]
    exact once

theorem takePending_queued {rest : List Nat} (queue : Queued s batch)
    (head : s.pendingTcps = i :: rest) :
    Queued (s.takePending rest) batch ∧
      ∃ w, batch[(s.tcbtab i).waitDataIdx]? = some w ∧ (s.tcbtab i).pid = w.pid ∧
        queued s batch = some w :: queued (s.takePending rest) batch := by
  obtain ⟨w, stored, pid⟩ := queue.pending i (by simp [head])
  refine ⟨⟨?_, queue.extra, queue.table⟩, w, stored, pid, ?_⟩
  · intro j mem
    exact queue.pending j (by simp [head, show j ∈ rest from mem])
  · unfold Delivery.queued
    rw [head, map_cons, stored]
    rfl

theorem takeExtra_queued (queue : Queued s batch) (empty : s.pendingTcps = [])
    (extra : s.extraTcp = some i) :
    Queued (s.takeExtra i) batch ∧
      ∃ w, batch[((s.takeExtra i).tcbtab i).waitDataIdx]? = some w ∧
        ((s.takeExtra i).tcbtab i).pid = w.pid ∧
        queued s batch = some w :: queued (s.takeExtra i) batch := by
  have self : (s.takeExtra i).tcbtab i = (s.tcbtab i).setWaitDataIdx s.waitExtraDataIdx :=
    setTcb_tcbtab_self ..
  obtain ⟨w, stored, pid⟩ := queue.extra i extra
  have nothing : (s.takeExtra i).pendingTcps = [] := empty
  refine ⟨⟨?_, ?_, queue.table⟩, w, ?_, ?_, ?_⟩
  · simp [nothing]
  · intro j mem
    cases mem
  · rw [self]
    exact stored
  · rw [self]
    exact pid
  · unfold Delivery.queued
    rw [empty, nothing, extra, stored]
    rfl

theorem nextQueued_taken {r : Tracer × WaitData} (queue : Queued s batch)
    (taken : s.nextQueued o a = some r) :
    ∃ u i w, r = u.deliver o a i ∧ Queued u batch ∧ batch[(u.tcbtab i).waitDataIdx]? = some w ∧
      (u.tcbtab i).pid = w.pid ∧ queued s batch = some w :: queued u batch := by
  unfold nextQueued at taken
  cases pending : s.pendingTcps with
  | cons i rest =>
    obtain ⟨queue, w, stored, pid, split⟩ := takePending_queued queue pending
    rw [pending] at taken
    exact ⟨_, i, w, (Option.some.inj taken).symm, queue, stored, pid, split⟩
  | nil =>
    rw [pending] at taken
    cases extra : s.extraTcp with
    | none =>
      rw [extra] at taken
      cases taken
    | some i =>
      obtain ⟨queue, w, stored, pid, split⟩ := takeExtra_queued queue pending extra
      rw [extra] at taken
      exact ⟨_, i, w, (Option.some.inj taken).symm, queue, stored, pid, split⟩

theorem nextQueued_none (none : s.nextQueued o a = none) :
    s.pendingTcps = [] ∧ s.extraTcp = .none := by
  unfold nextQueued at none
  cases pending : s.pendingTcps with
  | cons i rest => simp [pending] at none
  | nil =>
    grind

theorem callNext_valid (valid : Valid m) : Valid (m.callNext o a) := by
  have delivered := valid.delivered
  unfold Loop.callNext
  split
  · exact ⟨valid.queue, (fun _ waiting => by cases waiting), delivered.right, delivered.once⟩
  · split
    · next taken =>
      obtain ⟨u, i, w, eq, queue, stored, pid, split⟩ := nextQueued_taken valid.queue taken
      obtain ⟨rfl, rfl⟩ := Prod.mk.inj eq
      exact returning_valid queue stored pid delivered.right (split ▸ delivered.once)
    · next none =>
      exact ⟨valid.queue, fun _ _ => nextQueued_none none, delivered.right, delivered.once⟩

theorem afterWait_taken (empty : s.pendingTcps = []) (none : s.extraTcp = none)
    (waited : s.afterWait o a results = some (s', wd, batch)) :
    (wd.te = .next ∧ batch = [] ∧ Queued s' [] ∧ queued s' [] = []) ∨
      ∃ u i w, s' = (u.deliver o a i).1 ∧ wd = (u.deliver o a i).2 ∧ Queued u batch ∧
        batch[(u.tcbtab i).waitDataIdx]? = some w ∧ (u.tcbtab i).pid = w.pid ∧
        batch.map some = some w :: queued u batch := by
  have start : Queued s [] :=
    ⟨by simp [empty], by simp [none], by simp⟩
  have nothing : queued s [] = [] := by
    simp [empty, none, Delivery.queued]
  obtain ⟨⟨u, stored⟩, collected, eq⟩ := Option.map_eq_some_iff.mp waited
  obtain ⟨queue, all, extra⟩ := collect_queued results start none collected
  rw [nothing, nil_append] at all
  rw [nil_append] at queue all
  cases pending : u.pendingTcps with
  | cons i rest =>
    obtain ⟨queue', w, place, pid, split⟩ := takePending_queued queue pending
    simp only [pending] at eq
    obtain ⟨rfl, rfl, rfl⟩ := eq
    exact .inr ⟨_, i, w, rfl, rfl, queue', place, pid, by rw [← all, split]⟩
  | nil =>
    simp only [pending, Prod.mk.injEq] at eq
    obtain ⟨rfl, rfl, rfl⟩ := eq
    have none : u.extraTcp = .none := by
      cases h : u.extraTcp with
      | none => rfl
      | some j => simpa [pending] using extra j h
    rw [queued_of_none none, pending] at all
    obtain rfl : stored = [] := by simpa using all.symm
    refine .inl ⟨rfl, rfl, ⟨?_, ?_, by simp⟩, ?_⟩
    · intro i mem
      exact queue.pending i mem
    · intro i mem
      exact queue.extra i mem
    · dsimp only [storeWaitData]
      rw [pending, none]
      rfl

theorem callWaited_valid {unblocked : Bool} (valid : Valid m)
    (waiting : m.control = .waiting unblocked) : Valid (m.callWaited o a unblocked results) := by
  have delivered := valid.delivered
  obtain ⟨empty, none⟩ := valid.idle unblocked waiting
  have stopped : Valid { m with control := .stopped } :=
    ⟨valid.queue, (fun _ waiting => by cases waiting), delivered.right, delivered.once⟩
  have nothing : queued m.tracer m.batch = [] := by
    simp [queued_of_none none, empty]
  have once := delivered.once
  rw [nothing, append_nil] at once
  unfold Loop.callWaited
  split
  · exact stopped
  · split
    · exact stopped
    · next u wd batch waited =>
      rcases afterWait_taken empty none waited with
        ⟨te, rfl, queue, same⟩ | ⟨v, i, w, rfl, rfl, queue, stored, pid, all⟩
      · rw [if_pos te]
        refine ⟨queue, (fun _ waiting => by cases waiting), delivered.right, ?_⟩
        rw [show queued u [] = [] from same, append_nil, append_nil]
        exact once
      · have te : (v.deliver o a i).2.te ≠ .next := by
          rw [deliver_wd]
          exact (queue.table _ w stored).2
        rw [if_neg te]
        refine returning_valid queue stored pid delivered.right ?_
        rw [once, map_append, all]

theorem Valid.keeps {control : Control} (gone : List Nat) (valid : Valid m)
    (keeps : KeepsQueue gone m.tracer s') (free : ∀ j ∈ gone, Unqueued m.tracer j)
    (idle : ∀ unblocked, control = .waiting unblocked → m.control = .waiting unblocked) :
    Valid { m with tracer := s', control } := by
  obtain ⟨queue, same⟩ := keeps.queued free valid.queue
  refine ⟨queue, ?_, valid.delivered.right, ?_⟩
  · intro unblocked waiting
    obtain ⟨empty, none⟩ := valid.idle unblocked (idle unblocked waiting)
    exact ⟨(keeps.pending (by simp [empty])).trans empty, keeps.extra.trans none⟩
  · simp [same, valid.delivered.once]

theorem callDispatch_valid (valid : Valid m) (ready : m.control = .ready wd)
    (harmless : Harmless o m (.dispatch a)) :
    Valid (m.callDispatch o a wd) := by
  have idle (go : Bool) (unblocked : Bool) :
      (if go then Control.top else .stopped) = .waiting unblocked →
        m.control = .waiting unblocked := by
    cases go <;> simp
  unfold Loop.callDispatch dispatchEvent
  cases current : m.tracer.currentTcp with
  | none => exact valid.keeps [] (KeepsQueue.refl [] _) (by simp) (idle _)
  | some i => exact valid.keeps _ dispatchCurrent_keeps (harmless wd ready i current) (idle _)

theorem step_valid {m' : Loop} {x : Move} (valid : Valid m) (harmless : Harmless o m x)
    (moved : m.step o x = some m') : Valid m' := by
  cases Loop.step_moved moved with
  | next a => exact callNext_valid valid
  | waited a results unblocked waiting => exact callWaited_valid valid waiting
  | dispatch a wd ready => exact callDispatch_valid valid ready harmless
  | expire now => exact valid.keeps [] (.of_eq rfl rfl rfl rfl rfl) (by simp) fun _ => id
  | alarm answers now =>
    exact valid.keeps [] (timerSighandler_keeps answers now) (by simp) fun _ => id
  | interrupt => exact valid.keeps [] (.of_eq rfl rfl rfl rfl rfl) (by simp) fun _ => id

theorem initial_valid (initial : Loop.Initial m) : Valid m := by
  have queue : Queued m.tracer m.batch :=
    ⟨by simp [initial.pending], by simp [initial.extra], by simp [initial.batch]⟩
  refine ⟨queue, fun _ _ => ⟨initial.pending, initial.extra⟩, by simp [initial.returned], ?_⟩
  rw [initial.returned, initial.collected, queued_of_none initial.extra, initial.pending]
  rfl

end

/-- Over every sequence of wait results, dispatches and timer signals, each
status is returned once, with the live tcb that has the pid it was reported
for, if no event drops or renumbers a tcb that has a status queued. -/
theorem statuses_delivered (o : Options) (m : Loop)
    (run : Run Loop.Initial (fun m x m' => m.step o x = some m') (Harmless o) m) : Delivered m :=
  (run.invariant (P := Valid) (fun _ => initial_valid)
    fun _ _ _ valid harmless moved => step_valid valid harmless moved).delivered

/-! ## A thread and its leader -/

/-- Strace following forks, with no filter. -/
def followOptions : Options where
  supportedPersonalities := 1
  auditArchVec _ := ⟨0xc000003e, 0⟩
  nsyscallVec _ := 3
  sysentVec _ _ := {}
  followfork := true

/-- A process with leader 7 and thread 8. -/
def leaderAndThread : Tracer where
  tcbtab i := if i = 0 then { pid := 7 } else if i = 1 then { pid := 8 } else {}
  tcbtabsize := 2
  nprocs := 2

/-- Thread 8 has called execve. -/
def execEvent : Waited where
  pid := 7
  status := 0x4057f
  msg := 8
  positive := by decide
  small := by decide

/-- Pid 7 has been killed. -/
def killed : Waited where
  pid := 7
  status := 9
  positive := by decide
  small := by decide

/-- The loop after its first batch. -/
def firstBatch (results : List Waited) : Loop :=
  Loop.callWaited followOptions {} false results ⟨leaderAndThread, .waiting false, [], [], []⟩

theorem firstBatch_run (ok : Loop → Move → Prop) (results : List Waited)
    (calm : ∀ m x, (∀ a, x ≠ .dispatch a) → ok m x) :
    Run Loop.Initial (fun m x m' => m.step followOptions x = some m') ok (firstBatch results) := by
  have start : Run Loop.Initial (fun m x m' => m.step followOptions x = some m') ok
      ⟨leaderAndThread, .top, [], [], []⟩ := .start ⟨rfl, rfl, rfl, rfl, rfl, rfl⟩
  have waiting := start.next (x := .next {}) (calm _ _ (by simp)) rfl
  exact waiting.next (x := .waited {} results) (calm _ _ (by simp)) rfl

/-- The kill comes in a batch of its own. -/
theorem statuses_delivered_execve : ∃ m : Loop, m.returned.map (fun r => (r.tcb, r.pid)) =
    [(0, 7), (1, 7)] ∧ Delivered m := by
  have calm (m : Loop) (x : Move) (other : ∀ a, x ≠ .dispatch a) : Harmless followOptions m x := by
    cases x with
    | dispatch a => exact absurd rfl (other a)
    | _ => trivial
  have collected := firstBatch_run (Harmless followOptions) [execEvent] calm
  have harmless : Harmless followOptions (firstBatch [execEvent]) (.dispatch {}) :=
    fun _ _ _ _ _ _ => ⟨List.not_mem_nil, nofun⟩
  have dispatched := collected.next harmless rfl
  have waiting := dispatched.next (calm _ (.next {}) (by simp)) rfl
  have again := waiting.next (calm _ (.waited {} [killed]) (by simp)) rfl
  exact ⟨_, by decide, statuses_delivered followOptions _ again⟩

/-- The kill comes in the batch of the execve event: its status is returned with
the tcb of the leader, which the execve event has dropped. -/
theorem killed_after_execve_lost :
    ¬ ∀ (o : Options) (m : Loop),
      Run Loop.Initial (fun m x m' => m.step o x = some m') (fun _ _ => True) m → Delivered m := by
  intro stated
  have collected := firstBatch_run (fun _ _ => True) [execEvent, killed] fun _ _ _ => trivial
  have dispatched := collected.next (x := .dispatch {}) trivial rfl
  have last := dispatched.next (x := .next {}) trivial rfl
  have delivered := stated followOptions _ last
  obtain ⟨w, same, -, pid⟩ := delivered.right ⟨0, 0, { te := .signalled, status := 9 }, some killed⟩
    (List.mem_of_getElem? (i := 1) rfl)
  obtain rfl := Option.some.inj same
  exact absurd pid (by decide)

end Strace.Delivery
