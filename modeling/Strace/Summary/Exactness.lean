import Strace.Summary.CountSyscall

/-! The entries of the summary, kept exact by every call. -/
namespace Strace.Summary
open List Option Function

open Timespec

variable {o : CountOptions} {call : Call} {counted : List Call} {p scno : Nat}

/-! ## One entry -/

variable {t : Timespec} {ts : List Int} {times : Times} {cc : CallCounts} {calls : List Call}
  {bucket : UnknownCallBucket} {i : Nat} {entry : UnknownCallCounts} {memory : Memory}
  {counts : Counts} {used : List UnknownCallCounts} {s : Tracing}

theorem less_overhead (o : CountOptions) (normal : t.Normalized) :
    (tsMax (tsSub t o.overhead.toTimespec) zeroTs).Normalized ∧
      0 ≤ (tsMax (tsSub t o.overhead.toTimespec) zeroTs).ns := by
  have rest := normal_tsSub normal o.overhead.normal
  constructor
  · exact normal_tsMax rest normal_zeroTs
  · rw [ns_tsMax rest normal_zeroTs]
    exact Int.le_max_right ..

theorem wtsNonneg_spec (o : CountOptions) (call : Call) :
    (wtsNonneg o call).Normalized ∧ 0 ≤ (wtsNonneg o call).ns := by
  apply less_overhead
  split
  · exact normal_tsSub call.syscallExitingTs.normal call.etime.normal
  · exact normal_tsSub call.stime.normal call.ltime.normal

theorem wallWtsNonneg_spec (o : CountOptions) (call : Call) :
    (wallWtsNonneg o call).Normalized ∧ 0 ≤ (wallWtsNonneg o call).ns := by
  unfold wallWtsNonneg
  split
  · exact wtsNonneg_spec o call
  · exact less_overhead o (normal_tsSub call.syscallExitingTs.normal call.etime.normal)

theorem normal_maxTs (o : CountOptions) : o.maxTs.Normalized := by
  constructor
  · exact (by decide : (0 : Int) ≤ 999999999)
  · exact (by decide : (999999999 : Int) < 1000000000)

structure Times.Tally (o : CountOptions) (ts : List Int) (times : Times) : Prop where
  total : times.total.ns = ts.sum
  min : times.min.ns = ts.foldr Min.min o.maxTs.ns
  max : times.max.ns = ts.foldr Max.max 0
  normal : times.total.Normalized ∧ times.min.Normalized ∧ times.max.Normalized

theorem Times.Tally.add (tally : times.Tally o ts) (normal : t.Normalized) :
    (times.add t).Tally o (t.ns :: ts) := by
  obtain ⟨normalTotal, normalMin, normalMax⟩ := tally.normal
  constructor
  · rw [sum_cons, Times.add, ns_tsAdd, tally.total, Int.add_comm]
  · rw [foldr_cons, Times.add, ns_tsMin normalMin normal, tally.min, Int.min_comm]
  · rw [foldr_cons, Times.add, ns_tsMax normalMax normal, tally.max, Int.max_comm]
  · exact ⟨normal_tsAdd normalTotal normal, normal_tsMin normalMin normal,
      normal_tsMax normalMax normal⟩

structure CallCounts.Tally (o : CountOptions) (counted : List Call) (cc : CallCounts) : Prop where
  calls : cc.calls.toNat = counted.length
  errors : cc.errors.toNat = counted.countP (·.syserror)
  time : cc.time.Tally o (counted.map fun call => (wtsNonneg o call).ns)
  wall : o.summaryNeedsWall = true →
    cc.wall.Tally o (counted.map fun call => (wallWtsNonneg o call).ns)

theorem toNat_succ_of_lt {n : UInt64} {k : Nat} (eq : n.toNat = k) (lt : k + 1 < 2 ^ 64) :
    (n + 1).toNat = k + 1 := by
  rw [UInt64.toNat_add, eq]
  exact Nat.mod_eq_of_lt lt

theorem CallCounts.Tally.record (tally : cc.Tally o counted) (few : counted.length + 1 < 2 ^ 64)
    (call : Call) :
    (cc.record o call).Tally o (call :: counted) := by
  constructor
  · exact toNat_succ_of_lt tally.calls few
  · have fewer : counted.countP (·.syserror) ≤ counted.length := countP_le_length
    rw [countP_cons]
    cases failed : call.syserror with
    | false =>
      simp only [CallCounts.record, failed]
      exact tally.errors
    | true =>
      simp only [CallCounts.record, failed]
      exact toNat_succ_of_lt tally.errors (by omega)
  · exact tally.time.add (wtsNonneg_spec o call).1
  · intro wall
    simp only [CallCounts.record, wall]
    exact (tally.wall wall).add (wallWtsNonneg_spec o call).1

theorem min?_of_foldr {bound : Int} (nonempty : ts ≠ []) (bounded : ∀ t ∈ ts, t ≤ bound) :
    ts.min? = some (ts.foldr min bound) := by
  rw [min?_eq_some_iff]
  induction ts with
  | nil => exact absurd rfl nonempty
  | cons t ts ih =>
    simp only [foldr_cons, mem_cons, forall_eq_or_imp]
    have head := bounded t (mem_cons_self ..)
    by_cases empty : ts = []
    · subst empty
      simp only [foldr_nil, not_mem_nil, false_implies, implies_true, and_true]
      omega
    · obtain ⟨mem, least⟩ := ih empty fun t mem => bounded t (mem_cons_of_mem _ mem)
      refine ⟨?_, by omega, fun t mem => ?_⟩
      · rcases Int.le_total t (ts.foldr min bound) with le | le
        · exact .inl (Int.min_eq_left le)
        · right
          rwa [Int.min_eq_right le]
      · have := least t mem
        omega

theorem max?_of_foldr (nonempty : ts ≠ []) (bounded : ∀ t ∈ ts, 0 ≤ t) :
    ts.max? = some (ts.foldr max 0) := by
  rw [max?_eq_some_iff]
  induction ts with
  | nil => exact absurd rfl nonempty
  | cons t ts ih =>
    simp only [foldr_cons, mem_cons, forall_eq_or_imp]
    have head := bounded t (mem_cons_self ..)
    by_cases empty : ts = []
    · subst empty
      simp only [foldr_nil, not_mem_nil, false_implies, implies_true, and_true]
      omega
    · obtain ⟨mem, greatest⟩ := ih empty fun t mem => bounded t (mem_cons_of_mem _ mem)
      refine ⟨?_, by omega, fun t mem => ?_⟩
      · rcases Int.le_total t (ts.foldr max 0) with le | le
        · right
          rwa [Int.max_eq_right le]
        · exact .inl (Int.max_eq_left le)
      · have := greatest t mem
        omega

theorem Times.Tally.exact (tally : times.Tally o ts) (bounded : ∀ t ∈ ts, 0 ≤ t ∧ t ≤ o.maxTs.ns) :
    times.Exact ts := by
  constructor
  · exact tally.total
  · intro nonempty
    rw [tally.min, min?_of_foldr nonempty fun t mem => (bounded t mem).2]
  · intro nonempty
    rw [tally.max, max?_of_foldr nonempty fun t mem => (bounded t mem).1]

def Bounded (o : CountOptions) (call : Call) : Prop :=
  (wtsNonneg o call).ns ≤ o.maxTs.ns ∧
    (o.summaryNeedsWall = true → (wallWtsNonneg o call).ns ≤ o.maxTs.ns)

theorem CallCounts.Tally.exact (tally : cc.Tally o counted)
    (bounded : ∀ call ∈ counted, Bounded o call) : cc.Exact o counted := by
  constructor
  · exact tally.calls
  · exact tally.errors
  · apply tally.time.exact
    intro t mem
    obtain ⟨call, counts, rfl⟩ := mem_map.mp mem
    exact ⟨(wtsNonneg_spec o call).2, (bounded call counts).1⟩
  · intro wall
    apply (tally.wall wall).exact
    intro t mem
    obtain ⟨call, counts, rfl⟩ := mem_map.mp mem
    exact ⟨(wallWtsNonneg_spec o call).2, (bounded call counts).2 wall⟩

/-- A slot without calls. -/
def CallCounts.Clean (o : CountOptions) (cc : CallCounts) : Prop :=
  cc.calls = 0 ∧ cc.errors = 0 ∧ (cc.time.total = zeroTs ∧ cc.time.max = zeroTs) ∧
    (o.summaryNeedsWall = true → cc.wall.total = zeroTs ∧ cc.wall.max = zeroTs)

theorem Times.tally_clean (clean : times.total = zeroTs ∧ times.max = zeroTs) :
    ({ times with min := o.maxTs } : Times).Tally o [] := by
  obtain ⟨total, max⟩ := clean
  constructor
  · rw [total]
    rfl
  · rfl
  · rw [max]
    rfl
  · rw [total, max]
    exact ⟨normal_zeroTs, normal_maxTs o, normal_zeroTs⟩

theorem CallCounts.Clean.tally (clean : cc.Clean o) : (unknownInitSlot o cc).Tally o [] := by
  obtain ⟨calls, errors, time, wall⟩ := clean
  constructor
  · rw [unknownInitSlot, calls]
    rfl
  · rw [unknownInitSlot, errors]
    rfl
  · exact Times.tally_clean time
  · intro needed
    simp only [unknownInitSlot, needed]
    exact Times.tally_clean (wall needed)

theorem clean_zeroCounts (o : CountOptions) : zeroCounts.Clean o :=
  ⟨rfl, rfl, ⟨rfl, rfl⟩, fun _ => ⟨rfl, rfl⟩⟩

/-! ## The entries of one personality -/

theorem callsOf_cons_self (calls : List Call) (call : Call) :
    callsOf (call :: calls) call.currentPersonality call.scno =
      call :: callsOf calls call.currentPersonality call.scno :=
  filter_cons_of_pos (by simp)

theorem callsOf_cons_other (other : ¬(call.currentPersonality = p ∧ call.scno = scno)) :
    callsOf (call :: calls) p scno = callsOf calls p scno :=
  filter_cons_of_neg (by simpa using other)

/-- The used part of a bucket. -/
structure Ledger (o : CountOptions) (calls : List Call) (p : Nat)
    (used : List UnknownCallCounts) : Prop where
  distinct : (used.map (·.scno)).Nodup
  unknown : ∀ entry ∈ used, o.nsyscallVec p ≤ entry.scno
  tally : ∀ entry ∈ used, entry.callCounts.Tally o (callsOf calls p entry.scno)
  missing : ∀ scno, o.nsyscallVec p ≤ scno → scno ∉ used.map (·.scno) → callsOf calls p scno = []

namespace Ledger

variable {calls : List Call} {used : List UnknownCallCounts}

variable (ledger : Ledger o calls p used)
include ledger

theorem other
    (other : call.currentPersonality ≠ p ∨ call.scno < o.nsyscallVec p) :
    Ledger o (call :: calls) p used := by
  have same : ∀ scno, o.nsyscallVec p ≤ scno →
      callsOf (call :: calls) p scno = callsOf calls p scno := by
    intro scno unknown
    apply callsOf_cons_other
    rintro ⟨rfl, rfl⟩
    rcases other with ne | known
    · exact ne rfl
    · omega
  constructor
  · exact ledger.distinct
  · exact ledger.unknown
  · intro entry mem
    rw [same entry.scno (ledger.unknown entry mem)]
    exact ledger.tally entry mem
  · intro scno unknown absent
    rw [same scno unknown]
    exact ledger.missing scno unknown absent

theorem insert {cc : CallCounts}
    (unknown : o.nsyscallVec p ≤ scno) (absent : scno ∉ used.map (·.scno)) (empty : cc.Tally o []) :
    Ledger o calls p (used ++ [⟨scno, cc⟩]) := by
  constructor
  · rw [map_append, nodup_append]
    refine ⟨ledger.distinct, nodup_singleton _, ?_⟩
    rintro n mem _ (_ | _) rfl
    · exact absent mem
    · contradiction
  · intro entry mem
    rcases mem_append.mp mem with mem | mem
    · exact ledger.unknown entry mem
    · rw [mem_singleton.mp mem]
      exact unknown
  · intro entry mem
    rcases mem_append.mp mem with mem | mem
    · exact ledger.tally entry mem
    · rw [mem_singleton.mp mem, ledger.missing scno unknown absent]
      exact empty
  · intro scno' unknown' absent'
    apply ledger.missing scno' unknown'
    intro mem
    apply absent'
    rw [map_append]
    exact mem_append_left _ mem

theorem record {i : Nat} {entry : UnknownCallCounts}
    (found : used[i]? = some entry) (same : entry.scno = call.scno)
    (here : call.currentPersonality = p) (few : (callsOf calls p call.scno).length + 1 < 2 ^ 64) :
    Ledger o (call :: calls) p (used.modify i fun entry =>
      { entry with callCounts := entry.callCounts.record o call }) := by
  subst here
  have keys : (used.modify i fun entry =>
      { entry with callCounts := entry.callCounts.record o call }).map (·.scno) =
      used.map (·.scno) := by
    apply List.ext_getElem?
    intro j
    simp only [List.getElem?_map, List.getElem?_modify]
    cases used[j]? with
    | none => rfl
    | some other =>
      by_cases eq : i = j <;> simp [eq]
  have entries : ∀ other ∈ used.modify i (fun entry =>
      { entry with callCounts := entry.callCounts.record o call }),
      other = { entry with callCounts := entry.callCounts.record o call } ∨
        other ∈ used ∧ other.scno ≠ call.scno := by
    intro other mem
    obtain ⟨j, at_j⟩ := List.mem_iff_getElem?.mp mem
    rw [List.getElem?_modify] at at_j
    by_cases eq : i = j
    · subst eq
      rw [found] at at_j
      simp only [Option.map_eq_map, Option.map_some, Option.some.injEq] at at_j
      exact .inl at_j.symm
    · simp only [eq, if_false, Option.map_eq_map, Option.map_id'] at at_j
      refine .inr ⟨List.mem_of_getElem? at_j, ?_⟩
      -- another place with this number would be the same place
      intro again
      have key : (used.map (·.scno))[i]? = some call.scno := by
        rw [List.getElem?_map, found, Option.map_some, same]
      have key' : (used.map (·.scno))[j]? = some call.scno := by
        rw [List.getElem?_map, at_j, Option.map_some, again]
      exact eq ((List.getElem?_inj (List.getElem?_eq_some_iff.mp key).1 ledger.distinct).mp
        (key.trans key'.symm))
  have counted := callsOf_cons_self calls call
  constructor
  · rw [keys]
    exact ledger.distinct
  · intro other mem
    rcases entries other mem with rfl | ⟨mem, -⟩
    · exact ledger.unknown entry (List.mem_of_getElem? found)
    · exact ledger.unknown other mem
  · intro other mem
    rcases entries other mem with rfl | ⟨mem, ne⟩
    · have tally := ledger.tally entry (List.mem_of_getElem? found)
      rw [same] at tally
      simp only [same, counted]
      exact tally.record few call
    · rw [callsOf_cons_other fun this => ne this.2.symm]
      exact ledger.tally other mem
  · intro scno unknown absent
    rw [keys] at absent
    have ne : call.scno ≠ scno := by
      rintro rfl
      exact absent (List.mem_map.mpr ⟨entry, List.mem_of_getElem? found, same⟩)
    rw [callsOf_cons_other fun this => ne this.2]
    exact ledger.missing scno unknown absent

end Ledger

/-! ## The slots of a bucket -/

theorem clean_unknownInitSlot (clean : (unknownInitSlot o cc).Clean o) : cc.Clean o := by
  obtain ⟨calls, errors, time, wall⟩ := clean
  refine ⟨calls, errors, time, fun needed => ?_⟩
  simpa only [unknownInitSlot, needed, if_true] using wall needed

structure Slots (o : CountOptions) (bucket : UnknownCallBucket) : Prop where
  fits : bucket.len ≤ bucket.entries.length
  room : unknownCountsEntries ≤ bucket.entries.length
  free : ∀ i entry, bucket.entries[i]? = some entry → bucket.len ≤ i →
    ∃ cc, entry.callCounts = unknownInitSlot o cc ∧ (i < unknownCountsEntries → cc.Clean o)

theorem slots_unknownInit {bucket : Option UnknownCallBucket}
    (slots : ∀ b, bucket = some b → Slots o b) : Slots o (unknownInit o bucket) := by
  cases bucket with
  | some b => exact slots b rfl
  | none =>
    constructor
    · exact Nat.zero_le _
    · exact Nat.le_of_eq (length_replicate ..).symm
    · intro i entry found _
      rw [unknownInit, getElem?_replicate] at found
      split at found
      · cases found
        exact ⟨zeroCounts, rfl, fun _ => clean_zeroCounts o⟩
      · cases found

theorem Slots.grow (slots : Slots o bucket) (memory : Memory) :
    Slots o (bucket.grow o memory) ∧ bucket.len < (bucket.grow o memory).entries.length := by
  obtain ⟨fits, room, free⟩ := slots
  unfold UnknownCallBucket.grow
  split
  next full =>
    have some : 0 < unknownCountsEntries := by decide
    have length : (bucket.entries ++ reallocated o memory bucket.entries.length).length =
        bucket.entries.length + bucket.entries.length := by
      rw [reallocated, length_append, length_map, length_range]
    refine ⟨⟨?_, ?_, ?_⟩, ?_⟩
    · simp only [length]
      omega
    · simp only [length]
      omega
    · intro i entry found after
      have after := full ▸ after
      rw [getElem?_append_right after, reallocated, getElem?_map] at found
      obtain ⟨j, -, rfl⟩ := map_eq_some_iff.mp found
      exact ⟨(memory j).callCounts, rfl, fun first => by omega⟩
    · simp only [length]
      omega
  next => exact ⟨⟨fits, room, free⟩, by omega⟩

theorem used_grow (fits : bucket.len ≤ bucket.entries.length) (memory : Memory) :
    (bucket.grow o memory).used = bucket.used := by
  unfold UnknownCallBucket.grow
  split
  · exact take_append_of_le_length fits
  · rfl

theorem len_grow (bucket : UnknownCallBucket) (memory : Memory) :
    (bucket.grow o memory).len = bucket.len := by
  unfold UnknownCallBucket.grow
  split <;> rfl

theorem Slots.takeSlot (slots : Slots o bucket) {slot : UnknownCallCounts}
    (found : bucket.entries[bucket.len]? = some slot) (scno : Nat) :
    Slots o (bucket.takeSlot scno) ∧
      (bucket.takeSlot scno).used = bucket.used ++ [⟨scno, slot.callCounts⟩] := by
  obtain ⟨inside, rfl⟩ := List.getElem?_eq_some_iff.mp found
  refine ⟨⟨?_, ?_, ?_⟩, ?_⟩
  · rw [UnknownCallBucket.takeSlot, List.length_modify]
    exact inside
  · simpa only [UnknownCallBucket.takeSlot, List.length_modify] using slots.room
  · intro i entry taken after
    have after : bucket.len + 1 ≤ i := after
    have other : bucket.len ≠ i := by omega
    simp only [UnknownCallBucket.takeSlot, List.getElem?_modify, other, if_false, Option.map_eq_map,
      Option.map_id'] at taken
    exact slots.free i entry taken (by omega)
  · simp only [UnknownCallBucket.used, UnknownCallBucket.takeSlot]
    apply List.ext_getElem?
    intro i
    rw [List.getElem?_take, List.getElem?_append, List.length_take,
      Nat.min_eq_left (Nat.le_of_lt inside)]
    rcases Nat.lt_trichotomy i bucket.len with lt | rfl | gt
    · have other : bucket.len ≠ i := by omega
      simp [lt, other, Nat.lt_succ_of_lt lt]
    · simp [List.getElem?_eq_getElem inside]
    · have after : ¬i < bucket.len + 1 := by omega
      have rest : i - bucket.len ≠ 0 := by omega
      simp [after, Nat.not_lt_of_gt gt, rest]

theorem Slots.record (slots : Slots o bucket) (inside : i < bucket.len) (call : Call) :
    Slots o (bucket.record o call i) ∧
      (bucket.record o call i).used = bucket.used.modify i fun entry =>
        { entry with callCounts := entry.callCounts.record o call } := by
  refine ⟨⟨?_, ?_, ?_⟩, ?_⟩
  · simpa only [UnknownCallBucket.record, List.length_modify] using slots.fits
  · simpa only [UnknownCallBucket.record, List.length_modify] using slots.room
  · intro j entry found after
    have other : i ≠ j := by
      have : bucket.len ≤ j := after
      omega
    simp only [UnknownCallBucket.record, List.getElem?_modify, other, if_false, Option.map_eq_map,
      Option.map_id'] at found
    exact slots.free j entry found after
  · simp only [UnknownCallBucket.used, UnknownCallBucket.record]
    apply List.ext_getElem?
    intro j
    simp only [List.getElem?_take, List.getElem?_modify]
    split <;> simp

/-! ## Finding and inserting a number -/

def usedOf (bucket : Option UnknownCallBucket) : List UnknownCallCounts :=
  bucket.elim [] (·.used)

theorem usedOf_unknownInit (bucket : Option UnknownCallBucket) :
    (unknownInit o bucket).used = usedOf bucket := by
  cases bucket <;> rfl

theorem getUnknownByScno_eq (scno : Nat) (bucket : Option UnknownCallBucket) :
    getUnknownByScno scno bucket =
      (usedOf bucket).findIdx? fun entry => decide (entry.scno = scno) := by
  cases bucket <;> rfl

theorem getUnknownByScno_some (found : getUnknownByScno scno (some bucket) = some i) :
    ∃ entry, bucket.used[i]? = some entry ∧ entry.scno = scno := by
  rw [getUnknownByScno_eq, findIdx?_eq_some_iff_getElem] at found
  obtain ⟨inside, same, -⟩ := found
  exact ⟨_, getElem?_eq_getElem inside, of_decide_eq_true same⟩

theorem getUnknownByScno_none {bucket : Option UnknownCallBucket}
    (missing : getUnknownByScno scno bucket = none) : scno ∉ (usedOf bucket).map (·.scno) := by
  rw [getUnknownByScno_eq, findIdx?_eq_none_iff] at missing
  intro mem
  obtain ⟨entry, mem, same⟩ := mem_map.mp mem
  have other := missing entry mem
  rw [decide_eq_false_iff_not] at other
  exact other same

theorem getUnknownByScno_isSome (mem : entry ∈ bucket.used) (same : entry.scno = scno) :
    (getUnknownByScno scno (some bucket)).isSome = true := by
  rw [isSome_iff_ne_none]
  intro missing
  exact getUnknownByScno_none missing (mem_map.mpr ⟨entry, mem, same⟩)

/-- The slot that a new number takes counts from zero. This is more than is needed: a `time_max`
that the first call exceeds would do no harm. -/
def SlotClean (o : CountOptions) (memory : Memory) (scno : Nat)
    (bucket : Option UnknownCallBucket) : Prop :=
  getUnknownByScno scno bucket = none → ∀ b, bucket = some b → unknownCountsEntries ≤ b.len →
    ∀ slot, (b.grow o memory).entries[b.len]? = some slot → slot.callCounts.Clean o

theorem unknownInsert_spec {bucket : Option UnknownCallBucket}
    (slots : ∀ b, bucket = some b → Slots o b) (ledger : Ledger o calls p (usedOf bucket))
    (unknown : o.nsyscallVec p ≤ scno) (clean : SlotClean o memory scno bucket) :
    ∃ b i, unknownInsert o memory scno bucket = some b ∧ Slots o b ∧ Ledger o calls p b.used ∧
      getUnknownByScno scno (some b) = some i := by
  cases found : getUnknownByScno scno bucket with
  | some i =>
    cases bucket with
    | none => cases found
    | some b =>
      refine ⟨b, i, ?_, slots b rfl, ledger, found⟩
      rw [unknownInsert, found]
      rfl
  | none =>
    have absent := getUnknownByScno_none found
    have start := slots_unknownInit slots
    obtain ⟨grown, inside⟩ := start.grow memory
    obtain ⟨slot, taken⟩ : ∃ slot, ((unknownInit o bucket).grow o memory).entries[
        (unknownInit o bucket).len]? = some slot := ⟨_, getElem?_eq_getElem inside⟩
    obtain ⟨cc, set, first⟩ := grown.free _ slot taken (Nat.le_of_eq (len_grow ..))
    have empty : slot.callCounts.Tally o [] := by
      rw [set]
      apply CallCounts.Clean.tally
      by_cases early : (unknownInit o bucket).len < unknownCountsEntries
      · exact first early
      · cases bucket with
        | none => exact absurd (by decide : 0 < unknownCountsEntries) early
        | some b =>
          apply clean_unknownInitSlot
          rw [← set]
          exact clean found b rfl (Nat.le_of_not_lt early) slot taken
    rw [← len_grow (unknownInit o bucket) memory] at taken
    obtain ⟨slots', used⟩ := grown.takeSlot taken scno
    rw [used_grow start.fits, usedOf_unknownInit] at used
    have ledger' := ledger.insert unknown absent empty
    rw [← used] at ledger'
    have here : (⟨scno, slot.callCounts⟩ : UnknownCallCounts) ∈
        (((unknownInit o bucket).grow o memory).takeSlot scno).used := by
      rw [used]
      exact mem_append_right _ (mem_singleton_self _)
    obtain ⟨i, place⟩ := isSome_iff_exists.mp (getUnknownByScno_isSome here rfl)
    refine ⟨_, i, ?_, slots', ledger', place⟩
    rw [unknownInsert, found]
    rfl

/-! ## Every run -/

def NoOverflow (o : CountOptions) (calls : List Call) (call : Call) : Prop :=
  let earlier := callsOf calls call.currentPersonality call.scno
  earlier.length + 1 < 2 ^ 64 ∧
    (earlier.map fun call => (wtsNonneg o call).ns).sum + (wtsNonneg o call).ns ≤ o.maxTs.ns ∧
    (o.summaryNeedsWall = true →
      (earlier.map fun call => (wallWtsNonneg o call).ns).sum + (wallWtsNonneg o call).ns ≤
        o.maxTs.ns)

theorem sum_nonneg {α : Type} {f : α → Int} (nonneg : ∀ a, 0 ≤ f a) (l : List α) :
    0 ≤ (l.map f).sum := by
  induction l with
  | nil => exact Int.le_refl 0
  | cons a l ih =>
    exact Int.add_nonneg (nonneg a) ih

theorem NoOverflow.bounded (fits : NoOverflow o calls call) : Bounded o call := by
  obtain ⟨-, time, wall⟩ := fits
  constructor
  · have := sum_nonneg (fun call => (wtsNonneg_spec o call).2)
      (callsOf calls call.currentPersonality call.scno)
    omega
  · intro needed
    have := sum_nonneg (fun call => (wallWtsNonneg_spec o call).2)
      (callsOf calls call.currentPersonality call.scno)
    have := wall needed
    omega

structure KeptAt (o : CountOptions) (calls : List Call) (p : Nat) (table : Option (List CallCounts))
    (bucket : Option UnknownCallBucket) : Prop where
  length : (allocCounts o p table).length = o.nsyscallVec p
  tally : ∀ scno (cc : CallCounts), (allocCounts o p table)[scno]? = some cc →
    cc.Tally o (callsOf calls p scno)
  slots : ∀ b, bucket = some b → Slots o b
  ledger : Ledger o calls p (usedOf bucket)

namespace KeptAt

variable {calls : List Call} {table : Option (List CallCounts)} {bucket : Option UnknownCallBucket}

theorem start (o : CountOptions) (p : Nat) : KeptAt o [] p none none := by
  constructor
  · exact length_replicate
  · intro scno cc found
    rw [allocCounts, getElem?_replicate] at found
    split at found
    · cases found
      exact (clean_zeroCounts o).tally
    · cases found
  · intro b eq
    cases eq
  · constructor
    · exact nodup_nil
    · intro entry mem
      cases mem
    · intro entry mem
      cases mem
    · intro scno _ _
      rfl

theorem other (kept : KeptAt o calls p table bucket) (other : call.currentPersonality ≠ p) :
    KeptAt o (call :: calls) p table bucket := by
  constructor
  · exact kept.length
  · intro scno cc found
    rw [callsOf_cons_other fun this => other this.1]
    exact kept.tally scno cc found
  · exact kept.slots
  · exact kept.ledger.other (.inl other)

theorem known (kept : KeptAt o calls call.currentPersonality table bucket)
    (few : NoOverflow o calls call) (known : call.scno < o.nsyscallVec call.currentPersonality) :
    KeptAt o (call :: calls) call.currentPersonality
      (some ((allocCounts o call.currentPersonality table).modify call.scno (·.record o call)))
      bucket := by
  constructor
  · exact (length_modify ..).trans kept.length
  · intro scno cc found
    rw [allocCounts, getElem?_modify] at found
    obtain ⟨before, there, rfl⟩ := map_eq_some_iff.mp found
    have tally := kept.tally scno before there
    by_cases here : call.scno = scno
    · subst here
      rw [if_pos rfl, callsOf_cons_self]
      exact tally.record few.1 call
    · rw [if_neg here, callsOf_cons_other fun this => here this.2]
      exact tally
  · exact kept.slots
  · exact kept.ledger.other (.inr known)

theorem unknown (kept : KeptAt o calls call.currentPersonality table bucket)
    (few : NoOverflow o calls call) (unknown : o.nsyscallVec call.currentPersonality ≤ call.scno)
    {memory : Memory} (clean : SlotClean o memory call.scno bucket) :
    ∃ b i, unknownInsert o memory call.scno bucket = some b ∧
      getUnknownByScno call.scno (some b) = some i ∧
      KeptAt o (call :: calls) call.currentPersonality
        (some (allocCounts o call.currentPersonality table)) (some (b.record o call i)) := by
  obtain ⟨b, i, inserted, slots, ledger, place⟩ :=
    unknownInsert_spec kept.slots kept.ledger unknown clean
  obtain ⟨entry, found, same⟩ := getUnknownByScno_some place
  have inside : i < b.len := by
    have inside := (List.getElem?_eq_some_iff.mp found).1
    rw [UnknownCallBucket.used, List.length_take] at inside
    omega
  obtain ⟨slots', used⟩ := slots.record inside call
  refine ⟨b, i, inserted, place, ?_⟩
  constructor
  · exact kept.length
  · intro scno cc found
    have known := (List.getElem?_eq_some_iff.mp found).1
    rw [allocCounts, kept.length] at known
    rw [callsOf_cons_other fun this => by omega]
    exact kept.tally scno cc found
  · rintro _ ⟨⟩
    exact slots'
  · have ledger' := ledger.record found same rfl few.1
    rw [← used] at ledger'
    exact ledger'

end KeptAt

structure Kept (o : CountOptions) (calls : List Call) (counts : Counts) : Prop where
  bounded : ∀ call ∈ calls, Bounded o call
  at_each : ∀ p, KeptAt o calls p (counts.countv p) (counts.unknownCountv p)

def Orderly (o : CountOptions) (memory : Memory) (call : Call) (calls : List Call)
    (counts : Counts) : Prop :=
  NoOverflow o calls call ∧
    (o.nsyscallVec call.currentPersonality ≤ call.scno →
      SlotClean o memory call.scno (counts.unknownCountv call.currentPersonality))

theorem countSyscall_unknown {b : UnknownCallBucket}
    (unknown : o.nsyscallVec call.currentPersonality ≤ call.scno)
    (inserted : unknownInsert o memory call.scno (counts.unknownCountv call.currentPersonality) =
      some b) (place : getUnknownByScno call.scno (some b) = some i) :
    countSyscall o memory call counts = some
      { countv := Function.update counts.countv call.currentPersonality
          (some (allocCounts o call.currentPersonality (counts.countv call.currentPersonality)))
        unknownCountv := Function.update counts.unknownCountv call.currentPersonality
          (some (b.record o call i)) } := by
  simp only [countSyscall, Nat.not_lt.mpr unknown, if_false, inserted, place, map_some]

theorem Kept.countSyscall (kept : Kept o calls counts)
    (orderly : Orderly o memory call calls counts) :
    ∃ counts', countSyscall o memory call counts = some counts' ∧
      Kept o (call :: calls) counts' := by
  obtain ⟨few, clean⟩ := orderly
  have bounded : ∀ other ∈ call :: calls, Bounded o other := by
    intro other mem
    rcases mem_cons.mp mem with rfl | mem
    · exact few.bounded
    · exact kept.bounded other mem
  have here := kept.at_each call.currentPersonality
  by_cases known : call.scno < o.nsyscallVec call.currentPersonality
  · refine ⟨_, if_pos known, bounded, fun p => ?_⟩
    by_cases eq : p = call.currentPersonality
    · subst eq
      simp only [update_self]
      exact here.known few known
    · simp only [update_of_ne eq]
      exact (kept.at_each p).other (Ne.symm eq)
  · have unknown := Nat.le_of_not_lt known
    obtain ⟨b, i, inserted, place, here'⟩ := here.unknown few unknown (clean unknown)
    refine ⟨_, countSyscall_unknown unknown inserted place, bounded, fun p => ?_⟩
    by_cases eq : p = call.currentPersonality
    · subst eq
      simp only [update_self]
      exact here'
    · simp only [update_of_ne eq]
      exact (kept.at_each p).other (Ne.symm eq)

theorem filter_key (distinct : (used.map (·.scno)).Nodup) (mem : entry ∈ used) :
    (used.filter fun other => other.scno = entry.scno) = [entry] := by
  induction used with
  | nil => cases mem
  | cons other rest ih =>
    rw [map_cons, nodup_cons] at distinct
    rcases mem_cons.mp mem with rfl | mem
    · rw [filter_cons_of_pos (by simp)]
      congr 1
      apply filter_eq_nil_iff.mpr
      intro other mem same
      apply distinct.1
      rw [← of_decide_eq_true same]
      exact mem_map_of_mem mem
    · have ne : other.scno ≠ entry.scno := by
        intro same
        apply distinct.1
        rw [same]
        exact mem_map_of_mem mem
      rw [filter_cons_of_neg (by simpa using ne)]
      exact ih distinct.2 mem

theorem filter_absent (absent : scno ∉ used.map (·.scno)) :
    (used.filter fun entry => entry.scno = scno) = [] := by
  apply filter_eq_nil_iff.mpr
  intro entry mem same
  apply absent
  rw [← of_decide_eq_true same]
  exact mem_map_of_mem mem

theorem entriesOf_eq (counts : Counts) (p scno : Nat) :
    counts.entriesOf p scno = ((counts.countv p).bind (·[scno]?)).toList ++
      ((usedOf (counts.unknownCountv p)).filter fun entry => entry.scno = scno).map
        (·.callCounts) := by
  unfold Counts.entriesOf
  cases counts.unknownCountv p <;> rfl

section

variable {calls : List Call} {counts : Counts} {table : Option (List CallCounts)}
  {bucket : Option UnknownCallBucket}

theorem KeptAt.entries_known (kept : KeptAt o calls p table bucket)
    (known : scno < o.nsyscallVec p) :
    ((usedOf bucket).filter fun entry => entry.scno = scno) = [] ∧
      ((table.bind (·[scno]?)).toList = [] ∧ callsOf calls p scno = [] ∨
        ∃ cc, (table.bind (·[scno]?)).toList = [cc] ∧ cc.Tally o (callsOf calls p scno)) := by
  constructor
  · apply filter_absent
    intro mem
    obtain ⟨entry, used, rfl⟩ := mem_map.mp mem
    have := kept.ledger.unknown entry used
    omega
  · have inside := kept.length ▸ known
    have tally := kept.tally scno _ (getElem?_eq_getElem inside)
    cases table with
    | none =>
      left
      refine ⟨rfl, length_eq_zero_iff.mp ?_⟩
      rw [← tally.calls]
      simp only [allocCounts, getElem_replicate]
      rfl
    | some table =>
      right
      refine ⟨_, ?_, tally⟩
      exact congrArg Option.toList (getElem?_eq_getElem inside)

theorem KeptAt.entries_unknown (kept : KeptAt o calls p table bucket)
    (unknown : o.nsyscallVec p ≤ scno) :
    (table.bind (·[scno]?)).toList = [] ∧
      (((usedOf bucket).filter fun entry => entry.scno = scno) = [] ∧ callsOf calls p scno = [] ∨
        ∃ entry, ((usedOf bucket).filter fun entry => entry.scno = scno) = [entry] ∧
          entry.callCounts.Tally o (callsOf calls p scno)) := by
  constructor
  · cases table with
    | none => rfl
    | some table =>
      have length := kept.length
      rw [bind_some, getElem?_eq_none (length ▸ unknown)]
      rfl
  · by_cases absent : scno ∈ (usedOf bucket).map (·.scno)
    · right
      obtain ⟨entry, mem, rfl⟩ := mem_map.mp absent
      exact ⟨entry, filter_key kept.ledger.distinct mem, kept.ledger.tally entry mem⟩
    · left
      exact ⟨filter_absent absent, kept.ledger.missing scno unknown absent⟩

theorem Kept.entriesOf (kept : Kept o calls counts) (p scno : Nat) :
    counts.entriesOf p scno = [] ∧ callsOf calls p scno = [] ∨
      ∃ cc, counts.entriesOf p scno = [cc] ∧ cc.Exact o (callsOf calls p scno) := by
  have bounded : ∀ call ∈ callsOf calls p scno, Bounded o call :=
    fun call mem => kept.bounded call (mem_filter.mp mem).1
  rw [entriesOf_eq]
  rcases Nat.lt_or_ge scno (o.nsyscallVec p) with known | unknown
  · obtain ⟨bucket, ⟨table, never⟩ | ⟨cc, table, tally⟩⟩ := (kept.at_each p).entries_known known
    · left
      rw [bucket, table]
      exact ⟨rfl, never⟩
    · right
      rw [bucket, table]
      exact ⟨cc, rfl, tally.exact bounded⟩
  · obtain ⟨table, ⟨bucket, never⟩ | ⟨entry, bucket, tally⟩⟩ :=
      (kept.at_each p).entries_unknown unknown
    · left
      rw [bucket, table]
      exact ⟨rfl, never⟩
    · right
      rw [bucket, table]
      exact ⟨entry.callCounts, rfl, tally.exact bounded⟩

end

structure Tracing where
  calls : List Call := []
  counts : Counts := {}

def Tracing.Initial (s : Tracing) : Prop := s = {}

def Tracing.Step (o : CountOptions) (s : Tracing) (x : Call × Memory) (s' : Tracing) : Prop :=
  s'.calls = x.1 :: s.calls ∧ countSyscall o x.2 x.1 s.counts = some s'.counts

def Tracing.Proper (o : CountOptions) (s : Tracing) (x : Call × Memory) : Prop :=
  Orderly o x.2 x.1 s.calls s.counts

open Runs in
theorem Tracing.kept (run : Run Tracing.Initial (Tracing.Step o) (Tracing.Proper o) s) :
    Kept o s.calls s.counts := by
  apply run.invariant (P := fun s => Kept o s.calls s.counts)
  · rintro _ rfl
    constructor
    · intro call mem
      cases mem
    · intro p
      exact .start o p
  · rintro s x s' kept orderly ⟨counted, step⟩
    obtain ⟨counts', eq, kept'⟩ := kept.countSyscall orderly
    rw [eq] at step
    cases step
    rw [counted]
    exact kept'

open Runs in
/-- In every run whose calls find clean slots and overflow no counter, a number that was called
has one entry, and an entry has exactly what the calls of its number add up to. -/
theorem summary_exact (o : CountOptions) {s : Tracing}
    (run : Run Tracing.Initial (Tracing.Step o) (Tracing.Proper o) s) :
    (∀ p scno, callsOf s.calls p scno ≠ [] → ∃ cc, s.counts.entriesOf p scno = [cc]) ∧
    (∀ p scno, ∀ cc ∈ s.counts.entriesOf p scno, cc.Exact o (callsOf s.calls p scno)) ∧
    (∀ x, Tracing.Proper o s x → (countSyscall o x.2 x.1 s.counts).isSome = true) := by
  have kept := Tracing.kept run
  refine ⟨?_, ?_, ?_⟩
  · intro p scno counted
    rcases kept.entriesOf p scno with ⟨-, never⟩ | ⟨cc, entry, -⟩
    · exact absurd never counted
    · exact ⟨cc, entry⟩
  · intro p scno cc mem
    rcases kept.entriesOf p scno with ⟨empty, -⟩ | ⟨cc', entry, exact'⟩
    · rw [empty] at mem
      cases mem
    · rw [entry, List.mem_singleton] at mem
      rw [mem]
      exact exact'
  · intro x proper
    obtain ⟨counts', eq, -⟩ := kept.countSyscall proper
    rw [eq]
    rfl

/-! ## Seventeen unknown numbers -/

def idle : Clock := ⟨zeroTs, normal_zeroTs, by decide⟩

def oneKnown : CountOptions :=
  { nsyscallVec := fun _ => 1, countWallclock := true, summaryNeedsWall := false
    overhead := idle, timeMax := 2 ^ 63 - 1 }

/-- A call that takes some seconds. -/
def timed (scno : Nat) (seconds : Fin 60) (failed : Bool) : Call :=
  { currentPersonality := 0, scno := scno, syserror := failed
    syscallExitingTs :=
      { sec := seconds, nsec := 0, normal := (by decide : (0 : Int) ≤ 0 ∧ (0 : Int) < 1000000000)
        small := ⟨Int.natCast_nonneg _, Int.lt_trans (Int.ofNat_lt.mpr seconds.isLt) (by decide)⟩ }
    etime := idle, stime := idle, ltime := idle }

def countAll (o : CountOptions) (memory : Memory) (ok : Tracing → Call × Memory → Prop)
    [∀ s x, Decidable (ok s x)] : List Call → Tracing → Option Tracing
  | [], s => some s
  | call :: rest, s =>
    if ok s (call, memory) then
      (countSyscall o memory call s.counts).bind fun counts =>
        countAll o memory ok rest ⟨call :: s.calls, counts⟩
    else none

open Runs in
theorem run_countAll {ok : Tracing → Call × Memory → Prop} [∀ s x, Decidable (ok s x)]
    {todo : List Call} {s' : Tracing} (run : Run Tracing.Initial (Tracing.Step o) ok s)
    (all : countAll o memory ok todo s = some s') : Run Tracing.Initial (Tracing.Step o) ok s' := by
  induction todo generalizing s with
  | nil =>
    cases all
    exact run
  | cons call rest ih =>
    unfold countAll at all
    split at all
    · next proper =>
      obtain ⟨counts, step, all⟩ := bind_eq_some_iff.mp all
      exact ih (.next (x := (call, memory)) run proper ⟨rfl, step⟩) all
    · cases all

instance : Decidable (cc.Clean o) := inferInstanceAs (Decidable (_ ∧ _ ∧ (_ ∧ _) ∧ (_ → _ ∧ _)))

instance (bucket : Option UnknownCallBucket) : Decidable (SlotClean o memory scno bucket) :=
  inferInstanceAs (Decidable (getUnknownByScno scno bucket = none → ∀ b ∈ bucket,
    unknownCountsEntries ≤ b.len → ∀ slot ∈ (b.grow o memory).entries[b.len]?,
      slot.callCounts.Clean o))

instance : Decidable (NoOverflow o calls call) := inferInstanceAs (Decidable (_ ∧ _ ∧ (_ → _)))

instance (x : Call × Memory) : Decidable (Tracing.Proper o s x) :=
  inferInstanceAs (Decidable (NoOverflow .. ∧ (_ → SlotClean ..)))

def usedMemory : Memory := fun _ => ⟨0, { zeroCounts with calls := 5 }⟩

/-- The first of the slots that are added is zero, the others are not. -/
def firstClean : Memory := fun i => if i = 0 then ⟨0, zeroCounts⟩ else usedMemory i

/-- Seventeen numbers that take longer and longer, and the last of them again. -/
def eighteenCalls : List Call :=
  (List.finRange 17).map (fun n : Fin 17 => timed (n + 1) (n.castLE (by decide)) false) ++
    [timed 17 3 true]

open Runs in
/-- The seventeenth number takes the first of the slots that are added. -/
theorem summary_exact_seventeenth :
    ∃ s, Run Tracing.Initial (Tracing.Step oneKnown) (Tracing.Proper oneKnown) s ∧
      s.calls.length = 18 ∧ (s.counts.entriesOf 0 17).map (fun cc =>
        (cc.calls, cc.errors, cc.time)) = [(2, 1, ⟨⟨19, 0⟩, ⟨3, 0⟩, ⟨16, 0⟩⟩)] ∧
      ∀ p scno, ∀ cc ∈ s.counts.entriesOf p scno, cc.Exact oneKnown (callsOf s.calls p scno) := by
  have evaluates : (countAll oneKnown firstClean (Tracing.Proper oneKnown) eighteenCalls {}).map
      (fun s => (s.calls.length, (s.counts.entriesOf 0 17).map fun cc =>
        (cc.calls, cc.errors, cc.time))) = some (18, [(2, 1, ⟨⟨19, 0⟩, ⟨3, 0⟩, ⟨16, 0⟩⟩)]) := by
    decide +kernel
  obtain ⟨s, all, result⟩ := Option.map_eq_some_iff.mp evaluates
  obtain ⟨length, entry⟩ := Prod.mk.inj result
  have run := run_countAll (.start rfl) all
  exact ⟨s, run, length, entry, (summary_exact oneKnown run).2.1⟩

open Runs in
/-- The seventeenth unknown number is called once and counted six times. -/
theorem summary_counts_garbage :
    ∃ s, Run Tracing.Initial (Tracing.Step oneKnown) (fun _ _ => True) s ∧
      (callsOf s.calls 0 17).length = 1 ∧ (s.counts.entriesOf 0 17).map (·.calls) = [6] := by
  have evaluates : (countAll oneKnown usedMemory (fun _ _ => True)
      ((List.range 17).map fun n => timed (n + 1) 0 false) {}).map
      (fun s => ((callsOf s.calls 0 17).length, (s.counts.entriesOf 0 17).map (·.calls))) =
      some (1, [6]) := by
    decide +kernel
  obtain ⟨s, all, result⟩ := Option.map_eq_some_iff.mp evaluates
  obtain ⟨length, calls⟩ := Prod.mk.inj result
  exact ⟨s, run_countAll (.start rfl) all, length, calls⟩

end Strace.Summary
