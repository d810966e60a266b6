import Strace.NumberSet

/-! What a number set remembers of the qualifiers applied to it, and what
`is_complete_set` and `number_set_array_is_empty` make of that. -/
namespace Strace
open List

inductive SetOp where
  | clear (nmemb : Nat)
  | invert (nmemb : Nat)
  | add (number idx : Nat)
  deriving DecidableEq, Repr

def SetOp.apply (set : Nat → NumberSet) : SetOp → Nat → NumberSet
  | .clear nmemb => clearNumberSetArray set nmemb
  | .invert nmemb => invertNumberSetArray set nmemb
  | .add number idx => addNumberToSetArray number set idx

def afterOps (ops : List SetOp) : Nat → NumberSet :=
  ops.foldl SetOp.apply fun _ => {}

structure Trail where
  inverted : Bool := false
  added : List Nat := []
  grown : Bool := false
  deriving DecidableEq, Repr

def Trail.note (idx : Nat) (trail : Trail) : SetOp → Trail
  | .clear nmemb =>
    if idx < nmemb then { trail with inverted := false, added := [] } else trail
  | .invert nmemb =>
    if idx < nmemb then { trail with inverted := !trail.inverted } else trail
  | .add number j =>
    if j = idx then { trail with added := number :: trail.added, grown := true } else trail

def trailOf (ops : List SetOp) (idx : Nat) : Trail :=
  ops.foldl (Trail.note idx) {}

structure Trail.Tells (trail : Trail) (set : NumberSet) : Prop where
  not : set.not = trail.inverted
  bits : ∀ n, numberIsset n set.vec = true ↔ n ∈ trail.added
  slots : set.vec = [] ↔ trail.grown = false

theorem numberIsset_zeroed (n : Nat) (vec : List UInt32) :
    numberIsset n (vec.map fun _ => 0) = false := by
  rw [numberIsset_eq_testBit, getElem?_map]
  cases vec[n / bitsPerSlot]? <;> exact Nat.zero_testBit _

theorem addNumberToSet_vec_ne_nil (number : Nat) (set : NumberSet) :
    (addNumberToSet number set).vec ≠ [] := by
  intro empty
  have bit := numberIsset_addNumberToSet number number set
  rw [empty, decide_eq_true rfl, Bool.or_true] at bit
  rw [numberIsset_outside (Nat.zero_le _)] at bit
  cases bit

variable {trail : Trail} {set : Nat → NumberSet} {idx max : Nat} {ops : List SetOp}

theorem Trail.Tells.note (tells : trail.Tells (set idx)) (op : SetOp) :
    (trail.note idx op).Tells (op.apply set idx) := by
  cases op with
  | clear nmemb =>
    simp only [SetOp.apply, Trail.note, clearNumberSetArray]
    split
    · constructor
      · rfl
      · intro n
        simp only [numberIsset_zeroed, not_mem_nil, Bool.false_eq_true]
      · simpa only [map_eq_nil_iff] using tells.slots
    · exact tells
  | invert nmemb =>
    simp only [SetOp.apply, Trail.note, invertNumberSetArray]
    split
    · exact ⟨congrArg Bool.not tells.not, tells.bits, tells.slots⟩
    · exact tells
  | add number j =>
    simp only [SetOp.apply, Trail.note, addNumberToSetArray]
    by_cases eq : j = idx
    · subst eq
      rw [Function.update_self, if_pos rfl]
      constructor
      · rw [addNumberToSet_not, tells.not]
      · intro n
        rw [numberIsset_addNumberToSet, Bool.or_eq_true, tells.bits, decide_eq_true_iff,
          mem_cons, or_comm, eq_comm]
      · simp only [addNumberToSet_vec_ne_nil, Bool.true_eq_false]
    · grind

theorem tells_trailOf (ops : List SetOp) (idx : Nat) :
    (trailOf ops idx).Tells (afterOps ops idx) := by
  have run : ∀ {trail : Trail} {set : Nat → NumberSet}, trail.Tells (set idx) →
      (ops.foldl (Trail.note idx) trail).Tells (ops.foldl SetOp.apply set idx) := by
    induction ops with
    | nil => exact id
    | cons op rest ih =>
      intro trail set tells
      exact ih (tells.note op)
  apply run
  constructor
  · rfl
  · intro n
    simp only [not_mem_nil, iff_false]
    exact Bool.eq_false_iff.mp (numberIsset_outside (Nat.zero_le _))
  · simp only

structure Trail.From (trail : Trail) (ops : List SetOp) (idx : Nat) : Prop where
  added : ∀ n ∈ trail.added, .add n idx ∈ ops
  grown : trail.grown = true → ∃ n, .add n idx ∈ ops

theorem Trail.From.note (source : trail.From ops idx) {op : SetOp} (mem : op ∈ ops) :
    (trail.note idx op).From ops idx := by
  cases op with
  | clear nmemb =>
    simp only [Trail.note]
    split
    · constructor
      · simp
      · exact source.grown
    · exact source
  | invert nmemb =>
    simp only [Trail.note]
    split <;> exact ⟨source.added, source.grown⟩
  | add number j =>
    simp only [Trail.note]
    split
    next eq =>
      subst eq
      constructor
      · intro n added
        rcases mem_cons.mp added with rfl | before
        · exact mem
        · exact source.added n before
      · intro _
        exact ⟨number, mem⟩
    next => exact source

theorem trailOf_from (ops : List SetOp) (idx : Nat) : (trailOf ops idx).From ops idx := by
  apply List.foldlRecOn (motive := fun trail => trail.From ops idx) ops (Trail.note idx)
  · constructor
    · simp
    · simp
  · intro trail source op mem
    exact source.note mem

theorem not_grown_added (kept : (trailOf ops idx).grown = false) :
    (trailOf ops idx).added = [] := by
  have tells := tells_trailOf ops idx
  apply eq_nil_iff_forall_not_mem.mpr
  intro n added
  have bit := (tells.bits n).mpr added
  rw [tells.slots.mpr kept, numberIsset_outside (Nat.zero_le _)] at bit
  cases bit

/-! ## The predicates -/

section

variable {trail : Trail} {set : Nat → NumberSet} {idx : Nat} (tells : trail.Tells (set idx))
include tells

theorem Trail.Tells.member (n : Nat) :
    isNumberInSetArray n (some set) idx = (decide (n ∈ trail.added) ^^ trail.inverted) := by
  have bit : numberIsset n (set idx).vec = decide (n ∈ trail.added) := by
    rw [Bool.eq_iff_iff, tells.bits, decide_eq_true_iff]
  rw [isNumberInSetArray_some, bit, tells.not]

theorem Trail.Tells.isCompleteSet_iff {max : Nat} (below : ∀ n ∈ trail.added, n < max) :
    isCompleteSet (some (set idx)) max = true ↔
      trail.inverted = true ∧ trail.grown = false ∨ ∀ n < max, n ∈ trail.added := by
  have bits : ∀ n, numberIsset n (set idx).vec = true → n < max :=
    fun n bit => below n ((tells.bits n).mp bit)
  simp only [isCompleteSet, Bool.or_eq_true, Bool.and_eq_true, List.isEmpty_iff, beq_iff_eq,
    popcount32_eq_iff bits, tells.bits, tells.slots, tells.not]

theorem Trail.Tells.numberSetArrayIsEmpty_iff :
    numberSetArrayIsEmpty (some set) idx = true ↔ trail.grown = false ∧ trail.inverted = false := by
  simp [numberSetArrayIsEmpty, tells.slots, tells.not]

end

def Trail.CompleteAgrees (trail : Trail) (max : Nat) : Prop :=
  trail.inverted = true →
    if trail.added = [] then trail.grown = false else ∃ n < max, n ∉ trail.added

def Trail.EmptyAgrees (trail : Trail) : Prop :=
  trail.inverted = true ∨ trail.added ≠ [] ∨ trail.grown = false

theorem forall_not_mem_iff_nil {added : List Nat} (below : ∀ n ∈ added, n < max) :
    (∀ n < max, n ∉ added) ↔ added = [] := by
  constructor
  · intro outside
    apply eq_nil_iff_forall_not_mem.mpr
    intro n mem
    exact outside n (below n mem) mem
  · rintro rfl n _
    exact not_mem_nil

theorem Trail.Tells.complete_agrees_iff (tells : trail.Tells (set idx))
    (below : ∀ n ∈ trail.added, n < max) (kept : trail.grown = false → trail.added = [])
    (room : trail.grown = true → 0 < max) :
    (isCompleteSet (some (set idx)) max = true ↔
        ∀ n < max, isNumberInSetArray n (some set) idx = true) ↔
      trail.CompleteAgrees max := by
  simp only [tells.isCompleteSet_iff below, tells.member, Trail.CompleteAgrees]
  cases trail.inverted with
  | false => simp
  | true =>
    have outside := forall_not_mem_iff_nil below
    simp only [true_and, Bool.xor_true, Bool.not_eq_true', decide_eq_false_iff_not, outside,
      forall_const]
    split
    next nothing =>
      -- `max` is positive in a set that has grown, so it is not full of nothing
      simp only [nothing, not_mem_nil, iff_true]
      constructor
      · rintro (new | full)
        · exact new
        · rw [← Bool.not_eq_true]
          intro grown
          exact full 0 (room grown)
      · exact .inl
    next something =>
      have grown := Bool.of_not_eq_false fun new => something (kept new)
      simp only [grown, Bool.true_eq_false, false_or, something, iff_false, not_forall, exists_prop]

theorem Trail.Tells.empty_agrees_iff (tells : trail.Tells (set idx))
    (below : ∀ n ∈ trail.added, n < max) (bound : max < 2 ^ 32)
    (kept : trail.grown = false → trail.added = []) :
    (numberSetArrayIsEmpty (some set) idx = true ↔
        ∀ n < 2 ^ 32, isNumberInSetArray n (some set) idx = false) ↔
      trail.EmptyAgrees := by
  simp only [tells.numberSetArrayIsEmpty_iff, tells.member, Trail.EmptyAgrees]
  cases trail.inverted with
  | true =>
    have left : max ∉ trail.added := fun mem => Nat.lt_irrefl max (below max mem)
    simp only [Bool.true_eq_false, and_false, Bool.xor_true, Bool.not_eq_false',
      decide_eq_true_iff, true_or, iff_true, false_iff]
    intro full
    exact left (full max bound)
  | false =>
    have outside := forall_not_mem_iff_nil fun n mem => Nat.lt_trans (below n mem) bound
    simp only [and_true, Bool.xor_false, decide_eq_false_iff_not, outside, Bool.false_eq_true,
      false_or]
    constructor
    · intro agrees
      exact (Decidable.em (trail.added = [])).symm.imp_right agrees.mpr
    · intro condition
      constructor
      · exact kept
      · intro nothing
        exact condition.resolve_left fun something => something nothing

theorem set_predicates_agree_iff (ops : List SetOp) (idx : Nat) (max : UInt32)
    (below : ∀ n, .add n idx ∈ ops → n < max.toNat) :
    ((isCompleteSet (some (afterOps ops idx)) max.toNat = true ↔
        ∀ n < max.toNat, isNumberInSetArray n (some (afterOps ops)) idx = true) ↔
      (trailOf ops idx).CompleteAgrees max.toNat) ∧
    ((numberSetArrayIsEmpty (some (afterOps ops)) idx = true ↔
        ∀ n < 2 ^ 32, isNumberInSetArray n (some (afterOps ops)) idx = false) ↔
      (trailOf ops idx).EmptyAgrees) := by
  have tells := tells_trailOf ops idx
  have source := trailOf_from ops idx
  have added : ∀ n ∈ (trailOf ops idx).added, n < max.toNat :=
    fun n mem => below n (source.added n mem)
  have room : (trailOf ops idx).grown = true → 0 < max.toNat := by
    intro grown
    obtain ⟨n, add⟩ := source.grown grown
    exact Nat.zero_lt_of_lt (below n add)
  constructor
  · exact tells.complete_agrees_iff added not_grown_added room
  · exact tells.empty_agrees_iff added max.toNat_lt not_grown_added

/-- `-e status=failed -e status=all` -/
theorem set_predicates_agree_iff_status_again :
    (isCompleteSet (some (afterOps [.clear 1, .add 1 0, .clear 1, .invert 1] 0)) 5 = true ↔
        ∀ n < 5, isNumberInSetArray n
          (some (afterOps [.clear 1, .add 1 0, .clear 1, .invert 1])) 0 = true) ↔
      (trailOf [.clear 1, .add 1 0, .clear 1, .invert 1] 0).CompleteAgrees 5 := by
  have below : ∀ n, SetOp.add n 0 ∈ [.clear 1, .add 1 0, .clear 1, .invert 1] →
      n < (5 : UInt32).toNat := by
    simp
  exact (set_predicates_agree_iff _ 0 5 below).1

/-- After `-e status=failed -e status=all` every status is in the set, which is
not complete. After `-e status='!successful,failed,unfinished,unavailable,detached'`
none is, and the set is complete. After `-e decode-fds=path -e decode-fds=none`
no number is in the set, which is not empty. -/
theorem set_predicates_disagree :
    (isCompleteSet (some (afterOps [.clear 1, .add 1 0, .clear 1, .invert 1] 0)) 5 = false ∧
      ∀ n < 5, isNumberInSetArray n
        (some (afterOps [.clear 1, .add 1 0, .clear 1, .invert 1])) 0 = true) ∧
    (isCompleteSet (some (afterOps
        [.clear 1, .invert 1, .add 0 0, .add 1 0, .add 2 0, .add 3 0, .add 4 0] 0)) 5 = true ∧
      ∀ n < 5, isNumberInSetArray n (some (afterOps
        [.clear 1, .invert 1, .add 0 0, .add 1 0, .add 2 0, .add 3 0, .add 4 0])) 0 = false) ∧
    numberSetArrayIsEmpty (some (afterOps [.clear 1, .add 0 0, .clear 1])) 0 = false ∧
      ∀ n < 2 ^ 32, isNumberInSetArray n (some (afterOps [.clear 1, .add 0 0, .clear 1])) 0 =
        false := by
  refine ⟨⟨by decide, by decide⟩, ⟨by decide, by decide⟩, by decide, ?_⟩
  intro n _
  rw [(tells_trailOf [.clear 1, .add 0 0, .clear 1] 0).member]
  simp [trailOf, Trail.note]

end Strace
