import Mathlib.Data.Nat.Bitwise
import Strace.Common

/-! `number_set.c`: growable bit sets with an inversion flag. -/
namespace Strace

def bitsPerSlot : Nat := 32

structure NumberSet where
  vec : List UInt32 := []
  not : Bool := false
  deriving DecidableEq, Repr

def numberIsset (i : Nat) (vec : List UInt32) : Bool :=
  vec.getD (i / bitsPerSlot) 0 &&& (1 <<< UInt32.ofNat (i % bitsPerSlot)) != 0

/-- A null pointer is the empty set. -/
def isNumberInSet (number : Nat) : Option NumberSet → Bool
  | none => false
  | some set =>
    (decide (number / bitsPerSlot < set.vec.length) && numberIsset number set.vec) ^^ set.not

def isNumberInSetArray (number : Nat) (set : Option (Nat → NumberSet)) (idx : Nat) : Bool :=
  isNumberInSet number (set.map (· idx))

def isCompleteSet (set : Option NumberSet) (maxNumbers : Nat) : Bool :=
  match set with
  | none => false
  | some set => (set.not && set.vec.isEmpty) || popcount32 set.vec == maxNumbers

def numberSetArrayIsEmpty (set : Option (Nat → NumberSet)) (idx : Nat) : Bool :=
  match set with
  | none => true
  | some set => !(!(set idx).vec.isEmpty || (set idx).not)

/-! ## Filling a set -/

def numberSetbit (i : Nat) (vec : List UInt32) : List UInt32 :=
  vec.modify (i / bitsPerSlot) (· ||| 1 <<< UInt32.ofNat (i % bitsPerSlot))

def reallocateNumberSet (set : NumberSet) (newNslots : Nat) : NumberSet :=
  if newNslots ≤ set.vec.length then set
  else { set with vec := set.vec ++ List.replicate (newNslots - set.vec.length) 0 }

def addNumberToSet (number : Nat) (set : NumberSet) : NumberSet :=
  let set := reallocateNumberSet set (number / bitsPerSlot + 1)
  { set with vec := numberSetbit number set.vec }

def addNumberToSetArray (number : Nat) (set : Nat → NumberSet) (idx : Nat) : Nat → NumberSet :=
  Function.update set idx (addNumberToSet number (set idx))

/-- The slots are kept, with zeros. -/
def clearNumberSetArray (set : Nat → NumberSet) (nmemb : Nat) : Nat → NumberSet :=
  fun i => if i < nmemb then { vec := (set i).vec.map fun _ => 0, not := false } else set i

def invertNumberSetArray (set : Nat → NumberSet) (nmemb : Nat) : Nat → NumberSet :=
  fun i => if i < nmemb then { set i with not := !(set i).not } else set i

theorem bit_toNat {k : Nat} (small : k < 32) : (1 <<< UInt32.ofNat k : UInt32).toNat = 2 ^ k := by
  have shift : (UInt32.ofNat k).toNat % 32 = k := by
    rw [UInt32.toNat_ofNat']
    omega
  rw [UInt32.toNat_shiftLeft, shift, UInt32.toNat_one, Nat.one_shiftLeft]
  exact Nat.mod_eq_of_lt (Nat.pow_lt_pow_right (by decide) small)

theorem numberIsset_eq_testBit (i : Nat) (vec : List UInt32) :
    numberIsset i vec = (vec[i / bitsPerSlot]?.getD 0).toNat.testBit (i % bitsPerSlot) := by
  have small : i % bitsPerSlot < 32 := Nat.mod_lt i (by decide)
  unfold numberIsset
  rw [List.getD_eq_getElem?_getD]
  generalize vec[i / bitsPerSlot]?.getD 0 = slot
  rw [Bool.eq_iff_iff, bne_iff_ne, ne_eq, ← UInt32.toNat_inj, UInt32.toNat_and, bit_toNat small,
    Nat.and_two_pow]
  cases slot.toNat.testBit (i % bitsPerSlot) <;> simp

variable {i m : Nat} {vec : List UInt32}

theorem numberIsset_outside (outside : vec.length ≤ i / bitsPerSlot) :
    numberIsset i vec = false := by
  simp [numberIsset_eq_testBit, List.getElem?_eq_none outside]

theorem numberIsset_reallocateNumberSet (set : NumberSet) (newNslots i : Nat) :
    numberIsset i (reallocateNumberSet set newNslots).vec = numberIsset i set.vec := by
  unfold reallocateNumberSet
  split
  · rfl
  · rw [numberIsset_eq_testBit, numberIsset_eq_testBit]
    by_cases inside : i / bitsPerSlot < set.vec.length
    · rw [List.getElem?_append_left inside]
    · have beyond := Nat.le_of_not_lt inside
      rw [List.getElem?_append_right beyond, List.getElem?_eq_none beyond, List.getElem?_replicate]
      split <;> rfl

theorem numberIsset_numberSetbit (inside : i / bitsPerSlot < vec.length) (j : Nat) :
    numberIsset j (numberSetbit i vec) = (numberIsset j vec || decide (i = j)) := by
  have small : i % bitsPerSlot < 32 := Nat.mod_lt i (by decide)
  rw [numberIsset_eq_testBit, numberIsset_eq_testBit]
  unfold numberSetbit
  rw [List.getElem?_modify]
  by_cases slot : i / bitsPerSlot = j / bitsPerSlot
  · have same : i = j ↔ i % bitsPerSlot = j % bitsPerSlot := by
      have parts := Nat.div_add_mod i bitsPerSlot
      have parts' := Nat.div_add_mod j bitsPerSlot
      rw [slot] at parts
      omega
    rw [← slot, List.getElem?_eq_getElem inside]
    simp only [Option.map_eq_map, Option.map_some, Option.getD_some, if_true, UInt32.toNat_or,
      bit_toNat small, Nat.testBit_or, Nat.testBit_two_pow, same]
  · have other : i ≠ j := fun eq => slot (eq ▸ rfl)
    simp only [slot, if_false, Option.map_eq_map, Option.map_id', other, decide_false,
      Bool.or_false]

theorem length_reallocateNumberSet (set : NumberSet) (newNslots : Nat) :
    newNslots ≤ (reallocateNumberSet set newNslots).vec.length := by
  unfold reallocateNumberSet
  split
  · assumption
  · grind

theorem numberIsset_addNumberToSet (number j : Nat) (set : NumberSet) :
    numberIsset j (addNumberToSet number set).vec =
      (numberIsset j set.vec || decide (number = j)) := by
  have inside := length_reallocateNumberSet set (number / bitsPerSlot + 1)
  show numberIsset j (numberSetbit number _) = _
  rw [numberIsset_numberSetbit inside, numberIsset_reallocateNumberSet]

theorem addNumberToSet_not (number : Nat) (set : NumberSet) :
    (addNumberToSet number set).not = set.not := by
  show (reallocateNumberSet set _).not = set.not
  unfold reallocateNumberSet
  split <;> rfl

theorem isNumberInSetArray_some (n : Nat) (set : Nat → NumberSet) (p : Nat) :
    isNumberInSetArray n (some set) p = (numberIsset n (set p).vec ^^ (set p).not) := by
  show ((decide (n / bitsPerSlot < (set p).vec.length) && numberIsset n (set p).vec) ^^ _) = _
  by_cases inside : n / bitsPerSlot < (set p).vec.length
  · rw [decide_eq_true inside, Bool.true_and]
  · rw [numberIsset_outside (Nat.le_of_not_lt inside), Bool.and_false]

/-! ## How many bits are set -/

theorem popcount32_eq_countP (vec : List UInt32) :
    popcount32 vec =
      (List.range (bitsPerSlot * vec.length)).countP fun i => numberIsset i vec := by
  have same : (fun i => numberIsset i vec) = arrayBit vec := by
    funext i
    rw [numberIsset_eq_testBit, arrayBit]
    rfl
  rw [same]
  exact popcount32_eq vec

theorem countP_range_of_below {p : Nat → Bool} {n : Nat} (le : m ≤ n)
    (below : ∀ i, p i = true → i < m) : (List.range n).countP p = (List.range m).countP p := by
  obtain ⟨d, rfl⟩ := Nat.exists_eq_add_of_le le
  have rest : (List.range d).countP (p ∘ fun i => m + i) = 0 := by
    apply List.countP_eq_zero.mpr
    intro i _ set
    have := below (m + i) set
    omega
  rw [List.range_add, List.countP_append, List.countP_map, rest, Nat.add_zero]

theorem popcount32_eq_of_below (below : ∀ i, numberIsset i vec = true → i < m) :
    popcount32 vec = (List.range m).countP fun i => numberIsset i vec := by
  have slots : ∀ i, numberIsset i vec = true → i < bitsPerSlot * vec.length := by
    intro i set
    apply Nat.lt_of_not_le
    intro beyond
    have outside := (Nat.le_div_iff_mul_le (by decide)).mpr (Nat.mul_comm _ _ ▸ beyond)
    rw [numberIsset_outside outside] at set
    cases set
  rw [popcount32_eq_countP]
  rcases Nat.le_total m (bitsPerSlot * vec.length) with le | le
  · exact countP_range_of_below le below
  · exact (countP_range_of_below le slots).symm

theorem popcount32_eq_iff (below : ∀ i, numberIsset i vec = true → i < m) :
    popcount32 vec = m ↔ ∀ i < m, numberIsset i vec = true := by
  have full : (List.range m).countP (fun i => numberIsset i vec) = m ↔
      ∀ i ∈ List.range m, numberIsset i vec = true := by
    rw [← List.countP_eq_length, List.length_range]
  rw [popcount32_eq_of_below below, full]
  simp only [List.mem_range]

/-! ## What is added -/

structure Adds (set set' : Nat → NumberSet) (selects : Nat → Nat → Prop) : Prop where
  bits : ∀ p n, numberIsset n (set' p).vec = true ↔ numberIsset n (set p).vec = true ∨ selects p n
  not : ∀ p, (set' p).not = (set p).not

namespace Adds

variable {set set' set'' : Nat → NumberSet} {selects selects' : Nat → Nat → Prop}

theorem nothing : Adds set set fun _ _ => False :=
  ⟨fun _ _ => (or_false _).symm.to_iff, fun _ => rfl⟩

theorem congr (adds : Adds set set' selects) (same : ∀ p n, selects p n ↔ selects' p n) :
    Adds set set' selects' :=
  ⟨fun p n => (adds.bits p n).trans (or_congr_right (same p n)), adds.not⟩

theorem trans (adds : Adds set set' selects) (adds' : Adds set' set'' selects') :
    Adds set set'' fun p n => selects p n ∨ selects' p n := by
  refine ⟨fun p n => ?_, fun p => (adds'.not p).trans (adds.not p)⟩
  rw [adds'.bits, adds.bits, or_assoc]

theorem number (number idx : Nat) :
    Adds set (addNumberToSetArray number set idx) fun p n => p = idx ∧ n = number := by
  constructor
  · intro p n
    unfold addNumberToSetArray
    by_cases eq : p = idx
    · subst eq
      rw [Function.update_self, numberIsset_addNumberToSet, Bool.or_eq_true, decide_eq_true_iff,
        and_iff_right rfl, @eq_comm _ number]
    · rw [Function.update_of_ne eq, or_iff_left fun selected => eq selected.1]
  · intro p
    unfold addNumberToSetArray
    by_cases eq : p = idx
    · subst eq
      rw [Function.update_self, addNumberToSet_not]
    · rw [Function.update_of_ne eq]

end Adds

end Strace
