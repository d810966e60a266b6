import Mathlib.Algebra.Group.Nat.Defs
import Mathlib.Tactic.Common

/-! Items of equal width packed in a word of 64 bits. -/
namespace Strace.Packed
open BitVec

abbrev Word := BitVec 64

/-- The lowest bits of a word. -/
def low (width : Nat) : Word := BitVec.ofNat 64 (2 ^ width - 1)

/-- An item, moved down to the lowest bits. -/
def read (mask : Word) (offs : Nat) (word : Word) : Word := (word &&& mask) >>> offs

def write (mask : Word) (offs : Nat) (val word : Word) : Word :=
  (word &&& ~~~mask) ||| ((val <<< offs) &&& mask)

theorem getLsbD_low (width i : Nat) : (low width).getLsbD i = decide (i < 64 ∧ i < width) := by
  rw [low, getLsbD_ofNat]
  by_cases inside : i < 64 <;> simp

theorem getLsbD_mask (width offs i : Nat) :
    (low width <<< offs).getLsbD i = decide (i < 64 ∧ offs ≤ i ∧ i < offs + width) := by
  rw [getLsbD_shiftLeft, getLsbD_low, Bool.eq_iff_iff]
  simp only [Bool.and_eq_true, decide_eq_true_iff, Bool.not_eq_true', decide_eq_false_iff_not]
  omega

variable {width offs : Nat}

theorem getLsbD_read (inside : offs + width ≤ 64) (word : Word) (i : Nat) :
    (read (low width <<< offs) offs word).getLsbD i =
      (decide (i < width) && word.getLsbD (offs + i)) := by
  rw [read, getLsbD_ushiftRight, getLsbD_and, getLsbD_mask]
  by_cases low : i < width
  · have : offs + i < 64 ∧ offs ≤ offs + i ∧ offs + i < offs + width := by omega
    simp [low, this]
  · simp [low]

theorem getLsbD_write (val word : Word) (i : Nat) :
    (write (low width <<< offs) offs val word).getLsbD i =
      if i < 64 ∧ offs ≤ i ∧ i < offs + width then val.getLsbD (i - offs) else word.getLsbD i := by
  rw [write, getLsbD_or, getLsbD_and, getLsbD_and, getLsbD_not,
    getLsbD_mask, getLsbD_shiftLeft]
  split
  next there =>
    simp [there]
  next elsewhere =>
    grind

theorem read_write_self (inside : offs + width ≤ 64) (val word : Word) :
    read (low width <<< offs) offs (write (low width <<< offs) offs val word) =
      val &&& low width := by
  apply eq_of_getLsbD_eq
  intro i lt
  rw [getLsbD_read inside, getLsbD_write, getLsbD_and, getLsbD_low]
  by_cases low : i < width
  · grind
  · simp [low]

theorem read_write_other {offs' : Nat} (inside : offs' + width ≤ 64)
    (apart : offs + width ≤ offs' ∨ offs' + width ≤ offs) (val word : Word) :
    read (low width <<< offs') offs' (write (low width <<< offs) offs val word) =
      read (low width <<< offs') offs' word := by
  apply eq_of_getLsbD_eq
  intro i _
  rw [getLsbD_read inside, getLsbD_read inside, getLsbD_write]
  by_cases low : i < width
  · rw [if_neg (by omega)]
  · simp [low]

def fill (lg : Nat) (item : Word) : Nat → Word
  | 0 => item
  | rounds + 1 => fill lg item rounds ||| fill lg item rounds <<< 2 ^ (lg + rounds)

variable {lg : Nat} {item : Word}

theorem getLsbD_fill (small : ∀ i, 2 ^ lg ≤ i → item.getLsbD i = false) (rounds i : Nat) :
    (fill lg item rounds).getLsbD i =
      (decide (i < 64 ∧ i < 2 ^ (lg + rounds)) && item.getLsbD (i % 2 ^ lg)) := by
  induction rounds generalizing i with
  | zero =>
    by_cases inside : i < 2 ^ lg
    · rw [fill, Nat.mod_eq_of_lt inside]
      by_cases lt : i < 64
      · simp [inside, lt]
      · simp [getLsbD_of_ge item i (Nat.le_of_not_lt lt)]
    · simp [fill, small i (Nat.le_of_not_lt inside), inside]
  | succ rounds ih =>
    have double : 2 ^ (lg + (rounds + 1)) = 2 ^ (lg + rounds) + 2 ^ (lg + rounds) := by
      rw [← Nat.add_assoc, Nat.pow_succ, Nat.mul_two]
    rw [fill, getLsbD_or, getLsbD_shiftLeft, ih, ih]
    by_cases first : i < 2 ^ (lg + rounds)
    · have : i < 2 ^ (lg + (rounds + 1)) := by omega
      simp [first, this]
    · -- the second half is the first one moved up
      have same : (i - 2 ^ (lg + rounds)) % 2 ^ lg = i % 2 ^ lg := by
        obtain ⟨d, rfl⟩ := Nat.exists_eq_add_of_le (Nat.le_of_not_lt first)
        rw [Nat.add_sub_cancel_left, Nat.pow_add, Nat.mul_add_mod]
      rw [same, double]
      by_cases lt : i < 64
      · have low : i - 2 ^ (lg + rounds) < 64 := Nat.lt_of_le_of_lt (Nat.sub_le ..) lt
        have iff : i - 2 ^ (lg + rounds) < 2 ^ (lg + rounds) ↔
            i < 2 ^ (lg + rounds) + 2 ^ (lg + rounds) := by omega
        simp [first, lt, low, iff]
      · simp [lt]

theorem read_fill {j : Nat} (small : ∀ i, 2 ^ lg ≤ i → item.getLsbD i = false) (le : lg ≤ 6)
    (inside : j < 2 ^ (6 - lg)) :
    read (low (2 ^ lg) <<< (j * 2 ^ lg)) (j * 2 ^ lg) (fill lg item (6 - lg)) = item := by
  have whole : 2 ^ (6 - lg) * 2 ^ lg = 64 := by
    rw [← Nat.pow_add, Nat.sub_add_cancel le]
  have fits : j * 2 ^ lg + 2 ^ lg ≤ 64 := by
    rw [← whole, ← Nat.succ_mul]
    exact Nat.mul_le_mul_right _ inside
  apply eq_of_getLsbD_eq
  intro i _
  rw [getLsbD_read fits, getLsbD_fill small, Nat.add_sub_cancel' le]
  by_cases low : i < 2 ^ lg
  · have lt : j * 2 ^ lg + i < 64 ∧ j * 2 ^ lg + i < 2 ^ 6 := by omega
    rw [Nat.mul_comm, Nat.mul_add_mod, Nat.mod_eq_of_lt low]
    rw [Nat.mul_comm] at lt
    simp [low, lt]
  · simp [small i (Nat.le_of_not_lt low), low]

end Strace.Packed
