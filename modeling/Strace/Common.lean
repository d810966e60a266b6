import Mathlib.Algebra.Order.BigOperators.Group.List
import Mathlib.Algebra.Order.Ring.Nat
import Mathlib.Data.Nat.Log

/-! Functions of `defs.h` and `util.c` that several parts of strace use. -/
namespace Strace
open List

/-- `sequence_truncation_needed`: no element after `max_strlen` of them is printed. -/
def sequenceTruncationNeeded (abbreviated : Bool) (maxStrlen len : UInt32) : Bool :=
  abbreviated && len > maxStrlen

/-! ## `popcount32` -/

/-- The bits that are set in one word. -/
def popcount (x : UInt32) : Nat := (List.range 32).countP x.toNat.testBit

def popcount32 (a : List UInt32) : Nat := (a.map popcount).sum

/-- Bit `i` of an array of words. -/
def arrayBit (words : List UInt32) (i : Nat) : Bool :=
  (words.getD (i / 32) 0).toNat.testBit (i % 32)

theorem arrayBit_cons (w : UInt32) (words : List UInt32) (i : Nat) :
    arrayBit (w :: words) i = if i < 32 then w.toNat.testBit i else arrayBit words (i - 32) := by
  unfold arrayBit
  split
  · next first => rw [Nat.div_eq_of_lt first, Nat.mod_eq_of_lt first, getD_cons_zero]
  · next later =>
    obtain ⟨j, rfl⟩ := Nat.exists_eq_add_of_le (Nat.le_of_not_lt later)
    rw [Nat.add_div_left j (by decide), Nat.add_mod_left, getD_cons_succ,
      Nat.add_sub_cancel_left]

theorem popcount32_eq (words : List UInt32) :
    popcount32 words = (List.range (32 * words.length)).countP (arrayBit words) := by
  induction words with
  | nil => rfl
  | cons w words ih =>
    have first : (List.range 32).countP (arrayBit (w :: words)) = popcount w := by
      apply countP_congr
      intro i inside
      rw [arrayBit_cons, if_pos (mem_range.mp inside)]
    have later : arrayBit (w :: words) ∘ (32 + ·) = arrayBit words := by
      funext i
      rw [Function.comp_apply, arrayBit_cons, if_neg (by omega), Nat.add_sub_cancel_left]
    rw [length_cons, Nat.mul_succ, Nat.add_comm, range_add, countP_append, countP_map, later,
      ← ih]
    rfl

/-! ## `ilog2_32` and `ilog2_64` -/

/-- The halvings of the width that `ILOG2_ITER_` does. -/
def ilog2Iter : (bit val ret : Nat) → Nat
  | 0, _, ret => ret
  | bit + 1, val, ret =>
    let shift := if val > 2 ^ 2 ^ bit - 1 then 2 ^ bit else 0
    ilog2Iter bit (val >>> shift) (ret ||| shift)

def ilog2_32 (val : Nat) : Nat := ilog2Iter 5 val 0

def ilog2_64 (val : Nat) : Nat := ilog2Iter 6 val 0

variable {val : Nat}

theorem ilog2Iter_eq {bit ret : Nat} (small : val < 2 ^ 2 ^ bit) (high : 2 ^ bit ∣ ret) :
    ilog2Iter bit val ret = ret + Nat.log 2 val := by
  induction bit generalizing val ret with
  | zero =>
    have none : Nat.log 2 val = 0 := Nat.log_of_lt small
    rw [ilog2Iter, none, Nat.add_zero]
  | succ bit ih =>
    have lower := Nat.dvd_trans (Nat.pow_dvd_pow 2 (Nat.le_succ bit)) high
    rw [ilog2Iter]
    split
    · have least : 2 ^ 2 ^ bit ≤ val := by omega
      have rest : val >>> 2 ^ bit < 2 ^ 2 ^ bit := by
        simpa [Nat.shiftRight_eq_div_pow, Nat.div_lt_iff_lt_mul (Nat.two_pow_pos _), ← Nat.pow_add,
          ← Nat.two_mul, ← Nat.pow_succ'] using small
      have added : ret ||| 2 ^ bit = ret + 2 ^ bit := by
        obtain ⟨m, rfl⟩ := high
        exact (Nat.two_pow_add_eq_or_of_lt (Nat.pow_lt_pow_right (by decide) (Nat.lt_succ_self bit))
          m).symm
      have bits := Nat.le_log_of_pow_le (by decide) least
      rw [added, ih rest (Nat.dvd_add lower (Nat.dvd_refl _)), Nat.shiftRight_eq_div_pow,
        Nat.log_div_base_pow]
      omega
    · have positive := Nat.two_pow_pos (2 ^ bit)
      rw [Nat.or_zero]
      exact ih (by omega) lower

theorem ilog2_32_eq (small : val < 2 ^ 32) : ilog2_32 val = Nat.log 2 val :=
  (ilog2Iter_eq small (Nat.dvd_zero _)).trans (Nat.zero_add _)

theorem ilog2_64_eq (small : val < 2 ^ 64) : ilog2_64 val = Nat.log 2 val :=
  (ilog2Iter_eq small (Nat.dvd_zero _)).trans (Nat.zero_add _)

end Strace
