import Mathlib.Algebra.Group.Nat.Defs
import Mathlib.Tactic.Common

/-! Unsigned words: read from bytes, masked, and rounded up to a multiple. -/
namespace Strace.Words

def fromBytes (bigEndian : Bool) (bytes : List UInt8) : Nat :=
  (if bigEndian then bytes else bytes.reverse).foldl (fun n byte => n * 256 + byte.toNat) 0

theorem foldl_bytes_lt (bytes : List UInt8) (n : Nat) :
    bytes.foldl (fun n byte => n * 256 + byte.toNat) n < (n + 1) * 256 ^ bytes.length := by
  induction bytes generalizing n with
  | nil => simp
  | cons byte rest ih =>
    have small := byte.toNat_lt
    calc
      (byte :: rest).foldl (fun n byte => n * 256 + byte.toNat) n
        < (n * 256 + byte.toNat + 1) * 256 ^ rest.length := ih _
      _ ≤ (n + 1) * 256 * 256 ^ rest.length := Nat.mul_le_mul_right _ (by omega)
      _ = (n + 1) * 256 ^ (byte :: rest).length := by
        rw [List.length_cons, Nat.pow_succ, Nat.mul_assoc, Nat.mul_comm 256]

theorem fromBytes_lt {bytes : List UInt8} {n : Nat} (length : bytes.length ≤ n) (bigEndian : Bool) :
    fromBytes bigEndian bytes < 256 ^ n := by
  have bound : ∀ l : List UInt8, l.length = bytes.length →
      l.foldl (fun n byte => n * 256 + byte.toNat) 0 < 256 ^ n := by
    intro l same
    have lt := foldl_bytes_lt l 0
    rw [same, Nat.one_mul] at lt
    exact Nat.lt_of_lt_of_le lt (Nat.pow_le_pow_right (by decide) length)
  unfold fromBytes
  split
  · exact bound bytes rfl
  · exact bound bytes.reverse List.length_reverse

theorem and_or_ne_zero (x y z : UInt32) : x &&& (y ||| z) ≠ 0 ↔ x &&& y ≠ 0 ∨ x &&& z ≠ 0 := by
  have distrib : x &&& (y ||| z) = (x &&& y) ||| (x &&& z) := by
    apply UInt32.toBitVec_inj.mp
    ext k
    simp [Bool.and_or_distrib_left]
  rw [distrib, ne_eq, UInt32.or_eq_zero_iff, not_and_or]

def align (bits a n : Nat) : Nat := (n + a - 1) % 2 ^ bits / a * a

variable {bits a n : Nat}

theorem align_lt : align bits a n < 2 ^ bits :=
  Nat.lt_of_le_of_lt (Nat.div_mul_le_self _ a) (Nat.mod_lt _ (Nat.two_pow_pos bits))

theorem align_exact (fits : n + a ≤ 2 ^ bits) (pos : 0 < a) : align bits a n =
    (n + a - 1) / a * a := by
  rw [align, Nat.mod_eq_of_lt (by omega)]

theorem le_align (fits : n + a ≤ 2 ^ bits) (pos : 0 < a) : n ≤ align bits a n := by
  rw [align_exact fits pos]
  have parts := Nat.div_add_mod (n + a - 1) a
  have less := Nat.mod_lt (n + a - 1) pos
  rw [Nat.mul_comm] at parts
  omega

theorem align_wraps (small : n < 2 ^ bits) (wraps : 2 ^ bits < n + a) (below : a ≤ 2 ^ bits) :
    align bits a n = 0 := by
  have rest : (n + a - 1) % 2 ^ bits < a := by
    rw [Nat.mod_eq_sub_mod (by omega), Nat.mod_eq_of_lt (by omega)]
    omega
  rw [align, Nat.div_eq_of_lt rest, Nat.zero_mul]

/-! ## Ranges of addresses -/

structure Range where
  addr : Nat
  len : Nat
  deriving DecidableEq, Repr

def Range.Inside (bits : Nat) (r whole : Range) : Prop :=
  ∃ offset, r.addr = (whole.addr + offset) % 2 ^ bits ∧ offset + r.len ≤ whole.len

variable {r r' whole : Range}

theorem Range.Inside.trans (inside : r.Inside bits r') (inside' : r'.Inside bits whole) :
    r.Inside bits whole := by
  obtain ⟨offset, addr, len⟩ := inside
  obtain ⟨offset', addr', len'⟩ := inside'
  refine ⟨offset' + offset, ?_, by omega⟩
  rw [addr, addr', Nat.mod_add_mod, Nat.add_assoc]

theorem Range.inside_self (small : r.addr < 2 ^ bits) : r.Inside bits r :=
  ⟨0, (Nat.mod_eq_of_lt small).symm, Nat.le_of_eq (Nat.zero_add _)⟩

end Strace.Words
