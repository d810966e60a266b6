import Mathlib.Algebra.Group.Nat.Defs
import Mathlib.Algebra.Ring.Int.Defs
import Mathlib.Tactic.Common

/-! `struct timespec` and its arithmetic, against nanoseconds. -/
namespace Strace.Summary
open Option

structure Timespec where
  sec : Int
  nsec : Int
  deriving DecidableEq, Repr

namespace Timespec

def ns (t : Timespec) : Int := t.sec * 1000000000 + t.nsec

def Normalized (t : Timespec) : Prop := 0 ≤ t.nsec ∧ t.nsec < 1000000000

instance (t : Timespec) : Decidable t.Normalized := inferInstanceAs (Decidable (_ ∧ _))

end Timespec

open Timespec

variable (a : Timespec)

variable (b : Timespec)

def tsCmp : Int :=
  if a.sec < b.sec ∨ a.sec = b.sec ∧ a.nsec < b.nsec then -1
  else if b.sec < a.sec ∨ a.sec = b.sec ∧ b.nsec < a.nsec then 1
  else 0

def tsAdd : Timespec :=
  let sum : Timespec := ⟨a.sec + b.sec, a.nsec + b.nsec⟩
  if 1000000000 ≤ sum.nsec then ⟨sum.sec + 1, sum.nsec - 1000000000⟩ else sum

def tsSub : Timespec :=
  let diff : Timespec := ⟨a.sec - b.sec, a.nsec - b.nsec⟩
  if diff.nsec < 0 then ⟨diff.sec - 1, diff.nsec + 1000000000⟩ else diff

def tsMin : Timespec := if tsCmp a b < 0 then a else b

def tsMax : Timespec := if 0 < tsCmp a b then a else b

def zeroTs : Timespec := ⟨0, 0⟩

section

variable {a b : Timespec}

theorem ns_tsAdd (a b : Timespec) : (tsAdd a b).ns = a.ns + b.ns := by
  simp only [tsAdd, ns]
  split <;> simp only <;> omega

variable (normal : a.Normalized)
include normal

variable (normal' : b.Normalized)
include normal'

theorem normal_tsAdd : (tsAdd a b).Normalized := by
  simp only [Normalized] at *
  simp only [tsAdd]
  split <;> simp only at * <;> omega

theorem normal_tsSub : (tsSub a b).Normalized := by
  simp only [Normalized] at *
  simp only [tsSub]
  split <;> simp only at * <;> omega

theorem tsCmp_neg_iff : tsCmp a b < 0 ↔ a.ns < b.ns := by
  simp only [Normalized] at *
  simp only [tsCmp, ns]
  split
  · omega
  · split <;> omega

theorem tsCmp_pos_iff : 0 < tsCmp a b ↔ b.ns < a.ns := by
  simp only [Normalized] at *
  simp only [tsCmp, ns]
  split
  · omega
  · split <;> omega

theorem ns_tsMin : (tsMin a b).ns = min a.ns b.ns := by
  have less := tsCmp_neg_iff normal normal'
  unfold tsMin
  split <;> omega

theorem ns_tsMax : (tsMax a b).ns = max a.ns b.ns := by
  have more := tsCmp_pos_iff normal normal'
  unfold tsMax
  split <;> omega

theorem normal_tsMin : (tsMin a b).Normalized := by
  unfold tsMin
  split <;> assumption

theorem normal_tsMax : (tsMax a b).Normalized := by
  unfold tsMax
  split <;> assumption

end

theorem normal_zeroTs : zeroTs.Normalized := by decide

/-! ## In the types of the source

`none`: an intermediate value that its 64-bit type does not hold. -/

def signed (x : Int) : Option Int := if -2 ^ 63 ≤ x ∧ x < 2 ^ 63 then some x else none

def unsigned (x : Int) : Option Int := if 0 ≤ x ∧ x < 2 ^ 64 then some x else none

namespace Machine

def tsAdd : Option Timespec := do
  let sec ← signed (a.sec + b.sec)
  let nsec ← signed (a.nsec + b.nsec)
  if 1000000000 ≤ nsec then return ⟨← signed (sec + 1), ← signed (nsec - 1000000000)⟩
  else return ⟨sec, nsec⟩

def tsSub : Option Timespec := do
  let sec ← signed (a.sec - b.sec)
  let nsec ← signed (a.nsec - b.nsec)
  if nsec < 0 then return ⟨← signed (sec - 1), ← signed (nsec + 1000000000)⟩
  else return ⟨sec, nsec⟩

def tsDiv (n : Int) : Option Timespec := do
  let sec ← unsigned a.sec
  let rest ← unsigned (sec % n * 1000000000)
  let sum ← unsigned (rest + (← unsigned a.nsec))
  let rounded ← unsigned (sum + n / 2)
  let nsec ← signed (rounded / n)
  let total ← unsigned (sec / n + nsec / 1000000000)
  return ⟨← signed total, nsec % 1000000000⟩

end Machine

theorem signed_of_fits {x : Int} (low : -2 ^ 63 ≤ x) (high : x < 2 ^ 63) : signed x = some x :=
  if_pos ⟨low, high⟩

theorem unsigned_of_fits {x : Int} (low : 0 ≤ x) (high : x < 2 ^ 64) : unsigned x = some x :=
  if_pos ⟨low, high⟩

theorem ns_tsSub : (tsSub a b).ns = a.ns - b.ns := by
  simp only [tsSub, ns]
  split <;> simp only <;> omega

section
variable {a b : Timespec} (normal : a.Normalized) (normal' : b.Normalized)
include normal normal'

theorem machine_tsAdd (low : -2 ^ 63 ≤ a.sec + b.sec) (high : (a.ns + b.ns) / 1000000000 < 2 ^ 63) :
    Machine.tsAdd a b = some (tsAdd a b) := by
  simp only [Normalized, ns] at *
  simp only [Machine.tsAdd, tsAdd, signed_of_fits low (by omega), bind_eq_bind,
    bind_some, signed_of_fits (x := a.nsec + b.nsec) (by omega) (by omega)]
  split
  · simp [signed_of_fits (x := a.sec + b.sec + 1) (by omega) (by omega),
      signed_of_fits (x := a.nsec + b.nsec - 1000000000) (by omega) (by omega)]
  · rfl

theorem machine_tsSub (low : -2 ^ 63 ≤ (a.ns - b.ns) / 1000000000) (high : a.sec - b.sec < 2 ^ 63) :
    Machine.tsSub a b = some (tsSub a b) := by
  simp only [Normalized, ns] at *
  simp only [Machine.tsSub, tsSub, signed_of_fits (x := a.sec - b.sec) (by omega) high,
    bind_eq_bind, bind_some, signed_of_fits (x := a.nsec - b.nsec) (by omega) (by omega)]
  split
  · simp [signed_of_fits (x := a.sec - b.sec - 1) (by omega) (by omega),
      signed_of_fits (x := a.nsec - b.nsec + 1000000000) (by omega) (by omega)]
  · rfl

end

theorem half_up (x n : Int) : (x + n / 2) / n = (2 * x + n) / (2 * n) := by
  rw [← Int.ediv_ediv_of_nonneg (by decide)]
  congr 1
  omega

section
variable {t : Timespec} {n : Int} (positive : 0 < n)
include positive

theorem ns_div (t : Timespec) :
    (t.ns + n / 2) / n =
      t.sec / n * 1000000000 + (t.sec % n * 1000000000 + t.nsec + n / 2) / n := by
  have seconds := Int.mul_ediv_add_emod t.sec n
  have whole : t.ns + n / 2 =
      t.sec % n * 1000000000 + t.nsec + n / 2 + n * (t.sec / n * 1000000000) := by
    rw [ns]
    grind
  rw [whole, Int.add_mul_ediv_left _ _ (by omega)]
  omega

theorem machine_tsDiv (small : n < 2 ^ 33) (sec : 0 ≤ t.sec) (nsec : 0 ≤ t.nsec)
    (long : t.nsec < 2 ^ 63) (fits : t.ns < 2 ^ 63 * 1000000000) :
    ∃ r, Machine.tsDiv t n = some r ∧ r.Normalized ∧ r.ns = (2 * t.ns + n) / (2 * n) := by
  have rest : 0 ≤ t.sec % n := Int.emod_nonneg _ (by omega)
  have below : t.sec % n < n := Int.emod_lt_of_pos _ positive
  have seconds : 0 ≤ t.sec / n := Int.ediv_nonneg sec (by omega)
  have exact := ns_div positive t
  -- no more than the dividend, so the seconds fit as those of the dividend do
  have least : (t.ns + n / 2) / n ≤ t.ns := by
    rw [← Int.lt_add_one_iff, Int.ediv_lt_iff_lt_mul positive, Int.add_mul]
    have more : t.ns * 1 ≤ t.ns * n :=
      Int.mul_le_mul_of_nonneg_left (by omega) (by simp only [ns]; omega)
    omega
  have nanos : (t.sec % n * 1000000000 + t.nsec + n / 2) / n < 2 ^ 63 := by
    rw [Int.ediv_lt_iff_lt_mul positive]
    omega
  have nonneg : 0 ≤ (t.sec % n * 1000000000 + t.nsec + n / 2) / n :=
    Int.ediv_nonneg (by omega) (by omega)
  refine ⟨⟨t.sec / n + (t.sec % n * 1000000000 + t.nsec + n / 2) / n / 1000000000,
    (t.sec % n * 1000000000 + t.nsec + n / 2) / n % 1000000000⟩, ?_, ?_, ?_⟩
  · simp only [Machine.tsDiv, bind_eq_bind, bind_some, pure_def,
      unsigned_of_fits sec (by simp only [ns] at fits; omega),
      unsigned_of_fits (x := t.sec % n * 1000000000) (by omega) (by omega),
      unsigned_of_fits nsec (by omega),
      unsigned_of_fits (x := t.sec % n * 1000000000 + t.nsec) (by omega) (by omega),
      unsigned_of_fits (x := t.sec % n * 1000000000 + t.nsec + n / 2) (by omega) (by omega),
      signed_of_fits (by omega) nanos]
    rw [unsigned_of_fits (by omega) (by omega), bind_some,
      signed_of_fits (by omega) (by omega), bind_some]
  · exact ⟨Int.emod_nonneg _ (by decide), Int.emod_lt_of_pos _ (by decide)⟩
  · rw [← half_up, exact]
    simp only [ns]
    omega

end

/-- Sums and differences are exact, and averages rounded to the nearest nanosecond, with nothing
lost on the way. The seconds fit a `time_t` before the carry and after it. -/
theorem ts_arithmetic_exact (a b t : Timespec) (n : Int) (normal : a.Normalized)
    (normal' : b.Normalized) (sec : 0 ≤ t.sec) (nsec : 0 ≤ t.nsec) (long : t.nsec < 2 ^ 63)
    (fits : t.ns < 2 ^ 63 * 1000000000) (positive : 0 < n) (small : n < 2 ^ 33) :
    (-2 ^ 63 ≤ a.sec + b.sec → (a.ns + b.ns) / 1000000000 < 2 ^ 63 →
      ∃ r, Machine.tsAdd a b = some r ∧ r.Normalized ∧ r.ns = a.ns + b.ns) ∧
    (a.sec - b.sec < 2 ^ 63 → -2 ^ 63 ≤ (a.ns - b.ns) / 1000000000 →
      ∃ r, Machine.tsSub a b = some r ∧ r.Normalized ∧ r.ns = a.ns - b.ns) ∧
    ∃ r, Machine.tsDiv t n = some r ∧ r.Normalized ∧ r.ns = (2 * t.ns + n) / (2 * n) := by
  refine ⟨fun low high => ?_, fun high low => ?_, ?_⟩
  · exact ⟨_, machine_tsAdd normal normal' low high, normal_tsAdd normal normal', ns_tsAdd a b⟩
  · exact ⟨_, machine_tsSub normal normal' low high, normal_tsSub normal normal', ns_tsSub a b⟩
  · exact machine_tsDiv positive small sec nsec long fits

/-- At the largest `time_t` and the largest divisor. -/
theorem ts_arithmetic_exact_largest :
    (∃ r, Machine.tsAdd ⟨2 ^ 63 - 2, 999999999⟩ ⟨0, 999999999⟩ = some r ∧ r.Normalized ∧
      r.ns = 2 ^ 63 * 1000000000 - 2) ∧
    ∃ r, Machine.tsDiv ⟨2 ^ 63 - 1, 999999999⟩ (2 ^ 33 - 1) = some r ∧ r.Normalized ∧
      r.ns = 1073741824125000000 := by
  obtain ⟨sum, _, average⟩ := ts_arithmetic_exact ⟨2 ^ 63 - 2, 999999999⟩ ⟨0, 999999999⟩
    ⟨2 ^ 63 - 1, 999999999⟩ (2 ^ 33 - 1) (by decide) (by decide) (by decide) (by decide) (by decide)
    (by decide) (by decide) (by decide)
  exact ⟨sum (by decide) (by decide), average⟩

end Strace.Summary
