import Mathlib.Algebra.Group.Nat.Defs
import Mathlib.Data.List.Basic
import Mathlib.Order.Monotone.Basic

/-! Loops whose body either goes on with another state or ends with a result,
and loops that count a word up to a last value, run for a number of rounds. -/
namespace Strace.Loops
open List BitVec

variable {σ ρ : Type} {body : σ → σ ⊕ ρ} {s s' : σ} {r : ρ}

def iterate (body : σ → σ ⊕ ρ) : Nat → σ → Option ρ
  | 0, _ => none
  | fuel + 1, s =>
    match body s with
    | .inl s' => iterate body fuel s'
    | .inr r => some r

theorem iterate_inl (step : body s = .inl s') (fuel : Nat) :
    iterate body (fuel + 1) s = iterate body fuel s' := by
  simp only [iterate, step]

theorem iterate_inr (done : body s = .inr r) (fuel : Nat) :
    iterate body (fuel + 1) s = some r := by
  simp only [iterate, done]

/-- The loop never ends. -/
def Diverges (body : σ → σ ⊕ ρ) (s : σ) : Prop := ∀ fuel, iterate body fuel s = none

theorem Diverges.of_step (step : body s = .inl s') (later : Diverges body s') :
    Diverges body s := by
  intro fuel
  cases fuel with
  | zero => rfl
  | succ fuel => exact (iterate_inl step fuel).trans (later fuel)

variable {P : σ → Prop}

theorem diverges_of_stuck (stuck : ∀ s, P s → ∃ s', body s = .inl s' ∧ P s') (start : P s) :
    Diverges body s := by
  intro fuel
  induction fuel generalizing s with
  | zero => rfl
  | succ fuel ih =>
    obtain ⟨s', step, next⟩ := stuck s start
    rw [iterate_inl step]
    exact ih next

theorem iterate_ends {Q : ρ → Prop} (measure : σ → Nat)
    (on : ∀ s s', P s → body s = .inl s' → P s' ∧ measure s' < measure s)
    (done : ∀ s r, P s → body s = .inr r → Q r) (start : P s) {fuel : Nat}
    (enough : measure s < fuel) : ∃ r, iterate body fuel s = some r ∧ Q r := by
  induction fuel generalizing s with
  | zero => exact absurd enough (Nat.not_lt_zero _)
  | succ fuel ih =>
    cases step : body s with
    | inl s' =>
      obtain ⟨next, less⟩ := on s s' start step
      rw [iterate_inl step]
      exact ih next (by omega)
    | inr r =>
      exact ⟨r, iterate_inr step fuel, done s r start step⟩

/-! ## Counting -/

section

variable {n : Nat} {β : Type} {visit : BitVec n → Option β} {first last : BitVec n}

def upTo (visit : BitVec n → Option β) : Nat → BitVec n → BitVec n → Option (List β)
  | 0, _, _ => none
  | fuel + 1, i, last =>
    if i ≤ last then do
      let here ← visit i
      let later ← upTo visit fuel (i + 1) last
      some (here :: later)
    else some []

/-- The words from one to another. -/
def between (first last : BitVec n) : List (BitVec n) :=
  (List.range' first.toNat (last.toNat + 1 - first.toNat)).map (BitVec.ofNat n)

variable {i : BitVec n} {cut : Nat → Nat}

theorem toNat_succ (small : i.toNat + 1 < 2 ^ n) : (i + 1).toNat = i.toNat + 1 := by
  simp [Nat.mod_eq_of_lt (by omega)]

theorem mem_between : i ∈ between first last ↔ first ≤ i ∧ i ≤ last := by
  simp only [between, mem_map, mem_range'_1, le_def]
  constructor
  · rintro ⟨k, inside, rfl⟩
    have small : k < 2 ^ n := by
      omega
    rw [toNat_ofNat, Nat.mod_eq_of_lt small]
    omega
  · rintro ⟨above, below⟩
    exact ⟨i.toNat, by omega, by simp⟩

theorem length_between : (between first last).length = last.toNat + 1 - first.toNat := by
  rw [between, length_map, length_range']

theorem between_sorted : (between first last).Pairwise (· < ·) := by
  rw [between, pairwise_map]
  have sorted : (List.range' first.toNat (last.toNat + 1 - first.toNat)).Pairwise (· < ·) :=
    pairwise_lt_range'
  refine sorted.imp_of_mem fun {i j} mem mem' less => ?_
  rw [mem_range'_1] at mem mem'
  rw [lt_def, toNat_ofNat, toNat_ofNat, Nat.mod_eq_of_lt (by omega),
    Nat.mod_eq_of_lt (by omega)]
  exact less

theorem between_eq_nil (empty : last < first) : between first last = [] := by
  simp [between, Nat.sub_eq_zero_of_le empty]

theorem between_eq_cons (some : first ≤ last) (ends : last.toNat + 1 < 2 ^ n) :
    between first last = first :: between (first + 1) last := by
  rw [le_def] at some
  have next : (first + 1).toNat = first.toNat + 1 := toNat_succ (by omega)
  have count : last.toNat + 1 - first.toNat = last.toNat + 1 - (first.toNat + 1) + 1 := by omega
  rw [between, between, next, count, range'_succ, map_cons, ofNat_toNat,
    setWidth_eq]

theorem range'_flatMap (mono : Monotone cut) (a count : Nat) :
    (List.range' a count).flatMap (fun i => List.range' (cut i) (cut (i + 1) - cut i)) =
      List.range' (cut a) (cut (a + count) - cut a) := by
  induction count generalizing a with
  | zero => simp
  | succ count ih =>
    have one : cut a ≤ cut (a + 1) := mono (Nat.le_succ a)
    have all : cut (a + 1) ≤ cut (a + (count + 1)) := mono (by omega)
    rw [range'_succ, flatMap_cons, ih, Nat.add_assoc, Nat.add_comm 1 count]
    have joined := range'_append_1 (s := cut a) (m := cut (a + 1) - cut a)
      (n := cut (a + (count + 1)) - cut (a + 1))
    rw [Nat.add_sub_cancel' one] at joined
    rw [joined]
    congr 1
    omega

theorem between_flatMap {m : Nat} {a b : BitVec m} (mono : Monotone cut)
    {part : BitVec m → BitVec n × BitVec n} (order : a ≤ b) (starts : cut a.toNat = first.toNat)
    (stops : cut (b.toNat + 1) = last.toNat + 1) (parts : ∀ i, a ≤ i → i ≤ b →
      (part i).1.toNat = cut i.toNat ∧ (part i).2.toNat + 1 = cut (i.toNat + 1)) :
    (between a b).flatMap (fun i => between (part i).1 (part i).2) = between first last := by
  have count : a.toNat + (b.toNat + 1 - a.toNat) = b.toNat + 1 := by
    rw [le_def] at order
    omega
  have whole := range'_flatMap mono a.toNat (b.toNat + 1 - a.toNat)
  rw [count, starts, stops] at whole
  rw [between, between, ← whole, map_flatMap, flatMap_map]
  apply flatMap_congr
  intro i mem
  rw [mem_range'_1] at mem
  have small : (BitVec.ofNat m i).toNat = i := by
    rw [toNat_ofNat, Nat.mod_eq_of_lt (by omega)]
  obtain ⟨low, high⟩ := parts (BitVec.ofNat m i) (by rw [le_def]; omega)
    (by rw [le_def]; omega)
  rw [small] at low high
  rw [between, low, high]

theorem upTo_eq {f : BitVec n → β} (ends : last.toNat + 1 < 2 ^ n)
    (total : ∀ i, first ≤ i → i ≤ last → visit i = some (f i)) {fuel : Nat}
    (enough : last.toNat + 1 - first.toNat < fuel) :
    upTo visit fuel first last = some ((between first last).map f) := by
  induction fuel generalizing first with
  | zero => exact absurd enough (Nat.not_lt_zero _)
  | succ fuel ih =>
    unfold upTo
    split
    · next more =>
      have inside : first.toNat ≤ last.toNat := more
      have next : (first + 1).toNat = first.toNat + 1 := toNat_succ (by omega)
      have rest : ∀ i, first + 1 ≤ i → i ≤ last → visit i = some (f i) := by
        intro i above below
        rw [BitVec.le_def] at above
        exact total i (BitVec.le_def.mpr (by omega)) below
      have later := ih rest (by rw [next]; omega)
      simp only [total first (BitVec.le_refl first) more, later, between_eq_cons more ends,
        Option.bind_eq_bind, Option.bind_some, List.map_cons]
    · next done =>
      rw [between_eq_nil (BitVec.not_le.mp done), List.map_nil]

theorem upTo_none (above : first ≤ i) (below : i ≤ last) (stuck : visit i = none) (fuel : Nat) :
    upTo visit fuel first last = none := by
  induction fuel generalizing first with
  | zero => rfl
  | succ fuel ih =>
    have more : first ≤ last := by
      rw [le_def] at above below ⊢
      omega
    unfold upTo
    rw [if_pos more]
    by_cases here : first = i
    · rw [here, stuck]
      rfl
    · have next : first + 1 ≤ i := by
        have differs : first.toNat ≠ i.toNat := fun eq => here (eq_of_toNat_eq eq)
        rw [le_def] at above ⊢
        rw [toNat_succ (by omega)]
        omega
      rw [ih next]
      cases visit first <;> rfl

theorem upTo_max (largest : last.toNat + 1 = 2 ^ n) (fuel : Nat) :
    upTo visit fuel first last = none := by
  induction fuel generalizing first with
  | zero => rfl
  | succ fuel ih =>
    have more : first ≤ last := by
      rw [le_def]
      omega
    unfold upTo
    rw [if_pos more, ih]
    cases visit first <;> rfl

end

end Strace.Loops
