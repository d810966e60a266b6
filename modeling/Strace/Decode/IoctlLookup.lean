import Mathlib.Data.List.Basic

/-! The entries of an ioctl code, as `ioctl_lookup` and `ioctl_next_match` walk through them. Of a
table only the codes are read. -/
namespace Strace.Ioctl

def Bsearch (ioctlent : List UInt32) (code : UInt32) : Option Nat → Prop
  | some iop => ioctlent[iop]? = some code
  | none => code ∉ ioctlent

def lookBack (ioctlent : List UInt32) (code : UInt32) : Nat → Option Nat
  | 0 => some 0
  | iop + 1 =>
    match ioctlent[iop]? with
    | none => none
    | some c => if c ≠ code then some (iop + 1) else lookBack ioctlent code iop

def ioctlLookup (ioctlent : List UInt32) (code : UInt32) : Option Nat → Option (Option Nat)
  | none => some none
  | some iop => (lookBack ioctlent code iop).map some

def ioctlNextMatch (ioctlent : List UInt32) (iop : Nat) : Option (Option Nat) := do
  let code ← ioctlent[iop]?
  if iop + 1 < ioctlent.length then
    let next ← ioctlent[iop + 1]?
    return if next = code then some (iop + 1) else none
  else return none

def matchesFrom (ioctlent : List UInt32) : (fuel : Nat) → Option Nat → Option (List Nat)
  | 0, _ => none
  | _ + 1, none => some []
  | fuel + 1, some iop => do
    let next ← ioctlNextMatch ioctlent iop
    let rest ← matchesFrom ioctlent fuel next
    return iop :: rest

/-- The entries from one on that have a code. -/
def codesFrom (ioctlent : List UInt32) (code : UInt32) (start : Nat) : List Nat :=
  (List.range' start (ioctlent.length - start)).filter fun i => ioctlent[i]? = some code

variable {ioctlent : List UInt32} {code : UInt32}

theorem codesFrom_eq_nil {start : Nat} (none : ∀ i, start ≤ i → ioctlent[i]? ≠ some code) :
    codesFrom ioctlent code start = [] := by
  rw [codesFrom, List.filter_eq_nil_iff]
  intro i mem
  simpa using none i (List.mem_range'_1.mp mem).1

theorem codesFrom_here {iop : Nat} (here : ioctlent[iop]? = some code) :
    codesFrom ioctlent code iop = iop :: codesFrom ioctlent code (iop + 1) := by
  obtain ⟨inside, _⟩ := List.getElem?_eq_some_iff.mp here
  have left : ioctlent.length - iop = ioctlent.length - (iop + 1) + 1 := by omega
  simp [codesFrom, left, List.range'_succ, here]

theorem codesFrom_zero {first : Nat} (none : ∀ i < first, ioctlent[i]? ≠ some code)
    (inside : first ≤ ioctlent.length) :
    codesFrom ioctlent code 0 = codesFrom ioctlent code first := by
  have parts := List.range'_append_1 (s := 0) (m := first) (n := ioctlent.length - first)
  rw [Nat.zero_add, Nat.add_sub_cancel' inside] at parts
  rw [codesFrom, Nat.sub_zero, ← parts, List.filter_append, List.filter_eq_nil_iff.mpr, codesFrom,
    List.nil_append]
  intro i mem
  simpa using none i (by simpa using mem)

theorem ioctlNextMatch_eq {iop : Nat} (here : ioctlent[iop]? = some code) :
    ioctlNextMatch ioctlent iop =
      some (if ioctlent[iop + 1]? = some code then some (iop + 1) else none) := by
  by_cases more : iop + 1 < ioctlent.length <;> simp [ioctlNextMatch, here, more]

section
variable (sorted : ioctlent.Pairwise (· ≤ ·))
include sorted

theorem le_of_sorted {i j : Nat} {a b : UInt32} (lt : i < j) (at_i : ioctlent[i]? = some a)
    (at_j : ioctlent[j]? = some b) : a ≤ b := by
  obtain ⟨_, rfl⟩ := List.getElem?_eq_some_iff.mp at_i
  obtain ⟨_, rfl⟩ := List.getElem?_eq_some_iff.mp at_j
  exact List.pairwise_iff_getElem.mp sorted i j _ _ lt

theorem other_beyond {i j k : Nat} {c : UInt32} (here : ioctlent[i]? = some code)
    (differs : ioctlent[j]? = some c) (ne : c ≠ code) (beyond : i < j ∧ j < k ∨ k < j ∧ j < i) :
    ioctlent[k]? ≠ some code := by
  intro there
  rcases beyond with ⟨lt, lt'⟩ | ⟨lt, lt'⟩
  · exact ne (UInt32.le_antisymm (le_of_sorted sorted lt' differs there)
      (le_of_sorted sorted lt here differs))
  · exact ne (UInt32.le_antisymm (le_of_sorted sorted lt' differs here)
      (le_of_sorted sorted lt there differs))

theorem lookBack_first {iop : Nat} (here : ioctlent[iop]? = some code) :
    ∃ first, lookBack ioctlent code iop = some first ∧ ioctlent[first]? = some code ∧
      ∀ i < first, ioctlent[i]? ≠ some code := by
  induction iop with
  | zero => exact ⟨0, rfl, here, fun i lt => absurd lt (Nat.not_lt_zero i)⟩
  | succ iop ih =>
    obtain ⟨inside, _⟩ := List.getElem?_eq_some_iff.mp here
    have before : ioctlent[iop]? = some ioctlent[iop] := List.getElem?_eq_getElem (by omega)
    by_cases same : ioctlent[iop] = code
    · obtain ⟨first, found, rest⟩ := ih (same ▸ before)
      exact ⟨first, by simp [lookBack, before, same, found], rest⟩
    · refine ⟨iop + 1, by simp [lookBack, before, same], here, fun i lt => ?_⟩
      rcases Nat.lt_or_eq_of_le (Nat.le_of_lt_succ lt) with lt | rfl
      · exact other_beyond sorted here before same (.inr ⟨lt, Nat.lt_succ_self iop⟩)
      · simpa [before] using same

theorem matchesFrom_eq {fuel iop : Nat} (enough : ioctlent.length < iop + fuel)
    (here : ioctlent[iop]? = some code) :
    matchesFrom ioctlent fuel (some iop) = some (codesFrom ioctlent code iop) := by
  induction fuel generalizing iop with
  | zero =>
    obtain ⟨inside, _⟩ := List.getElem?_eq_some_iff.mp here
    omega
  | succ fuel ih =>
    rw [matchesFrom, ioctlNextMatch_eq here, codesFrom_here here]
    by_cases next : ioctlent[iop + 1]? = some code
    · simp [next, ih (by omega) next]
    · have last : codesFrom ioctlent code (iop + 1) = [] := codesFrom_eq_nil fun i le there => by
        obtain ⟨inside, _⟩ := List.getElem?_eq_some_iff.mp there
        rcases Nat.lt_or_eq_of_le le with lt | rfl
        · have after : ioctlent[iop + 1]? = some ioctlent[iop + 1] :=
            List.getElem?_eq_getElem (by omega)
          refine other_beyond sorted here after (fun same => next (same ▸ after)) ?_ there
          exact .inl ⟨Nat.lt_succ_self iop, lt⟩
        · exact next there
      obtain ⟨inside, _⟩ := List.getElem?_eq_some_iff.mp here
      obtain ⟨fuel, rfl⟩ : ∃ n, fuel = n + 1 := ⟨fuel - 1, by omega⟩
      simp [next, last, matchesFrom]

/-- Whichever entry `bsearch` returns, all entries of the code come up, each once and in order. -/
theorem ioctl_matches_all (code : UInt32) (iop : Option Nat) (found : Bsearch ioctlent code iop) :
    (ioctlLookup ioctlent code iop).bind (matchesFrom ioctlent (ioctlent.length + 1)) =
      some ((List.range ioctlent.length).filter fun i => ioctlent[i]? = some code) := by
  have all : (List.range ioctlent.length).filter (fun i => ioctlent[i]? = some code) =
      codesFrom ioctlent code 0 := by
    rw [codesFrom, List.range_eq_range', Nat.sub_zero]
  rw [all]
  cases iop with
  | none =>
    rw [codesFrom_eq_nil fun i _ there => found (List.mem_of_getElem? there)]
    rfl
  | some iop =>
    obtain ⟨first, back, here, before⟩ := lookBack_first sorted found
    obtain ⟨inside, _⟩ := List.getElem?_eq_some_iff.mp here
    rw [codesFrom_zero before (by omega), ioctlLookup, back]
    exact matchesFrom_eq sorted (by omega) here

end

/-- From the middle of three entries. -/
theorem ioctl_matches_all_middle :
    (ioctlLookup [1, 7, 7, 7, 9] 7 (some 2)).bind (matchesFrom [1, 7, 7, 7, 9] 6) =
      some [1, 2, 3] :=
  ioctl_matches_all (by decide) 7 (some 2) rfl

end Strace.Ioctl
