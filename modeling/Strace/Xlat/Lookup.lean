import Strace.Xlat.Flags

/-! `xlookup_le` of `xlat.c`: the last entry of a sorted table that is not above a value. -/
namespace Strace.Xlat

open Buffers (CString)

/-- `enum xlat_type`. -/
inductive XlatType where
  | normal
  | sorted
  | indexed

/-- `struct xlat`. A null pointer is `none`. -/
structure Table where
  type : XlatType
  data : Option (List XlatData)

def searchFrom (data : List XlatData) (val : UInt64) (base nmemb cur : Nat) : Option (Bool × Nat) :=
  if nmemb = 0 then some (false, cur)
  else
    match data[base + nmemb / 2]? with
    | none => none
    | some entry =>
      if val = entry.val then some (true, base + nmemb / 2)
      else if val > entry.val then
        searchFrom data val (base + nmemb / 2 + 1) ((nmemb - 1) / 2) (base + nmemb / 2)
      else searchFrom data val base (nmemb / 2) (base + nmemb / 2)
termination_by nmemb

def xlatSearchEqOrLess (data : List XlatData) (val : UInt64) :
    Option (Option CString × UInt64) := do
  let (found, cur) ← searchFrom data val 0 data.length 0
  let entry ← data[cur]?
  if found then return (entry.str, val)
  else if val < entry.val then
    if 0 < cur then
      let entry ← data[cur - 1]?
      return (entry.str, entry.val)
    else return (none, val)
  else return (entry.str, entry.val)

def xlookupLe (xlat : Option Table) (val : UInt64) : Option (Option CString × UInt64) :=
  match xlat with
  | some ⟨.sorted, some data⟩ => xlatSearchEqOrLess data val
  | _ => some (none, val)

variable {data : List XlatData} {val : UInt64} {base nmemb cur : Nat} {entry : XlatData}

def Parts (data : List XlatData) (val : UInt64) (low high : Nat) : Prop :=
  ∀ i entry, data[i]? = some entry → (i < low → entry.val < val) ∧ (high ≤ i → val < entry.val)

section
variable (sorted : data.Pairwise (·.val < ·.val))
include sorted

theorem sorted_get {i j : Nat} {first second : XlatData} (lt : i < j) (at_i : data[i]? = some first)
    (at_j : data[j]? = some second) : first.val < second.val := by
  obtain ⟨_, rfl⟩ := List.getElem?_eq_some_iff.mp at_i
  obtain ⟨_, rfl⟩ := List.getElem?_eq_some_iff.mp at_j
  exact List.pairwise_iff_getElem.mp sorted i j _ _ lt

theorem Parts.greatest {k : Nat} (parts : Parts data val (k + 1) (k + 1))
    (here : data[k]? = some entry) :
    entry.val ≤ val ∧ ∀ e ∈ data, e.val ≤ val → e.val ≤ entry.val := by
  refine ⟨UInt64.le_of_lt ((parts k entry here).1 (Nat.lt_succ_self k)), fun e mem le => ?_⟩
  obtain ⟨i, there⟩ := List.mem_iff_getElem?.mp mem
  rcases Nat.lt_trichotomy i k with lt | rfl | gt
  · exact UInt64.le_of_lt (sorted_get sorted lt there here)
  · simp [Option.some.inj (there.symm.trans here)]
  · exact absurd le (UInt64.not_le.mpr ((parts i e there).2 gt))

theorem searchFrom_spec (window : base + nmemb ≤ data.length)
    (parts : Parts data val base (base + nmemb))
    (probed : nmemb = 0 → cur < data.length ∧ (cur = base ∨ cur + 1 = base)) :
    ∃ found k entry, searchFrom data val base nmemb cur = some (found, k) ∧ data[k]? = some entry ∧
      if found then entry.val = val
      else ∃ place, Parts data val place place ∧ (k = place ∨ k + 1 = place) := by
  fun_induction searchFrom data val base nmemb cur with
  | case1 base cur =>
    obtain ⟨inside, near⟩ := probed rfl
    exact ⟨false, cur, data[cur], rfl, List.getElem?_eq_getElem inside, base, parts, near⟩
  | case2 base nmemb cur more outside =>
    grind
  | case3 base nmemb cur more entry here eq => exact ⟨true, _, entry, rfl, here, eq.symm⟩
  | case4 base nmemb cur more entry here other above ih =>
    have size : base + nmemb / 2 + 1 + (nmemb - 1) / 2 = base + nmemb := by omega
    refine ih (by omega) (fun i e there => ?_) (by omega)
    rw [size]
    refine ⟨fun before => ?_, (parts i e there).2⟩
    rcases Nat.lt_or_eq_of_le (Nat.le_of_lt_succ before) with lt | rfl
    · exact UInt64.lt_trans (sorted_get sorted lt there here) above
    · rwa [← Option.some.inj (here.symm.trans there)]
  | case5 base nmemb cur more entry here other notAbove ih =>
    have below := UInt64.lt_of_le_of_ne (UInt64.not_lt.mp notAbove) other
    refine ih (by omega) (fun i e there => ⟨(parts i e there).1, fun after => ?_⟩) (by omega)
    rcases Nat.lt_or_eq_of_le after with lt | rfl
    · exact UInt64.lt_trans below (sorted_get sorted lt here there)
    · rwa [← Option.some.inj (here.symm.trans there)]

/-- The greatest of the values up to the given one, and the name that goes with it. -/
theorem xlookup_le_greatest (val : UInt64) (nonempty : data ≠ []) :
    ∃ str val', xlookupLe (some ⟨.sorted, some data⟩) val = some (str, val') ∧
      ((str = none ∧ val' = val ∧ ∀ e ∈ data, val < e.val) ∨
        ∃ e ∈ data, str = e.str ∧ val' = e.val ∧ e.val ≤ val ∧
          ∀ e' ∈ data, e'.val ≤ val → e'.val ≤ e.val) := by
  have positive := List.length_pos_of_ne_nil nonempty
  have whole : Parts data val 0 (0 + data.length) := fun i e there => by
    have := (List.getElem?_eq_some_iff.mp there).1
    omega
  have probed : data.length = 0 → 0 < data.length ∧ (0 = 0 ∨ 0 + 1 = 0) := by omega
  obtain ⟨found, k, entry, searched, here, spec⟩ :=
    searchFrom_spec sorted (Nat.le_of_eq (Nat.zero_add _)) whole probed
  have mem := List.mem_of_getElem? here
  simp only [xlookupLe, xlatSearchEqOrLess, searched, here, Option.bind_eq_bind, Option.bind_some]
  cases found with
  | true =>
    subst spec
    exact ⟨_, _, rfl, .inr ⟨entry, mem, rfl, rfl, UInt64.le_refl _, fun _ _ le => le⟩⟩
  | false =>
    obtain ⟨place, parts, rfl | rfl⟩ := spec
    · have below := (parts k entry here).2 (Nat.le_refl k)
      simp only [below]
      cases k with
      | zero =>
        refine ⟨none, val, rfl, .inl ⟨rfl, rfl, fun e mem => ?_⟩⟩
        obtain ⟨i, there⟩ := List.mem_iff_getElem?.mp mem
        exact (parts i e there).2 (Nat.zero_le i)
      | succ k =>
        obtain ⟨inside, _⟩ := List.getElem?_eq_some_iff.mp here
        have before : data[k]? = some data[k] := List.getElem?_eq_getElem (by omega)
        simp only [Nat.add_sub_cancel, before]
        exact ⟨_, _, rfl,
          .inr ⟨_, List.mem_of_getElem? before, rfl, rfl, Parts.greatest sorted parts before⟩⟩
    · have above :=
        UInt64.not_lt.mpr (UInt64.le_of_lt ((parts k entry here).1 (Nat.lt_succ_self k)))
      simp only [above]
      exact ⟨_, _, rfl, .inr ⟨entry, mem, rfl, rfl, Parts.greatest sorted parts here⟩⟩

end

/-- Between two entries. -/
theorem xlookup_le_greatest_between :
    ∃ str val', xlookupLe (some ⟨.sorted, some [⟨2, none⟩, ⟨5, none⟩]⟩) 4 = some (str, val') ∧
      ((str = none ∧ val' = 4 ∧ ∀ e ∈ [⟨2, none⟩, ⟨5, none⟩], 4 < XlatData.val e) ∨
        ∃ e ∈ [⟨2, none⟩, ⟨5, none⟩], str = XlatData.str e ∧ val' = e.val ∧ e.val ≤ 4 ∧
          ∀ e' ∈ [⟨2, none⟩, ⟨5, none⟩], XlatData.val e' ≤ 4 → e'.val ≤ e.val) :=
  xlookup_le_greatest (by simp) 4 (by simp)

end Strace.Xlat
