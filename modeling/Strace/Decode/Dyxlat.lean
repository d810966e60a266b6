import Mathlib.Data.List.Induction

/-! `dyxlat.c`: a table of names that grows, as replies from netlink bring them. -/
namespace Strace.Dyxlat

/-- A string that `xstrndup` has made. -/
abbrev Name := { bytes : List UInt8 // 0 ∉ bytes }

/-- The block that is allocated for it. -/
def Name.block (name : Name) : List UInt8 := name.1 ++ [0]

def xstrndup (data : List UInt8) : Name :=
  ⟨data.takeWhile (· ≠ 0), fun mem => by simpa using List.all_eq_true.mp List.all_takeWhile 0 mem⟩

structure Entry where
  val : UInt64
  str : Name
  deriving DecidableEq

structure Pair where
  val : UInt64
  data : List UInt8

def strncmp : List UInt8 → List UInt8 → Option Bool
  | _, [] => some true
  | [], _ :: _ => none
  | x :: xs, y :: ys => if x ≠ y then some false else if x = 0 then some true else strncmp xs ys

/-- Whether the name is found to be the same. -/
def isSame (block data : List UInt8) : Option Bool := do
  if ← strncmp block data then return (← block[data.length]?) = 0
  else return false

def dyxlatAddPair (pair : Pair) : List Entry → Option (List Entry)
  | [] => some [⟨pair.val, xstrndup pair.data⟩]
  | entry :: rest =>
    if entry.val = pair.val then
      (isSame entry.str.block pair.data).map fun same =>
        (if same then entry else { entry with str := xstrndup pair.data }) :: rest
    else (dyxlatAddPair pair rest).map (entry :: ·)

def addAll (pairs : List Pair) : Option (List Entry) :=
  pairs.foldlM (fun table pair => dyxlatAddPair pair table) []

def lookup (table : List Entry) (val : UInt64) : Option Name :=
  (table.find? (·.val = val)).map (·.str)

/-- The name that was added last for a value. -/
def lastName (val : UInt64) (pairs : List Pair) : Option Name :=
  pairs.foldl (fun found pair => if pair.val = val then some (xstrndup pair.data) else found) none

def Repeats (known : Option Name) (pair : Pair) : Prop :=
  0 ∈ pair.data ∧ known = some (xstrndup pair.data)

instance (known : Option Name) (pair : Pair) : Decidable (Repeats known pair) :=
  inferInstanceAs (Decidable (_ ∧ _))

theorem isSame_eq (name data : List UInt8) (ends : 0 ∉ name) :
    isSame (name ++ [0]) data =
      if name = data.takeWhile (· ≠ 0) then if 0 ∈ data then none else some true
      else some false := by
  induction name generalizing data with
  | nil =>
    cases data with
    | nil => rfl
    | cons y ys =>
      by_cases zero : y = 0
      · simp [isSame, strncmp, zero]
      · simp [isSame, strncmp, zero, Ne.symm zero]
  | cons x xs ih =>
    obtain ⟨nonzero, ends⟩ : 0 ≠ x ∧ 0 ∉ xs := by simpa using ends
    cases data with
    | nil => simp [isSame, strncmp, nonzero.symm]
    | cons y ys =>
      by_cases same : x = y
      · subst same
        have step : isSame (x :: xs ++ [0]) (x :: ys) = isSame (xs ++ [0]) ys := by
          simp [isSame, strncmp, nonzero.symm]
        rw [step, ih ys ends]
        simp [nonzero, nonzero.symm]
      · have differs :
          isSame (x :: xs ++ [0]) (y :: ys) = some false := by simp [isSame, strncmp, same]
        rw [differs]
        by_cases zero : y = 0 <;> simp [zero, same]

theorem isSame_block (name : Name) (data : List UInt8) :
    isSame name.block data =
      if name = xstrndup data then if 0 ∈ data then none else some true else some false := by
  simp [Name.block, isSame_eq _ _ name.2, xstrndup, Subtype.ext_iff]

/-- The table with the name of a pair. -/
def put (pair : Pair) : List Entry → List Entry
  | [] => [⟨pair.val, xstrndup pair.data⟩]
  | entry :: rest =>
    if entry.val = pair.val then { entry with str := xstrndup pair.data } :: rest
    else entry :: put pair rest

theorem lookup_cons (entry : Entry) (table : List Entry) (val : UInt64) :
    lookup (entry :: table) val = if entry.val = val then some entry.str else lookup table val := by
  by_cases here : entry.val = val <;> simp [lookup, here]

variable (pair : Pair) (table : List Entry)

theorem dyxlatAddPair_eq :
    dyxlatAddPair pair table =
      if Repeats (lookup table pair.val) pair then none else some (put pair table) := by
  induction table with
  | nil => simp [dyxlatAddPair, put, Repeats, lookup]
  | cons entry rest ih =>
    rw [dyxlatAddPair, put, lookup_cons]
    by_cases here : entry.val = pair.val
    · rw [if_pos here, if_pos here, if_pos here, isSame_block]
      unfold Repeats
      by_cases same : entry.str = xstrndup pair.data
      · by_cases null : 0 ∈ pair.data <;> simp [null, ← same]
      · simp [same]
    · grind

theorem lookup_put (val : UInt64) :
    lookup (put pair table) val =
      if pair.val = val then some (xstrndup pair.data) else lookup table val := by
  induction table with
  | nil => rw [put, lookup_cons]
  | cons entry rest ih =>
    rw [put]
    by_cases here : entry.val = pair.val
    · rw [if_pos here, lookup_cons, lookup_cons, here]
      split <;> rfl
    · rw [if_neg here, lookup_cons, lookup_cons]
      grind

theorem map_val_put :
    (put pair table).map (·.val) = if pair.val ∈ table.map (·.val) then table.map (·.val)
      else table.map (·.val) ++ [pair.val] := by
  induction table with
  | nil => rfl
  | cons entry rest ih =>
    rw [put]
    by_cases here : entry.val = pair.val
    · simp [here]
    · grind

def Names (table : List Entry) (pairs : List Pair) : Prop :=
  (table.map (·.val)).Nodup ∧ ∀ val, lookup table val = lastName val pairs

variable {pair table} {pairs : List Pair}

theorem Names.put (names : Names table pairs) : Names (put pair table) (pairs ++ [pair]) := by
  obtain ⟨distinct, looked⟩ := names
  refine ⟨?_, fun val => ?_⟩
  · rw [map_val_put]
    split
    · exact distinct
    · next new => simpa [List.nodup_append, distinct] using new
  · simp [lookup_put, looked, lastName]

theorem addAll_concat :
    addAll (pairs ++ [pair]) = (addAll pairs).bind (dyxlatAddPair pair) := by
  simp [addAll]

theorem addAll_names (added : addAll pairs = some table) : Names table pairs := by
  induction pairs using List.reverseRecOn generalizing table with
  | nil =>
    cases added
    exact ⟨List.nodup_nil, fun _ => rfl⟩
  | append_singleton pairs pair ih =>
    rw [addAll_concat, Option.bind_eq_some_iff] at added
    obtain ⟨before, added, last⟩ := added
    rw [dyxlatAddPair_eq] at last
    split at last
    · cases last
    · cases last
      exact (ih added).put

/-- No read past a stored name, and the right names after it, if and only if no pair with a null
byte brings the name again that its value has by then. -/
theorem dyxlat_names_iff (pairs : List Pair) :
    (∃ table, addAll pairs = some table ∧ (table.map (·.val)).Nodup ∧
      ∀ val, lookup table val = lastName val pairs) ↔
      ∀ before pair after, pairs = before ++ pair :: after →
        ¬ (0 ∈ pair.data ∧ lastName pair.val before = some (xstrndup pair.data)) := by
  constructor
  · rintro ⟨table, added, _⟩ before pair after rfl
    rw [List.append_cons, addAll, List.foldlM_append, Option.bind_eq_bind,
      Option.bind_eq_some_iff] at added
    obtain ⟨_, (added : addAll _ = _), _⟩ := added
    rw [addAll_concat, Option.bind_eq_some_iff] at added
    obtain ⟨earlier, added, step⟩ := added
    rw [dyxlatAddPair_eq, (addAll_names added).2] at step
    intro repeats
    simp [Repeats, repeats] at step
  · intro renews
    induction pairs using List.reverseRecOn with
    | nil => exact ⟨[], rfl, addAll_names rfl⟩
    | append_singleton pairs pair ih =>
      obtain ⟨table, added, names⟩ := ih fun before p after split =>
        renews before p (after ++ [pair]) (by simp [split])
      have stored : addAll (pairs ++ [pair]) = some (put pair table) := by
        rw [addAll_concat, added, Option.bind_some, dyxlatAddPair_eq, if_neg]
        rw [names.2]
        exact renews pairs pair [] rfl
      exact ⟨_, stored, addAll_names stored⟩

/-- The reply for a family that is known already: its name comes with the null byte. -/
theorem dyxlat_reads_past_name :
    ¬ ∃ table, addAll [⟨16, [110, 108, 0]⟩, ⟨16, [110, 108, 0]⟩] = some table ∧
      (table.map (·.val)).Nodup ∧
      ∀ val, lookup table val = lastName val [⟨16, [110, 108, 0]⟩, ⟨16, [110, 108, 0]⟩] := by
  rintro ⟨table, added, _⟩
  have none : addAll [⟨16, [110, 108, 0]⟩, ⟨16, [110, 108, 0]⟩] = .none := by decide
  rw [none] at added
  cases added

end Strace.Dyxlat
