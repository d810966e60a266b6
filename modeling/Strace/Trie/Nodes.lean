import Mathlib.Tactic.Common

/-! Trees of pointer arrays with arrays of words at their leaves: descending to a
leaf, allocating what is missing, and writing a leaf. -/
namespace Strace.Tries
open List Function

variable {α : Type}

/-- What a pointer points to. -/
inductive Node (α : Type) where
  | null
  /-- An allocation with room for so many pointers. -/
  | inner (capacity : Nat) (children : Nat → Node α)
  | block (words : List α)

structure Level where
  capacity : Nat
  pos : Nat
  deriving DecidableEq, Repr

def Node.orAlloc (autoCreate : Bool) (capacity : Nat) : Node α → Node α
  | .null => if autoCreate then .inner capacity fun _ => .null else .null
  | node => node

def descend (autoCreate : Bool) (fresh : List α) :
    List Level → Node α → Option (Node α × Option (List α))
  | [], node =>
    match node with
    | .null => some (if autoCreate then (.block fresh, some fresh) else (.null, none))
    | .block words => some (.block words, some words)
    | .inner _ _ => none
  | level :: rest, node =>
    match node.orAlloc autoCreate level.capacity with
    | .null => some (.null, none)
    | .block _ => none
    | .inner capacity children =>
      if level.pos < capacity then
        (descend autoCreate fresh rest (children level.pos)).map fun (child, found) =>
          (.inner capacity (Function.update children level.pos child), found)
      else none

/-- Writes through the pointer to a leaf. -/
def store (words : List α) : List Level → Node α → Option (Node α)
  | [], .block _ => some (.block words)
  | level :: rest, .inner capacity children =>
    (store words rest (children level.pos)).map fun child =>
      .inner capacity (Function.update children level.pos child)
  | _, _ => none

/-- The leaf at a path. -/
def find : List Nat → Node α → Option (List α)
  | [], .block words => some words
  | pos :: rest, .inner _ children => find rest (children pos)
  | _, _ => none

def Shaped (count : Nat) : List Nat → Node α → Prop
  | _, .null => True
  | [], .block words => words.length = count
  | capacity :: rest, .inner capacity' children =>
    capacity' = capacity ∧ ∀ pos, Shaped count rest (children pos)
  | _, _ => False

section

variable {count : Nat} {levels : List Level} {fresh : List α} {node : Node α}

theorem find_null (path : List Nat) : find path (.null : Node α) = none := by
  cases path <;> rfl

theorem shaped_null (capacities : List Nat) : Shaped count capacities (.null : Node α) := by
  cases capacities <;> trivial

variable {words : List α} {level : Level} {rest : List Level} {node' : Node α}

theorem Shaped.length_of_find {path capacities : List Nat} (shaped : Shaped count capacities node)
    (length : path.length = capacities.length) (found : find path node = some words) :
    words.length = count := by
  induction path generalizing capacities node with
  | nil =>
    cases capacities with
    | cons => cases length
    | nil =>
      cases node with
      | null => cases found
      | inner => cases found
      | block => cases found; exact shaped
  | cons pos rest ih =>
    cases capacities with
    | nil => cases length
    | cons capacity capacities =>
      cases node with
      | null => cases found
      | block => cases found
      | inner capacity' children =>
        exact ih (shaped.2 pos) (Nat.succ.inj length) found

theorem descend_find (shaped : Shaped count (levels.map (·.capacity)) node)
    (inside : ∀ level ∈ levels, level.pos < level.capacity) :
    descend false fresh levels node = some (node, find (levels.map (·.pos)) node) := by
  induction levels generalizing node with
  | nil =>
    cases node with
    | null => rfl
    | inner => exact shaped.elim
    | block => rfl
  | cons level rest ih =>
    cases node with
    | null => rfl
    | block => exact shaped.elim
    | inner capacity children =>
      obtain ⟨rfl, shaped⟩ := shaped
      have next := ih (shaped level.pos) fun level mem => inside level (mem_cons_of_mem _ mem)
      have here := inside level (mem_cons_self ..)
      simp only [descend, Node.orAlloc, here, if_true, next, Option.map_some,
        update_eq_self, find, map_cons]

structure Changes (count : Nat) (levels : List Level) (node node' : Node α)
    (words : List α) : Prop where
  shaped : Shaped count (levels.map (·.capacity)) node'
  here : find (levels.map (·.pos)) node' = some words
  frame : ∀ path, path.length = levels.length → path ≠ levels.map (·.pos) →
    find path node' = find path node

theorem Changes.update {children : Nat → Node α} {child : Node α}
    (shaped : ∀ pos, Shaped count (rest.map (·.capacity)) (children pos))
    (changes : Changes count rest (children level.pos) child words) :
    Changes count (level :: rest) (.inner level.capacity children)
      (.inner level.capacity (Function.update children level.pos child)) words := by
  constructor
  · refine ⟨rfl, fun pos => ?_⟩
    by_cases eq : pos = level.pos
    · subst eq
      rw [update_self]
      exact changes.shaped
    · grind
  · simpa [find] using changes.here
  · intro path length other
    cases path with
    | nil => cases length
    | cons pos path =>
      simp only [find]
      by_cases eq : pos = level.pos
      · subst eq
        rw [update_self]
        apply changes.frame path (Nat.succ.inj length)
        rintro rfl
        exact other rfl
      · rw [update_of_ne eq]

theorem Changes.of_null
    (changes : Changes count (level :: rest) (.inner level.capacity fun _ => .null) node' words) :
    Changes count (level :: rest) .null node' words := by
  refine ⟨changes.shaped, changes.here, fun path length other => ?_⟩
  rw [changes.frame path length other]
  cases path with
  | nil => rfl
  | cons pos path => exact find_null path

theorem descend_create (full : fresh.length = count)
    (shaped : Shaped count (levels.map (·.capacity)) node)
    (inside : ∀ level ∈ levels, level.pos < level.capacity) :
    ∃ node', descend true fresh levels node =
        some (node', some ((find (levels.map (·.pos)) node).getD fresh)) ∧
      Changes count levels node node' ((find (levels.map (·.pos)) node).getD fresh) := by
  induction levels generalizing node with
  | nil =>
    cases node with
    | null =>
      refine ⟨.block fresh, rfl, full, rfl, fun path length other => ?_⟩
      exact absurd (eq_nil_of_length_eq_zero length) other
    | inner => exact shaped.elim
    | block words =>
      refine ⟨.block words, rfl, shaped, rfl, fun path length other => ?_⟩
      exact absurd (eq_nil_of_length_eq_zero length) other
  | cons level rest ih =>
    have here := inside level (mem_cons_self ..)
    have inside' : ∀ level ∈ rest, level.pos < level.capacity :=
      fun level mem => inside level (mem_cons_of_mem _ mem)
    cases node with
    | null =>
      obtain ⟨child, down, changes⟩ := ih (shaped_null _) inside'
      rw [find_null] at down changes
      refine ⟨_, ?_, (changes.update fun _ => shaped_null _).of_null⟩
      simp only [descend, Node.orAlloc, here, if_true, down, Option.map_some,
        find_null]
    | block => exact shaped.elim
    | inner capacity children =>
      obtain ⟨rfl, shaped⟩ := shaped
      obtain ⟨child, down, changes⟩ := ih (shaped level.pos) inside'
      refine ⟨_, ?_, changes.update shaped⟩
      simp only [descend, Node.orAlloc, here, if_true, down, Option.map_some, map_cons, find]

theorem store_changes {old : List α} (full : words.length = count)
    (shaped : Shaped count (levels.map (·.capacity)) node)
    (found : find (levels.map (·.pos)) node = some old) :
    ∃ node', store words levels node = some node' ∧ Changes count levels node node' words := by
  induction levels generalizing node with
  | nil =>
    cases node with
    | null => cases found
    | inner => cases found
    | block =>
      refine ⟨.block words, rfl, full, rfl, fun path length other => ?_⟩
      exact absurd (eq_nil_of_length_eq_zero length) other
  | cons level rest ih =>
    cases node with
    | null => cases found
    | block => cases found
    | inner capacity children =>
      obtain ⟨rfl, shaped⟩ := shaped
      obtain ⟨child, down, changes⟩ := ih (shaped level.pos) found
      refine ⟨_, ?_, changes.update shaped⟩
      simp only [store, down, Option.map_some]

theorem Changes.trans {node'' : Node α} {words' : List α}
    (first : Changes count levels node node' words)
    (second : Changes count levels node' node'' words') :
    Changes count levels node node'' words' :=
  ⟨second.shaped, second.here, fun path length other =>
    (second.frame path length other).trans (first.frame path length other)⟩

end

end Strace.Tries
