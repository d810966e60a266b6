import Mathlib.Data.List.Basic

/-! `list.h`: circular lists whose items are part of other structures. The addresses are of
any type. -/
namespace Strace.Poke
open List Option Function

/-- A null pointer is `none`. -/
structure ListItem (α : Type) where
  prev : Option α
  next : Option α

abbrev Memory (α : Type) : Type := α → Option (ListItem α)

variable {α σ : Type} [DecidableEq α]

namespace Memory

def setPrev (m : Memory α) (p prev : Option α) : Option (Memory α) := do
  let a ← p
  let item ← m a
  some (Function.update m a (some { item with prev }))

def setNext (m : Memory α) (p next : Option α) : Option (Memory α) := do
  let a ← p
  let item ← m a
  some (Function.update m a (some { item with next }))

end Memory

def listInit (m : Memory α) (l : α) : Option (Memory α) := do
  let m ← m.setPrev (some l) (some l)
  m.setNext (some l) (some l)

def listInsert (m : Memory α) (head item : α) : Option (Memory α) := do
  let first ← m head
  let m ← m.setNext (some item) first.next
  let m ← m.setPrev (some item) (some head)
  let first ← m head
  let m ← m.setPrev first.next (some item)
  m.setNext (some head) (some item)

def foreachFrom (m : Memory α) (head : α) (body : σ → α → Option (σ × Bool)) :
    Nat → Option α → σ → Option σ
  | 0, _, _ => none
  | rounds + 1, p, s =>
    if p = some head then some s
    else do
      let a ← p
      let (s, leaves) ← body s a
      if leaves then some s
      else
        let item ← m a
        foreachFrom m head body rounds item.next s

def listForeach (m : Memory α) (head : α) (body : σ → α → Option (σ × Bool)) (rounds : Nat)
    (s : σ) : Option σ := do
  let first ← m head
  foreachFrom m head body rounds first.next s

/-! ## What the loop goes through -/

/-- The pointers to the next items. -/
def Memory.nexts (m : Memory α) (a : α) : Option (Option α) := (m a).map ListItem.next

inductive Leads (nexts : α → Option (Option α)) : Option α → List α → Option α → Prop
  | here (p : Option α) : Leads nexts p [] p
  | next {a : α} {p q : Option α} {items : List α} (follows : nexts a = some p)
      (leads : Leads nexts p items q) : Leads nexts (some a) (a :: items) q

def Holds (nexts : α → Option (Option α)) (head : α) (items : List α) : Prop :=
  head ∉ items ∧ Leads nexts (some head) (head :: items) (some head)

def eachItem (body : σ → α → Option (σ × Bool)) : List α → σ → Option (σ × Bool)
  | [], s => some (s, false)
  | a :: items, s => do
    let (s, leaves) ← body s a
    if leaves then some (s, true) else eachItem body items s

section
variable {nexts nexts' : α → Option (Option α)} {p q : Option α} {items : List α}

omit [DecidableEq α] in
theorem Leads.congr (leads : Leads nexts p items q) (same : ∀ a ∈ items, nexts' a = nexts a) :
    Leads nexts' p items q := by
  induction leads with
  | here p => exact .here p
  | next follows leads ih =>
    rw [forall_mem_cons] at same
    exact .next (same.1.trans follows) (ih same.2)

variable {head : α} {m : Memory α} {body : σ → α → Option (σ × Bool)} {rounds : Nat}

omit [DecidableEq α] in
theorem Holds.congr (holds : Holds nexts head items) (same : nexts' head = nexts head)
    (others : ∀ a ∈ items, nexts' a = nexts a) : Holds nexts' head items :=
  ⟨holds.1, holds.2.congr (forall_mem_cons.mpr ⟨same, others⟩)⟩

omit [DecidableEq α] in
theorem Leads.live (leads : Leads nexts p items q) {a : α} (mem : a ∈ items) :
    ∃ next, nexts a = some next := by
  induction leads with
  | here => cases mem
  | next follows leads ih =>
    rcases mem_cons.mp mem with rfl | mem
    · exact ⟨_, follows⟩
    · exact ih mem

theorem foreachFrom_leads (leads : Leads m.nexts p items q) (other : head ∉ items) (rounds : Nat)
    (s : σ) :
    foreachFrom m head body (items.length + rounds) p s =
      (eachItem body items s).bind fun (s, leaves) =>
        if leaves then some s else foreachFrom m head body rounds q s := by
  induction leads generalizing s with
  | here p =>
    rw [length_nil, Nat.zero_add]
    rfl
  | @next a p q items follows leads ih =>
    rw [mem_cons, not_or] at other
    obtain ⟨item, live, rfl⟩ := map_eq_some_iff.mp follows
    have past : ¬ some a = some head := fun same => other.1 (Option.some.inj same).symm
    rw [length_cons, Nat.add_right_comm, foreachFrom, if_neg past, eachItem]
    simp only [bind_eq_bind, bind_some, live]
    cases body s a with
    | none => rfl
    | some result =>
      obtain ⟨s, leaves⟩ := result
      cases leaves with
      | true => rfl
      | false => exact ih other.2 s

theorem listForeach_holds (holds : Holds m.nexts head items) (enough : items.length < rounds)
    (s : σ) :
    listForeach m head body rounds s = (eachItem body items s).map Prod.fst := by
  obtain ⟨other, leads⟩ := holds
  cases leads with | next follows leads =>
  obtain ⟨first, live, rfl⟩ := map_eq_some_iff.mp follows
  obtain ⟨more, rfl⟩ := Nat.exists_eq_add_of_lt enough
  rw [listForeach, live]
  refine (foreachFrom_leads leads other (more + 1) s).trans ?_
  cases eachItem body items s with
  | none => rfl
  | some result =>
    obtain ⟨s, leaves⟩ := result
    cases leaves with
    | true => rfl
    | false => exact if_pos rfl

omit [DecidableEq α] in
theorem eachItem_stays (stays : ∀ s a result, body s a = some result → result.2 = false) (s : σ)
    {result : σ × Bool} (done : eachItem body items s = some result) : result.2 = false := by
  induction items generalizing s with
  | nil =>
    cases done
    rfl
  | cons a items ih =>
    obtain ⟨⟨s', leaves⟩, first, rest⟩ := bind_eq_some_iff.mp done
    obtain rfl := stays s a _ first
    exact ih s' rest

theorem listForeach_astray {stray : α} (follows : m.nexts head = some p)
    (leads : Leads m.nexts p items (some stray)) (outside : head ∉ items) (other : stray ≠ head)
    (stays : ∀ s a result, body s a = some result → result.2 = false)
    (unread : ∀ s, body s stray = none) (enough : items.length < rounds) (s : σ) :
    listForeach m head body rounds s = none := by
  obtain ⟨first, live, rfl⟩ := map_eq_some_iff.mp follows
  obtain ⟨more, rfl⟩ := Nat.exists_eq_add_of_lt enough
  have past : ¬ some stray = some head := fun same => other (Option.some.inj same)
  rw [listForeach, live]
  refine (foreachFrom_leads leads outside (more + 1) s).trans ?_
  cases done : eachItem body items s with
  | none => rfl
  | some result =>
    obtain ⟨s', leaves⟩ := result
    obtain rfl := eachItem_stays stays s done
    rw [bind_some]
    dsimp only
    rw [foreachFrom, if_neg past]
    simp [unread]

end

/-! ## What insertion does -/

namespace Memory

variable {m : Memory α} {a : α} {x : Option α}

theorem setPrev_nexts (live : m.nexts a = some x) (prev : Option α) :
    ∃ m', m.setPrev (some a) prev = some m' ∧ m'.nexts = m.nexts := by
  obtain ⟨item, present, rfl⟩ := map_eq_some_iff.mp live
  refine ⟨Function.update m a (some { item with prev }), ?_, ?_⟩
  · simp [setPrev, present]
  · funext b
    by_cases same : b = a
    · subst same
      simp [nexts, present]
    · simp [nexts, update_of_ne same]

theorem setNext_nexts (live : m.nexts a = some x) (next : Option α) :
    ∃ m', m.setNext (some a) next = some m' ∧ m'.nexts = Function.update m.nexts a (some next) := by
  obtain ⟨item, present, rfl⟩ := map_eq_some_iff.mp live
  refine ⟨Function.update m a (some { item with next }), ?_, ?_⟩
  · simp [setNext, present]
  · funext b
    by_cases same : b = a
    · subst same
      simp [nexts]
    · simp [nexts, update_of_ne same]

end Memory

variable {m : Memory α} {x : Option α} {head item : α} {items : List α}

theorem listInit_nexts {l : α} (live : m.nexts l = some x) :
    ∃ m', listInit m l = some m' ∧ m'.nexts = Function.update m.nexts l (some (some l)) := by
  obtain ⟨m₁, set, same⟩ := Memory.setPrev_nexts live (some l)
  rw [← same] at live
  obtain ⟨m₂, set', updated⟩ := Memory.setNext_nexts live (some l)
  refine ⟨m₂, ?_, by rw [updated, same]⟩
  simp [listInit, set, set']

theorem listInit_holds (nexts : α → Option (Option α)) (l : α) :
    Holds (Function.update nexts l (some (some l))) l [] :=
  ⟨not_mem_nil, .next (update_self ..) (.here _)⟩

theorem listInsert_nexts (holds : Holds m.nexts head items) (live : m.nexts item = some x)
    (other : item ≠ head) (fresh : item ∉ items) :
    ∃ m' first, listInsert m head item = some m' ∧ m.nexts head = some first ∧
      m'.nexts = Function.update (Function.update m.nexts item (some first)) head
        (some (some item)) := by
  obtain ⟨outside, leads⟩ := holds
  cases leads with | @next _ first _ _ follows leads =>
  obtain ⟨m₁, linked, nexts₁⟩ := Memory.setNext_nexts live first
  have head₁ : m₁.nexts head = some first := by
    rw [nexts₁, update_of_ne other.symm, follows]
  have item₁ : m₁.nexts item = some first := by rw [nexts₁, update_self]
  obtain ⟨m₂, back, nexts₂⟩ := Memory.setPrev_nexts item₁ (some head)
  -- The item that was first, or the head, is told about the new item.
  obtain ⟨b, y, rfl, there⟩ : ∃ b y, first = some b ∧ m₂.nexts b = some y := by
    rw [nexts₂]
    cases leads with
    | here => exact ⟨head, _, rfl, head₁⟩
    | @next b p _ items follows' leads =>
      refine ⟨b, p, rfl, ?_⟩
      have apart : b ≠ item := fun same => fresh (same ▸ mem_cons_self)
      rw [nexts₁, update_of_ne apart, follows']
  obtain ⟨m₃, told, nexts₃⟩ := Memory.setPrev_nexts there (some item)
  have head₃ : m₃.nexts head = some (some b) := by rw [nexts₃, nexts₂, head₁]
  obtain ⟨m₄, done, nexts₄⟩ := Memory.setNext_nexts head₃ (some item)
  refine ⟨m₄, some b, ?_, follows, by rw [nexts₄, nexts₃, nexts₂, nexts₁]⟩
  obtain ⟨h, present, next⟩ := map_eq_some_iff.mp follows
  obtain ⟨h', present', next'⟩ := map_eq_some_iff.mp ((congrFun nexts₂ head).trans head₁)
  simp [listInsert, present, next, linked, back, present', next', told, done]

theorem listInsert_holds {nexts : α → Option (Option α)} {first : Option α}
    (holds : Holds nexts head items) (follows : nexts head = some first) (other : item ≠ head)
    (fresh : item ∉ items) :
    Holds (Function.update (Function.update nexts item (some first)) head (some (some item))) head
      (item :: items) := by
  obtain ⟨outside, leads⟩ := holds
  cases leads with | next follows' leads =>
  cases follows.symm.trans follows'
  refine ⟨?_, .next (update_self ..) (.next ?_ (leads.congr fun a mem => ?_))⟩
  · rw [mem_cons, not_or]
    exact ⟨other.symm, outside⟩
  · rw [update_of_ne other, update_self]
  · have apart : a ≠ head := fun same => outside (same ▸ mem)
    have apart' : a ≠ item := fun same => fresh (same ▸ mem)
    rw [update_of_ne apart, update_of_ne apart']

end Strace.Poke
