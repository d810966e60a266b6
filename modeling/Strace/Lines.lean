import Mathlib.Tactic.Common

/-! Texts whose characters carry their writer, read line by line. -/
namespace Strace.Lines

variable {α : Type}

def after (w : α) (char : Char) : Option α := if char = '\n' then none else some w

def OpenFor (w : α) (line : Option α) : Prop := ∀ v, line = some v → v = w

theorem after_openFor (w : α) (char : Char) : OpenFor w (after w char) := by
  intro v open_
  unfold after at open_
  split at open_
  · cases open_
  · exact (Option.some.inj open_).symm

/-- A text, all of it written by `w`. -/
def written (w : α) (text : String) : List (α × Char) := text.toList.map (w, ·)

def Unmixed (c : List (α × Char)) : Prop :=
  ∀ x p y q z, c = x ++ p :: (y ++ q :: z) → (∀ r ∈ p :: y, r.2 ≠ '\n') → p.1 = q.1

variable [DecidableEq α] {line : Option α} {w : α} {c : List (α × Char)}

def read : Option α → List (α × Char) → Option (Option α)
  | line, [] => some line
  | none, (w, char) :: rest => read (after w char) rest
  | some v, (w, char) :: rest => if v = w then read (after w char) rest else none

theorem read_cons {char : Char} {rest : List (α × Char)} (openFor : OpenFor w line) :
    read line ((w, char) :: rest) = read (after w char) rest := by
  cases line with
  | none => rfl
  | some v =>
    obtain rfl := openFor v rfl
    simp [read]

theorem read_append (line : Option α) (c d : List (α × Char)) :
    read line (c ++ d) = (read line c).bind (read · d) := by
  induction c generalizing line with
  | nil => rfl
  | cons p c ih =>
    cases line with
    | none => exact ih _
    | some v =>
      simp only [List.cons_append, read]
      split
      · exact ih _
      · rfl

theorem read_written (openFor : OpenFor w line) (text : String) :
    ∃ line', read line (written w text) = some line' ∧ OpenFor w line' ∧
      (text = "" → line' = line) := by
  suffices ∀ chars : List Char, ∃ line', read line (chars.map (w, ·)) = some line' ∧
      OpenFor w line' ∧ (chars = [] → line' = line) by
    obtain ⟨line', read, openFor, same⟩ := this text.toList
    exact ⟨line', read, openFor, fun empty => same (by rw [empty]; rfl)⟩
  intro chars
  induction chars generalizing line with
  | nil => exact ⟨line, rfl, openFor, fun _ => rfl⟩
  | cons char chars ih =>
    obtain ⟨line', read, openFor', -⟩ := ih (after_openFor w char)
    exact ⟨line', by rw [List.map_cons, read_cons openFor, read], openFor', nofun⟩

theorem read_newline (openFor : OpenFor w line) (text : String) :
    read line (written w (text ++ "\n")) = some none := by
  obtain ⟨line', read, openFor', -⟩ := read_written openFor text
  have split : written w (text ++ "\n") = written w text ++ [(w, '\n')] := by
    simp [written]
  rw [split, read_append, read, Option.bind_some, read_cons openFor']
  rfl

theorem read_line {y : List (α × Char)} {q : α × Char} {z : List (α × Char)}
    (read : (read (some w) (y ++ q :: z)).isSome) (line : ∀ r ∈ y, r.2 ≠ '\n') : w = q.1 := by
  induction y with
  | nil =>
    by_contra other
    simp [Lines.read, other] at read
  | cons p y ih =>
    simp only [List.cons_append, Lines.read] at read
    split at read
    · next same =>
      have open_ : after p.1 p.2 = some p.1 := if_neg (line p (by simp))
      rw [open_, ← same] at read
      exact ih read fun r mem => line r (by simp [mem])
    · cases read

theorem unmixed_of_read (read : Lines.read none c = some line) : Unmixed c := by
  rintro x p y q z rfl closed
  rw [read_append] at read
  obtain ⟨before, -, read⟩ := Option.bind_eq_some_iff.mp read
  have open_ : after p.1 p.2 = some p.1 := if_neg (closed p (by simp))
  have rest : (Lines.read (some p.1) (y ++ q :: z)).isSome := by
    cases before with
    | none =>
      simp only [Lines.read, open_] at read
      rw [read]
      rfl
    | some v =>
      simp only [Lines.read, open_] at read
      split at read
      · rw [read]
        rfl
      · cases read
  exact read_line rest fun r mem => closed r (by simp [mem])

end Strace.Lines
