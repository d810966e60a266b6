import Mathlib.Data.List.Basic

/-! Arrays of a fixed size that a pointer walks through: the cells before the pointer and those
from it on. -/
namespace Strace.Buffers
open List

structure Buffer (α : Type) where
  before : List α := []
  after : List α
  deriving DecidableEq

namespace Buffer

variable {α : Type} (b : Buffer α)

def cells : List α := b.before ++ b.after

/-- `*p++ = a` -/
def put (a : α) : Option (Buffer α) :=
  match b.after with
  | [] => none
  | _ :: rest => some ⟨b.before ++ [a], rest⟩

/-- `p++` -/
def skip : Option (Buffer α) :=
  match b.after with
  | [] => none
  | a :: rest => some ⟨b.before ++ [a], rest⟩

/-- `*p++ = a` for one value after another. -/
def puts (as : List α) : Option (Buffer α) := as.foldlM put b

theorem puts_eq (before as old rest : List α) (same : as.length = old.length) :
    (⟨before, old ++ rest⟩ : Buffer α).puts as = some ⟨before ++ as, rest⟩ := by
  induction as generalizing before old with
  | nil =>
    obtain rfl := length_eq_zero_iff.mp same.symm
    simp [puts]
  | cons a as ih =>
    cases old with
    | nil => cases same
    | cons o old =>
      have later := ih (before ++ [a]) old (Nat.succ.inj same)
      rw [append_assoc] at later
      exact later

structure Holds (b : Buffer α) (size : Nat) (written : List α) : Prop where
  before : b.before = written
  size : written.length + b.after.length = size

variable {size : Nat} {written : List α}

theorem Holds.put {b : Buffer α} (holds : b.Holds size written) (room : written.length < size)
    (a : α) :
    ∃ b', b.put a = some b' ∧ b'.Holds size (written ++ [a]) := by
  have total := holds.size
  cases cells : b.after with
  | nil =>
    rw [cells, length_nil] at total
    omega
  | cons old rest =>
    rw [cells, length_cons] at total
    refine ⟨⟨b.before ++ [a], rest⟩, by simp [Buffer.put, cells], by simp [holds.before], ?_⟩
    simp only [length_append, length_singleton]
    omega

inductive Writes (size : Nat) (text : List α) : Option (Buffer α) → Prop
  | full : size ≤ text.length → Writes size text none
  | holds {b : Buffer α} : b.Holds size text → Writes size text (some b)

theorem Writes.bind {text more : List α} {result : Option (Buffer α)}
    {next : Buffer α → Option (Buffer α)} (first : Writes size text result)
    (second : ∀ b : Buffer α, b.Holds size text → Writes size (text ++ more) (next b)) :
    Writes size (text ++ more) (result.bind next) := by
  cases first with
  | full small =>
    refine .full ?_
    rw [length_append]
    omega
  | holds held => exact second _ held

theorem Holds.put_writes {b : Buffer α} (holds : b.Holds size written) (a : α) :
    Writes size (written ++ [a]) (b.put a) := by
  by_cases room : written.length < size
  · obtain ⟨b', eq, held⟩ := holds.put room a
    rw [eq]
    exact .holds held
  · have total := holds.size
    have nothing : b.after = [] := length_eq_zero_iff.mp (by omega)
    rw [Buffer.put, nothing]
    refine .full ?_
    rw [length_append]
    omega

end Buffer

/-! ## Text -/

def nul : Char := Char.ofNat 0

abbrev CString := { s : List Char // nul ∉ s }

variable {base : Nat}

theorem forall_mem_toDigits (proper : 1 < base) {P : Char → Prop}
    (digit : ∀ d < base, P (Nat.digitChar d)) (n : Nat) : ∀ c ∈ Nat.toDigits base n, P c := by
  induction n using Nat.strongRecOn with
  | ind n ih =>
    rw [Nat.toDigits_eq_if proper]
    split
    · next single => simpa using digit n single
    · have smaller : n / base < n := Nat.div_lt_self (by omega) proper
      have last := digit (n % base) (Nat.mod_lt n (by omega))
      simpa only [forall_mem_append, forall_mem_singleton] using
        ⟨ih (n / base) smaller, last⟩

theorem nul_not_mem_toDigits (proper : 1 < base) (small : base ≤ 16) (n : Nat) :
    nul ∉ Nat.toDigits base n := by
  have digit : ∀ d < 16, Nat.digitChar d ≠ nul := by decide
  have digits : ∀ c ∈ Nat.toDigits base n, c ≠ nul :=
    forall_mem_toDigits proper (fun d lt => digit d (Nat.lt_of_lt_of_le lt small)) n
  exact fun mem => digits nul mem rfl

namespace Buffer

variable (b : Buffer Char)

def append (s : List Char) : Option (Buffer Char) :=
  if s.length < b.after.length then
    some ⟨b.before ++ s, nul :: b.after.drop (s.length + 1)⟩
  else none

/-- `*p = '\0'` -/
def terminate : Option (Buffer Char) := b.append []

/-- The string at the start of the array. -/
def contents : List Char := b.cells.takeWhile (· ≠ nul)

/-- The text ends at the pointer. -/
def Ended : Prop := b.after.head? = some nul

variable {b} {size : Nat} {written : List Char}

theorem Holds.append (holds : b.Holds size written) {s : List Char}
    (room : written.length + s.length < size) :
    ∃ b', b.append s = some b' ∧ b'.Holds size (written ++ s) ∧ b'.Ended := by
  have total := holds.size
  refine ⟨_, if_pos (by omega), ⟨by simp [holds.before], ?_⟩, rfl⟩
  simp only [length_append, length_cons, length_drop]
  omega

theorem Holds.append_writes (holds : b.Holds size written) (s : List Char) :
    Writes size (written ++ s) (b.append s) := by
  by_cases room : written.length + s.length < size
  · obtain ⟨b', eq, held, -⟩ := holds.append room
    rw [eq]
    exact .holds held
  · have total := holds.size
    rw [Buffer.append, if_neg (by omega)]
    refine .full ?_
    rw [length_append]
    omega

/-- One piece of text after another. -/
def appendAll (b : Buffer Char) (pieces : List (List Char)) : Option (Buffer Char) :=
  pieces.foldlM append b

theorem Holds.appendAll_writes (holds : b.Holds size written) (pieces : List (List Char)) :
    Writes size (written ++ pieces.flatten) (b.appendAll pieces) := by
  induction pieces generalizing b written with
  | nil =>
    simpa using .holds holds
  | cons s pieces ih =>
    rw [flatten_cons, ← append_assoc]
    exact (holds.append_writes s).bind fun b held => ih held

theorem Holds.terminate (holds : b.Holds size written) (room : written.length < size) :
    ∃ b', b.terminate = some b' ∧ b'.Holds size written ∧ b'.Ended := by
  obtain ⟨b', ended, holds', terminated⟩ := holds.append (s := []) room
  exact ⟨b', ended, by simpa using holds', terminated⟩

inductive Ends (size : Nat) (text : List Char) : Option (Buffer Char) → Prop
  | full : size ≤ text.length → Ends size text none
  | ended {b : Buffer Char} : b.Holds size text → b.Ended → text.length < size →
      Ends size text (some b)

theorem Holds.terminate_ends (holds : b.Holds size written) : Ends size written b.terminate := by
  by_cases room : written.length < size
  · obtain ⟨b', eq, held, ended⟩ := holds.terminate room
    rw [eq]
    exact .ended held ended room
  · have total := holds.size
    rw [Buffer.terminate, Buffer.append, if_neg (by rw [length_nil]; omega)]
    exact .full (Nat.le_of_not_lt room)

theorem Writes.ends {text more : List Char} {result : Option (Buffer Char)}
    {next : Buffer Char → Option (Buffer Char)} (first : Writes size text result)
    (second : ∀ b : Buffer Char, b.Holds size text → Ends size (text ++ more) (next b)) :
    Ends size (text ++ more) (result.bind next) := by
  cases first with
  | full small =>
    refine .full ?_
    rw [length_append]
    omega
  | holds held => exact second _ held

theorem Holds.contents (holds : b.Holds size written) (ended : b.Ended) (plain : nul ∉ written) :
    b.contents = written := by
  obtain ⟨rest, after⟩ := head?_eq_some_iff.mp ended
  simp only [Buffer.contents, cells, holds.before, after]
  rw [takeWhile_append_of_pos]
  · simp
  · grind

end Buffer

end Strace.Buffers
