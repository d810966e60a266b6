import Mathlib.Algebra.Group.Int.Defs
import Mathlib.Tactic.Common

/-! `string_to_uint.c`. A string is the list of its characters before the
terminating zero, and a pointer into it is the rest of the list. -/
namespace Strace
open List

/-- `isspace` in the C locale. -/
def isSpace (c : Char) : Bool := c ∈ [' ', '\t', '\n', '\x0b', '\x0c', '\r']

def decimal (digits : List Char) : Nat := digits.foldl (fun n c => 10 * n + (c.toNat - 48)) 0

def llongMax : Int := 2 ^ 63 - 1
def llongMin : Int := -2 ^ 63

/-- The sign of a number and what follows it. -/
def takeSign : List Char → Bool × List Char
  | '-' :: rest => (true, rest)
  | '+' :: rest => (false, rest)
  | str => (false, str)

def strtoll (str : List Char) : Int × List Char × Bool :=
  let (negative, rest) := takeSign (str.dropWhile isSpace)
  let digits := rest.takeWhile Char.isDigit
  if digits = [] then (0, str, false)
  else
    let val : Int := if negative then -decimal digits else decimal digits
    if val > llongMax then (llongMax, rest.dropWhile Char.isDigit, true)
    else if val < llongMin then (llongMin, rest.dropWhile Char.isDigit, true)
    else (val, rest.dropWhile Char.isDigit, false)

def stringToUintEx (str : List Char) (maxVal : Nat) (acceptedEnding : List Char) :
    Option (Nat × List Char) :=
  if str = [] then none
  else
    let (val, rest, erange) := strtoll str
    if rest = str ∨ val < 0 ∨ val > maxVal ∨ (val = llongMax ∧ erange) then none
    else
      match rest with
      | [] => some (val.toNat, [])
      | c :: _ => if c ∈ acceptedEnding then some (val.toNat, rest) else none

def stringToUintUpto (str : List Char) (maxVal : Nat) : Option Nat :=
  (stringToUintEx str maxVal []).map (·.1)

/-! ## Numerals -/

inductive Numeral : Nat → List Char → Prop
  | spelled (blanks sign digits : List Char) (blank : ∀ c ∈ blanks, isSpace c)
      (signed : sign = [] ∨ sign = ['+']) (nonempty : digits ≠ [])
        (digit : ∀ c ∈ digits, c.isDigit) :
      Numeral (decimal digits) (blanks ++ (sign ++ digits))

def Ends (accepted : List Char) : List Char → Prop
  | [] => True
  | c :: _ => c ∈ accepted

variable {c : Char} {rest digits accepted text str : List Char} {n maxVal : Nat}

theorem isSpace_of_isDigit (digit : c.isDigit) : isSpace c = false := by
  have low : '0' ≤ c := by
    simp only [Char.isDigit, Bool.and_eq_true, decide_eq_true_eq] at digit
    exact digit.1
  simp only [isSpace, mem_cons, not_mem_nil, or_false, decide_eq_false_iff_not, not_or]
  refine ⟨?_, ?_, ?_, ?_, ?_, ?_⟩ <;> (rintro rfl; exact absurd low (by decide))

theorem takeSign_plain (minus : c ≠ '-') (plus : c ≠ '+') :
    takeSign (c :: rest) = (false, c :: rest) := by
  unfold takeSign
  split
  · next eq => exact absurd (List.cons.inj eq).1 minus
  · next eq => exact absurd (List.cons.inj eq).1 plus
  · rfl

theorem takeWhile_digits (digit : ∀ c ∈ digits, c.isDigit) (ends : Ends accepted rest)
    (other : ∀ c ∈ accepted, c.isDigit = false) :
    (digits ++ rest).takeWhile Char.isDigit = digits ∧
      (digits ++ rest).dropWhile Char.isDigit = rest := by
  rw [takeWhile_append_of_pos digit, dropWhile_append_of_pos digit]
  cases rest with
  | nil => exact ⟨append_nil _, rfl⟩
  | cons c tail =>
    have stop := other c ends
    simp [stop]

theorem takeSign_numeral {blanks sign : List Char} (blank : ∀ c ∈ blanks, isSpace c)
    (signed : sign = [] ∨ sign = ['+']) (nonempty : digits ≠ []) (digit : ∀ c ∈ digits, c.isDigit) :
    takeSign ((blanks ++ (sign ++ digits) ++ rest).dropWhile isSpace) =
      (false, digits ++ rest) := by
  obtain ⟨d, ds, rfl⟩ := exists_cons_of_ne_nil nonempty
  have first := digit d mem_cons_self
  rw [append_assoc, dropWhile_append_of_pos blank]
  rcases signed with rfl | rfl
  · have stop := isSpace_of_isDigit first
    rw [nil_append, cons_append, dropWhile_cons_of_neg (by simp [stop])]
    refine takeSign_plain ?_ ?_ <;> (rintro rfl; exact absurd first (by decide))
  · rfl

theorem strtoll_numeral (numeral : Numeral n text) (small : (n : Int) ≤ llongMax)
    (ends : Ends accepted rest) (other : ∀ c ∈ accepted, c.isDigit = false) :
    strtoll (text ++ rest) = ((n : Int), rest, false) := by
  cases numeral with
  | spelled blanks sign digits blank signed nonempty digit =>
    obtain ⟨taken, dropped⟩ := takeWhile_digits digit ends other
    unfold strtoll
    rw [takeSign_numeral blank signed nonempty digit]
    simp only [taken, dropped, if_neg nonempty, Bool.false_eq_true, ↓reduceIte]
    have low : llongMin ≤ (decimal digits : Int) :=
      Int.le_trans (by decide) (Int.natCast_nonneg _)
    rw [if_neg (Int.not_lt.mpr small), if_neg (Int.not_lt.mpr low)]

theorem Numeral.ne_nil (numeral : Numeral n text) : text ≠ [] := by
  cases numeral with
  | spelled blanks sign digits _ _ nonempty _ => simp [nonempty]

theorem stringToUintEx_numeral (numeral : Numeral n text) (bound : n ≤ maxVal)
    (small : (maxVal : Int) ≤ llongMax) (ends : Ends accepted rest)
    (other : ∀ c ∈ accepted, c.isDigit = false) :
    stringToUintEx (text ++ rest) maxVal accepted = some (n, rest) := by
  have nonempty := numeral.ne_nil
  have fits := Int.ofNat_le.mpr bound
  unfold stringToUintEx
  rw [if_neg (by simp [nonempty]), strtoll_numeral numeral (Int.le_trans fits small) ends other]
  have moved : rest ≠ text ++ rest := fun eq => nonempty (self_eq_append_left.mp eq)
  have good : ¬ (rest = text ++ rest ∨ (n : Int) < 0 ∨ (n : Int) > maxVal ∨
      ((n : Int) = llongMax ∧ false = true)) := by
    simp only [moved, Bool.false_eq_true, and_false, or_false, false_or]
    omega
  dsimp only
  rw [if_neg good]
  cases rest with
  | nil => rfl
  | cons c tail =>
    have mem : c ∈ accepted := ends
    dsimp only
    rw [if_pos mem]
    rfl

theorem takeSign_plus {body : List Char} (signed : takeSign str = (false, body)) :
    ∃ sign, (sign = [] ∨ sign = ['+']) ∧ str = sign ++ body := by
  unfold takeSign at signed
  split at signed
  · simp at signed
  · grind
  · exact ⟨[], .inl rfl, by simpa using signed⟩

theorem mem_takeWhile {p : Char → Bool} {l : List Char} : ∀ c ∈ l.takeWhile p, p c := by
  exact all_eq_true.mp all_takeWhile

theorem strtoll_spelled {val : Int} {erange : Bool} (read : strtoll str = (val, rest, erange))
    (moved : rest ≠ str) (positive : 1 ≤ val) (inRange : ¬ (val = llongMax ∧ erange = true)) :
    ∃ text, str = text ++ rest ∧ Numeral val.toNat text := by
  unfold strtoll at read
  generalize signed : takeSign (str.dropWhile isSpace) = r at read
  obtain ⟨negative, body⟩ := r
  dsimp only at read
  split at read
  · exact absurd (congrArg (·.2.1) read).symm moved
  · next nonempty =>
    generalize value : (if negative = true then -(decimal (body.takeWhile Char.isDigit) : Int)
      else (decimal (body.takeWhile Char.isDigit) : Int)) = v at read
    split at read
    · grind
    · split at read
      · simp only [Prod.mk.injEq] at read
        rw [← read.1] at positive
        exact absurd positive (by decide)
      · obtain ⟨rfl, rfl, -⟩ := read
        cases negative with
        | true =>
          grind
        | false =>
          obtain ⟨sign, plain, eq⟩ := takeSign_plus signed
          have number : Numeral (decimal (body.takeWhile Char.isDigit)) _ :=
            .spelled (str.takeWhile isSpace) sign _ mem_takeWhile plain nonempty mem_takeWhile
          refine ⟨_, ?_, by rw [← value]; exact number⟩
          rw [append_assoc, append_assoc, takeWhile_append_dropWhile, ← eq,
            takeWhile_append_dropWhile]

theorem stringToUintEx_spelled (read : stringToUintEx str maxVal accepted = some (n, rest))
    (positive : 1 ≤ n) :
    ∃ text, str = text ++ rest ∧ Numeral n text ∧ n ≤ maxVal ∧ Ends accepted rest := by
  unfold stringToUintEx at read
  generalize value : strtoll str = r at read
  obtain ⟨val, tail, erange⟩ := r
  dsimp only at read
  split at read
  · cases read
  · split at read
    · cases read
    · next good =>
      simp only [not_or] at good
      obtain ⟨moved, nonneg, bound, inRange⟩ := good
      have ends : (val.toNat, tail) = (n, rest) ∧ Ends accepted tail := by
        split at read
        · exact ⟨Option.some.inj read, trivial⟩
        · split at read
          · next mem => exact ⟨Option.some.inj read, mem⟩
          · cases read
      obtain ⟨eq, ends⟩ := ends
      obtain ⟨rfl, rfl⟩ := Prod.mk.inj eq
      obtain ⟨text, split, numeral⟩ := strtoll_spelled value moved (by omega) inRange
      exact ⟨text, split, numeral, by omega, ends⟩

end Strace
