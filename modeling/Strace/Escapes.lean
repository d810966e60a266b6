import Mathlib.Tactic.Common

/-! Texts with the escapes of C strings: a backslash with up to three octal digits,
with `x` and two hexadecimal digits, or with a character that has a name. -/
namespace Escapes

/-- The code of an ASCII character. -/
def ch (c : Char) : UInt8 := UInt8.ofNat c.toNat

inductive Item where
  | literal (b : UInt8)
  | escaped (b : UInt8)
  deriving DecidableEq, Repr

def Item.byte : Item → UInt8
  | .literal b => b
  | .escaped b => b

def octal (b : UInt8) : Option Nat :=
  if 48 ≤ b.toNat ∧ b.toNat ≤ 55 then some (b.toNat - 48) else none

def hexadecimal (b : UInt8) : Option Nat :=
  if 48 ≤ b.toNat ∧ b.toNat ≤ 57 then some (b.toNat - 48)
  else if 97 ≤ b.toNat ∧ b.toNat ≤ 102 then some (b.toNat - 87)
  else if 65 ≤ b.toNat ∧ b.toNat ≤ 70 then some (b.toNat - 55)
  else none

def named (b : UInt8) : Option UInt8 :=
  [(ch '"', ch '"'), (ch '\\', ch '\\'), (ch 'f', 12), (ch 'n', 10), (ch 'r', 13), (ch 't', 9),
    (ch 'v', 11)].lookup b

inductive Place where
  | between
  | backslash
  | octal (left value : Nat)
  | hex
  | lastHex (value : Nat)

/-- An escape stands for a byte. -/
def escape (value : Nat) (items : Option (List Item)) : Option (List Item) :=
  if value < 256 then items.map (.escaped (UInt8.ofNat value) :: ·) else none

def read : List UInt8 → Place → Option (List Item)
  | [], .between => some []
  | [], .octal _ value => escape value (some [])
  | [], _ => none
  | c :: text, place =>
    let part := if c = ch '\\' then read text .backslash
      else (read text .between).map (.literal c :: ·)
    match place with
    | .between => part
    | .backslash =>
      if c = ch 'x' then read text .hex
      else
        match octal c, named c with
        | some digit, _ => read text (.octal 2 digit)
        | none, some b => escape b.toNat (read text .between)
        | none, none => none
    | .octal 0 value => escape value part
    | .octal (left + 1) value =>
      match octal c with
      | some digit => read text (.octal left (8 * value + digit))
      | none => escape value part
    | .hex => (hexadecimal c).bind fun digit => read text (.lastHex digit)
    | .lastHex value =>
      (hexadecimal c).bind fun digit => escape (16 * value + digit) (read text .between)

/-- The parts of a whole text. -/
def parts (text : List UInt8) : Option (List Item) := read text .between

variable {c a b : UInt8} {text : List UInt8} {x y z : Nat}

theorem escape_byte (b : UInt8) (items : Option (List Item)) :
    escape b.toNat items = items.map (.escaped b :: ·) := by
  unfold escape
  rw [if_pos b.toNat_lt, UInt8.ofNat_toNat]

theorem parts_literal (plain : c ≠ ch '\\') :
    parts (c :: text) = (parts text).map (.literal c :: ·) := if_neg plain

theorem parts_named (name : named c = some b) (letter : octal c = none) (notHex : c ≠ ch 'x') :
    parts (ch '\\' :: c :: text) = (parts text).map (.escaped b :: ·) := by
  have step : parts (ch '\\' :: c :: text) = escape b.toNat (parts text) := by
    simp only [parts, read, if_true, if_neg notHex, letter, name]
  rw [step, escape_byte]

theorem parts_hex (first : hexadecimal a = some x) (last : hexadecimal b = some y)
    (value : 16 * x + y = c.toNat) :
    parts (ch '\\' :: ch 'x' :: a :: b :: text) = (parts text).map (.escaped c :: ·) := by
  have step : parts (ch '\\' :: ch 'x' :: a :: b :: text) = escape (16 * x + y) (parts text) := by
    simp only [parts, read, if_true, first, last, Option.bind_some]
  rw [step, value, escape_byte]

theorem parts_octal (digit : octal a = some x) :
    parts (ch '\\' :: a :: text) = read text (.octal 2 x) := by
  have notHex : a ≠ ch 'x' := by
    rintro rfl
    cases digit
  simp only [parts, read, if_true, if_neg notHex, digit]

theorem read_digit {left value : Nat} (digit : octal a = some x) :
    read (a :: text) (.octal (left + 1) value) = read text (.octal left (8 * value + x)) := by
  simp only [read, digit]

theorem read_end {left : Nat} (ended : left = 0 ∨ ∀ d ∈ text.head?, octal d = none) :
    read text (.octal left c.toNat) = (parts text).map (.escaped c :: ·) := by
  rw [← escape_byte]
  cases text with
  | nil => rfl
  | cons d text =>
    cases left with
    | zero => rfl
    | succ left =>
      have noDigit := ended.resolve_left (Nat.succ_ne_zero left) d rfl
      simp only [parts, read, noDigit]

/-! ## Octal numbers of one, two and three digits -/

section

variable {d₁ d₂ d₃ : UInt8} (first : octal d₁ = some x) (second : octal d₂ = some y)
  (third : octal d₃ = some z) (ended : ∀ d ∈ text.head?, octal d = none)

include first ended in
theorem parts_octal1 (value : x = c.toNat) :
    parts (ch '\\' :: d₁ :: text) = (parts text).map (.escaped c :: ·) := by
  rw [parts_octal first, value, read_end (.inr ended)]

include first second ended in
theorem parts_octal2 (value : 8 * x + y = c.toNat) :
    parts (ch '\\' :: d₁ :: d₂ :: text) = (parts text).map (.escaped c :: ·) := by
  rw [parts_octal first, read_digit second, value, read_end (.inr ended)]

include first second third in
theorem parts_octal3 (value : 8 * (8 * x + y) + z = c.toNat) :
    parts (ch '\\' :: d₁ :: d₂ :: d₃ :: text) = (parts text).map (.escaped c :: ·) := by
  rw [parts_octal first, read_digit second, read_digit third, value, read_end (.inl rfl)]

end

end Escapes
