import Mathlib.Algebra.Group.Nat.Defs
import Mathlib.Data.List.TakeWhile
import Strace.Escapes

/-! `string_quote` of `util.c`, with the character functions of `print_utils.h`. What
a function writes to its output buffer is the list of the bytes. -/
namespace Strace
open List

open Escapes (ch)

/-- `enum xflag_opts` -/
inductive HexstrOpts where
  | none
  | nonAscii
  | all
  | nonAsciiChars
  deriving DecidableEq, Repr

def quote0Terminated : UInt32 := 0x01
def quoteOmitLeadingTrailingQuotes : UInt32 := 0x02
def quoteOmitTrailing0 : UInt32 := 0x08
def quoteEmitComment : UInt32 := 0x40
def quoteOverwriteHexstr : UInt32 := 0x80
def quoteHexstrShift : UInt32 := 8
def quoteHexstrMask : UInt32 := 0x3 <<< quoteHexstrShift

def hexstrOpts (number : UInt32) : HexstrOpts :=
  if number = 0 then .none
  else if number = 1 then .nonAscii
  else if number = 2 then .all
  else .nonAsciiChars

def isPrint (c : UInt8) : Bool := decide (0x20 ≤ c ∧ c < 0x7f)

def sprintByteOct (c : UInt8) (unabbrev : Bool) : List UInt8 :=
  (if unabbrev then [ch '0' + (c >>> 6), ch '0' + ((c >>> 3) &&& 0x7)]
   else if c >>> 3 ≠ 0 then
     (if c >>> 6 ≠ 0 then [ch '0' + (c >>> 6)] else []) ++ [ch '0' + ((c >>> 3) &&& 0x7)]
   else []) ++ [ch '0' + (c &&& 0x7)]

def hexChars : List UInt8 :=
  ['0', '1', '2', '3', '4', '5', '6', '7', '8', '9', 'a', 'b', 'c', 'd', 'e', 'f'].map ch

def sprintByteHex (val : UInt8) : List UInt8 :=
  [hexChars.getD (val >>> 4).toNat 0, hexChars.getD (val &&& 0xf).toNat 0]

section

variable (ustr : Nat → UInt8) (eol : Nat) (xstyle : HexstrOpts) (escapeChars : Option (List UInt8))

def needsHex : (left i : Nat) → Bool
  | 0, _ => false
  | left + 1, i =>
    let c := (ustr i).toNat
    if c = eol then false
    else if c > 0x7e then true
    else if c < 0x20 ∧ 5 ≤ (c + 2 ^ 32 - 9) % 2 ^ 32 then true
    else needsHex left (i + 1)

def hexLoop : (left i : Nat) → List UInt8 × Bool
  | 0, _ => ([], false)
  | left + 1, i =>
    if (ustr i).toNat = eol then ([], true)
    else
      let (text, ended) := hexLoop left (i + 1)
      (ch '\\' :: ch 'x' :: sprintByteHex (ustr i) ++ text, ended)

def quoteChar (c : UInt8) (digitFollows : Bool) : List UInt8 :=
  if c = ch '"' ∨ c = ch '\\' then [ch '\\', c]
  else if c = ch '\x0c' then [ch '\\', ch 'f']
  else if c = ch '\n' then [ch '\\', ch 'n']
  else if c = ch '\r' then [ch '\\', ch 'r']
  else if c = ch '\t' then [ch '\\', ch 't']
  else if c = ch '\x0b' then [ch '\\', ch 'v']
  else if isPrint c ∧ ∀ chars ∈ escapeChars, c ∉ chars then [c]
  else if xstyle = .nonAsciiChars then ch '\\' :: ch 'x' :: sprintByteHex c
  else ch '\\' :: sprintByteOct c digitFollows

def quoteLoop (size : Nat) (omitTrailing0 : Bool) : (left i : Nat) → List UInt8 × Bool
  | 0, _ => ([], false)
  | left + 1, i =>
    let c := ustr i
    if c.toNat = eol then ([], true)
    else if i = size - 1 ∧ omitTrailing0 ∧ c = 0 then ([], true)
    else
      let digitFollows := decide (i + 1 < size ∧ ch '0' ≤ ustr (i + 1) ∧ ustr (i + 1) ≤ ch '7')
      let (text, ended) := quoteLoop size omitTrailing0 left (i + 1)
      (quoteChar xstyle escapeChars c digitFollows ++ text, ended)

end

/-- What is written before the quoted bytes. -/
def openingDelimiter (style : UInt32) : List UInt8 :=
  (if style &&& quoteEmitComment ≠ 0 then [' ', '/', '*', ' '].map ch else []) ++
    (if style &&& quoteOmitLeadingTrailingQuotes ≠ 0 then [] else [ch '"'])

/-- What is written after the quoted bytes. -/
def closingDelimiter (style : UInt32) : List UInt8 :=
  (if style &&& quoteOmitLeadingTrailingQuotes ≠ 0 then [] else [ch '"']) ++
    (if style &&& quoteEmitComment ≠ 0 then [' ', '*', '/'].map ch else [])

variable (xflag : HexstrOpts)

def stringQuote (ustr : Nat → UInt8) (size : Nat) (style : UInt32)
    (escapeChars : Option (List UInt8)) : List UInt8 × Nat :=
  let xstyle := if style &&& quoteOverwriteHexstr ≠ 0 then
      hexstrOpts ((style &&& quoteHexstrMask) >>> quoteHexstrShift)
    else xflag
  let eol := if style &&& quote0Terminated ≠ 0 then 0 else 0x100
  let usehex := match xstyle with
    | .all => true
    | .nonAscii => needsHex ustr eol size 0
    | _ => false
  let (text, ascizEnded) :=
    if usehex then hexLoop ustr eol size 0
    else quoteLoop ustr eol xstyle escapeChars size (style &&& quoteOmitTrailing0 ≠ 0) size 0
  (openingDelimiter style ++ text ++ closingDelimiter style,
    if ascizEnded then 0
    else if style &&& quote0Terminated ≠ 0 ∧ ustr size = 0 then 0
    else 1)

def quotedBytes (ustr : Nat → UInt8) (size : Nat) (style : UInt32) : List UInt8 :=
  if style &&& quote0Terminated ≠ 0 then ((List.range size).map ustr).takeWhile (· != 0)
  else (List.range size).map ustr

def hexStyle (style : UInt32) : HexstrOpts :=
  if style &&& quoteOverwriteHexstr ≠ 0 then
    hexstrOpts ((style &&& quoteHexstrMask) >>> quoteHexstrShift)
  else xflag

def endOfLine (style : UInt32) : Nat := if style &&& quote0Terminated ≠ 0 then 0 else 0x100

def usesHex (ustr : Nat → UInt8) (eol size : Nat) : (xstyle : HexstrOpts) → Bool
  | .all => true
  | .nonAscii => needsHex ustr eol size 0
  | _ => false

def quoteText (ustr : Nat → UInt8) (eol : Nat) (xstyle : HexstrOpts)
    (escapeChars : Option (List UInt8)) (size : Nat) (omitTrailing0 : Bool) : List UInt8 × Bool :=
  if usesHex ustr eol size xstyle then hexLoop ustr eol size 0
  else quoteLoop ustr eol xstyle escapeChars size omitTrailing0 size 0

theorem stringQuote_eq (ustr : Nat → UInt8) (size : Nat) (style : UInt32)
    (escapeChars : Option (List UInt8)) :
    stringQuote xflag ustr size style escapeChars =
      (openingDelimiter style ++
          (quoteText ustr (endOfLine style) (hexStyle xflag style) escapeChars size
            (style &&& quoteOmitTrailing0 ≠ 0)).1 ++ closingDelimiter style,
        if (quoteText ustr (endOfLine style) (hexStyle xflag style) escapeChars size
            (style &&& quoteOmitTrailing0 ≠ 0)).2 then 0
        else if style &&& quote0Terminated ≠ 0 ∧ ustr size = 0 then 0
        else 1) := rfl

/-! ## Bytes -/

theorem shiftRight_toNat (c : UInt8) (k : Nat) (small : k < 8) :
    (c >>> UInt8.ofNat k).toNat = c.toNat / 2 ^ k := by
  have shift : (UInt8.ofNat k).toNat % 8 = k := by
    rw [UInt8.toNat_ofNat']
    omega
  rw [UInt8.toNat_shiftRight, shift, Nat.shiftRight_eq_div_pow]

theorem octal_digit {d : UInt8} (small : d.toNat < 8) :
    Escapes.octal (ch '0' + d) = some d.toNat ∧ isPrint (ch '0' + d) = true := by
  have value : (ch '0' + d).toNat = 48 + d.toNat := by
    exact Nat.mod_eq_of_lt (show 48 + d.toNat < 256 by omega)
  constructor
  · unfold Escapes.octal
    rw [value, if_pos (by omega), Nat.add_sub_cancel_left]
  · unfold isPrint
    rw [decide_eq_true_iff, UInt8.le_iff_toNat_le, UInt8.lt_iff_toNat_lt]
    exact ⟨show 32 ≤ _ by omega, show _ < 127 by omega⟩

theorem hexChars_digit (n : Nat) (small : n < 16) :
    Escapes.hexadecimal (hexChars.getD n 0) = some n ∧ isPrint (hexChars.getD n 0) = true := by
  revert n
  decide

structure Spells (escapeChars : Option (List UInt8)) (c : UInt8) (piece rest : List UInt8) :
    Prop where
  printable : ∀ b ∈ piece, isPrint b = true
  item : ∃ item : Escapes.Item, item.byte = c ∧
    Escapes.parts (piece ++ rest) = (Escapes.parts rest).map (item :: ·) ∧
    ∀ b, item = .literal b → b ≠ ch '"' ∧ ∀ chars ∈ escapeChars, b ∉ chars

variable {escapeChars : Option (List UInt8)} {c : UInt8} {rest : List UInt8} {digitFollows : Bool}

theorem Spells.escape {piece : List UInt8} (printable : ∀ b ∈ piece, isPrint b = true)
    (parts : Escapes.parts (piece ++ rest) = (Escapes.parts rest).map (.escaped c :: ·)) :
    Spells escapeChars c piece rest :=
  ⟨printable, .escaped c, rfl, parts, nofun⟩

theorem sprintByteHex_spells (escapeChars : Option (List UInt8)) (c : UInt8) (rest : List UInt8) :
    Spells escapeChars c (ch '\\' :: ch 'x' :: sprintByteHex c) rest := by
  have high : (c >>> 4).toNat = c.toNat / 16 := shiftRight_toNat c 4 (by decide)
  have low : (c &&& 0xf).toNat = c.toNat % 16 := by
    exact Nat.and_two_pow_sub_one_eq_mod c.toNat 4
  have bound := c.toNat_lt
  obtain ⟨first, firstPrints⟩ := hexChars_digit (c >>> 4).toNat (by omega)
  obtain ⟨last, lastPrints⟩ := hexChars_digit (c &&& 0xf).toNat (by omega)
  refine .escape ?_ (Escapes.parts_hex first last (by omega))
  simp only [sprintByteHex, forall_mem_cons]
  exact ⟨by decide, by decide, firstPrints, lastPrints, by simp⟩

theorem sprintByteOct_spells (escapeChars : Option (List UInt8)) (c : UInt8)
    (follows : digitFollows = false → ∀ d ∈ rest.head?, Escapes.octal d = none) :
    Spells escapeChars c (ch '\\' :: sprintByteOct c digitFollows) rest := by
  have bound := c.toNat_lt
  have high : (c >>> 6).toNat = c.toNat / 64 := shiftRight_toNat c 6 (by decide)
  have shifted : (c >>> 3).toNat = c.toNat / 8 := shiftRight_toNat c 3 (by decide)
  have middle : ((c >>> 3) &&& 0x7).toNat = c.toNat / 8 % 8 := by
    rw [UInt8.toNat_and, shifted]
    exact Nat.and_two_pow_sub_one_eq_mod _ 3
  have low : (c &&& 0x7).toNat = c.toNat % 8 := by
    exact Nat.and_two_pow_sub_one_eq_mod _ 3
  obtain ⟨first, firstPrints⟩ := octal_digit (d := c >>> 6) (by omega)
  obtain ⟨second, secondPrints⟩ := octal_digit (d := (c >>> 3) &&& 0x7) (by omega)
  obtain ⟨third, thirdPrints⟩ := octal_digit (d := c &&& 0x7) (by omega)
  have long : Spells escapeChars c
      [ch '\\', ch '0' + (c >>> 6), ch '0' + ((c >>> 3) &&& 0x7), ch '0' + (c &&& 0x7)] rest := by
    refine .escape ?_ (Escapes.parts_octal3 first second third (by omega))
    simp only [forall_mem_cons]
    exact ⟨by decide, firstPrints, secondPrints, thirdPrints, by simp⟩
  unfold sprintByteOct
  cases digitFollows with
  | true => exact long
  | false =>
    rw [if_neg Bool.false_ne_true]
    by_cases two : c >>> 3 = 0
    · have small : c.toNat / 8 = 0 := by rw [← shifted, two]; rfl
      rw [if_neg (not_not.mpr two), nil_append]
      refine .escape ?_ (Escapes.parts_octal1 third (follows rfl) (by omega))
      simp only [forall_mem_cons]
      exact ⟨by decide, thirdPrints, by simp⟩
    · rw [if_pos two]
      by_cases three : c >>> 6 = 0
      · have small : c.toNat / 64 = 0 := by rw [← high, three]; rfl
        rw [if_neg (not_not.mpr three), nil_append]
        refine .escape ?_ (Escapes.parts_octal2 second third (follows rfl) (by omega))
        simp only [singleton_append, forall_mem_cons]
        exact ⟨by decide, secondPrints, thirdPrints, by simp⟩
      · rw [if_pos three]
        exact long

theorem Spells.named {name : UInt8} (rest : List UInt8) (printable : isPrint name = true)
    (names : Escapes.named name = some c) (letter : Escapes.octal name = none)
    (notHex : name ≠ ch 'x') :
    Spells escapeChars c [ch '\\', name] rest := by
  refine .escape ?_ (Escapes.parts_named names letter notHex)
  simp only [forall_mem_cons]
  exact ⟨by decide, printable, by simp⟩

theorem quoteChar_spells {xstyle : HexstrOpts} (escapeChars : Option (List UInt8)) (c : UInt8)
    (follows : digitFollows = false → ∀ d ∈ rest.head?, Escapes.octal d = none) :
    Spells escapeChars c (quoteChar xstyle escapeChars c digitFollows) rest := by
  unfold quoteChar
  split
  · next special =>
    rcases special with rfl | rfl <;> exact .named rest (by decide) rfl (by decide) (by decide)
  · next plain =>
    obtain ⟨noQuote, noBackslash⟩ := not_or.mp plain
    split
    · next eq => subst eq; exact .named rest (by decide) rfl (by decide) (by decide)
    split
    · next eq => subst eq; exact .named rest (by decide) rfl (by decide) (by decide)
    split
    · next eq => subst eq; exact .named rest (by decide) rfl (by decide) (by decide)
    split
    · next eq => subst eq; exact .named rest (by decide) rfl (by decide) (by decide)
    split
    · next eq => subst eq; exact .named rest (by decide) rfl (by decide) (by decide)
    split
    · next printable =>
      refine ⟨by simpa using printable.1, .literal c, rfl, Escapes.parts_literal noBackslash, ?_⟩
      rintro b ⟨⟩
      exact ⟨noQuote, printable.2⟩
    split
    · exact sprintByteHex_spells escapeChars c rest
    · exact sprintByteOct_spells escapeChars c follows

/-! ## Strings -/

section

variable {ustr : Nat → UInt8} {eol : Nat} {xstyle : HexstrOpts} {escapeChars : Option (List UInt8)}

def bytesFrom (ustr : Nat → UInt8) (eol : Nat) : (left i : Nat) → List UInt8
  | 0, _ => []
  | left + 1, i => if (ustr i).toNat = eol then [] else ustr i :: bytesFrom ustr eol left (i + 1)

/-- A text spells a string of bytes. -/
structure SpellsAll (escapeChars : Option (List UInt8)) (bytes text : List UInt8) : Prop where
  printable : ∀ b ∈ text, isPrint b = true
  items : ∃ items, Escapes.parts text = some items ∧ items.map Escapes.Item.byte = bytes ∧
    ∀ b, .literal b ∈ items → b ≠ ch '"' ∧ ∀ chars ∈ escapeChars, b ∉ chars

theorem SpellsAll.nil : SpellsAll escapeChars [] [] :=
  ⟨by simp, [], rfl, rfl, by simp⟩

theorem SpellsAll.cons {c : UInt8} {bytes piece rest : List UInt8}
    (first : Spells escapeChars c piece rest) (others : SpellsAll escapeChars bytes rest) :
    SpellsAll escapeChars (c :: bytes) (piece ++ rest) := by
  obtain ⟨printable, item, byte, parts, literal⟩ := first
  obtain ⟨printable', items, parts', byte', literal'⟩ := others
  refine ⟨?_, item :: items, ?_, ?_, ?_⟩
  · intro b mem
    rcases mem_append.mp mem with mem | mem
    · exact printable b mem
    · exact printable' b mem
  · simp [parts, parts']
  · rw [map_cons, byte, byte']
  · intro b mem
    rcases mem_cons.mp mem with eq | mem
    · exact literal b eq.symm
    · exact literal' b mem

theorem hexLoop_spells (left i : Nat) :
    SpellsAll escapeChars (bytesFrom ustr eol left i) (hexLoop ustr eol left i).1 := by
  induction left generalizing i with
  | zero => exact .nil
  | succ left ih =>
    unfold hexLoop bytesFrom
    split
    · exact .nil
    · exact .cons (sprintByteHex_spells escapeChars (ustr i) _) (ih (i + 1))

theorem quoteChar_head (c : UInt8) (digitFollows : Bool) (rest : List UInt8) :
    (quoteChar xstyle escapeChars c digitFollows ++ rest).head? = some (ch '\\') ∨
      (quoteChar xstyle escapeChars c digitFollows ++ rest).head? = some c := by
  unfold quoteChar
  iterate 6
    split
    · exact .inl rfl
  split
  · exact .inr rfl
  · split <;> exact .inl rfl

theorem octal_none {d : UInt8} (outside : ¬ (ch '0' ≤ d ∧ d ≤ ch '7')) :
    Escapes.octal d = none := by
  unfold Escapes.octal
  rw [if_neg]
  rwa [UInt8.le_iff_toNat_le] at outside

theorem quoteLoop_succ (size left i : Nat) :
    (quoteLoop ustr eol xstyle escapeChars size false (left + 1) i).1 =
      if (ustr i).toNat = eol then []
      else quoteChar xstyle escapeChars (ustr i)
          (decide (i + 1 < size ∧ ch '0' ≤ ustr (i + 1) ∧ ustr (i + 1) ≤ ch '7')) ++
        (quoteLoop ustr eol xstyle escapeChars size false left (i + 1)).1 := by
  rw [quoteLoop]
  split
  · rfl
  · rw [if_neg (by simp)]

variable {size left i : Nat}

theorem quoteLoop_head (plain : ¬ (0 < left ∧ ch '0' ≤ ustr i ∧ ustr i ≤ ch '7')) :
    ∀ d ∈ (quoteLoop ustr eol xstyle escapeChars size false left i).1.head?,
      Escapes.octal d = none := by
  intro d head
  cases left with
  | zero => cases head
  | succ left =>
    rw [quoteLoop_succ] at head
    split at head
    · cases head
    · have noDigit := octal_none fun digit => plain ⟨Nat.succ_pos left, digit⟩
      rcases quoteChar_head (ustr i) _ _ with start | start <;> rw [start] at head <;> cases head
      · rfl
      · exact noDigit

theorem quoteLoop_spells (inside : i + left = size) :
    SpellsAll escapeChars (bytesFrom ustr eol left i)
      (quoteLoop ustr eol xstyle escapeChars size false left i).1 := by
  induction left generalizing i with
  | zero => exact .nil
  | succ left ih =>
    rw [quoteLoop_succ, bytesFrom]
    split
    · exact .nil
    · refine .cons (quoteChar_spells escapeChars (ustr i) fun none => ?_) (ih (by omega))
      refine quoteLoop_head fun digit => ?_
      rw [decide_eq_false_iff_not] at none
      exact none ⟨by omega, digit.2⟩

theorem bytesFrom_eq (left i : Nat) : bytesFrom ustr eol left i =
    ((List.range' i left).map ustr).takeWhile fun b => b.toNat ≠ eol := by
  induction left generalizing i with
  | zero => rfl
  | succ left ih =>
    unfold bytesFrom
    rw [range'_succ, ih]
    by_cases eq : (ustr i).toNat = eol <;> simp [eq]

end

theorem quoteLoop_keeps (xstyle : HexstrOpts) (escapeChars : Option (List UInt8))
    (ustr : Nat → UInt8) (size : Nat) (omitTrailing0 : Bool) (left i : Nat) :
    quoteLoop ustr 0 xstyle escapeChars size omitTrailing0 left i =
      quoteLoop ustr 0 xstyle escapeChars size false left i := by
  induction left generalizing i with
  | zero => rfl
  | succ left ih =>
    rw [quoteLoop, quoteLoop, ih]
    by_cases ends : (ustr i).toNat = 0
    · simp [ends]
    · have other : ustr i ≠ 0 := fun eq => ends (by rw [eq]; rfl)
      simp [other]

theorem quoteText_keeps (xstyle : HexstrOpts) (escapeChars : Option (List UInt8))
    (ustr : Nat → UInt8) (size : Nat) {style : UInt32}
    (keeps : style &&& quote0Terminated ≠ 0 ∨ style &&& quoteOmitTrailing0 = 0) :
    quoteText ustr (endOfLine style) xstyle escapeChars size (style &&& quoteOmitTrailing0 ≠ 0) =
      quoteText ustr (endOfLine style) xstyle escapeChars size false := by
  unfold quoteText endOfLine
  rcases keeps with terminated | keeps
  · rw [if_pos terminated, quoteLoop_keeps]
  · rw [decide_eq_false (not_not.mpr keeps)]

theorem bytesFrom_endOfLine (ustr : Nat → UInt8) (size : Nat) (style : UInt32) :
    bytesFrom ustr (endOfLine style) size 0 = quotedBytes ustr size style := by
  rw [bytesFrom_eq, ← range_eq_range']
  unfold quotedBytes endOfLine
  split
  · congr 1
    funext b
    rw [Bool.eq_iff_iff]
    simp [← UInt8.toNat_inj]
  · exact takeWhile_eq_self_iff.mpr fun b _ => decide_eq_true (Nat.ne_of_lt b.toNat_lt)

theorem stringQuote_spells (ustr : Nat → UInt8) (size : Nat)
    (style : UInt32) (escapeChars : Option (List UInt8))
    (keeps : style &&& quote0Terminated ≠ 0 ∨ style &&& quoteOmitTrailing0 = 0) :
    ∃ text, (stringQuote xflag ustr size style escapeChars).1 =
        openingDelimiter style ++ text ++ closingDelimiter style ∧
      SpellsAll escapeChars (quotedBytes ustr size style) text := by
  rw [stringQuote_eq, quoteText_keeps _ _ _ _ keeps, ← bytesFrom_endOfLine]
  refine ⟨_, rfl, ?_⟩
  unfold quoteText
  split
  · exact hexLoop_spells size 0
  · exact quoteLoop_spells (Nat.zero_add size)

/-- The text between the delimiters can be printed, and unescaping it gives the bytes
back; neither a double quote nor a character of `escape_chars` stands for itself. -/
theorem string_quote_unescapes (xflag : HexstrOpts) (ustr : Nat → UInt8) (size : Nat)
    (style : UInt32) (escapeChars : Option (List UInt8))
    (keepsTrailing0 : style &&& quoteOmitTrailing0 = 0) :
    ∃ text, (stringQuote xflag ustr size style escapeChars).1 =
        openingDelimiter style ++ text ++ closingDelimiter style ∧
      (∀ b ∈ text, isPrint b = true) ∧
      ∃ items, Escapes.parts text = some items ∧
        items.map Escapes.Item.byte = quotedBytes ustr size style ∧
        ∀ b, .literal b ∈ items → b ≠ ch '"' ∧ ∀ chars ∈ escapeChars, b ∉ chars := by
  obtain ⟨text, eq, printable, items⟩ :=
    stringQuote_spells xflag ustr size style escapeChars (.inr keepsTrailing0)
  exact ⟨text, eq, printable, items⟩

def fiveBytes (i : Nat) : UInt8 := [1, ch '7', ch '"', 255, ch 'a'].getD i 0

example : (stringQuote .none fiveBytes 5 0 (some [ch 'a'])).1 =
    ['"', '\\', '0', '0', '1', '7', '\\', '"', '\\', '3', '7', '7', '\\', '1', '4', '1', '"'].map
      ch := by decide

theorem string_quote_unescapes_fiveBytes :
    (0 : UInt32) &&& quoteOmitTrailing0 = 0 ∧
    ∃ text, (stringQuote .none fiveBytes 5 0 (some [ch 'a'])).1 =
        openingDelimiter 0 ++ text ++ closingDelimiter 0 ∧
      (∀ b ∈ text, isPrint b = true) ∧
      ∃ items, Escapes.parts text = some items ∧
        items.map Escapes.Item.byte = quotedBytes fiveBytes 5 0 ∧
        ∀ b, .literal b ∈ items → b ≠ ch '"' ∧ ∀ chars ∈ some [ch 'a'], b ∉ chars :=
  ⟨rfl, string_quote_unescapes .none fiveBytes 5 0 (some [ch 'a']) rfl⟩

end Strace
