import Strace.Output.StringQuote

/-! `print_quoted_string_ex` of `util.c`: the size of the buffer that it allocates for
`string_quote`. -/
namespace Strace
open List

open Escapes (ch)

def quoteExpectTrailing0 : UInt32 := 0x10

/-- `ALLOCA_CUTOFF` -/
def allocaCutoff : UInt32 := 4032

inductive QuoteError where
  /-- `requested %u bytes exceeds %u bytes limit` -/
  | exceedsLimit (size limit : UInt32)
  /-- `memory exhausted when tried to allocate %u bytes` -/
  | memoryExhausted (allocSize : UInt32)
  deriving DecidableEq, Repr

/-- What a call without an error does. -/
structure QuotedString where
  allocSize : UInt32
  /-- all that is written to the buffer -/
  outstr : List UInt8
  moreDataFollows : Bool
  rc : Nat
  deriving DecidableEq, Repr

/-- How many bytes are quoted at most. -/
def quotedSize (size style : UInt32) : UInt32 :=
  if size ≠ 0 ∧ style &&& quote0Terminated ≠ 0 then size - 1 else size

/-- `1 + (... ? 0 : 2) + (... ? 7 : 0)` -/
def delimitersSize (style : UInt32) : UInt32 :=
  1 + (if style &&& quoteOmitLeadingTrailingQuotes ≠ 0 then 0 else 2) +
    (if style &&& quoteEmitComment ≠ 0 then 7 else 0)

def printQuotedStringEx (xflag : HexstrOpts) (canAlloc : Bool) (str : Nat → UInt8)
    (size style : UInt32) (escapeChars : Option (List UInt8)) : Except QuoteError QuotedString :=
  let size := quotedSize size style
  let allocSize := 4 * size
  if allocSize / 4 ≠ size then .error (.exceedsLimit size ((-1) / 4))
  else
    let allocSize := allocSize + delimitersSize style
    if ¬ allocSize ≤ allocaCutoff ∧ ¬ canAlloc then .error (.memoryExhausted allocSize)
    else
      let (text, rc) := stringQuote xflag str size.toNat style escapeChars
      .ok
        { allocSize
          outstr := text ++ [0]
          moreDataFollows := style &&& (quote0Terminated ||| quoteExpectTrailing0) =
            quote0Terminated ||| quoteExpectTrailing0 ∧ rc ≠ 0
          rc }

/-! ## Lengths -/

theorem sprintByteOct_length (c : UInt8) (unabbrev : Bool) :
    (sprintByteOct c unabbrev).length ≤ 3 := by
  unfold sprintByteOct
  split
  · simp
  · split
    · split <;> simp
    · simp

theorem quoteChar_length (xstyle : HexstrOpts) (escapeChars : Option (List UInt8)) (c : UInt8)
    (digitFollows : Bool) : (quoteChar xstyle escapeChars c digitFollows).length ≤ 4 := by
  have octal := sprintByteOct_length c digitFollows
  unfold quoteChar
  iterate 6
    split
    · exact show 2 ≤ 4 by decide
  split
  · exact show 1 ≤ 4 by decide
  split
  · exact show 4 ≤ 4 by decide
  · rw [length_cons]
    omega

section

variable (ustr : Nat → UInt8) (eol : Nat) (xstyle : HexstrOpts) (escapeChars : Option (List UInt8))

theorem hexLoop_length (left i : Nat) : (hexLoop ustr eol left i).1.length ≤ 4 * left := by
  induction left generalizing i with
  | zero => exact Nat.le_refl _
  | succ left ih =>
    have rest := ih (i + 1)
    unfold hexLoop
    split
    · exact Nat.zero_le _
    · simp only [length_append, length_cons, sprintByteHex, length_nil]
      omega

theorem quoteLoop_length (size : Nat) (omitTrailing0 : Bool) (left i : Nat) :
    (quoteLoop ustr eol xstyle escapeChars size omitTrailing0 left i).1.length ≤ 4 * left := by
  induction left generalizing i with
  | zero => exact Nat.le_refl _
  | succ left ih =>
    have rest := ih (i + 1)
    unfold quoteLoop
    dsimp only
    split
    · exact Nat.zero_le _
    split
    · exact Nat.zero_le _
    · rw [length_append]
      have piece := quoteChar_length xstyle escapeChars (ustr i)
        (decide (i + 1 < size ∧ ch '0' ≤ ustr (i + 1) ∧ ustr (i + 1) ≤ ch '7'))
      omega

theorem quoteText_length (size : Nat) (omitTrailing0 : Bool) :
    (quoteText ustr eol xstyle escapeChars size omitTrailing0).1.length ≤ 4 * size := by
  unfold quoteText
  split
  · exact hexLoop_length ustr eol size 0
  · exact quoteLoop_length ustr eol xstyle escapeChars size omitTrailing0 size 0

end

theorem delimiters_length (style : UInt32) :
    (openingDelimiter style).length + (closingDelimiter style).length + 1 =
      (delimitersSize style).toNat := by
  unfold openingDelimiter closingDelimiter delimitersSize
  split <;> split <;> rfl

theorem stringQuote_length (xflag : HexstrOpts) (ustr : Nat → UInt8) (size : Nat) (style : UInt32)
    (escapeChars : Option (List UInt8)) :
    (delimitersSize style).toNat ≤ (stringQuote xflag ustr size style escapeChars).1.length + 1 ∧
      (stringQuote xflag ustr size style escapeChars).1.length + 1 ≤
        4 * size + (delimitersSize style).toNat := by
  have delimiters := delimiters_length style
  have text := quoteText_length ustr (endOfLine style) (hexStyle xflag style) escapeChars size
    (style &&& quoteOmitTrailing0 ≠ 0)
  rw [stringQuote_eq, length_append, length_append]
  constructor <;> omega

/-! ## The buffer -/

theorem delimitersSize_toNat (style : UInt32) :
    (delimitersSize style).toNat = (if style &&& quoteOmitLeadingTrailingQuotes ≠ 0 then 1 else 3) +
      (if style &&& quoteEmitComment ≠ 0 then 7 else 0) := by
  unfold delimitersSize
  split <;> split <;> rfl

/-- What is written to the buffer fits into it, unless a comment is emitted and the
size is one of the two largest that are let through. -/
theorem print_quoted_string_fits_iff (xflag : HexstrOpts) (canAlloc : Bool) (str : Nat → UInt8)
    (size style : UInt32) (escapeChars : Option (List UInt8)) :
    (∀ quoted, printQuotedStringEx xflag canAlloc str size style escapeChars = .ok quoted →
      quoted.outstr.length ≤ quoted.allocSize.toNat) ↔
    ¬ (style &&& quoteEmitComment ≠ 0 ∧
      (quotedSize size style = 0x3ffffffe ∨ quotedSize size style = 0x3fffffff)) := by
  have lengths := stringQuote_length xflag str (quotedSize size style).toNat style escapeChars
  have delimiters := delimitersSize_toNat style
  unfold printQuotedStringEx
  dsimp only
  generalize quotedSize size style = size at *
  have times : (4 * size).toNat = 4 * size.toNat % 2 ^ 32 := UInt32.toNat_mul ..
  have quarter : (4 * size / 4).toNat = 4 * size.toNat % 2 ^ 32 / 4 := by
    rfl
  have limit : 4 * size / 4 = size ↔ size.toNat < 2 ^ 30 := by
    rw [← UInt32.toNat_inj]
    omega
  have largest : size = 0x3ffffffe ∨ size = 0x3fffffff ↔ 2 ^ 30 - 2 ≤ size.toNat ∧
      size.toNat < 2 ^ 30 := by
    rw [← UInt32.toNat_inj, ← UInt32.toNat_inj]
    show size.toNat = 0x3ffffffe ∨ size.toNat = 0x3fffffff ↔ _
    omega
  rw [largest]
  by_cases fits : size.toNat < 2 ^ 30
  · have sum : (4 * size + delimitersSize style).toNat =
        (4 * size.toNat + (delimitersSize style).toNat) % 2 ^ 32 := by
      rw [UInt32.toNat_add, times, Nat.mod_add_mod]
    rw [if_neg (not_not.mpr (limit.mpr fits))]
    constructor
    · rintro within ⟨comment, close, -⟩
      have wraps : (4 * size + delimitersSize style).toNat < (delimitersSize style).toNat := by
        split at delimiters <;> omega
      have tiny : 4 * size + delimitersSize style ≤ allocaCutoff := by
        rw [UInt32.le_iff_toNat_le]
        show _ ≤ 4032
        split at delimiters <;> omega
      have most : _ ≤ (4 * size + delimitersSize style).toNat := within _ (if_neg (by simp [tiny]))
      rw [List.length_append] at most
      omega
    · intro condition quoted made
      split at made
      · cases made
      · cases made
        have exact : (4 * size + delimitersSize style).toNat =
            4 * size.toNat + (delimitersSize style).toNat := by
          by_cases comment : style &&& quoteEmitComment ≠ 0
          · have less : size.toNat < 2 ^ 30 - 2 := by
              by_contra close
              exact condition ⟨comment, by omega, fits⟩
            split at delimiters <;> omega
          · split at delimiters <;> omega
        rw [List.length_append, List.length_singleton]
        show _ ≤ (4 * size + delimitersSize style).toNat
        omega
  · rw [if_pos (limit.not.mpr fits)]
    refine iff_of_true (fun _ made => nomatch made) ?_
    rintro ⟨-, -, less⟩
    exact fits less

/-- Ten bytes are written for an empty string in a comment, to a buffer of six. -/
theorem print_quoted_string_overruns :
    ¬ ∀ quoted, printQuotedStringEx .none true (fun _ => 0) 0x40000000
        (quote0Terminated ||| quoteEmitComment) none = .ok quoted →
      quoted.outstr.length ≤ quoted.allocSize.toNat := by
  intro fits
  have made : printQuotedStringEx .none true (fun _ => 0) 0x40000000
      (quote0Terminated ||| quoteEmitComment) none =
    .ok { allocSize := 6
          outstr := [' ', '/', '*', ' ', '"', '"', ' ', '*', '/', '\x00'].map ch
          moreDataFollows := false
          rc := 0 } := rfl
  have most := fits _ made
  revert most
  decide

end Strace
