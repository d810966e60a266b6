import Mathlib.Algebra.GroupWithZero.Nat
import Strace.Xlat.Flags

/-! `xlat.c`: the same names as a string. -/
namespace Strace.Xlat
open List

open Strace.Buffers Event

/-! ## What is printed -/

variable (format : Format)

/-- The text of an event, with colours off. -/
def Event.text : Event → List Char
  | val v => sprintXlatVal v format
  | name _ str => str.1
  | flagsOr => ['|']
  | commentBegin => " /* ".toList
  | commentEnd => " */".toList
  | string str => str.1

def text (events : List Event) : List Char := events.flatMap (Event.text format)

@[simp] theorem text_nil : text format [] = [] := rfl

@[simp] theorem text_cons (e : Event) (events : List Event) :
    text format (e :: events) = e.text format ++ text format events :=
  flatMap_cons ..

@[simp] theorem text_append (events more : List Event) :
    text format (events ++ more) = text format events ++ text format more :=
  flatMap_append ..

theorem nul_not_mem_sprintXlatVal (v : UInt64) (format : Format) :
    nul ∉ sprintXlatVal v format := by
  have decimals := nul_not_mem_toDigits (by decide : 1 < 10) (by decide)
  have hexadecimals := nul_not_mem_toDigits (by decide : 1 < 16) (by decide)
  have minus : nul ≠ '-' := by decide
  have zero : nul ≠ '0' := by decide
  have x : nul ≠ 'x' := by decide
  cases format <;> simp only [sprintXlatVal] <;> try split
  all_goals simp [decimal, decimals, hexadecimals, minus, zero, x]

theorem nul_not_mem_text (events : List Event) : nul ∉ text format events := by
  have event : ∀ e : Event, nul ∉ e.text format := by
    intro e
    cases e with
    | val v => exact nul_not_mem_sprintXlatVal v format
    | name v str => exact str.2
    | string str => exact str.2
    | flagsOr | commentBegin | commentEnd =>
      simp only [Event.text]
      decide
  induction events with
  | nil => simp
  | cons e events ih => simp [event e, ih]

/-! ## `sprintflags_exv` -/

structure Sprinting where
  out : Buffer Char
  flags : UInt64
  sep : Char
  found : Bool := false

/-- `if (sep) *outptr++ = sep;` -/
def putSep (sep : Char) (out : Buffer Char) : Option (Buffer Char) :=
  if sep ≠ nul then out.put sep else some out

def separate (comment : Bool) (sep : Char) (out : Buffer Char) : Option (Buffer Char) :=
  if sep ≠ nul then out.put sep
  else if comment then out.append " /* ".toList
  else some out

def sprintName (comment : Bool) (s : Sprinting) (v : UInt64) (str : CString) :
    Option Sprinting := do
  let out ← separate comment s.sep s.out
  let out ← out.append str.1
  some { out, found := true, sep := '|', flags := s.flags &&& ~~~v }

/-- The body of the inner loop. -/
def sprintEntry (comment : Bool) (s : Sprinting) (data : XlatData) : Option Sprinting :=
  match data.str with
  | none => some s
  | some str =>
    if data.val ≠ 0 ∧ s.flags &&& data.val = data.val then sprintName comment s data.val str
    else some s

/-- The loop over the entries of a table. -/
def sprintTable (comment : Bool) (s : Sprinting) : List XlatData → Option Sprinting
  | [] => some s
  | data :: rest =>
    if s.flags ≠ 0 then do
      let s ← sprintEntry comment s data
      sprintTable comment s rest
    else some s

def zeroName : List (List XlatData) → Option (Option CString)
  | (data :: _) :: _ => some (if data.val = 0 then data.str else none)
  | _ => none

def sprintLeft (style : Style) (s : Sprinting) : Option (Buffer Char) :=
  if s.flags = 0 then some s.out
  else do
    let out ← putSep s.sep s.out
    if s.found ∨ style.verbosity ≠ .verbose ∧ (!style.auxstrMode ∨ s.sep ≠ nul) then
      out.append (sprintXlatVal s.flags style.format)
    else some out

def endComment (comment : Bool) (out : Buffer Char) : Option (Buffer Char) :=
  if comment then out.append " */".toList else some out

/-- What follows the loops. -/
def sprintRest (comment : Bool) (style : Style) (s : Sprinting) : Option (Option (List Char)) :=
  if s.flags = 0 ∧ !s.found then some none
  else do
    let out ← sprintLeft style s
    let out ← endComment (s.found && comment) out
    some (if out.before ≠ [] then some out.contents else none)

def sprintStart (comment : Bool) (flags : UInt64) (sep : Char) (format : Format)
    (out : Buffer Char) : Option Sprinting :=
  if comment ∧ flags ≠ 0 then do
    let out ← putSep sep out
    let out ← out.append (sprintXlatVal flags format)
    some { out, flags, sep := nul }
  else some { out, flags, sep }

def sprintflagsStyle (outstr : List Char) (start : CString) (flags : UInt64) (sep : Char)
    (style : Style) (xlats : List (List XlatData)) : Option (Option (List Char)) := do
  let out ← (Buffer.mk [] outstr).append start.1
  if style.verbosity = .raw then
    if flags = 0 ∨ style.auxstrMode ∧ sep = nul then some none
    else do
      let out ← putSep sep out
      let out ← out.append (sprintXlatVal flags style.format)
      some (some out.contents)
  else do
    let comment := decide (style.verbosity = .verbose) && !style.auxstrMode
    let zero ← if flags = 0 then zeroName xlats else some none
    match zero with
    | some str => do
      let out ← putSep sep out
      let out ← out.append (if comment then "0 /* ".toList ++ str.1 ++ " */".toList else str.1)
      some (some out.contents)
    | none => do
      let s ← sprintStart comment flags sep style.format out
      let s ← xlats.foldlM (sprintTable comment) s
      sprintRest comment style s

def sprintflagsExv (xlatVerbosity : Verbosity) (outstr : List Char) (start : CString)
    (flags : UInt64) (sep : Char) (style : Style) (xlats : List (List XlatData)) :
    Option (Option (List Char)) :=
  sprintflagsStyle outstr start flags sep (getXlatStyle xlatVerbosity style) xlats

/-! ## The loops -/

/-- Both functions are at the same entry. -/
structure Same (comment : Bool) (format : Format) (size : Nat) (s : Sprinting) (p : Printing) :
    Prop where
  out : s.out.Holds size (text format p.events)
  ended : s.out.Ended
  flags : s.flags = p.flags
  found : s.found = decide (p.n ≠ 0)
  sep : s.sep = if p.n ≠ 0 then '|' else nul
  written : comment ∨ p.n ≠ 0 → text format p.events ≠ []

/-- The tables have no empty name. -/
def NonEmptyNames (table : List XlatData) : Prop := ∀ data ∈ table, ∀ str ∈ data.str, str.1 ≠ []

section
variable {comment : Bool} {format : Format} {size : Nat} {s : Sprinting} {p : Printing}

theorem text_printName (p : Printing) (flags : p.flags ≠ 0) (v : UInt64) (str : CString) :
    text format (printName comment p v str).events = text format p.events ++
      (if p.n ≠ 0 then ['|'] else if comment then " /* ".toList else []) ++ str.1 := by
  by_cases first : p.n = 0 <;> cases comment <;> simp [printName, flags, first, Event.text]

theorem Same.name (same : Same comment format size s p) (flags : p.flags ≠ 0) (v : UInt64)
    {str : CString}
    (nonempty : str.1 ≠ [])
    (fits : (text format (printName comment p v str).events).length < size) :
    ∃ s', sprintName comment s v str = some s' ∧
      Same comment format size s' (printName comment p v str) := by
  rw [text_printName p flags, length_append, length_append] at fits
  -- The separator is the first thing written for every name but the first.
  have separated : ∃ out, separate comment s.sep s.out = some out ∧
    out.Holds size (text format p.events ++
      (if p.n ≠ 0 then ['|'] else if comment then " /* ".toList else [])) := by
    by_cases first : p.n = 0
    · have sep : s.sep = nul := by simp [same.sep, first]
      simp only [sep, first] at fits ⊢
      cases comment with
      | true =>
        obtain ⟨out, appended, holds, -⟩ :=
          same.out.append (Nat.lt_of_le_of_lt (Nat.le_add_right ..) fits)
        exact ⟨out, appended, holds⟩
      | false => exact ⟨s.out, rfl, by simpa using same.out⟩
    · have sep : s.sep = '|' := by simp [same.sep, first]
      simp only [sep, first, ne_eq] at fits ⊢
      exact same.out.put (by omega) '|'
  obtain ⟨out, separated, holds⟩ := separated
  obtain ⟨out', appended, holds', ended⟩ := holds.append (by simpa using fits)
  refine ⟨_, by rw [sprintName, separated, Option.bind_eq_bind, Option.bind_some, appended]; rfl,
    ?_⟩
  rw [← text_printName p flags v] at holds'
  refine ⟨holds', ended, by simp [printName, same.flags], by simp [printName],
    by simp [printName], ?_⟩
  intro _ empty
  rw [text_printName p flags, append_eq_nil_iff] at empty
  exact nonempty empty.2

theorem Same.entry (same : Same comment format size s p) (flags : p.flags ≠ 0) {data : XlatData}
    (nonempty : ∀ str ∈ data.str, str.1 ≠ [])
    (fits : (text format (printEntry comment p data).events).length < size) :
    ∃ s', sprintEntry comment s data = some s' ∧
      Same comment format size s' (printEntry comment p data) := by
  unfold printEntry at fits ⊢
  unfold sprintEntry
  cases str : data.str with
  | none => exact ⟨s, rfl, same⟩
  | some str' =>
    have looked : (p.flags = data.val ∨ data.val ≠ 0 ∧ p.flags &&& data.val = data.val) ↔
        (data.val ≠ 0 ∧ s.flags &&& data.val = data.val) := by
      rw [same.flags]
      constructor
      · grind
      · exact .inr
    rw [str] at fits
    dsimp only at fits ⊢
    by_cases set : data.val ≠ 0 ∧ s.flags &&& data.val = data.val
    · rw [if_pos (looked.mpr set)] at fits ⊢
      rw [if_pos set]
      exact same.name flags data.val (nonempty str' str) fits
    · grind

theorem length_text_printEntry (p : Printing) (data : XlatData) :
    (text format p.events).length ≤ (text format (printEntry comment p data).events).length := by
  unfold printEntry printName
  split
  · exact Nat.le_refl _
  · split
    · simp
    · exact Nat.le_refl _

theorem length_text_printTable (p : Printing) (table : List XlatData) :
    (text format p.events).length ≤ (text format (printTable comment p table).events).length := by
  induction table generalizing p with
  | nil => exact Nat.le_refl _
  | cons data rest ih =>
    rw [printTable]
    split
    · grind [length_text_printEntry]
    · exact Nat.le_refl _

theorem length_text_printTables (p : Printing) (tables : List (List XlatData)) :
    (text format p.events).length ≤
      (text format (tables.foldl (printTable comment) p).events).length := by
  induction tables generalizing p with
  | nil => exact Nat.le_refl _
  | cons table rest ih => exact Nat.le_trans (length_text_printTable p table) (ih _)

def Looking (p : Printing) : Prop := p.n = 0 → p.flags ≠ 0

theorem Looking.printEntry (looking : Looking p) (data : XlatData) :
    Looking (printEntry comment p data) := by
  unfold Xlat.printEntry
  split
  · exact looking
  · split
    · exact fun first => absurd first (Nat.succ_ne_zero _)
    · exact looking

theorem Same.table (same : Same comment format size s p) (looking : Looking p)
    {table : List XlatData}
    (nonempty : NonEmptyNames table)
    (fits : (text format (printTable comment p table).events).length < size) :
    ∃ s', sprintTable comment s table = some s' ∧
      Same comment format size s' (printTable comment p table) ∧
        Looking (printTable comment p table) := by
  induction table generalizing s p with
  | nil => exact ⟨s, rfl, same, looking⟩
  | cons data rest ih =>
    rw [printTable] at fits ⊢
    rw [sprintTable]
    by_cases flags : p.flags = 0
    · have named : ¬ (p.flags ≠ 0 ∨ p.n = 0) := by
        rintro (left | first)
        · exact left flags
        · exact looking first flags
      rw [if_neg named, same.flags, if_neg (not_not_intro flags)]
      exact ⟨s, rfl, same, looking⟩
    · have loop : p.flags ≠ 0 ∨ p.n = 0 := .inl flags
      rw [if_pos loop] at fits ⊢
      rw [same.flags, if_pos flags]
      have here : (text format (printEntry comment p data).events).length < size := by
        grind [length_text_printTable]
      obtain ⟨s', entry, same'⟩ := same.entry flags (nonempty data mem_cons_self) here
      rw [entry]
      by_cases done : (printEntry comment p data).flags = 0
      · rw [if_pos done]
        refine ⟨s', ?_, same', looking.printEntry data⟩
        cases rest <;> simp [sprintTable, same'.flags, done]
      · rw [if_neg done] at fits ⊢
        exact ih same' (looking.printEntry data)
          (fun data mem => nonempty data (mem_cons_of_mem _ mem)) fits

theorem Same.tables (same : Same comment format size s p) (looking : Looking p)
    {tables : List (List XlatData)} (nonempty : ∀ table ∈ tables, NonEmptyNames table)
    (fits : (text format (tables.foldl (printTable comment) p).events).length < size) :
    ∃ s', tables.foldlM (sprintTable comment) s = some s' ∧
      Same comment format size s' (tables.foldl (printTable comment) p) ∧
      Looking (tables.foldl (printTable comment) p) := by
  induction tables generalizing s p with
  | nil => exact ⟨s, rfl, same, looking⟩
  | cons table rest ih =>
    have here := Nat.lt_of_le_of_lt (length_text_printTables _ rest) fits
    obtain ⟨s', stepped, same', looking'⟩ :=
      same.table looking (nonempty table mem_cons_self) here
    rw [foldlM_cons, stepped]
    exact ih same' looking' (fun table mem => nonempty table (mem_cons_of_mem _ mem)) fits

end

/-! ## The whole text -/

theorem sprintXlatVal_ne_nil (v : UInt64) (format : Format) : sprintXlatVal v format ≠ [] := by
  cases format <;> simp only [sprintXlatVal] <;> try split
  all_goals simp [decimal]

section
variable {style : Style} {size : Nat} {comment : Bool}

theorem same_start {outstr : List Char} (length : outstr.length = size) {flags : UInt64}
    (nonzero : flags ≠ 0) {format : Format}
    (fits : (text format (if comment && flags ≠ 0 then [val flags] else [])).length < size) :
    ∃ out s, (Buffer.mk [] outstr).append [] = some out ∧
      sprintStart comment flags nul format out = some s ∧
      Same comment format size s
        { flags, events := if comment && flags ≠ 0 then [val flags] else [] } := by
  have empty : (Buffer.mk [] outstr).Holds size [] := ⟨rfl, by simpa using length⟩
  have room := Nat.lt_of_le_of_lt (Nat.zero_le _) fits
  obtain ⟨out, begun, holds, ended⟩ := empty.append (by simpa using room : _ + [].length < size)
  cases comment with
  | false =>
    exact ⟨out, _, begun, rfl, holds, ended, rfl, rfl, rfl, by simp⟩
  | true =>
    simp only [nonzero, Event.text, text_cons, Bool.true_and, ne_eq,
      not_false_eq_true, decide_true, if_true] at fits ⊢
    obtain ⟨out', appended, holds', ended'⟩ := holds.append (by simpa using fits)
    refine ⟨out, { out := out', flags, sep := nul }, begun, ?_, ?_⟩
    · simp [sprintStart, putSep, nonzero, appended]
    · exact ⟨by simpa [Event.text] using holds', ended', rfl, rfl, rfl,
        by simpa [Event.text] using sprintXlatVal_ne_nil flags format⟩

def unnamed (verbosity : Verbosity) (p : Printing) : List Event :=
  if p.flags = 0 then []
  else if p.n ≠ 0 then [flagsOr, val p.flags]
  else if verbosity ≠ .verbose then [val p.flags]
  else []

theorem printRest_eq (verbosity : Verbosity) (p : Printing) :
    printRest verbosity none p =
      unnamed verbosity p ++ if p.n ≠ 0 ∧ verbosity = .verbose then [commentEnd] else [] := by
  by_cases first : p.n = 0
  · simp [printRest, unnamed, first, tprintsComment]
  · by_cases flags : p.flags = 0 <;> simp [printRest, unnamed, first]

variable {s : Sprinting} {p : Printing}

theorem Same.left (same : Same comment style.format size s p) (plain : style.auxstrMode = false)
    (fits : (text style.format (p.events ++ unnamed style.verbosity p)).length < size) :
    ∃ out, sprintLeft style s = some out ∧
      out.Holds size (text style.format (p.events ++ unnamed style.verbosity p)) ∧ out.Ended := by
  unfold sprintLeft
  unfold unnamed at fits ⊢
  by_cases flags : p.flags = 0
  · exact ⟨s.out, by simp [same.flags, flags], by simpa [flags] using same.out, same.ended⟩
  · rw [same.flags, if_neg flags]
    rw [if_neg flags] at fits ⊢
    by_cases first : p.n = 0
    · have sep : s.sep = nul := by simp [same.sep, first]
      have found : s.found = false := by simp [same.found, first]
      by_cases verbose : style.verbosity = .verbose
      · exact ⟨s.out, by simp [sep, found, verbose, putSep],
          by simpa [first, verbose] using same.out, same.ended⟩
      · have room : (text style.format p.events).length +
            (sprintXlatVal p.flags style.format).length < size := by
          simpa [first, verbose, Event.text] using fits
        obtain ⟨out, appended, holds, ended⟩ := same.out.append room
        exact ⟨out, by simp [sep, verbose, plain, putSep, appended],
          by simpa [first, verbose, Event.text] using holds, ended⟩
    · have sep : s.sep = '|' := by simp [same.sep, first]
      have found : s.found = true := by simp [same.found, first]
      have bar : '|' ≠ nul := by decide
      have room : (text style.format p.events ++ ['|']).length +
          (sprintXlatVal p.flags style.format).length < size := by
        simpa [first, Event.text, Nat.add_assoc, Nat.add_comm 1] using fits
      obtain ⟨out, put, holds⟩ := same.out.put (by simp at room; omega) '|'
      obtain ⟨out', appended, holds', ended⟩ := holds.append room
      exact ⟨out', by simp [sep, found, bar, putSep, put, appended],
        by simpa [first, Event.text] using holds', ended⟩

theorem Same.rest (same : Same (decide (style.verbosity = .verbose)) style.format size s p)
    (looking : Looking p) (plain : style.auxstrMode = false)
    (fits : (text style.format (p.events ++ printRest style.verbosity none p)).length < size) :
    sprintRest (decide (style.verbosity = .verbose)) style s =
      some (some (text style.format (p.events ++ printRest style.verbosity none p))) := by
  have shape := printRest_eq style.verbosity p
  rw [shape, ← append_assoc, text_append] at fits ⊢
  obtain ⟨out, left, holds, ended⟩ :=
    same.left plain (Nat.lt_of_le_of_lt (by simp) fits)
  have returned : ¬ (s.flags = 0 ∧ !s.found) := by
    rintro ⟨flags, found⟩
    rw [same.found] at found
    exact looking (by simpa using found) (same.flags ▸ flags)
  have closed : ∃ out', endComment (s.found && decide (style.verbosity = .verbose)) out =
    some out' ∧
      out'.Holds size (text style.format (p.events ++ unnamed style.verbosity p) ++
        text style.format (if p.n ≠ 0 ∧ style.verbosity = .verbose then [commentEnd] else [])) ∧
      out'.Ended := by
    unfold endComment
    by_cases comment : p.n ≠ 0 ∧ style.verbosity = .verbose
    · rw [if_pos comment] at fits ⊢
      rw [if_pos (by simpa [same.found] using comment)]
      exact holds.append (by rwa [text_cons, text_nil, append_nil, length_append] at fits)
    · rw [if_neg comment, if_neg (by simpa [same.found] using comment)]
      exact ⟨out, rfl, by simpa using holds, ended⟩
  obtain ⟨out', closed, holds', ended'⟩ := closed
  -- Some text was written: the whole value, a name or the number of what has none.
  have written : text style.format (p.events ++ unnamed style.verbosity p) ≠ [] := by
    rw [text_append]
    by_cases before : style.verbosity = .verbose ∨ p.n ≠ 0
    · exact append_ne_nil_of_left_ne_nil (same.written (by simpa using before)) _
    · simp only [not_or, not_not] at before
      have number : unnamed style.verbosity p = [val p.flags] := by
        simp [unnamed, before, looking before.2]
      rw [number]
      exact append_ne_nil_of_right_ne_nil _ 
        (by simpa [Event.text] using sprintXlatVal_ne_nil p.flags style.format)
  rw [sprintRest, if_neg returned, left, Option.bind_eq_bind, Option.bind_some, closed,
    Option.bind_some, holds'.before, if_pos (append_ne_nil_of_left_ne_nil written _),
    holds'.contents ended']
  rw [← text_append]
  exact nul_not_mem_text style.format _

end

/-! ## A bound on the text -/

theorem length_sprintXlatVal_x_le {v : UInt64} {n : Nat} (positive : n ≠ 0)
    (small : v.toNat < 16 ^ n) :
    (sprintXlatVal v .x).length ≤ 2 + n := by
  rw [sprintXlatVal]
  split
  · exact Nat.le_add_right_of_le (by decide)
  · have few := (Nat.length_toDigits_le_iff (by decide) (Nat.pos_of_ne_zero positive)).mpr small
    simp only [length_append, length_cons, length_nil]
    omega

theorem length_sprintXlatVal_x (v : UInt64) : (sprintXlatVal v .x).length ≤ 18 :=
  length_sprintXlatVal_x_le (by decide : 16 ≠ 0) v.toNat_lt

theorem length_sprintXlatVal (v : UInt64) (format : Format) :
    (sprintXlatVal v format).length ≤ 20 := by
  have small := v.toNat_lt
  have digits {n : Nat} (le : n < 2 ^ 64) : (decimal n).length ≤ 20 :=
    (Nat.length_toDigits_le_iff (by decide) (by decide)).mpr (Nat.lt_of_lt_of_le le (by decide))
  cases format with
  | d =>
    rw [sprintXlatVal]
    split
    · have half : v.toBitVec.toInt.natAbs < 10 ^ 19 := by
        have low := v.toBitVec.le_two_mul_toInt
        omega
      have few : (decimal v.toBitVec.toInt.natAbs).length ≤ 19 :=
        (Nat.length_toDigits_le_iff (by decide) (by decide)).mpr half
      rw [length_cons]
      omega
    · exact digits small
  | u => exact digits small
  | x => exact Nat.le_trans (length_sprintXlatVal_x v) (by decide)

def XlatData.room (data : XlatData) : Nat := 5 + data.str.elim 0 fun str => str.1.length

section
variable (comment : Bool) (format : Format)

theorem length_text_printEntry_le (p : Printing) (data : XlatData) :
    (text format (printEntry comment p data).events).length ≤
      (text format p.events).length + data.room := by
  unfold printEntry XlatData.room
  cases data.str with
  | none => exact Nat.le_add_right ..
  | some str =>
    dsimp only
    split
    · have zero : (text format (if comment && p.flags = 0 then [val 0] else [])).length ≤ 1 := by
        split
        · cases format <;> decide
        · exact Nat.zero_le 1
      have mark : (text format (if p.n ≠ 0 then [flagsOr]
          else if comment then [commentBegin] else [])).length ≤ 4 := by
        split
        · exact Nat.le_of_ble_eq_true rfl
        · split
          · exact Nat.le_refl 4
          · exact Nat.zero_le 4
      simp only [printName, text_append, text_cons, text_nil, Event.text, length_append,
        append_nil, Option.elim_some]
      omega
    · exact Nat.le_add_right ..

theorem length_text_printTable_le (p : Printing) (table : List XlatData) :
    (text format (printTable comment p table).events).length ≤
      (text format p.events).length + (table.map XlatData.room).sum := by
  induction table generalizing p with
  | nil => exact Nat.le_refl _
  | cons data rest ih =>
    have here := length_text_printEntry_le comment format p data
    have later := ih (printEntry comment p data)
    rw [printTable, map_cons, sum_cons]
    split
    · dsimp only
      split <;> omega
    · exact Nat.le_add_right ..

theorem length_text_printRest_le (verbosity : Verbosity) (p : Printing) :
    (text format (printRest verbosity none p)).length ≤ 24 := by
  have number := length_sprintXlatVal p.flags format
  unfold printRest
  by_cases first : p.n = 0 <;> by_cases flags : p.flags = 0 <;>
    by_cases verbose : verbosity = .verbose <;>
      simp [first, flags, verbose, tprintsComment, Event.text] <;> omega

theorem length_text_printflagsStyle_le (flags : UInt64) (verbosity : Verbosity)
    (table : List XlatData) :
    (text format (printflagsStyle flags none verbosity [table])).length ≤
      44 + (table.map XlatData.room).sum := by
  have number := length_sprintXlatVal flags format
  unfold printflagsStyle
  split
  · split
    · simp only [text_cons, text_nil, Event.text, append_nil]
      omega
    · exact Nat.zero_le _
  · have start : (text format (if decide (verbosity = .verbose) && flags ≠ 0 then [val flags]
        else [])).length ≤ 20 := by
      split
      · simpa [Event.text] using number
      · exact Nat.zero_le _
    dsimp only [foldl_cons, foldl_nil]
    generalize begun : Printing.mk flags 0 (if decide (verbosity = .verbose) && flags ≠ 0 then
      [val flags] else []) = p
    have first : (text format p.events).length ≤ 20 := by rwa [← begun]
    have loop := length_text_printTable_le (decide (verbosity = .verbose)) format p table
    have rest := length_text_printRest_le format verbosity
      (printTable (decide (verbosity = .verbose)) p table)
    rw [text_append, length_append]
    omega

end

/-! ## The characters of the text -/

section
variable {format : Format} {P : Char → Prop}

/-- The characters of an event. -/
def Event.Of (format : Format) (P : Char → Prop) (e : Event) : Prop := ∀ c ∈ e.text format, P c

structure Marks (format : Format) (P : Char → Prop) : Prop where
  val : ∀ v, (Event.val v).Of format P
  flagsOr : flagsOr.Of format P
  commentBegin : commentBegin.Of format P
  commentEnd : commentEnd.Of format P

variable {comment : Bool} {p : Printing}

variable (marks : Marks format P)
include marks

theorem of_printEntry {data : XlatData}
    (name : ∀ str ∈ data.str, ∀ c ∈ str.1, P c) (before : ∀ e ∈ p.events, e.Of format P) :
    ∀ e ∈ (printEntry comment p data).events, e.Of format P := by
  unfold printEntry
  cases str : data.str with
  | none => exact before
  | some str' =>
    dsimp only
    split
    · simp only [printName, forall_mem_append, forall_mem_singleton]
      refine ⟨⟨⟨before, ?_⟩, ?_⟩, name str' str⟩
      · split
        · simpa using marks.val 0
        · simp
      · split
        · simpa using marks.flagsOr
        · split
          · simpa using marks.commentBegin
          · simp
    · exact before

theorem of_printTable {table : List XlatData}
    (names : ∀ data ∈ table, ∀ str ∈ data.str, ∀ c ∈ str.1, P c)
    (before : ∀ e ∈ p.events, e.Of format P) :
    ∀ e ∈ (printTable comment p table).events, e.Of format P := by
  induction table generalizing p with
  | nil => exact before
  | cons data rest ih =>
    rw [forall_mem_cons] at names
    have here : ∀ e ∈ (printEntry comment p data).events, e.Of format P :=
      of_printEntry marks names.1 before
    rw [printTable]
    split
    · dsimp only
      split
      · exact here
      · exact ih names.2 here
    · exact before

theorem of_printRest (verbosity : Verbosity) (p : Printing) :
    ∀ e ∈ printRest verbosity none p, e.Of format P := by
  unfold printRest
  by_cases first : p.n = 0 <;> by_cases flags : p.flags = 0 <;>
    by_cases verbose : verbosity = .verbose <;>
      simp [first, flags, tprintsComment, marks.val, marks.flagsOr, marks.commentEnd]

theorem of_printflagsStyle (flags : UInt64) (verbosity : Verbosity)
    {table : List XlatData} (names : ∀ data ∈ table, ∀ str ∈ data.str, ∀ c ∈ str.1, P c) :
    ∀ c ∈ text format (printflagsStyle flags none verbosity [table]), P c := by
  have events : ∀ e ∈ printflagsStyle flags none verbosity [table], e.Of format P := by
    unfold printflagsStyle
    split
    · split
      · simpa using marks.val flags
      · simp
    · simp only [forall_mem_append]
      refine ⟨of_printTable marks names ?_, of_printRest marks verbosity _⟩
      split
      · simpa using marks.val flags
      · simp
  intro c mem
  obtain ⟨e, shown, mem⟩ := mem_flatMap.mp mem
  exact events e shown c mem

end

theorem sprintflagsStyle_eq (outstr : List Char) {flags : UInt64} (nonzero : flags ≠ 0)
    {style : Style} (plain : style.auxstrMode = false) {xlats : List (List XlatData)}
    (nonempty : ∀ table ∈ xlats, NonEmptyNames table)
    (fits : (text style.format (printflagsStyle flags none style.verbosity xlats)).length <
      outstr.length) :
    sprintflagsStyle outstr ⟨[], by decide⟩ flags nul style xlats =
      some (some (text style.format (printflagsStyle flags none style.verbosity xlats))) := by
  unfold sprintflagsStyle
  unfold printflagsStyle at fits ⊢
  by_cases raw : style.verbosity = .raw
  · simp only [raw, nonzero, ne_eq, not_false_eq_true, true_or, if_true, text_cons, text_nil,
      append_nil, Event.text] at fits ⊢
    have empty : (Buffer.mk [] outstr).Holds outstr.length [] := ⟨rfl, by simp⟩
    obtain ⟨out, begun, holds, -⟩ :=
      empty.append (by simpa using Nat.lt_of_le_of_lt (Nat.zero_le _) fits : _ + [].length < _)
    obtain ⟨out', appended, holds', ended⟩ := holds.append (by simpa using fits)
    have contents :=
      holds'.contents ended (by simpa using nul_not_mem_sprintXlatVal flags style.format)
    simp only [begun, plain, Bool.false_eq_true, false_and, or_self, if_false, putSep,
      ne_eq, not_true_eq_false, Option.bind_eq_bind, Option.bind_some, appended, contents,
      nil_append]
  · rw [if_neg raw] at fits ⊢
    -- The loops and what precedes them only write a part of the text.
    have whole := fits
    rw [text_append, length_append] at whole
    have loops := Nat.lt_of_le_of_lt (Nat.le_add_right ..) whole
    have start := Nat.lt_of_le_of_lt (length_text_printTables _ xlats) loops
    obtain ⟨out, s, begun, started, same⟩ := same_start rfl nonzero start
    obtain ⟨s', looped, same', looking⟩ := same.tables (fun _ => nonzero) nonempty loops
    have rest := same'.rest looking plain fits
    simp only [begun, raw, nonzero, plain, if_false, Option.bind_eq_bind, Option.bind_some,
      Bool.not_false, Bool.and_true, started, looped, rest]

/-- The string of `sprintflags_exv` is the text that `printflags_ex` prints. -/
theorem sprintflags_exv_eq_printflags_ex (xlatVerbosity : Verbosity) (outstr : List Char)
    (flags : UInt64) (nonzero : flags ≠ 0) (style : Style) (plain : style.auxstrMode = false)
    (xlats : List (List XlatData)) (nonempty : ∀ table ∈ xlats, NonEmptyNames table)
    (fits : (text style.format (printflagsEx xlatVerbosity flags none style xlats)).length <
      outstr.length) :
    sprintflagsExv xlatVerbosity outstr ⟨[], by decide⟩ flags nul style xlats =
      some (some (text style.format (printflagsEx xlatVerbosity flags none style xlats))) := by
  have format : (getXlatStyle xlatVerbosity style).format = style.format := by
    unfold getXlatStyle
    split <;> rfl
  have aux : (getXlatStyle xlatVerbosity style).auxstrMode = false := by
    unfold getXlatStyle
    split <;> exact plain
  rw [← format] at fits ⊢
  exact sprintflagsStyle_eq outstr nonzero aux nonempty fits

/-- A name and a rest in the verbose style. -/
theorem sprintflags_exv_eq_verbose :
    sprintflagsExv .abbreviated (List.replicate 1024 'z') ⟨[], by decide⟩ 0x18 nul
        { verbosity := .verbose, format := .x } [[⟨8, some ⟨"POLLERR".toList, by decide⟩⟩]] =
      some (some "0x18 /* POLLERR|0x10 */".toList) := by
  have named : ∀ table ∈ [[XlatData.mk 8 (some ⟨"POLLERR".toList, by decide⟩)]],
      NonEmptyNames table := by
    rintro table (- | ⟨_, ⟨⟩⟩) data (- | ⟨_, ⟨⟩⟩) str ⟨⟩
    decide
  exact sprintflags_exv_eq_printflags_ex .abbreviated (List.replicate 1024 'z') 0x18 (by decide)
    { verbosity := .verbose, format := .x } rfl _ named
    (by rw [List.length_replicate]; decide)

end Strace.Xlat
