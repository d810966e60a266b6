import Strace.Buffers

/-! `xlat.c`: the names that tables have for the bits of a value. -/
namespace Strace.Xlat
open List UInt64

open Strace.Buffers

/-! ## Styles and values -/

/-- `xlat_verbose(style)` -/
inductive Verbosity where
  | default
  | raw
  | abbreviated
  | verbose
  deriving DecidableEq, Repr

/-- `xlat_format(style)` -/
inductive Format where
  | x
  | u
  | d
  deriving DecidableEq, Repr

structure Style where
  verbosity : Verbosity
  format : Format
  /-- `SPFF_AUXSTR_MODE` -/
  auxstrMode : Bool := false
  deriving DecidableEq, Repr

def getXlatStyle (xlatVerbosity : Verbosity) (style : Style) : Style :=
  if style.verbosity = .default then { style with verbosity := xlatVerbosity } else style

def decimal (n : Nat) : List Char := Nat.toDigits 10 n

def sprintXlatVal (val : UInt64) : Format → List Char
  | .d => if val.toBitVec.toInt <
    0 then '-' :: decimal val.toBitVec.toInt.natAbs else decimal val.toNat
  | .u => decimal val.toNat
  | .x => if val = 0 then ['0'] else ['0', 'x'] ++ Nat.toDigits 16 val.toNat

structure XlatData where
  val : UInt64
  str : Option CString

/-! ## `printflags_ex` -/

/-- What is printed. -/
inductive Event where
  | val (v : UInt64)
  /-- the name of an entry with the given value -/
  | name (v : UInt64) (str : CString)
  | flagsOr
  | commentBegin
  | commentEnd
  | string (str : CString)
  deriving DecidableEq

open Event

structure Printing where
  flags : UInt64
  n : Nat := 0
  events : List Event := []

def printName (needComment : Bool) (p : Printing) (v : UInt64) (str : CString) : Printing where
  flags := p.flags &&& ~~~v
  n := p.n + 1
  events := p.events ++ (if needComment && p.flags = 0 then [val 0] else []) ++
    (if p.n ≠ 0 then [flagsOr] else if needComment then [commentBegin] else []) ++ [name v str]

def printEntry (needComment : Bool) (p : Printing) (data : XlatData) : Printing :=
  match data.str with
  | none => p
  | some str =>
    if p.flags = data.val ∨ data.val ≠ 0 ∧ p.flags &&& data.val = data.val then
      printName needComment p data.val str
    else p

/-- The loop over the entries of a table. -/
def printTable (needComment : Bool) (p : Printing) : List XlatData → Printing
  | [] => p
  | data :: rest =>
    if p.flags ≠ 0 ∨ p.n = 0 then
      let p := printEntry needComment p data
      if p.flags = 0 then p else printTable needComment p rest
    else p

/-- `tprints_comment` -/
def tprintsComment : Option CString → List Event
  | none => []
  | some str => if str.1 = [] then [] else [commentBegin, string str, commentEnd]

/-- What follows the loops. -/
def printRest (verbosity : Verbosity) (dflt : Option CString) (p : Printing) : List Event :=
  if p.n ≠ 0 then
    (if p.flags ≠ 0 then [flagsOr, val p.flags] else []) ++
      if verbosity = .verbose then [commentEnd] else []
  else if p.flags ≠ 0 then
    (if verbosity ≠ .verbose then [val p.flags] else []) ++ tprintsComment dflt
  else if dflt.isSome then [val 0]
  else []

def printflagsStyle (flags : UInt64) (dflt : Option CString) (verbosity : Verbosity)
    (xlats : List (List XlatData)) : List Event :=
  if verbosity = .raw then
    if flags ≠ 0 ∨ dflt.isSome then [val flags] else []
  else
    let needComment := decide (verbosity = .verbose)
    let p := xlats.foldl (printTable needComment)
      { flags, events := if needComment && flags ≠ 0 then [val flags] else [] }
    p.events ++ printRest verbosity dflt p

def printflagsEx (xlatVerbosity : Verbosity) (flags : UInt64) (dflt : Option CString)
    (style : Style) (xlats : List (List XlatData)) : List Event :=
  printflagsStyle flags dflt (getXlatStyle xlatVerbosity style).verbosity xlats

/-! ## What the names and numbers stand for -/

def nameValues (events : List Event) : List UInt64 :=
  events.filterMap fun | name v _ => some v | _ => none

def numbers (events : List Event) : List UInt64 :=
  events.filterMap fun | val v => some v | _ => none

def parts (verbosity : Verbosity) (events : List Event) : List UInt64 :=
  nameValues events ++
    if verbosity = .verbose ∧ nameValues events ≠ [] then (numbers events).tail else numbers events

def comments (events : List Event) : List Event :=
  events.filter fun e => e = commentBegin || e = commentEnd

@[simp] theorem nameValues_nil : nameValues [] = [] := rfl
@[simp] theorem numbers_nil : numbers [] = [] := rfl
@[simp] theorem comments_nil : comments [] = [] := rfl

@[simp] theorem nameValues_cons (e : Event) (events : List Event) :
    nameValues (e :: events) = (match e with | name v _ => [v] | _ => []) ++ nameValues events := by
  cases e <;> rfl

@[simp] theorem numbers_cons (e : Event) (events : List Event) :
    numbers (e :: events) = (match e with | val v => [v] | _ => []) ++ numbers events := by
  cases e <;> rfl

@[simp] theorem comments_cons (e : Event) (events : List Event) :
    comments (e :: events) =
      (match e with
        | commentBegin => [commentBegin]
        | commentEnd => [commentEnd]
        | _ => []) ++ comments events := by
  cases e <;> simp [comments]

@[simp] theorem nameValues_append (events more : List Event) :
    nameValues (events ++ more) = nameValues events ++ nameValues more :=
  filterMap_append ..

@[simp] theorem numbers_append (events more : List Event) :
    numbers (events ++ more) = numbers events ++ numbers more :=
  filterMap_append ..

@[simp] theorem comments_append (events more : List Event) :
    comments (events ++ more) = comments events ++ comments more :=
  filter_append ..

/-- The parts make up a value. -/
structure Splits (flags : UInt64) (vs : List UInt64) : Prop where
  disjoint : vs.Pairwise (fun v w => v &&& w = 0)
  whole : vs.foldr (· ||| ·) 0 = flags

/-! ## Bits -/

variable {v w flags whole : UInt64} {verbose : Bool} {p : Printing} {verbosity : Verbosity}

theorem ext_bits (same : ∀ i < 64, v.toBitVec.getLsbD i = w.toBitVec.getLsbD i) : v = w :=
  UInt64.eq_of_toBitVec_eq (BitVec.eq_of_getLsbD_eq fun i small => same i small)

theorem clear_and (flags v : UInt64) : v &&& (flags &&& ~~~v) = 0 := by
  apply ext_bits
  intro i small
  cases set : v.toBitVec.getLsbD i <;> simp [set]

theorem or_clear (inside : flags &&& v = v) : v ||| (flags &&& ~~~v) = flags := by
  apply ext_bits
  intro i small
  have bit := congrArg (fun w => w.toBitVec.getLsbD i) inside
  simp only [UInt64.toBitVec_and] at bit
  cases set : v.toBitVec.getLsbD i <;> simp_all

theorem and_clear (apart : w &&& flags = 0) (inside : flags &&& v = v) :
    w &&& v = 0 ∧ w &&& (flags &&& ~~~v) = 0 := by
  constructor
  · rw [← inside, ← UInt64.and_assoc, apart, UInt64.zero_and]
  · rw [← UInt64.and_assoc, apart, UInt64.zero_and]

theorem foldr_or (vs : List UInt64) (w : UInt64) :
    vs.foldr (· ||| ·) w = vs.foldr (· ||| ·) 0 ||| w := by
  induction vs with
  | nil => simp
  | cons v vs ih => simp only [List.foldr_cons, ih, UInt64.or_assoc]

/-! ## The loops -/

structure Named (verbose : Bool) (whole : UInt64) (p : Printing) : Prop where
  count : p.n = (nameValues p.events).length
  disjoint : (nameValues p.events).Pairwise (fun v w => v &&& w = 0)
  apart : ∀ v ∈ nameValues p.events, v &&& p.flags = 0
  covers : (nameValues p.events).foldr (· ||| ·) p.flags = whole
  shown : numbers p.events = if verbose ∧ (whole ≠ 0 ∨ p.n ≠ 0) then [whole] else []
  opened : comments p.events = if verbose ∧ p.n ≠ 0 then [commentBegin] else []

section
variable {verbose : Bool} {whole : UInt64} {p : Printing}

theorem Named.flags_eq (named : Named verbose whole p) (none : p.n = 0) : p.flags = whole := by
  have empty := eq_nil_of_length_eq_zero (named.count ▸ none)
  simpa [empty] using named.covers

theorem Named.whole_ne_zero (named : Named verbose whole p) (left : p.flags ≠ 0) : whole ≠ 0 := by
  intro zero
  have covers := named.covers
  rw [foldr_or, zero, or_eq_zero_iff] at covers
  exact left covers.2

theorem named_start (verbose : Bool) (flags : UInt64) :
    Named verbose flags { flags, events := if verbose && flags ≠ 0 then [val flags] else [] } := by
  cases verbose <;> by_cases zero : flags = 0 <;>
    exact ⟨by simp [zero], by simp [zero], by simp [zero],
      by simp [zero], by simp [zero], by simp [zero]⟩

variable (named : Named verbose whole p)
include named

theorem Named.printName (looks : p.flags ≠ 0 ∨ p.n = 0)
    {v : UInt64} (inside : p.flags &&& v = v) (str : CString) :
    Named verbose whole (printName verbose p v str) := by
  -- What is printed around the name has no other name.
  have names : nameValues (Xlat.printName verbose p v str).events =
      nameValues p.events ++ [v] := by
    simp only [Xlat.printName]
    cases verbose <;> split <;> split <;> simp
  constructor
  · rw [names, Xlat.printName, named.count, length_append, length_singleton]
  · rw [names, pairwise_append]
    refine ⟨named.disjoint, pairwise_singleton .., ?_⟩
    intro w mem u same
    rw [mem_singleton.mp same]
    exact (and_clear (named.apart w mem) inside).1
  · intro w mem
    rw [names, mem_append, mem_singleton] at mem
    rcases mem with mem | rfl
    · exact (and_clear (named.apart w mem) inside).2
    · exact clear_and p.flags w
  · rw [names]
    simpa [Xlat.printName, or_clear inside] using named.covers
  · -- With no flags left to look for nothing was printed before.
    simp only [Xlat.printName, numbers_append, named.shown]
    by_cases zero : p.flags = 0
    · have first := looks.resolve_left (not_not_intro zero)
      have whole_zero : whole = 0 := by rw [← named.flags_eq first, zero]
      cases verbose <;> simp [zero, first, whole_zero]
    · have whole_ne := named.whole_ne_zero zero
      cases verbose <;> by_cases first : p.n = 0 <;> simp [zero, first, whole_ne]
  · simp only [Xlat.printName, comments_append, named.opened]
    cases verbose <;> by_cases first : p.n = 0 <;> by_cases zero : p.flags = 0 <;>
      simp [first, zero]

theorem Named.printEntry (looks : p.flags ≠ 0 ∨ p.n = 0)
    (data : XlatData) : Named verbose whole (printEntry verbose p data) := by
  unfold Xlat.printEntry
  cases data.str with
  | none => exact named
  | some str =>
    dsimp only
    split
    · next matched =>
      have inside : p.flags &&& data.val = data.val := by
        rcases matched with same | inside
        · simp [same]
        · exact inside.2
      exact named.printName looks inside str
    · exact named

theorem Named.printTable (table : List XlatData) :
    Named verbose whole (printTable verbose p table) := by
  induction table generalizing p with
  | nil => exact named
  | cons data rest ih =>
    rw [Xlat.printTable]
    split
    · next looks =>
      have next := named.printEntry looks data
      dsimp only
      split
      · exact next
      · exact ih next
    · exact named

theorem Named.printTables (tables : List (List XlatData)) :
    Named verbose whole (tables.foldl (Xlat.printTable verbose) p) := by
  induction tables generalizing p with
  | nil => exact named
  | cons table rest ih => exact ih (named.printTable table)

end

/-! ## The whole value -/

theorem nameValues_tprintsComment (dflt : Option CString) :
    nameValues (tprintsComment dflt) = [] ∧ numbers (tprintsComment dflt) = [] := by
  cases dflt with
  | none => simp [tprintsComment]
  | some str => by_cases empty : str.1 = [] <;> simp [tprintsComment, empty]

theorem comments_tprintsComment (dflt : Option CString) :
    comments (tprintsComment dflt) = [] ∨
      comments (tprintsComment dflt) = [commentBegin, commentEnd] := by
  cases dflt with
  | none => simp [tprintsComment]
  | some str => by_cases empty : str.1 = [] <;> simp [tprintsComment, empty]

theorem Named.nameValues_eq_nil (named : Named verbose whole p) :
    nameValues p.events = [] ↔ p.n = 0 := by
  rw [named.count, length_eq_zero_iff]

theorem splits_singleton (v : UInt64) : Splits v [v] :=
  ⟨pairwise_singleton .., by simp⟩

theorem Named.splits_names (named : Named verbose whole p) :
    Splits whole (nameValues p.events ++ if p.flags ≠ 0 then [p.flags] else []) := by
  by_cases zero : p.flags = 0
  · simp only [zero, ne_eq, not_true_eq_false, if_false, append_nil]
    exact ⟨named.disjoint, by rw [← named.covers, zero]⟩
  · simp only [zero, ne_eq]
    constructor
    · rw [pairwise_append]
      refine ⟨named.disjoint, pairwise_singleton .., ?_⟩
      intro v mem w same
      rw [mem_singleton.mp same]
      exact named.apart v mem
    · simpa using named.covers

theorem Named.splits (named : Named (decide (verbosity = .verbose)) whole p)
    (dflt : Option CString) :
    Splits whole (parts verbosity (p.events ++ printRest verbosity dflt p)) := by
  obtain ⟨unnamed, unnumbered⟩ := nameValues_tprintsComment dflt
  by_cases first : p.n = 0
  · have same := named.flags_eq first
    have empty := named.nameValues_eq_nil.mpr first
    by_cases zero : p.flags = 0
    · have whole_zero := same ▸ zero
      cases dflt <;>
        simp [parts, printRest, named.shown, first, zero, empty,
          whole_zero, splits_singleton]
      exact ⟨List.Pairwise.nil, rfl⟩
    · have whole_ne := same ▸ zero
      have names : nameValues (p.events ++ printRest verbosity dflt p) = [] := by
        by_cases verbose : verbosity = .verbose <;>
          simp [printRest, first, zero, empty, verbose, unnamed]
      have shown : numbers (p.events ++ printRest verbosity dflt p) = [whole] := by
        by_cases verbose : verbosity = .verbose <;>
          simp [printRest, named.shown, first, whole_ne, same, verbose, unnumbered]
      simpa [parts, names, shown] using splits_singleton whole
  · have nonempty : nameValues p.events ≠ [] := fun empty =>
      first (named.nameValues_eq_nil.mp empty)
    have names : nameValues (printRest verbosity dflt p) = [] := by
      by_cases verbose : verbosity = .verbose <;> by_cases zero : p.flags = 0 <;>
        simp [printRest, first, zero, verbose]
    have rest : numbers (printRest verbosity dflt p) = if p.flags ≠ 0 then [p.flags] else [] := by
      by_cases verbose : verbosity = .verbose <;> by_cases zero : p.flags = 0 <;>
        simp [printRest, first, zero, verbose]
    have shape : parts verbosity (p.events ++ printRest verbosity dflt p) =
        nameValues p.events ++ if p.flags ≠ 0 then [p.flags] else [] := by
      simp only [parts, nameValues_append, numbers_append, names, rest, named.shown]
      by_cases verbose : verbosity = .verbose <;> simp [verbose, first, nonempty]
    rw [shape]
    exact named.splits_names

theorem Named.balanced (named : Named (decide (verbosity = .verbose)) whole p)
    (dflt : Option CString) :
    comments (p.events ++ printRest verbosity dflt p) = [] ∨
      comments (p.events ++ printRest verbosity dflt p) = [commentBegin, commentEnd] := by
  rw [comments_append, named.opened]
  unfold printRest
  by_cases some : p.n = 0
  · by_cases zero : p.flags = 0
    · cases dflt <;> simp [some, zero]
    · by_cases verbose : verbosity = .verbose
      · simpa [some, zero, verbose] using comments_tprintsComment dflt
      · simpa [some, zero, verbose] using comments_tprintsComment dflt
  · by_cases verbose : verbosity = .verbose <;> by_cases zero : p.flags = 0 <;>
      simp [some, verbose, zero]

/-- `printflags_ex` loses nothing: in every style but the raw one the names that it prints and the
number of the rest share no bit and make up the value, and its comment is closed. -/
theorem printflags_ex_splits (xlatVerbosity : Verbosity) (flags : UInt64)
    (dflt : Option CString) (style : Style) (xlats : List (List XlatData))
    (named : (getXlatStyle xlatVerbosity style).verbosity ≠ .raw) :
    let events := printflagsEx xlatVerbosity flags dflt style xlats
    Splits flags (parts (getXlatStyle xlatVerbosity style).verbosity events) ∧
      (comments events = [] ∨ comments events = [commentBegin, commentEnd]) := by
  have run := (named_start (decide ((getXlatStyle xlatVerbosity style).verbosity = .verbose))
    flags).printTables xlats
  simp only [printflagsEx, printflagsStyle, if_neg named]
  exact ⟨run.splits dflt, run.balanced dflt⟩

/-- A nameless entry, overlapping names and a rest, with the whole value in front. -/
theorem printflags_ex_splits_overlapping :
    let style : Style := { verbosity := .verbose, format := .x }
    let table : List XlatData :=
      [⟨1, none⟩, ⟨3, some ⟨"RDWR".toList, by decide⟩⟩, ⟨2, some ⟨"WRONLY".toList, by decide⟩⟩,
        ⟨4, some ⟨"EXEC".toList, by decide⟩⟩]
    printflagsEx .abbreviated 0xf none style [table] =
        [val 0xf, commentBegin, name 3 ⟨"RDWR".toList, by decide⟩, flagsOr,
          name 4 ⟨"EXEC".toList, by decide⟩, flagsOr, val 8,
          commentEnd] ∧
      Splits 0xf [3, 4, 8] := by
  refine ⟨by decide, ?_⟩
  exact (printflags_ex_splits .abbreviated 0xf none { verbosity := .verbose, format := .x }
    [[⟨1, none⟩, ⟨3, some ⟨"RDWR".toList, by decide⟩⟩, ⟨2, some ⟨"WRONLY".toList, by decide⟩⟩,
      ⟨4, some ⟨"EXEC".toList, by decide⟩⟩]]
    (by decide)).1

end Strace.Xlat
