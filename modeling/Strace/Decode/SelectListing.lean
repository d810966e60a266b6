import Mathlib.Data.List.TakeWhile
import Strace.Decode.Select

/-! The text of `decode_select` against the list of the descriptors that are ready:
it is that list, unless a bracket is closed that no set has opened. -/
namespace Strace.Select
open List

/-! ## What the text stands for -/

def Group.text (g : Group) : List Char :=
  g.name ++ [' ', '['] ++ [' '].intercalate (g.fds.map digits) ++ [']']

def listing (gs : List Group) : List Char :=
  [',', ' '].intercalate ((gs.filter fun g => g.fds ≠ []).map Group.text)

def total (gs : List Group) : Nat := (gs.map fun g => g.fds.length).sum

def cut : Nat → List Group → List Group
  | _, [] => []
  | k, g :: rest => { g with fds := g.fds.take k } :: cut (k - g.fds.length) rest

/-- The separator after some text. -/
def sepAfter (text : List Char) : List Char := if text = [] then [] else [',', ' ']

namespace Exit

variable (s : Exit)

def groupsOf (sets : List (List Char × Option FdSet)) : List Group :=
  sets.map fun set => s.group set.1 set.2

def groups : List Group := s.groupsOf s.sets

def countOf (sets : List (List Char × Option FdSet)) : Nat :=
  (sets.map fun set => (set.2.map fun set => (bitsFrom (s.walked set) 0 s.given).length).getD 0).sum

def count : Nat := s.countOf s.sets

structure Returned : Prop where
  success : s.syserror = false
  positive : 0 < s.count
  int : s.count < 2 ^ 31
  value : s.rval = BitVec.ofNat 64 s.count

def withLeft (text : List Char) : List Char :=
  match s.timeout with
  | none => text
  | some str =>
    if text.length + 6 + (sepAfter text).length + str.length < outstrSize then
      text ++ (sepAfter text ++ ['l', 'e', 'f', 't', ' '] ++ str)
    else text

def Lists (text : List Char) : Prop :=
  ∃ k, text = s.withLeft (listing (cut k s.groups)) ∧
    (k < total s.groups → roomEnd ≤ (listing (cut k s.groups)).length)

def Closes (before : List Group) (g : Group) : Prop :=
  g.readable = true →
    (∀ b ∈ before, b.fds = []) ∨
      (g.fds ≠ [] ∧ (listing before).length < roomEnd) ∨ s.count ≤ total before

end Exit

/-! ## What the loop writes -/

def body (fds : List Nat) : List Char := fds.flatMap fun j => ' ' :: digits j

/-- A group up to its closing bracket. -/
def opened (sep name : List Char) : List Nat → List Char
  | [] => []
  | j :: rest => sep ++ name ++ [' ', '['] ++ digits j ++ body rest

variable {text' : List Char} {k : Nat} {c : Char} {gs : List Group}

theorem xappendstr_some {text s : List Char} (fits : xappendstr text s = some text') :
    text' = text ++ s := by
  rw [xappendstr] at fits
  split at fits
  · exact (Option.some.inj fits).symm
  · cases fits

section
variable {name : List Char} {o o' : Out} {j : Nat} {first' : Bool} {fds : List Nat}

theorem showFd_first (room : o.text.length < roomEnd)
    (shown : showFd name j true o = some (first', o')) :
    first' = false ∧
      o' = ⟨o.text ++ (o.sep ++ name ++ [' ', '['] ++ digits j), [',', ' '], o.readyFds⟩ := by
  rw [showFd, if_pos room] at shown
  obtain ⟨text, fits, eq⟩ := Option.map_eq_some_iff.mp shown
  cases eq
  rw [xappendstr_some fits]
  exact ⟨rfl, rfl⟩

theorem showFd_more (room : o.text.length < roomEnd)
    (shown : showFd name j false o = some (first', o')) :
    first' = false ∧ o' = ⟨o.text ++ ' ' :: digits j, o.sep, o.readyFds⟩ := by
  rw [showFd, if_pos room] at shown
  obtain ⟨text, fits, eq⟩ := Option.map_eq_some_iff.mp shown
  cases eq
  rw [xappendstr_some fits]
  exact ⟨rfl, rfl⟩

theorem showList_full (full : roomEnd ≤ o.text.length) (positive : 0 < o.readyFds)
    (enough : fds.length ≤ o.readyFds) (first : Bool) :
    showList name fds first o = some { o with readyFds := o.readyFds - fds.length } := by
  induction fds generalizing o with
  | nil => rw [showList, length_nil, Int.natCast_zero, Int.sub_zero]
  | cons j rest ih =>
    rw [length_cons] at enough
    rw [showList, showFd_full full]
    dsimp only
    split
    · have empty : rest.length = 0 := by omega
      rw [length_cons, empty]
      rfl
    · have counted := ih (o := { o with readyFds := o.readyFds - 1 }) full
        (show 0 < o.readyFds - 1 by omega) (show (rest.length : Int) ≤ o.readyFds - 1 by omega)
      rw [counted, length_cons]
      simp only [Option.some.injEq, Out.mk.injEq, true_and]
      omega

theorem showList_more (positive : 0 < o.readyFds) (enough : fds.length ≤ o.readyFds)
    (shown : showList name fds false o = some o') :
    ∃ k, o' = ⟨o.text ++ body (fds.take k), o.sep, o.readyFds - fds.length⟩ ∧
      (k < fds.length → roomEnd ≤ o'.text.length) := by
  induction fds generalizing o with
  | nil =>
    cases shown
    simp [body]
  | cons j rest ih =>
    by_cases room : o.text.length < roomEnd
    · rw [length_cons] at enough
      rw [showList] at shown
      split at shown
      · cases shown
      · next first' next shows =>
        obtain ⟨rfl, rfl⟩ := showFd_more room shows
        dsimp only at shown
        split at shown
        · cases shown
          obtain rfl : rest = [] := eq_nil_of_length_eq_zero (by omega)
          exact ⟨1, by simp [body], fun less => absurd less (Nat.lt_irrefl 1)⟩
        · obtain ⟨k, rfl, left⟩ := ih (show 0 < o.readyFds - 1 by omega)
            (show (rest.length : Int) ≤ o.readyFds - 1 by omega) shown
          refine ⟨k + 1, ?_, fun less => left (Nat.lt_of_succ_lt_succ less)⟩
          simp only [take_succ_cons, body, flatMap_cons, append_assoc, length_cons,
            Out.mk.injEq, true_and]
          omega
    · have full := Nat.le_of_not_lt room
      rw [showList_full full positive enough] at shown
      cases shown
      refine ⟨0, ?_, fun _ => full⟩
      rw [take_zero, body, flatMap_nil, append_nil]

theorem showList_first (positive : 0 < o.readyFds) (enough : fds.length ≤ o.readyFds)
    (shown : showList name fds true o = some o') :
    ∃ k, o' = ⟨o.text ++ opened o.sep name (fds.take k),
        if fds.take k = [] then o.sep else [',', ' '], o.readyFds - fds.length⟩ ∧
      (k < fds.length → roomEnd ≤ o'.text.length) ∧
        (fds.take k ≠ [] → o.text.length < roomEnd) := by
  cases fds with
  | nil =>
    cases shown
    simp [opened]
  | cons j rest =>
    by_cases room : o.text.length < roomEnd
    · rw [length_cons] at enough
      rw [showList] at shown
      split at shown
      · cases shown
      · next first' next shows =>
        obtain ⟨rfl, rfl⟩ := showFd_first room shows
        dsimp only at shown
        split at shown
        · cases shown
          obtain rfl : rest = [] := eq_nil_of_length_eq_zero (by omega)
          refine ⟨1, ?_, fun less => absurd less (Nat.lt_irrefl 1), fun _ => room⟩
          simp [opened, body]
        · obtain ⟨k, rfl, left⟩ := showList_more (show 0 < o.readyFds - 1 by omega)
            (show (rest.length : Int) ≤ o.readyFds - 1 by omega) shown
          refine ⟨k + 1, ?_, fun less => left (Nat.lt_of_succ_lt_succ less), fun _ => room⟩
          rw [take_succ_cons, opened, if_neg (cons_ne_nil _ _), length_cons]
          simp only [append_assoc, Out.mk.injEq, true_and]
          omega
    · have full := Nat.le_of_not_lt room
      rw [showList_full full positive enough] at shown
      cases shown
      refine ⟨0, ?_, fun _ => full, fun some => absurd rfl some⟩
      rw [take_zero, opened, append_nil, if_pos rfl]

end

/-! ## Lists of groups -/

theorem intercalate_concat {sep : List Char} {parts : List (List Char)} (some : parts ≠ [])
    (part : List Char) :
      sep.intercalate (parts ++ [part]) = sep.intercalate parts ++ sep ++ part := by
  induction parts with
  | nil => exact absurd rfl some
  | cons first rest ih =>
    cases rest with
    | nil => simp
    | cons second rest =>
      rw [cons_append, cons_append, intercalate_cons_cons, ← cons_append,
        ih (cons_ne_nil _ _), intercalate_cons_cons]
      simp only [append_assoc]

theorem intercalate_digits (j : Nat) (rest : List Nat) :
    [' '].intercalate ((j :: rest).map digits) = digits j ++ body rest := by
  induction rest generalizing j with
  | nil => simp [body]
  | cons i rest ih =>
    rw [map_cons, map_cons, intercalate_cons_cons, ← map_cons, ih]
    simp only [body, flatMap_cons, append_assoc, cons_append, nil_append]

theorem opened_eq (g : Group) {fds : List Nat} (some : fds ≠ []) (sep : List Char) :
    opened sep g.name fds ++ [']'] = sep ++ { g with fds := fds }.text := by
  cases fds with
  | nil => exact absurd rfl some
  | cons j rest =>
    rw [opened, Group.text, intercalate_digits]
    simp only [append_assoc]

theorem Group.text_ne_nil (g : Group) : g.text ≠ [] := by
  exact append_ne_nil_of_right_ne_nil _ (cons_ne_nil _ _)

theorem Group.length_text_take (g : Group) (some : g.fds.take k ≠ []) :
    { g with fds := g.fds.take k }.text.length ≤ g.text.length := by
  obtain ⟨name, readable, fds⟩ := g
  cases fds with
  | nil => exact absurd take_nil some
  | cons j rest =>
    cases k with
    | zero => exact absurd rfl some
    | succ k =>
      have sublist : (body (rest.take k)).length ≤ (body rest).length := by
        have parts := take_append_drop k rest
        rw [← parts, body, body, flatMap_append, length_append, parts]
        omega
      simp only [take_succ_cons, Group.text, intercalate_digits, length_append]
      omega

section
variable {gs : List Group} {g : Group}

theorem total_append (gs gs' : List Group) : total (gs ++ gs') = total gs + total gs' := by
  simp [total]

theorem total_cons : total (g :: gs) = g.fds.length + total gs := by
  rfl

theorem total_concat : total (gs ++ [g]) = total gs + g.fds.length := by
  rw [total_append]
  rfl

theorem total_eq_zero : total gs = 0 ↔ ∀ g ∈ gs, g.fds = [] := by
  induction gs with
  | nil => exact ⟨fun _ g mem => absurd mem not_mem_nil, fun _ => rfl⟩
  | cons g gs ih =>
    rw [total_cons, Nat.add_eq_zero_iff, ih, length_eq_zero_iff, forall_mem_cons]

theorem cut_concat (k : Nat) :
    cut k (gs ++ [g]) = cut k gs ++ [{ g with fds := g.fds.take (k - total gs) }] := by
  induction gs generalizing k with
  | nil => rfl
  | cons first rest ih =>
    have left : k - first.fds.length - total rest = k - total (first :: rest) := by
      rw [total_cons]
      omega
    rw [cons_append, cut, ih, left]
    rfl

theorem cut_all {k : Nat} (all : total gs ≤ k) : cut k gs = gs := by
  induction gs generalizing k with
  | nil => rfl
  | cons first rest ih =>
    rw [total_cons] at all
    rw [cut, ih (Nat.le_sub_of_add_le' all), take_of_length_le (by omega)]

theorem listing_none (none : g.fds = []) : listing (gs ++ [g]) = listing gs := by
  simp [none, listing]

theorem texts_eq_nil :
    (gs.filter fun g => g.fds ≠ []).map Group.text = [] ↔ ∀ g ∈ gs, g.fds = [] := by
  simp

theorem listing_eq_nil : listing gs = [] ↔ ∀ g ∈ gs, g.fds = [] := by
  rw [← texts_eq_nil, listing]
  constructor
  · intro empty
    cases texts : (gs.filter fun g => g.fds ≠ []).map Group.text with
    | nil => rfl
    | cons part rest =>
      have mem : part ∈ (gs.filter fun g => g.fds ≠ []).map Group.text := by
        rw [texts]
        exact mem_cons_self
      obtain ⟨g, _, rfl⟩ := mem_map.mp mem
      rw [texts] at empty
      cases rest with
      | nil =>
        grind [intercalate_singleton, g.text_ne_nil]
      | cons next rest =>
        exact absurd (append_eq_nil_iff.mp empty).1 g.text_ne_nil
  · intro none
    rw [none]
    rfl

theorem listing_some (some : g.fds ≠ []) :
    listing (gs ++ [g]) = listing gs ++ (sepAfter (listing gs) ++ g.text) := by
  have last : [g].filter (fun g => g.fds ≠ []) = [g] := by simp [some]
  rw [listing, filter_append, last, map_append, map_singleton]
  by_cases none : ∀ g ∈ gs, g.fds = []
  · rw [texts_eq_nil.mpr none, listing_eq_nil.mpr none, nil_append, intercalate_singleton]
    rfl
  · rw [intercalate_concat (mt texts_eq_nil.mp none), sepAfter,
      if_neg (mt listing_eq_nil.mp none), append_assoc, listing]

end

/-! ## Characters of the list -/

structure Plain (name : List Char) : Prop where
  opening : '[' ∉ name
  closing : ']' ∉ name
  letter : 'l' ∉ name

section
variable (other : c.isDigit = false)
include other

theorem not_mem_digits (j : Nat) : c ∉ digits j := by
  intro mem
  rw [Nat.isDigit_of_mem_toDigits (by decide) (by decide) mem] at other
  cases other

theorem not_mem_body (space : c ≠ ' ') (fds : List Nat) :
    c ∉ body fds := by
  intro mem
  obtain ⟨j, _, mem⟩ := mem_flatMap.mp mem
  rcases mem_cons.mp mem with eq | mem
  · exact space eq
  · exact not_mem_digits other j mem

theorem count_digits (j : Nat) : (digits j).count c = 0 :=
  count_eq_zero.mpr (not_mem_digits other j)

theorem count_body (space : c ≠ ' ') (fds : List Nat) :
    (body fds).count c = 0 :=
  count_eq_zero.mpr (not_mem_body other space fds)

end

theorem count_sepAfter (comma : c ≠ ',') (space : c ≠ ' ') (text : List Char) :
    (sepAfter text).count c = 0 := by
  rw [sepAfter]
  split
  · rfl
  · simp [comma.symm, space.symm]

section
variable {name : List Char} (plain : Plain name)
include plain

theorem Plain.count_opening {fds : List Nat} (some : fds ≠ []) (text : List Char) :
    (opened (sepAfter text) name fds).count '[' = 1 := by
  cases fds with
  | nil => exact absurd rfl some
  | cons j rest =>
    simp only [opened, count_append, count_sepAfter (c := '[') (by decide) (by decide),
      count_eq_zero.mpr plain.opening, count_digits (c := '[') (by decide),
      count_body (c := '[') (by decide) (by decide)]
    rfl

theorem Plain.count_closing (text : List Char) (fds : List Nat) :
    (opened (sepAfter text) name fds).count ']' = 0 := by
  cases fds with
  | nil => rfl
  | cons j rest =>
    simp only [opened, count_append, count_sepAfter (c := ']') (by decide) (by decide),
      count_eq_zero.mpr plain.closing, count_digits (c := ']') (by decide),
      count_body (c := ']') (by decide) (by decide)]
    rfl

theorem Plain.count_letter (text : List Char) (fds : List Nat) :
    (opened (sepAfter text) name fds).count 'l' = 0 := by
  cases fds with
  | nil => rfl
  | cons j rest =>
    simp only [opened, count_append, count_sepAfter (c := 'l') (by decide) (by decide),
      count_eq_zero.mpr plain.letter, count_digits (c := 'l') (by decide),
      count_body (c := 'l') (by decide) (by decide)]
    rfl

end

theorem count_listing (plain : ∀ g ∈ gs, Plain g.name) :
    (listing gs).count '[' = (listing gs).count ']' ∧ (listing gs).count 'l' = 0 := by
  induction gs using List.reverseRecOn with
  | nil => exact ⟨rfl, rfl⟩
  | append_singleton gs g ih =>
    have rest := ih fun g mem => plain g (mem_append_left _ mem)
    have last := plain g (mem_append_right _ mem_cons_self)
    by_cases none : g.fds = []
    · simp [listing_none none, rest]
    · rw [listing_some none, ← opened_eq g none]
      simp only [count_append, last.count_opening none, last.count_closing, last.count_letter,
        rest.1, rest.2]
      exact ⟨rfl, rfl⟩

theorem plain_cut (plain : ∀ g ∈ gs, Plain g.name) : ∀ g ∈ cut k gs, Plain g.name := by
  induction gs generalizing k with
  | nil => exact fun g mem => absurd mem not_mem_nil
  | cons first rest ih =>
    rw [forall_mem_cons] at plain
    rw [cut, forall_mem_cons]
    exact ⟨plain.1, ih plain.2⟩

theorem sepAfter_inj {text : List Char} (same : text ++ sepAfter text = text' ++ sepAfter text') :
    text = text' := by
  simp only [sepAfter] at same
  split at same <;> split at same
  · next empty empty' => rw [empty, empty']
  · next empty more =>
    rw [empty] at same
    simp at same
  · next more empty' =>
    rw [empty'] at same
    simp at same
  · exact append_cancel_right same

theorem takeWhile_left {text str : List Char} (none : text.count 'l' = 0) :
    (text ++ (sepAfter text ++ ['l', 'e', 'f', 't', ' '] ++ str)).takeWhile (· ≠ 'l') =
      text ++ sepAfter text := by
  have other : ∀ c ∈ text ++ sepAfter text, decide (c ≠ 'l') = true := by
    intro c mem
    rw [decide_eq_true_eq]
    rintro rfl
    rcases mem_append.mp mem with mem | mem
    · exact count_eq_zero.mp none mem
    · exact count_eq_zero.mp (count_sepAfter (by decide) (by decide) text) mem
  rw [← append_assoc, ← append_assoc, append_assoc,
    takeWhile_append_of_pos other]
  exact append_nil _

theorem withLeft_inj {s : Exit} {text : List Char} (none : text.count 'l' = 0)
    (none' : text'.count 'l' = 0) (same : s.withLeft text = s.withLeft text') : text = text' := by
  have cases (text : List Char) : s.withLeft text = text ∨
      ∃ str, s.withLeft text = text ++ (sepAfter text ++ ['l', 'e', 'f', 't', ' '] ++ str) := by
    rw [Exit.withLeft]
    split
    · exact .inl rfl
    · grind
  rcases cases text with left | ⟨str, left⟩ <;> rcases cases text' with left' | ⟨str', left'⟩
  · simpa [left, left'] using same
  · rw [left, left'] at same
    have letters := congrArg (List.count 'l') same
    simp [none] at letters
  · rw [left, left'] at same
    have letters := congrArg (List.count 'l') same
    simp [none'] at letters
  · rw [left, left'] at same
    apply sepAfter_inj
    have upTo := congrArg (List.takeWhile (· ≠ 'l')) same
    rw [takeWhile_left none, takeWhile_left none'] at upTo
    exact upTo

/-! ## One set after another -/

structure Written (s : Exit) (before : List Group) (o : Out) : Prop where
  cut : ∃ k, o.text = listing (cut k before) ∧ (k < total before → roomEnd ≤ o.text.length)
  whole : o.text = listing before ∨ roomEnd ≤ o.text.length ∧ roomEnd ≤ (listing before).length
  sep : o.sep = sepAfter o.text
  readyFds : o.readyFds = s.count - total before

structure Excess (s : Exit) (before : List Group) (o : Out) : Prop where
  brackets : o.text.count '[' < o.text.count ']'
  letter : o.text.count 'l' = 0
  sep : o.sep = sepAfter o.text
  readyFds : o.readyFds = s.count - total before

section
variable {s : Exit} {before : List Group} {o o' : Out} {g : Group} {k : Nat} {gs : List Group}

theorem Written.skip (written : Written s before o) (none : g.fds = []) :
    Written s (before ++ [g]) o := by
  obtain ⟨k, text, left⟩ := written.cut
  have same : total (before ++ [g]) = total before := by
    simp [total_concat, none]
  refine ⟨⟨k, ?_, ?_⟩, ?_, written.sep, ?_⟩
  · rw [cut_concat, listing_none (by rw [none, take_nil]), text]
  · rw [same]
    exact left
  · simp [listing_none none, written.whole]
  · simp [same, written.readyFds]

theorem Excess.skip (excess : Excess s before o) (none : g.fds = []) :
    Excess s (before ++ [g]) o := by
  refine ⟨excess.brackets, excess.letter, excess.sep, ?_⟩
  rw [total_concat, none, excess.readyFds]
  rfl

def shown (g : Group) (k : Nat) (o : Out) : Out where
  text := o.text ++ opened o.sep g.name (g.fds.take k)
  sep := if g.fds.take k = [] then o.sep else [',', ' ']
  readyFds := o.readyFds - g.fds.length

def close (o : Out) : Out := if o.text = [] then o else { o with text := o.text ++ [']'] }

theorem eq_close
    (closed : (if o.text = [] then some o
      else (store o.text ']').map fun text => { o with text := text }) = some o') :
    o' = close o := by
  rw [close]
  split at closed
  · next empty => rw [if_pos empty, Option.some.inj closed]
  · next more =>
    obtain ⟨text, stores, rfl⟩ := Option.map_eq_some_iff.mp closed
    rw [store] at stores
    split at stores
    · rw [if_neg more, ← Option.some.inj stores]
    · cases stores

theorem decodeSet_some {name : List Char} {set : Option FdSet} (positive : 0 < o.readyFds)
    (enough : (s.group name set).fds.length ≤ o.readyFds)
    (decoded : decodeSet s name set o = some o') :
    ((s.group name set).readable = false ∧ (s.group name set).fds = [] ∧ o' = o) ∨
      ((s.group name set).readable = true ∧ ∃ k, o' = close (shown (s.group name set) k o) ∧
        (k < (s.group name set).fds.length →
          roomEnd ≤ (shown (s.group name set) k o).text.length) ∧
        ((s.group name set).fds.take k ≠ [] → o.text.length < roomEnd)) := by
  rw [decodeSet_eq, decodeGroup] at decoded
  split at decoded
  · next readable =>
    split at decoded
    · cases decoded
    · next shows =>
      have closed := eq_close decoded
      obtain ⟨k, rfl, left, room⟩ := showList_first positive enough shows
      exact .inr ⟨readable, k, closed, left, room⟩
  · next unread =>
    have unread := Bool.of_not_eq_true unread
    exact .inl ⟨unread, group_unread unread, (Option.some.inj decoded).symm⟩

theorem shown_none (none : g.fds.take k = []) :
    shown g k o = { o with readyFds := o.readyFds - g.fds.length } := by
  rw [shown, none, opened, append_nil, if_pos rfl]

theorem close_shown (some : g.fds.take k ≠ []) (sep : o.sep = sepAfter o.text) :
    (close (shown g k o)).text =
      o.text ++ (sepAfter o.text ++ { g with fds := g.fds.take k }.text) ∧
    (close (shown g k o)).sep = sepAfter (close (shown g k o)).text ∧
    (close (shown g k o)).readyFds = o.readyFds - g.fds.length := by
  have text : (shown g k o).text ++ [']'] =
      o.text ++ (sepAfter o.text ++ { g with fds := g.fds.take k }.text) := by
    rw [← opened_eq g some, ← sep, shown, append_assoc]
  have more : (shown g k o).text ≠ [] := by
    rw [shown]
    cases fds : g.fds.take k with
    | nil => exact absurd fds some
    | cons j rest =>
      rw [opened]
      simp
  rw [close, if_neg more]
  refine ⟨text, ?_, rfl⟩
  rw [sepAfter, if_neg (by simp)]
  exact if_neg some

theorem take_eq_nil_lt {fds : List Nat} (none : fds.take k = []) (some : fds ≠ []) :
    k < fds.length := by
  have length := congrArg List.length none
  rw [length_take, length_nil] at length
  have := length_pos_of_ne_nil some
  omega

section
variable {g : Group} {k : Nat} (left : k < g.fds.length → roomEnd ≤ (shown g k o).text.length)
  (room : g.fds.take k ≠ [] → o.text.length < roomEnd)

include left in
theorem Written.idle (written : Written s before o) (none : g.fds.take k = [])
    (empty : o.text = []) :
    s.Closes before g ∧ Written s (before ++ [g]) (close (shown g k o)) := by
  have fds : g.fds = [] := by
    by_contra some
    have full := left (take_eq_nil_lt none some)
    rw [shown_none none, empty] at full
    exact absurd full (by decide)
  have same : close (shown g k o) = o := by
    rw [shown_none none, close, if_pos empty, fds]
    simp
  rw [same]
  refine ⟨fun _ => .inl (listing_eq_nil.mp ?_), written.skip fds⟩
  rcases written.whole with whole | full
  · rw [← whole, empty]
  · rw [empty] at full
    exact absurd full.1 (by decide)

include left in
theorem Written.idle_after (written : Written s before o) (plain : ∀ b ∈ before, Plain b.name)
    (readable : g.readable = true) (positive : 0 < o.readyFds) (none : g.fds.take k = [])
    (some : o.text ≠ []) :
    ¬ s.Closes before g ∧ Excess s (before ++ [g]) (close (shown g k o)) := by
  constructor
  · intro closes
    rcases closes readable with first | ⟨fds, room⟩ | last
    · rcases written.whole with whole | full
      · grind [listing_eq_nil.mpr]
      · rw [listing_eq_nil.mpr first] at full
        exact absurd full.2 (by decide)
    · have full := left (take_eq_nil_lt none fds)
      rw [shown_none none] at full
      rcases written.whole with whole | full'
      · grind
      · exact absurd full'.2 (Nat.not_le.mpr room)
    · grind [written.readyFds]
  · obtain ⟨n, text, -⟩ := written.cut
    obtain ⟨balanced, letter⟩ := count_listing (plain_cut plain)
    rw [← text] at balanced letter
    rw [shown_none none, close, if_neg some]
    refine ⟨?_, ?_, ?_, ?_⟩
    · simp [balanced]
    · simp [letter]
    · rw [written.sep, sepAfter, if_neg some, sepAfter, if_neg (by simp)]
    · grind [total_concat, written.readyFds]

include left room in
theorem Written.group (written : Written s before o) (some : g.fds.take k ≠ []) :
    s.Closes before g ∧ Written s (before ++ [g]) (close (shown g k o)) := by
  have fds : g.fds ≠ [] := by
    grind
  have early := room some
  have whole : o.text = listing before := by
    rcases written.whole with whole | full
    · exact whole
    · exact absurd full.1 (Nat.not_le.mpr early)
  obtain ⟨text, sep, readyFds⟩ := close_shown some written.sep
  have longer : (shown g k o).text.length ≤ (close (shown g k o)).text.length := by
    grind [close]
  refine ⟨fun _ => .inr (.inl ⟨fds, whole ▸ early⟩), ⟨total before + k, ?_, ?_⟩, ?_, sep, ?_⟩
  · rw [cut_concat, cut_all (Nat.le_add_right _ k), Nat.add_sub_cancel_left,
      listing_some some, text, whole]
  · grind [total_concat]
  · rw [listing_some fds, ← whole]
    by_cases all : g.fds.length ≤ k
    · simp [text, take_of_length_le all]
    · right
      have full := (left (by omega)).trans longer
      have shorter := g.length_text_take some
      refine ⟨full, full.trans ?_⟩
      rw [text]
      simp only [length_append]
      omega
  · rw [readyFds, written.readyFds, total_concat]
    omega

include left room in
theorem Written.close (written : Written s before o) (plain : ∀ b ∈ before, Plain b.name)
    (readable : g.readable = true) (positive : 0 < o.readyFds) :
    (s.Closes before g ∧ Written s (before ++ [g]) (close (shown g k o))) ∨
      (¬ s.Closes before g ∧ Excess s (before ++ [g]) (close (shown g k o))) := by
  by_cases none : g.fds.take k = []
  · by_cases empty : o.text = []
    · exact .inl (written.idle left none empty)
    · exact .inr (written.idle_after left plain readable positive none empty)
  · exact .inl (written.group left room none)

theorem Excess.close (excess : Excess s before o) (plain : Plain g.name) :
    Excess s (before ++ [g]) (Select.close (shown g k o)) := by
  have some : o.text ≠ [] := by
    intro empty
    have brackets := excess.brackets
    rw [empty] at brackets
    exact absurd brackets (Nat.lt_irrefl 0)
  have more : (shown g k o).text ≠ [] := by
    exact append_ne_nil_of_left_ne_nil some _
  rw [Select.close, if_neg more]
  refine ⟨?_, ?_, ?_, ?_⟩
  · have brackets := excess.brackets
    have opening : (opened o.sep g.name (g.fds.take k)).count '[' ≤ 1 := by
      by_cases none : g.fds.take k = []
      · rw [none]
        exact Nat.zero_le 1
      · rw [excess.sep, plain.count_opening none]
    simp only [shown]
    simp
    omega
  · simp [shown, excess.letter, excess.sep, plain.count_letter]
  · rw [sepAfter, if_neg (by simp), shown]
    rw [excess.sep, sepAfter, if_neg some, ite_self]
  · rw [total_concat, shown, excess.readyFds]
    dsimp only
    omega

end

def AllClose (s : Exit) (before gs : List Group) : Prop :=
  ∀ mid g after, gs = mid ++ g :: after → s.Closes (before ++ mid) g

theorem allClose_cons :
    AllClose s before (g :: gs) ↔ s.Closes before g ∧ AllClose s (before ++ [g]) gs := by
  constructor
  · intro all
    refine ⟨?_, fun mid g' after split => ?_⟩
    · have here := all [] g gs rfl
      rw [append_nil] at here
      exact here
    · have later := all (g :: mid) g' after (by rw [split]; rfl)
      rw [append_assoc]
      exact later
  · rintro ⟨here, later⟩ mid g' after split
    cases mid with
    | nil =>
      grind
    | cons first mid =>
      obtain ⟨rfl, rest⟩ := List.cons.inj split
      have closes := later mid g' after rest
      rw [append_assoc] at closes
      exact closes

theorem allClose_counted (counted : s.count ≤ total before) : AllClose s before gs := by
  intro mid g after _ _
  refine .inr (.inr (counted.trans ?_))
  rw [total_append]
  exact Nat.le_add_right _ _

theorem Written.skips (written : Written s before o) (none : ∀ g ∈ gs, g.fds = []) :
    Written s (before ++ gs) o := by
  induction gs generalizing before with
  | nil =>
    simpa using written
  | cons g gs ih =>
    rw [forall_mem_cons] at none
    have later := ih (written.skip none.1) none.2
    rw [append_assoc] at later
    exact later

theorem Excess.skips (excess : Excess s before o) (none : ∀ g ∈ gs, g.fds = []) :
    Excess s (before ++ gs) o := by
  refine ⟨excess.brackets, excess.letter, excess.sep, ?_⟩
  rw [total_append, total_eq_zero.mpr none, excess.readyFds]
  rfl

section
variable {sets : List (List Char × Option FdSet)}

theorem Excess.decodeSets (excess : Excess s before o) (plain : ∀ set ∈ sets, Plain set.1)
    (enough : total (before ++ s.groupsOf sets) ≤ s.count)
    (decoded : decodeSets s sets o = some o') : Excess s (before ++ s.groupsOf sets) o' := by
  induction sets generalizing before o with
  | nil =>
    cases decoded
    exact excess.skips fun g mem => absurd mem not_mem_nil
  | cons set rest ih =>
    rw [forall_mem_cons] at plain
    have counts : total before + ((s.group set.1 set.2).fds.length + total (s.groupsOf rest)) ≤
        s.count := by
      rw [← total_cons, ← total_append]
      exact enough
    rw [Select.decodeSets] at decoded
    split at decoded
    · next positive =>
      split at decoded
      · cases decoded
      · next next decodes =>
        have after : Excess s (before ++ [s.group set.1 set.2]) next := by
          have available := excess.readyFds
          rcases decodeSet_some positive (by omega) decodes with ⟨_, none, rfl⟩ | ⟨_, k, rfl, _⟩
          · exact excess.skip none
          · exact excess.close plain.1
        have later := ih after plain.2 (by rw [append_assoc]; exact enough) decoded
        rw [append_assoc] at later
        exact later
    · cases decoded
      apply excess.skips
      apply total_eq_zero.mp
      have available := excess.readyFds
      rw [total_append] at enough
      omega

theorem Written.decodeSets (written : Written s before o) (plain : ∀ set ∈ sets, Plain set.1)
    (plainBefore : ∀ b ∈ before, Plain b.name)
    (enough : total (before ++ s.groupsOf sets) ≤ s.count)
    (decoded : decodeSets s sets o = some o') :
    (AllClose s before (s.groupsOf sets) ∧ Written s (before ++ s.groupsOf sets) o') ∨
      (¬ AllClose s before (s.groupsOf sets) ∧ Excess s (before ++ s.groupsOf sets) o') := by
  induction sets generalizing before o with
  | nil =>
    cases decoded
    refine .inl ⟨fun mid g after split => ?_, written.skips fun g mem => absurd mem not_mem_nil⟩
    exact absurd split (by simp [Exit.groupsOf])
  | cons set rest ih =>
    rw [forall_mem_cons] at plain
    have available := written.readyFds
    have counts : total before + ((s.group set.1 set.2).fds.length + total (s.groupsOf rest)) ≤
        s.count := by
      rw [← total_cons, ← total_append]
      exact enough
    have split_eq : before ++ s.groupsOf (set :: rest) =
        before ++ [s.group set.1 set.2] ++ s.groupsOf rest := by
      rw [append_assoc]
      rfl
    rw [Select.decodeSets] at decoded
    split at decoded
    · next positive =>
      split at decoded
      · cases decoded
      · next next decodes =>
        have step : (s.Closes before (s.group set.1 set.2) ∧
              Written s (before ++ [s.group set.1 set.2]) next) ∨
            (¬ s.Closes before (s.group set.1 set.2) ∧
              Excess s (before ++ [s.group set.1 set.2]) next) := by
          rcases decodeSet_some positive (by omega) decodes with
            ⟨unread, none, rfl⟩ | ⟨readable, k, rfl, left, room⟩
          · refine .inl ⟨fun readable => ?_, written.skip none⟩
            rw [unread] at readable
            cases readable
          · exact written.close left room plainBefore readable positive
        have plainBefore' : ∀ b ∈ before ++ [s.group set.1 set.2], Plain b.name := by
          rw [forall_mem_append]
          refine ⟨plainBefore, fun b mem => ?_⟩
          rw [mem_singleton] at mem
          rw [mem]
          exact plain.1
        rw [split_eq] at enough ⊢
        have allClose : AllClose s before (s.groupsOf (set :: rest)) ↔ _ := allClose_cons
        rcases step with ⟨closes, after⟩ | ⟨open', after⟩
        · rcases ih after plain.2 plainBefore' enough decoded with ⟨all, later⟩ | ⟨some, later⟩
          · exact .inl ⟨allClose.mpr ⟨closes, all⟩, later⟩
          · exact .inr ⟨fun all => some (allClose.mp all).2, later⟩
        · refine .inr ⟨fun all => open' (allClose.mp all).1, ?_⟩
          exact after.decodeSets plain.2 enough decoded
    · next counted =>
      cases decoded
      refine .inl ⟨allClose_counted (by omega), written.skips (total_eq_zero.mp ?_)⟩
      rw [total_append] at enough
      omega

end

end

/-! ## The whole text -/

section
variable {s : Exit}

theorem length_fds_le (name : List Char) (set : Option FdSet) :
    (s.group name set).fds.length ≤
      (set.map fun set => (bitsFrom (s.walked set) 0 s.given).length).getD 0 := by
  cases set with
  | none => exact Nat.le_refl 0
  | some set =>
    rw [Exit.group]
    split
    · exact length_bitsFrom_le nfds_le_given
    · exact Nat.zero_le _

theorem total_groupsOf_le (sets : List (List Char × Option FdSet)) :
    total (s.groupsOf sets) ≤ s.countOf sets := by
  induction sets with
  | nil => exact Nat.le_refl 0
  | cons set rest ih =>
    exact Nat.add_le_add (length_fds_le set.1 set.2) ih

theorem Exit.Returned.readyFds (returned : s.Returned) :
    (s.rval.setWidth 32).toInt = (s.count : Int) := by
  have int := returned.int
  rw [returned.value, BitVec.toInt_eq_toNat_of_lt]
  · grind
  · simp only [BitVec.toNat_setWidth, BitVec.toNat_ofNat]
    omega

theorem appendLeft_eq {o : Out} (sep : o.sep = sepAfter o.text) {text : List Char}
    (appends : appendLeft s.timeout o = some text) : text = s.withLeft o.text := by
  rw [Exit.withLeft]
  cases timeout : s.timeout with
  | none =>
    rw [timeout] at appends
    exact (Option.some.inj appends).symm
  | some str =>
    rw [timeout, appendLeft] at appends
    split at appends
    · grind [xappendstr_some]
    · grind

theorem plain_sets : ∀ set ∈ s.sets, Plain set.1 := by
  intro set mem
  simp only [Exit.sets, mem_cons, not_mem_nil, or_false] at mem
  rcases mem with rfl | rfl | rfl
  · exact (⟨by decide, by decide, by decide⟩ : Plain ['i', 'n'])
  · exact (⟨by decide, by decide, by decide⟩ : Plain ['o', 'u', 't'])
  · exact (⟨by decide, by decide, by decide⟩ : Plain ['e', 'x', 'c', 'e', 'p', 't'])

theorem plain_groups : ∀ g ∈ s.groups, Plain g.name := by
  intro g mem
  obtain ⟨set, inside, rfl⟩ := mem_map.mp mem
  exact plain_sets set inside

theorem Exit.Returned.decodeSelect (returned : s.Returned) {aux : Option (List Char)}
    (decodes : decodeSelect s = some aux) :
    ∃ o text, decodeSets s s.sets ⟨[], [], s.count⟩ = some o ∧
      appendLeft s.timeout o = some text ∧ aux = some text := by
  have positive := returned.positive
  have success : ¬ s.syserror = true := by
    simp [returned.success]
  rw [Select.decodeSelect, if_neg success, returned.readyFds, if_neg (by omega)] at decodes
  split at decodes
  · cases decodes
  · next o sets =>
    split at decodes
    · cases decodes
    · next text left =>
      obtain ⟨_, _, rfl⟩ := Option.map_eq_some_iff.mp decodes
      exact ⟨o, text, sets, left, rfl⟩

/-- The text of a call that returned is in its buffer, and is the list of the descriptors
that are ready if and only if every set that is read closes a bracket of its own. -/
theorem decode_select_lists_iff (returned : s.Returned) :
    ∃ text, decodeSelect s = some (some text) ∧ text.length < outstrSize ∧
      (s.Lists text ↔ ∀ before g after, s.groups = before ++ g :: after → s.Closes before g) := by
  obtain ⟨aux, decodes, fits⟩ := decodeSelect_fits s
  obtain ⟨o, text, sets, left, rfl⟩ := returned.decodeSelect decodes
  refine ⟨text, decodes, fits text rfl, ?_⟩
  have start : Written s [] ⟨[], [], s.count⟩ :=
    ⟨⟨0, rfl, fun less => absurd less (Nat.lt_irrefl 0)⟩, .inl rfl, rfl, (Int.sub_zero _).symm⟩
  have enough : total ([] ++ s.groupsOf s.sets) ≤ s.count := total_groupsOf_le s.sets
  rcases start.decodeSets plain_sets (fun b mem => absurd mem List.not_mem_nil) enough sets with
    ⟨all, written⟩ | ⟨some, excess⟩
  · refine iff_of_true ?_ all
    obtain ⟨k, listed, cuts⟩ := written.cut
    rw [appendLeft_eq written.sep left, listed]
    rw [listed] at cuts
    exact ⟨k, rfl, cuts⟩
  · refine iff_of_false ?_ some
    rintro ⟨k, listed, -⟩
    obtain ⟨balanced, letter⟩ := count_listing (plain_cut plain_groups)
    rw [appendLeft_eq excess.sep left] at listed
    have same := withLeft_inj excess.letter letter listed
    have brackets := excess.brackets
    rw [same, balanced] at brackets
    exact Nat.lt_irrefl _ brackets

end

def threeSets (readfds writefds exceptfds : UInt8) (rval : BitVec 64) : Exit where
  args0 := 8
  readfds := some ⟨fun pos => if pos = 0 then readfds else 0, true⟩
  writefds := some ⟨fun pos => if pos = 0 then writefds else 0, true⟩
  exceptfds := some ⟨fun pos => if pos = 0 then exceptfds else 0, true⟩
  timeout := none
  rval := rval
  syserror := false
  allocated := true
  wordsize := 8
  word := .inr rfl
  littleEndian := true

/-- With the descriptors 3 and 4 in the first two sets, the third is not looked at. -/
theorem decode_select_lists_two_sets :
    ∃ text, decodeSelect (threeSets 8 16 0 2) = some (some text) ∧
      (threeSets 8 16 0 2).Lists text := by
  have returned : (threeSets 8 16 0 2).Returned := ⟨rfl, by decide, by decide, by decide⟩
  obtain ⟨text, decodes, -, lists⟩ := decode_select_lists_iff returned
  have all : AllClose (threeSets 8 16 0 2) [] (threeSets 8 16 0 2).groups := by
    refine allClose_cons.mpr ⟨?_, allClose_cons.mpr ⟨?_, allClose_counted (by decide)⟩⟩
    · exact fun _ => .inl (by decide)
    · exact fun _ => .inr (.inl (by decide))
  exact ⟨text, decodes, lists.mpr all⟩

/-- Descriptor 3 is ready for reading and 5 has an exception: between them the set that has
nothing to show is closed as well, as in `in [3]], except [5]`. -/
theorem decode_select_closes_twice :
    (threeSets 8 0 32 2).Returned ∧
      decodeSelect (threeSets 8 0 32 2) = some (some ['i', 'n', ' ', '[', '3', ']', ']', ',', ' ',
        'e', 'x', 'c', 'e', 'p', 't', ' ', '[', '5', ']']) ∧
      ¬ (threeSets 8 0 32 2).Lists ['i', 'n', ' ', '[', '3', ']', ']', ',', ' ',
        'e', 'x', 'c', 'e', 'p', 't', ' ', '[', '5', ']'] := by
  refine ⟨⟨rfl, by decide, by decide, by decide⟩, ?_, ?_⟩
  · simp only [decodeSelect, Exit.sets, decodeSets, decodeSet_eq]
    decide
  · rintro ⟨k, listed, -⟩
    have plain := plain_cut (k := k) (plain_groups (s := threeSets 8 0 32 2))
    have text : _ = listing (cut k (threeSets 8 0 32 2).groups) := listed
    have balanced := (count_listing plain).1
    rw [← text] at balanced
    revert balanced
    decide

end Strace.Select
