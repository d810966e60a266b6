import Mathlib.Data.List.Infix
import Mathlib.Data.Nat.Digits.Defs
import Strace.Decode.NextSetBit

/-! `decode_select` when the call returns: the text about the descriptors that are
ready, built in a fixed buffer, against the list that it stands for. -/
namespace Strace.Select
open Words

structure FdSet where
  byte : Nat → UInt8
  readable : Bool

structure Exit where
  args0 : BitVec 64
  /-- the sets, unless the address is null -/
  readfds : Option FdSet
  writefds : Option FdSet
  exceptfds : Option FdSet
  /-- what `sprint_tv_ts` gives for the timeout, unless its address is null -/
  timeout : Option (List Char)
  rval : BitVec 64
  syserror : Bool
  /-- `malloc` gives a buffer for the sets -/
  allocated : Bool
  wordsize : Nat
  word : wordsize = 4 ∨ wordsize = 8
  littleEndian : Bool

namespace Exit

variable (s : Exit)

def given : Nat := (s.args0.setWidth 32).toInt.toNat

def nfds : Nat := if s.given > 1024 * 1024 then 1024 * 1024 else s.given

def fdsize : Nat := align 32 s.wordsize ((s.nfds + 7) / 8)

def posXorMask : Nat := Strace.posXorMask s.littleEndian s.wordsize

def sets : List (List Char × Option FdSet) :=
  [(['i', 'n'], s.readfds), (['o', 'u', 't'], s.writefds),
    (['e', 'x', 'c', 'e', 'p', 't'], s.exceptfds)]

def fetch (set : Option FdSet) : Option (List UInt8) :=
  match set with
  | none => none
  | some set =>
    if s.allocated && set.readable then some ((List.range s.fdsize).map set.byte) else none

end Exit

structure Out where
  text : List Char
  sep : List Char
  readyFds : Int

def outstrSize : Nat := 1024

def roomEnd : Nat := outstrSize - (11 + 4 * 3 + 2)

/-- `%u`. -/
def digits (j : Nat) : List Char := Nat.toDigits 10 j

def xappendstr (text s : List Char) : Option (List Char) :=
  if text.length + s.length < outstrSize then some (text ++ s) else none

def store (text : List Char) (c : Char) : Option (List Char) :=
  if text.length < outstrSize then some (text ++ [c]) else none

def showFd (name : List Char) (j : Nat) (first : Bool) (o : Out) : Option (Bool × Out) :=
  if o.text.length < roomEnd then
    if first then
      (xappendstr o.text (o.sep ++ name ++ [' ', '['] ++ digits j)).map fun text =>
        (false, { o with text := text, sep := [',', ' '] })
    else
      (xappendstr o.text (' ' :: digits j)).map fun text => (false, { o with text := text })
  else some (first, o)

/-- The loop over the bits of a set. -/
def showSet (s : Exit) (fds : List UInt8) (name : List Char) (j : Nat) (first : Bool) (o : Out) :
    Option Out :=
  match _found : nextSetBit fds s.posXorMask j s.nfds with
  | none => none
  | some none => some o
  | some (some i) =>
    match showFd name i first o with
    | none => none
    | some (first, o) =>
      if o.readyFds - 1 = 0 then some { o with readyFds := o.readyFds - 1 }
      else showSet s fds name (i + 1) first { o with readyFds := o.readyFds - 1 }
termination_by s.nfds - j
decreasing_by
  have := nextSetBit_mem _found
  omega

/-- The body of the loop over the sets. -/
def decodeSet (s : Exit) (name : List Char) (set : Option FdSet) (o : Out) : Option Out :=
  match s.fetch set with
  | none => some o
  | some fds =>
    match showSet s fds name 0 true o with
    | none => none
    | some o =>
      if o.text = [] then some o else (store o.text ']').map fun text => { o with text := text }

def decodeSets (s : Exit) : List (List Char × Option FdSet) → Out → Option Out
  | [], o => some o
  | (name, set) :: rest, o =>
    if o.readyFds > 0 then
      match decodeSet s name set o with
      | none => none
      | some o => decodeSets s rest o
    else some o

/-- The part about the time that is left. -/
def appendLeft (timeout : Option (List Char)) (o : Out) : Option (List Char) :=
  match timeout with
  | none => some o.text
  | some str =>
    if o.text.length + 6 + o.sep.length + str.length < outstrSize then
      xappendstr o.text (o.sep ++ ['l', 'e', 'f', 't', ' '] ++ str)
    else some o.text

def decodeSelect (s : Exit) : Option (Option (List Char)) :=
  if s.syserror then some none
  else if (s.rval.setWidth 32).toInt = 0 then
    some (some ['T', 'i', 'm', 'e', 'o', 'u', 't'])
  else
    match decodeSets s s.sets ⟨[], [], (s.rval.setWidth 32).toInt⟩ with
    | none => none
    | some o =>
      match appendLeft s.timeout o with
      | none => none
      | some text => (store text '\x00').map fun _ => some text

/-! ## The descriptors of a set -/

structure Group where
  name : List Char
  readable : Bool
  fds : List Nat

namespace Exit

variable (s : Exit)

def walked (set : FdSet) : Nat → UInt8 := walkedBy s.posXorMask set.byte

def group (name : List Char) (set : Option FdSet) : Group where
  name := name
  readable := (s.fetch set).isSome
  fds :=
    match set with
    | none => []
    | some set => if s.allocated && set.readable then bitsFrom (s.walked set) 0 s.nfds else []

end Exit

/-! ## The loop over the bits -/

def showList (name : List Char) : List Nat → Bool → Out → Option Out
  | [], _, o => some o
  | i :: rest, first, o =>
    match showFd name i first o with
    | none => none
    | some (first, o) =>
      if o.readyFds - 1 = 0 then some { o with readyFds := o.readyFds - 1 }
      else showList name rest first { o with readyFds := o.readyFds - 1 }

section
variable {s : Exit}

theorem nfds_le : s.nfds ≤ 1024 * 1024 := by
  rw [Exit.nfds]
  split <;> omega

theorem nfds_le_given : s.nfds ≤ s.given := by
  rw [Exit.nfds]
  split <;> omega

variable {set : FdSet} {j : Nat} {name : List Char} {o : Out}

theorem nextSetBit_fetched :
    nextSetBit ((List.range s.fdsize).map set.byte) s.posXorMask j s.nfds =
      some (bitsFrom (s.walked set) j s.nfds).head? := by
  have few : s.nfds ≤ 1024 * 1024 := nfds_le
  have word := s.word
  exact nextSetBit_words s.word s.littleEndian set.byte j (align_exact (by omega) (by omega))

theorem showSet_eq {first : Bool} :
    showSet s ((List.range s.fdsize).map set.byte) name j first o =
      showList name (bitsFrom (s.walked set) j s.nfds) first o := by
  fun_induction showSet s ((List.range s.fdsize).map set.byte) name j first o with
  | case1 j first o outside =>
    grind [nextSetBit_fetched]
  | case2 j first o last =>
    rw [nextSetBit_fetched] at last
    rw [List.head?_eq_none_iff.mp (Option.some.inj last)]
    rfl
  | case3 j first o i found dies =>
    rw [nextSetBit_fetched] at found
    rw [bitsFrom_of_head (Option.some.inj found), showList, dies]
  | case4 j first o i found first' o' shown done =>
    rw [nextSetBit_fetched] at found
    rw [bitsFrom_of_head (Option.some.inj found), showList, shown]
    exact (if_pos done).symm
  | case5 j first o i found first' o' shown more ih =>
    rw [nextSetBit_fetched] at found
    rw [bitsFrom_of_head (Option.some.inj found), showList, shown]
    exact ih.trans (if_neg more).symm

def decodeGroup (g : Group) (o : Out) : Option Out :=
  if g.readable then
    match showList g.name g.fds true o with
    | none => none
    | some o =>
      if o.text = [] then some o else (store o.text ']').map fun text => { o with text := text }
  else some o

theorem decodeSet_eq {set : Option FdSet} :
    decodeSet s name set o = decodeGroup (s.group name set) o := by
  cases set with
  | none => rfl
  | some set =>
    by_cases able : (s.allocated && set.readable) = true
    · simp only [decodeSet, Exit.group, Exit.fetch, if_pos able, showSet_eq]
      rfl
    · simp only [decodeSet, Exit.group, Exit.fetch, if_neg able]
      rfl

theorem group_unread {set : Option FdSet} (unread : (s.group name set).readable = false) :
    (s.group name set).fds = [] := by
  cases set with
  | none => rfl
  | some set =>
    grind [Exit.group, Exit.fetch]

end

/-! ## The buffer -/

/-- The text ends before some place. -/
structure Fits (bound : Nat) (o : Out) : Prop where
  text : o.text.length ≤ bound
  sep : o.sep.length ≤ 2

section
variable {bound : Nat} {o : Out} {name : List Char}

theorem showFd_full (full : roomEnd ≤ o.text.length) (j : Nat) (first : Bool) :
    showFd name j first o = some (first, o) := by
  rw [showFd, if_neg (Nat.not_lt.mpr full)]

variable {j : Nat} {s : Exit}

theorem length_digits (small : j < 1024 * 1024) : (digits j).length ≤ 7 :=
  (Nat.length_toDigits_le_iff (by decide) (by decide)).mpr (Nat.lt_of_lt_of_le small (by decide))

theorem showFd_fits (fits : Fits bound o) (place : 1015 ≤ bound) (short : name.length ≤ 6)
    (small : j < 1024 * 1024) (first : Bool) :
    ∃ first' o', showFd name j first o = some (first', o') ∧ Fits bound o' := by
  have digit := length_digits small
  have sep := fits.sep
  have ends : roomEnd = 999 := rfl
  have size : outstrSize = 1024 := rfl
  by_cases room : o.text.length < roomEnd
  · cases first with
    | true =>
      have inside : o.text.length + (o.sep ++ name ++ [' ', '['] ++ digits j).length ≤ 1015 := by
        grind
      refine ⟨false, ⟨o.text ++ (o.sep ++ name ++ [' ', '['] ++ digits j), [',', ' '], o.readyFds⟩,
        ?_, ?_, Nat.le_refl 2⟩
      · grind [showFd, xappendstr]
      · rw [List.length_append]
        omega
    | false =>
      have inside : o.text.length + (' ' :: digits j).length ≤ 1015 := by
        rw [List.length_cons]
        omega
      refine ⟨false, ⟨o.text ++ ' ' :: digits j, o.sep, o.readyFds⟩, ?_, ?_, sep⟩
      · rw [showFd, if_pos room, if_neg Bool.false_ne_true, xappendstr, if_pos (by omega)]
        rfl
      · rw [List.length_append]
        omega
  · exact ⟨first, o, showFd_full (Nat.le_of_not_lt room) j first, fits⟩

theorem showList_fits (fits : Fits bound o) (place : 1015 ≤ bound) (short : name.length ≤ 6)
    {fds : List Nat} (small : ∀ j ∈ fds, j < 1024 * 1024) (first : Bool) :
    ∃ o', showList name fds first o = some o' ∧ Fits bound o' := by
  induction fds generalizing o first with
  | nil => exact ⟨o, rfl, fits⟩
  | cons j rest ih =>
    rw [List.forall_mem_cons] at small
    obtain ⟨first', o', shows, fits'⟩ := showFd_fits fits place short small.1 first
    rw [showList, shows]
    dsimp only
    split
    · exact ⟨_, rfl, fits'.text, fits'.sep⟩
    · have counted : Fits bound { o' with readyFds := o'.readyFds - 1 } := ⟨fits'.text, fits'.sep⟩
      exact ih counted small.2 first'

theorem decodeGroup_fits {g : Group} (fits : Fits bound o) (place : 1015 ≤ bound)
    (inside : bound < outstrSize) (short : g.name.length ≤ 6)
      (small : ∀ j ∈ g.fds, j < 1024 * 1024) :
    ∃ o', decodeGroup g o = some o' ∧ Fits (bound + 1) o' := by
  rw [decodeGroup]
  split
  · obtain ⟨shown, shows, fits'⟩ := showList_fits fits place short small true
    rw [shows]
    dsimp only
    split
    · exact ⟨shown, rfl, Nat.le_succ_of_le fits'.text, fits'.sep⟩
    · rw [store, if_pos (Nat.lt_of_le_of_lt fits'.text inside)]
      refine ⟨_, rfl, ?_, fits'.sep⟩
      rw [List.length_append]
      exact Nat.succ_le_succ fits'.text
  · exact ⟨o, rfl, Nat.le_succ_of_le fits.text, fits.sep⟩

theorem fds_small {set : Option FdSet} : ∀ j ∈ (s.group name set).fds, j < 1024 * 1024 := by
  intro j mem
  have few : s.nfds ≤ 1024 * 1024 := nfds_le
  cases set with
  | none => exact absurd mem List.not_mem_nil
  | some set =>
    rw [Exit.group] at mem
    split at mem
    · have := (mem_bitsFrom.mp mem).2.1
      omega
    · exact absurd mem List.not_mem_nil

theorem decodeSets_fits (sets : List (List Char × Option FdSet)) (fits : Fits bound o)
    (place : 1015 ≤ bound) (inside : bound + sets.length ≤ outstrSize)
    (short : ∀ set ∈ sets, set.1.length ≤ 6) :
    ∃ o', decodeSets s sets o = some o' ∧ Fits (bound + sets.length) o' := by
  induction sets generalizing o bound with
  | nil => exact ⟨o, rfl, fits⟩
  | cons set rest ih =>
    rw [List.forall_mem_cons] at short
    rw [List.length_cons] at inside ⊢
    rw [decodeSets]
    split
    · obtain ⟨o', decodes, fits'⟩ := decodeGroup_fits fits place
        (by omega) short.1 fds_small
      obtain ⟨last, later, fits⟩ := ih fits' (by omega) (by omega) short.2
      rw [decodeSet_eq, decodes]
      refine ⟨last, later, ?_⟩
      rw [Nat.add_assoc, Nat.add_comm 1] at fits
      exact fits
    · exact ⟨o, rfl, fits.text.trans (Nat.le_add_right _ _), fits.sep⟩

theorem appendLeft_fits (timeout : Option (List Char)) (inside : o.text.length < outstrSize) :
    ∃ text, appendLeft timeout o = some text ∧ text.length < outstrSize := by
  cases timeout with
  | none => exact ⟨o.text, rfl, inside⟩
  | some str =>
    rw [appendLeft]
    split
    · have fits : o.text.length + (o.sep ++ ['l', 'e', 'f', 't', ' '] ++ str).length <
          outstrSize := by
        grind [List.length_cons]
      rw [xappendstr, if_pos fits]
      refine ⟨_, rfl, ?_⟩
      rw [List.length_append]
      exact fits
    · exact ⟨o.text, rfl, inside⟩

theorem decodeSelect_fits (s : Exit) :
    ∃ aux, decodeSelect s = some aux ∧ ∀ text ∈ aux, text.length < outstrSize := by
  rw [decodeSelect]
  split
  · exact ⟨none, rfl, fun _ mem => nomatch mem⟩
  · split
    · refine ⟨_, rfl, fun text mem => ?_⟩
      cases mem
      decide
    · have start : Fits 1015 ⟨[], [], (s.rval.setWidth 32).toInt⟩ := ⟨Nat.zero_le _, Nat.zero_le _⟩
      obtain ⟨o, decodes, fits⟩ := decodeSets_fits s.sets start (Nat.le_refl _)
        (show 1015 + 3 ≤ 1024 by decide) (by simp [Exit.sets])
      obtain ⟨text, appends, inside⟩ := appendLeft_fits s.timeout
        (Nat.lt_of_le_of_lt fits.text (show 1015 + 3 < 1024 by decide))
      rw [decodes]
      dsimp only
      rw [appends]
      dsimp only
      rw [store, if_pos inside]
      refine ⟨some text, rfl, fun text' mem => ?_⟩
      cases mem
      exact inside

end

end Strace.Select
