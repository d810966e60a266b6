import Strace.Common
import Strace.Xlat.SprintFlags

/-! `decode_poll_exiting` of `poll.c`: the text about the descriptors that are ready. -/
namespace Strace.Poll
open List Option

open Strace.Buffers Strace.Xlat

/-- `struct pollfd`, as far as it is read. -/
structure Pollfd where
  fd : UInt32
  revents : UInt16

/-- `xlat/pollflags.in` on most machines. -/
def pollflags : List XlatData :=
  [⟨0x0001, some ⟨"POLLIN".toList, by decide⟩⟩, ⟨0x0002, some ⟨"POLLPRI".toList, by decide⟩⟩,
    ⟨0x0004, some ⟨"POLLOUT".toList, by decide⟩⟩, ⟨0x0008, some ⟨"POLLERR".toList, by decide⟩⟩,
    ⟨0x0010, some ⟨"POLLHUP".toList, by decide⟩⟩, ⟨0x0020, some ⟨"POLLNVAL".toList, by decide⟩⟩,
    ⟨0x0040, some ⟨"POLLRDNORM".toList, by decide⟩⟩,
    ⟨0x0080, some ⟨"POLLRDBAND".toList, by decide⟩⟩,
    ⟨0x0100, some ⟨"POLLWRNORM".toList, by decide⟩⟩,
    ⟨0x0200, some ⟨"POLLWRBAND".toList, by decide⟩⟩, ⟨0x0400, some ⟨"POLLMSG".toList, by decide⟩⟩,
    ⟨0x1000, some ⟨"POLLREMOVE".toList, by decide⟩⟩, ⟨0x2000, some ⟨"POLLRDHUP".toList, by decide⟩⟩,
    ⟨0x8000, some ⟨"POLL_BUSY_LOOP".toList, by decide⟩⟩]

structure Exit where
  syserror : Bool
  uRval : UInt64
  /-- `verbose(tcp)` -/
  verbose : Bool
  /-- `abbrev(tcp)` -/
  abbreviated : Bool
  maxStrlen : UInt32
  sizeofLong : Nat
  long : sizeofLong = 4 ∨ sizeofLong = 8
  xlatVerbosity : Verbosity
  start : UInt64
  nfds : UInt32
  /-- `umove` of an entry -/
  umove : UInt64 → Option Pollfd
  /-- what the buffer of `sprintflags` has from earlier calls when an entry is shown -/
  flagsOutstr : UInt64 → List Char
  flagsOutstr_length : ∀ cur, (flagsOutstr cur).length = 1024
  /-- the text of the time that is left, if there is an argument for it -/
  sprintTs : Option CString

namespace Exit

variable (x : Exit)

/-- `%d` -/
def decimalInt (n : Int) : List Char :=
  if n < 0 then '-' :: Xlat.decimal n.natAbs else Xlat.decimal n.natAbs

/-- `"{fd=%d, revents="` -/
def fdText (fd : UInt32) : List Char :=
  "\x7bfd=".toList ++ decimalInt fd.toBitVec.toInt ++ ", revents=".toList

/-- `fdstr`, which has 17 + 12 bytes. -/
def fdstr (fd : UInt32) : Option (List Char) :=
  if (fdText fd).length < 17 + 12 then some (fdText fd) else none

/-- `flagstr` -/
def flagstr (cur : UInt64) (revents : UInt16) : Option (Option (List Char)) :=
  sprintflagsExv x.xlatVerbosity (x.flagsOutstr cur) ⟨[], by decide⟩ revents.toUInt64 nul
    { verbosity := .default, format := .x } [pollflags]

def sequenceTruncationNeeded : UInt32 → Bool :=
  Strace.sequenceTruncationNeeded x.abbreviated x.maxStrlen

/-- What an entry may not reach, so that an address, the bracket and `, ...` fit after it. -/
def entriesEnd : Nat := 1024 - (2 + 2 * x.sizeofLong + 9)

/-- What stands in front of an item. -/
def openItem (out : Buffer Char) : Option (Buffer Char) :=
  if out.before = [] then out.put '[' else out.append ", ".toList

def showEntry (cur : UInt64) (fds : Pollfd) (out : Buffer Char) : Option (Buffer Char × Bool) := do
  let fdstr ← fdstr fds.fd
  let flagstr ← x.flagstr cur fds.revents
  -- `strlen` of a missing string
  let flagstr ← flagstr
  if out.before.length + fdstr.length + flagstr.length + 1 ≥ x.entriesEnd then
    let out ← out.append "...".toList
    some (out, false)
  else
    let out ← out.append fdstr
    let out ← out.append flagstr
    let out ← out.put '}'
    some (out, true)

def entries : List (UInt64 × Option Pollfd) :=
  (List.range x.nfds.toNat).map fun i =>
    (x.start + UInt64.ofNat (8 * i), x.umove (x.start + UInt64.ofNat (8 * i)))

/-- The loop over the entries. -/
def pollLoop : List (UInt64 × Option Pollfd) → UInt32 → Buffer Char → Option (Buffer Char)
  | [], _, out => some out
  | (cur, none) :: _, _, out => do
    let out ← openItem out
    out.append (sprintXlatVal cur .x)
  | (cur, some fds) :: rest, printed, out =>
    if fds.revents = 0 then pollLoop rest printed out
    else do
      let out ← openItem out
      if x.sequenceTruncationNeeded (printed + 1) then out.append "...".toList
      else do
        let (out, shown) ← x.showEntry cur fds out
        if shown then pollLoop rest (printed + 1) out else some out

/-- The end of the list. -/
def closeList (out : Buffer Char) : Option (Buffer Char) := do
  let out ← if out.before ≠ [] then out.put ']' else some out
  out.terminate

/-- The time that is left. -/
def appendTs (out : Buffer Char) : Option (Buffer Char) :=
  match x.sprintTs with
  | none => some out
  | some str =>
    if out.before.length + 8 + str.1.length < 1024 then do
      let out ← out.append (if out.before = [] then "left ".toList else ", left ".toList)
      out.append str.1
    else out.append ", ...".toList

end Exit

/-- What is returned. -/
inductive Return where
  | zero
  | timeout
  /-- a text, as `RVAL_STR` says -/
  | auxstr (text : List Char)
  deriving DecidableEq

/-- `size`, an `unsigned long`. -/
def Exit.size (x : Exit) : Nat := 8 * x.nfds.toNat % 2 ^ (8 * x.sizeofLong)

/-- Whether a text is put together. -/
def Exit.assembles (x : Exit) : Bool :=
  !x.syserror && x.uRval ≠ 0 && x.verbose && x.start ≠ 0 && x.nfds ≠ 0 &&
    decide (x.size / 8 = x.nfds.toNat) && decide (x.start.toNat + x.size < 2 ^ 64)

def Exit.decodePollExiting (x : Exit) (outstr : List Char) : Option Return :=
  if !x.syserror && x.uRval = 0 then some .timeout
  else if x.assembles then do
    let out ← x.pollLoop x.entries 0 ⟨[], outstr⟩
    let out ← closeList out
    let out ← x.appendTs out
    some (if out.before = [] then .zero else .auxstr out.contents)
  else some .zero

/-! ## What the text says -/

inductive Item where
  | entry (fds : Pollfd)
  | address (addr : UInt64)
  | ellipsis

namespace Exit

variable (x : Exit)

/-- The names of the events of an entry. -/
def flagText (revents : UInt16) : List Char :=
  text .x (printflagsEx x.xlatVerbosity revents.toUInt64 none
    { verbosity := .default, format := .x } [pollflags])

def itemText : Item → List Char
  | .entry fds => fdText fds.fd ++ x.flagText fds.revents ++ "\x7d".toList
  | .address addr => sprintXlatVal addr .x
  | .ellipsis => "...".toList

def itemsText (started : Bool) : List Item → List Char
  | [] => []
  | item :: rest =>
    (if started then ", ".toList else "[".toList) ++ x.itemText item ++ itemsText true rest

def listText (items : List Item) : List Char :=
  if items = [] then [] else x.itemsText false items ++ "]".toList

/-- The list ends before an entry: `max_strlen` entries are listed, or it would reach too far. -/
def Cut (before : List Item) (fds : Pollfd) : Prop :=
  x.sequenceTruncationNeeded (.ofNat (before.length + 1)) = true ∨
    x.entriesEnd ≤ (x.itemsText false (before ++ [.entry fds])).length

/-- What is said about the time that is left. -/
def leftText (list : List Char) : List Char :=
  match x.sprintTs with
  | none => []
  | some str =>
    if list.length + 8 + str.1.length < 1024 then
      (if list = [] then "left ".toList else ", left ".toList) ++ str.1
    else ", ...".toList

end Exit

/-- What is listed of the entries, if `before` is listed already. -/
inductive Lists (x : Exit) : List Item → List (UInt64 × Option Pollfd) → List Item → Prop
  | nil {before : List Item} : Lists x before [] []
  | unreadable {before : List Item} {cur : UInt64} {rest : List (UInt64 × Option Pollfd)} :
      Lists x before ((cur, none) :: rest) [.address cur]
  | idle {before items : List Item} {cur : UInt64} {fds : Pollfd}
      {rest : List (UInt64 × Option Pollfd)} (idle : fds.revents = 0)
      (later : Lists x before rest items) : Lists x before ((cur, some fds) :: rest) items
  | ready {before items : List Item} {cur : UInt64} {fds : Pollfd}
      {rest : List (UInt64 × Option Pollfd)} (ready : fds.revents ≠ 0) (fits : ¬ x.Cut before fds)
      (later : Lists x (before ++ [.entry fds]) rest items) :
      Lists x before ((cur, some fds) :: rest) (.entry fds :: items)
  | more {before : List Item} {cur : UInt64} {fds : Pollfd}
      {rest : List (UInt64 × Option Pollfd)} (ready : fds.revents ≠ 0) (cut : x.Cut before fds) :
      Lists x before ((cur, some fds) :: rest) [.ellipsis]

inductive Balanced : List Char → Prop
  | plain {text : List Char} : (∀ c ∈ text, c ∉ "[]\x7b\x7d".toList) → Balanced text
  | append {text text' : List Char} : Balanced text → Balanced text' → Balanced (text ++ text')
  | brackets {text : List Char} : Balanced text → Balanced ("[".toList ++ text ++ "]".toList)
  | braces {text : List Char} : Balanced text → Balanced ("\x7b".toList ++ text ++ "\x7d".toList)

/-! ## The parts of an entry -/

theorem length_decimalInt (fd : UInt32) : (Exit.decimalInt fd.toBitVec.toInt).length ≤ 11 := by
  have low := fd.toBitVec.le_two_mul_toInt
  have high := fd.toBitVec.two_mul_toInt_lt
  have small : fd.toBitVec.toInt.natAbs < 10 ^ 10 := by omega
  have digits : (Xlat.decimal fd.toBitVec.toInt.natAbs).length ≤ 10 :=
    (Nat.length_toDigits_le_iff (by decide) (by decide)).mpr small
  rw [Exit.decimalInt]
  split
  · rw [length_cons]
    omega
  · omega

theorem length_fdText (fd : UInt32) : (Exit.fdText fd).length ≤ 25 := by
  have short := length_decimalInt fd
  have front : "\x7bfd=".toList.length = 4 := rfl
  have back : ", revents=".toList.length = 10 := rfl
  unfold Exit.fdText
  rw [length_append, length_append]
  omega

theorem fdstr_eq (fd : UInt32) : Exit.fdstr fd = some (Exit.fdText fd) :=
  if_pos (Nat.lt_of_le_of_lt (length_fdText fd) (by decide))

theorem nonEmptyNames_pollflags : ∀ table ∈ [pollflags], NonEmptyNames table := by
  have names : ∀ data ∈ pollflags, data.str.all fun str => str.1 ≠ [] := by
    decide
  rintro table (- | ⟨_, ⟨⟩⟩) data mem str name
  have nonempty := names data mem
  rw [mem_def.mp name] at nonempty
  simpa using nonempty

theorem flagstr_eq (x : Exit) (cur : UInt64) {revents : UInt16} (ready : revents ≠ 0) :
    x.flagstr cur revents = some (some (x.flagText revents)) := by
  have nonzero : revents.toUInt64 ≠ 0 := by
    intro zero
    apply ready
    rw [← UInt16.toNat_inj]
    have same := congrArg UInt64.toNat zero
    simpa using same
  have short := length_text_printflagsStyle_le .x revents.toUInt64
    (getXlatStyle x.xlatVerbosity { verbosity := .default, format := .x }).verbosity pollflags
  exact sprintflagsStyle_eq (x.flagsOutstr cur) nonzero rfl nonEmptyNames_pollflags
    (by rw [x.flagsOutstr_length]; exact Nat.lt_of_le_of_lt short (by decide))

/-! ## The loop -/

section
variable {x : Exit} {out : Buffer Char} {written : List Char}

/-- What stands in front of the next item. -/
def separator (before : List Item) : List Char := if before = [] then "[".toList else ", ".toList

theorem itemsText_append (started : Bool) (before items : List Item) :
    x.itemsText started (before ++ items) =
      x.itemsText started before ++ x.itemsText (started || decide (before ≠ [])) items := by
  induction before generalizing started with
  | nil => simp [Exit.itemsText]
  | cons item before ih => simp [Exit.itemsText, ih]

theorem itemsText_concat (before : List Item) (item : Item) :
    x.itemsText false (before ++ [item]) =
      x.itemsText false before ++ separator before ++ x.itemText item := by
  by_cases first : before = [] <;> simp [itemsText_append, Exit.itemsText, separator]

variable {before : List Item}

theorem itemsText_eq_nil : x.itemsText false before = [] ↔ before = [] := by
  cases before <;> simp [Exit.itemsText]

theorem entriesEnd_eq : x.entriesEnd + 2 * x.sizeofLong = 1013 := by
  have := x.long
  unfold Exit.entriesEnd
  omega

theorem openItem_holds (holds : out.Holds 1024 (x.itemsText false before))
    (room : (x.itemsText false before).length < x.entriesEnd) :
    ∃ out', Exit.openItem out = some out' ∧
      out'.Holds 1024 (x.itemsText false before ++ separator before) := by
  have few : x.entriesEnd ≤ 1013 := Nat.le.intro entriesEnd_eq
  rw [Exit.openItem, holds.before, separator]
  simp only [itemsText_eq_nil]
  split
  · exact holds.put (by omega) '['
  · have comma : ", ".toList.length = 2 := rfl
    obtain ⟨out', appended, holds', -⟩ := holds.append (s := ", ".toList) (by omega)
    exact ⟨out', appended, holds'⟩

section
variable (holds : out.Holds 1024 (x.itemsText false before ++ separator before))
  (room : (x.itemsText false before).length < x.entriesEnd)
include holds room

theorem append_last (item : Item) (short : (x.itemText item).length ≤ 2 + 2 * x.sizeofLong) :
    ∃ out', out.append (x.itemText item) = some out' ∧
      out'.Holds 1024 (x.itemsText false (before ++ [item])) ∧
      (x.itemsText false (before ++ [item])).length ≤ 1016 := by
  have bound : x.entriesEnd + 2 * x.sizeofLong = 1013 := entriesEnd_eq
  have front : (separator before).length ≤ 2 := by
    rw [separator]
    split <;> decide
  have text : (x.itemsText false before ++ separator before ++ x.itemText item).length ≤ 1016 := by
    simp only [length_append]
    omega
  rw [itemsText_concat]
  rw [length_append] at text
  obtain ⟨out', appended, holds', -⟩ := holds.append (by omega : _ + (x.itemText item).length < _)
  exact ⟨out', appended, holds', by rw [length_append]; exact text⟩

theorem append_ellipsis : ∃ out', out.append "...".toList = some out' ∧
    out'.Holds 1024 (x.itemsText false (before ++ [.ellipsis])) ∧
      (x.itemsText false (before ++ [.ellipsis])).length ≤ 1016 := by
  have dots : (x.itemText .ellipsis).length = 3 := rfl
  have := x.long
  exact append_last holds room .ellipsis (by omega)

theorem showEntry_holds (cur : UInt64) {fds : Pollfd} (ready : fds.revents ≠ 0) :
    ∃ out' shown, x.showEntry cur fds out = some (out', shown) ∧
      (shown = true ↔ (x.itemsText false (before ++ [.entry fds])).length < x.entriesEnd) ∧
      out'.Holds 1024 (x.itemsText false (before ++ [if shown then .entry fds else .ellipsis])) ∧
      (shown = false → (x.itemsText false (before ++ [.ellipsis])).length ≤ 1016) := by
  have bound : x.entriesEnd + 2 * x.sizeofLong = 1013 := entriesEnd_eq
  have brace : "\x7d".toList = ['}'] := rfl
  have reach :
    out.before.length + (Exit.fdText fds.fd).length + (x.flagText fds.revents).length + 1 =
      (x.itemsText false (before ++ [.entry fds])).length := by
    rw [holds.before, itemsText_concat]
    simp only [Exit.itemText, length_append, brace, length_singleton]
    omega
  rw [Exit.showEntry, fdstr_eq, flagstr_eq x cur ready]
  simp only [bind_eq_bind, bind_some, reach]
  split
  · next far =>
    obtain ⟨out', appended, holds', short⟩ := append_ellipsis holds room
    exact ⟨out', false, by rw [appended]; rfl, by simpa using far, holds', fun _ => short⟩
  · next fits =>
    rw [holds.before] at reach
    obtain ⟨out₁, first, holds₁, -⟩ := holds.append (by omega : _ + (Exit.fdText fds.fd).length < _)
    obtain ⟨out₂, second, holds₂, -⟩ := holds₁.append
      (by rw [length_append]; omega : _ + (x.flagText fds.revents).length < _)
    obtain ⟨out₃, third, holds₃⟩ :=
      holds₂.put (by rw [length_append, length_append]; omega) '}'
    refine ⟨out₃, true, by simp only [first, second, third, bind_some], by simpa using fits,
      ?_, nofun⟩
    rw [if_pos rfl, itemsText_concat]
    simpa only [Exit.itemText, brace, append_assoc] using holds₃

end

theorem length_address {addr : UInt64} (fits : addr.toNat < 2 ^ (8 * x.sizeofLong)) :
    (x.itemText (.address addr)).length ≤ 2 + 2 * x.sizeofLong := by
  rcases x.long with long | long <;>
  · rw [long] at fits ⊢
    exact length_sprintXlatVal_x_le (by decide) fits

theorem pollLoop_lists {entries : List (UInt64 × Option Pollfd)}
    (addresses : ∀ e ∈ entries, e.1.toNat < 2 ^ (8 * x.sizeofLong))
    (holds : out.Holds 1024 (x.itemsText false before))
    (room : (x.itemsText false before).length < x.entriesEnd) :
    ∃ out' items, x.pollLoop entries (.ofNat before.length) out = some out' ∧
      Lists x before entries items ∧ out'.Holds 1024 (x.itemsText false (before ++ items)) ∧
      (x.itemsText false (before ++ items)).length ≤ 1016 := by
  have bound : x.entriesEnd + 2 * x.sizeofLong = 1013 := entriesEnd_eq
  induction entries generalizing before out with
  | nil => exact ⟨out, [], rfl, .nil, by rwa [append_nil], by rw [append_nil]; omega⟩
  | cons e rest ih =>
    obtain ⟨cur, fds⟩ := e
    rw [forall_mem_cons] at addresses
    obtain ⟨address, addresses⟩ := addresses
    obtain ⟨out₁, opened, holds₁⟩ := openItem_holds holds room
    cases fds with
    | none =>
      obtain ⟨out₂, appended, held⟩ :=
        append_last holds₁ room (.address cur) (length_address address)
      refine ⟨out₂, [.address cur], ?_, .unreadable, held⟩
      rw [Exit.pollLoop, opened]
      exact appended
    | some fds =>
      rw [Exit.pollLoop]
      by_cases idle : fds.revents = 0
      · rw [if_pos idle]
        obtain ⟨out', items, run, lists, held⟩ := ih addresses holds room
        exact ⟨out', items, run, .idle idle lists, held⟩
      have next : UInt32.ofNat before.length + 1 = .ofNat (before.length + 1) :=
        (UInt32.ofNat_add ..).symm
      rw [if_neg idle, opened, bind_eq_bind, bind_some, next]
      by_cases truncated : x.sequenceTruncationNeeded (.ofNat (before.length + 1)) = true
      · obtain ⟨out₂, appended, held⟩ := append_ellipsis holds₁ room
        refine ⟨out₂, [.ellipsis], ?_, .more idle (.inl truncated), held⟩
        rw [if_pos truncated]
        exact appended
      rw [if_neg truncated]
      obtain ⟨out₂, shown, entry, fits, holds₂, short⟩ := showEntry_holds holds₁ room cur idle
      simp only [entry]
      cases shown with
      | false =>
        have full := mt fits.mpr Bool.false_ne_true
        exact ⟨out₂, [.ellipsis], rfl, .more idle (.inr (Nat.not_lt.mp full)), holds₂, short rfl⟩
      | true =>
        have small := fits.mp rfl
        have uncut : ¬ x.Cut before fds := fun cut => cut.elim truncated (Nat.not_le.mpr small)
        obtain ⟨out', items, run, lists, held⟩ := ih addresses holds₂ small
        rw [length_append] at run
        rw [append_assoc] at held
        exact ⟨out', .entry fds :: items, run, .ready idle uncut lists, held⟩

/-! ## The end of the text -/

variable {items : List Item} {text : List Char}

theorem closeList_holds (holds : out.Holds 1024 (x.itemsText false items))
    (room : (x.itemsText false items).length ≤ 1016) :
    ∃ out', Exit.closeList out = some out' ∧ out'.Holds 1024 (x.listText items) ∧ out'.Ended ∧
      (x.listText items).length ≤ 1017 := by
  have started : x.itemsText false items = [] ↔ items = [] := itemsText_eq_nil
  rw [Exit.closeList, Exit.listText, holds.before]
  by_cases empty : items = []
  · have nothing := started.mpr empty
    rw [nothing] at holds
    obtain ⟨out', ended, holds', terminated⟩ := holds.terminate (by decide)
    rw [if_pos empty, if_neg (not_not_intro nothing)]
    exact ⟨out', ended, holds', terminated, by decide⟩
  · have something := mt started.mp empty
    obtain ⟨out₁, closed, holds₁⟩ := holds.put (by omega) ']'
    have room₁ : (x.itemsText false items ++ [']']).length ≤ 1017 := by
      grind
    obtain ⟨out', ended, holds', terminated⟩ := holds₁.terminate (by omega)
    rw [if_neg empty, if_pos something, closed]
    exact ⟨out', ended, holds', terminated, room₁⟩

theorem appendTs_holds {list : List Char} (holds : out.Holds 1024 list) (ended : out.Ended)
    (room : list.length ≤ 1017) :
    ∃ out', x.appendTs out = some out' ∧ out'.Holds 1024 (list ++ x.leftText list) ∧ out'.Ended ∧
      (list ++ x.leftText list).length < 1024 := by
  unfold Exit.appendTs Exit.leftText
  cases x.sprintTs with
  | none => exact ⟨out, rfl, by simpa using holds, ended, by simp; omega⟩
  | some str =>
    simp only [holds.before]
    split
    · have front : (if list = [] then "left ".toList else ", left ".toList).length ≤ 7 := by
        split <;> decide
      obtain ⟨out₁, first, holds₁, -⟩ := holds.append (by omega : _ +
        (if list = [] then "left ".toList else ", left ".toList).length < _)
      obtain ⟨out', second, holds', ended'⟩ :=
        holds₁.append (by rw [length_append]; omega : _ + str.1.length < _)
      rw [first, ← append_assoc]
      refine ⟨out', second, holds', ended', ?_⟩
      simp only [length_append]
      omega
    · have dots : ", ...".toList.length = 5 := rfl
      obtain ⟨out', appended, holds', ended'⟩ :=
        holds.append (by omega : _ + ", ...".toList.length < _)
      refine ⟨out', appended, holds', ended', ?_⟩
      rw [length_append]
      omega

/-! ## The characters of the text -/

def Plain (c : Char) : Prop := c ≠ nul ∧ c ∉ "[]\x7b\x7d".toList

instance (c : Char) : Decidable (Plain c) :=
  inferInstanceAs (Decidable (c ≠ nul ∧ c ∉ "[]\x7b\x7d".toList))

theorem plain_of_all (all : (text.all fun c => decide (Plain c)) = true) : ∀ c ∈ text, Plain c :=
  fun c mem => of_decide_eq_true (all_eq_true.mp all c mem)

theorem balanced_of_plain (plain : ∀ c ∈ text, Plain c) : Balanced text :=
  .plain fun c mem => (plain c mem).2

theorem plain_digits {base : Nat} (proper : 1 < base) (small : base ≤ 16) (n : Nat) :
    ∀ c ∈ Nat.toDigits base n, Plain c := by
  have digit : ∀ d < 16, Plain (Nat.digitChar d) := by decide
  exact forall_mem_toDigits proper (fun d lt => digit d (Nat.lt_of_lt_of_le lt small)) n

theorem plain_hex (v : UInt64) : ∀ c ∈ sprintXlatVal v .x, Plain c := by
  have digits := plain_digits (by decide : 1 < 16) (by decide) v.toNat
  rw [sprintXlatVal]
  split
  · exact plain_of_all rfl
  · exact forall_mem_append.mpr ⟨plain_of_all rfl, digits⟩

theorem plain_decimalInt (n : Int) : ∀ c ∈ Exit.decimalInt n, Plain c := by
  have digits := plain_digits (by decide : 1 < 10) (by decide) n.natAbs
  rw [Exit.decimalInt]
  split
  · exact forall_mem_cons.mpr ⟨by decide, digits⟩
  · exact digits

theorem plain_flagText (revents : UInt16) : ∀ c ∈ x.flagText revents, Plain c := by
  have marks : Marks .x Plain := by
    exact ⟨plain_hex, plain_of_all rfl, plain_of_all rfl, plain_of_all rfl⟩
  have names : ∀ data ∈ pollflags, data.str.all fun str => str.1.all fun c => decide (Plain c) := by
    decide
  apply of_printflagsStyle marks
  intro data mem str name c char
  have plain := names data mem
  rw [Option.mem_def.mp name, Option.all_some, List.all_eq_true] at plain
  exact of_decide_eq_true (plain c char)

theorem itemText_plain (item : Item) : ∃ inner, (∀ c ∈ inner, Plain c) ∧
    (x.itemText item = inner ∨ x.itemText item = "\x7b".toList ++ inner ++ "\x7d".toList) := by
  cases item with
  | entry fds =>
    refine ⟨"fd=".toList ++ Exit.decimalInt fds.fd.toBitVec.toInt ++ ", revents=".toList ++
      x.flagText fds.revents, ?_, .inr ?_⟩
    · simp only [forall_mem_append]
      exact ⟨⟨⟨plain_of_all rfl, plain_decimalInt _⟩, plain_of_all rfl⟩, plain_flagText _⟩
    · have front : Exit.fdText fds.fd = "\x7b".toList ++ ("fd=".toList ++
          Exit.decimalInt fds.fd.toBitVec.toInt ++ ", revents=".toList) := rfl
      simp only [Exit.itemText, front, append_assoc]
  | address addr => exact ⟨_, plain_hex addr, .inl rfl⟩
  | ellipsis => exact ⟨"...".toList, plain_of_all rfl, .inl rfl⟩

theorem balanced_itemText (item : Item) : Balanced (x.itemText item) := by
  obtain ⟨inner, plain, text | text⟩ := itemText_plain item
  · rw [text]
    exact balanced_of_plain plain
  · rw [text]
    exact (balanced_of_plain plain).braces

theorem nul_not_mem_itemText (item : Item) : nul ∉ x.itemText item := by
  obtain ⟨inner, plain, text | text⟩ := itemText_plain item
  · rw [text]
    exact fun mem => (plain nul mem).1 rfl
  · have inside : nul ∉ inner := fun mem => (plain nul mem).1 rfl
    rw [text, mem_append, mem_append]
    rintro ((mem | mem) | mem)
    · exact absurd mem (by decide)
    · exact inside mem
    · exact absurd mem (by decide)

theorem balanced_itemsText (items : List Item) : Balanced (x.itemsText true items) := by
  induction items with
  | nil => exact .plain (by simp [Exit.itemsText])
  | cons item rest ih =>
    have comma : Balanced ", ".toList := balanced_of_plain (plain_of_all rfl)
    exact (comma.append (balanced_itemText item)).append ih

theorem balanced_listText (items : List Item) : Balanced (x.listText items) := by
  cases items with
  | nil => exact .plain (by simp [Exit.listText])
  | cons item rest =>
    have inner : Balanced (x.itemText item ++ x.itemsText true rest) :=
      (balanced_itemText item).append (balanced_itemsText rest)
    rw [Exit.listText, if_neg (cons_ne_nil item rest)]
    simpa only [Exit.itemsText, Bool.false_eq_true, if_false, append_assoc] using inner.brackets

theorem nul_not_mem_itemsText (started : Bool) (items : List Item) :
    nul ∉ x.itemsText started items := by
  induction items generalizing started with
  | nil => simp [Exit.itemsText]
  | cons item rest ih =>
    have front : nul ∉ (if started then ", ".toList else "[".toList) := by
      cases started <;> decide
    simp only [Exit.itemsText, mem_append, not_or]
    exact ⟨⟨front, nul_not_mem_itemText item⟩, ih true⟩

theorem nul_not_mem_listText (items : List Item) : nul ∉ x.listText items := by
  unfold Exit.listText
  split
  · simp
  · rw [mem_append, not_or]
    exact ⟨nul_not_mem_itemsText false items, by decide⟩

theorem nul_not_mem_leftText (list : List Char) : nul ∉ x.leftText list := by
  unfold Exit.leftText
  cases x.sprintTs with
  | none => simp
  | some str =>
    dsimp only
    split
    · rw [mem_append, not_or]
      exact ⟨by split <;> decide, str.2⟩
    · decide

theorem balanced_leftText (time : ∀ str ∈ x.sprintTs, Balanced str.1) (list : List Char) :
    Balanced (x.leftText list) := by
  unfold Exit.leftText
  cases str : x.sprintTs with
  | none => exact .plain (by simp)
  | some str' =>
    dsimp only
    split
    · have front : Balanced (if list = [] then "left ".toList else ", left ".toList) := by
        split <;> exact balanced_of_plain (plain_of_all rfl)
      exact front.append (time str' str)
    · exact balanced_of_plain (plain_of_all rfl)

end

structure Shows (x : Exit) (text : List Char) : Prop where
  short : text.length < 1024
  listed : ∃ items, Lists x [] x.entries items ∧
    text = x.listText items ++ x.leftText (x.listText items) ∧ Balanced (x.listText items)
  balanced : (∀ str ∈ x.sprintTs, Balanced str.1) → Balanced text

/-- The text stays within `outstr` and lists the entries that are ready. -/
theorem decode_poll_exiting_shows (x : Exit) (outstr : List Char) (size : outstr.length = 1024)
    (assembles : x.assembles = true)
    (addresses : ∀ e ∈ x.entries, e.1.toNat < 2 ^ (8 * x.sizeofLong)) :
    ∃ text, x.decodePollExiting outstr =
        some (if text = [] then .zero else .auxstr text) ∧
      Shows x text := by
  have empty : (Buffer.mk [] outstr).Holds 1024 [] := ⟨rfl, by simpa using size⟩
  have room : ([] : List Char).length < x.entriesEnd := by
    rcases x.long with long | long <;>
    · rw [Exit.entriesEnd, long]
      decide
  obtain ⟨out₁, items, looped, lists, holds₁, room₁⟩ :=
    pollLoop_lists addresses (show Buffer.Holds _ _ (x.itemsText false []) from empty) room
  rw [nil_append] at holds₁ room₁
  change x.pollLoop x.entries 0 _ = _ at looped
  obtain ⟨out₂, closed, holds₂, ended₂, room₂⟩ := closeList_holds holds₁ room₁
  obtain ⟨out₃, left, holds₃, ended₃, short⟩ := appendTs_holds holds₂ ended₂ room₂
  have plain : nul ∉ x.listText items ++ x.leftText (x.listText items) := by
    rw [List.mem_append, not_or]
    exact ⟨nul_not_mem_listText items, nul_not_mem_leftText _⟩
  refine ⟨x.listText items ++ x.leftText (x.listText items), ?_, short,
    ⟨items, lists, rfl, balanced_listText items⟩, fun time =>
    (balanced_listText items).append (balanced_leftText time _)⟩
  have called : ¬ (!x.syserror && x.uRval = 0) = true := by
    simp only [Exit.assembles] at assembles
    simp_all
  rw [Exit.decodePollExiting, if_neg called, if_pos assembles, looped, Option.bind_eq_bind,
    Option.bind_some, closed, Option.bind_some, left, Option.bind_some, holds₃.before,
    holds₃.contents ended₃ plain]

theorem long_eight : 8 = 4 ∨ 8 = 8 := .inr rfl

/-- The first and the third of four descriptors are ready, and the last entry cannot be read. -/
def twoReady : Exit where
  syserror := false
  uRval := 2
  verbose := true
  abbreviated := true
  maxStrlen := 32
  sizeofLong := 8
  long := long_eight
  xlatVerbosity := .abbreviated
  start := 0x1000
  nfds := 4
  umove addr := if addr = 0x1000 then some ⟨5, 1⟩ else if addr = 0x1008 then some ⟨6, 0⟩
    else if addr = 0x1010 then some ⟨7, 5⟩ else none
  flagsOutstr _ := List.replicate 1024 'z'
  flagsOutstr_length _ := List.length_replicate
  sprintTs := some ⟨"\x7btv_sec=1, tv_nsec=0\x7d".toList, by decide⟩

def twoReadyText : List Char :=
  ("[\x7bfd=5, revents=POLLIN\x7d, \x7bfd=7, revents=POLLIN|POLLOUT\x7d, 0x1018], " ++
    "left \x7btv_sec=1, tv_nsec=0\x7d").toList

theorem decode_poll_exiting_shows_two :
    twoReady.decodePollExiting (List.replicate 1024 'z') = some (.auxstr twoReadyText) ∧
      Shows twoReady twoReadyText := by
  have text : twoReady.decodePollExiting (List.replicate 1024 'z') =
      some (.auxstr twoReadyText) := by
    decide +kernel
  have addresses : ∀ e ∈ twoReady.entries, e.1.toNat < 2 ^ (8 * twoReady.sizeofLong) :=
    fun e _ => e.1.toNat_lt
  obtain ⟨text', same, shows⟩ :=
    decode_poll_exiting_shows twoReady _ List.length_replicate (by decide) addresses
  rw [text] at same
  split at same
  · cases same
  · cases same
    exact ⟨text, shows⟩

end Strace.Poll
