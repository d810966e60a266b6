import Mathlib.Data.List.Sort
import Strace.Decode.NextSetBit
import Strace.Xlat.Flags

/-! `decode_bitset` of `evdev.c`: the bits of a bitmap that an ioctl has returned. -/
namespace Strace.Bitset
open List Option

inductive Event where
  | printaddr
  | bitsetBegin
  | bitsetNext
  | bitsetEnd
  | printxval (bit : Nat)
  | moreDataFollows
  | commentBegin
  | commentEnd
  /-- the words of the bitmap -/
  | localArray (bytes : List UInt8)

open Event

structure Exit where
  uRval : UInt64
  syserror : Bool
  maxNr : UInt32
  /-- the memory at the address of the bitmap -/
  byte : Nat → UInt8
  /-- whether `umove_or_printaddr` can read so many bytes of it -/
  readable : Nat → Bool
  /-- `abbrev(tcp)` -/
  abbreviated : Bool
  verbosity : Xlat.Verbosity
  wordsize : Nat
  word : wordsize = 4 ∨ wordsize = 8
  littleEndian : Bool

namespace Exit

variable (s : Exit)

def posXorMask : Nat := Strace.posXorMask s.littleEndian s.wordsize

def sizeBits : Nat :=
  if s.uRval.toNat > s.maxNr.toNat / 8 then s.maxNr.toNat else s.uRval.toNat * 8

def size : Nat := ((s.sizeBits + 7) % 2 ^ 32 / 8 + s.wordsize - 1) / s.wordsize * s.wordsize

/-- The bytes of `decoded_arg`. -/
def decodedArg : List UInt8 := (List.range s.size).map s.byte

def nextBit (curBit : Nat) : Option (Option Nat) :=
  (nextSetBit s.decodedArg s.posXorMask curBit s.sizeBits).map fun i => i.filter (· < 2 ^ 31)

theorem nextBit_mem {curBit i : Nat} (found : s.nextBit curBit = some (some i)) :
    curBit ≤ i ∧ i < s.sizeBits := by
  obtain ⟨j, next, int⟩ := map_eq_some_iff.mp found
  obtain ⟨rfl, -⟩ := filter_eq_some_iff.mp int
  exact nextSetBit_mem next

def moreBits (i bitDisplayed : Nat) : Option (List Event) :=
  match _found : s.nextBit (i + 1) with
  | none => none
  | some none => some []
  | some (some i) =>
    if s.abbreviated && bitDisplayed ≥ 3 then some [bitsetNext, moreDataFollows]
    else (moreBits i (bitDisplayed + 1)).map ([bitsetNext, printxval i] ++ ·)
termination_by s.sizeBits - i
decreasing_by
  have := s.nextBit_mem _found
  omega

def bits : Option (List Event) :=
  match s.nextBit 0 with
  | none => none
  | some none => some []
  | some (some i) => (s.moreBits i 0).map (printxval i :: ·)

/-- The names, unless the style is raw. -/
def names : Option (List Event) :=
  if s.verbosity = .raw then some [] else s.bits.map ([bitsetBegin] ++ · ++ [bitsetEnd])

def decodeBitset : Option (List Event) :=
  if s.syserror || s.size = 0 || !s.readable s.size then some [printaddr]
  else
    s.names.map (· ++ (if s.verbosity = .verbose then [commentBegin] else []) ++
      (if s.verbosity = .abbreviated then [] else [localArray s.decodedArg]) ++
      if s.verbosity = .verbose then [commentEnd] else [])

/-! ## The bits that are valid -/

def walked : Nat → UInt8 := walkedBy s.posXorMask s.byte

def returned (bit : Nat) : Bool := bit / 8 ^^^ s.posXorMask < s.uRval.toNat

def valid : List Nat :=
  (List.range (s.maxNr.toNat + 1)).filter fun bit => s.returned bit && bitOf s.walked bit

end Exit

def printedBits (events : List Event) : List Nat :=
  events.filterMap fun | printxval i => some i | _ => none

@[simp] theorem printedBits_nil : printedBits [] = [] := rfl

@[simp] theorem printedBits_cons (e : Event) (events : List Event) :
    printedBits (e :: events) =
      (match e with | printxval i => [i] | _ => []) ++ printedBits events := by
  cases e <;> rfl

@[simp] theorem printedBits_append (events more : List Event) :
    printedBits (events ++ more) = printedBits events ++ printedBits more :=
  filterMap_append ..

/-- Exactly the valid bits are printed. -/
def PrintsValid (s : Exit) : Prop :=
  ∃ events, s.decodeBitset = some events ∧ printedBits events = s.valid

/-! ## The bits that are printed -/

section
variable {s : Exit}

theorem sizeBits_eq : s.sizeBits = min s.maxNr.toNat (8 * s.uRval.toNat) := by
  rw [Exit.sizeBits]
  split <;> omega

variable {curBit : Nat}

theorem nextBit_eq (noWrap : s.sizeBits + 7 < 2 ^ 32) :
    s.nextBit curBit = some ((bitsFrom s.walked curBit s.sizeBits).head?.filter (· < 2 ^ 31)) := by
  have next : nextSetBit s.decodedArg s.posXorMask curBit s.sizeBits =
      some (bitsFrom s.walked curBit s.sizeBits).head? :=
    nextSetBit_words s.word s.littleEndian s.byte curBit
      (by rw [Exit.size, Nat.mod_eq_of_lt noWrap])
  rw [Exit.nextBit, next, map_some]

/-- The bits that an `int` can hold. -/
def intBits (s : Exit) (curBit : Nat) : List Nat :=
  (bitsFrom s.walked curBit s.sizeBits).filter (· < 2 ^ 31)

section
variable (noWrap : s.sizeBits + 7 < 2 ^ 32)
include noWrap

theorem intBits_none (last : s.nextBit curBit = some none) :
    intBits s curBit = [] := by
  rw [nextBit_eq noWrap, Option.some.injEq, filter_eq_none_iff] at last
  cases head : (bitsFrom s.walked curBit s.sizeBits).head? with
  | none => rw [intBits, head?_eq_none_iff.mp head, filter_nil]
  | some i =>
    -- All bits behind one that no `int` holds are as large.
    have large := last i head
    rw [intBits, bitsFrom_of_head head, filter_eq_nil_iff]
    intro j mem
    rcases mem_cons.mp mem with rfl | later
    · exact large
    · have behind := (mem_bitsFrom.mp later).1
      simp only [decide_eq_true_eq] at large ⊢
      omega

theorem intBits_some {i : Nat}
    (found : s.nextBit curBit = some (some i)) : intBits s curBit = i :: intBits s (i + 1) := by
  rw [nextBit_eq noWrap, Option.some.injEq, filter_eq_some_iff] at found
  rw [intBits, bitsFrom_of_head found.1, filter_cons, if_pos found.2]
  rfl

theorem moreBits_eq (all : s.abbreviated = false)
    (i bitDisplayed : Nat) :
    ∃ events, s.moreBits i bitDisplayed = some events ∧
      printedBits events = intBits s (i + 1) := by
  fun_induction Exit.moreBits s i bitDisplayed with
  | case1 i bitDisplayed outside =>
    grind [nextBit_eq]
  | case2 i bitDisplayed last => exact ⟨[], rfl, (intBits_none noWrap last).symm⟩
  | case3 i bitDisplayed next found short => simp [all] at short
  | case4 i bitDisplayed next found long ih =>
    obtain ⟨events, rest, printed⟩ := ih
    exact ⟨_, by rw [rest, map_some], by simp [printed, intBits_some noWrap found]⟩

theorem bits_eq (all : s.abbreviated = false) :
    ∃ events, s.bits = some events ∧ printedBits events = intBits s 0 := by
  unfold Exit.bits
  cases found : s.nextBit 0 with
  | none =>
    grind [nextBit_eq]
  | some next =>
    cases next with
    | none => exact ⟨[], rfl, (intBits_none noWrap found).symm⟩
    | some i =>
      obtain ⟨events, rest, printed⟩ := moreBits_eq noWrap all i 0
      exact ⟨printxval i :: events, by dsimp only; rw [rest, map_some],
        by simp [printed, intBits_some noWrap found]⟩

end

def Fetched (s : Exit) : Prop :=
  min s.maxNr.toNat (8 * s.uRval.toNat) + 7 < 2 ^ 32 ∧ s.readable s.size

theorem size_eq_zero (wraps : 2 ^ 32 ≤ s.sizeBits + 7) : s.size = 0 := by
  have small : s.sizeBits < 2 ^ 32 := by
    rw [sizeBits_eq]
    exact Nat.lt_of_le_of_lt (Nat.min_le_left ..) s.maxNr.toNat_lt
  rcases s.word with word | word <;>
  · rw [Exit.size, word]
    omega

theorem intBits_eq_nil (empty : s.size = 0) (noWrap : s.sizeBits + 7 < 2 ^ 32) :
    intBits s 0 = [] := by
  have zero : s.sizeBits = 0 := by
    rw [Exit.size] at empty
    rcases s.word with word | word <;>
    · rw [word] at empty
      omega
  rw [intBits, bitsFrom_end (by omega), filter_nil]

theorem decodeBitset_eq (ok : s.syserror = false) (all : s.abbreviated = false)
    (named : s.verbosity ≠ .raw) :
    ∃ events, s.decodeBitset = some events ∧ (Fetched s → printedBits events = intBits s 0) ∧
      (¬ Fetched s → printedBits events = []) := by
  unfold Exit.decodeBitset Fetched
  rw [← sizeBits_eq]
  by_cases wraps : 2 ^ 32 ≤ s.sizeBits + 7
  · refine ⟨[printaddr], by simp [size_eq_zero wraps], ?_, fun _ => rfl⟩
    omega
  have noWrap := Nat.lt_of_not_le wraps
  by_cases empty : s.size = 0
  · exact ⟨[printaddr], by simp [empty], fun _ => (intBits_eq_nil empty noWrap).symm, fun _ => rfl⟩
  by_cases readable : s.readable s.size = true
  · obtain ⟨events, bits, printed⟩ := bits_eq noWrap all
    rw [Exit.names, if_neg named, bits]
    refine ⟨_, by simp only [ok, empty, readable]; rfl, fun _ => ?_, ?_⟩
    · rw [← printed]
      by_cases verbose : s.verbosity = .verbose <;>
        by_cases short : s.verbosity = .abbreviated <;> simp [verbose, short]
    · exact fun unread => absurd ⟨noWrap, readable⟩ unread
  · simp [readable]

end

/-! ## When the valid bits are printed -/

structure Printable (s : Exit) : Prop where
  found : ∀ bit ∈ s.valid,
    bit ≠ s.maxNr.toNat ∧ bit < 8 * s.uRval.toNat ∧ bit < 2 ^ 31 ∧ Fetched s
  returned : Fetched s → ∀ bit < 2 ^ 31, bit < s.maxNr.toNat → bit < 8 * s.uRval.toNat →
    bitOf s.walked bit = true → s.returned bit = true

variable {s : Exit} {bit : Nat}

theorem returned_iff (whole : s.littleEndian = true ∨ s.wordsize ∣ s.uRval.toNat) (bit : Nat) :
    s.returned bit = true ↔ bit < 8 * s.uRval.toNat := by
  have block : (bit / 8 ^^^ s.posXorMask) / s.wordsize = bit / 8 / s.wordsize :=
    xor_wordMask_div s.word s.littleEndian (bit / 8)
  rw [Exit.returned, decide_eq_true_eq]
  rcases whole with little | ⟨words, count⟩
  · grind [Exit.posXorMask, Strace.posXorMask]
  · rcases s.word with word | word <;>
    · rw [word] at block count
      omega

theorem mem_valid : bit ∈ s.valid ↔
    bit ≤ s.maxNr.toNat ∧ s.returned bit = true ∧ bitOf s.walked bit = true := by
  rw [Exit.valid, mem_filter, mem_range, Nat.lt_succ_iff, Bool.and_eq_true]

theorem mem_intBits : bit ∈ intBits s 0 ↔
    bit < s.maxNr.toNat ∧ bit < 8 * s.uRval.toNat ∧ bit < 2 ^ 31 ∧
      bitOf s.walked bit = true := by
  rw [intBits, mem_filter, mem_bitsFrom, sizeBits_eq]
  grind

theorem sorted_intBits : (intBits s 0).Pairwise (· < ·) :=
  ((pairwise_lt_range' ..).filter _).filter _

theorem sorted_valid : s.valid.Pairwise (· < ·) := pairwise_lt_range.filter _

/-- The valid bits among the bytes returned are printed if and only if the last valid number is
not one of them, and the decoder can read the bytes where they are. -/
theorem decode_bitset_prints_valid_iff (s : Exit) (ok : s.syserror = false)
    (all : s.abbreviated = false) (named : s.verbosity ≠ .raw) :
    PrintsValid s ↔ Printable s := by
  obtain ⟨events, decoded, printed, unread⟩ := decodeBitset_eq ok all named
  have prints : PrintsValid s ↔ printedBits events = s.valid := by
    constructor
    · rintro ⟨events', decoded', same⟩
      rw [decoded, Option.some.injEq] at decoded'
      exact decoded' ▸ same
    · exact fun same => ⟨events, decoded, same⟩
  rw [prints]
  by_cases fetched : Fetched s
  · rw [printed fetched]
    constructor
    · intro same
      constructor
      · intro bit mem
        rw [← same] at mem
        have small := mem_intBits.mp mem
        exact ⟨Nat.ne_of_lt small.1, small.2.1, small.2.2.1, fetched⟩
      · intro _ bit int before inside set
        have mem := mem_intBits.mpr ⟨before, inside, int, set⟩
        rw [same] at mem
        exact (mem_valid.mp mem).2.1
    · rintro ⟨found, returned⟩
      refine sorted_intBits.eq_of_mem_iff sorted_valid fun bit => ?_
      constructor
      · intro mem
        obtain ⟨before, inside, int, set⟩ := mem_intBits.mp mem
        exact mem_valid.mpr
          ⟨Nat.le_of_lt before, returned fetched bit int before inside set, set⟩
      · intro mem
        obtain ⟨last, inside, int, -⟩ := found bit mem
        obtain ⟨le, -, set⟩ := mem_valid.mp mem
        exact mem_intBits.mpr ⟨Nat.lt_of_le_of_ne le last, inside, int, set⟩
  · rw [unread fetched]
    constructor
    · intro empty
      refine ⟨fun bit mem => ?_, fun read => absurd read fetched⟩
      rw [← empty] at mem
      cases mem
    · rintro ⟨found, -⟩
      symm
      rw [List.eq_nil_iff_forall_not_mem]
      intro bit mem
      exact fetched (found bit mem).2.2.2

theorem wordsize_eight : 8 = 4 ∨ 8 = 8 := .inr rfl

def repeatBits (first : UInt8) : Exit where
  uRval := 8
  syserror := false
  maxNr := 1
  byte pos := if pos = 0 then first else 0
  readable _ := true
  abbreviated := false
  verbosity := .abbreviated
  wordsize := 8
  word := wordsize_eight
  littleEndian := true

theorem fetched_repeatBits (first : UInt8) : Fetched (repeatBits first) :=
  ⟨by simp [repeatBits], rfl⟩

/-- A device with `REP_DELAY` alone. -/
theorem decode_bitset_prints_valid_delay : PrintsValid (repeatBits 1) := by
  refine (decode_bitset_prints_valid_iff (repeatBits 1) rfl rfl (by decide)).mpr ⟨?_, ?_⟩
  · intro bit mem
    have delay : (repeatBits 1).valid = [0] := by decide
    rw [delay, List.mem_singleton] at mem
    subst mem
    exact ⟨by decide, by decide, by decide, fetched_repeatBits 1⟩
  · intro _ bit _ _ inside _
    exact (returned_iff (.inl rfl) bit).mpr inside

/-- A device with `REP_DELAY` and `REP_PERIOD`: the second is `REP_MAX`. -/
theorem decode_bitset_misses_period :
    (repeatBits 3).valid = [0, 1] ∧
      ∃ events, (repeatBits 3).decodeBitset = some events ∧ printedBits events = [0] := by
  refine ⟨by decide, ?_⟩
  obtain ⟨events, decoded, printed, -⟩ :=
    decodeBitset_eq (s := repeatBits 3) rfl rfl (by decide)
  refine ⟨events, decoded, (printed (fetched_repeatBits 3)).trans ?_⟩
  decide

end Strace.Bitset
