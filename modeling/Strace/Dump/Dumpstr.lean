import Strace.Buffers
import Strace.Common
import Strace.Output.StringQuote

/-! `dumpstr` of `util.c`: the bytes of a range of memory, sixteen in a line. -/
namespace Strace.Dumpstr
open List Option

open Buffers
open Escapes (ch)

def text (s : String) : List UInt8 := s.toList.map ch

/-! ## `ilog2` -/

/-- `SIZEOF_KERNEL_LONG_T` -/
inductive KernelLong where
  | four
  | eight
  deriving DecidableEq

def KernelLong.bits : KernelLong → Nat
  | four => 32
  | eight => 64

def ilog2Klong : KernelLong → Nat → Nat
  | .four => ilog2_32
  | .eight => ilog2_64

/-! ## The loops -/

structure Tracee where
  byte : Nat → UInt8
  readable : Nat → Bool
  /-- how many bytes `umoven` has stored when it fails -/
  stored : (addr len : Nat) → Nat
  pid : Nat
  /-- what is in the memory that `malloc` gives for a size -/
  malloc : Nat → Option (Nat → UInt8)

namespace Tracee

variable (t : Tracee)

def bytes (addr len : Nat) : List UInt8 := (List.range len).map fun j => t.byte (addr + j)

def umoven (addr len : Nat) : List UInt8 × Bool :=
  if (List.range len).all fun j => t.readable (addr + j) then (t.bytes addr len, true)
  else ((t.bytes addr len).take (t.stored addr len), false)

end Tracee

structure Static where
  str : List UInt8 := []
  outbuf : List UInt8 := List.replicate 66 (ch ' ') ++ [0]
  deriving DecidableEq

def putHex (len : Nat) (str : List UInt8) (i src : Nat) (dst : Buffer UInt8) :
    Option (Buffer UInt8) :=
  if i < len then str[src]?.bind fun c => dst.puts (sprintByteHex c)
  else dst.puts [ch ' ', ch ' ']

/-- One more space after a group of eight. -/
def skipGroup (i : Nat) (dst : Buffer UInt8) : Option (Buffer UInt8) :=
  if i &&& 7 = 0 then dst.skip else some dst

theorem and_groupMask (i : Nat) : i &&& 7 = i % 8 := Nat.and_two_pow_sub_one_eq_mod i 3

theorem and_bytesMask (i : Nat) : i &&& 15 = i % 16 := Nat.and_two_pow_sub_one_eq_mod i 4

def hexDump (len : Nat) (str : List UInt8) (i src : Nat) (dst : Buffer UInt8) :
    Option (Nat × Nat × Buffer UInt8) :=
  match ((putHex len str i src dst).bind Buffer.skip).bind (skipGroup (i + 1)) with
  | none => none
  | some dst =>
    if i + 1 &&& 15 ≠ 0 then hexDump len str (i + 1) (src + 1) dst
    else some (i + 1, src + 1, dst)
termination_by 16 - i % 16
decreasing_by
  have := and_bytesMask (i + 1)
  omega

def asciiChar (c : UInt8) : UInt8 := if isPrint c then c else ch '.'

def putAscii (len : Nat) (str : List UInt8) (i src : Nat) (dst : Buffer UInt8) :
    Option (Buffer UInt8) :=
  if i < len then str[src]?.bind fun c => dst.put (asciiChar c) else dst.put (ch ' ')

def asciiDump (len : Nat) (str : List UInt8) (i src : Nat) (dst : Buffer UInt8) :
    Option (Nat × Nat × Buffer UInt8) :=
  match putAscii len str i src dst with
  | none => none
  | some dst =>
    if i + 1 &&& 15 ≠ 0 then asciiDump len str (i + 1) (src + 1) dst
    else some (i + 1, src + 1, dst)
termination_by 16 - i % 16
decreasing_by
  have := and_bytesMask (i + 1)
  omega

def dumpLine (len i src : Nat) (s : Static) : Option (Nat × Nat × Static) :=
  match hexDump len s.str i src ⟨[], s.outbuf⟩ with
  | none => none
  | some (i, src, dst) =>
    if src < 16 then none
    else
      (asciiDump len s.str (i - 16) (src - 16) dst).map fun (i, src, dst) =>
        (i, src, { s with outbuf := dst.cells })

/-- `%0*lx` -/
def padded (width n : Nat) : List UInt8 :=
  let digits := (Nat.toDigits 16 n).map ch
  List.replicate (width - digits.length) (ch '0') ++ digits

/-- `" | %0*lx  %s |\n"` -/
def printLine (offsChars offset : Nat) (outbuf : List UInt8) : List UInt8 :=
  text " | " ++ padded offsChars offset ++ text "  " ++ outbuf.takeWhile (· ≠ 0) ++ text " |\n"

def cannotFetch (t : Tracee) (addr fetchSize : Nat) : List UInt8 :=
  text " | <Cannot fetch " ++ (Nat.toDigits 10 fetchSize).map ch ++
    text (if fetchSize = 1 then " byte" else " bytes") ++ text " from pid " ++
    (Nat.toDigits 10 t.pid).map ch ++ text " @0x" ++ (Nat.toDigits 16 addr).map ch ++ text ">\n"

def fetch (t : Tracee) (addr fetchSize i src : Nat) (s : Static) : Option (Static × Option Nat) :=
  if i = 0 ∨ i % 65536 = 0 then
    if fetchSize ≤ s.str.length then
      let (bytes, all) := t.umoven addr fetchSize
      some ({ s with str := bytes ++ s.str.drop bytes.length }, if all then some 0 else none)
    else none
  else some (s, some src)

section

variable (t : Tracee) (addr len allocSize offsChars : Nat)

def dumpLoop : (fuel i src : Nat) → Static → Option (Static × List UInt8)
  | 0, _, _, _ => none
  | fuel + 1, i, src, s =>
    if i < len then
      match fetch t (addr + i) (min (len - i) allocSize) i src s with
      | none => none
      | some (s, none) =>
        some (s, if i = 0 then [] else cannotFetch t (addr + i) (min (len - i) allocSize))
      | some (s, some src) =>
        match dumpLine len i src s with
        | none => none
        | some (i, src, s) =>
          (dumpLoop fuel i src s).map fun (s', printed) =>
            (s', printLine offsChars (i - 16) s.outbuf ++ printed)
    else some (s, [])

end

def reserve (t : Tracee) (allocSize : Nat) (s : Static) : Option Static :=
  if s.str.length < allocSize then
    (t.malloc allocSize).map fun cells => { s with str := (List.range allocSize).map cells }
  else some s

variable (k : KernelLong)

def tooBig (addr len : Nat) : Bool :=
  decide ((len + 16) % 2 ^ k.bits < len ∨ (addr + len) % 2 ^ k.bits < addr)

def allocSize (len : Nat) : Nat := min ((len + 16 - 1) / 16 * 16) 65536

def offsChars (len : Nat) : Nat :=
  if len > 1048576 then 1 + ilog2Klong k (len - 1) / 4 else 5

def dumpstr (t : Tracee) (addr len : Nat) (s : Static) :
    Option (Static × List UInt8) :=
  if tooBig k addr len then some (s, [])
  else
    match reserve t (allocSize len) s with
    | none => some ({ s with str := [] }, [])
    | some s => dumpLoop t addr len (allocSize len) (offsChars k len) (len + 1) 0 0 s

/-! ## What a line shows -/

def columns (cell : Nat → UInt8 × UInt8) (i count : Nat) : List UInt8 :=
  (List.range' i count).flatMap fun i =>
    [(cell i).1, (cell i).2, ch ' '] ++ if (i + 1) % 8 = 0 then [ch ' '] else []

theorem columns_succ (cell : Nat → UInt8 × UInt8) (i count : Nat) :
    columns cell i (count + 1) =
      [(cell i).1, (cell i).2, ch ' '] ++ (if (i + 1) % 8 = 0 then [ch ' '] else []) ++
        columns cell (i + 1) count := by
  rfl

theorem columns_shift (cell : Nat → UInt8 × UInt8) (n i count : Nat) :
    columns cell (16 * n + i) count = columns (fun j => cell (16 * n + j)) i count := by
  induction count generalizing i with
  | zero => rfl
  | succ count ih =>
    have group : (16 * n + i + 1) % 8 = (i + 1) % 8 := by omega
    rw [columns_succ, columns_succ, group, Nat.add_assoc (16 * n), ih]

/-- The hexadecimal digits of a byte. -/
def hexCell (c : UInt8) : UInt8 × UInt8 :=
  (ch (Nat.digitChar (c.toNat / 16)), ch (Nat.digitChar (c.toNat % 16)))

theorem sprintByteHex_eq (c : UInt8) : sprintByteHex c = [(hexCell c).1, (hexCell c).2] := by
  have digit : ∀ n < 16, hexChars.getD n 0 = ch (Nat.digitChar n) := by decide
  have bound := c.toNat_lt
  have high : (c >>> 4).toNat = c.toNat / 16 := by
    exact Nat.shiftRight_eq_div_pow c.toNat 4
  have low : (c &&& 0xf).toNat = c.toNat % 16 := by
    exact and_bytesMask c.toNat
  rw [sprintByteHex, high, low, digit _ (by omega), digit _ (by omega)]
  rfl

section

variable (byte : Nat → UInt8) (len : Nat)

/-- The two columns of byte `i`. -/
def shownHex (i : Nat) : UInt8 × UInt8 :=
  if i < len then hexCell (byte i) else (ch ' ', ch ' ')

def shownAscii (i : Nat) : UInt8 := if i < len then asciiChar (byte i) else ch ' '

variable {byte len} {str : List UInt8} {i src : Nat} {dst : Buffer UInt8}

def Held (byte : Nat → UInt8) (len : Nat) (str : List UInt8) (i src count : Nat) : Prop :=
  ∀ j < count, i + j < len → str[src + j]? = some (byte (i + j))

variable {count : Nat}

theorem Held.head (held : Held byte len str i src (count + 1)) (inside : i < len) :
    str[src]? = some (byte i) :=
  held 0 (Nat.succ_pos count) inside

theorem Held.tail (held : Held byte len str i src (count + 1)) :
    Held byte len str (i + 1) (src + 1) count := by
  intro j less inside
  have here := held (1 + j) (by omega)
  rw [← Nat.add_assoc, ← Nat.add_assoc] at here
  exact here inside

section
variable (held : i < len → str[src]? = some (byte i))
include held

theorem putHex_eq :
    putHex len str i src dst = dst.puts [(shownHex byte len i).1, (shownHex byte len i).2] := by
  unfold putHex shownHex
  split
  · next inside => rw [held inside, bind_some, sprintByteHex_eq]
  · rfl

theorem putAscii_eq :
    putAscii len str i src dst = dst.put (shownAscii byte len i) := by
  unfold putAscii shownAscii
  split
  · next inside => rw [held inside, bind_some]
  · rfl

theorem hexDump_byte (old : Nat → UInt8 × UInt8)
    (before rest : List UInt8) :
    ((putHex len str i src ⟨before, [(old i).1, (old i).2, ch ' '] ++
        (if (i + 1) % 8 = 0 then [ch ' '] else []) ++ rest⟩).bind Buffer.skip).bind
        (skipGroup (i + 1)) =
      some ⟨before ++ ([(shownHex byte len i).1, (shownHex byte len i).2, ch ' '] ++
        if (i + 1) % 8 = 0 then [ch ' '] else []), rest⟩ := by
  have two := Buffer.puts_eq before [(shownHex byte len i).1, (shownHex byte len i).2]
    [(old i).1, (old i).2] (ch ' ' :: ((if (i + 1) % 8 = 0 then [ch ' '] else []) ++ rest)) rfl
  rw [putHex_eq held]
  refine (congrArg (fun b => (Option.bind b Buffer.skip).bind (skipGroup (i + 1))) two).trans ?_
  simp only [bind_some, Buffer.skip, skipGroup, and_groupMask]
  split <;> simp

end

theorem hexDump_eq (nonempty : 0 < count) (few : count ≤ 16) (line : (i + count) % 16 = 0)
    (held : Held byte len str i src count) (old : Nat → UInt8 × UInt8) (before rest : List UInt8) :
    hexDump len str i src ⟨before, columns old i count ++ rest⟩ =
      some (i + count, src + count, ⟨before ++ columns (shownHex byte len) i count, rest⟩) := by
  induction count generalizing i src before with
  | zero => cases nonempty
  | succ count ih =>
    rw [columns_succ, columns_succ, append_assoc, hexDump, hexDump_byte held.head,
      and_bytesMask]
    dsimp only
    rcases Nat.eq_zero_or_pos count with rfl | more
    · rw [if_neg (by omega)]
      simp [columns]
    · rw [if_pos (by omega), ih more (by omega) (by omega) held.tail, Nat.add_assoc i,
        Nat.add_assoc src, Nat.add_comm 1, append_assoc]

theorem asciiDump_eq (nonempty : 0 < count) (few : count ≤ 16) (line : (i + count) % 16 = 0)
    (held : Held byte len str i src count) {old : List UInt8} (length : old.length = count)
    (before rest : List UInt8) :
    asciiDump len str i src ⟨before, old ++ rest⟩ =
      some (i + count, src + count,
        ⟨before ++ (List.range' i count).map (shownAscii byte len), rest⟩) := by
  induction count generalizing i src before old with
  | zero => cases nonempty
  | succ count ih =>
    obtain ⟨first, old, rfl⟩ := exists_cons_of_length_eq_add_one length
    rw [asciiDump, putAscii_eq held.head, and_bytesMask]
    dsimp only [Buffer.put, cons_append]
    rcases Nat.eq_zero_or_pos count with rfl | more
    · grind
    · rw [if_pos (by omega), ih more (by omega) (by omega) held.tail (Nat.succ.inj length),
        Nat.add_assoc i, Nat.add_assoc src, Nat.add_comm 1, range'_succ, map_cons,
        append_assoc, singleton_append]

def Shaped (outbuf : List UInt8) : Prop :=
  ∃ (cell : Nat → UInt8 × UInt8) (ascii : List UInt8), ascii.length = 16 ∧
    outbuf = columns cell 0 16 ++ ascii ++ [0]

theorem shaped_start : Shaped ({} : Static).outbuf :=
  ⟨fun _ => (ch ' ', ch ' '), List.replicate 16 (ch ' '), rfl, rfl⟩

theorem Shaped.at {outbuf : List UInt8} (shaped : Shaped outbuf) (n : Nat) :
    ∃ (cell : Nat → UInt8 × UInt8) (ascii : List UInt8), ascii.length = 16 ∧
      outbuf = columns cell (16 * n) 16 ++ ascii ++ [0] := by
  obtain ⟨cell, ascii, length, rfl⟩ := shaped
  refine ⟨fun i => cell (i - 16 * n), ascii, length, ?_⟩
  have shift := columns_shift (fun i => cell (i - 16 * n)) n 0 16
  simp only [Nat.add_zero, Nat.add_sub_cancel_left] at shift
  rw [shift]

variable (byte len)

/-- The columns of line `n`. -/
def lineColumns (n : Nat) : List UInt8 :=
  columns (shownHex byte len) (16 * n) 16 ++ (List.range' (16 * n) 16).map (shownAscii byte len)

theorem shaped_line (n : Nat) : Shaped (lineColumns byte len n ++ [0]) :=
  ⟨_, _, by rw [length_map, length_range'],
    congrArg (· ++ _ ++ [0]) (columns_shift (shownHex byte len) n 0 16)⟩

variable {byte len}

theorem dumpLine_eq {s : Static} (shaped : Shaped s.outbuf) {n : Nat}
    (held : Held byte len s.str (16 * n) src 16) :
    dumpLine len (16 * n) src s =
      some (16 * n + 16, src + 16, { s with outbuf := lineColumns byte len n ++ [0] }) := by
  obtain ⟨old, ascii, length, outbuf⟩ := shaped.at n
  have hex := hexDump_eq (by decide) (Nat.le_refl 16) (by omega) held old [] (ascii ++ [0])
  have second := asciiDump_eq (by decide) (Nat.le_refl 16) (by omega) held length
    ([] ++ columns (shownHex byte len) (16 * n) 16) [0]
  have moved : ¬ src + 16 < 16 := by omega
  rw [← append_assoc, nil_append] at hex
  rw [nil_append] at second
  simp only [dumpLine, outbuf, hex, moved, if_false, Nat.add_sub_cancel, second, map_some,
    Buffer.cells, lineColumns]

theorem columns_ne_zero {cell : Nat → UInt8 × UInt8}
    (nonzero : ∀ i, (cell i).1 ≠ 0 ∧ (cell i).2 ≠ 0) (i count : Nat) :
    ∀ c ∈ columns cell i count, c ≠ 0 := by
  have space : ch ' ' ≠ 0 := by decide
  induction count generalizing i with
  | zero => exact nofun
  | succ count ih =>
    rw [columns_succ]
    simp only [forall_mem_append, forall_mem_cons]
    refine ⟨⟨⟨(nonzero i).1, (nonzero i).2, space, nofun⟩, ?_⟩, ih (i + 1)⟩
    split
    · simpa using space
    · exact nofun

theorem hexCell_ne_zero (c : UInt8) : (hexCell c).1 ≠ 0 ∧ (hexCell c).2 ≠ 0 := by
  have digit : ∀ n < 16, ch (Nat.digitChar n) ≠ 0 := by decide
  have bound := c.toNat_lt
  exact ⟨digit _ (by omega), digit _ (by omega)⟩

theorem asciiChar_ne_zero (c : UInt8) : asciiChar c ≠ 0 := by
  unfold asciiChar
  split
  · next prints =>
    rintro rfl
    exact absurd prints (by decide)
  · decide

theorem lineColumns_ne_zero (n : Nat) : ∀ c ∈ lineColumns byte len n, c ≠ 0 := by
  have space : ch ' ' ≠ 0 := by decide
  rw [lineColumns, forall_mem_append]
  constructor
  · apply columns_ne_zero
    intro i
    unfold shownHex
    split
    · exact hexCell_ne_zero _
    · exact ⟨space, space⟩
  · grind [shownAscii, asciiChar_ne_zero]

/-- What is printed of line `n`. -/
def line (byte : Nat → UInt8) (len offsChars n : Nat) : List UInt8 :=
  text " | " ++ padded offsChars (16 * n) ++ text "  " ++ lineColumns byte len n ++ text " |\n"

theorem printLine_eq (offsChars n : Nat) :
    printLine offsChars (16 * n) (lineColumns byte len n ++ [0]) = line byte len offsChars n := by
  have whole : (lineColumns byte len n ++ [0]).takeWhile (· ≠ 0) = lineColumns byte len n := by
    rw [takeWhile_append_of_pos]
    · simp
    · grind [lineColumns_ne_zero]
  rw [printLine, whole, line]

end

/-! ## The whole dump -/

section

variable {t : Tracee} {addr len : Nat} {byte : Nat → UInt8} {str : List UInt8} {i src : Nat}
  {s : Static}

def Tracee.Readable (t : Tracee) (addr len : Nat) : Prop :=
  ∀ j < len, t.readable (addr + j) = true

/-- The bytes of the range at `addr`. -/
def Tracee.byteFrom (t : Tracee) (addr i : Nat) : UInt8 := t.byte (addr + i)

def Chunk (byte : Nat → UInt8) (len : Nat) (str : List UInt8) (i src : Nat) : Prop :=
  ∀ j, i + j < len → (i + j) / 65536 = i / 65536 → str[src + j]? = some (byte (i + j))

theorem Chunk.held (chunk : Chunk byte len str i src) (aligned : i % 16 = 0) :
    Held byte len str i src 16 :=
  fun j less inside => chunk j inside (by omega)

theorem Chunk.next (chunk : Chunk byte len str i src) (aligned : i % 16 = 0)
    (inner : (i + 16) % 65536 ≠ 0) : Chunk byte len str (i + 16) (src + 16) := by
  intro j inside same
  have here := chunk (16 + j) (by omega) (by omega)
  rw [← Nat.add_assoc, ← Nat.add_assoc] at here
  exact here

theorem length_bytes (t : Tracee) (addr len : Nat) : (t.bytes addr len).length = len := by
  rw [Tracee.bytes, length_map, length_range]

theorem umoven_cases (t : Tracee) (addr len : Nat) :
    t.umoven addr len = (t.bytes addr len, true) ∨
      ¬ t.Readable addr len ∧
        t.umoven addr len = ((t.bytes addr len).take (t.stored addr len), false) := by
  unfold Tracee.umoven
  split
  · exact .inl rfl
  · next unreadable =>
    rw [List.all_eq_true] at unreadable
    exact .inr ⟨fun readable => unreadable fun j mem => readable j (List.mem_range.mp mem), rfl⟩

theorem chunk_bytes (start : i % 65536 = 0) (rest : List UInt8) :
    Chunk (t.byteFrom addr) len
      (t.bytes (addr + i) (min (len - i) (allocSize len)) ++ rest) i 0 := by
  intro j inside same
  have fits : j < min (len - i) (allocSize len) := by
    unfold allocSize
    omega
  rw [Nat.zero_add, getElem?_append_left (by rwa [length_bytes]), Tracee.bytes,
    getElem?_map, getElem?_range fits, map_some, Tracee.byteFrom, Nat.add_assoc]

/-- What fetching data comes to. -/
inductive Fetched (t : Tracee) (addr len i : Nat) (s : Static) :
    Option (Static × Option Nat) → Prop
  | failed (str : List UInt8) : ¬ t.Readable addr len →
      Fetched t addr len i s (some ({ s with str }, none))
  | ready (str : List UInt8) (src : Nat) : str.length = s.str.length →
      Chunk (t.byteFrom addr) len str i src →
      Fetched t addr len i s (some ({ s with str }, some src))

theorem fetch_cases (size : allocSize len ≤ s.str.length)
    (chunk : i % 65536 ≠ 0 → Chunk (t.byteFrom addr) len s.str i src) :
    Fetched t addr len i s (fetch t (addr + i) (min (len - i) (allocSize len)) i src s) := by
  unfold fetch
  by_cases start : i % 65536 = 0
  · rw [if_pos (.inr start), if_pos (Nat.le_trans (Nat.min_le_right ..) size)]
    rcases umoven_cases t (addr + i) (min (len - i) (allocSize len)) with all | ⟨unreadable, part⟩
    · rw [all]
      refine .ready _ 0 ?_ (chunk_bytes start _)
      rw [length_append, length_drop, length_bytes]
      omega
    · rw [part]
      refine .failed _ fun readable => unreadable fun j less => ?_
      rw [Nat.add_assoc]
      exact readable (i + j) (by omega)
  · rw [if_neg (by omega)]
    exact .ready s.str src rfl (chunk start)

def lines (len : Nat) : Nat := (len + 15) / 16

theorem dumpLoop_eq (offsChars n src : Nat) (s : Static) {fuel : Nat} (shaped : Shaped s.outbuf)
    (size : allocSize len ≤ s.str.length)
    (chunk : 16 * n % 65536 ≠ 0 → Chunk (t.byteFrom addr) len s.str (16 * n) src)
    (enough : len - 16 * n < fuel) :
    ∃ s' printed, dumpLoop t addr len (allocSize len) offsChars fuel (16 * n) src s =
        some (s', printed) ∧ Shaped s'.outbuf ∧
      (t.Readable addr len →
        printed =
          (List.range' n (lines len - n)).flatMap (line (t.byteFrom addr) len offsChars)) := by
  induction fuel generalizing n src s with
  | zero => cases enough
  | succ fuel ih =>
    rw [dumpLoop]
    split
    · have fetched := fetch_cases size chunk
      generalize fetch t (addr + 16 * n) (min (len - 16 * n) (allocSize len)) (16 * n) src s =
        result at fetched
      cases fetched with
      | failed str unreadable =>
        exact ⟨_, _, rfl, shaped, fun readable => absurd readable unreadable⟩
      | ready str src same chunk =>
        have aligned : 16 * n % 16 = 0 := by omega
        have made := dumpLine_eq (s := { s with str }) shaped (chunk.held aligned)
        obtain ⟨s', printed, eq, shaped', rest⟩ := ih (n + 1) (src + 16)
          { str, outbuf := lineColumns (t.byteFrom addr) len n ++ [0] }
          (shaped_line _ len n) (same ▸ size) (fun inner => chunk.next aligned inner) (by omega)
        rw [Nat.mul_succ] at eq
        simp only [made, eq]
        refine ⟨s', _, rfl, shaped', fun readable => ?_⟩
        have count : lines len - n = lines len - (n + 1) + 1 := by
          unfold lines
          omega
        rw [Nat.add_sub_cancel, printLine_eq, rest readable, count, range'_succ,
          flatMap_cons]
    · have none : lines len - n = 0 := by
        unfold lines
        omega
      exact ⟨s, [], rfl, shaped, fun _ => by rw [none]; rfl⟩

theorem reserve_eq {s' : Static} {size : Nat} (reserved : reserve t size s = some s') :
    s'.outbuf = s.outbuf ∧ size ≤ s'.str.length := by
  unfold reserve at reserved
  split at reserved
  · obtain ⟨cells, -, rfl⟩ := map_eq_some_iff.mp reserved
    exact ⟨rfl, by simp⟩
  · grind

theorem dumpstr_eq (t : Tracee) (addr len : Nat) (shaped : Shaped s.outbuf) :
    ∃ s' printed, dumpstr k t addr len s = some (s', printed) ∧ Shaped s'.outbuf ∧
      (tooBig k addr len = false → reserve t (allocSize len) s ≠ none → t.Readable addr len →
        printed =
          (List.range (lines len)).flatMap (line (t.byteFrom addr) len (offsChars k len))) := by
  unfold dumpstr
  split
  · next big => exact ⟨_, _, rfl, shaped, fun fits => absurd big (by rw [fits]; decide)⟩
  · split
    · next exhausted => exact ⟨_, _, rfl, shaped, fun _ reserved => absurd exhausted reserved⟩
    · next s₁ reserved =>
      obtain ⟨same, large⟩ := reserve_eq reserved
      obtain ⟨s', printed, eq, shaped', all⟩ := dumpLoop_eq (offsChars k len) 0 0 s₁
        (same ▸ shaped) large (fun inner => absurd rfl inner) (Nat.lt_succ_self len)
      refine ⟨s', printed, eq, shaped', fun _ _ readable => ?_⟩
      rw [all readable, range_eq_range']
      rfl

end

/-! ## The width of a line -/

variable {val n : Nat} {k : KernelLong}

theorem ilog2Klong_eq (small : val < 2 ^ k.bits) : ilog2Klong k val = Nat.log 2 val := by
  cases k with
  | four => exact ilog2_32_eq small
  | eight => exact ilog2_64_eq small

theorem length_offset_le {len : Nat} (small : len < 2 ^ k.bits) (inside : 16 * n < len) :
    (Nat.toDigits 16 (16 * n)).length ≤ offsChars k len := by
  unfold offsChars
  split
  · have hex := Nat.log_pow_left 2 4 (len - 1)
    rw [ilog2Klong_eq (by omega), Nat.length_toDigits_le_iff (by decide) (by omega), ← hex,
      Nat.add_comm 1]
    calc 16 * n ≤ len - 1 := by omega
      _ < 16 ^ (Nat.log 16 (len - 1) + 1) := Nat.lt_pow_succ_log_self (by decide) (len - 1)
  · rw [Nat.length_toDigits_le_iff (by decide) (by decide)]
    omega

theorem length_line (byte : Nat → UInt8) (len : Nat) {offsChars : Nat}
    (fits : (Nat.toDigits 16 (16 * n)).length ≤ offsChars) :
    (line byte len offsChars n).length = offsChars + 74 := by
  have hex : (columns (shownHex byte len) (16 * n) 16).length = 50 :=
    (congrArg List.length (columns_shift (shownHex byte len) n 0 16)).trans rfl
  have offset : (padded offsChars (16 * n)).length = offsChars := by
    grind [padded]
  have bar : (text " | ").length = 3 := rfl
  have gap : (text "  ").length = 2 := rfl
  have last : (text " |\n").length = 3 := rfl
  rw [line, lineColumns]
  simp only [length_append, length_map, length_range']
  omega

/-! ## Sequences of calls -/

structure Call (k : KernelLong) where
  tracee : Tracee
  addr : Nat
  len : Nat
  addr_lt : addr < 2 ^ k.bits
  len_lt : len < 2 ^ k.bits

namespace Call

variable {k : KernelLong} (c : Call k)

def dumpstr (s : Static) : Option (Static × List UInt8) :=
  Dumpstr.dumpstr k c.tracee c.addr c.len s

def Skips (s : Static) : Prop :=
  tooBig k c.addr c.len = true ∨ reserve c.tracee (allocSize c.len) s = none

/-- Line `n` of the dump. -/
def line (n : Nat) : List UInt8 :=
  Dumpstr.line (c.tracee.byteFrom c.addr) c.len (offsChars k c.len) n

end Call

def run {k : KernelLong} (calls : List (Call k)) : Option Static :=
  calls.foldlM (fun s c => (c.dumpstr s).map Prod.fst) {}

theorem run_shaped (calls : List (Call k)) {s : Static} (shaped : Shaped s.outbuf) :
    ∃ s', calls.foldlM (fun s c => (c.dumpstr s).map Prod.fst) s = some s' ∧ Shaped s'.outbuf := by
  induction calls generalizing s with
  | nil => exact ⟨s, rfl, shaped⟩
  | cons c rest ih =>
    obtain ⟨s₁, printed, eq, next, -⟩ := dumpstr_eq k c.tracee c.addr c.len shaped
    obtain ⟨s', later, last⟩ := ih next
    have first : c.dumpstr s = some (s₁, printed) := eq
    rw [foldlM_cons, first]
    exact ⟨s', later, last⟩

/-- After any sequence of calls, a call accesses nothing outside `str` and `outbuf`; unless
it is skipped it prints the lines of a range that can be read, which all have the same
length, with offsets that have room in their field. -/
theorem dumpstr_prints_lines (k : KernelLong) (calls : List (Call k)) :
    ∃ s, run calls = some s ∧ ∀ c : Call k, ∃ s' printed, c.dumpstr s = some (s', printed) ∧
      (¬ c.Skips s → c.tracee.Readable c.addr c.len →
        printed = (List.range ((c.len + 15) / 16)).flatMap c.line ∧
        ∀ n < (c.len + 15) / 16, (c.line n).length = offsChars k c.len + 74 ∧
          (Nat.toDigits 16 (16 * n)).length ≤ offsChars k c.len) := by
  obtain ⟨s, ran, shaped⟩ := run_shaped calls shaped_start
  refine ⟨s, ran, fun c => ?_⟩
  obtain ⟨s', printed, eq, -, shows⟩ := dumpstr_eq k c.tracee c.addr c.len shaped
  refine ⟨s', printed, eq, fun dumped readable => ?_⟩
  obtain ⟨fits, reserved⟩ := not_or.mp dumped
  refine ⟨shows (Bool.eq_false_iff.mpr fits) reserved readable, fun n inside => ?_⟩
  have digits := length_offset_le c.len_lt (n := n) (by omega)
  exact ⟨length_line _ _ digits, digits⟩

/-- Twenty bytes from the space on. -/
def twenty : Call .eight where
  tracee := {
    byte := fun addr => UInt8.ofNat (addr - 0x1000 + 0x70)
    readable := fun _ => true
    stored := fun _ _ => 0
    pid := 1
    malloc := fun _ => some fun _ => 0 }
  addr := 0x1000
  len := 20
  addr_lt := by decide
  len_lt := by decide

theorem dumpstr_prints_twenty :
    ∃ s s', run [twenty] = some s ∧ twenty.dumpstr s = some (s',
    text " | 00000  70 71 72 73 74 75 76 77  78 79 7a 7b 7c 7d 7e 7f  pqrstuvwxyz\x7b|\x7d~. |\n" ++
    text " | 00010  80 81 82 83                                       ....             |\n") := by
  obtain ⟨s, ran, calls⟩ := dumpstr_prints_lines .eight [twenty]
  obtain ⟨s', printed, eq, shows⟩ := calls twenty
  have dumped : ¬ twenty.Skips s := by
    rintro (big | exhausted)
    · exact absurd big (by decide)
    · unfold reserve at exhausted
      split at exhausted <;> cases exhausted
  have lines := (shows dumped fun _ _ => rfl).1
  refine ⟨s, s', ran, eq.trans (congrArg (fun printed => some (s', printed)) (lines.trans ?_))⟩
  decide +kernel

end Strace.Dumpstr
