import Strace.Loops
import Strace.Words

/-! `decode_msg_control`: the ancillary data of a message. -/
namespace Strace.Decode
open List

open Loops Words

/-- What strace and the tracee are built for. -/
inductive Abi where
  /-- Both for 64 bits. -/
  | lp64
  /-- A tracee of 32 bits under a strace of 64. -/
  | compat
  /-- Both for 32 bits. -/
  | ilp32
  deriving DecidableEq, Repr

namespace Abi

def currentWordsize : Abi → Nat
  | lp64 => 8
  | compat | ilp32 => 4

/-- The width of `kernel_ulong_t`. -/
def bits : Abi → Nat
  | lp64 | compat => 64
  | ilp32 => 32

def cmsgSize (abi : Abi) : Nat := abi.currentWordsize + 8

end Abi

/-- The fetched buffer. -/
structure Control where
  abi : Abi
  bigEndian : Bool
  buf : List UInt8
  deriving DecidableEq, Repr

namespace Control

variable (c : Control)

def field (off size : Nat) : Nat :=
  fromBytes c.bigEndian ((c.buf.drop off).take size)

def cmsgLen (off : Nat) : Nat := c.field off c.abi.currentWordsize

def cmsgLevel (off : Nat) : Nat := c.field (off + c.abi.currentWordsize) 4

def cmsgType (off : Nat) : Nat := c.field (off + c.abi.currentWordsize + 4) 4

end Control

structure Cmsg where
  offset : Nat
  cmsgLen : Nat
  cmsgLevel : Nat
  cmsgType : Nat
  cmsgData : Nat
  dataLen : Nat
  deriving DecidableEq, Repr

structure Cursor where
  ptr : Nat
  bufLen : Nat
  printed : List Cmsg
  deriving DecidableEq, Repr

def Control.cmsgAt (c : Control) (s : Cursor) : Cmsg :=
  let len := min (c.cmsgLen s.ptr) s.bufLen
  { offset := s.ptr
    cmsgLen := c.cmsgLen s.ptr
    cmsgLevel := c.cmsgLevel s.ptr
    cmsgType := c.cmsgType s.ptr
    cmsgData := s.ptr + c.abi.cmsgSize
    dataLen := len - c.abi.cmsgSize }

/-- One round of the loop. -/
def Control.body (c : Control) (s : Cursor) : Cursor ⊕ Cursor :=
  if s.bufLen < c.abi.cmsgSize then .inr s
  else
    let printed := s.printed ++ [c.cmsgAt s]
    if min (c.cmsgLen s.ptr) s.bufLen < c.abi.cmsgSize then
      .inr { s with bufLen := s.bufLen - c.abi.cmsgSize, printed := printed }
    else
      let len := align c.abi.bits c.abi.currentWordsize (c.cmsgLen s.ptr)
      if s.bufLen ≤ len then .inr { s with bufLen := 0, printed := printed }
      else .inl { ptr := s.ptr + len, bufLen := s.bufLen - len, printed := printed }

/-- What is printed of `msg_control`. -/
inductive Printed where
  | nothing
  | address
  /-- The headers, how many bytes follow them, and whether more were not fetched. -/
  | headers (printed : List Cmsg) (bufLen : Nat) (truncated : Bool)
  deriving DecidableEq, Repr

abbrev Fetch := (len : Nat) → Option { buf : List UInt8 // buf.length = len }

def decodeMsgControl (abi : Abi) (bigEndian : Bool) (getOptmemMax : UInt32) (fetch : Fetch)
    (inControlLen fuel : Nat) : Option Printed :=
  if inControlLen = 0 then some .nothing
  else
    let controlLen := min inControlLen getOptmemMax.toNat
    if controlLen < abi.cmsgSize then some .address
    else
      match fetch controlLen with
      | none => some .address
      | some buf =>
        let c : Control := { abi := abi, bigEndian := bigEndian, buf := buf.val }
        (iterate c.body fuel { ptr := 0, bufLen := controlLen, printed := [] }).map fun s =>
          .headers s.printed s.bufLen (decide (controlLen < inControlLen))

/-! ## Headers -/

namespace Control

variable {c : Control}

theorem currentWordsize_pos (abi : Abi) : 0 < abi.currentWordsize := by
  cases abi <;> decide

theorem currentWordsize_le (abi : Abi) : abi.currentWordsize ≤ 2 ^ abi.bits := by
  cases abi <;> decide

theorem cmsgLen_lt (c : Control) (off : Nat) : c.cmsgLen off < 2 ^ c.abi.bits := by
  have lt : c.cmsgLen off < 256 ^ c.abi.currentWordsize :=
    fromBytes_lt (length_take_le ..) c.bigEndian
  apply Nat.lt_of_lt_of_le lt
  cases c.abi <;> decide

inductive Header (c : Control) : Nat → Prop
  | first : c.abi.cmsgSize ≤ c.buf.length → Header c 0
  | next {off : Nat} : Header c off → c.abi.cmsgSize ≤ c.cmsgLen off →
    off + (c.cmsgLen off + c.abi.currentWordsize - 1) / c.abi.currentWordsize *
      c.abi.currentWordsize +
        c.abi.cmsgSize ≤ c.buf.length →
    Header c (off +
      (c.cmsgLen off + c.abi.currentWordsize - 1) / c.abi.currentWordsize * c.abi.currentWordsize)

/-- The length of a header can be aligned. -/
def Alignable (c : Control) (off : Nat) : Prop :=
  c.cmsgLen off + c.abi.currentWordsize ≤ 2 ^ c.abi.bits

structure Sound (c : Control) (printed : List Cmsg) : Prop where
  increasing : printed.Pairwise fun cmsg later => cmsg.offset < later.offset
  header : ∀ cmsg ∈ printed, cmsg.offset + c.abi.cmsgSize ≤ c.buf.length
  data : ∀ cmsg ∈ printed, cmsg.cmsgData + cmsg.dataLen ≤ c.buf.length

structure Inside (c : Control) (s : Cursor) : Prop where
  total : s.ptr + s.bufLen = c.buf.length
  sound : c.Sound s.printed
  before : ∀ cmsg ∈ s.printed, cmsg.offset < s.ptr

variable {s s' : Cursor}

theorem Inside.printed (inside : c.Inside s) (more : c.abi.cmsgSize ≤ s.bufLen) :
    c.Sound (s.printed ++ [c.cmsgAt s]) := by
  have total := inside.total
  constructor
  · rw [pairwise_append]
    refine ⟨inside.sound.increasing, pairwise_singleton .., ?_⟩
    intro cmsg mem later last
    rw [mem_singleton.mp last]
    exact inside.before cmsg mem
  · intro cmsg mem
    rcases mem_append.mp mem with mem | last
    · exact inside.sound.header cmsg mem
    · grind [cmsgAt]
  · intro cmsg mem
    rcases mem_append.mp mem with mem | last
    · exact inside.sound.data cmsg mem
    · grind [cmsgAt]

/-! ## A buffer of headers that can be aligned -/

structure AtHeader (c : Control) (s : Cursor) : Prop extends c.Inside s where
  header : c.abi.cmsgSize ≤ s.bufLen → c.Header s.ptr

theorem AtHeader.on (alignable : ∀ off, c.Header off → c.Alignable off) (here : c.AtHeader s)
    (step : c.body s = .inl s') : c.AtHeader s' ∧ s'.bufLen < s.bufLen := by
  simp only [body] at step
  split at step
  · cases step
  next more =>
    have header := here.header (by omega)
    have fits := alignable s.ptr header
    have sound := here.toInside.printed (by omega)
    split at step
    · cases step
    next long =>
      split at step
      · cases step
      next rest =>
        cases step
        have pos := currentWordsize_pos c.abi
        have longer := le_align fits pos
        have total := here.total
        have size : 0 < c.abi.cmsgSize := Nat.succ_pos _
        refine ⟨⟨⟨by simp only; omega, sound, ?_⟩, ?_⟩, by simp only; omega⟩
        · intro cmsg mem
          simp only
          rcases mem_append.mp mem with mem | last
          · have := here.before cmsg mem
            omega
          · grind [cmsgAt]
        · intro room
          simp only at room ⊢
          rw [align_exact fits pos] at room rest ⊢
          exact .next header (by omega) (by omega)

theorem AtHeader.done (here : c.AtHeader s) (step : c.body s = .inr s') : c.Sound s'.printed := by
  simp only [body] at step
  split at step
  · cases step
    exact here.sound
  next more =>
    have sound := here.toInside.printed (by omega)
    split at step
    · cases step
      exact sound
    · grind

/-! ## A header that cannot be aligned -/

theorem body_stuck (wraps : ¬c.Alignable s.ptr) (more : c.abi.cmsgSize ≤ s.bufLen) :
    c.body s = .inl { s with printed := s.printed ++ [c.cmsgAt s] } := by
  have small := cmsgLen_lt c s.ptr
  have zero := align_wraps small (Nat.lt_of_not_le wraps) (currentWordsize_le c.abi)
  have huge : c.abi.cmsgSize ≤ c.cmsgLen s.ptr := by
    have : c.abi.cmsgSize + c.abi.currentWordsize ≤ 2 ^ c.abi.bits := by cases c.abi <;> decide
    unfold Alignable at wraps
    omega
  have size : 0 < c.abi.cmsgSize := Nat.succ_pos _
  simp only [body, zero, Nat.add_zero, Nat.sub_zero]
  rw [if_neg (by omega), if_neg (by omega), if_neg (by omega)]

theorem diverges_at (wraps : ¬c.Alignable s.ptr) (more : c.abi.cmsgSize ≤ s.bufLen) :
    Diverges c.body s := by
  apply diverges_of_stuck (P := fun s => ¬c.Alignable s.ptr ∧ c.abi.cmsgSize ≤ s.bufLen)
  · grind [body_stuck]
  · exact ⟨wraps, more⟩

theorem diverges_of_header (small : c.buf.length < 2 ^ 32) {off : Nat} (header : c.Header off)
    (later : ∀ printed, Diverges c.body ⟨off, c.buf.length - off, printed⟩) :
    Diverges c.body ⟨0, c.buf.length, []⟩ := by
  induction header with
  | first _ => exact later []
  | @next off _ long room ih =>
    apply ih
    intro printed
    have pos := currentWordsize_pos c.abi
    have size : 0 < c.abi.cmsgSize := Nat.succ_pos _
    have fits : c.Alignable off := by
      have whole :=
        Nat.div_add_mod (c.cmsgLen off + c.abi.currentWordsize - 1) c.abi.currentWordsize
      have less := Nat.mod_lt (c.cmsgLen off + c.abi.currentWordsize - 1) pos
      rw [Nat.mul_comm] at whole
      have wide : 2 ^ 32 ≤ 2 ^ c.abi.bits := by cases c.abi <;> decide
      have header : c.abi.cmsgSize = c.abi.currentWordsize + 8 := rfl
      unfold Alignable
      omega
    refine .of_step ?_ (later (printed ++ [c.cmsgAt ⟨off, c.buf.length - off, printed⟩]))
    simp only [body]
    rw [align_exact fits pos, if_neg (by omega), if_neg (by omega), if_neg (by omega)]
    congr 2
    omega

end Control

/-! ## The whole function -/

def fetchedControl (abi : Abi) (bigEndian : Bool) (getOptmemMax : UInt32) (fetch : Fetch)
    (inControlLen : Nat) : Option Control :=
  let controlLen := min inControlLen getOptmemMax.toNat
  if controlLen < abi.cmsgSize then none
  else (fetch controlLen).map fun buf => { abi := abi, bigEndian := bigEndian, buf := buf.val }

def EndsWell (abi : Abi) (bigEndian : Bool) (getOptmemMax : UInt32) (fetch : Fetch)
    (inControlLen : Nat) : Prop :=
  ∃ fuel printed, decodeMsgControl abi bigEndian getOptmemMax fetch inControlLen fuel =
      some printed ∧
    ∀ c cmsgs bufLen truncated,
      fetchedControl abi bigEndian getOptmemMax fetch inControlLen = some c →
      printed = .headers cmsgs bufLen truncated → c.Sound cmsgs

variable {abi : Abi} {bigEndian : Bool} {getOptmemMax : UInt32} {fetch : Fetch} {inControlLen : Nat}

theorem decodeMsgControl_none
    (none : fetchedControl abi bigEndian getOptmemMax fetch inControlLen = none) :
    EndsWell abi bigEndian getOptmemMax fetch inControlLen := by
  have ends : ∃ printed, decodeMsgControl abi bigEndian getOptmemMax fetch inControlLen 0 =
      some printed := by
    simp only [decodeMsgControl]
    split
    · exact ⟨_, rfl⟩
    · split
      · exact ⟨_, rfl⟩
      next long =>
        simp only [fetchedControl, long, if_false, Option.map_eq_none_iff] at none
        rw [none]
        exact ⟨_, rfl⟩
  obtain ⟨printed, ends⟩ := ends
  refine ⟨0, printed, ends, ?_⟩
  intro c cmsgs bufLen truncated some
  rw [none] at some
  cases some

theorem decodeMsgControl_some {c : Control}
    (fetched : fetchedControl abi bigEndian getOptmemMax fetch inControlLen = some c) (fuel : Nat) :
    c.buf.length < 2 ^ 32 ∧ c.abi.cmsgSize ≤ c.buf.length ∧
      decodeMsgControl abi bigEndian getOptmemMax fetch inControlLen fuel =
        (iterate c.body fuel ⟨0, c.buf.length, []⟩).map fun s =>
          .headers s.printed s.bufLen (decide (c.buf.length < inControlLen)) := by
  simp only [fetchedControl] at fetched
  split at fetched
  · cases fetched
  next long =>
    obtain ⟨⟨buf, length⟩, read, rfl⟩ := Option.map_eq_some_iff.mp fetched
    have small := getOptmemMax.toNat_lt
    have size : 0 < abi.cmsgSize := Nat.succ_pos _
    simp only at length ⊢
    refine ⟨by omega, by omega, ?_⟩
    simp only [decodeMsgControl]
    rw [if_neg (by omega), if_neg long, read, length]

theorem decode_msg_control_ends_iff (abi : Abi) (bigEndian : Bool) (getOptmemMax : UInt32)
    (fetch : Fetch) (inControlLen : Nat) :
    EndsWell abi bigEndian getOptmemMax fetch inControlLen ↔
      ∀ c, fetchedControl abi bigEndian getOptmemMax fetch inControlLen = some c →
        ∀ off, c.Header off → c.Alignable off := by
  cases fetched : fetchedControl abi bigEndian getOptmemMax fetch inControlLen with
  | none =>
    constructor
    · rintro _ c ⟨⟩
    · intro _
      exact decodeMsgControl_none fetched
  | some c =>
    have loop := decodeMsgControl_some fetched
    constructor
    · rintro ⟨fuel, printed, ends, -⟩ _ ⟨⟩ off header
      by_contra wraps
      obtain ⟨small, long, eq⟩ := loop fuel
      have room : c.abi.cmsgSize ≤ c.buf.length - off := by
        cases header with
        | first => exact long
        | next => omega
      have never := Control.diverges_of_header small header fun _ => Control.diverges_at wraps room
      rw [eq, never fuel] at ends
      cases ends
    · intro alignable
      have alignable := alignable c rfl
      obtain ⟨small, long, eq⟩ := loop (c.buf.length + 1)
      have start : c.AtHeader ⟨0, c.buf.length, []⟩ :=
        { total := Nat.zero_add _
          sound := ⟨.nil, nofun, nofun⟩
          before := nofun
          header := .first }
      obtain ⟨s, ends, sound⟩ := iterate_ends Cursor.bufLen (fun s s' here => here.on alignable)
        (fun s s' here => here.done) start (Nat.lt_succ_self _)
      rw [ends] at eq
      refine ⟨_, _, eq, ?_⟩
      intro c' cmsgs bufLen truncated same headers
      rw [fetched] at same
      cases same
      cases headers
      exact sound

def endless : Fetch := fun len => some ⟨List.replicate len 255, List.length_replicate⟩

/-- A tracee of 64 bits hangs strace with sixteen bytes. -/
theorem decode_msg_control_hangs :
    ¬∃ fuel printed, decodeMsgControl .lp64 false 20480 endless 16 fuel = some printed := by
  rintro ⟨fuel, printed, ends⟩
  let c : Control := { abi := .lp64, bigEndian := false, buf := List.replicate 16 255 }
  have fetched : fetchedControl .lp64 false 20480 endless 16 = some c := by decide
  have wraps : ¬c.Alignable 0 := by
    unfold Control.Alignable
    decide
  obtain ⟨-, long, eq⟩ := decodeMsgControl_some fetched fuel
  have stuck : Diverges c.body ⟨0, c.buf.length, []⟩ := Control.diverges_at wraps long
  rw [eq, stuck fuel] at ends
  cases ends

end Strace.Decode
