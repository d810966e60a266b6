import Mathlib.Algebra.GroupWithZero.Nat
import Mathlib.Data.List.Basic

/-! `dumpiov_upto` of `util.c`: the buffers of a vector, one dump each. -/
namespace Strace.Dump
open List UInt64

inductive Event where
  /-- `" * %lu bytes in buffer %d\n"` -/
  | bytesInBuffer (len : UInt64) (i : Nat)
  | dumpstr (addr len : UInt64)
  /-- `" = %lu buffers in vector %u\n"` -/
  | buffersInVector (len : UInt64) (i : Nat)
  deriving DecidableEq

open Event

structure Iovec where
  base : UInt64
  len : UInt64

/-- What the dump finds in memory. -/
structure Vectors where
  /-- 8 or 16 by the word size of the tracee -/
  sizeofIov : UInt32
  word : sizeofIov = 8 ∨ sizeofIov = 16
  /-- the elements from an address on -/
  iov : UInt64 → Nat → Iovec
  /-- whether `umoven` can read so many bytes at an address -/
  umoven : UInt64 → UInt32 → Bool
  malloc : UInt32 → Bool

def Iovec.iovLen (v : Iovec) (dataSize : UInt64) : UInt64 :=
  if v.len > dataSize then dataSize else v.len

/-- The loop over the elements. -/
def dumpBuffers : List Iovec → Nat → UInt64 → List Event
  | [], _, _ => []
  | v :: rest, i, dataSize =>
    if v.iovLen dataSize = 0 then []
    else [bytesInBuffer (v.iovLen dataSize) i, dumpstr v.base (v.iovLen dataSize)] ++
      dumpBuffers rest (i + 1) (dataSize - v.iovLen dataSize)

namespace Vectors

variable (t : Vectors)

/-- The elements of an array. -/
def array (len : UInt32) (addr : UInt64) : List Iovec := (List.range len.toNat).map (t.iov addr)

def fetches (len : UInt32) (addr : UInt64) : Bool :=
  t.sizeofIov * len / t.sizeofIov = len && t.malloc (t.sizeofIov * len) &&
    t.umoven addr (t.sizeofIov * len)

def dumpiovUpto (len : UInt32) (addr dataSize : UInt64) : List Event :=
  if t.fetches len addr then dumpBuffers (t.array len addr) 0 dataSize else []

end Vectors

/-! ## The bytes of the buffers -/

/-- The addresses of the bytes of a buffer. -/
def Iovec.bytes (v : Iovec) : List UInt64 :=
  (List.range v.len.toNat).map fun i => v.base + UInt64.ofNat i

def dumpedBytes (events : List Event) : List UInt64 :=
  events.flatMap fun | dumpstr addr len => Iovec.bytes ⟨addr, len⟩ | _ => []

def transferred (iov : List Iovec) (dataSize : Nat) : List UInt64 :=
  (iov.flatMap Iovec.bytes).take dataSize

def NoGap (iov : List Iovec) (dataSize : Nat) : Prop :=
  ∀ before v after, iov = before ++ v :: after → v.len = 0 →
    (before.map fun w => w.len.toNat).sum < dataSize → ∀ w ∈ after, w.len = 0

@[simp] theorem length_bytes (v : Iovec) : v.bytes.length = v.len.toNat := by
  simp [Iovec.bytes]

variable {v : Iovec} {dataSize : Nat} {rest : List Iovec}

theorem bytes_eq_nil : v.bytes = [] ↔ v.len = 0 := by
  simp [← List.length_eq_zero_iff, ← UInt64.toNat_inj]

theorem toNat_iovLen (v : Iovec) (dataSize : UInt64) :
    (v.iovLen dataSize).toNat = min dataSize.toNat v.len.toNat := by
  rw [Iovec.iovLen]
  split
  · next more => exact (Nat.min_eq_left (Nat.le_of_lt more)).symm
  · next fits => exact (Nat.min_eq_right (Nat.le_of_not_lt fits)).symm

theorem iovLen_eq_zero {dataSize : UInt64} : v.iovLen dataSize = 0 ↔ dataSize = 0 ∨ v.len = 0 := by
  simp [← UInt64.toNat_inj, toNat_iovLen]

theorem toNat_sub_iovLen (v : Iovec) (dataSize : UInt64) :
    (dataSize - v.iovLen dataSize).toNat = dataSize.toNat - v.len.toNat := by
  have le : v.iovLen dataSize ≤ dataSize := by
    grind [UInt64.le_iff_toNat_le, toNat_iovLen]
  rw [UInt64.toNat_sub_of_le _ _ le, toNat_iovLen]
  omega

theorem take_bytes (v : Iovec) (dataSize : UInt64) :
    v.bytes.take dataSize.toNat = Iovec.bytes ⟨v.base, v.iovLen dataSize⟩ := by
  rw [Iovec.bytes, ← map_take, take_range, Iovec.bytes, toNat_iovLen]

theorem flatMap_bytes_eq_nil {iov : List Iovec} :
    iov.flatMap Iovec.bytes = [] ↔ ∀ w ∈ iov, w.len = 0 := by
  simp only [flatMap_eq_nil_iff, bytes_eq_nil]

theorem noGap_cons (nonempty : v.len ≠ 0) :
    NoGap (v :: rest) dataSize ↔ NoGap rest (dataSize - v.len.toNat) := by
  constructor
  · intro noGap before w after eq empty left
    refine noGap (v :: before) w after (by rw [eq]; rfl) empty ?_
    rw [map_cons, sum_cons]
    omega
  · intro noGap before w after eq empty left
    cases before with
    | nil =>
      obtain ⟨rfl, -⟩ := List.cons.inj eq
      exact absurd empty nonempty
    | cons u before =>
      obtain ⟨rfl, rest_eq⟩ := List.cons.inj eq
      rw [map_cons, sum_cons] at left
      exact noGap before w after rest_eq empty (by omega)

theorem noGap_cons_empty (empty : v.len = 0) (left : 0 < dataSize) :
    NoGap (v :: rest) dataSize ↔ ∀ w ∈ rest, w.len = 0 := by
  constructor
  · intro noGap
    exact noGap [] v rest rfl empty left
  · intro all before w after eq _ _ u mem
    cases before with
    | nil =>
      obtain ⟨-, rfl⟩ := List.cons.inj eq
      exact all u mem
    | cons w' before =>
      obtain ⟨-, rfl⟩ := List.cons.inj eq
      exact all u (mem_append_right _ (mem_cons_of_mem _ mem))

theorem dumpedBytes_append (events more : List Event) :
    dumpedBytes (events ++ more) = dumpedBytes events ++ dumpedBytes more :=
  flatMap_append ..

theorem dumpedBytes_buffers_iff (iov : List Iovec) (i : Nat) (dataSize : UInt64) :
    dumpedBytes (dumpBuffers iov i dataSize) = transferred iov dataSize.toNat ↔
      NoGap iov dataSize.toNat := by
  induction iov generalizing i dataSize with
  | nil =>
    refine iff_of_true (by simp [dumpBuffers, dumpedBytes, transferred]) ?_
    intro before v after eq
    cases before <;> cases eq
  | cons v rest ih =>
    rw [dumpBuffers]
    by_cases done : dataSize = 0
    · refine iff_of_true ?_ ?_
      · rw [if_pos (iovLen_eq_zero.mpr (.inl done)), done]
        rfl
      · intro before w after _ _ left
        rw [done] at left
        exact absurd left (Nat.not_lt_zero _)
    have left : 0 < dataSize.toNat := by
      rw [Nat.pos_iff_ne_zero]
      exact fun zero => done (UInt64.toNat_inj.mp zero)
    by_cases empty : v.len = 0
    · -- The loop ends here, whatever follows.
      have none : dumpedBytes [] = [] := rfl
      rw [noGap_cons_empty empty left, ← flatMap_bytes_eq_nil,
        if_pos (iovLen_eq_zero.mpr (.inr empty)), transferred, List.flatMap_cons,
        bytes_eq_nil.mpr empty, none, eq_comm, List.take_eq_nil_iff]
      exact or_iff_right (Nat.ne_of_gt left)
    · have goes : ¬ v.iovLen dataSize = 0 := by
        rw [iovLen_eq_zero]
        exact not_or.mpr ⟨done, empty⟩
      have here : dumpedBytes [bytesInBuffer (v.iovLen dataSize) i,
          dumpstr v.base (v.iovLen dataSize)] = Iovec.bytes ⟨v.base, v.iovLen dataSize⟩ := by
        simp [dumpedBytes]
      rw [noGap_cons empty, ← toNat_sub_iovLen, ← ih (i + 1)]
      simp only [if_neg goes, dumpedBytes_append, here, transferred, List.flatMap_cons,
        List.take_append, take_bytes, length_bytes, toNat_sub_iovLen, List.append_cancel_left_eq]

/-- `dumpiov_upto` dumps what is transferred if and only if no empty element hides others. -/
theorem dumpiov_upto_dumps_transferred_iff (t : Vectors) (len : UInt32) (addr dataSize : UInt64)
    (fetched : t.fetches len addr = true) :
    dumpedBytes (t.dumpiovUpto len addr dataSize) =
        transferred (t.array len addr) dataSize.toNat ↔
      NoGap (t.array len addr) dataSize.toNat := by
  rw [Vectors.dumpiovUpto, if_pos fetched]
  exact dumpedBytes_buffers_iff _ 0 dataSize

theorem sizeof_iov64 : (16 : UInt32) = 8 ∨ (16 : UInt32) = 16 := .inr rfl

def twoBuffers (middle : UInt64) : Vectors where
  sizeofIov := 16
  word := sizeof_iov64
  iov _ i := if i = 0 then ⟨0x1000, 2⟩ else if i = 1 then ⟨0x2000, middle⟩ else ⟨0x3000, 1⟩
  umoven _ _ := true
  malloc _ := true

/-- A `writev` of three buffers. -/
theorem dumpiov_upto_dumps_three :
    dumpedBytes ((twoBuffers 1).dumpiovUpto 3 0x500 0xffffffffffffffff) =
      transferred ((twoBuffers 1).array 3 0x500) 0xffffffffffffffff := by
  apply (dumpiov_upto_dumps_transferred_iff (twoBuffers 1) 3 0x500 0xffffffffffffffff
    (by decide)).mpr
  have filled : ∀ v ∈ (twoBuffers 1).array 3 0x500, v.len ≠ 0 := by
    decide
  intro before v after eq empty
  exact absurd empty (filled v (by simp [eq]))

/-- A `writev` whose second buffer is empty: the third one is not dumped. -/
theorem dumpiov_upto_misses_buffer :
    transferred ((twoBuffers 0).array 3 0x500) 0xffffffffffffffff = [0x1000, 0x1001, 0x3000] ∧
      dumpedBytes ((twoBuffers 0).dumpiovUpto 3 0x500 0xffffffffffffffff) = [0x1000, 0x1001] := by
  decide

end Strace.Dump
