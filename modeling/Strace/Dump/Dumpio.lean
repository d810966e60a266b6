import Strace.Dump.Iov

/-! `dumpio` of `syscall.c` and the message vectors of `mmsghdr.c`: what is dumped of a system
call that transfers data. -/
namespace Strace.Dump

open Event

inductive Sen where
  | write
  | pwrite
  | send
  | sendto
  | mqTimedsendTime32
  | mqTimedsendTime64
  | writev
  | pwritev
  | pwritev2
  | vmsplice
  | sendmsg
  | sendmmsg
  | read
  | pread
  | recv
  | recvfrom
  | mqTimedreceiveTime32
  | mqTimedreceiveTime64
  | readv
  | preadv
  | preadv2
  | recvmsg
  | recvmmsg
  | recvmmsgTime32
  | recvmmsgTime64
  | other
  deriving DecidableEq

structure Msghdr where
  msgIov : UInt64
  msgIovlen : UInt64

structure Mmsghdr where
  msgHdr : Msghdr
  msgLen : UInt32

structure Tracee extends Vectors where
  /-- `fetch_struct_msghdr` -/
  msghdr : UInt64 → Option Msghdr
  /-- `fetch_struct_mmsghdr`, which gives the size of the header if it succeeds -/
  mmsghdr : UInt64 → Option Mmsghdr
  sizeofMmsghdr : UInt64

structure Syscall where
  sen : Sen
  uArg : Fin 6 → UInt64
  uRval : UInt64
  syserror : Bool
  /-- whether a number is in `write_set` -/
  writeSet : UInt32 → Bool
  /-- whether a number is in `read_set` -/
  readSet : UInt32 → Bool

namespace Tracee

variable (t : Tracee)

def dumpiovInMsghdr (addr dataSize : UInt64) : List Event :=
  match t.msghdr addr with
  | none => []
  | some msg => t.dumpiovUpto msg.msgIovlen.toUInt32 msg.msgIov dataSize

/-- The loop over the headers. -/
def dumpVectors (len i : Nat) (addr : UInt64) : List Event :=
  if i < len then
    match t.mmsghdr addr with
    | none => []
    | some mmsg =>
      buffersInVector mmsg.msgHdr.msgIovlen i ::
        t.dumpiovUpto mmsg.msgHdr.msgIovlen.toUInt32 mmsg.msgHdr.msgIov mmsg.msgLen.toUInt64 ++
          dumpVectors len (i + 1) (addr + t.sizeofMmsghdr)
  else []
termination_by len - i

variable (s : Syscall)

def dumpiovInMmsghdr (addr : UInt64) : List Event :=
  t.dumpVectors s.uRval.toUInt32.toNat 0 addr

def dumpWritten : List Event :=
  match s.sen with
  | .write | .pwrite | .send | .sendto | .mqTimedsendTime32 | .mqTimedsendTime64 =>
    [dumpstr (s.uArg 1) (s.uArg 2)]
  | .writev | .pwritev | .pwritev2 | .vmsplice =>
    t.dumpiovUpto (s.uArg 2).toUInt32 (s.uArg 1) (-1)
  | .sendmsg => t.dumpiovInMsghdr (s.uArg 1) (-1)
  | .sendmmsg => t.dumpiovInMmsghdr s (s.uArg 1)
  | _ => []

def dumpRead : List Event :=
  match s.sen with
  | .read | .pread | .recv | .recvfrom | .mqTimedreceiveTime32 | .mqTimedreceiveTime64 =>
    [dumpstr (s.uArg 1) s.uRval]
  | .readv | .preadv | .preadv2 => t.dumpiovUpto (s.uArg 2).toUInt32 (s.uArg 1) s.uRval
  | .recvmsg => t.dumpiovInMsghdr (s.uArg 1) s.uRval
  | .recvmmsg | .recvmmsgTime32 | .recvmmsgTime64 => t.dumpiovInMmsghdr s (s.uArg 1)
  | _ => []

def dumpio : List Event :=
  let fd := (s.uArg 0).toUInt32
  if 2 ^ 31 ≤ fd.toNat then []
  else
    (if s.writeSet fd then t.dumpWritten s else []) ++
      if s.syserror then [] else if s.readSet fd then t.dumpRead s else []

end Tracee

/-! ## The vectors that are dumped -/

def Syscall.transferredMessages (s : Syscall) : Nat := if s.syserror then 0 else s.uRval.toNat

/-- `vlen` -/
def Syscall.vlen (s : Syscall) : Nat := (s.uArg 2).toUInt32.toNat

def vectorsDumped (events : List Event) : Nat :=
  events.countP fun | buffersInVector _ _ => true | _ => false

def Bounded (t : Tracee) (s : Syscall) : Prop :=
  vectorsDumped (t.dumpio s) ≤ s.transferredMessages ∧ vectorsDumped (t.dumpio s) ≤ s.vlen

def Sen.receivesVectors : Sen → Bool
  | recvmmsg | recvmmsgTime32 | recvmmsgTime64 => true
  | _ => false

def Syscall.dumpsVectors (s : Syscall) : Bool :=
  let fd := (s.uArg 0).toUInt32
  decide (fd.toNat < 2 ^ 31) &&
    (s.sen == .sendmmsg && s.writeSet fd ||
      s.sen.receivesVectors && !s.syserror && s.readSet fd)

/-- The header of a message. -/
def Tracee.header (t : Tracee) (addr : UInt64) (i : Nat) : Option Mmsghdr :=
  t.mmsghdr (addr + UInt64.ofNat i * t.sizeofMmsghdr)

structure Overruns (t : Tracee) (s : Syscall) : Prop where
  dumps : s.dumpsVectors = true
  exceeds : min s.transferredMessages s.vlen < s.uRval.toUInt32.toNat
  fetched : ∀ i ≤ min s.transferredMessages s.vlen, (t.header (s.uArg 1) i).isSome = true

section
variable {t : Tracee}

@[simp] theorem vectorsDumped_nil : vectorsDumped [] = 0 := rfl

@[simp] theorem vectorsDumped_append (events more : List Event) :
    vectorsDumped (events ++ more) = vectorsDumped events + vectorsDumped more :=
  List.countP_append ..

@[simp] theorem vectorsDumped_buffers (iov : List Iovec) (i : Nat) (dataSize : UInt64) :
    vectorsDumped (dumpBuffers iov i dataSize) = 0 := by
  induction iov generalizing i dataSize with
  | nil => rfl
  | cons v rest ih =>
    rw [dumpBuffers]
    split
    · rfl
    · rw [vectorsDumped_append, ih]
      rfl

@[simp] theorem vectorsDumped_upto (v : Vectors) (len : UInt32) (addr dataSize : UInt64) :
    vectorsDumped (v.dumpiovUpto len addr dataSize) = 0 := by
  rw [Vectors.dumpiovUpto]
  split <;> simp

@[simp] theorem vectorsDumped_msghdr (addr dataSize : UInt64) :
    vectorsDumped (t.dumpiovInMsghdr addr dataSize) = 0 := by
  rw [Tracee.dumpiovInMsghdr]
  split <;> simp

@[simp] theorem vectorsDumped_dumpstr (addr len : UInt64) :
    vectorsDumped [dumpstr addr len] = 0 := rfl

@[simp] theorem header_zero (addr : UInt64) : t.header addr 0 = t.mmsghdr addr := by
  simp [Tracee.header]

theorem header_succ (addr : UInt64) (i : Nat) :
    t.header addr (i + 1) = t.header (addr + t.sizeofMmsghdr) i := by
  have place : addr + UInt64.ofNat (i + 1) * t.sizeofMmsghdr =
      addr + t.sizeofMmsghdr + UInt64.ofNat i * t.sizeofMmsghdr := by
    rw [UInt64.ofNat_add, UInt64.add_mul, UInt64.add_assoc, UInt64.add_comm t.sizeofMmsghdr]
    simp
  rw [Tracee.header, Tracee.header, place]

theorem lt_vectorsDumped_iff (len i n : Nat) (addr : UInt64) :
    n < vectorsDumped (t.dumpVectors len i addr) ↔
      i + n < len ∧ ∀ k ≤ n, (t.header addr k).isSome = true := by
  fun_induction Tracee.dumpVectors t len i addr generalizing n with
  | case1 i addr more missing =>
    refine iff_of_false (Nat.not_lt_zero n) ?_
    rintro ⟨-, headers⟩
    have first := headers 0 (Nat.zero_le n)
    rw [header_zero, missing] at first
    cases first
  | case2 i addr more mmsg there ih =>
    have one : vectorsDumped [buffersInVector mmsg.msgHdr.msgIovlen i] = 1 := rfl
    rw [← List.singleton_append, vectorsDumped_append, vectorsDumped_append, one,
      vectorsDumped_upto]
    have first : (t.header addr 0).isSome = true := by rw [header_zero, there]; rfl
    cases n with
    | zero =>
      refine iff_of_true (by omega) ⟨more, fun k zero => ?_⟩
      rwa [Nat.le_zero.mp zero]
    | succ n =>
      rw [show n + 1 < 1 + 0 + vectorsDumped (t.dumpVectors len (i + 1) (addr + t.sizeofMmsghdr)) ↔
        n < vectorsDumped (t.dumpVectors len (i + 1) (addr + t.sizeofMmsghdr)) by omega, ih]
      refine and_congr (by omega) ⟨fun headers k le => ?_, fun headers k le => ?_⟩
      · cases k with
        | zero => exact first
        | succ k =>
          simpa [header_succ] using headers k (Nat.le_of_succ_le_succ le)
      · simpa [← header_succ] using headers (k + 1) (Nat.succ_le_succ le)
  | case3 i addr last => exact iff_of_false (Nat.not_lt_zero n) fun few => by omega

theorem vectorsDumped_written : vectorsDumped (t.dumpWritten s) =
    if s.sen == .sendmmsg then vectorsDumped (t.dumpiovInMmsghdr s (s.uArg 1)) else 0 := by
  cases sen : s.sen <;> simp [Tracee.dumpWritten, sen]

theorem vectorsDumped_read : vectorsDumped (t.dumpRead s) =
    if s.sen.receivesVectors then vectorsDumped (t.dumpiovInMmsghdr s (s.uArg 1)) else 0 := by
  cases sen : s.sen <;> simp [Tracee.dumpRead, sen, Sen.receivesVectors]

theorem vectorsDumped_dumpio (s : Syscall) : vectorsDumped (t.dumpio s) =
    if s.dumpsVectors then vectorsDumped (t.dumpiovInMmsghdr s (s.uArg 1)) else 0 := by
  have either : (s.sen == .sendmmsg) = true → s.sen.receivesVectors = false := by
    intro sendmmsg
    rw [eq_of_beq sendmmsg]
    rfl
  rw [Tracee.dumpio, Syscall.dumpsVectors]
  generalize (s.uArg 0).toUInt32 = fd
  by_cases negative : 2 ^ 31 ≤ fd.toNat
  · rw [if_pos negative, decide_eq_false (Nat.not_lt.mpr negative)]
    rfl
  rw [if_neg negative, decide_eq_true (Nat.lt_of_not_le negative)]
  cases sendmmsg : s.sen == .sendmmsg with
  | true =>
    have none := either sendmmsg
    cases s.writeSet fd <;> cases s.syserror <;> cases s.readSet fd <;>
      simp [vectorsDumped_written, vectorsDumped_read, sendmmsg, none]
  | false =>
    cases s.writeSet fd <;> cases s.syserror <;> cases s.readSet fd <;>
      simp [vectorsDumped_written, vectorsDumped_read, sendmmsg]

end

/-- The vectors dumped are bounded unless the result is too large: -1 after an error is. -/
theorem dumped_vectors_bounded_iff (t : Tracee) (s : Syscall) : Bounded t s ↔ ¬ Overruns t s := by
  have all : Bounded t s ↔ ¬ min s.transferredMessages s.vlen < vectorsDumped (t.dumpio s) := by
    rw [Bounded, Nat.not_lt, Nat.le_min]
  rw [all, vectorsDumped_dumpio]
  apply not_congr
  by_cases dumps : s.dumpsVectors = true
  · rw [if_pos dumps, Tracee.dumpiovInMmsghdr, lt_vectorsDumped_iff, Nat.zero_add]
    exact ⟨fun ⟨exceeds, fetched⟩ => ⟨dumps, exceeds, fetched⟩,
      fun overruns => ⟨overruns.exceeds, overruns.fetched⟩⟩
  · rw [if_neg dumps]
    exact iff_of_false (Nat.not_lt_zero _) fun overruns => dumps overruns.dumps

def oneMessage (uRval : UInt64) (syserror : Bool) : Syscall where
  sen := .sendmmsg
  uArg i := if i = 0 then 3 else if i = 1 then 0x1000 else if i = 2 then 1 else 0
  uRval := uRval
  syserror := syserror
  writeSet := (· = 3)
  readSet _ := false

def threeHeaders : Tracee where
  sizeofIov := 16
  word := sizeof_iov64
  iov _ _ := ⟨0x2000, 5⟩
  umoven _ _ := true
  malloc _ := true
  msghdr _ := none
  mmsghdr addr := if addr < 0x10c0 then some ⟨⟨0x500, 1⟩, 5⟩ else none
  sizeofMmsghdr := 64

/-- A failing `sendmmsg`: nothing was transferred, and three vectors are dumped of one. -/
theorem dumped_vectors_exceed_failed_call :
    (oneMessage (-1) true).transferredMessages = 0 ∧ (oneMessage (-1) true).vlen = 1 ∧
      2 < vectorsDumped (threeHeaders.dumpio (oneMessage (-1) true)) := by
  refine ⟨rfl, rfl, ?_⟩
  rw [vectorsDumped_dumpio, if_pos (by decide), Tracee.dumpiovInMmsghdr, lt_vectorsDumped_iff]
  refine ⟨by decide, ?_⟩
  decide

end Strace.Dump
