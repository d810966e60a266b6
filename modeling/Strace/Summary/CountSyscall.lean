import Mathlib.Data.List.Nodup
import Strace.Runs
import Strace.Summary.Timespec

/-! `count.c`: what `-c` counts, in the tables of the known system calls and in
the buckets of the unknown ones. -/
namespace Strace.Summary

open Timespec

/-- A reading of a clock. Its seconds are so far below the largest `time_t` that no difference
of the three that `count_syscall` subtracts overflows. -/
structure Clock extends Timespec where
  normal : toTimespec.Normalized
  small : 0 ≤ sec ∧ sec < 2 ^ 62

theorem clock_differences_fit (a b c : Clock) :
    ∃ wts, Machine.tsSub a.toTimespec b.toTimespec = some wts ∧
      Machine.tsSub wts c.toTimespec =
        some (tsSub (tsSub a.toTimespec b.toTimespec) c.toTimespec) := by
  have := a.small
  have := b.small
  have := c.small
  have first := ns_tsSub a.toTimespec b.toTimespec
  have normal := normal_tsSub a.normal b.normal
  have := a.normal
  have := b.normal
  have := c.normal
  simp only [Normalized, ns] at *
  refine ⟨_, machine_tsSub a.normal b.normal ?_ (by omega),
    machine_tsSub normal c.normal ?_ (by omega)⟩ <;> simp only [ns] <;> omega

structure CountOptions where
  nsyscallVec : Nat → Nat
  countWallclock : Bool
  summaryNeedsWall : Bool
  overhead : Clock
  /-- The largest `time_t`. -/
  timeMax : Nat

variable (o : CountOptions)

def CountOptions.maxTs : Timespec := ⟨o.timeMax, 999999999⟩

/-- What `count_syscall` reads of a system call that exits. -/
structure Call where
  currentPersonality : Nat
  scno : Nat
  syserror : Bool
  syscallExitingTs : Clock
  etime : Clock
  stime : Clock
  ltime : Clock

/-- `time`, `time_min` and `time_max`, or the same fields of the wall time. -/
structure Times where
  total : Timespec
  min : Timespec
  max : Timespec
  deriving DecidableEq, Repr

def Times.add (times : Times) (ts : Timespec) : Times :=
  ⟨tsAdd times.total ts, tsMin times.min ts, tsMax times.max ts⟩

structure CallCounts where
  time : Times
  wall : Times
  calls : UInt64
  errors : UInt64
  deriving DecidableEq, Repr

/-- What `xcalloc` allocates. -/
def zeroCounts : CallCounts :=
  let zero : Times := ⟨zeroTs, zeroTs, zeroTs⟩
  ⟨zero, zero, 0, 0⟩

structure UnknownCallCounts where
  scno : Nat
  callCounts : CallCounts
  deriving DecidableEq, Repr

/-- `cap` is the length of `entries`. -/
structure UnknownCallBucket where
  len : Nat
  entries : List UnknownCallCounts
  deriving DecidableEq, Repr

structure Counts where
  countv : Nat → Option (List CallCounts) := fun _ => none
  unknownCountv : Nat → Option UnknownCallBucket := fun _ => none

def unknownCountsEntries : Nat := 16

def unknownInitSlot (cc : CallCounts) : CallCounts :=
  { cc with
    time := { cc.time with min := o.maxTs }
    wall := if o.summaryNeedsWall then { cc.wall with min := o.maxTs } else cc.wall }

def unknownInit : Option UnknownCallBucket → UnknownCallBucket
  | some bucket => bucket
  | none =>
    { len := 0
      entries := List.replicate unknownCountsEntries ⟨0, unknownInitSlot o zeroCounts⟩ }

def UnknownCallBucket.used (bucket : UnknownCallBucket) : List UnknownCallCounts :=
  bucket.entries.take bucket.len

/-- The place of the entry in the bucket. -/
def getUnknownByScno (scno : Nat) (bucket : Option UnknownCallBucket) : Option Nat :=
  bucket.bind fun bucket => bucket.used.findIdx? fun entry => entry.scno = scno

/-- What `realloc` adds to the entries. -/
abbrev Memory := Nat → UnknownCallCounts

variable (memory : Memory)

def reallocated (n : Nat) : List UnknownCallCounts :=
  (List.range n).map fun i => ⟨(memory i).scno, unknownInitSlot o (memory i).callCounts⟩

def UnknownCallBucket.grow (bucket : UnknownCallBucket) :
    UnknownCallBucket :=
  if bucket.len = bucket.entries.length then
    { bucket with entries := bucket.entries ++ reallocated o memory bucket.entries.length }
  else bucket

def UnknownCallBucket.takeSlot (scno : Nat) (bucket : UnknownCallBucket) : UnknownCallBucket :=
  { len := bucket.len + 1
    entries := bucket.entries.modify bucket.len ({ · with scno := scno }) }

def unknownInsert (scno : Nat)
    (bucket : Option UnknownCallBucket) : Option UnknownCallBucket :=
  if (getUnknownByScno scno bucket).isSome then bucket
  else some (((unknownInit o bucket).grow o memory).takeSlot scno)

variable (call : Call)

/-- The time that is counted for a call. -/
def wtsNonneg : Timespec :=
  let wts :=
    if o.countWallclock then tsSub call.syscallExitingTs.toTimespec call.etime.toTimespec
    else tsSub call.stime.toTimespec call.ltime.toTimespec
  tsMax (tsSub wts o.overhead.toTimespec) zeroTs

def wallWtsNonneg : Timespec :=
  if o.countWallclock then wtsNonneg o call
  else
    let wallWts := tsSub call.syscallExitingTs.toTimespec call.etime.toTimespec
    tsMax (tsSub wallWts o.overhead.toTimespec) zeroTs

def CallCounts.record (cc : CallCounts) : CallCounts :=
  { time := cc.time.add (wtsNonneg o call)
    wall := if o.summaryNeedsWall then cc.wall.add (wallWtsNonneg o call) else cc.wall
    calls := cc.calls + 1
    errors := if call.syserror then cc.errors + 1 else cc.errors }

def UnknownCallBucket.record (i : Nat)
    (bucket : UnknownCallBucket) : UnknownCallBucket :=
  { bucket with
    entries := bucket.entries.modify i fun entry =>
      { entry with callCounts := entry.callCounts.record o call } }

/-- `counts`, allocated by the first call of the personality. -/
def allocCounts (p : Nat) : Option (List CallCounts) → List CallCounts
  | some table => table
  | none => List.replicate (o.nsyscallVec p) (unknownInitSlot o zeroCounts)

/-- There is no result when `get_syscall_cc` dies. -/
def countSyscall (counts : Counts) :
    Option Counts :=
  let p := call.currentPersonality
  let table := allocCounts o p (counts.countv p)
  if call.scno < o.nsyscallVec p then
    some { counts with
      countv := Function.update counts.countv p (some (table.modify call.scno (·.record o call))) }
  else
    let unknown := unknownInsert o memory call.scno (counts.unknownCountv p)
    (getUnknownByScno call.scno unknown).map fun i =>
      { countv := Function.update counts.countv p (some table)
        unknownCountv := Function.update counts.unknownCountv p (unknown.map (·.record o call i)) }

/-! ## What the summary should say -/

/-- The calls of one number in one personality. -/
def callsOf (calls : List Call) (p scno : Nat) : List Call :=
  calls.filter fun call => call.currentPersonality = p ∧ call.scno = scno

/-- A sum, a minimum and a maximum of times. -/
structure Times.Exact (ts : List Int) (times : Times) : Prop where
  total : times.total.ns = ts.sum
  min : ts ≠ [] → ts.min? = some times.min.ns
  max : ts ≠ [] → ts.max? = some times.max.ns

structure CallCounts.Exact (o : CountOptions) (counted : List Call) (cc : CallCounts) : Prop where
  calls : cc.calls.toNat = counted.length
  errors : cc.errors.toNat = counted.countP (·.syserror)
  time : cc.time.Exact (counted.map fun call => (wtsNonneg o call).ns)
  wall : o.summaryNeedsWall = true →
    cc.wall.Exact (counted.map fun call => (wallWtsNonneg o call).ns)

/-- The entries in which the calls of a number are counted. -/
def Counts.entriesOf (counts : Counts) (p scno : Nat) : List CallCounts :=
  ((counts.countv p).bind (·[scno]?)).toList ++
    match counts.unknownCountv p with
    | none => []
    | some bucket => (bucket.used.filter fun entry => entry.scno = scno).map (·.callCounts)

end Strace.Summary
