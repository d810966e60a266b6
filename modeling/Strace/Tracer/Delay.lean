import Strace.Tracer.Tcb

/-! `delay.c`: one POSIX timer serves all delayed tracees. -/
namespace Strace

structure DelayTimer where
  /-- the timer has been created -/
  created : Bool := false
  /-- `delay_timer_is_armed` -/
  armed : Bool := false
  /-- when the timer runs out, while it is running -/
  expiry : Option Nat := none
  /-- its signal is pending -/
  alarm : Bool := false
  deriving DecidableEq, Repr

variable (timer : DelayTimer)

def DelayTimer.gettime (now : Nat) : Nat :=
  match timer.expiry with
  | none => 0
  | some e => max 1 (e - now)

def DelayTimer.running : Bool := timer.expiry.isSome

def delayTimerExpired : DelayTimer := { timer with armed := false }

def armDelayTimer (t : Tcb) (timer : DelayTimer) : DelayTimer :=
  { timer with expiry := some t.delayExpirationTime, armed := true }

def tsDiff (o : Options) (idx : UInt16) (isenter : Bool) : Nat :=
  if isenter then (o.delayDataVec idx).1 else (o.delayDataVec idx).2

def delayTcb (o : Options) (now : Nat) (idx : UInt16) (isenter : Bool) (t : Tcb)
    (timer : DelayTimer) : Tcb × DelayTimer :=
  let diff := tsDiff o idx isenter
  let t := { t with
    delayed := true
    tamperedDelayed := true
    delayExpirationTime := now + diff }
  (t, if timer.created ∧ timer.gettime now ≠ 0 ∧ diff > timer.gettime now then timer
    else armDelayTimer t { timer with created := true })

end Strace
