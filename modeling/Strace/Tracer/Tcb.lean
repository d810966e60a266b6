import Strace.Config

/-! `defs.h`: the trace control block of a tracee and what it carries. A flag
bit of the source is a Boolean field here, and a null pointer is `none`. -/
namespace Strace

structure InjectData where
  signal : Bool := false
  error : Bool := false
  retval : Bool := false
  delayEnter : Bool := false
  delayExit : Bool := false
  syscall : Bool := false
  pokeEnter : Bool := false
  pokeExit : Bool := false
  signo : UInt8 := 0
  rvalIdx : UInt16 := 0
  delayIdx : UInt16 := 0
  pokeIdx : UInt16 := 0
  scno : UInt16 := 0
  deriving DecidableEq, Repr

structure InjectOpts where
  first : UInt16 := 0
  last : UInt16 := 0
  step : UInt16 := 0
  data : InjectData := {}
  deriving DecidableEq, Repr

def injectLastInf : UInt16 := 0xffff

def maxErrnoValue : Nat := 4095

/-- `enum trace_event`. -/
inductive TraceEvent where
  | brk
  | next
  | restart
  | syscallStop
  | signalDeliveryStop
  | signalled
  | groupStop
  | exited
  | stopBeforeExecve
  | stopBeforeExit
  | seccomp
  deriving DecidableEq, Repr

/-- `struct tcb_wait_data`. -/
structure WaitData where
  te : TraceEvent
  status : UInt32 := 0
  msg : Nat := 0
  deriving DecidableEq, Repr

def wstopsig (status : UInt32) : Nat := ((status >>> 8) &&& 0xff).toNat

def noScno : Nat := 2 ^ 64 - 1

structure Tcb where
  pid : Nat := 0
  startup : Bool := false
  ignoreOneSigstop : Bool := false
  insyscall : Bool := false
  attached : Bool := false
  filtered : Bool := false
  tampered : Bool := false
  hideLog : Bool := false
  checkExecSyscall : Bool := false
  skipDetachOnFirstExec : Bool := false
  grabbed : Bool := false
  recovering : Bool := false
  injectDelayExit : Bool := false
  injectPokeExit : Bool := false
  delayed : Bool := false
  tamperedDelayed : Bool := false
  tamperedPoked : Bool := false
  tamperedNoFail : Bool := false
  seccompFilter : Bool := false
  /-- `QUAL_TRACE` and `QUAL_INJECT` of `qual_flg` -/
  qualTrace : Bool := false
  qualInject : Bool := false
  currpers : Nat := 0
  uError : Nat := 0
  scno : Nat := 0
  sEnt : Option Sysent := none
  sysFuncRval : Nat := 0
  injectVec : Nat → Option (Nat → InjectOpts) := fun _ => none
  delayExpirationTime : Nat := 0
  waitDataIdx : Nat := 0
  delayedWaitData : Option WaitData := none

variable (t : Tcb)

def Tcb.entering : Bool := !t.insyscall

def Tcb.setSeccompFilter : Tcb := { t with seccompFilter := true }
def Tcb.setPid (pid : Nat) : Tcb := { t with pid }
def Tcb.setWaitDataIdx (waitDataIdx : Nat) : Tcb := { t with waitDataIdx }
def Tcb.execSucceeded : Tcb := { t with checkExecSyscall := false }
def Tcb.setRecovering (recovering : Bool) : Tcb := { t with recovering }
def Tcb.firstExecSkipped : Tcb := { t with skipDetachOnFirstExec := false }

def Tcb.undelay : Tcb := { t with delayed := false }
def Tcb.setDelayedWaitData (delayedWaitData : Option WaitData) : Tcb :=
  { t with delayedWaitData }

def tcpSysent : Sysent := t.sEnt.getD stubSysent

structure Options extends Config where
  /-- `shuffle_scno_pers` -/
  shuffleScno : Nat → Nat → Nat := fun _ scno => scno
  injectVec : Nat → Nat → InjectOpts := fun _ _ => {}
  /-- `delay_data_vec`: the delays on entering and on exiting -/
  delayDataVec : UInt16 → Nat × Nat := fun _ => (0, 0)
  retvalVec : UInt16 → Nat := fun _ => 0
  /-- `tracing_paths || tracing_fds` -/
  tracingPaths : Bool := false
  seccompBeforeSysentry : Bool := false
  /-- `syscall_trap_sig` -/
  syscallTrapSig : Nat := 133
  useSeize : Bool := true
  followfork : Bool := false
  detachOnExecve : Bool := false
  postAttachSigstop : Bool := false
  /-- `os_release < KERNEL_VERSION(3, 0, 0)` -/
  oldKernel : Bool := false

end Strace
