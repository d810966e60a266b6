import Strace.NumberSet

/-! What a build and the command line fix before the first event: the syscall
tables of the personalities and the sets the options fill. -/
namespace Strace

structure AuditArch where
  arch : UInt32
  flag : UInt32
  deriving DecidableEq, Repr

inductive Sen where
  | execve
  | execveat
  | execv
  | syscall
  | ipc
  | socketcall
  | printargs
  | other (n : Nat)
  deriving DecidableEq, Repr

def syscallNeverFails : UInt32 := 0x80
def memoryMappingChange : UInt32 := 0x100
def traceIndirectSubcall : UInt32 := 0x200
def traceSeccompDefault : UInt32 := 0x80000
def commChange : UInt32 := 0x400000

structure Sysent where
  sysFlags : UInt32 := 0
  sen : Sen := .other 0
  sysFunc : Bool := true
  deriving DecidableEq, Repr

def stubSysent : Sysent := { sysFlags := memoryMappingChange, sen := .printargs }

def decodePidComm : Nat := 1

structure Config where
  /-- `SUPPORTED_PERSONALITIES` -/
  supportedPersonalities : Nat
  auditArchVec : Nat → AuditArch
  nsyscallVec : Nat → UInt32
  sysentVec : Nat → Nat → Sysent
  traceSet : Option (Nat → NumberSet) := none
  injectSet : Option (Nat → NumberSet) := none
  decodePidSet : Option NumberSet := none
  stackTraceMode : Bool := false

end Strace
