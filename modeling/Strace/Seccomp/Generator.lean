import Strace.ClassicBpf
import Strace.Config

/-! `filter_seccomp.c`: the two generators of the seccomp filter.

A generator fills a buffer of `2 * BPF_MAXINSNS` instructions from its start.
The buffer is the list of the instructions written so far, `pos` is its
length, and a write outside the buffer is a failure of the whole generator, so
`pos` cannot wrap either. -/
namespace Strace.Seccomp
open ClassicBpf

def bpfMaxinsns : Nat := 4096
def uintMax : UInt32 := 0xffffffff
def ucharMax : Nat := 255

def jmpPlaceholderNext : UInt8 := 255
def jmpPlaceholderTrace : UInt8 := 254
def jmpPlaceholderAllow : UInt8 := 253

def seccompRetTrace : UInt32 := 0x7ff00000
def seccompRetAllow : UInt32 := 0x7fff0000

def offsetNr : UInt32 := 0
def offsetArch : UInt32 := 4

structure SeccompData where
  nr : UInt32
  arch : UInt32
  deriving DecidableEq, Repr

def SeccompData.load (d : SeccompData) (offset : UInt32) : Option UInt32 :=
  if offset = offsetNr then some d.nr
  else if offset = offsetArch then some d.arch
  else none

def setBpfStmt (code : UInt16) (k : UInt32) : Insn := ⟨code, 0, 0, k⟩

def setBpfJump (code : UInt16) (k : UInt32) (jt jf : UInt8) : Insn :=
  ⟨classJmp ||| code, jt, jf, k⟩

/-- The instructions written so far. -/
abbrev Buffer := List Insn

/-- Write one instruction at `filter[pos++]`. -/
def emit (filter : Buffer) (insn : Insn) : Option Buffer :=
  if filter.length < 2 * bpfMaxinsns then some (filter ++ [insn]) else none

def emits : Buffer → List Insn → Option Buffer
  | filter, [] => some filter
  | filter, insn :: rest => (emit filter insn).bind (emits · rest)

variable (c : Config)

def tracedBySeccomp (scno p : Nat) : Bool :=
  let alwaysTraceFlags := traceIndirectSubcall ||| traceSeccompDefault |||
    (if c.stackTraceMode then memoryMappingChange else 0) |||
    (if isNumberInSet decodePidComm c.decodePidSet then commChange else 0)
  ((c.sysentVec p scno).sysFlags &&& alwaysTraceFlags != 0) ||
    isNumberInSetArray scno c.traceSet p

def replaceJmpPlaceholders (jmpOffset jmpNext jmpTrace jmpAllow : UInt8) : UInt8 :=
  if jmpOffset = jmpPlaceholderNext then jmpNext
  else if jmpOffset = jmpPlaceholderTrace then jmpTrace
  else if jmpOffset = jmpPlaceholderAllow then jmpAllow
  else jmpOffset

def patchJump (pos i : Nat) (insn : Insn) : Insn :=
  if bpfClass insn.code ≠ classJmp then insn
  else
    let jmpNext := UInt8.ofNat (pos - i - 1)
    let jmpTrace := UInt8.ofNat (pos - i - 2)
    let jmpAllow := UInt8.ofNat (pos - i - 3)
    { insn with
      jt := replaceJmpPlaceholders insn.jt jmpNext jmpTrace jmpAllow
      jf := replaceJmpPlaceholders insn.jf jmpNext jmpTrace jmpAllow
      k := if bpfOp insn.code = opJa then jmpNext.toUInt32 else insn.k }

def patchJumps (pos : Nat) : Nat → Nat → Buffer → Buffer
  | _, 0, filter => filter
  | i, count + 1, filter => patchJumps pos (i + 1) count (filter.modify i (patchJump pos i))

def bpfSyscallsCmp (lower upper : UInt32) : List Insn :=
  if lower + 1 = upper then
    [setBpfJump (opJeq ||| srcK) lower jmpPlaceholderTrace 0]
  else
    [setBpfJump (opJge ||| srcK) lower 0 1,
     setBpfJump (opJge ||| srcK) upper 0 jmpPlaceholderTrace]

/-! ## linear_filter_generator -/

def linearScan (c : Config) (p : Nat) : Nat → Nat → UInt32 → Buffer → Option (Buffer × UInt32)
  | _, 0, lower, filter => some (filter, lower)
  | i, count + 1, lower, filter =>
    if tracedBySeccomp c i p then
      linearScan c p (i + 1) count (if lower = uintMax then UInt32.ofNat i else lower) filter
    else if lower = uintMax then
      linearScan c p (i + 1) count lower filter
    else
      let flag := (c.auditArchVec p).flag
      (emits filter (bpfSyscallsCmp (lower ||| flag) (UInt32.ofNat i ||| flag))).bind
        (linearScan c p (i + 1) count uintMax ·)

def linearSection (p : Nat) (filter : Buffer) : Option (Buffer × Bool) := do
  let arch := (c.auditArchVec p).arch
  let flag := (c.auditArchVec p).flag
  let nsyscalls := c.nsyscallVec p
  let start := filter.length
  let filter ← emits filter
    (if c.supportedPersonalities > 1 then
      [setBpfJump (opJeq ||| srcK) arch 0 jmpPlaceholderNext]
    else [])
  let filter ← emits filter [setBpfStmt (classLd ||| sizeW ||| modeAbs) offsetNr]
  let filter ← emits filter
    (if c.supportedPersonalities > 1 ∧ flag ≠ 0 then
      [setBpfJump (opJge ||| srcK) flag 2 0,
       setBpfStmt (classLd ||| sizeW ||| modeAbs) offsetArch,
       setBpfJump opJa jmpPlaceholderNext.toUInt32 0 0]
    else [])
  let (filter, lower) ← linearScan c p 0 nsyscalls.toNat uintMax filter
  let filter ← emits filter
    (if lower ≠ uintMax then bpfSyscallsCmp (lower ||| flag) (nsyscalls ||| flag) else [])
  let stop := filter.length
  let filter ← emits filter
    [setBpfJump (opJge ||| srcK) (nsyscalls ||| flag) 1 0,
     setBpfStmt (classRet ||| srcK) seccompRetAllow,
     setBpfStmt (classRet ||| srcK) seccompRetTrace]
  let pos := filter.length
  if pos - start > ucharMax then
    return (filter, true)
  return (patchJumps pos start (stop - start) filter, false)

def linearSections (c : Config) : Nat → Buffer → Option (Buffer × Bool)
  | 0, filter => some (filter, false)
  | p + 1, filter => do
    let (filter, overflow) ← linearSection c p filter
    if overflow then return (filter, true)
    linearSections c p filter

def linearFilterGenerator : Option (Buffer × Bool) := do
  let filter ← emits []
    (if c.supportedPersonalities > 1 then
      [setBpfStmt (classLd ||| sizeW ||| modeAbs) offsetArch]
    else [])
  let (filter, overflow) ← linearSections c c.supportedPersonalities filter
  if overflow then return (filter, true)
  let filter ← emits filter
    (if c.supportedPersonalities > 1 then
      [setBpfStmt (classRet ||| srcK) seccompRetTrace]
    else [])
  return (filter, false)

/-! ## binary_match_filter_generator -/

def bpfSyscallsMatch (bitarray bitarrayIdx : UInt32) : List Insn :=
  if bitarray = 0 then
    [setBpfJump (classJmp ||| opJeq ||| srcK) bitarrayIdx jmpPlaceholderAllow 0]
  else if bitarray = uintMax then
    [setBpfJump (classJmp ||| opJeq ||| srcK) bitarrayIdx jmpPlaceholderTrace 0]
  else
    [setBpfJump (classJmp ||| opJeq ||| srcK) bitarrayIdx 0 2,
     setBpfStmt (classMisc ||| miscTxa) 0,
     setBpfJump (classJmp ||| opJset ||| srcK) bitarray jmpPlaceholderTrace jmpPlaceholderAllow]

def matchScan (c : Config) (p : Nat) :
    Nat → Nat → UInt32 → Buffer → Option (Buffer × UInt32 × Nat)
  | i, 0, bitarray, filter => some (filter, bitarray, i)
  | i, count + 1, bitarray, filter =>
    if filter.length ≤ bpfMaxinsns then
      let bitarray :=
        if tracedBySeccomp c i p then bitarray ||| (1 <<< UInt32.ofNat (i % 32)) else bitarray
      if i % 32 = 31 then
        (emits filter (bpfSyscallsMatch bitarray (UInt32.ofNat (i / 32)))).bind
          (matchScan c p (i + 1) count 0 ·)
      else matchScan c p (i + 1) count bitarray filter
    else some (filter, bitarray, i)

def matchSection (p : Nat) (filter : Buffer) : Option (Buffer × Bool) := do
  let arch := (c.auditArchVec p).arch
  let flag := (c.auditArchVec p).flag
  let start := filter.length
  let filter ← emits filter
    (if c.supportedPersonalities > 1 then
      [setBpfJump (classJmp ||| opJeq ||| srcK) arch 0 jmpPlaceholderNext]
    else [])
  let filter ← emits filter [setBpfStmt (classLd ||| sizeW ||| modeAbs) offsetNr]
  let filter ← emits filter
    (if c.supportedPersonalities > 1 ∧ flag ≠ 0 then
      [setBpfJump (classJmp ||| opJge ||| srcK) flag 2 0,
       setBpfStmt (classLd ||| sizeW ||| modeAbs) offsetArch,
       setBpfJump (classJmp ||| opJa) jmpPlaceholderNext.toUInt32 0 0,
       setBpfStmt (classAlu ||| opAnd ||| srcK) (~~~flag)]
    else [])
  let filter ← emits filter
    [setBpfStmt (classAlu ||| opAnd ||| srcK) 0x1f,
     setBpfStmt (classMisc ||| miscTax) 0,
     setBpfStmt (classLd ||| modeImm) 1,
     setBpfStmt (classAlu ||| opLsh ||| srcX) 0,
     setBpfStmt (classMisc ||| miscTax) 0,
     setBpfStmt (classLd ||| sizeW ||| modeAbs) offsetNr]
  let filter ← emits filter
    (if flag ≠ 0 then [setBpfStmt (classAlu ||| opAnd ||| srcK) (~~~flag)] else [])
  let filter ← emits filter [setBpfStmt (classAlu ||| opRsh ||| srcK) 5]
  let (filter, bitarray, i) ← matchScan c p 0 (c.nsyscallVec p).toNat 0 filter
  let filter ← emits filter
    (if i % 32 ≠ 0 then bpfSyscallsMatch bitarray (UInt32.ofNat (i / 32)) else [])
  let stop := filter.length
  let filter ← emits filter
    [setBpfStmt (classRet ||| srcK) seccompRetAllow,
     setBpfStmt (classRet ||| srcK) seccompRetTrace]
  let pos := filter.length
  if pos - start > ucharMax then
    return (filter, true)
  return (patchJumps pos start (stop - start) filter, false)

def matchSections (c : Config) : Nat → Buffer → Option (Buffer × Bool)
  | 0, filter => some (filter, false)
  | p + 1, filter =>
    if filter.length ≤ bpfMaxinsns then do
      let (filter, overflow) ← matchSection c p filter
      if overflow then return (filter, true)
      matchSections c p filter
    else some (filter, false)

def binaryMatchFilterGenerator : Option (Buffer × Bool) := do
  let filter ← emits []
    (if c.supportedPersonalities > 1 then
      [setBpfStmt (classLd ||| sizeW ||| modeAbs) offsetArch]
    else [])
  let (filter, overflow) ← matchSections c c.supportedPersonalities filter
  if overflow then return (filter, true)
  let filter ← emits filter
    (if c.supportedPersonalities > 1 then
      [setBpfStmt (classRet ||| srcK) seccompRetTrace]
    else [])
  return (filter, false)

/-! ## check_seccomp_filter_properties -/

def ushrtMax : Nat := 65535

def chooseShorter (best : Option Buffer) (generated : Buffer × Bool) : Option Buffer :=
  let bestLen := (best.map List.length).getD ushrtMax
  if generated.1.length < bestLen ∧ generated.2 = false then some generated.1 else best

def checkSeccompFilterProperties (available orderKnown : Bool) :
    Option (Option Buffer × Bool) :=
  if !available then some (none, false)
  else do
    let linear ← linearFilterGenerator c
    let binary ← binaryMatchFilterGenerator c
    let prog := chooseShorter (chooseShorter none linear) binary
    match prog with
    | none => return (none, false)
    | some filter =>
      if filter.length > bpfMaxinsns then return (some filter, false)
      return (some filter, orderKnown)

end Strace.Seccomp
