import Mathlib.Algebra.Group.Nat.Defs
import Mathlib.Data.List.Basic
import Strace.Common

/-! Decoders that go from one record of the tracee to the next by a length or an offset that
the record holds: directory entries, security contexts, lists of the device mapper. -/
namespace Strace.Records

/-- What a decoder reads and prints. -/
inductive Event where
  | arrayBegin | arrayNext | arrayEnd
  | structBegin | structNext | structEnd
  | moreDataFollows
  | unavailable
  | comment (text : String)
  | printaddr (addr : UInt64)
  | printaddrComment (addr : UInt64)
  | field (name : String)
  /-- the header of a record is fetched -/
  | header (addr : UInt64)
  /-- a function is given the rest of a record to print -/
  | tail (addr : UInt64) (len : UInt32)

open Event

structure Tracee where
  abbreviated : Bool
  exiting : Bool
  maxStrlen : UInt32
  printpathn : UInt64 → UInt32 → Int
  printstrEx : UInt64 → UInt32 → Int
  umoveByte : UInt64 → Option UInt8
  umoveWord : UInt64 → Option UInt32

variable (c : Tracee)

def sequenceTruncationNeeded : UInt32 → Bool :=
  Strace.sequenceTruncationNeeded c.abbreviated c.maxStrlen

/-! ## `decode_dents` -/

inductive DirentFormat where
  | dirent
  /-- `getdents` of a 32-bit personality -/
  | compatDirent
  | dirent64
  deriving DecidableEq

/-- The offset of `d_name`. -/
def DirentFormat.headerSize : DirentFormat → UInt32
  | dirent => 18
  | compatDirent => 10
  | dirent64 => 19

def dNameLenMax : UInt32 := 256

def decodeDentryHead : List Event :=
  if c.abbreviated then []
  else [structBegin, field "d_ino", structNext, field "d_off", structNext, field "d_reclen"]

def printDName (addr : UInt64) (dNameLen : UInt32) : List Event × Int :=
  let len := if dNameLen > dNameLenMax then dNameLenMax else dNameLen
  ([structNext, field "d_name", tail addr len], c.printpathn addr len)

def dirent64Tail (addr : UInt64) (dNameLen : UInt32) : List Event × Int :=
  let name := if dNameLen ≠ 0 then printDName c addr dNameLen else ([], 0)
  ([structNext, field "d_type"] ++ name.1 ++ [structEnd], name.2)

def direntTail (addr : UInt64) (dNameTypeLen : UInt32) : List Event × Int :=
  if dNameTypeLen ≠ 0 then
    let name := if dNameTypeLen - 1 ≠ 0 then printDName c addr (dNameTypeLen - 1) else ([], 0)
    let dTypeAddr := addr + (dNameTypeLen - 1).toUInt64
    match c.umoveByte dTypeAddr with
    | none => (name.1 ++ [structNext, field "d_type", printaddr dTypeAddr] ++ [structEnd], -1)
    | some _ => (name.1 ++ [structNext, field "d_type"] ++ [structEnd], name.2)
  else ([] ++ [structEnd], 0)

def decodeDentryTail : DirentFormat → UInt64 → UInt32 → List Event × Int
  | .dirent64 => dirent64Tail c
  | .dirent | .compatDirent => direntTail c

structure DentStep where
  comments : List Event
  dReclen : UInt32
  nextAddr : UInt64
  nextLen : UInt32

def dentStep (headerSize : UInt32) (addr : UInt64) (len dReclen : UInt32) : DentStep :=
  let name := if c.abbreviated then "d_reclen " else ""
  if dReclen > len then
    { comments := [comment (name ++ toString (dReclen - len) ++ " bytes overflow")]
      dReclen := len, nextAddr := 0, nextLen := 0 }
  else if dReclen < headerSize then
    { comments := [comment (name ++ toString (headerSize - dReclen) ++ " bytes underflow")]
      dReclen := headerSize, nextAddr := 0, nextLen := len - headerSize }
  else if len - dReclen ≠ 0 then
    if addr + dReclen.toUInt64 > addr then
      { comments := [], dReclen := dReclen, nextAddr := addr + dReclen.toUInt64
        nextLen := len - dReclen }
    else
      { comments := [comment "address overflow"], dReclen := dReclen, nextAddr := 0
        nextLen := len - dReclen }
  else { comments := [], dReclen := dReclen, nextAddr := 0, nextLen := len - dReclen }

variable {len : UInt32} {addr : UInt64} {ctx : LsmCtx}

theorem dentStep_nextLen {headerSize dReclen : UInt32} (positive : 0 < headerSize)
    (on : (dentStep c headerSize addr len dReclen).nextAddr ≠ 0) :
    (dentStep c headerSize addr len dReclen).nextLen.toNat < len.toNat := by
  revert on
  unfold dentStep
  dsimp only
  split
  · exact fun on => absurd rfl on
  · next inside =>
    split
    · exact fun on => absurd rfl on
    · next enough =>
      rw [UInt32.not_lt, UInt32.le_iff_toNat_le] at inside enough
      rw [UInt32.lt_iff_toNat_lt] at positive
      have less : (len - dReclen).toNat < len.toNat := by
        grind [UInt32.toNat_sub_of_le, UInt32.le_iff_toNat_le.mpr]
      split
      · grind
      · exact fun _ => less

variable (format : DirentFormat)

theorem DirentFormat.headerSize_pos : 0 < format.headerSize := by
  cases format <;> decide

/-- What is left when no header fits in it. -/
def decodeDentsRest (count : Nat) (addr : UInt64) (len : UInt32) : List Event × Nat :=
  if c.abbreviated then ([], count)
  else if len = 0 then ([arrayBegin], count + 1)
  else ([tail addr len], count)

def decodeDentsUnread (count : Nat) (addr : UInt64) : List Event :=
  if c.abbreviated then []
  else if count ≠ 0 then [moreDataFollows, printaddrComment addr]
  else [printaddr addr]

/-- The array begins with the first entry. -/
def dentsBegin (count : Nat) : List Event :=
  if c.abbreviated then [] else if count = 0 then [arrayBegin] else []

def dentsNext : List Event := if c.abbreviated then [] else [arrayNext]

def decodeDent (addr : UInt64) (step : DentStep) : List Event × Int :=
  if c.abbreviated then (decodeDentryHead c ++ step.comments, 0)
  else
    let tailAddr := addr + format.headerSize.toUInt64
    let tailLen := step.dReclen - format.headerSize
    let rest := decodeDentryTail c format tailAddr tailLen
    (decodeDentryHead c ++ step.comments ++ [tail tailAddr tailLen] ++ rest.1, rest.2)

def decodeDentsLoop (format : DirentFormat) (dent : UInt64 → Option UInt16) (count : Nat)
    (addr : UInt64) (len : UInt32) : List Event × Nat × UInt32 :=
  if len < format.headerSize then
    let rest := decodeDentsRest c count addr len
    (rest.1, rest.2, len)
  else
    match dent addr with
    | none => ([header addr] ++ decodeDentsUnread c count addr, count, len)
    | some dReclen =>
      let step := dentStep c format.headerSize addr len dReclen.toUInt32
      let entry := decodeDent c format addr step
      let here := [header addr] ++ dentsBegin c count ++ entry.1
      if step.nextAddr = 0 then (here, count + 1, step.nextLen)
      else if entry.2 < 0 then
        (here ++ [arrayNext, moreDataFollows], count + 1, step.nextLen)
      else
        let later := decodeDentsLoop format dent (count + 1) step.nextAddr step.nextLen
        (here ++ dentsNext c ++ later.1, later.2)
termination_by len.toNat
decreasing_by
  exact dentStep_nextLen c format.headerSize_pos ‹_›

def decodeDents (dent : UInt64 → Option UInt16) (addr : UInt64)
    (len : UInt32) : List Event :=
  let (events, count, left) := decodeDentsLoop c format dent 0 addr len
  (if c.abbreviated then [printaddr addr] else []) ++ events ++
    if c.abbreviated then
      [comment (toString count ++ (if left ≠ 0 then "+" else "") ++ " entries")]
    else if count ≠ 0 then [arrayEnd] else []

/-! ## `decode_lsm_ctx_sequence` -/

structure LsmCtx where
  len : UInt64
  ctxLen : UInt64

def lsmCtxSize : UInt32 := 32

def minLen (a : UInt64) (b : UInt32) : UInt32 := if a < b.toUInt64 then a.toUInt32 else b

/-- How much of a message follows the header. -/
def msgCtxLen (msgLen : UInt32) : UInt32 := if msgLen > lsmCtxSize then msgLen - lsmCtxSize else 0

def lsmCtxLen (ctx : LsmCtx) (len : UInt32) : UInt32 :=
  minLen ctx.ctxLen (msgCtxLen (minLen ctx.len len))

def decodeLsmCtx (ctx : LsmCtx) (addr : UInt64) (len : UInt32) : List Event :=
  let ctxLen := lsmCtxLen ctx len
  [structBegin] ++
    ([field "id", structNext, field "flags", structNext, field "len", structNext,
      field "ctx_len"] ++
    if ctxLen > 0 then [structNext, field "ctx", tail (addr + lsmCtxSize.toUInt64) ctxLen]
    else []) ++
    [structEnd]

def lsmNextLen (ctx : LsmCtx) (len : UInt32) : UInt32 :=
  if len.toUInt64 ≥ ctx.len then (len.toUInt64 - ctx.len).toUInt32 else 0

def lsmNext (ctx : LsmCtx) (addr : UInt64) (len : UInt32) : Option (UInt64 × UInt32) :=
  if ctx.len ≥ lsmCtxSize.toUInt64 then
    if lsmNextLen ctx len > 0 ∧ addr + ctx.len > addr then
      some (addr + ctx.len, lsmNextLen ctx len)
    else none
  else none

theorem lsmNextLen_pos (more : lsmNextLen ctx len > 0) :
    len.toNat = ctx.len.toNat + (lsmNextLen ctx len).toNat := by
  revert more
  rw [lsmNextLen]
  split
  · next inside =>
    have whole := UInt64.toNat_sub_of_le _ _ inside
    rw [ge_iff_le, UInt64.le_iff_toNat_le, UInt32.toNat_toUInt64] at inside
    rw [UInt32.toNat_toUInt64] at whole
    have := len.toNat_lt
    rw [UInt64.toNat_toUInt32]
    omega
  · exact fun more => absurd more (by decide)

theorem lsmNext_some {addr' : UInt64} {len' : UInt32}
    (next : lsmNext ctx addr len = some (addr', len')) :
    addr' = addr + ctx.len ∧ 32 ≤ ctx.len.toNat ∧ len.toNat = ctx.len.toNat + len'.toNat := by
  rw [lsmNext] at next
  split at next
  · next long =>
    split at next
    · next more =>
      cases next
      exact ⟨rfl, UInt64.le_iff_toNat_le.mp long, lsmNextLen_pos more.1⟩
    · cases next
  · cases next

def lsmUnfetched (isSequence : Bool) (addr : UInt64) : List Event :=
  if isSequence then [moreDataFollows, printaddrComment addr] else [printaddr addr]

def lsmBegin (isSequence : Bool) : List Event := if isSequence then [] else [arrayBegin]

def decodeLsmCtxLoop (lsmCtx : UInt64 → Option LsmCtx) (elt : UInt32) (isSequence : Bool)
    (addr : UInt64) (len : UInt32) : List Event × Bool :=
  if len < lsmCtxSize then (lsmUnfetched isSequence addr, isSequence)
  else
    match lsmCtx addr with
    | none => ([header addr] ++ lsmUnfetched isSequence addr, isSequence)
    | some ctx =>
      if sequenceTruncationNeeded c (elt + 1) then ([header addr, moreDataFollows], isSequence)
      else
        let element := [header addr] ++ lsmBegin isSequence ++ decodeLsmCtx ctx addr len
        match _next : lsmNext ctx addr len with
        | none => (element, true)
        | some (addr, len) =>
          let later := decodeLsmCtxLoop lsmCtx (elt + 1) true addr len
          (element ++ [arrayNext] ++ later.1, later.2)
termination_by len.toNat
decreasing_by
  have := lsmNext_some _next
  omega

def decodeLsmCtxSequence (lsmCtx : UInt64 → Option LsmCtx) (addr : UInt64) (len : UInt32) :
    List Event :=
  let (events, isSequence) := decodeLsmCtxLoop c lsmCtx 0 false addr len
  events ++ if isSequence then [arrayEnd] else []

/-! ## Lists of the device mapper -/

structure DmIoctl where
  minorVersion : UInt32
  dataSize : UInt32
  dataStart : UInt32
  targetCount : UInt32

structure DmList where
  name : String
  /-- where the string of a record begins -/
  headerSize : UInt32
  /-- the condition of the loop -/
  more : Nat → Bool
  /-- a record, from its offset and the end of its header -/
  element : UInt32 → UInt32 → UInt32 → List Event
  /-- the offset of the next record, if there is one -/
  next : UInt32 → UInt32 → Option UInt32

def misplaced (l : DmList) : List Event :=
  [unavailable, comment ("misplaced struct " ++ l.name)]

def dmListLoop (l : DmList) (fetch : UInt64 → Option UInt32) (addr : UInt64) (dataSize : UInt32)
    (i : Nat) (offset offsetEnd : UInt32) : List Event :=
  if l.more i then
    if i ≠ 0 ∧ offset ≤ offsetEnd then [arrayNext] ++ misplaced l
    else if offset + l.headerSize ≤ offset ∨ offset + l.headerSize > dataSize then
      [arrayNext] ++ misplaced l
    else if sequenceTruncationNeeded c (.ofNat (i + 1)) then [arrayNext, moreDataFollows]
    else
      let place := addr + offset.toUInt64
      match fetch place with
      | none => [arrayNext, header place, printaddr place]
      | some next =>
        [arrayNext] ++ [header place] ++ l.element next offset (offset + l.headerSize) ++
          match l.next next offset with
          | none => []
          | some offset' => dmListLoop l fetch addr dataSize (i + 1) offset' (offset + l.headerSize)
  else []
termination_by (if i = 0 then 1 else 0, dataSize.toNat - offsetEnd.toNat)
decreasing_by
  rename_i further inside _
  rw [not_or, UInt32.not_le, UInt32.not_lt, UInt32.lt_iff_toNat_lt,
    UInt32.le_iff_toNat_le] at inside
  by_cases first : i = 0
  · rw [if_pos first, if_neg not_false]
    exact Prod.Lex.left _ _ Nat.zero_lt_one
  · rw [if_neg first, if_neg not_false]
    have past : ¬ offset ≤ offsetEnd := fun le => further ⟨first, le⟩
    rw [UInt32.not_le, UInt32.lt_iff_toNat_lt] at past
    exact Prod.Lex.right _ (by omega)

def dmString (addr : UInt64) (ioc : DmIoctl) (offsetEnd : UInt32) : Event :=
  tail (addr + offsetEnd.toUInt64) (ioc.dataSize - offsetEnd)

def targetSpecList (addr : UInt64) (ioc : DmIoctl) : DmList where
  name := "dm_target_spec"
  headerSize := 40
  more i := i < ioc.targetCount.toNat
  element _ _ offsetEnd :=
    [structBegin] ++
      ([field "sector_start", structNext, field "length"] ++
      (if c.exiting then [structNext, field "status"] else []) ++
      [structNext, field "target_type", structNext, field "string", dmString addr ioc offsetEnd]) ++
      [structEnd]
  next next offset := some (if c.exiting then ioc.dataStart + next else offset + next)

def dmDecodeDmTargetSpec (fetch : UInt64 → Option UInt32) (addr : UInt64) (ioc : DmIoctl) :
    List Event :=
  if c.abbreviated then
    if ioc.targetCount ≠ 0 then [arrayNext, moreDataFollows] else []
  else dmListLoop c (targetSpecList c addr ioc) fetch addr ioc.dataSize 0 ioc.dataStart 0

def dmEventNr (addr : UInt64) (ioc : DmIoctl) (next offset offsetEnd : UInt32) : List Event :=
  let rc := c.printstrEx (addr + offsetEnd.toUInt64) (ioc.dataSize - offsetEnd)
  if rc > 0 ∧ ioc.minorVersion ≥ 37 then
    let eventAddr := (addr + offsetEnd.toUInt64 + UInt64.ofNat rc.toNat + 7) &&& ~~~7
    if eventAddr + 4 ≤ addr + offset.toUInt64 + next.toUInt64 ∧ (c.umoveWord eventAddr).isSome then
      [structNext, field "event_nr"]
    else []
  else []

def nextRecord (next offset : UInt32) : Option UInt32 :=
  if next = 0 then none else some (offset + next)

def nameList (addr : UInt64) (ioc : DmIoctl) : DmList where
  name := "dm_name_list"
  headerSize := 12
  more _ := true
  element next offset offsetEnd :=
    [structBegin] ++
      ([field "dev", structNext, field "name", dmString addr ioc offsetEnd] ++
      dmEventNr c addr ioc next offset offsetEnd) ++
      [structEnd]
  next := nextRecord

def dmDecodeDmNameList (fetch : UInt64 → Option UInt32) (addr : UInt64) (ioc : DmIoctl) :
    List Event :=
  if ioc.dataStart = ioc.dataSize then []
  else if c.abbreviated then [arrayNext, moreDataFollows]
  else dmListLoop c (nameList c addr ioc) fetch addr ioc.dataSize 0 ioc.dataStart 0

def targetVersionsList (addr : UInt64) (ioc : DmIoctl) : DmList where
  name := "dm_target_versions"
  headerSize := 16
  more _ := true
  element _ _ offsetEnd :=
    [structBegin] ++
      [field "name", dmString addr ioc offsetEnd, structNext, field "version"] ++
      [structEnd]
  next := nextRecord

def dmDecodeDmTargetVersions (fetch : UInt64 → Option UInt32) (addr : UInt64) (ioc : DmIoctl) :
    List Event :=
  if ioc.dataStart = ioc.dataSize then []
  else if c.abbreviated then [arrayNext, moreDataFollows]
  else dmListLoop c (targetVersionsList addr ioc) fetch addr ioc.dataSize 0 ioc.dataStart 0

end Strace.Records
