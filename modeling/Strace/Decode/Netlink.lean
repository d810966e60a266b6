import Strace.Common
import Strace.Words

/-! `netlink.c` and `nlattr.c`: walks over lists of netlink messages and of
attributes. What is printed is a list of events. -/
namespace Strace.Netlink
open Words

structure Nlmsghdr where
  nlmsgLen : UInt32
  nlmsgType : UInt16
  nlmsgFlags : UInt16
  deriving DecidableEq, Repr

structure Nlattr where
  nlaLen : UInt16
  nlaType : UInt16
  deriving DecidableEq, Repr

inductive NlKind where
  | nlmsghdr
  | nlmsgerr
  | nlattr
  deriving DecidableEq, Repr

def NlKind.size : NlKind → Nat
  | nlmsghdr => 16
  | nlmsgerr => 20
  | nlattr => 4

inductive NlEvent where
  | arrayBegin
  | arrayNext
  | arrayEnd
  | structBegin
  | structNext
  | structEnd
  | moreDataFollows
  | printaddr (addr : Nat)
  | printaddrComment (addr : Nat)
  | printstr (r : Range)
  | printVal
  /-- A structure is read from the tracee. -/
  | fetch (kind : NlKind) (addr : Nat)
  /-- An element of a list is decoded. -/
  | element (kind : NlKind) (addr : Nat)
  /-- A range is handed on, from an element in a buffer. -/
  | payload (element buffer handed : Range)
  /-- `decode_nlmsgerr` is called and returns. -/
  | enterError
  | leaveError
  deriving DecidableEq, Repr

structure NlaDecoders where
  decoders : Option (Nat → Option (Nat → Nat → Bool))
  size : UInt32

structure Env where
  /-- The width of `kernel_ulong_t` -/
  bits : Nat
  /-- `abbrev(tcp)` -/
  abbreviated : Bool
  maxStrlen : UInt32
  nlmsghdr : Nat → Option Nlmsghdr
  /-- The `msg` of the `struct nlmsgerr` at an address -/
  nlmsgerr : Nat → Option Nlmsghdr
  nlattr : Nat → Option Nlattr
  /-- An `int` can be read. -/
  int : Nat → Bool
  /-- The family is `NETLINK_KOBJECT_UEVENT`. -/
  kobjectUevent : Bool := false
  /-- `netlink_decoders[family]` -/
  netlinkDecoder : Option (Nlmsghdr → Nat → Nat → Bool)
  nlmsgerrNlaDecoders : NlaDecoders
  wide : 32 ≤ bits
  /-- What the option `-s` accepts -/
  strlen_small : maxStrlen.toNat ≤ (2 ^ 32 - 1) / 4

variable (c : Env)

/-- Address arithmetic in `kernel_ulong_t`. -/
def Env.plus (addr n : Nat) : Nat := (addr + n) % 2 ^ c.bits

/-! ## A list of elements with headers -/

structure ListSpec (η : Type) where
  kind : NlKind
  /-- The length in a header, and the same after alignment -/
  len : η → Nat
  alignedLen : η → Nat
  fetch : Nat → Option η
  aligned_small : ∀ hdr, alignedLen hdr < 2 ^ 32

variable {η : Type} (k : ListSpec η)

/-- `fetch_nlmsghdr` and `fetch_nlattr` -/
def fetchHeader (addr len : Nat) (inArray : Bool) : Except (List NlEvent) η :=
  if len < k.kind.size then .error [.printstr ⟨addr, len⟩]
  else
    match k.fetch addr with
    | some hdr => .ok hdr
    | none =>
      .error (if inArray then [.moreDataFollows, .printaddrComment addr] else [.printaddr addr])

def nextElement (hdr : η) (addr len : Nat) : Option (Nat × Nat) :=
  let aligned := k.alignedLen hdr
  if k.kind.size ≤ k.len hdr ∧ len - aligned ≠ 0 ∧ addr < c.plus addr aligned then
    some (c.plus addr aligned, len - aligned)
  else none

structure ListState where
  addr : Nat
  len : Nat
  elt : UInt32 := 0
  isArray : Bool := false
  out : List NlEvent := []

namespace ListState

def put (s : ListState) (events : List NlEvent) : ListState := { s with out := s.out ++ events }

def openArray (s : ListState) (more : Bool) : ListState :=
  if !s.isArray && more then { s.put [.arrayBegin] with isArray := true } else s

/-- After the loop, the array is closed. -/
def finish (s : ListState) : List NlEvent := s.out ++ if s.isArray then [.arrayEnd] else []

end ListState

/-- `sequence_truncation_needed` -/
def sequenceTruncationNeeded : UInt32 → Bool :=
  Strace.sequenceTruncationNeeded c.abbreviated c.maxStrlen

def listRound (element : η → Nat → Nat → Option (List NlEvent)) (s : ListState) :
    Option (ListState ⊕ List NlEvent) :=
  match fetchHeader k s.addr s.len s.isArray with
  | .error events => some (.inr (s.put events).finish)
  | .ok hdr =>
    let read := s.put [.fetch k.kind s.addr]
    if sequenceTruncationNeeded c (s.elt + 1) then some (.inr (read.put [.moreDataFollows]).finish)
    else
      let next := nextElement c k hdr s.addr s.len
      (element hdr s.addr s.len).map fun events =>
        let decoded := (read.openArray next.isSome).put (.element k.kind s.addr :: events)
        match next with
        | none => .inr decoded.finish
        | some (addr, len) => .inl { decoded.put [.arrayNext] with addr, len, elt := s.elt + 1 }

def listLoop (element : η → Nat → Nat → Option (List NlEvent)) :
    Nat → ListState → Option (List NlEvent)
  | 0, _ => none
  | fuel + 1, s =>
    match listRound c k element s with
    | none => none
    | some (.inr events) => some events
    | some (.inl s) => listLoop element fuel s

/-! ## Attributes -/

/-- `print_nlattr`, without the fields -/
def printNlattr : List NlEvent := [.structBegin, .structNext, .structEnd]

def nlaTypeMask : UInt16 := 0x3fff

def decodedByType (d : NlaDecoders) (nla : Nlattr) (addr len : Nat) : Bool :=
  let useType := d.size ≠ 0xffffffff
  let idx := if useType ∧ d.size ≠ 0 then (nla.nlaType &&& nlaTypeMask).toNat else 0
  match d.decoders with
  | none => false
  | some decoders =>
    if useType ∧ d.size ≠ 0 ∧ d.size.toNat ≤ idx then false
    else (decoders idx).any fun decoder => decoder addr len

def decodeNlattrWithData (d : NlaDecoders) (nla : Nlattr) (addr len : Nat) : List NlEvent :=
  let nlaLen := min nla.nlaLen.toNat len
  if NlKind.nlattr.size < nlaLen then
    let handed : Range := ⟨c.plus addr NlKind.nlattr.size, nlaLen - NlKind.nlattr.size⟩
    let data := if decodedByType d nla handed.addr handed.len then [] else [.printstr handed]
    [.arrayBegin] ++ (printNlattr ++ [.arrayNext] ++
      (.payload ⟨addr, nla.nlaLen.toNat⟩ ⟨addr, len⟩ handed :: data)) ++ [.arrayEnd]
  else printNlattr

def nlattrSpec : ListSpec Nlattr where
  kind := .nlattr
  len nla := nla.nlaLen.toNat
  -- `NLA_ALIGN` is in `int`, which is wide enough.
  alignedLen nla := align 32 4 nla.nlaLen.toNat
  fetch := c.nlattr
  aligned_small _ := align_lt

def decodeNlattr (d : NlaDecoders) (fuel addr len : Nat) : Option (List NlEvent) :=
  listLoop c (nlattrSpec c) (fun nla addr len => some (decodeNlattrWithData c d nla addr len)) fuel
    { addr, len }

/-! ## Messages -/

/-- `print_nlmsghdr`, without the fields -/
def printNlmsghdr : List NlEvent :=
  [.structBegin, .structNext, .structNext, .structNext, .structNext, .structEnd]

def nlmsgError : UInt16 := 2
def nlmsgDone : UInt16 := 3
def nlmsgMinType : UInt16 := 0x10
/-- `NLM_F_CAPPED` -/
def nlmFCapped : UInt16 := 0x100
/-- `NLMSG_ERROR_MAX_NESTING` -/
def nlmsgErrorMaxNesting : Nat := 8

def decodeNlmsgerr (message : Nlmsghdr → Nat → Nat → Nat → Option (List NlEvent))
    (attributes : Nat → Nat → Option (List NlEvent)) (addr len : Nat) (capped : Bool)
    (errorNesting : Nat) : Option (List NlEvent) :=
  if len < NlKind.nlmsgerr.size then some [.printstr ⟨addr, len⟩]
  else
    match c.nlmsgerr addr with
    | none => some [.printaddr addr]
    | some msg =>
      -- Behind the field `error`
      let msgAddr := c.plus addr 4
      let msgLen := len - 4
      let nlmsgLen := max NlKind.nlmsghdr.size msg.nlmsgLen.toNat
      let payload := min msgLen (if capped then NlKind.nlmsghdr.size else nlmsgLen)
      match message msg msgAddr payload (errorNesting + 1) with
      | none => none
      | some events =>
        let err := [.fetch .nlmsgerr addr, .payload ⟨addr, len⟩ ⟨addr, len⟩ ⟨msgAddr, payload⟩]
        let struct := [.structBegin] ++ (.structNext :: events) ++ [.structEnd]
        if payload < msgLen then
          let handed : Range := ⟨c.plus msgAddr payload, msgLen - payload⟩
          match attributes handed.addr handed.len with
          | none => none
          | some attrs =>
            some (err ++ ([.arrayBegin] ++ (struct ++ [.arrayNext] ++
              (.payload ⟨addr, len⟩ ⟨addr, len⟩ handed :: attrs)) ++ [.arrayEnd]))
        else some (err ++ struct)

def decodePayload (message : Nlmsghdr → Nat → Nat → Nat → Option (List NlEvent))
    (attributes : Nat → Nat → Option (List NlEvent)) (nlmsghdr : Nlmsghdr) (addr len : Nat)
    (errorNesting : Nat) : Option (List NlEvent) :=
  if nlmsghdr.nlmsgType = nlmsgError then
    if nlmsgErrorMaxNesting ≤ errorNesting then some [.moreDataFollows]
    else
      (decodeNlmsgerr c message attributes addr len (nlmsghdr.nlmsgFlags &&& nlmFCapped ≠ 0)
        errorNesting).map fun events => [.enterError] ++ events ++ [.leaveError]
  else if (nlmsgMinType ≤ nlmsghdr.nlmsgType ∨ nlmsghdr.nlmsgType = nlmsgDone) ∧
      c.netlinkDecoder.any fun decoder => decoder nlmsghdr addr len then some []
  else if nlmsghdr.nlmsgType = nlmsgDone ∧ len = 4 then
    some (if c.int addr then [.printVal] else [.printaddr addr])
  else some [.printstr ⟨addr, len⟩]

def decodeNlmsghdrWithPayload : Nat → Nlmsghdr → Nat → Nat → Nat → Option (List NlEvent)
  | 0, _, _, _, _ => none
  | fuel + 1, nlmsghdr, addr, len, errorNesting =>
    let nlmsgLen := min nlmsghdr.nlmsgLen.toNat len
    if NlKind.nlmsghdr.size < nlmsgLen then
      let handed : Range := ⟨c.plus addr NlKind.nlmsghdr.size, nlmsgLen - NlKind.nlmsghdr.size⟩
      match decodePayload c (decodeNlmsghdrWithPayload fuel)
        (decodeNlattr c c.nlmsgerrNlaDecoders fuel) nlmsghdr handed.addr handed.len
          errorNesting with
      | none => none
      | some events =>
        some ([.arrayBegin] ++ (printNlmsghdr ++ [.arrayNext] ++
          (.payload ⟨addr, nlmsghdr.nlmsgLen.toNat⟩ ⟨addr, len⟩ handed :: events)) ++ [.arrayEnd])
    else some printNlmsghdr

def nlmsghdrSpec : ListSpec Nlmsghdr where
  kind := .nlmsghdr
  len nlmsghdr := nlmsghdr.nlmsgLen.toNat
  alignedLen nlmsghdr := align 32 4 nlmsghdr.nlmsgLen.toNat
  fetch := c.nlmsghdr
  aligned_small _ := align_lt

def decodeNetlink (fuel addr len : Nat) : Option (List NlEvent) :=
  if c.kobjectUevent then some [.payload ⟨addr, len⟩ ⟨addr, len⟩ ⟨addr, len⟩]
  else
    listLoop c (nlmsghdrSpec c) (fun nlmsghdr addr len =>
      decodeNlmsghdrWithPayload c fuel nlmsghdr addr len 0)
      fuel { addr, len }

end Strace.Netlink
