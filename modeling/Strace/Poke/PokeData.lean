import Strace.Poke.List
import Strace.Qualify.InjectExpression
import Strace.Runs

/-! `poke.c`: the lists of payloads, whose heads are in an array that grows. -/
namespace Strace.Poke

inductive Addr where
  | head (block idx : Nat)
  | payload (poke : Nat)
  deriving DecidableEq

open Addr

structure PokeData where
  memory : Memory Addr := fun _ => none
  /-- The payloads allocated so far, with those freed again -/
  payloads : List PokePayload := []
  /-- The number of blocks allocated so far -/
  blocks : Nat := 0
  pokeDataVec : Option Nat := none
  capacity : Nat := 0
  size : Nat := 0

structure Realloc where
  moves : Bool
  rest : Nat → ListItem Addr

/-- How the program fails. -/
inductive Stop where
  | die (msg : String)
  /-- Memory is touched that is not allocated any more, or never was. -/
  | fault
  /-- The index of a call was not allocated. -/
  | misuse

/-- `sizeof(struct list_item)` -/
def membSize : Nat := 16

/-- `64 * SIZEOF_LONG / 4` -/
def defaultAllocSize : Nat := 64 * 8 / 4

def growMemb : Option Nat → Nat → Nat
  | none, nmemb => if nmemb ≠ 0 then 0 else (defaultAllocSize + membSize - 1) / membSize
  | some _, nmemb => nmemb >>> 1 + 1

namespace PokeData

variable (s : PokeData)

variable (r : Realloc)

/-- The block that `realloc` returns. -/
def reallocBlock : Nat :=
  match s.pokeDataVec with
  | none => s.blocks
  | some block => if r.moves then s.blocks else block

def reallocarray (nmemb : Nat) : PokeData :=
  { s with
    pokeDataVec := some (s.reallocBlock r)
    blocks := s.blocks + 1
    capacity := nmemb
    memory := fun
      | head block idx =>
        if block = s.reallocBlock r then
          if idx < s.capacity then s.pokeDataVec.bind fun old => s.memory (head old idx)
          else if idx < nmemb then some (r.rest idx)
          else none
        else if s.pokeDataVec = some block then none
        else s.memory (head block idx)
      | payload poke => s.memory (payload poke) }

def clearFrom (start : Nat) : PokeData :=
  { s with
    memory := fun
      | head block idx =>
        if s.pokeDataVec = some block ∧ start ≤ idx ∧ idx < s.capacity then some ⟨none, none⟩
        else s.memory (head block idx)
      | payload poke => s.memory (payload poke) }

def expandPokeDataVec : PokeData :=
  (s.reallocarray r (s.capacity + growMemb s.pokeDataVec s.capacity)).clearFrom s.capacity

/-- `list_init` of an element of the array. -/
def initList (idx : Nat) : Option PokeData := do
  let block ← s.pokeDataVec
  let memory ← listInit s.memory (head block idx)
  some { s with memory }

def allocPokeData : Except Stop (UInt16 × PokeData) :=
  let rval := s.size.toUInt16
  if rval.toNat < s.size then .error (.die "alloc_poke_data: poke index overflow")
  else
    let s := if s.size = s.capacity then s.expandPokeDataVec r else s
    match { s with size := s.size + 1 }.initList rval.toNat with
    | none => .error .fault
    | some s => .ok (rval, s)

/-- The payload that an item is part of. -/
def fields : Addr → Option PokePayload
  | payload poke => if (s.memory (payload poke)).isSome then s.payloads[poke]? else none
  | head _ _ => none

def foreachPoke {σ : Type} (idx : Nat) (body : σ → Addr → Option (σ × Bool)) (start : σ) :
    Option σ := do
  let block ← s.pokeDataVec
  listForeach s.memory (head block idx) body (s.payloads.length + 1) start

def isDuplicate (poke : PokePayload) (_ : Bool) (item : Addr) : Option (Bool × Bool) := do
  let i ← s.fields item
  let same := i.isEnter == poke.isEnter && i.argNo == poke.argNo
  some (same, same)

def pokeAdd (idx : Nat) (poke : Nat) : Option (Bool × PokeData) := do
  let fields ← s.fields (payload poke)
  let duplicate ← s.foreachPoke idx (s.isDuplicate fields) false
  if duplicate then some (true, s)
  else
    let block ← s.pokeDataVec
    let memory ← listInsert s.memory (head block idx) (payload poke)
    some (false, { s with memory })

def newPayload (poke : PokePayload) : PokeData :=
  { s with
    payloads := s.payloads ++ [poke]
    memory := Function.update s.memory (payload s.payloads.length) (some ⟨none, none⟩) }

def freePayload (poke : Nat) : PokeData :=
  { s with memory := Function.update s.memory (payload poke) none }

def visited (idx : Nat) : Option (List Addr) :=
  s.foreachPoke idx (fun visited item => (s.fields item).map fun _ => (visited ++ [item], false)) []

end PokeData

/-! ## Calls -/

inductive Call where
  | allocPokeData (r : Realloc)
  | pokeAdd (idx : UInt16) (poke : PokePayload)

structure History where
  data : PokeData := {}
  added : Nat → List Nat := fun _ => []

def History.call (h : History) : Call → Except Stop History
  | .allocPokeData r => (h.data.allocPokeData r).map fun (_, data) => { h with data }
  | .pokeAdd idx poke =>
    if idx.toNat < h.data.size then
      let new := h.data.payloads.length
      match (h.data.newPayload poke).pokeAdd idx.toNat new with
      | none => .error .fault
      | some (true, data) => .ok { h with data := data.freePayload new }
      | some (false, data) =>
        .ok { data, added := Function.update h.added idx.toNat (new :: h.added idx.toNat) }
    else .error .misuse

def History.Kept (h : History) : Prop :=
  ∀ idx < h.data.size, h.data.visited idx = some ((h.added idx).map payload) ∧ (h.added idx).Nodup

def Call.Moves (s : PokeData) : Call → Prop
  | .allocPokeData r => s.pokeDataVec ≠ none ∧ s.size = s.capacity ∧ r.moves = true
  | .pokeAdd _ _ => False

end Strace.Poke
