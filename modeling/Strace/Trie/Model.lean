import Strace.Trie.Nodes
import Strace.Trie.Packed

/-! `trie.c`: a map from keys of up to 64 bits to items of up to 64 bits. -/
namespace Strace.Tries

open Packed

structure Trie where
  ptrSzLg : Nat
  emptyValue : Word
  fillValue : Word
  data : Node Word
  keySize : Nat
  itemSizeLg : Nat
  nodeKeyBits : Nat
  dataBlockKeyBits : Nat
  maxDepth : Nat

def uint8 (n : Nat) : Nat := n % 256

variable (t : Trie)

def trieGetNodeSize (depth : Nat) : Nat :=
  if depth = t.maxDepth then uint8 (t.dataBlockKeyBits + t.itemSizeLg)
  else if depth + 1 = t.maxDepth then
    uint8 ((t.keySize - t.dataBlockKeyBits - 1) % t.nodeKeyBits + 1 + t.ptrSzLg)
  else uint8 (t.nodeKeyBits + t.ptrSzLg)

def trieGetNodeBitOffs (depth : Nat) : Nat :=
  if depth = t.maxDepth then 0
  else
    let offs := t.dataBlockKeyBits
    if depth + 1 = t.maxDepth then offs
    else
      let offs := uint8 (offs + (trieGetNodeSize t (t.maxDepth - 1) - t.ptrSzLg))
      uint8 (offs + (t.maxDepth - depth - 2) * t.nodeKeyBits)

def ptrSzLg (widePointers : Bool) : Nat := if widePointers then 6 else 5

def newTrie (widePointers : Bool) (keySize itemSizeLg nodeKeyBits dataBlockKeyBits : Nat)
    (emptyValue : Word) : Trie :=
  let emptyValue := emptyValue &&& low (2 ^ itemSizeLg)
  { ptrSzLg := ptrSzLg widePointers
    emptyValue := emptyValue
    fillValue := fill itemSizeLg emptyValue (6 - itemSizeLg)
    data := .null
    keySize := keySize
    itemSizeLg := itemSizeLg
    nodeKeyBits := nodeKeyBits
    dataBlockKeyBits := dataBlockKeyBits
    maxDepth := uint8 ((keySize - dataBlockKeyBits + nodeKeyBits - 1) / nodeKeyBits) }

def trieCreate (widePointers : Bool) (keySize itemSizeLg nodeKeyBits dataBlockKeyBits : Nat)
    (emptyValue : Word) : Option Trie :=
  if 6 < itemSizeLg then none
  else if 64 < keySize then none
  else if nodeKeyBits < 1 then none
  else if dataBlockKeyBits < 1 ∨ keySize < dataBlockKeyBits then none
  else some (newTrie widePointers keySize itemSizeLg nodeKeyBits dataBlockKeyBits emptyValue)

def trieCreateDataBlock : List Word :=
  let sz := uint8 (t.dataBlockKeyBits + t.itemSizeLg)
  let sz := if sz < 6 then 6 else sz
  List.replicate (2 ^ (sz - 6)) t.fillValue

def trieLevel (key : Word) (depth : Nat) : Level :=
  let offs := trieGetNodeBitOffs t depth
  let sz := trieGetNodeSize t depth
  { capacity := 2 ^ sz / 2 ^ (t.ptrSzLg - 3)
    pos := (key.toNat >>> offs) &&& (2 ^ (sz - t.ptrSzLg) - 1) }

def trieLevels (key : Word) : List Level :=
  (List.range t.maxDepth).map (trieLevel t key)

def outOfRange (key : Word) : Bool :=
  t.keySize < 64 && 2 ^ t.keySize - 1 < key.toNat

def trieGetNode (key : Word) (autoCreate : Bool) :
    Option (Node Word × Option (List Word)) :=
  if outOfRange t key then some (t.data, none)
  else descend autoCreate (trieCreateDataBlock t) (trieLevels t key) t.data

/-- `pos`, `mask` and `offs`. -/
def trieDataBlockCalcPos (key : Word) : Nat × Word × Nat :=
  let pos := (key.toNat &&& (2 ^ t.dataBlockKeyBits - 1)) >>> (6 - t.itemSizeLg)
  if t.itemSizeLg = 6 then (pos, -1, 0)
  else
    let offs := (key.toNat &&& (2 ^ (6 - t.itemSizeLg) - 1)) <<< t.itemSizeLg
    (pos, low (2 ^ t.itemSizeLg) <<< offs, offs)

def trieSet (key val : Word) : Option (Trie × Bool) := do
  let (root, data) ← trieGetNode t key true
  match data with
  | none => some ({ t with data := root }, false)
  | some data =>
    let (pos, mask, offs) := trieDataBlockCalcPos t key
    let word ← data[pos]?
    let root ← store (data.set pos (write mask offs val word)) (trieLevels t key) root
    some ({ t with data := root }, true)

def trieDataBlockGet (data : Option (List Word)) (key : Word) : Option Word :=
  match data with
  | none => some t.emptyValue
  | some data =>
    let (pos, mask, offs) := trieDataBlockCalcPos t key
    (data[pos]?).map (read mask offs)

def trieGet (key : Word) : Option Word := do
  let (_, data) ← trieGetNode t key false
  trieDataBlockGet t data key

end Strace.Tries
