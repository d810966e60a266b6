import Strace.Trie.Model

/-! The trie against the map that it is. -/
namespace Strace.Tries
open List Option Function

open Packed

structure Valid (t : Trie) : Prop where
  pointers : 5 ≤ t.ptrSzLg ∧ t.ptrSzLg ≤ 6
  key : t.keySize ≤ 64
  item : t.itemSizeLg ≤ 6
  node : 1 ≤ t.nodeKeyBits
  block : 1 ≤ t.dataBlockKeyBits ∧ t.dataBlockKeyBits ≤ t.keySize
  depth : t.maxDepth = (t.keySize - t.dataBlockKeyBits + t.nodeKeyBits - 1) / t.nodeKeyBits
  empty : t.emptyValue &&& low (2 ^ t.itemSizeLg) = t.emptyValue
  fill : t.fillValue = fill t.itemSizeLg t.emptyValue (6 - t.itemSizeLg)

variable {t : Trie}

/-! ## Bits of the key -/

def remainder (t : Trie) : Nat := (t.keySize - t.dataBlockKeyBits - 1) % t.nodeKeyBits + 1

def width (t : Trie) : Nat → Nat
  | 0 => remainder t
  | _ + 1 => t.nodeKeyBits

/-- How many bits the lowest levels use. -/
def lowBits (t : Trie) : Nat → Nat
  | 0 => 0
  | level + 1 => lowBits t level + width t level

theorem lowBits_succ (t : Trie) (level : Nat) :
    lowBits t (level + 1) = remainder t + level * t.nodeKeyBits := by
  induction level with
  | zero => simp [lowBits, width]
  | succ level ih => rw [lowBits, ih, Nat.succ_mul, Nat.add_assoc, width]

theorem mod_mul_eq_iff {x y a b : Nat} :
    x % (a * b) = y % (a * b) ↔ x % a = y % a ∧ x / a % b = y / a % b := by
  constructor
  · intro same
    constructor
    · rw [← Nat.mod_mul_right_mod x a b, same, Nat.mod_mul_right_mod]
    · rw [← Nat.mod_mul_right_div_self x a b, same, Nat.mod_mul_right_div_self]
  · grind [Nat.mod_mul]

theorem digits_eq_iff (t : Trie) (x y n : Nat) :
    (∀ level < n, x / 2 ^ lowBits t level % 2 ^ width t level =
      y / 2 ^ lowBits t level % 2 ^ width t level) ↔
    x % 2 ^ lowBits t n = y % 2 ^ lowBits t n := by
  induction n with
  | zero => simp [lowBits, Nat.mod_one]
  | succ n ih => rw [Nat.forall_lt_succ_right, ih, lowBits, Nat.pow_add, mod_mul_eq_iff]

theorem lowBits_mono {level level' : Nat} (le : level ≤ level') :
    lowBits t level ≤ lowBits t level' := by
  induction le with
  | refl => exact Nat.le_refl _
  | step _ ih => exact Nat.le_trans ih (Nat.le_add_right ..)

section

variable (valid : Valid t)
include valid

theorem Valid.lowBits_maxDepth : lowBits t t.maxDepth = t.keySize - t.dataBlockKeyBits := by
  have pos := valid.node
  rw [valid.depth]
  cases bits : t.keySize - t.dataBlockKeyBits with
  | zero =>
    rw [Nat.div_eq_of_lt (by omega)]
    rfl
  | succ n =>
    have depth : (n + 1 + t.nodeKeyBits - 1) / t.nodeKeyBits = n / t.nodeKeyBits + 1 := by
      rw [Nat.add_right_comm, Nat.add_sub_cancel, Nat.add_div_right n pos]
    have parts := Nat.div_add_mod n t.nodeKeyBits
    rw [depth, lowBits_succ, remainder, bits, Nat.add_sub_cancel, Nat.mul_comm]
    omega

variable {level depth : Nat}

theorem Valid.lowBits_le (inside : level ≤ t.maxDepth) :
    t.dataBlockKeyBits + lowBits t level ≤ t.keySize := by
  have le := lowBits_mono (t := t) inside
  rw [valid.lowBits_maxDepth] at le
  have := valid.block
  omega

theorem Valid.width_lt (inside : level < t.maxDepth) : width t level < 64 := by
  have bits : t.dataBlockKeyBits + (lowBits t level + width t level) ≤ t.keySize :=
    valid.lowBits_le inside
  have := valid.block
  have := valid.key
  omega

theorem Valid.trieGetNodeSize_eq (inner : depth < t.maxDepth) :
    trieGetNodeSize t depth = width t (t.maxDepth - 1 - depth) + t.ptrSzLg := by
  have small : width t (t.maxDepth - 1 - depth) < 64 := valid.width_lt (by omega)
  have pointers := valid.pointers
  unfold trieGetNodeSize
  rw [if_neg (by omega)]
  split
  next last =>
    rw [← last, Nat.add_sub_cancel, Nat.sub_self, width] at small ⊢
    exact Nat.mod_eq_of_lt (by unfold remainder at small; omega)
  next =>
    obtain ⟨level, eq⟩ : ∃ level, t.maxDepth - 1 - depth = level + 1 :=
      ⟨t.maxDepth - 2 - depth, by omega⟩
    rw [eq, width] at small ⊢
    exact Nat.mod_eq_of_lt (by omega)

theorem Valid.trieGetNodeBitOffs_eq (inner : depth < t.maxDepth) :
    trieGetNodeBitOffs t depth = t.dataBlockKeyBits + lowBits t (t.maxDepth - 1 - depth) := by
  have key := valid.key
  have bits : t.dataBlockKeyBits + lowBits t (t.maxDepth - 1 - depth) ≤ t.keySize :=
    valid.lowBits_le (by omega)
  unfold trieGetNodeBitOffs
  rw [if_neg (by omega)]
  split
  next last =>
    rw [← last, Nat.add_sub_cancel, Nat.sub_self]
    rfl
  next =>
    obtain ⟨level, eq⟩ : ∃ level, t.maxDepth - 1 - depth = level + 1 :=
      ⟨t.maxDepth - 2 - depth, by omega⟩
    have lowest : t.maxDepth - 1 - (t.maxDepth - 1) = 0 := Nat.sub_self _
    have above : t.maxDepth - depth - 2 = level := by omega
    rw [valid.trieGetNodeSize_eq (by omega), lowest, width, above, eq,
      lowBits_succ]
    rw [eq, lowBits_succ] at bits
    simp only [uint8]
    omega

theorem Valid.pos_eq (key : Word) (inner : depth < t.maxDepth) :
    (trieLevel t key depth).pos =
      key.toNat / 2 ^ t.dataBlockKeyBits / 2 ^ lowBits t (t.maxDepth - 1 - depth) %
        2 ^ width t (t.maxDepth - 1 - depth) := by
  simp only [trieLevel]
  rw [valid.trieGetNodeSize_eq inner, valid.trieGetNodeBitOffs_eq inner, Nat.add_sub_cancel,
    Nat.and_two_pow_sub_one_eq_mod, Nat.shiftRight_eq_div_pow, Nat.pow_add, Nat.div_div_eq_div_mul]

theorem Valid.pos_lt_capacity (key : Word) {level : Level} (mem : level ∈ trieLevels t key) :
    level.pos < level.capacity := by
  obtain ⟨depth, inner, rfl⟩ := mem_map.mp mem
  have inner := mem_range.mp inner
  rw [valid.pos_eq key inner]
  simp only [trieLevel]
  rw [valid.trieGetNodeSize_eq inner, Nat.pow_div (by omega) (by decide)]
  apply Nat.lt_of_lt_of_le (Nat.mod_lt _ (Nat.two_pow_pos _))
  exact Nat.pow_le_pow_right (by decide) (by omega)

theorem Valid.pos_eq_iff (key key' : Word) :
    (trieLevels t key).map (·.pos) = (trieLevels t key').map (·.pos) ↔
      key.toNat / 2 ^ t.dataBlockKeyBits % 2 ^ (t.keySize - t.dataBlockKeyBits) =
        key'.toNat / 2 ^ t.dataBlockKeyBits % 2 ^ (t.keySize - t.dataBlockKeyBits) := by
  rw [← valid.lowBits_maxDepth, ← digits_eq_iff, trieLevels, trieLevels, List.map_map, List.map_map,
    List.map_inj_left]
  simp only [List.mem_range, Function.comp_apply]
  constructor
  · intro same level inside
    have depth : t.maxDepth - 1 - (t.maxDepth - 1 - level) = level := by omega
    have eq := same (t.maxDepth - 1 - level) (by omega)
    rw [valid.pos_eq key (by omega), valid.pos_eq key' (by omega), depth] at eq
    exact eq
  · grind [valid.pos_eq]

end

/-! ## Items of a data block -/

/-- The place of an item in its word. -/
def itemIndex (t : Trie) (key : Word) : Nat := key.toNat % 2 ^ (6 - t.itemSizeLg)

def wordIndex (t : Trie) (key : Word) : Nat :=
  key.toNat % 2 ^ t.dataBlockKeyBits / 2 ^ (6 - t.itemSizeLg)

theorem calcPos_eq (key : Word) :
    trieDataBlockCalcPos t key =
      (wordIndex t key, low (2 ^ t.itemSizeLg) <<< (itemIndex t key * 2 ^ t.itemSizeLg),
        itemIndex t key * 2 ^ t.itemSizeLg) := by
  unfold trieDataBlockCalcPos
  simp only [Nat.and_two_pow_sub_one_eq_mod, Nat.shiftRight_eq_div_pow, Nat.shiftLeft_eq]
  split
  next whole =>
    simp only [itemIndex, whole, Nat.sub_self, Nat.pow_zero, Nat.mod_one, wordIndex]
    rfl
  next => rfl

variable {key key' : Word} {m : Word → Word}

theorem key_eq (block : key.toNat / 2 ^ t.dataBlockKeyBits = key'.toNat / 2 ^ t.dataBlockKeyBits)
    (word : wordIndex t key = wordIndex t key') (item : itemIndex t key = itemIndex t key') :
    key = key' := by
  have low : key.toNat % 2 ^ t.dataBlockKeyBits = key'.toNat % 2 ^ t.dataBlockKeyBits := by
    unfold wordIndex at word
    unfold itemIndex at item
    rcases Nat.le_total t.dataBlockKeyBits (6 - t.itemSizeLg) with short | long
    · obtain ⟨d, eq⟩ := Nat.exists_eq_add_of_le short
      rw [eq, Nat.pow_add] at item
      exact (mod_mul_eq_iff.mp item).1
    · obtain ⟨d, eq⟩ := Nat.exists_eq_add_of_le long
      rw [eq, Nat.pow_add, Nat.mod_mul_right_div_self, Nat.mod_mul_right_div_self] at word
      rw [eq, Nat.pow_add]
      exact mod_mul_eq_iff.mpr ⟨item, word⟩
  apply BitVec.eq_of_toNat_eq
  rw [← Nat.div_add_mod key.toNat (2 ^ t.dataBlockKeyBits), block, low, Nat.div_add_mod]

def itemOf (t : Trie) (key : Word) (words : List Word) : Option Word :=
  (words[wordIndex t key]?).map
    (read (low (2 ^ t.itemSizeLg) <<< (itemIndex t key * 2 ^ t.itemSizeLg))
      (itemIndex t key * 2 ^ t.itemSizeLg))

def writeItem (t : Trie) (key val : Word) (words : List Word) (word : Word) : List Word :=
  words.set (wordIndex t key)
    (write (low (2 ^ t.itemSizeLg) <<< (itemIndex t key * 2 ^ t.itemSizeLg))
      (itemIndex t key * 2 ^ t.itemSizeLg) val word)

theorem outOfRange_iff (key : Word) : outOfRange t key = true ↔ 2 ^ t.keySize ≤ key.toNat := by
  have pos := Nat.two_pow_pos t.keySize
  unfold outOfRange
  rw [Bool.and_eq_true, decide_eq_true_iff, decide_eq_true_iff]
  constructor
  · omega
  · intro le
    refine ⟨Nat.lt_of_not_le fun wide => ?_, by omega⟩
    have all : 2 ^ 64 ≤ 2 ^ t.keySize := Nat.pow_le_pow_right (by decide) wide
    omega

section

variable (valid : Valid t)
include valid

theorem Valid.item_inside (key : Word) :
    itemIndex t key * 2 ^ t.itemSizeLg + 2 ^ t.itemSizeLg ≤ 64 := by
  have whole : 2 ^ (6 - t.itemSizeLg) * 2 ^ t.itemSizeLg = 64 := by
    rw [← Nat.pow_add, Nat.sub_add_cancel valid.item]
  rw [← Nat.succ_mul, ← whole]
  exact Nat.mul_le_mul_right _ (Nat.mod_lt _ (Nat.two_pow_pos _))

theorem Valid.wordIndex_lt (key : Word) : wordIndex t key < (trieCreateDataBlock t).length := by
  have item := valid.item
  have block := valid.block
  have keyBits := valid.key
  have small : uint8 (t.dataBlockKeyBits + t.itemSizeLg) = t.dataBlockKeyBits + t.itemSizeLg :=
    Nat.mod_eq_of_lt (by omega)
  have lt := Nat.mod_lt key.toNat (Nat.two_pow_pos t.dataBlockKeyBits)
  unfold trieCreateDataBlock
  simp only [length_replicate]
  apply Nat.div_lt_of_lt_mul
  apply Nat.lt_of_lt_of_le lt
  rw [← Nat.pow_add]
  apply Nat.pow_le_pow_right (by decide)
  split <;> omega

theorem Valid.item_fresh (key : Word) :
    itemOf t key (trieCreateDataBlock t) = some t.emptyValue := by
  have inside := valid.wordIndex_lt key
  have word : (trieCreateDataBlock t)[wordIndex t key]? = some t.fillValue := by
    rw [getElem?_eq_getElem inside]
    simp only [trieCreateDataBlock, getElem_replicate]
  have small : ∀ i, 2 ^ t.itemSizeLg ≤ i → t.emptyValue.getLsbD i = false := by
    intro i high
    rw [← valid.empty, BitVec.getLsbD_and, getLsbD_low, decide_eq_false (by omega), Bool.and_false]
  have place : itemIndex t key < 2 ^ (6 - t.itemSizeLg) := Nat.mod_lt _ (Nat.two_pow_pos _)
  rw [itemOf, word, map_some, valid.fill, read_fill small valid.item place]

variable {words : List Word} {word key key' : Word}

theorem Valid.item_writeItem_self (found : words[wordIndex t key]? = some word) (val : Word) :
    itemOf t key (writeItem t key val words word) = some (val &&& low (2 ^ t.itemSizeLg)) := by
  have inside := (List.getElem?_eq_some_iff.mp found).1
  rw [itemOf, writeItem, List.getElem?_set_self inside, Option.map_some,
    read_write_self (valid.item_inside key)]

theorem Valid.item_writeItem_other (found : words[wordIndex t key]? = some word)
    (block : key.toNat / 2 ^ t.dataBlockKeyBits = key'.toNat / 2 ^ t.dataBlockKeyBits)
    (other : key ≠ key') (val : Word) :
    itemOf t key' (writeItem t key val words word) = itemOf t key' words := by
  unfold itemOf writeItem
  by_cases same : wordIndex t key = wordIndex t key'
  · have apart : itemIndex t key ≠ itemIndex t key' := fun eq => other (key_eq block same eq)
    have inside := (List.getElem?_eq_some_iff.mp found).1
    rw [← same, List.getElem?_set_self inside, found, Option.map_some, Option.map_some,
      read_write_other (valid.item_inside key')]
    rcases Nat.lt_or_gt_of_ne apart with lt | gt
    · left
      rw [← Nat.succ_mul]
      exact Nat.mul_le_mul_right _ lt
    · right
      rw [← Nat.succ_mul]
      exact Nat.mul_le_mul_right _ gt
  · rw [List.getElem?_set_ne same]

theorem Valid.block_eq (inside : key.toNat < 2 ^ t.keySize) (inside' : key'.toNat < 2 ^ t.keySize)
    (same : (trieLevels t key).map (·.pos) = (trieLevels t key').map (·.pos)) :
    key.toNat / 2 ^ t.dataBlockKeyBits = key'.toNat / 2 ^ t.dataBlockKeyBits := by
  have high : ∀ key : Word, key.toNat < 2 ^ t.keySize →
      key.toNat / 2 ^ t.dataBlockKeyBits < 2 ^ (t.keySize - t.dataBlockKeyBits) := by
    intro key inside
    apply Nat.div_lt_of_lt_mul
    rw [← Nat.pow_add, Nat.add_sub_cancel' valid.block.2]
    exact inside
  have digits := (valid.pos_eq_iff key key').mp same
  rwa [Nat.mod_eq_of_lt (high key inside), Nat.mod_eq_of_lt (high key' inside')] at digits

end

/-! ## The map -/

def capacities (t : Trie) : List Nat :=
  (List.range t.maxDepth).map fun depth => 2 ^ trieGetNodeSize t depth / 2 ^ (t.ptrSzLg - 3)

theorem map_capacity (t : Trie) (key : Word) :
    (trieLevels t key).map (·.capacity) = capacities t := by
  rw [trieLevels, List.map_map]
  rfl

/-- The trie holds a value for every key. -/
structure Refines (t : Trie) (m : Word → Word) : Prop where
  valid : Valid t
  shaped : Shaped (trieCreateDataBlock t).length (capacities t) t.data
  get : ∀ key, trieGet t key = some (m key)

theorem trieGet_eq (valid : Valid t)
    (shaped : Shaped (trieCreateDataBlock t).length (capacities t) t.data) (key : Word) :
    trieGet t key =
      if outOfRange t key then some t.emptyValue
      else match find ((trieLevels t key).map (·.pos)) t.data with
        | none => some t.emptyValue
        | some words => itemOf t key words := by
  unfold trieGet trieGetNode
  split
  · rfl
  · rw [← map_capacity t key] at shaped
    rw [descend_find shaped fun level => valid.pos_lt_capacity key]
    cases find ((trieLevels t key).map (·.pos)) t.data with
    | none => rfl
    | some words =>
      simp only [trieDataBlockGet, calcPos_eq]
      rfl

theorem trieGet_eq_of_find (valid : Valid t)
    (shaped : Shaped (trieCreateDataBlock t).length (capacities t) t.data)
    (inside : outOfRange t key = false) :
    trieGet t key = itemOf t key
      ((find ((trieLevels t key).map (·.pos)) t.data).getD (trieCreateDataBlock t)) := by
  rw [trieGet_eq valid shaped, inside]
  cases find ((trieLevels t key).map (·.pos)) t.data with
  | none => exact (valid.item_fresh key).symm
  | some words => rfl

section

variable {keySize itemSizeLg nodeKeyBits dataBlockKeyBits : Nat}

theorem trieCreate_eq (key : keySize ≤ 64) (item : itemSizeLg ≤ 6) (node : 1 ≤ nodeKeyBits)
    (block : 1 ≤ dataBlockKeyBits ∧ dataBlockKeyBits ≤ keySize) (widePointers : Bool)
    (emptyValue : Word) :
    trieCreate widePointers keySize itemSizeLg nodeKeyBits dataBlockKeyBits emptyValue =
      some (newTrie widePointers keySize itemSizeLg nodeKeyBits dataBlockKeyBits emptyValue) := by
  unfold trieCreate
  rw [if_neg (by omega), if_neg (by omega), if_neg (by omega), if_neg (by omega)]

theorem ptrSzLg_bounds (widePointers : Bool) :
    5 ≤ ptrSzLg widePointers ∧ ptrSzLg widePointers ≤ 6 := by
  cases widePointers <;> decide

theorem refines_newTrie (key : keySize ≤ 64) (item : itemSizeLg ≤ 6) (node : 1 ≤ nodeKeyBits)
    (block : 1 ≤ dataBlockKeyBits ∧ dataBlockKeyBits ≤ keySize) (widePointers : Bool)
    (emptyValue : Word) :
    Refines (newTrie widePointers keySize itemSizeLg nodeKeyBits dataBlockKeyBits emptyValue)
      (fun _ => emptyValue &&& low (2 ^ itemSizeLg)) := by
  have valid : Valid
      (newTrie widePointers keySize itemSizeLg nodeKeyBits dataBlockKeyBits emptyValue) :=
    { pointers := ptrSzLg_bounds widePointers
      key := key
      item := item
      node := node
      block := block
      depth := Nat.mod_eq_of_lt (Nat.div_lt_of_lt_mul (by omega))
      empty := by
        simp only [newTrie]
        rw [BitVec.and_assoc, BitVec.and_self]
      fill := rfl }
  refine ⟨valid, shaped_null _, fun key => ?_⟩
  rw [trieGet_eq valid (shaped_null _)]
  simp only [newTrie, find_null, ite_self]

end

def setMap (t : Trie) (m : Word → Word) (key val : Word) : Word → Word :=
  if key.toNat < 2 ^ t.keySize then Function.update m key (val &&& low (2 ^ t.itemSizeLg)) else m

theorem trieSet_inside (valid : Valid t)
    (shaped : Shaped (trieCreateDataBlock t).length (capacities t) t.data)
    (inside : outOfRange t key = false) (val : Word) :
    ∃ root words word, words =
      (find ((trieLevels t key).map (·.pos)) t.data).getD (trieCreateDataBlock t) ∧
      words[wordIndex t key]? = some word ∧
        trieSet t key val = some ({ t with data := root }, true) ∧
      Changes (trieCreateDataBlock t).length (trieLevels t key) t.data root
        (writeItem t key val words word) := by
  rw [← map_capacity t key] at shaped
  obtain ⟨root, down, created⟩ := descend_create rfl shaped fun level => valid.pos_lt_capacity key
  have full := created.shaped.length_of_find (by simp) created.here
  have place := valid.wordIndex_lt key
  rw [← full] at place
  obtain ⟨word, found⟩ : ∃ word, ((find ((trieLevels t key).map (·.pos)) t.data).getD
      (trieCreateDataBlock t))[wordIndex t key]? = some word := ⟨_, getElem?_eq_getElem place⟩
  generalize (find ((trieLevels t key).map (·.pos)) t.data).getD (trieCreateDataBlock t) =
    words at *
  have length : (writeItem t key val words word).length = (trieCreateDataBlock t).length :=
    (length_set ..).trans full
  obtain ⟨root', stored, changed⟩ := store_changes length created.shaped created.here
  refine ⟨root', words, word, rfl, found, ?_, created.trans changed⟩
  unfold writeItem at stored
  simp only [trieSet, trieGetNode, inside, Bool.false_eq_true, if_false, down, bind_eq_bind,
    bind_some, calcPos_eq, found, stored]

theorem lt_of_inRange (range : outOfRange t key = false) : key.toNat < 2 ^ t.keySize := by
  rw [← Bool.not_eq_true, outOfRange_iff] at range
  exact Nat.lt_of_not_le range

theorem trieGet_changes (valid : Valid t)
    (shaped : Shaped (trieCreateDataBlock t).length (capacities t) t.data)
    (range : outOfRange t key = false) {val word : Word} {words : List Word} {root : Node Word}
    (eq : words = (find ((trieLevels t key).map (·.pos)) t.data).getD (trieCreateDataBlock t))
    (found : words[wordIndex t key]? = some word)
    (changes : Changes (trieCreateDataBlock t).length (trieLevels t key) t.data root
      (writeItem t key val words word)) (range' : outOfRange t key' = false) :
    itemOf t key' ((find ((trieLevels t key').map (·.pos)) root).getD (trieCreateDataBlock t)) =
      if key' = key then some (val &&& low (2 ^ t.itemSizeLg)) else trieGet t key' := by
  rw [trieGet_eq_of_find valid shaped range']
  by_cases same : (trieLevels t key).map (·.pos) = (trieLevels t key').map (·.pos)
  · rw [← same, changes.here, getD_some]
    have block := valid.block_eq (lt_of_inRange range) (lt_of_inRange range') same
    split
    next here =>
      rw [here]
      exact valid.item_writeItem_self found val
    next other => rw [valid.item_writeItem_other found block (Ne.symm other), eq]
  · have other : key' ≠ key := by
      rintro rfl
      exact same rfl
    have length : ((trieLevels t key').map (·.pos)).length = (trieLevels t key).length := by
      simp only [trieLevels, length_map]
    rw [if_neg other, changes.frame _ length (Ne.symm same)]

theorem Refines.trieSet (refines : Refines t m) (key val : Word) :
    ∃ t', trieSet t key val = some (t', decide (key.toNat < 2 ^ t.keySize)) ∧
      Refines t' (setMap t m key val) ∧ t'.keySize = t.keySize ∧ t'.itemSizeLg = t.itemSizeLg := by
  obtain ⟨valid, shaped, get⟩ := refines
  cases range : outOfRange t key with
  | true =>
    have beyond := (outOfRange_iff key).mp range
    refine ⟨t, ?_, ?_, rfl, rfl⟩
    · simp only [Tries.trieSet, trieGetNode, range, if_true, bind_eq_bind, bind_some,
        Nat.not_lt.mpr beyond, decide_false]
    · rw [setMap, if_neg (Nat.not_lt.mpr beyond)]
      exact ⟨valid, shaped, get⟩
  | false =>
    have within := lt_of_inRange range
    obtain ⟨root, words, word, eq, found, set, changes⟩ := trieSet_inside valid shaped range val
    have shaped' : Shaped (trieCreateDataBlock t).length (capacities t) root := by
      simp [← map_capacity t key, changes.shaped]
    have valid' : Valid { t with data := root } := ⟨valid.pointers, valid.key, valid.item,
      valid.node, valid.block, valid.depth, valid.empty, valid.fill⟩
    refine ⟨_, ?_, ⟨valid', shaped', fun key' => ?_⟩, rfl, rfl⟩
    · rw [set, decide_eq_true within]
    · rw [setMap, if_pos within]
      cases range' : outOfRange t key' with
      | true =>
        have other : key' ≠ key := by
          grind
        rw [update_of_ne other, ← get, trieGet_eq valid' shaped', trieGet_eq valid shaped]
        exact (if_pos range').trans (if_pos range').symm
      | false =>
        have after := trieGet_changes valid shaped range eq found changes range'
        rw [trieGet_eq_of_find valid' shaped' range']
        refine after.trans ?_
        by_cases here : key' = key
        · rw [if_pos here, here, update_self]
        · rw [if_neg here, update_of_ne here, get]

/-! ## Every sequence of sets -/

def setAll (t : Trie) : List (Word × Word) → Option (Trie × List Bool)
  | [] => some (t, [])
  | (key, val) :: rest => do
    let (t, result) ← trieSet t key val
    let (t, results) ← setAll t rest
    some (t, result :: results)

def lastSet (key : Word) : List (Word × Word) → Option Word
  | [] => none
  | (key', val) :: rest => (lastSet key rest).or (if key' = key then some val else none)

def expected (keySize itemSizeLg : Nat) (emptyValue : Word) (sets : List (Word × Word))
    (key : Word) : Word :=
  let val := if key.toNat < 2 ^ keySize then (lastSet key sets).getD emptyValue else emptyValue
  val &&& low (2 ^ itemSizeLg)

theorem Refines.setAll (refines : Refines t m) (sets : List (Word × Word)) :
    ∃ t', setAll t sets = some (t', sets.map fun set => decide (set.1.toNat < 2 ^ t.keySize)) ∧
      ∀ key, trieGet t' key = some
        (if key.toNat < 2 ^ t.keySize then
          ((lastSet key sets).map (· &&& low (2 ^ t.itemSizeLg))).getD (m key) else m key) := by
  induction sets generalizing t m with
  | nil =>
    refine ⟨t, rfl, fun key => ?_⟩
    rw [refines.get]
    simp only [lastSet, map_none, getD_none, ite_self]
  | cons set rest ih =>
    obtain ⟨key, val⟩ := set
    obtain ⟨t', set, refines', size, item⟩ := refines.trieSet key val
    obtain ⟨t'', all, get⟩ := ih refines'
    rw [size] at all get
    rw [item] at get
    refine ⟨t'', ?_, fun key' => ?_⟩
    · simp only [Tries.setAll, set, all, bind_eq_bind, bind_some, map_cons]
    · rw [get, setMap]
      by_cases within : key'.toNat < 2 ^ t.keySize
      · simp only [within, lastSet]
        cases lastSet key' rest with
        | some later => rfl
        | none =>
          grind
      · have other : key.toNat < 2 ^ t.keySize → key' ≠ key := by
          rintro range rfl
          exact within range
        simp only [within, if_false]
        split
        next range => rw [update_of_ne (other range)]
        next => rfl

theorem trie_is_map (widePointers : Bool) {keySize itemSizeLg nodeKeyBits dataBlockKeyBits : Nat}
    (key : keySize ≤ 64) (item : itemSizeLg ≤ 6) (node : 1 ≤ nodeKeyBits ∧ nodeKeyBits ≤ 16)
    (block : 1 ≤ dataBlockKeyBits ∧ dataBlockKeyBits ≤ 16 ∧ dataBlockKeyBits ≤ keySize)
    (emptyValue : Word) (sets : List (Word × Word)) :
    ∃ t t', trieCreate widePointers keySize itemSizeLg nodeKeyBits dataBlockKeyBits emptyValue =
        some t ∧
      setAll t sets = some (t', sets.map fun set => decide (set.1.toNat < 2 ^ keySize)) ∧
      ∀ key, trieGet t' key = some (expected keySize itemSizeLg emptyValue sets key) := by
  have refines := refines_newTrie key item node.1 ⟨block.1, block.2.2⟩ widePointers emptyValue
  obtain ⟨t', all, get⟩ := refines.setAll sets
  refine ⟨_, t', trieCreate_eq key item node.1 ⟨block.1, block.2.2⟩ widePointers emptyValue, all,
    fun key => ?_⟩
  rw [get, expected]
  simp only [newTrie]
  by_cases within : key.toNat < 2 ^ keySize
  · simp only [within]
    cases lastSet key sets <;> rfl
  · simp only [within, if_false]

theorem trie_is_map_three_sets :
    ∃ t t', trieCreate true 5 2 2 1 9 = some t ∧
      setAll t [(3, 0x15), (40, 1), (2, 7)] = some (t', [true, false, true]) ∧
      trieGet t' 3 = some 5 ∧ trieGet t' 2 = some 7 ∧ trieGet t' 40 = some 9 := by
  obtain ⟨t, t', created, all, get⟩ := trie_is_map true (by decide : 5 ≤ 64) (by decide : 2 ≤ 6)
    (by decide : 1 ≤ 2 ∧ 2 ≤ 16) (by decide : 1 ≤ 1 ∧ 1 ≤ 16 ∧ 1 ≤ 5) 9
    [(3, 0x15), (40, 1), (2, 7)]
  exact ⟨t, t', created, all, get 3, get 2, get 40⟩

end Strace.Tries
