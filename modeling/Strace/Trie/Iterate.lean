import Mathlib.Data.BitVec
import Strace.Loops
import Strace.Trie.Refinement

/-! `trie_iterate_keys` of `trie.c`. -/
namespace Strace.Tries
open List BitVec

open Loops Packed

abbrev Iteration := List (Word × Word) × Word

variable (t : Trie)

def clipEnd (last : Word) : Word :=
  if t.keySize < 64 then if last > low t.keySize then low t.keySize else last else last

def parentNodeBitOff (depth : Nat) : Nat :=
  if depth = 0 then t.keySize else trieGetNodeBitOffs t (depth - 1)

def childIndex (depth : Nat) (key : Word) : Word :=
  let nodeBitOff := trieGetNodeBitOffs t depth
  (key >>> nodeBitOff) &&& low (parentNodeBitOff t depth - nodeBitOff)

/-- `child_start` and `child_end`. -/
def childRange (depth : Nat) (start last i : Word) : Word × Word :=
  let firstKeyInNode := start &&& ~~~ low (parentNodeBitOff t depth)
  let childKeyCount := BitVec.ofNat 64 (2 ^ trieGetNodeBitOffs t depth)
  let childStart := firstKeyInNode + i * childKeyCount
  let childEnd := firstKeyInNode + (i + 1) * childKeyCount - 1
  (if childStart < start then start else childStart, if childEnd > last then last else childEnd)

def iterateBlock (fuel : Nat) (words : List Word) (start last : Word) :
    Option Iteration := do
  let calls ← upTo (fun i => (trieDataBlockGet t (some words) i).map (i, ·)) fuel start last
  some (calls, last - start + 1)

def trieIterateKeysNode (t : Trie) (fuel : Nat) :
    (levels : Nat) → Node Word → (start last : Word) → Option Iteration
  | _, .null, _, _ => some ([], 0)
  | 0, .block words, start, last =>
    if start > last then some ([], 0) else iterateBlock t fuel words start (clipEnd t last)
  | levels + 1, .inner capacity children, start, last =>
    if start > last then some ([], 0)
    else do
      let last := clipEnd t last
      let depth := t.maxDepth - (levels + 1)
      let visit := fun i =>
        let (childStart, childEnd) := childRange t depth start last i
        if i.toNat < capacity then
          trieIterateKeysNode t fuel levels (children i.toNat) childStart childEnd
        else none
      let results ← upTo visit fuel (childIndex t depth start) (childIndex t depth last)
      some (results.flatMap (·.1), (results.map (·.2)).sum)
  | _, _, _, _ => none

def trieIterateKeys (fuel : Nat) (start last : Word) : Option Iteration :=
  trieIterateKeysNode t fuel t.maxDepth t.data start last

/-! ## Subtrees -/

variable {t : Trie}

def keyBits (t : Trie) (levels : Nat) : Nat := t.dataBlockKeyBits + lowBits t levels

def pathBelow (t : Trie) : (levels : Nat) → (key : Nat) → List Nat
  | 0, _ => []
  | levels + 1, key => key / 2 ^ keyBits t levels % 2 ^ width t levels :: pathBelow t levels key

def capacitiesBelow (t : Trie) : (levels : Nat) → List Nat
  | 0 => []
  | levels + 1 => 2 ^ (width t levels + t.ptrSzLg) / 2 ^ (t.ptrSzLg - 3) :: capacitiesBelow t levels

theorem keyBits_succ (t : Trie) (levels : Nat) :
    keyBits t (levels + 1) = keyBits t levels + width t levels :=
  (Nat.add_assoc ..).symm

theorem range_succ_reversed (f : Nat → Nat) (levels depth : Nat) (le : levels + 1 ≤ depth) :
    (List.range' (depth - (levels + 1)) (levels + 1)).map f =
      f (depth - (levels + 1)) :: (List.range' (depth - levels) levels).map f := by
  have next : depth - (levels + 1) + 1 = depth - levels := by omega
  rw [range'_succ, map_cons, next]

section

variable (valid : Valid t)
include valid

theorem Valid.keyBits_maxDepth : keyBits t t.maxDepth = t.keySize := by
  rw [keyBits, valid.lowBits_maxDepth, Nat.add_sub_cancel' valid.block.2]

variable {levels : Nat}

theorem Valid.keyBits_le (le : levels ≤ t.maxDepth) : keyBits t levels ≤ t.keySize :=
  valid.lowBits_le le

theorem Valid.width_pos (levels : Nat) : 0 < width t levels := by
  cases levels with
  | zero => exact Nat.succ_pos _
  | succ => exact valid.node

theorem Valid.nodeBitOff_eq (le : levels + 1 ≤ t.maxDepth) :
    trieGetNodeBitOffs t (t.maxDepth - (levels + 1)) = keyBits t levels := by
  have level : t.maxDepth - 1 - (t.maxDepth - (levels + 1)) = levels := by omega
  rw [valid.trieGetNodeBitOffs_eq (by omega), level, keyBits]

theorem Valid.parentNodeBitOff_eq (le : levels + 1 ≤ t.maxDepth) :
    parentNodeBitOff t (t.maxDepth - (levels + 1)) = keyBits t (levels + 1) := by
  unfold parentNodeBitOff
  split
  · have top : levels + 1 = t.maxDepth := by omega
    rw [top, valid.keyBits_maxDepth]
  · next inner =>
    have above : t.maxDepth - (levels + 1) - 1 = t.maxDepth - (levels + 1 + 1) := by omega
    rw [above, valid.nodeBitOff_eq (by omega)]

theorem Valid.path_eq (key : Word) (le : levels ≤ t.maxDepth) :
    (List.range' (t.maxDepth - levels) levels).map (fun depth => (trieLevel t key depth).pos) =
      pathBelow t levels key.toNat := by
  induction levels with
  | zero => rfl
  | succ levels ih =>
    have level : t.maxDepth - 1 - (t.maxDepth - (levels + 1)) = levels := by omega
    rw [range_succ_reversed _ _ _ le, ih (by omega), valid.pos_eq key (by omega), level,
      Nat.div_div_eq_div_mul, ← Nat.pow_add]
    rfl

theorem Valid.trieLevels_pos (key : Word) :
    (trieLevels t key).map (·.pos) = pathBelow t t.maxDepth key.toNat := by
  rw [← valid.path_eq key (Nat.le_refl _), Nat.sub_self, ← range_eq_range', trieLevels,
    map_map]
  rfl

theorem Valid.capacities_eq : capacities t = capacitiesBelow t t.maxDepth := by
  have below {levels : Nat} (le : levels ≤ t.maxDepth) :
      (List.range' (t.maxDepth - levels) levels).map
        (fun depth => 2 ^ trieGetNodeSize t depth / 2 ^ (t.ptrSzLg - 3)) =
        capacitiesBelow t levels := by
    induction levels with
    | zero => rfl
    | succ levels ih =>
      have level : t.maxDepth - 1 - (t.maxDepth - (levels + 1)) = levels := by omega
      rw [range_succ_reversed _ _ _ le, ih (by omega), valid.trieGetNodeSize_eq (by omega), level]
      rfl
  rw [← below (Nat.le_refl _), Nat.sub_self, ← range_eq_range', capacities]

omit valid in
theorem two_pow_width_le_capacity (levels : Nat) :
    2 ^ width t levels ≤ 2 ^ (width t levels + t.ptrSzLg) / 2 ^ (t.ptrSzLg - 3) := by
  rw [Nat.pow_div (by omega) (by decide)]
  exact Nat.pow_le_pow_right (by decide) (by omega)

end

/-! ## Words -/

variable {bits : Nat}

theorem toNat_low (le : bits ≤ 64) : (low bits).toNat = 2 ^ bits - 1 := by
  have : 2 ^ bits ≤ 2 ^ 64 := Nat.pow_le_pow_right (by decide) le
  rw [low, toNat_ofNat, Nat.mod_eq_of_lt (by omega)]

theorem toNat_and_not_low (word : Word) (bits : Nat) :
    (word &&& ~~~ low bits).toNat = word.toNat / 2 ^ bits * 2 ^ bits := by
  have shifted : word &&& ~~~ low bits = (word >>> bits) <<< bits := by
    apply eq_of_getLsbD_eq
    intro i lt
    rw [getLsbD_and, getLsbD_not, getLsbD_low]
    by_cases below : i < bits
    · simp [below]
    · have index : bits + (i - bits) = i := by omega
      simp [lt, below, index]
  have small : word.toNat / 2 ^ bits * 2 ^ bits ≤ word.toNat := Nat.div_mul_le_self ..
  rw [shifted, toNat_shiftLeft, toNat_ushiftRight, Nat.shiftRight_eq_div_pow,
    Nat.shiftLeft_eq, Nat.mod_eq_of_lt (by omega)]

theorem succ_mul_le {word : Nat} (small : word < 2 ^ 64) (le : bits ≤ 64) :
    (word / 2 ^ bits + 1) * 2 ^ bits ≤ 2 ^ 64 := by
  have parts : 2 ^ 64 = 2 ^ (64 - bits) * 2 ^ bits := by
    rw [← Nat.pow_add, Nat.sub_add_cancel le]
  rw [parts] at small ⊢
  exact Nat.mul_le_mul_right _ (Nat.div_lt_of_lt_mul (by rwa [Nat.mul_comm]))

/-! ## Children -/

section

variable (valid : Valid t) {levels : Nat} (le : levels + 1 ≤ t.maxDepth)
include valid le

theorem Valid.toNat_childIndex (key : Word) :
    (childIndex t (t.maxDepth - (levels + 1)) key).toNat =
      key.toNat / 2 ^ keyBits t levels % 2 ^ width t levels := by
  have bits : keyBits t (levels + 1) - keyBits t levels = width t levels := by
    rw [keyBits_succ, Nat.add_sub_cancel_left]
  have small := valid.width_lt (show levels < t.maxDepth by omega)
  simp only [childIndex, valid.nodeBitOff_eq le, valid.parentNodeBitOff_eq le, bits]
  rw [toNat_and, toNat_ushiftRight, toNat_low (by omega),
    Nat.and_two_pow_sub_one_eq_mod, Nat.shiftRight_eq_div_pow]

theorem Valid.toNat_childRange (start last : Word) {i : Word}
    (inside : i.toNat < 2 ^ width t levels) :
    let child := start.toNat / 2 ^ keyBits t (levels + 1) * 2 ^ width t levels + i.toNat
    let range := childRange t (t.maxDepth - (levels + 1)) start last i
    range.1.toNat = max start.toNat (child * 2 ^ keyBits t levels) ∧
      range.2.toNat = min last.toNat ((child + 1) * 2 ^ keyBits t levels - 1) := by
  have keySize := valid.key
  have bits := valid.keyBits_le le
  have pos := valid.width_pos levels
  rw [keyBits_succ] at bits
  have fits := succ_mul_le start.isLt (show keyBits t (levels + 1) ≤ 64 by rw [keyBits_succ]; omega)
  have one : 2 ^ keyBits t levels < 2 ^ 64 := Nat.pow_lt_pow_right (by decide) (by omega)
  have some := Nat.two_pow_pos (keyBits t levels)
  have wide : 2 ^ width t levels < 2 ^ 64 :=
    Nat.pow_lt_pow_right (by decide) (valid.width_lt (show levels < t.maxDepth by omega))
  have next : (i + 1).toNat = i.toNat + 1 := toNat_succ (by omega)
  have last_le : (i.toNat + 1) * 2 ^ keyBits t levels ≤ 2 ^ width t levels * 2 ^ keyBits t levels :=
    Nat.mul_le_mul_right _ inside
  simp only [childRange, valid.nodeBitOff_eq le, valid.parentNodeBitOff_eq le]
  rw [keyBits_succ, Nat.pow_add] at fits
  rw [keyBits_succ, Nat.pow_add]
  generalize first : start &&& ~~~ low (keyBits t levels + width t levels) = firstKeyInNode
  have firstKey : firstKeyInNode.toNat =
      start.toNat / (2 ^ keyBits t levels * 2 ^ width t levels) *
        (2 ^ keyBits t levels * 2 ^ width t levels) := by
    rw [← first, toNat_and_not_low, Nat.pow_add]
  generalize start.toNat / (2 ^ keyBits t levels * 2 ^ width t levels) = q at *
  generalize 2 ^ keyBits t levels = size at *
  generalize 2 ^ width t levels = count at *
  have base : q * count * size = firstKeyInNode.toNat := by
    rw [firstKey, Nat.mul_assoc, Nat.mul_comm count]
  rw [Nat.add_mul] at last_le
  rw [Nat.succ_mul, ← firstKey, Nat.mul_comm size] at fits
  have childStart : (firstKeyInNode + i * BitVec.ofNat 64 size).toNat =
      (q * count + i.toNat) * size := by
    rw [toNat_add, toNat_mul, toNat_ofNat, Nat.mod_eq_of_lt one,
      Nat.add_mod_mod, Nat.add_mul, base, Nat.mod_eq_of_lt (by omega)]
  have childEnd : (firstKeyInNode + (i + 1) * BitVec.ofNat 64 size - 1).toNat =
      (q * count + i.toNat + 1) * size - 1 := by
    have product : (q * count + i.toNat + 1) * size =
        firstKeyInNode.toNat + (i.toNat * size + size) := by
      rw [Nat.add_assoc, Nat.add_mul, base, Nat.add_mul, Nat.one_mul]
    rw [toNat_sub, toNat_add, toNat_mul, next, toNat_ofNat,
      Nat.mod_eq_of_lt one, Nat.add_mul]
    generalize i.toNat * size = offset at *
    show (2 ^ 64 - 1 + _) % 2 ^ 64 = _
    omega
  rw [← childStart, ← childEnd]
  constructor
  · split
    · next less => exact (Nat.max_eq_left (Nat.le_of_lt less)).symm
    · next more => exact (Nat.max_eq_right (Nat.le_of_not_lt more)).symm
  · split
    · next more => exact (Nat.min_eq_left (Nat.le_of_lt more)).symm
    · next less => exact (Nat.min_eq_right (Nat.le_of_not_lt less)).symm

end

theorem div_eq_digits (key size count : Nat) :
    key / size = key / (size * count) * count + key / size % count := by
  rw [← Nat.div_div_eq_div_mul, Nat.div_add_mod']

theorem child_bounds {size count start last i : Nat} (pos : 0 < size)
    (same : start / (size * count) = last / (size * count)) (low : start / size % count ≤ i)
    (high : i ≤ last / size % count) :
    (start / (size * count) * count + i) * size ≤ last ∧
      start < (start / (size * count) * count + i + 1) * size := by
  have first := div_eq_digits start size count
  have final := div_eq_digits last size count
  rw [← same] at final
  constructor
  · apply (Nat.le_div_iff_mul_le pos).mp
    omega
  · apply (Nat.div_lt_iff_lt_mul pos).mp
    omega

section

variable (valid : Valid t) {levels : Nat} (le : levels + 1 ≤ t.maxDepth) {start last : Word}
  (same : start.toNat / 2 ^ keyBits t (levels + 1) = last.toNat / 2 ^ keyBits t (levels + 1))
include valid le same

theorem Valid.childIndex_le (order : start ≤ last) :
    childIndex t (t.maxDepth - (levels + 1)) start ≤
      childIndex t (t.maxDepth - (levels + 1)) last := by
  rw [keyBits_succ, Nat.pow_add] at same
  rw [le_def, valid.toNat_childIndex le, valid.toNat_childIndex le]
  have first := div_eq_digits start.toNat (2 ^ keyBits t levels) (2 ^ width t levels)
  have final := div_eq_digits last.toNat (2 ^ keyBits t levels) (2 ^ width t levels)
  have ordered : start.toNat / 2 ^ keyBits t levels ≤ last.toNat / 2 ^ keyBits t levels :=
    Nat.div_le_div_right order
  rw [same] at first
  omega

variable {i : Word}

theorem Valid.childRange_spec (above : childIndex t (t.maxDepth - (levels + 1)) start ≤ i)
    (below : i ≤ childIndex t (t.maxDepth - (levels + 1)) last) :
    let child := start.toNat / 2 ^ keyBits t (levels + 1) * 2 ^ width t levels + i.toNat
    let range := childRange t (t.maxDepth - (levels + 1)) start last i
    child * 2 ^ keyBits t levels ≤ last.toNat ∧
      start.toNat < (child + 1) * 2 ^ keyBits t levels ∧
      range.1.toNat = max start.toNat (child * 2 ^ keyBits t levels) ∧
      range.2.toNat = min last.toNat ((child + 1) * 2 ^ keyBits t levels - 1) := by
  rw [le_def, valid.toNat_childIndex le] at above below
  have inside := Nat.lt_of_le_of_lt below (Nat.mod_lt _ (Nat.two_pow_pos _))
  have bounds := child_bounds (Nat.two_pow_pos (keyBits t levels))
    (by rwa [keyBits_succ, Nat.pow_add] at same) above below
  rw [← Nat.pow_add, ← keyBits_succ] at bounds
  exact ⟨bounds.1, bounds.2, valid.toNat_childRange le start last inside⟩

theorem Valid.childRange_order (order : start ≤ last)
    (above : childIndex t (t.maxDepth - (levels + 1)) start ≤ i)
    (below : i ≤ childIndex t (t.maxDepth - (levels + 1)) last) :
    let range := childRange t (t.maxDepth - (levels + 1)) start last i
    range.1 ≤ range.2 ∧ range.2 ≤ last := by
  obtain ⟨least, most, first, final⟩ := valid.childRange_spec le same above below
  have ordered : start.toNat ≤ last.toNat := order
  have pos := Nat.two_pow_pos (keyBits t levels)
  rw [Nat.add_mul] at most final
  dsimp only
  rw [le_def, le_def]
  omega

theorem Valid.between_children (order : start ≤ last) :
    (between (childIndex t (t.maxDepth - (levels + 1)) start)
        (childIndex t (t.maxDepth - (levels + 1)) last)).flatMap (fun i =>
      between (childRange t (t.maxDepth - (levels + 1)) start last i).1
        (childRange t (t.maxDepth - (levels + 1)) start last i).2) = between start last := by
  have indices := valid.childIndex_le le same order
  have pos := Nat.two_pow_pos (keyBits t levels)
  have ordered : start.toNat ≤ last.toNat := order
  let cut i := max start.toNat (min (last.toNat + 1)
    ((start.toNat / 2 ^ keyBits t (levels + 1) * 2 ^ width t levels + i) * 2 ^ keyBits t levels))
  have mono : Monotone cut := by
    intro i j less
    have := Nat.mul_le_mul_right (2 ^ keyBits t levels) (Nat.add_le_add_left less
      (start.toNat / 2 ^ keyBits t (levels + 1) * 2 ^ width t levels))
    simp only [cut]
    omega
  have first := div_eq_digits start.toNat (2 ^ keyBits t levels) (2 ^ width t levels)
  have final := div_eq_digits last.toNat (2 ^ keyBits t levels) (2 ^ width t levels)
  rw [← Nat.pow_add, ← keyBits_succ, ← valid.toNat_childIndex le] at first final
  rw [← same] at final
  apply between_flatMap mono indices
  · have least := Nat.div_mul_le_self start.toNat (2 ^ keyBits t levels)
    rw [first] at least
    simp only [cut]
    omega
  · have most :=
      (Nat.div_lt_iff_lt_mul pos).mp (Nat.lt_succ_self (last.toNat / 2 ^ keyBits t levels))
    rw [final, Nat.succ_eq_add_one, Nat.add_assoc] at most
    simp only [cut]
    omega
  · intro i above below
    obtain ⟨least, most, low, high⟩ := valid.childRange_spec le same above below
    rw [low, high]
    simp only [cut]
    generalize (_ + i.toNat) * 2 ^ keyBits t levels = childStart at least ⊢
    generalize (_ + i.toNat + 1) * 2 ^ keyBits t levels = childEnd at most ⊢
    omega

end

/-! ## Iteration over a subtree -/

def visited (t : Trie) (levels : Nat) (node : Node Word) (key : Word) : Option (Word × Word) :=
  ((find (pathBelow t levels key.toNat) node).bind (itemOf t key)).map (key, ·)

theorem clipEnd_of_lt {last : Word} (inside : last.toNat < 2 ^ t.keySize) :
    clipEnd t last = last := by
  unfold clipEnd
  split
  · next narrow =>
    rw [if_neg]
    rw [gt_iff_lt, lt_def, toNat_low (Nat.le_of_lt narrow)]
    omega
  · rfl

theorem sum_lengths (results : List Iteration)
    (counted : ∀ result ∈ results, result.2 = BitVec.ofNat 64 result.1.length) :
    (results.map (·.2)).sum = BitVec.ofNat 64 (results.flatMap (·.1)).length := by
  induction results with
  | nil => rfl
  | cons result rest ih =>
    rw [forall_mem_cons] at counted
    rw [map_cons, sum_cons, ih counted.2, counted.1, flatMap_cons, length_append,
      ofNat_add]

section

variable (valid : Valid t)
include valid

variable {words : List Word} {fuel levels : Nat} {start last : Word} {node : Node Word}

theorem Valid.itemOf_some (full : words.length = (trieCreateDataBlock t).length) (key : Word) :
    ∃ val, itemOf t key words = some val := by
  have inside := valid.wordIndex_lt key
  rw [← full] at inside
  rw [itemOf, List.getElem?_eq_getElem inside]
  exact ⟨_, rfl⟩

theorem Valid.iterateBlock_eq (enough : 2 ^ 64 < fuel)
    (full : words.length = (trieCreateDataBlock t).length) (ends : last.toNat + 1 < 2 ^ 64) :
    iterateBlock t fuel words start last =
      some ((between start last).filterMap (visited t 0 (.block words)), last - start + 1) := by
  have get (key : Word) : visited t 0 (.block words) key =
      some (key, (itemOf t key words).getD 0) := by
    obtain ⟨val, item⟩ := valid.itemOf_some full key
    rw [visited]
    simp [pathBelow, find, item]
  have all : (between start last).filterMap (visited t 0 (.block words)) =
      (between start last).map fun key => (key, (itemOf t key words).getD 0) := by
    rw [← filterMap_eq_map]
    exact filterMap_congr fun key _ => get key
  have visit : ∀ key, start ≤ key → key ≤ last →
      (trieDataBlockGet t (some words) key).map (key, ·) =
        some (key, (itemOf t key words).getD 0) := by
    intro key _ _
    obtain ⟨val, item⟩ := valid.itemOf_some full key
    have got : trieDataBlockGet t (some words) key = itemOf t key words := by
      simp only [trieDataBlockGet, calcPos_eq]
      rfl
    simp [got, item]
  have calls : upTo _ fuel start last = _ := upTo_eq ends visit (by omega)
  simp only [iterateBlock, calls, all, Option.bind_eq_bind, Option.bind_some]

theorem Valid.length_block (full : words.length = (trieCreateDataBlock t).length)
    (keys : List Word) :
    (keys.filterMap (visited t 0 (.block words))).length = keys.length := by
  apply filterMap_length_eq_length.mpr
  intro key _
  obtain ⟨val, item⟩ := valid.itemOf_some full key
  simp [visited, pathBelow, find, item]

omit valid in
theorem visited_null (levels : Nat) (keys : List Word) :
    keys.filterMap (visited t levels .null) = [] := by
  simp [visited, find_null]

theorem Valid.visited_child (le : levels + 1 ≤ t.maxDepth)
    (same : start.toNat / 2 ^ keyBits t (levels + 1) = last.toNat / 2 ^ keyBits t (levels + 1))
    {i : Word} (above : childIndex t (t.maxDepth - (levels + 1)) start ≤ i)
    (below : i ≤ childIndex t (t.maxDepth - (levels + 1)) last) {key : Nat}
    (low : (childRange t (t.maxDepth - (levels + 1)) start last i).1.toNat ≤ key)
    (high : key ≤ (childRange t (t.maxDepth - (levels + 1)) start last i).2.toNat) :
    key / 2 ^ keyBits t levels =
      start.toNat / 2 ^ keyBits t (levels + 1) * 2 ^ width t levels + i.toNat ∧
    pathBelow t (levels + 1) key = i.toNat :: pathBelow t levels key := by
  obtain ⟨least, most, first, final⟩ := valid.childRange_spec le same above below
  rw [le_def, valid.toNat_childIndex le] at below
  have inside := Nat.lt_of_le_of_lt below (Nat.mod_lt _ (Nat.two_pow_pos _))
  have quotient : key / 2 ^ keyBits t levels =
      start.toNat / 2 ^ keyBits t (levels + 1) * 2 ^ width t levels + i.toNat := by
    apply Nat.div_eq_of_lt_le
    · omega
    · omega
  refine ⟨quotient, ?_⟩
  rw [pathBelow, quotient, Nat.mul_add_mod', Nat.mod_eq_of_lt inside]

theorem Valid.visited_children (le : levels + 1 ≤ t.maxDepth)
    (same : start.toNat / 2 ^ keyBits t (levels + 1) = last.toNat / 2 ^ keyBits t (levels + 1))
    (order : start ≤ last) {capacity : Nat} {children : Nat → Node Word} :
    (between (childIndex t (t.maxDepth - (levels + 1)) start)
        (childIndex t (t.maxDepth - (levels + 1)) last)).flatMap (fun i =>
      (between (childRange t (t.maxDepth - (levels + 1)) start last i).1
          (childRange t (t.maxDepth - (levels + 1)) start last i).2).filterMap
        (visited t levels (children i.toNat))) =
      (between start last).filterMap (visited t (levels + 1) (.inner capacity children)) := by
  rw [← valid.between_children le same order, filterMap_flatMap]
  apply flatMap_congr
  intro i mem
  obtain ⟨above, below⟩ := mem_between.mp mem
  apply filterMap_congr
  intro key mem
  obtain ⟨low, high⟩ := mem_between.mp mem
  rw [visited, visited, (valid.visited_child le same above below low high).2]
  rfl

theorem Valid.iterate_children (enough : 2 ^ 64 < fuel) (le : levels + 1 ≤ t.maxDepth)
    (order : ¬ start > last) (children : Nat → Node Word) (calls : Word → List (Word × Word))
    (visit : ∀ i, childIndex t (t.maxDepth - (levels + 1)) start ≤ i →
      i ≤ childIndex t (t.maxDepth - (levels + 1)) (clipEnd t last) →
      let range := childRange t (t.maxDepth - (levels + 1)) start (clipEnd t last) i
      trieIterateKeysNode t fuel levels (children i.toNat) range.1 range.2 =
        some (calls i, BitVec.ofNat 64 (calls i).length)) :
    let all := (between (childIndex t (t.maxDepth - (levels + 1)) start)
      (childIndex t (t.maxDepth - (levels + 1)) (clipEnd t last))).flatMap calls
    trieIterateKeysNode t fuel (levels + 1)
        (.inner (2 ^ (width t levels + t.ptrSzLg) / 2 ^ (t.ptrSzLg - 3)) children) start last =
      some (all, BitVec.ofNat 64 all.length) := by
  have narrow := valid.width_lt (show levels < t.maxDepth by omega)
  have wide : 2 ^ width t levels < 2 ^ 64 := Nat.pow_lt_pow_right (by decide) narrow
  have room := two_pow_width_le_capacity (t := t) levels
  have lastIndex : (childIndex t (t.maxDepth - (levels + 1)) (clipEnd t last)).toNat <
      2 ^ width t levels := by
    rw [valid.toNat_childIndex le]
    exact Nat.mod_lt _ (Nat.two_pow_pos _)
  rw [trieIterateKeysNode, if_neg order]
  dsimp only
  rw [upTo_eq (f := fun i => (calls i, BitVec.ofNat 64 (calls i).length)) (by omega) ?_ (by omega),
    ← flatMap_map (fun i => (calls i, BitVec.ofNat 64 (calls i).length)) (·.1), ← sum_lengths]
  · rfl
  · simp
  · intro i above below
    have below' : i.toNat ≤ _ := below
    rw [if_pos (by omega)]
    exact visit i above below

theorem Valid.trieIterateKeysNode_eq (enough : 2 ^ 64 < fuel) (le : levels ≤ t.maxDepth)
    (shaped : Shaped (trieCreateDataBlock t).length (capacitiesBelow t levels) node)
    (order : start ≤ last) (inRange : last.toNat < 2 ^ t.keySize)
    (same : start.toNat / 2 ^ keyBits t levels = last.toNat / 2 ^ keyBits t levels)
    (ends : last.toNat + 1 = 2 ^ 64 → find (pathBelow t levels last.toNat) node = none) :
    trieIterateKeysNode t fuel levels node start last =
      some ((between start last).filterMap (visited t levels node),
        BitVec.ofNat 64 ((between start last).filterMap (visited t levels node)).length) := by
  have clipped := clipEnd_of_lt inRange
  have ordered : start.toNat ≤ last.toNat := order
  induction levels generalizing node start last with
  | zero =>
    cases node with
    | null =>
      rw [visited_null]
      rfl
    | inner => exact shaped.elim
    | block words =>
      have beyond : last.toNat + 1 ≠ 2 ^ 64 := fun eq => nomatch ends eq
      have block : iterateBlock t fuel words start last = _ :=
        valid.iterateBlock_eq enough shaped (by omega)
      have count : last - start + 1 = BitVec.ofNat 64 (last.toNat + 1 - start.toNat) := by
        apply BitVec.eq_of_toNat_eq
        rw [toNat_succ] <;> rw [BitVec.toNat_sub_of_le order]
        · rw [BitVec.toNat_ofNat]
          omega
        · omega
      rw [trieIterateKeysNode, if_neg (BitVec.not_lt.mpr order), clipped, block,
        valid.length_block shaped, length_between, count]
  | succ levels ih =>
    cases node with
    | null =>
      rw [visited_null]
      rfl
    | block => exact shaped.elim
    | inner capacity children =>
      obtain ⟨rfl, shaped⟩ := shaped
      have all := valid.iterate_children enough le (BitVec.not_lt.mpr order) children (fun i =>
        (between (childRange t (t.maxDepth - (levels + 1)) start last i).1
          (childRange t (t.maxDepth - (levels + 1)) start last i).2).filterMap
            (visited t levels (children i.toNat)))
      rw [clipped, valid.visited_children le same order] at all
      refine all fun i above below => ?_
      obtain ⟨nonempty, inside⟩ := valid.childRange_order le same order above below
      have firstKey := valid.visited_child le same above below (Nat.le_refl _) nonempty
      have lastKey := valid.visited_child le same above below nonempty (Nat.le_refl _)
      generalize childRange t (t.maxDepth - (levels + 1)) start last i = range at *
      have inside : range.2.toNat ≤ last.toNat := inside
      have range_lt := Nat.lt_of_le_of_lt inside inRange
      apply ih (by omega) (shaped i.toNat) nonempty range_lt
      · exact firstKey.1.trans lastKey.1.symm
      · intro largest
        have eq : range.2.toNat = last.toNat := by
          omega
        rw [eq] at largest
        have none := ends largest
        rw [← eq, lastKey.2] at none
        exact none
      · exact clipEnd_of_lt range_lt
      · exact nonempty

omit valid in
theorem childRange_clipped (t : Trie) (depth : Nat) (start last i : Word) :
    start ≤ (childRange t depth start last i).1 ∧ (childRange t depth start last i).2 ≤ last := by
  unfold childRange
  constructor
  · dsimp only
    split
    · exact BitVec.le_refl _
    · next more => exact BitVec.not_lt.mp more
  · dsimp only
    split
    · exact BitVec.le_refl _
    · next less => exact BitVec.not_lt.mp less

omit valid in
theorem trieIterateKeysNode_empty {count : Nat}
    (shaped : Shaped count (capacitiesBelow t levels) node) (empty : last < start) :
    trieIterateKeysNode t fuel levels node start last = some ([], 0) := by
  cases node with
  | null => cases levels <;> rfl
  | block words =>
    cases levels with
    | zero => rw [trieIterateKeysNode, if_pos empty]
    | succ => exact shaped.elim
  | inner capacity children =>
    cases levels with
    | zero => exact shaped.elim
    | succ => rw [trieIterateKeysNode, if_pos empty]

theorem Valid.trieIterateKeysNode_none (fuel : Nat) (le : levels ≤ t.maxDepth)
    (order : start ≤ last) (largest : last.toNat + 1 = 2 ^ 64)
    (inRange : last.toNat < 2 ^ t.keySize)
    (same : start.toNat / 2 ^ keyBits t levels = last.toNat / 2 ^ keyBits t levels)
    (found : find (pathBelow t levels last.toNat) node = some words) :
    trieIterateKeysNode t fuel levels node start last = none := by
  have clipped := clipEnd_of_lt inRange
  induction levels generalizing node start with
  | zero =>
    cases node with
    | null => cases found
    | inner => cases found
    | block words =>
      rw [trieIterateKeysNode, if_neg (BitVec.not_lt.mpr order), clipped, iterateBlock,
        upTo_max largest]
      rfl
  | succ levels ih =>
    cases node with
    | null => cases found
    | block => cases found
    | inner capacity children =>
      have indices := valid.childIndex_le le same order
      obtain ⟨least, most, first, final⟩ :=
        valid.childRange_spec le same indices (BitVec.le_refl _)
      obtain ⟨nonempty, inside⟩ := valid.childRange_order le same order indices (BitVec.le_refl _)
      have pos := Nat.two_pow_pos (keyBits t levels)
      have digits := div_eq_digits last.toNat (2 ^ keyBits t levels) (2 ^ width t levels)
      rw [← Nat.pow_add, ← keyBits_succ, ← valid.toNat_childIndex le, ← same] at digits
      have above :=
        (Nat.div_lt_iff_lt_mul pos).mp (Nat.lt_succ_self (last.toNat / 2 ^ keyBits t levels))
      rw [digits, Nat.succ_eq_add_one] at above
      have end_eq : (childRange t (t.maxDepth - (levels + 1)) start last
          (childIndex t (t.maxDepth - (levels + 1)) last)).2 = last := by
        apply BitVec.eq_of_toNat_eq
        omega
      have firstKey :=
        valid.visited_child le same indices (BitVec.le_refl _) (Nat.le_refl _) nonempty
      have lastKey :=
        valid.visited_child le same indices (BitVec.le_refl _) nonempty (Nat.le_refl _)
      rw [end_eq] at lastKey nonempty
      rw [lastKey.2] at found
      rw [trieIterateKeysNode, if_neg (BitVec.not_lt.mpr order), clipped]
      dsimp only
      rw [upTo_none indices (BitVec.le_refl _)]
      · rfl
      · split
        · rw [end_eq]
          exact ih (by omega) nonempty (firstKey.1.trans lastKey.1.symm) found
        · rfl

theorem Valid.trieIterateKeysNode_beyond (enough : 2 ^ 64 < fuel) (le : levels + 1 ≤ t.maxDepth)
    (shaped : Shaped (trieCreateDataBlock t).length (capacitiesBelow t (levels + 1)) node)
    (beyond : clipEnd t last < start) :
    trieIterateKeysNode t fuel (levels + 1) node start last = some ([], 0) := by
  cases node with
  | null => rfl
  | block => exact shaped.elim
  | inner capacity children =>
    obtain ⟨rfl, shaped⟩ := shaped
    by_cases empty : start > last
    · rw [trieIterateKeysNode, if_pos empty]
    · refine (valid.iterate_children enough le empty children (fun _ => []) fun i _ _ => ?_).trans
        (by simp)
      apply trieIterateKeysNode_empty (shaped i.toNat)
      obtain ⟨first, final⟩ :=
        childRange_clipped t (t.maxDepth - (levels + 1)) start (clipEnd t last) i
      rw [le_def] at first final
      rw [lt_def] at beyond ⊢
      omega

end

end Strace.Tries
