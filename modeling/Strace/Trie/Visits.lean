import Strace.Trie.Iterate

/-! What `trie_iterate_keys` visits after any sets. -/
namespace Strace.Tries
open List

open Loops Packed

variable {t : Trie}

/-! ## The whole trie -/

/-- The key has a data block. -/
def hasBlock (t : Trie) (key : Word) : Bool :=
  match trieGetNode t key false with
  | some (_, some _) => true
  | _ => false

structure Iterates (t : Trie) (start last : Word) (calls : List (Word × Word)) (count : Word) :
    Prop where
  ends : ∃ enough, ∀ fuel, enough ≤ fuel → trieIterateKeys t fuel start last = some (calls, count)
  increasing : (calls.map (·.1)).Pairwise (· < ·)
  keys : ∀ key, key ∈ calls.map (·.1) ↔ start ≤ key ∧ key ≤ last ∧ hasBlock t key = true
  values : ∀ call ∈ calls, trieGet t call.1 = some call.2
  count : count.toNat = calls.length

section

variable {m : Word → Word} (refines : Refines t m)
include refines

theorem Refines.shapedBelow :
    Shaped (trieCreateDataBlock t).length (capacitiesBelow t t.maxDepth) t.data := by
  simp [← refines.valid.capacities_eq, refines.shaped]

theorem Refines.hasBlock_iff (key : Word) :
    hasBlock t key = true ↔ key.toNat < 2 ^ t.keySize ∧
      ∃ words, find (pathBelow t t.maxDepth key.toNat) t.data = some words := by
  have shaped := refines.shaped
  rw [← map_capacity t key] at shaped
  unfold hasBlock trieGetNode
  split
  · next found =>
    split at found
    · cases found
    · next range =>
      rw [descend_find shaped fun level => refines.valid.pos_lt_capacity key,
        refines.valid.trieLevels_pos] at found
      simp only [Option.some.injEq, Prod.mk.injEq] at found
      rw [Bool.not_eq_true] at range
      exact iff_of_true rfl ⟨lt_of_inRange range, _, found.2⟩
  · next missing =>
    refine iff_of_false Bool.false_ne_true ?_
    rintro ⟨inside, words, found⟩
    apply missing t.data words
    have range : outOfRange t key ≠ true := by
      rw [Ne, outOfRange_iff]
      omega
    rw [if_neg range, descend_find shaped fun level => refines.valid.pos_lt_capacity key,
      refines.valid.trieLevels_pos, found]

theorem Refines.hasBlock_null (null : t.data = .null) (key : Word) : hasBlock t key = false := by
  simp [← Bool.not_eq_true, refines.hasBlock_iff, null, find_null]

theorem Refines.visited_eq (key : Word) (inside : key.toNat < 2 ^ t.keySize) :
    visited t t.maxDepth t.data key = if hasBlock t key then some (key, m key) else none := by
  have range : outOfRange t key ≠ true := by
    rw [Ne, outOfRange_iff]
    omega
  have get := trieGet_eq refines.valid refines.shaped key
  rw [refines.get, if_neg range, refines.valid.trieLevels_pos] at get
  have block := refines.hasBlock_iff key
  rw [visited]
  cases found : find (pathBelow t t.maxDepth key.toNat) t.data with
  | none =>
    have missing : hasBlock t key = false := by
      simp [← Bool.not_eq_true, block, found]
    simp [missing]
  | some words =>
    have there := block.mpr ⟨inside, words, found⟩
    rw [found] at get
    simp [there, ← get]

variable {start last : Word} {fuel : Nat}

theorem Refines.iterates_nil (result : ∀ fuel, 2 ^ 64 < fuel →
      trieIterateKeys t fuel start last = some ([], 0))
    (none : ∀ key, start ≤ key → key ≤ last → 2 ^ t.keySize ≤ key.toNat) :
    Iterates t start last [] 0 := by
  refine ⟨⟨2 ^ 64 + 1, fun fuel enough => result fuel enough⟩, .nil, fun key => ?_, by simp, rfl⟩
  refine iff_of_false (by simp) ?_
  rintro ⟨above, below, there⟩
  have inside := ((refines.hasBlock_iff key).mp there).1
  have beyond := none key above below
  omega

omit refines in
theorem toNat_clipEnd (valid : Valid t) (last : Word) :
    (clipEnd t last).toNat = min last.toNat (2 ^ t.keySize - 1) := by
  have size := valid.key
  unfold clipEnd
  split
  · split
    · next more =>
      rw [gt_iff_lt, BitVec.lt_def, toNat_low size] at more
      rw [toNat_low size]
      omega
    · next less =>
      rw [gt_iff_lt, BitVec.lt_def, toNat_low size] at less
      omega
  · have whole : t.keySize = 64 := by omega
    rw [whole]
    omega

omit refines in
theorem trieIterateKeysNode_clip {levels : Nat} {node : Node Word} (order : start ≤ last)
    (clipped : start ≤ clipEnd t last) (again : clipEnd t (clipEnd t last) = clipEnd t last) :
    trieIterateKeysNode t fuel levels node start last =
      trieIterateKeysNode t fuel levels node start (clipEnd t last) := by
  cases node with
  | null => cases levels <;> rfl
  | block words =>
    cases levels with
    | zero =>
      rw [trieIterateKeysNode, trieIterateKeysNode, if_neg (BitVec.not_lt.mpr order),
        if_neg (BitVec.not_lt.mpr clipped), again]
    | succ => rfl
  | inner capacity children =>
    cases levels with
    | zero => rfl
    | succ =>
      rw [trieIterateKeysNode, trieIterateKeysNode, if_neg (BitVec.not_lt.mpr order),
        if_neg (BitVec.not_lt.mpr clipped), again]

theorem Refines.filterMap_visited (keys : List Word)
    (inside : ∀ key ∈ keys, key.toNat < 2 ^ t.keySize) :
    keys.filterMap (visited t t.maxDepth t.data) =
      (keys.filter (hasBlock t)).map fun key => (key, m key) := by
  induction keys with
  | nil => rfl
  | cons key rest ih =>
    rw [forall_mem_cons] at inside
    rw [filterMap_cons, refines.visited_eq key inside.1, ih inside.2, filter_cons]
    cases hasBlock t key <;> rfl

theorem Refines.iterates_inside (order : start ≤ last) (inside : start.toNat < 2 ^ t.keySize)
    (ends : last.toNat + 1 = 2 ^ 64 → hasBlock t last = false) :
    ∃ calls count, Iterates t start last calls count := by
  have valid := refines.valid
  have clip := toNat_clipEnd valid last
  have ordered : start.toNat ≤ last.toNat := order
  have inRange : (clipEnd t last).toNat < 2 ^ t.keySize := by omega
  have clipped : start ≤ clipEnd t last := by
    rw [BitVec.le_def]
    omega
  have none : (clipEnd t last).toNat + 1 = 2 ^ 64 →
      find (pathBelow t t.maxDepth (clipEnd t last).toNat) t.data = none := by
    intro largest
    have same : clipEnd t last = last := by
      apply BitVec.eq_of_toNat_eq
      omega
    rw [same] at largest inRange ⊢
    have missing := ends largest
    rw [← Bool.not_eq_true, refines.hasBlock_iff] at missing
    exact Option.eq_none_iff_forall_ne_some.mpr fun words found => missing ⟨inRange, words, found⟩
  have same : start.toNat / 2 ^ keyBits t t.maxDepth =
      (clipEnd t last).toNat / 2 ^ keyBits t t.maxDepth := by
    rw [valid.keyBits_maxDepth, Nat.div_eq_of_lt inside, Nat.div_eq_of_lt inRange]
  have calls := refines.filterMap_visited (between start (clipEnd t last)) (by
    intro key mem
    exact Nat.lt_of_le_of_lt (mem_between.mp mem).2 inRange)
  let found := (between start (clipEnd t last)).filter (hasBlock t)
  have keys : (found.map fun key => (key, m key)).map (·.1) = found := by
    rw [map_map]
    exact map_id _
  refine ⟨found.map fun key => (key, m key), BitVec.ofNat 64 found.length,
    ⟨2 ^ 64 + 1, fun fuel enough => ?_⟩, ?_, fun key => ?_, ?_, ?_⟩
  · rw [trieIterateKeys, trieIterateKeysNode_clip order clipped (clipEnd_of_lt inRange),
      valid.trieIterateKeysNode_eq enough (Nat.le_refl _) refines.shapedBelow clipped inRange same
        none, calls, length_map]
  · rw [keys]
    exact between_sorted.filter _
  · rw [keys, mem_filter, mem_between, and_assoc]
    refine and_congr_right fun _ => and_congr_left fun there => ?_
    have := ((refines.hasBlock_iff key).mp there).1
    rw [BitVec.le_def, BitVec.le_def]
    omega
  · intro call mem
    obtain ⟨key, _, rfl⟩ := mem_map.mp mem
    exact refines.get key
  · -- if there are as many keys as words, the largest one has no data block
    have fewer : found.length < 2 ^ 64 := by
      have most : found.length ≤ (between start (clipEnd t last)).length := length_filter_le ..
      rw [length_between] at most
      by_cases largest : (clipEnd t last).toNat + 1 = 2 ^ 64
      · have missing : ¬ hasBlock t (clipEnd t last) = true := by
          rw [refines.hasBlock_iff, none largest]
          simp
        have less : found.length < (between start (clipEnd t last)).length :=
          length_filter_lt_length_iff_exists.mpr
            ⟨_, mem_between.mpr ⟨clipped, BitVec.le_refl _⟩, missing⟩
        rw [length_between] at less
        omega
      · omega
    rw [length_map, BitVec.toNat_ofNat, Nat.mod_eq_of_lt fewer]

theorem Refines.iterate_single (single : t.maxDepth = 0) (block : hasBlock t 0 = true)
    (order : start ≤ last) (beyond : 2 ^ t.keySize ≤ start.toNat) (enough : 0 < fuel) :
    trieIterateKeys t fuel start last =
      some ([], BitVec.ofNat 64 (2 ^ 64 - (start.toNat - 2 ^ t.keySize))) := by
  obtain ⟨-, words, found⟩ := (refines.hasBlock_iff 0).mp block
  have clip := toNat_clipEnd refines.valid last
  have pos := Nat.two_pow_pos t.keySize
  have ordered : start.toNat ≤ last.toNat := order
  have empty : clipEnd t last < start := by
    rw [BitVec.lt_def]
    omega
  obtain ⟨fuel, rfl⟩ := Nat.exists_eq_succ_of_ne_zero enough.ne'
  rw [single] at found
  rw [trieIterateKeys, single]
  cases data : t.data with
  | null => rw [data] at found; cases found
  | inner => rw [data] at found; cases found
  | block words =>
    have count : clipEnd t last - start + 1 =
        BitVec.ofNat 64 (2 ^ 64 - (start.toNat - 2 ^ t.keySize)) := by
      apply BitVec.eq_of_toNat_eq
      rw [BitVec.toNat_ofNat]
      show ((2 ^ 64 - start.toNat + (clipEnd t last).toNat) % 2 ^ 64 + 1) % 2 ^ 64 = _
      omega
    rw [trieIterateKeysNode, if_neg (BitVec.not_lt.mpr order), iterateBlock, upTo,
      if_neg (BitVec.not_le.mpr empty), count]
    rfl

theorem Refines.iterate_beyond (order : start ≤ last) (beyond : 2 ^ t.keySize ≤ start.toNat)
    (single : ¬ (t.maxDepth = 0 ∧ hasBlock t 0 = true ∧ 2 ^ t.keySize < start.toNat ∧ start ≤ last))
    (fuel : Nat) (enough : 2 ^ 64 < fuel) : trieIterateKeys t fuel start last = some ([], 0) := by
  have shaped := refines.shapedBelow
  cases depth : t.maxDepth with
  | zero =>
    cases block : hasBlock t 0 with
    | true =>
      have first : start.toNat = 2 ^ t.keySize := by
        apply Nat.le_antisymm _ beyond
        exact Nat.le_of_not_lt fun less => single ⟨depth, block, less, order⟩
      rw [refines.iterate_single depth block order beyond (by omega), first, Nat.sub_self]
      rfl
    | false =>
      have missing : ¬ hasBlock t 0 = true := by rw [block]; exact Bool.false_ne_true
      rw [refines.hasBlock_iff, depth] at missing
      rw [depth] at shaped
      rw [trieIterateKeys]
      cases data : t.data with
      | null => rw [depth]; rfl
      | inner => rw [data] at shaped; exact shaped.elim
      | block words =>
        rw [data] at missing
        exact absurd ⟨Nat.two_pow_pos _, words, rfl⟩ missing
  | succ levels =>
    have clip := toNat_clipEnd refines.valid last
    have pos := Nat.two_pow_pos t.keySize
    have empty : clipEnd t last < start := by
      rw [BitVec.lt_def]
      omega
    rw [depth] at shaped
    rw [trieIterateKeys, depth]
    exact refines.valid.trieIterateKeysNode_beyond enough (Nat.le_of_eq depth.symm) shaped empty

theorem Refines.iterates_iff (start last : Word) :
    (∃ calls count, Iterates t start last calls count) ↔
      ¬ (t.maxDepth = 0 ∧ hasBlock t 0 = true ∧ 2 ^ t.keySize < start.toNat ∧ start ≤ last) ∧
      ¬ (last.toNat + 1 = 2 ^ 64 ∧ hasBlock t last = true) := by
  have valid := refines.valid
  have pos := Nat.two_pow_pos t.keySize
  constructor
  · rintro ⟨calls, count, ⟨enough, ends⟩, -, -, -, counted⟩
    constructor
    · rintro ⟨single, block, beyond, order⟩
      have result := refines.iterate_single single block order (Nat.le_of_lt beyond)
        (Nat.succ_pos enough)
      rw [ends _ (Nat.le_succ enough)] at result
      cases result
      rw [BitVec.toNat_ofNat, length_nil] at counted
      omega
    · rintro ⟨largest, block⟩
      obtain ⟨inside, words, found⟩ := (refines.hasBlock_iff last).mp block
      have order : start ≤ last := by
        rw [BitVec.le_def]
        omega
      have never := valid.trieIterateKeysNode_none enough (Nat.le_refl _) order largest inside
        (by
          rw [valid.keyBits_maxDepth, Nat.div_eq_of_lt inside, Nat.div_eq_of_lt (by omega)])
        found
      have result := ends enough (Nat.le_refl _)
      rw [trieIterateKeys, never] at result
      cases result
  · rintro ⟨single, largest⟩
    by_cases order : start ≤ last
    · by_cases inside : start.toNat < 2 ^ t.keySize
      · apply refines.iterates_inside order inside
        intro eq
        rw [← Bool.not_eq_true]
        exact fun block => largest ⟨eq, block⟩
      · have beyond : ∀ key, start ≤ key → key ≤ last → 2 ^ t.keySize ≤ key.toNat := by
          intro key above _
          rw [BitVec.le_def] at above
          omega
        exact ⟨[], 0,
          refines.iterates_nil (refines.iterate_beyond order (Nat.le_of_not_lt inside) single)
          beyond⟩
    · refine ⟨[], 0, refines.iterates_nil (fun fuel _ => ?_) fun key above below => ?_⟩
      · exact trieIterateKeysNode_empty refines.shapedBelow (BitVec.not_le.mp order)
      · exact absurd (BitVec.le_trans above below) order

end

/-! ## Sets -/

def sizesDefined (t : Trie) : Bool :=
  decide (uint8 (t.dataBlockKeyBits + t.itemSizeLg) < 6 + 32) &&
    (List.range t.maxDepth).all fun depth =>
      decide (trieGetNodeSize t depth < if t.ptrSzLg = 6 then 64 else 32)

def trieSetDefined (t : Trie) (key val : Word) : Option (Trie × Bool) :=
  if outOfRange t key || sizesDefined t then trieSet t key val else none

def setAllDefined (t : Trie) : List (Word × Word) → Option Trie
  | [] => some t
  | (key, val) :: rest => do
    let (t, _) ← trieSetDefined t key val
    setAllDefined t rest

/-- Two keys have one data block. -/
def sameBlock (t : Trie) (key key' : Word) : Prop :=
  key.toNat < 2 ^ t.keySize ∧ key'.toNat < 2 ^ t.keySize ∧
    key.toNat / 2 ^ t.dataBlockKeyBits = key'.toNat / 2 ^ t.dataBlockKeyBits

theorem trieSet_beyond {key : Word} (beyond : outOfRange t key = true) (val : Word) :
    trieSet t key val = some (t, false) := by
  simp only [trieSet, trieGetNode, beyond, if_true, Option.bind_eq_bind, Option.bind_some]

section

variable {m : Word → Word} (refines : Refines t m)
include refines

theorem Refines.trieSet_blocks (key val : Word) :
    ∃ root ok m', Tries.trieSet t key val = some ({ t with data := root }, ok) ∧
      Refines { t with data := root } m' ∧
      ∀ key', hasBlock { t with data := root } key' = true ↔
        hasBlock t key' = true ∨ sameBlock t key key' := by
  cases range : outOfRange t key with
  | true =>
    refine ⟨t.data, _, _, trieSet_beyond range val, refines, fun key' => (or_iff_left ?_).symm⟩
    rintro ⟨inside, -⟩
    have := (outOfRange_iff key).mp range
    omega
  | false =>
    obtain ⟨t', set, refines', -⟩ := refines.trieSet key val
    obtain ⟨root, words, word, -, -, done, changes⟩ :=
      trieSet_inside refines.valid refines.shaped range val
    have eq := Option.some.inj (done.symm.trans set)
    obtain ⟨rfl, -⟩ := Prod.mk.inj eq
    refine ⟨root, true, _, done, refines', fun key' => ?_⟩
    rw [refines'.hasBlock_iff, refines.hasBlock_iff, ← refines'.valid.trieLevels_pos,
      ← refines.valid.trieLevels_pos]
    show (key'.toNat < 2 ^ t.keySize ∧
      ∃ words, find ((trieLevels t key').map (·.pos)) root = some words) ↔ _
    have inside := lt_of_inRange range
    by_cases same : (trieLevels t key').map (·.pos) = (trieLevels t key).map (·.pos)
    · rw [same, changes.here]
      constructor
      · rintro ⟨inside', -⟩
        exact .inr ⟨inside, inside', refines.valid.block_eq inside inside' same.symm⟩
      · rintro (⟨inside', -⟩ | ⟨-, inside', -⟩) <;> exact ⟨inside', _, rfl⟩
    · have length : ((trieLevels t key').map (·.pos)).length = (trieLevels t key).length := by
        simp only [trieLevels, length_map]
      rw [changes.frame _ length same]
      refine (or_iff_left ?_).symm
      rintro ⟨-, -, block⟩
      apply same
      rw [refines.valid.pos_eq_iff, block]

theorem Refines.setAllDefined_blocks (sets : List (Word × Word))
    (defined : (∃ set ∈ sets, set.1.toNat < 2 ^ t.keySize) → sizesDefined t = true) :
    ∃ root m', setAllDefined t sets = some { t with data := root } ∧
      Refines { t with data := root } m' ∧
      ∀ key, hasBlock { t with data := root } key = true ↔
        hasBlock t key = true ∨ ∃ set ∈ sets, sameBlock t set.1 key := by
  induction sets generalizing t m with
  | nil => exact ⟨t.data, m, rfl, refines, by simp⟩
  | cons set rest ih =>
    obtain ⟨key, val⟩ := set
    have fine : (outOfRange t key || sizesDefined t) = true := by
      rw [Bool.or_eq_true]
      cases range : outOfRange t key with
      | true => exact .inl rfl
      | false => exact .inr (defined ⟨_, mem_cons_self .., lt_of_inRange range⟩)
    obtain ⟨root, ok, m₁, done, refines₁, blocks₁⟩ := refines.trieSet_blocks key val
    obtain ⟨root', m₂, all, refines₂, blocks₂⟩ := ih refines₁ (by
      rintro ⟨set, mem, inside⟩
      exact defined ⟨set, mem_cons_of_mem _ mem, inside⟩)
    refine ⟨root', m₂, ?_, refines₂, fun key' => ?_⟩
    · grind [setAllDefined, trieSetDefined]
    · simp only [blocks₂, blocks₁, or_assoc, mem_cons, exists_eq_or_imp]
      rfl

omit refines in
theorem setAllDefined_none (undefined : sizesDefined t = false) {sets : List (Word × Word)}
    {set : Word × Word} (mem : set ∈ sets) (inside : set.1.toNat < 2 ^ t.keySize) :
    setAllDefined t sets = none := by
  induction sets with
  | nil => cases mem
  | cons set' rest ih =>
    rw [setAllDefined, trieSetDefined, undefined]
    cases range : outOfRange t set'.1 with
    | true =>
      have other : set ∈ rest := by
        rcases mem_cons.mp mem with rfl | other
        · have := (outOfRange_iff set.1).mp range
          omega
        · exact other
      rw [trieSet_beyond range]
      exact ih other
    | false => rfl

end

def SetsIterate (t : Trie) (sets : List (Word × Word)) (start last : Word) : Prop :=
  ∃ t' calls count, setAllDefined t sets = some t' ∧ Iterates t' start last calls count ∧
    ∀ set ∈ sets, start ≤ set.1 → set.1 ≤ last → set.1.toNat < 2 ^ t.keySize →
      set.1 ∈ calls.map (·.1)

theorem Refines.setsIterate_iff {m : Word → Word} (refines : Refines t m)
    (fresh : ∀ key, hasBlock t key = false) (sets : List (Word × Word)) (start last : Word) :
    SetsIterate t sets start last ↔
      ((∃ set ∈ sets, set.1.toNat < 2 ^ t.keySize) → sizesDefined t = true ∧
        ¬ (t.maxDepth = 0 ∧ 2 ^ t.keySize < start.toNat ∧ start ≤ last)) ∧
      ¬ (last.toNat + 1 = 2 ^ 64 ∧ ∃ set ∈ sets, sameBlock t set.1 last) := by
  have first (single : t.maxDepth = 0) {key : Word} (inside : key.toNat < 2 ^ t.keySize) :
      sameBlock t key 0 := by
    have bits := refines.valid.keyBits_maxDepth
    rw [single, keyBits, lowBits, Nat.add_zero] at bits
    refine ⟨inside, Nat.two_pow_pos _, ?_⟩
    rw [bits, Nat.div_eq_of_lt inside]
    exact (Nat.zero_div _).symm
  constructor
  · rintro ⟨t', calls, count, all, iterates, -⟩
    have defined : (∃ set ∈ sets, set.1.toNat < 2 ^ t.keySize) → sizesDefined t = true := by
      rintro ⟨set, mem, inside⟩
      by_contra undefined
      rw [Bool.not_eq_true] at undefined
      rw [setAllDefined_none undefined mem inside] at all
      cases all
    obtain ⟨root, m', made, refines', blocks⟩ := refines.setAllDefined_blocks sets defined
    obtain rfl := Option.some.inj (made.symm.trans all)
    obtain ⟨single, largest⟩ := (refines'.iterates_iff start last).mp ⟨calls, count, iterates⟩
    refine ⟨fun some => ⟨defined some, ?_⟩, ?_⟩
    · rintro ⟨depth, beyond, order⟩
      obtain ⟨set, mem, inside⟩ := some
      exact single ⟨depth, (blocks 0).mpr (.inr ⟨set, mem, first depth inside⟩), beyond, order⟩
    · rintro ⟨eq, same⟩
      exact largest ⟨eq, (blocks last).mpr (.inr same)⟩
  · rintro ⟨defined, largest⟩
    obtain ⟨root, m', made, refines', blocks⟩ :=
      refines.setAllDefined_blocks sets fun some => (defined some).1
    simp only [fresh, Bool.false_eq_true, false_or] at blocks
    obtain ⟨calls, count, iterates⟩ := (refines'.iterates_iff start last).mpr (by
      constructor
      · rintro ⟨depth, block, beyond, order⟩
        obtain ⟨set, mem, inside, -⟩ := (blocks 0).mp block
        exact (defined ⟨set, mem, inside⟩).2 ⟨depth, beyond, order⟩
      · rintro ⟨eq, block⟩
        exact largest ⟨eq, (blocks last).mp block⟩)
    refine ⟨_, calls, count, made, iterates, fun set mem above below inside => ?_⟩
    rw [iterates.keys, blocks]
    exact ⟨above, below, set, mem, inside, inside, rfl⟩

section

variable {widePointers : Bool} {keySize itemSizeLg nodeKeyBits dataBlockKeyBits : Nat}
  {emptyValue : Word}

theorem trieCreate_some
    (created : trieCreate widePointers keySize itemSizeLg nodeKeyBits dataBlockKeyBits emptyValue =
      some t) :
    t = newTrie widePointers keySize itemSizeLg nodeKeyBits dataBlockKeyBits emptyValue ∧
      keySize ≤ 64 ∧ itemSizeLg ≤ 6 ∧ 1 ≤ nodeKeyBits ∧
      1 ≤ dataBlockKeyBits ∧ dataBlockKeyBits ≤ keySize := by
  unfold trieCreate at created
  split at created
  · cases created
  split at created
  · cases created
  split at created
  · cases created
  split at created
  · cases created
  · refine ⟨(Option.some.inj created).symm, ?_⟩
    omega

theorem newTrie_maxDepth (node : 1 ≤ nodeKeyBits) (key : keySize ≤ 64)
    (block : dataBlockKeyBits ≤ keySize) :
    (newTrie widePointers keySize itemSizeLg nodeKeyBits dataBlockKeyBits emptyValue).maxDepth = 0 ↔
      keySize = dataBlockKeyBits := by
  have small : uint8 ((keySize - dataBlockKeyBits + nodeKeyBits - 1) / nodeKeyBits) =
      (keySize - dataBlockKeyBits + nodeKeyBits - 1) / nodeKeyBits :=
    Nat.mod_eq_of_lt (Nat.div_lt_of_lt_mul (by omega))
  rw [newTrie, small, Nat.div_eq_zero_iff]
  omega

/-- After any sets on any trie, iteration does what it should unless a key has been
set and a size cannot be computed, or the trie is one data block and the range starts
too late, or unless the range ends with the largest word and the data block of that key
exists. -/
theorem trie_iterate_keys_visits_iff
    (created : trieCreate widePointers keySize itemSizeLg nodeKeyBits dataBlockKeyBits emptyValue =
      some t) (sets : List (Word × Word)) (start last : Word) :
    SetsIterate t sets start last ↔
      ((∃ set ∈ sets, set.1.toNat < 2 ^ keySize) → sizesDefined t = true ∧
        ¬ (keySize = dataBlockKeyBits ∧ 2 ^ keySize < start.toNat ∧ start ≤ last)) ∧
      ¬ (keySize = 64 ∧ last.toNat + 1 = 2 ^ 64 ∧ ∃ set ∈ sets,
        set.1.toNat / 2 ^ dataBlockKeyBits = last.toNat / 2 ^ dataBlockKeyBits) := by
  obtain ⟨rfl, key, item, node, block⟩ := trieCreate_some created
  have refines := refines_newTrie key item node block widePointers emptyValue
  rw [refines.setsIterate_iff (refines.hasBlock_null rfl), newTrie_maxDepth node key block.2]
  refine and_congr Iff.rfl (not_congr ⟨?_, ?_⟩)
  · rintro ⟨largest, set, mem, -, inside, same⟩
    have inside : last.toNat < 2 ^ keySize := inside
    refine ⟨?_, largest, set, mem, same⟩
    by_contra narrow
    have : 2 ^ keySize < 2 ^ 64 := Nat.pow_lt_pow_right (by decide) (by omega)
    omega
  · rintro ⟨rfl, largest, set, mem, same⟩
    exact ⟨largest, set, mem, set.1.isLt, last.isLt, same⟩

theorem trie_iterate_keys_visits_three_sets :
    ∃ t, trieCreate true 5 2 2 1 9 = some t ∧
      SetsIterate t [(3, 0x15), (40, 1), (2, 7)] 0 (-1) := by
  have created : trieCreate true 5 2 2 1 9 = some (newTrie true 5 2 2 1 9) := rfl
  refine ⟨_, created,
    (trie_iterate_keys_visits_iff created _ _ _).mpr ⟨fun _ => ⟨by decide, ?_⟩, ?_⟩⟩
  · rintro ⟨eq, -⟩
    cases eq
  · rintro ⟨eq, -⟩
    cases eq

/-- Iteration over a trie of 64-bit keys does not end when the largest key has been set
and belongs to the range. A trie that is one data block makes no call for the keys from
20 to 30, and counts them as a large number. -/
theorem iterate_keys_does_not_end_or_miscounts :
    (∃ t, trieCreate true 64 6 4 4 0 = some t ∧ ¬ SetsIterate t [(-1, 7)] 0 (-1)) ∧
      ∃ t, trieCreate true 4 3 4 4 0 = some t ∧ ¬ SetsIterate t [(1, 7)] 20 30 := by
  constructor
  · have refines := refines_newTrie (by decide : 64 ≤ 64) (by decide : 6 ≤ 6) (by decide : 1 ≤ 4)
      (by decide : 1 ≤ 4 ∧ 4 ≤ 64) true 0
    refine ⟨_, rfl, fun iterates => ?_⟩
    have condition := (refines.setsIterate_iff (refines.hasBlock_null rfl) _ _ _).mp iterates
    exact condition.2 ⟨rfl, _, List.mem_cons_self .., by decide, by decide, rfl⟩
  · have refines := refines_newTrie (by decide : 4 ≤ 64) (by decide : 3 ≤ 6) (by decide : 1 ≤ 4)
      (by decide : 1 ≤ 4 ∧ 4 ≤ 4) true 0
    refine ⟨_, rfl, fun iterates => ?_⟩
    have condition := (refines.setsIterate_iff (refines.hasBlock_null rfl) _ _ _).mp iterates
    exact (condition.1 ⟨_, List.mem_cons_self .., by decide⟩).2 (by decide)

end

end Strace.Tries
