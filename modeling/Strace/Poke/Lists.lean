import Strace.Poke.PokeData
import Mathlib.Data.List.Perm.Subperm

/-! The lists of payloads are what was added to them until the array of their heads moves:
then the items still lead to the heads in the block that was freed. -/
namespace Strace.Poke

open Addr

structure History.Valid (h : History) : Prop where
  filled : h.data.size ≤ h.data.capacity
  absent : h.data.pokeDataVec = none → h.data.capacity = 0
  present : ∀ block, h.data.pokeDataVec = some block → block < h.data.blocks ∧ 0 < h.data.capacity
  cells : ∀ block, h.data.pokeDataVec = some block → ∀ idx < h.data.capacity,
    ∃ next, h.data.memory.nexts (head block idx) = some next
  lists : ∀ block, h.data.pokeDataVec = some block → ∀ idx < h.data.size,
    Holds h.data.memory.nexts (head block idx) ((h.added idx).map payload)
  later : ∀ idx, h.data.size ≤ idx → h.added idx = []
  older : ∀ idx, ∀ poke ∈ h.added idx, poke < h.data.payloads.length
  nodup : ∀ idx, (h.added idx).Nodup
  apart : ∀ idx idx' poke, poke ∈ h.added idx → poke ∈ h.added idx' → idx = idx'

/-! ## Visiting -/

theorem eachItem_visit {body : List Addr → Addr → Option (List Addr × Bool)} {items : List Addr}
    (reads : ∀ item ∈ items, ∀ visited, body visited item = some (visited ++ [item], false))
    (visited : List Addr) : eachItem body items visited = some (visited ++ items, false) := by
  induction items generalizing visited with
  | nil => rw [eachItem, List.append_nil]
  | cons item items ih =>
    rw [List.forall_mem_cons] at reads
    have later := ih reads.2 (visited ++ [item])
    simpa [eachItem, reads.1] using later

namespace History.Valid

variable {h : History} {block idx : Nat}

variable (valid : h.Valid)
include valid

theorem has_cell (low : idx < h.data.capacity) :
    ∃ block next, h.data.pokeDataVec = some block ∧
      h.data.memory.nexts (head block idx) = some next := by
  cases vec : h.data.pokeDataVec with
  | none =>
    rw [valid.absent vec] at low
    exact absurd low (Nat.not_lt_zero idx)
  | some block =>
    obtain ⟨next, live⟩ := valid.cells block vec idx low
    exact ⟨block, next, rfl, live⟩

theorem has_block (low : idx < h.data.size) :
    ∃ block, h.data.pokeDataVec = some block := by
  obtain ⟨block, next, vec, -⟩ := valid.has_cell (Nat.lt_of_lt_of_le low valid.filled)
  exact ⟨block, vec⟩

theorem fields (vec : h.data.pokeDataVec = some block) (low : idx < h.data.size)
    {item : Addr} (mem : item ∈ (h.added idx).map payload) :
    ∃ poke, h.data.fields item = some poke := by
  obtain ⟨next, follows⟩ := (valid.lists block vec idx low).2.live (List.mem_cons_of_mem _ mem)
  obtain ⟨poke, added, rfl⟩ := List.mem_map.mp mem
  obtain ⟨cell, live, -⟩ := Option.map_eq_some_iff.mp follows
  have old := valid.older idx poke added
  refine ⟨h.data.payloads[poke], ?_⟩
  rw [PokeData.fields, live, if_pos (Option.isSome_some ..), List.getElem?_eq_getElem old]

theorem length_lt (idx : Nat) :
    ((h.added idx).map payload).length < h.data.payloads.length + 1 := by
  have within : h.added idx ⊆ List.range h.data.payloads.length :=
    fun poke mem => List.mem_range.mpr (valid.older idx poke mem)
  have short := ((valid.nodup idx).subperm within).length_le
  rw [List.length_range] at short
  rw [List.length_map]
  exact Nat.lt_succ_of_le short

theorem kept : h.Kept := by
  intro idx low
  obtain ⟨block, vec⟩ := valid.has_block low
  refine ⟨?_, valid.nodup idx⟩
  rw [PokeData.visited, PokeData.foreachPoke, vec]
  refine (listForeach_holds (valid.lists block vec idx low) (valid.length_lt idx) []).trans ?_
  rw [eachItem_visit]
  · rfl
  · intro item mem visited
    obtain ⟨poke, read⟩ := valid.fields vec low mem
    rw [read, Option.map_some]

end History.Valid

/-! ## Growing -/

namespace PokeData

variable {s : PokeData} {r : Realloc} {old idx : Nat}

theorem expand_copied (vec : s.pokeDataVec = some old) (low : idx < s.capacity) :
    (s.expandPokeDataVec r).memory (head (s.reallocBlock r) idx) = s.memory (head old idx) := by
  simp [expandPokeDataVec, clearFrom, reallocarray, vec, low]

theorem expand_cleared (new : s.capacity ≤ idx)
    (low : idx < s.capacity + growMemb s.pokeDataVec s.capacity) :
    (s.expandPokeDataVec r).memory (head (s.reallocBlock r) idx) = some ⟨none, none⟩ :=
  if_pos ⟨rfl, new, low⟩

theorem growMemb_pos (absent : s.pokeDataVec = none → s.capacity = 0) :
    0 < growMemb s.pokeDataVec s.capacity := by
  cases vec : s.pokeDataVec with
  | none =>
    rw [absent vec]
    decide
  | some block => exact Nat.succ_pos _

variable {block : Nat} {next : Option Addr}

theorem initList_nexts (vec : s.pokeDataVec = some block)
    (live : s.memory.nexts (head block idx) = some next) :
    ∃ memory, s.initList idx = some { s with memory } ∧ memory.nexts =
      Function.update s.memory.nexts (head block idx) (some (some (head block idx))) := by
  obtain ⟨memory, initialised, nexts⟩ := listInit_nexts live
  refine ⟨memory, ?_, nexts⟩
  simp [initList, vec, initialised]

theorem allocPokeData_die (large : ¬ s.size < 2 ^ 16) :
    ∃ msg, s.allocPokeData r = .error (.die msg) := by
  have wraps : s.size.toUInt16.toNat < s.size := by
    rw [UInt16.toNat_ofNat']
    omega
  rw [allocPokeData, if_pos wraps]
  exact ⟨_, rfl⟩

theorem allocPokeData_ok {grown : PokeData} (small : s.size < 2 ^ 16)
    (grows : (if s.size = s.capacity then s.expandPokeDataVec r else s) = grown)
    (vec : grown.pokeDataVec = some block)
    (live : grown.memory.nexts (head block s.size) = some next) :
    ∃ memory, s.allocPokeData r =
        .ok (s.size.toUInt16, { grown with memory, size := s.size + 1 }) ∧
      memory.nexts = Function.update grown.memory.nexts (head block s.size)
        (some (some (head block s.size))) := by
  have same : s.size.toUInt16.toNat = s.size := by
    rw [UInt16.toNat_ofNat', Nat.mod_eq_of_lt small]
  have size : grown.size = s.size := by
    rw [← grows]
    split <;> rfl
  obtain ⟨memory, initialised, nexts⟩ :=
    initList_nexts (s := { grown with size := s.size + 1 }) vec live
  refine ⟨memory, ?_, nexts⟩
  rw [allocPokeData, same, if_neg (Nat.lt_irrefl _), grows]
  simp only [size, initialised]

end PokeData

namespace History.Valid

variable {h : History} {r : Realloc}

theorem expand (valid : h.Valid)
    (stays : ∀ block, h.data.pokeDataVec = some block → h.data.reallocBlock r = block) :
    { h with data := h.data.expandPokeDataVec r }.Valid := by
  have more := PokeData.growMemb_pos valid.absent
  constructor
  · exact Nat.le_trans valid.filled (Nat.le_add_right ..)
  · exact nofun
  · rintro _ ⟨⟩
    refine ⟨Nat.lt_succ_of_le ?_, Nat.lt_of_lt_of_le more (Nat.le_add_left ..)⟩
    cases vec : h.data.pokeDataVec with
    | none => simp [PokeData.reallocBlock, vec]
    | some block =>
      rw [stays block vec]
      exact Nat.le_of_lt (valid.present block vec).1
  · rintro _ ⟨⟩ idx low
    rw [Memory.nexts]
    by_cases old : idx < h.data.capacity
    · obtain ⟨block, next, vec, live⟩ := valid.has_cell old
      rw [PokeData.expand_copied vec old]
      exact ⟨next, live⟩
    · simp [PokeData.expand_cleared (Nat.not_lt.mp old) low]
  · rintro _ ⟨⟩ idx low
    obtain ⟨block, vec⟩ := valid.has_block low
    have copied := PokeData.expand_copied (r := r) vec (Nat.lt_of_lt_of_le low valid.filled)
    rw [stays block vec] at copied ⊢
    refine (valid.lists block vec idx low).congr (congrArg (Option.map ListItem.next) copied) ?_
    intro item mem
    obtain ⟨poke, -, rfl⟩ := List.mem_map.mp mem
    rfl
  · exact valid.later
  · exact valid.older
  · exact valid.nodup
  · exact valid.apart

theorem allocate (valid : h.Valid) (room : h.data.size < h.data.capacity) {block : Nat}
    (vec : h.data.pokeDataVec = some block) {memory : Memory Addr}
    (nexts : memory.nexts = Function.update h.data.memory.nexts (head block h.data.size)
      (some (some (head block h.data.size)))) :
    { h with data := { h.data with memory, size := h.data.size + 1 } }.Valid := by
  constructor
  · exact room
  · exact valid.absent
  · exact valid.present
  · intro block' vec' idx low
    cases vec.symm.trans vec'
    rw [nexts]
    by_cases last : idx = h.data.size
    · grind
    · rw [Function.update_of_ne fun same => last (head.inj same).2]
      exact valid.cells block vec idx low
  · intro block' vec' idx low
    cases vec.symm.trans vec'
    dsimp only at low ⊢
    rw [nexts]
    by_cases last : idx = h.data.size
    · subst last
      rw [valid.later _ (Nat.le_refl _)]
      exact listInit_holds _ _
    · refine (valid.lists block vec idx (by omega)).congr ?_ fun item mem => ?_
      · exact Function.update_of_ne (fun same => last (head.inj same).2) ..
      · obtain ⟨poke, -, rfl⟩ := List.mem_map.mp mem
        exact Function.update_of_ne (by simp) ..
  · exact fun idx past => valid.later idx (Nat.le_of_succ_le past)
  · exact valid.older
  · exact valid.nodup
  · exact valid.apart

end History.Valid

/-! ## Adding -/

/-- The payloads in the list of an index. -/
def History.pokes (h : History) (idx : Nat) : List PokePayload :=
  (h.added idx).filterMap (h.data.payloads[·]?)

def sameArgument (poke i : PokePayload) : Bool := i.isEnter = poke.isEnter ∧ i.argNo = poke.argNo

theorem pokeAdd_eq (pokes : List PokePayload) (poke : PokePayload) :
    Strace.pokeAdd pokes poke =
      if pokes.any (sameArgument poke) then none else some (poke :: pokes) := rfl

theorem eachItem_isDuplicate {s : PokeData} {poke : PokePayload} {added : List Nat}
    (reads : ∀ new ∈ added, ∃ i, s.fields (payload new) = some i ∧ s.payloads[new]? = some i) :
    (eachItem (s.isDuplicate poke) (added.map payload) false).map Prod.fst =
      some ((added.filterMap (s.payloads[·]?)).any (sameArgument poke)) := by
  induction added with
  | nil => rfl
  | cons new added ih =>
    rw [List.forall_mem_cons] at reads
    obtain ⟨⟨i, read, found⟩, reads⟩ := reads
    have checked : s.isDuplicate poke false (payload new) =
        some (sameArgument poke i, sameArgument poke i) := by
      simp [PokeData.isDuplicate, read, sameArgument, Bool.beq_eq_decide_eq]
    rw [List.map_cons, eachItem, checked, List.filterMap_cons_some found, List.any_cons]
    cases duplicate : sameArgument poke i with
    | true => rfl
    | false => exact ih reads

namespace PokeData

variable {s : PokeData} {poke : PokePayload} {block idx new : Nat}

theorem newPayload_memory :
    (s.newPayload poke).memory (payload s.payloads.length) = some ⟨none, none⟩ :=
  Function.update_self ..

theorem newPayload_fields : (s.newPayload poke).fields (payload s.payloads.length) = some poke := by
  rw [fields, newPayload_memory]
  exact List.getElem?_concat_length

theorem pokeAdd_duplicate (read : s.fields (payload new) = some poke)
    (searched : s.foreachPoke idx (s.isDuplicate poke) false = some true) :
    s.pokeAdd idx new = some (true, s) := by
  simp [pokeAdd, read, searched]

theorem pokeAdd_inserts {memory : Memory Addr} (read : s.fields (payload new) = some poke)
    (searched : s.foreachPoke idx (s.isDuplicate poke) false = some false)
    (vec : s.pokeDataVec = some block)
    (inserted : listInsert s.memory (head block idx) (payload new) = some memory) :
    s.pokeAdd idx new = some (false, { s with memory }) := by
  simp [pokeAdd, read, searched, vec, inserted]

end PokeData

namespace History.Valid

variable {h : History} {block idx new : Nat}

theorem foreachPoke (valid : h.Valid) (low : idx < h.data.size) (poke : PokePayload) :
    h.data.foreachPoke idx (h.data.isDuplicate poke) false =
      some ((h.pokes idx).any (sameArgument poke)) := by
  obtain ⟨block, vec⟩ := valid.has_block low
  rw [PokeData.foreachPoke, vec]
  refine (listForeach_holds (valid.lists block vec idx low) (valid.length_lt idx) false).trans ?_
  refine eachItem_isDuplicate fun new mem => ?_
  obtain ⟨i, read⟩ := valid.fields vec low (List.mem_map_of_mem mem)
  refine ⟨i, read, ?_⟩
  rw [PokeData.fields] at read
  split at read
  · exact read
  · cases read

variable {memory : Memory Addr}

variable (valid : h.Valid)
include valid

theorem outside {payloads : List PokePayload}
    (longer : h.data.payloads.length ≤ payloads.length)
    (heads : ∀ block idx, memory.nexts (head block idx) = h.data.memory.nexts (head block idx))
    (items : ∀ idx, ∀ poke ∈ h.added idx,
      memory.nexts (payload poke) = h.data.memory.nexts (payload poke)) :
    { h with data := { h.data with memory, payloads } }.Valid := by
  constructor
  · exact valid.filled
  · exact valid.absent
  · exact valid.present
  · intro block vec idx low
    rw [heads]
    exact valid.cells block vec idx low
  · intro block vec idx low
    refine (valid.lists block vec idx low).congr (heads block idx) fun item mem => ?_
    obtain ⟨poke, added, rfl⟩ := List.mem_map.mp mem
    exact items idx poke added
  · exact valid.later
  · exact fun idx poke added => Nat.lt_of_lt_of_le (valid.older idx poke added) longer
  · exact valid.nodup
  · exact valid.apart

theorem not_added (idx : Nat) : h.data.payloads.length ∉ h.added idx :=
  fun mem => Nat.lt_irrefl _ (valid.older idx _ mem)

theorem newPayload (poke : PokePayload) :
    { h with data := h.data.newPayload poke }.Valid := by
  refine valid.outside ?_ ?_ ?_
  · simp
  · intro block idx
    rfl
  · intro idx old added
    have other : payload old ≠ payload h.data.payloads.length :=
      fun same => valid.not_added idx (payload.inj same ▸ added)
    rw [Memory.nexts, Function.update_of_ne other]
    rfl

theorem freePayload (unlisted : ∀ idx, new ∉ h.added idx) :
    { h with data := h.data.freePayload new }.Valid := by
  refine valid.outside (Nat.le_refl _) ?_ ?_
  · intro block idx
    rfl
  · intro idx old added
    have other : payload old ≠ payload new :=
      fun same => unlisted idx (payload.inj same ▸ added)
    rw [Memory.nexts, Function.update_of_ne other]
    rfl

theorem insert (vec : h.data.pokeDataVec = some block) (low : idx < h.data.size)
    (unlisted : ∀ idx, new ∉ h.added idx) (old : new < h.data.payloads.length) {first : Option Addr}
    (follows : h.data.memory.nexts (head block idx) = some first)
    (nexts : memory.nexts = Function.update (Function.update h.data.memory.nexts (payload new)
      (some first)) (head block idx) (some (some (payload new)))) :
    History.Valid { data := { h.data with memory },
                    added := Function.update h.added idx (new :: h.added idx) } := by
  -- A payload is in a list now if it was, or if it is the new one at its index.
  have listed {i poke : Nat}
      (mem : poke ∈ Function.update h.added idx (new :: h.added idx) i) :
      i = idx ∧ poke = new ∨ poke ∈ h.added i := by
    by_cases here : i = idx
    · grind
    · grind
  constructor
  · exact valid.filled
  · exact valid.absent
  · exact valid.present
  · intro block' vec' i below
    cases vec.symm.trans vec'
    rw [nexts]
    by_cases here : i = idx
    · grind
    · rw [Function.update_of_ne (fun same => here (head.inj same).2)]
      exact valid.cells block vec i below
  · intro block' vec' i below
    cases vec.symm.trans vec'
    dsimp only at below ⊢
    rw [nexts]
    have holds := valid.lists block vec i below
    by_cases here : i = idx
    · subst here
      rw [Function.update_self]
      refine listInsert_holds holds follows (by simp) fun mem => ?_
      obtain ⟨poke, added, same⟩ := List.mem_map.mp mem
      exact unlisted i (payload.inj same ▸ added)
    · rw [Function.update_of_ne here]
      refine holds.congr ?_ fun item mem => ?_
      · rw [Function.update_of_ne (fun same => here (head.inj same).2),
          Function.update_of_ne (by simp)]
      · obtain ⟨poke, added, rfl⟩ := List.mem_map.mp mem
        have other : payload poke ≠ payload new := fun same => unlisted i (payload.inj same ▸ added)
        rw [Function.update_of_ne (by simp), Function.update_of_ne other]
  · intro i past
    dsimp only at past ⊢
    rw [Function.update_of_ne (by omega), valid.later i past]
  · intro i poke mem
    rcases listed mem with ⟨-, rfl⟩ | mem
    · exact old
    · exact valid.older i poke mem
  · intro i
    dsimp only
    by_cases here : i = idx
    · subst here
      rw [Function.update_self, List.nodup_cons]
      exact ⟨unlisted i, valid.nodup i⟩
    · rw [Function.update_of_ne here]
      exact valid.nodup i
  · intro i i' poke mem mem'
    rcases listed mem with ⟨rfl, rfl⟩ | was
    · rcases listed mem' with ⟨rfl, -⟩ | was'
      · rfl
      · exact absurd was' (unlisted i')
    · rcases listed mem' with ⟨-, rfl⟩ | was'
      · exact absurd was (unlisted i)
      · exact valid.apart i i' poke was was'

end History.Valid

/-! ## Calls -/

theorem History.Valid.initial : History.Valid {} where
  filled := Nat.le_refl 0
  absent _ := rfl
  present := nofun
  cells := nofun
  lists := nofun
  later _ _ := rfl
  older := nofun
  nodup _ := List.nodup_nil
  apart := nofun

namespace History

variable {h : History}

theorem pokes_newPayload (valid : h.Valid) (idx : Nat) (poke : PokePayload) :
    { h with data := h.data.newPayload poke }.pokes idx = h.pokes idx := by
  refine List.filterMap_congr fun old added => ?_
  exact List.getElem?_append_left (valid.older idx old added)

theorem Valid.call_pokeAdd (valid : h.Valid) {idx : UInt16} (low : idx.toNat < h.data.size)
    (poke : PokePayload) :
    ∃ h', h.call (.pokeAdd idx poke) = .ok h' ∧ h'.Valid ∧
      h'.pokes idx.toNat = (Strace.pokeAdd (h.pokes idx.toNat) poke).getD (h.pokes idx.toNat) := by
  have valid' := valid.newPayload poke
  have before := pokes_newPayload valid idx.toNat poke
  have read : (h.data.newPayload poke).fields (payload h.data.payloads.length) = some poke :=
    PokeData.newPayload_fields
  have searched := valid'.foreachPoke low poke
  rw [before] at searched
  obtain ⟨block, vec⟩ := valid'.has_block low
  rw [History.call, if_pos low]
  dsimp only
  cases duplicate : (h.pokes idx.toNat).any (sameArgument poke) with
  | true =>
    rw [duplicate] at searched
    rw [PokeData.pokeAdd_duplicate read searched]
    refine ⟨_, rfl, valid'.freePayload valid.not_added, ?_⟩
    rw [pokeAdd_eq, if_pos duplicate]
    exact before
  | false =>
    rw [duplicate] at searched
    have holds := valid'.lists block vec idx.toNat low
    have fresh : payload h.data.payloads.length ∉ (h.added idx.toNat).map payload := by
      intro mem
      obtain ⟨old, added, same⟩ := List.mem_map.mp mem
      exact valid.not_added idx.toNat (payload.inj same ▸ added)
    obtain ⟨memory, first, inserted, follows, nexts⟩ := listInsert_nexts holds
      (congrArg (Option.map ListItem.next) PokeData.newPayload_memory) (by simp) fresh
    rw [PokeData.pokeAdd_inserts read searched vec inserted]
    have older : h.data.payloads.length < (h.data.newPayload poke).payloads.length := by
      simp [PokeData.newPayload]
    refine ⟨_, rfl, valid'.insert vec low valid.not_added older follows nexts, ?_⟩
    have told : ¬ (h.pokes idx.toNat).any (sameArgument poke) = true := by simp [duplicate]
    rw [pokeAdd_eq, if_neg told, ← before, History.pokes]
    dsimp only
    rw [Function.update_self]
    exact List.filterMap_cons_some List.getElem?_concat_length

variable {r : Realloc}

section
variable (valid : h.Valid)
include valid

theorem Valid.grow (stays : ¬ (Call.allocPokeData r).Moves h.data) :
    ∃ grown, (if h.data.size = h.data.capacity then h.data.expandPokeDataVec r else h.data) =
      grown ∧
      { h with data := grown }.Valid ∧ grown.size = h.data.size ∧ grown.size < grown.capacity := by
  refine ⟨_, rfl, ?_⟩
  split
  · next full =>
    refine ⟨valid.expand fun block vec => ?_, rfl, ?_⟩
    · have still : ¬ r.moves = true := fun moves => stays ⟨by simp [vec], full, moves⟩
      simp [PokeData.reallocBlock, vec, still]
    · have more := PokeData.growMemb_pos valid.absent
      exact full ▸ Nat.lt_add_of_pos_right more
  · next room => exact ⟨valid, rfl, Nat.lt_of_le_of_ne valid.filled room⟩

theorem Valid.call_allocPokeData (stays : ¬ (Call.allocPokeData r).Moves h.data) :
    (∃ h', h.call (.allocPokeData r) = .ok h' ∧ h'.Valid) ∨
      ∃ msg, h.call (.allocPokeData r) = .error (.die msg) := by
  by_cases small : h.data.size < 2 ^ 16
  · left
    obtain ⟨grown, grows, valid', same, room⟩ := valid.grow stays
    obtain ⟨block, next, vec, live⟩ := valid'.has_cell room
    have live := same ▸ live
    obtain ⟨memory, allocated, nexts⟩ := PokeData.allocPokeData_ok small grows vec live
    rw [← same] at allocated nexts
    refine ⟨_, ?_, valid'.allocate room vec nexts⟩
    rw [History.call, allocated]
    rfl
  · right
    obtain ⟨msg, dies⟩ := PokeData.allocPokeData_die small
    exact ⟨msg, by rw [History.call, dies]; rfl⟩

theorem Valid.call_moves (moves : (Call.allocPokeData r).Moves h.data) :
    (∃ h', h.call (.allocPokeData r) = .ok h' ∧ ¬ h'.Kept) ∨
      ∃ msg, h.call (.allocPokeData r) = .error (.die msg) := by
  obtain ⟨present, full, moves⟩ := moves
  obtain ⟨old, vec⟩ := Option.ne_none_iff_exists'.mp present
  obtain ⟨allocated, positive⟩ := valid.present old vec
  have moved : h.data.reallocBlock r = h.data.blocks := by simp [PokeData.reallocBlock, vec, moves]
  by_cases small : h.data.size < 2 ^ 16
  · left
    have more := PokeData.growMemb_pos valid.absent
    have live :
      (h.data.expandPokeDataVec r).memory.nexts (head (h.data.reallocBlock r) h.data.size) =
        some none := by
      rw [Memory.nexts, PokeData.expand_cleared (by omega) (by omega)]
      rfl
    obtain ⟨memory, result, nexts⟩ := PokeData.allocPokeData_ok small (if_pos full) rfl live
    refine ⟨_, by rw [History.call, result]; rfl, fun kept => ?_⟩
    have visits := (kept 0 (Nat.succ_pos _)).1
    obtain ⟨-, leads⟩ := valid.lists old vec 0 (by omega)
    cases leads with | @next _ first _ _ follows leads =>
    have other : head (h.data.reallocBlock r) 0 ≠ head (h.data.reallocBlock r) h.data.size :=
      fun same => by
        have := (head.inj same).2
        omega
    have copied : memory.nexts (head (h.data.reallocBlock r) 0) = some first := by
      rw [nexts, Function.update_of_ne other, Memory.nexts, PokeData.expand_copied vec positive]
      exact follows
    have leads : Leads memory.nexts first ((h.added 0).map payload) (some (head old 0)) := by
      refine leads.congr fun item mem => ?_
      obtain ⟨poke, -, rfl⟩ := List.mem_map.mp mem
      rw [nexts]
      rfl
    have freed : head old 0 ≠ head (h.data.reallocBlock r) 0 := fun same => by
      have := (head.inj same).1
      omega
    have astray := visits.symm.trans
      (listForeach_astray copied leads (by simp) freed ?_ (fun _ => rfl) (valid.length_lt 0) [])
    · cases astray
    · simp
  · right
    obtain ⟨msg, dies⟩ := PokeData.allocPokeData_die small
    exact ⟨msg, by rw [History.call, dies]; rfl⟩

theorem Valid.step (c : Call) (stays : ¬ c.Moves h.data) :
    h.call c ≠ .error .fault ∧ ∀ h', h.call c = .ok h' → h'.Valid := by
  cases c with
  | allocPokeData r =>
    rcases valid.call_allocPokeData stays with ⟨h', called, valid'⟩ | ⟨msg, dies⟩
    · grind
    · simp [dies]
  | pokeAdd idx poke =>
    by_cases low : idx.toNat < h.data.size
    · obtain ⟨h', called, valid', -⟩ := valid.call_pokeAdd low poke
      rw [called]
      exact ⟨nofun, fun _ same => Except.ok.inj same ▸ valid'⟩
    · grind [History.call]

theorem Valid.step_moves (c : Call) (moves : c.Moves h.data) :
    h.call c ≠ .error .fault ∧ ∀ h', h.call c = .ok h' → ¬ h'.Kept := by
  cases c with
  | allocPokeData r =>
    rcases valid.call_moves moves with ⟨h', called, lost⟩ | ⟨msg, dies⟩
    · grind
    · simp [dies]
  | pokeAdd idx poke => exact moves.elim

end

def Calls (h : History) (c : Call) (h' : History) : Prop := h.call c = .ok h'

end History

open History Runs

/-- As long as no call moves the array, its lists hold what was added to them and calls touch
allocated memory only. The first call that moves it ends that. -/
theorem poke_lists_kept_until_moved {h : History}
    (run : Run (· = {}) Calls (fun h c => ¬ c.Moves h.data) h) :
    h.Kept ∧ ∀ c, h.call c ≠ .error .fault ∧ ∀ h', h.call c = .ok h' →
      (h'.Kept ↔ ¬ c.Moves h.data) := by
  have valid : h.Valid := by
    refine run.invariant (P := History.Valid) ?_ ?_
    · rintro _ rfl
      exact .initial
    · exact fun _ c h' valid stays called => (valid.step c stays).2 h' called
  refine ⟨valid.kept, fun c => ?_⟩
  by_cases moves : c.Moves h.data
  · obtain ⟨safe, lost⟩ := valid.step_moves c moves
    exact ⟨safe, fun h' called => ⟨fun kept => absurd kept (lost h' called), absurd moves⟩⟩
  · obtain ⟨safe, kept⟩ := valid.step c moves
    exact ⟨safe, fun h' called => ⟨fun _ => moves, fun _ => (kept h' called).kept⟩⟩

def movingRealloc : Realloc := ⟨true, fun _ => ⟨none, none⟩⟩

/-- Two payloads are added to the first of two lists, and one to the second in between. -/
theorem poke_lists_kept_three_payloads :
    ∃ h, Run (· = {}) Calls (fun h c => ¬ c.Moves h.data) h ∧ h.added 0 = [2, 0] ∧
      h.added 1 = [1] ∧ h.data.visited 0 = some [payload 2, payload 0] ∧
      h.data.visited 1 = some [payload 1] ∧ h.Kept := by
  have calls {h h' : History} (run : Run (· = {}) Calls (fun h c => ¬ c.Moves h.data) h) (c : Call)
      (stays : ¬ c.Moves h.data) (called : h.call c = .ok h') :
      Run (· = {}) Calls (fun h c => ¬ c.Moves h.data) h' := run.next stays called
  have first := calls (.start rfl) (.allocPokeData movingRealloc) (fun moves => moves.1 rfl) rfl
  have second := calls first (.allocPokeData movingRealloc)
    (fun moves => absurd moves.2.1 (by decide)) rfl
  have third := calls second (.pokeAdd 0 ⟨true, 1, [0]⟩) id rfl
  have fourth := calls third (.pokeAdd 1 ⟨true, 2, [1, 2]⟩) id rfl
  have fifth := calls fourth (.pokeAdd 0 ⟨false, 1, [3]⟩) id rfl
  exact ⟨_, fifth, rfl, rfl, rfl, rfl, (poke_lists_kept_until_moved fifth).1⟩

/-- The array holds eight lists before it moves; the first of them then leads to memory that
was freed. -/
theorem poke_lists_lost_in_move :
    ∃ h, (List.replicate 9 (Call.allocPokeData movingRealloc)).foldlM History.call {} = .ok h ∧
      h.data.size = 9 ∧ h.added 0 = [] ∧ h.data.visited 0 = none ∧ ¬ h.Kept := by
  refine ⟨_, rfl, rfl, rfl, rfl, fun kept => ?_⟩
  exact nomatch (kept 0 (by decide)).1

end Strace.Poke
