import Mathlib.Algebra.Group.Int.Defs
import Strace.Common
import Strace.Pidns.Translate

/-! The tries of `pidns.c` behind the maps of process ids: one for each type of id, of pointers
to one for each namespace. -/
namespace Strace.Pidns
open List Packed Tries

def createTrie4 (widePointers : Bool) (keySize itemSizeLg : Nat) : Option Trie :=
  trieCreate widePointers keySize itemSizeLg 4 4 0

structure Cache where
  widePointers : Bool
  pidMaxSize : Nat
  pidMaxSizeLg : Nat
  nsPidToProcPid : PidType → Trie
  heap : Word → Option Trie := fun _ => none

/-- A namespace or a pid as a key. -/
def nsKey (ns : UInt32) : Word := ns.toBitVec.setWidth 64

def pidKey (pid : Int) : Word := BitVec.ofInt 64 pid

def pidnsInit (widePointers : Bool) (pidMax : Nat) : Option Cache := do
  let pidMaxSize := uint8 (ilog2_32 (pidMax - 1) + 1)
  let pidMaxSizeLg := uint8 (ilog2_32 (pidMaxSize - 1) + 1)
  let trie ← createTrie4 widePointers 32 (ptrSzLg widePointers)
  let _procDataCache ← createTrie4 widePointers pidMaxSize (ptrSzLg widePointers)
  return { widePointers, pidMaxSize, pidMaxSizeLg, nsPidToProcPid := fun _ => trie }

structure Put where
  ns : UInt32
  nsPid : Nat
  type : PidType
  procPid : Nat
  block : Word

namespace Cache

def nsTrie (c : Cache) (put : Put) : Option (Word × Cache) := do
  let b ← trieGet (c.nsPidToProcPid put.type) (nsKey put.ns)
  if b ≠ 0 then return (b, c)
  else
    let new ← createTrie4 c.widePointers c.pidMaxSize c.pidMaxSizeLg
    let (outer, _) ← trieSet (c.nsPidToProcPid put.type) (nsKey put.ns) put.block
    return (put.block, { c with
      nsPidToProcPid := Function.update c.nsPidToProcPid put.type outer
      heap := Function.update c.heap put.block (some new) })

def putProcPid (c : Cache) (put : Put) : Option Cache := do
  let (b, c) ← c.nsTrie put
  let t ← c.heap b
  let (t, _) ← trieSet t (pidKey put.nsPid) (pidKey put.procPid)
  return { c with heap := Function.update c.heap b (some t) }

/-- An `int` of what the trie holds. -/
def getCachedProcPid (c : Cache) (ns : UInt32) (nsPid : Int) (type : PidType) : Option Int := do
  let b ← trieGet (c.nsPidToProcPid type) (nsKey ns)
  if b = 0 then return 0
  else
    let t ← c.heap b
    let val ← trieGet t (pidKey nsPid)
    return (val.setWidth 32).toInt

end Cache

def State.newPidTrie (s : State) (widePointers : Bool) : Trie :=
  newTrie widePointers s.pidMaxSize s.pidMaxSizeLg 4 4 0

section
variable {s : State} {tries : PidType → UInt32 → Trie}

def HeldBy (s : State) (tries : PidType → UInt32 → Trie) : Prop :=
  ∀ type ns, Refines (tries type ns) (s.nsPidToProcPid type ns) ∧
    (tries type ns).keySize = s.pidMaxSize ∧ (tries type ns).itemSizeLg = s.pidMaxSizeLg

section
variable (large : 8 < s.pidMax) (small : s.pidMax ≤ intMax)
include large small

theorem pidMaxSize_bounds : 4 ≤ s.pidMaxSize ∧ s.pidMaxSize ≤ 31 ∧ s.pidMaxSizeLg ≤ 5 ∧
    s.pidMaxSize ≤ 2 ^ s.pidMaxSizeLg ∧ s.pidMax ≤ 2 ^ s.pidMaxSize := by
  have size : 3 ≤ Nat.log2 (s.pidMax - 1) ∧ Nat.log2 (s.pidMax - 1) < 31 := by
    rw [Nat.le_log2 (by omega), Nat.log2_lt (by omega)]
    unfold intMax at small
    omega
  have sizeLg : Nat.log2 (Nat.log2 (s.pidMax - 1)) < 5 := by
    rw [Nat.log2_lt (by omega)]
    omega
  have pids : s.pidMax - 1 < 2 ^ (Nat.log2 (s.pidMax - 1) + 1) := Nat.lt_log2_self
  have bits : Nat.log2 (s.pidMax - 1) < 2 ^ (Nat.log2 (Nat.log2 (s.pidMax - 1)) + 1) :=
    Nat.lt_log2_self
  simp only [State.pidMaxSizeLg, State.pidMaxSize, Nat.add_sub_cancel]
  omega

theorem heldBy_new (none : ∀ type ns, s.nsPidToProcPid type ns = fun _ => 0) (widePointers : Bool) :
    HeldBy s fun _ _ => s.newPidTrie widePointers := by
  intro type ns
  obtain ⟨least, most, lg, _⟩ := pidMaxSize_bounds large small
  have refines : Refines (s.newPidTrie widePointers) _ :=
    refines_newTrie (by omega) (Nat.le_succ_of_le lg) (by decide) ⟨by decide, least⟩ widePointers 0
  have zero : (0 : Word) &&& low (2 ^ s.pidMaxSizeLg) = 0 := BitVec.zero_and
  rw [zero, ← none type ns] at refines
  exact ⟨refines, rfl, rfl⟩

end

theorem HeldBy.putProcPid (held : HeldBy s tries) (ns : UInt32) (nsPid : Nat) (type : PidType)
    (procPid : Nat) :
    ∃ t ok, trieSet (tries type ns) (BitVec.ofNat 64 nsPid) (BitVec.ofNat 64 procPid) =
      some (t, ok) ∧
      HeldBy (s.putProcPid ns nsPid type procPid)
        fun type' ns' => if type' = type ∧ ns' = ns then t else tries type' ns' := by
  obtain ⟨refines, key, item⟩ := held type ns
  obtain ⟨t, set, after, key', item'⟩ :=
    refines.trieSet (BitVec.ofNat 64 nsPid) (BitVec.ofNat 64 procPid)
  refine ⟨t, _, set, fun type' ns' => ?_⟩
  by_cases here : type' = type ∧ ns' = ns
  · have same : (s.putProcPid ns nsPid type procPid).nsPidToProcPid type' ns' =
        setMap (tries type ns) (s.nsPidToProcPid type ns) (BitVec.ofNat 64 nsPid)
          (BitVec.ofNat 64 procPid) := by
      simp only [State.putProcPid, if_pos here, setMap, key, item]
      rfl
    simp only [if_pos here, same]
    exact ⟨after, key'.trans key, item'.trans item⟩
  · have same : (s.putProcPid ns nsPid type procPid).nsPidToProcPid type' ns' =
        s.nsPidToProcPid type' ns' := if_neg here
    simp only [if_neg here, same]
    exact held type' ns'

end

/-! ## The pointers -/

structure Holds (c : Cache) (s : State) (used : List Word) (tries : PidType → UInt32 → Trie)
    (block : PidType × UInt32 → Word) : Prop where
  held : HeldBy s tries
  create : createTrie4 c.widePointers c.pidMaxSize c.pidMaxSizeLg =
    some (s.newPidTrie c.widePointers)
  empty : ∀ key, trieGet (s.newPidTrie c.widePointers) key = some 0
  outer : ∀ type, ∃ m, Refines (c.nsPidToProcPid type) m ∧ (∀ ns, m (nsKey ns) = block (type, ns)) ∧
    (c.nsPidToProcPid type).keySize = 32 ∧
    (c.nsPidToProcPid type).itemSizeLg = ptrSzLg c.widePointers
  new : ∀ k, block k = 0 → tries k.1 k.2 = s.newPidTrie c.widePointers
  leads : ∀ k, block k ≠ 0 → block k ∈ used ∧ c.heap (block k) = some (tries k.1 k.2)
  own : ∀ k k', block k ≠ 0 → block k = block k' → k' = k

variable {c : Cache} {s : State} {used : List Word} {tries : PidType → UInt32 → Trie}
  {block : PidType × UInt32 → Word}

theorem nsKey_inj {ns ns' : UInt32} (same : nsKey ns = nsKey ns') : ns = ns' := by
  have := congrArg BitVec.toNat same
  simp only [nsKey, BitVec.toNat_setWidth, UInt32.toNat_toBitVec] at this
  have := ns.toNat_lt
  have := ns'.toNat_lt
  exact UInt32.toNat_inj.mp (by omega)

theorem and_low {w : Word} {bits : Nat} (small : w.toNat < 2 ^ bits) : w &&& low bits = w := by
  refine BitVec.eq_of_getLsbD_eq fun i inside => ?_
  rw [BitVec.getLsbD_and, getLsbD_low]
  by_cases below : i < bits
  · simp [below, inside]
  · have unset : w.getLsbD i = false := Nat.testBit_lt_two_pow
      (Nat.lt_of_lt_of_le small (Nat.pow_le_pow_right (by decide) (by omega)))
    simp [unset]

theorem pidKey_natCast (n : Nat) : pidKey n = BitVec.ofNat 64 n := BitVec.ofInt_natCast ..

section
variable (holds : Holds c s used tries block)
include holds

theorem Holds.nsTrie (put : Put) (fresh : put.block ∉ used)
    (address : put.block ≠ 0) (fits : put.block.toNat < 2 ^ 2 ^ ptrSzLg c.widePointers) :
    ∃ c' block', c.nsTrie put = some (block' (put.type, put.ns), c') ∧
      Holds c' s (put.block :: used) tries block' ∧ c'.widePointers = c.widePointers ∧
      block' (put.type, put.ns) ≠ 0 := by
  obtain ⟨m, refines, pointer, key, item⟩ := holds.outer put.type
  by_cases none : block (put.type, put.ns) = 0
  · obtain ⟨outer, set, after, key', item'⟩ := refines.trieSet (nsKey put.ns) put.block
    have range : (nsKey put.ns).toNat < 2 ^ 32 := by simpa [nsKey] using put.ns.toNat_lt
    rw [setMap, key, item, if_pos range, and_low fits] at after
    have unused {k : PidType × UInt32} (set : block k ≠ 0) : block k ≠ put.block := fun same =>
      fresh (same ▸ (holds.leads k set).1)
    refine ⟨{ c with
      nsPidToProcPid := Function.update c.nsPidToProcPid put.type outer
      heap := Function.update c.heap put.block (some (s.newPidTrie c.widePointers)) },
      Function.update block (put.type, put.ns) put.block, ?_,
      ⟨holds.held, holds.create, holds.empty, fun type => ?_, fun k => ?_, fun k =>
        ?_, fun k k' => ?_⟩,
      rfl, by simpa using address⟩
    · simp [Cache.nsTrie, refines.get, pointer, none, holds.create, set]
    · by_cases here : type = put.type
      · subst here
        refine ⟨_, by simpa using after, fun ns => ?_, by simp [key', key], by simp [item', item]⟩
        by_cases same : ns = put.ns
        · simp [same]
        · simp [Function.update_of_ne fun eq => same (nsKey_inj eq), pointer, same]
      · simpa [here] using holds.outer type
    · by_cases here : k = (put.type, put.ns)
      · subst here
        rw [Function.update_self]
        exact fun unset => absurd unset address
      · simpa [here] using holds.new k
    · by_cases here : k = (put.type, put.ns)
      · simp [here, holds.new _ none]
      · simp only [Function.update_of_ne here, mem_cons]
        intro set
        rw [Function.update_of_ne (unused set)]
        exact ⟨.inr (holds.leads k set).1, (holds.leads k set).2⟩
    · by_cases here : k = (put.type, put.ns) <;> by_cases here' : k' = (put.type, put.ns)
      · simp [here, here']
      · grind
      · subst here'
        simp only [Function.update_self, Function.update_of_ne here]
        exact fun set same => absurd same (unused set)
      · simpa [here, here'] using holds.own k k'
  · refine ⟨c, block, ?_, { holds with leads := fun k set => ?_ }, rfl, none⟩
    · simp only [Cache.nsTrie, refines.get, pointer, Option.bind_eq_bind, Option.bind_some,
        if_pos none]
      rfl
    · exact ⟨mem_cons_of_mem _ (holds.leads k set).1, (holds.leads k set).2⟩

theorem Holds.putProcPid (put : Put) (fresh : put.block ∉ used)
    (address : put.block ≠ 0) (fits : put.block.toNat < 2 ^ 2 ^ ptrSzLg c.widePointers) :
    ∃ c' tries' block', c.putProcPid put = some c' ∧ c'.widePointers = c.widePointers ∧
      Holds c' (s.putProcPid put.ns put.nsPid put.type put.procPid)
        (put.block :: used) tries' block' := by
  obtain ⟨c', block', opened, holds', wide, set⟩ := holds.nsTrie put fresh address fits
  obtain ⟨t, ok, stored, held⟩ := holds'.held.putProcPid put.ns put.nsPid put.type put.procPid
  refine ⟨{ c' with heap := Function.update c'.heap (block' (put.type, put.ns)) (some t) },
    _, block',
    ?_, wide, ⟨held, holds'.create, holds'.empty, holds'.outer, fun k unset => ?_, fun k set' => ?_,
      holds'.own⟩⟩
  · simp [Cache.putProcPid, opened, (holds'.leads _ set).2, pidKey_natCast, stored]
  · rw [if_neg]
    · exact holds'.new k unset
    · rintro ⟨type, ns⟩
      exact set (type ▸ ns ▸ unset)
  · refine ⟨(holds'.leads k set').1, ?_⟩
    by_cases here : k = (put.type, put.ns)
    · simp [here]
    · have other : block' k ≠ block' (put.type, put.ns) := fun same =>
        here (holds'.own _ _ set same.symm)
      rw [if_neg fun same => here (Prod.ext same.1 same.2)]
      exact (Function.update_of_ne other ..).trans (holds'.leads k set').2

theorem Holds.getCachedProcPid (ns : UInt32) (nsPid : Int)
    (type : PidType) :
    c.getCachedProcPid ns nsPid type =
      some ((s.nsPidToProcPid type ns (pidKey nsPid)).setWidth 32).toInt := by
  obtain ⟨m, refines, pointer, _⟩ := holds.outer type
  have get := (holds.held type ns).1.get (pidKey nsPid)
  simp only [Cache.getCachedProcPid, refines.get, pointer, Option.bind_eq_bind, Option.bind_some]
  split
  · next none =>
    -- a trie that is not there yet is a new one, all of whose items are 0
    rw [holds.new (type, ns) none, holds.empty, Option.some_inj] at get
    rw [← get]
    rfl
  · next set => simp [(holds.leads (type, ns) set).2, get]

end

/-! ## A run -/

def State.put (s : State) (put : Put) : State := s.putProcPid put.ns put.nsPid put.type put.procPid

theorem Holds.run (holds : Holds c s used tries block) {calls : List Put}
    (fresh : (calls.map (·.block) ++ used).Nodup)
    (blocks : ∀ put ∈ calls, put.block ≠ 0 ∧ put.block.toNat < 2 ^ 2 ^ ptrSzLg c.widePointers) :
    ∃ c' used' tries' block', calls.foldlM Cache.putProcPid c = some c' ∧
      Holds c' (calls.foldl State.put s) used' tries' block' := by
  induction calls generalizing c s used tries block with
  | nil => exact ⟨c, used, tries, block, rfl, holds⟩
  | cons put calls ih =>
    obtain ⟨address, fits⟩ := blocks put mem_cons_self
    rw [map_cons, cons_append, nodup_cons, mem_append, not_or] at fresh
    obtain ⟨c', tries', block', stored, wide, holds'⟩ := holds.putProcPid put fresh.1.2 address fits
    rw [foldlM_cons, stored]
    refine ih holds' ?_ ?_
    · rw [perm_middle.nodup_iff, nodup_cons, mem_append, not_or]
      exact fresh
    · rw [wide]
      exact fun put mem => blocks put (mem_cons_of_mem _ mem)

theorem pidKey_inj {a b : Int} (small : -2 ^ 31 ≤ a ∧ a < 2 ^ 31) (small' : -2 ^ 31 ≤ b ∧
    b < 2 ^ 31)
    (same : pidKey a = pidKey b) : a = b := by
  have := congrArg BitVec.toInt same
  simp only [pidKey, BitVec.toInt_ofInt, Int.bmod] at this
  omega

section
variable (large : 8 < s.pidMax) (small : s.pidMax ≤ intMax)
include large small

theorem pidnsInit_holds (none : ∀ type ns, s.nsPidToProcPid type ns = fun _ => 0)
    (widePointers : Bool) :
    ∃ c, pidnsInit widePointers s.pidMax = some c ∧ c.widePointers = widePointers ∧
      Holds c s [] (fun _ _ => s.newPidTrie widePointers) fun _ => 0 := by
  obtain ⟨least, most, lg, _⟩ := pidMaxSize_bounds large small
  have pointers := ptrSzLg_bounds widePointers
  have size : uint8 (ilog2_32 (s.pidMax - 1) + 1) = s.pidMaxSize := by
    rw [ilog2_32_eq (by unfold intMax at small; omega), ← Nat.log2_eq_log_two]
    exact Nat.mod_eq_of_lt (show s.pidMaxSize < 256 by omega)
  have sizeLg : uint8 (ilog2_32 (s.pidMaxSize - 1) + 1) = s.pidMaxSizeLg := by
    rw [ilog2_32_eq (by omega), ← Nat.log2_eq_log_two]
    exact Nat.mod_eq_of_lt (show s.pidMaxSizeLg < 256 by omega)
  have created : createTrie4 widePointers 32 (ptrSzLg widePointers) =
      some (newTrie widePointers 32 (ptrSzLg widePointers) 4 4 0) :=
    trieCreate_eq (by decide) pointers.2 (by decide) (by decide) ..
  have create {lg : Nat} (le : lg ≤ 6) : createTrie4 widePointers s.pidMaxSize lg =
      some (newTrie widePointers s.pidMaxSize lg 4 4 0) :=
    trieCreate_eq (by omega) le (by decide) ⟨by decide, least⟩ ..
  have zero : (0 : Word) &&& low (2 ^ ptrSzLg widePointers) = 0 := BitVec.zero_and
  have refines : Refines (newTrie widePointers 32 (ptrSzLg widePointers) 4 4 0) _ :=
    refines_newTrie (by decide) pointers.2 (by decide) (by decide) widePointers 0
  rw [zero] at refines
  have held := heldBy_new large small none widePointers
  have empty (key : Word) : trieGet (s.newPidTrie widePointers) key = some 0 := by
    rw [(held .tid 0).1.get, none]
  refine ⟨⟨widePointers, s.pidMaxSize, s.pidMaxSizeLg,
      fun _ => newTrie widePointers 32 (ptrSzLg widePointers) 4 4 0, fun _ => .none⟩, ?_, rfl,
    ⟨held, create (Nat.le_succ_of_le lg), empty, fun _ => ⟨_, refines, fun _ => rfl, rfl, rfl⟩,
      fun _ _ => rfl, fun _ set => absurd rfl set, fun _ _ set => absurd rfl set⟩⟩
  simp [pidnsInit, size, sizeLg, created, create pointers.2]

theorem put_maps {put : Put} (inside : put.nsPid < s.pidMax) (stored : put.procPid < s.pidMax)
    (ns : UInt32) (type : PidType) {nsPid : Int} (int : -2 ^ 31 ≤ nsPid ∧ nsPid < 2 ^ 31) :
    (s.put put).nsPidToProcPid type ns (pidKey nsPid) =
      if put.type = type ∧ put.ns = ns ∧ put.nsPid = nsPid then pidKey put.procPid
      else s.nsPidToProcPid type ns (pidKey nsPid) := by
  obtain ⟨_, most, _, lg, pids⟩ := pidMaxSize_bounds large small
  have bound : 2 ^ s.pidMaxSize ≤ 2 ^ 31 := Nat.pow_le_pow_right (by decide) most
  have item : 2 ^ s.pidMaxSize ≤ 2 ^ 2 ^ s.pidMaxSizeLg := Nat.pow_le_pow_right (by decide) lg
  have kept : BitVec.ofNat 64 put.procPid &&& low (2 ^ s.pidMaxSizeLg) = pidKey put.procPid := by
    rw [and_low (by rw [BitVec.toNat_ofNat]; omega), pidKey_natCast]
  by_cases here : type = put.type ∧ ns = put.ns
  · obtain ⟨rfl, rfl⟩ := here
    have key : (pidKey put.nsPid).toNat < 2 ^ s.pidMaxSize := by
      rw [pidKey_natCast, BitVec.toNat_ofNat]
      omega
    have set : (s.put put).nsPidToProcPid put.type put.ns =
        Function.update (s.nsPidToProcPid put.type put.ns) (pidKey put.nsPid)
          (pidKey put.procPid) := by
      rw [← kept] at *
      simp only [State.put, State.putProcPid, and_self, State.pidTrie]
      exact if_pos key
    rw [set]
    by_cases same : (put.nsPid : Int) = nsPid
    · simp [same]
    · have other : pidKey nsPid ≠ pidKey put.nsPid := fun eq =>
        same (pidKey_inj int (by omega) eq).symm
      simp [same, other]
  · have other : ¬ (put.type = type ∧ put.ns = ns ∧ put.nsPid = nsPid) := fun same =>
      here ⟨same.1.symm, same.2.1.symm⟩
    rw [if_neg other]
    exact congrFun (if_neg here) _

end

/-- The pid that was stored last, or 0. -/
def lastPut (ns : UInt32) (nsPid : Int) (type : PidType) (calls : List Put) : Nat :=
  calls.foldl (fun found put =>
    if put.type = type ∧ put.ns = ns ∧ put.nsPid = nsPid then put.procPid else found) 0

theorem toInt_pidKey {n : Nat} (small : n < 2 ^ 31) : ((pidKey n).setWidth 32).toInt = n := by
  rw [pidKey_natCast, BitVec.toInt_eq_toNat_of_lt] <;>
    rw [BitVec.toNat_setWidth, BitVec.toNat_ofNat] <;>
    omega

theorem run_maps (large : 8 < s.pidMax) (small : s.pidMax ≤ intMax) {calls : List Put}
    (inside : ∀ put ∈ calls, put.nsPid < s.pidMax ∧ put.procPid < s.pidMax) {ns : UInt32}
    {type : PidType} {nsPid : Int} (int : -2 ^ 31 ≤ nsPid ∧ nsPid < 2 ^ 31) (found : Nat)
    (before : s.nsPidToProcPid type ns (pidKey nsPid) = pidKey found) (stored : found < s.pidMax) :
    let last := calls.foldl (fun found put =>
      if put.type = type ∧ put.ns = ns ∧ put.nsPid = nsPid then put.procPid else found) found
    (calls.foldl State.put s).nsPidToProcPid type ns (pidKey nsPid) = pidKey last ∧
      last < s.pidMax := by
  induction calls generalizing s found with
  | nil => exact ⟨before, stored⟩
  | cons put calls ih =>
    obtain ⟨pid, value⟩ := inside put mem_cons_self
    have after := put_maps large small pid value ns type int
    refine ih (s := s.put put) large small (fun put mem => inside put (mem_cons_of_mem _ mem))
      _ ?_ ?_
    · rw [after, before]
      simp only
      split <;> rfl
    · simp only
      split <;> assumption

/-- After `pidns_init` and any calls of `put_proc_pid`, a triple has the pid that was stored for it
last. The blocks that `malloc` gives are addresses, and no two are the same. -/
theorem cached_proc_pid_last (widePointers : Bool) (pidMax : Nat) (large : 301 ≤ pidMax)
    (small : pidMax ≤ intMax) (calls : List Put)
    (inside : ∀ put ∈ calls, (1 ≤ put.nsPid ∧ put.nsPid < pidMax) ∧
      1 ≤ put.procPid ∧ put.procPid < pidMax)
    (fresh : (calls.map (·.block)).Nodup)
    (blocks : ∀ put ∈ calls, put.block ≠ 0 ∧ put.block.toNat < 2 ^ 2 ^ ptrSzLg widePointers) :
    ∃ c, (pidnsInit widePointers pidMax).bind (calls.foldlM Cache.putProcPid) = some c ∧
      ∀ (ns : UInt32) (nsPid : Int) (type : PidType), -2 ^ 31 ≤ nsPid ∧ nsPid < 2 ^ 31 →
        c.getCachedProcPid ns nsPid type = some (lastPut ns nsPid type calls : Int) := by
  have large' : 8 < pidMax := by omega
  obtain ⟨c, started, wide, holds⟩ :=
    pidnsInit_holds (s := { pidMax }) large' small (fun _ _ => rfl) widePointers
  obtain ⟨c', _, _, _, ran, holds'⟩ := holds.run (by simpa using fresh) (wide ▸ blocks)
  refine ⟨c', by rw [started]; exact ran, fun ns nsPid type int => ?_⟩
  obtain ⟨value, bound⟩ := run_maps (s := { pidMax }) large' small
    (fun put mem => ⟨(inside put mem).1.2, (inside put mem).2.2⟩) int 0 rfl (by simp only; omega)
  rw [holds'.getCachedProcPid, value, toInt_pidKey]
  · rfl
  · unfold intMax at small
    simp only at bound
    omega

/-- The second pid of a triple replaces the first, and those of another type stay. -/
theorem cached_proc_pid_last_replaced :
    let calls : List Put :=
      [⟨7, 300, .tid, 5, 0x1000⟩, ⟨7, 300, .sid, 6, 0x2000⟩, ⟨7, 300, .tid, 9, 0x3000⟩]
    ∃ c, (pidnsInit false 301).bind (calls.foldlM Cache.putProcPid) = some c ∧
      c.getCachedProcPid 7 300 .tid = some 9 ∧ c.getCachedProcPid 7 300 .sid = some 6 ∧
      c.getCachedProcPid 8 300 .tid = some 0 := by
  intro calls
  obtain ⟨c, ran, last⟩ := cached_proc_pid_last false 301 (by decide) (by decide) calls
    (by simp [calls]) (by decide) (by simp [calls, ptrSzLg])
  exact ⟨c, ran, last 7 300 .tid (by decide), last 7 300 .sid (by decide),
    last 8 300 .tid (by decide)⟩

end Strace.Pidns
