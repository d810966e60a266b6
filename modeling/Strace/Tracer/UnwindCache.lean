import Mathlib.Data.Nat.Bitwise

/-! The symbol cache of `unwind-libdw.c`: 64 sets of 32 entries for each tracee. -/
namespace Strace.UnwindCache
open List

def cacheSize : Nat := 2048
def cacheAssoc : Nat := 32

structure CacheEntry (α : Type) where
  pc : UInt64 := 0
  generation : UInt64 := 0
  value : Option α := none
  lastUse : UInt64 := 0
  deriving DecidableEq

variable {α : Type}

structure State (α : Type) where
  mappingGeneration : UInt64 := 1
  uwcacheClock : UInt64 := 0
  cache : Nat → List (CacheEntry α) := fun _ => List.replicate cacheSize {}

/-- Where the set of a `pc` starts. -/
def setOf (pc : UInt64) : Nat := (pc &&& ((2048 - 1) &&& ~~~(32 - 1))).toNat

def scan (cache : List (CacheEntry α)) (generation : UInt64) (pc : UInt64) :
    (left ce : Nat) → (unused : Option Nat) → (lru : Nat) → Option (Bool × Nat)
  | 0, _, unused, lru => some (false, unused.getD lru)
  | left + 1, ce, unused, lru => do
    let entry ← cache[ce]?
    if entry.generation = generation ∧ entry.pc = pc then return (true, ce)
    else if entry.generation ≠ generation then scan cache generation pc left (ce + 1) (some ce) lru
    else
      let least ← cache[lru]?
      let lru := if entry.lastUse < least.lastUse then ce else lru
      scan cache generation pc left (ce + 1) unused lru

def findBucket (cache : List (CacheEntry α)) (generation : UInt64) (pc : UInt64) :
    Option (Bool × Nat) :=
  scan cache generation pc cacheAssoc (setOf pc) none (setOf pc)

inductive Event (α : Type) where
  | frame (tracee : Nat) (pc : UInt64) (symbol : Option α)
  | mapping

def Event.isMapping : Event α → Bool
  | .frame .. => false
  | .mapping => true

def State.store (s : State α) (tracee ce : Nat) (entry : CacheEntry α) : State α :=
  { s with uwcacheClock := s.uwcacheClock + 1
           cache := Function.update s.cache tracee ((s.cache tracee).set ce entry) }

def State.next (s : State α) : Event α → Option (State α)
  | .mapping => some { s with mappingGeneration := s.mappingGeneration + 1 }
  | .frame tracee pc symbol => do
    let (found, ce) ← findBucket (s.cache tracee) s.mappingGeneration pc
    let entry ← (s.cache tracee)[ce]?
    if found then return s.store tracee ce { entry with lastUse := s.uwcacheClock }
    else
      match symbol with
      | none => return s
      | some _ => return s.store tracee ce ⟨pc, s.mappingGeneration, symbol, s.uwcacheClock⟩

/-! ## `find_bucket` -/

def InSet (start k : Nat) : Prop := start ≤ k ∧ k < start + cacheAssoc

def Current (generation : UInt64) (pc : UInt64) (entry : CacheEntry α) : Prop :=
  entry.generation = generation ∧ entry.pc = pc

def Bucket (entry : Nat → CacheEntry α) (generation : UInt64) (pc : UInt64) (start : Nat) :
    Bool → Nat → Prop
  | true, k => Current generation pc (entry k)
  | false, k => (∀ j, InSet start j → ¬ Current generation pc (entry j)) ∧
      ((entry k).generation ≠ generation ∨ ∀ j, InSet start j →
        (entry j).generation = generation ∧ (entry k).lastUse ≤ (entry j).lastUse)

section
variable {cache : List (CacheEntry α)} {entry : Nat → CacheEntry α} {generation : UInt64}
  {pc : UInt64}
  {start : Nat}

theorem scan_spec (reads : ∀ k, InSet start k → cache[k]? = some (entry k)) {left ce lru : Nat}
    {unused : Option Nat} (ends : ce + left = start + cacheAssoc) (within : InSet start lru)
    (missed : ∀ j, start ≤ j → j < ce → ¬ Current generation pc (entry j))
    (stale : ∀ u ∈ unused, InSet start u ∧ (entry u).generation ≠ generation)
    (least : unused = none → ∀ j, start ≤ j → j < ce →
      (entry j).generation = generation ∧ (entry lru).lastUse ≤ (entry j).lastUse)
    (begun : start ≤ ce) :
    ∃ found k, scan cache generation pc left ce unused lru = some (found, k) ∧ InSet start k ∧
      Bucket entry generation pc start found k := by
  induction left generalizing ce unused lru with
  | zero =>
    obtain rfl := ends
    refine ⟨false, unused.getD lru, rfl, ?_, fun j inside => missed j inside.1 inside.2, ?_⟩
    · cases unused with
      | none => exact within
      | some u => exact (stale u rfl).1
    · cases unused with
      | none => exact .inr fun j inside => least rfl j inside.1 inside.2
      | some u => exact .inl (stale u rfl).2
  | succ left ih =>
    have inside : InSet start ce := ⟨begun, by omega⟩
    -- what holds before an entry and for it holds before the next one
    have upTo {P : Nat → Prop} (before : ∀ j, start ≤ j → j < ce → P j) (here : P ce) :
        ∀ j, start ≤ j → j < ce + 1 → P j := fun j low high =>
      (Nat.lt_or_eq_of_le (Nat.le_of_lt_succ high)).elim (before j low) fun eq => eq ▸ here
    simp only [scan, reads ce inside, reads lru within, Option.bind_eq_bind, Option.bind_some]
    split
    · next hit => exact ⟨true, ce, rfl, inside, hit⟩
    · next miss =>
      have missed := upTo missed miss
      split
      · next old =>
        refine ih (by omega) within missed ?_ nofun (by omega)
        rintro u ⟨⟩
        exact ⟨inside, old⟩
      · next current =>
        refine ih (by omega) (by split <;> assumption) missed stale (fun none => ?_) (by omega)
        have least := least none
        split
        · next less =>
          refine upTo (fun j low high => ?_) ⟨not_not.mp current, UInt64.le_refl _⟩
          exact ⟨(least j low high).1, UInt64.le_trans (UInt64.le_of_lt less) (least j low high).2⟩
        · next more => exact upTo least ⟨not_not.mp current, UInt64.not_lt.mp more⟩

theorem setOf_bounds (pc : UInt64) :
    setOf pc % cacheAssoc = 0 ∧ setOf pc + cacheAssoc ≤ cacheSize := by
  have low : (pc.toNat &&& 2016) % 2 ^ 5 = 0 := by
    rw [Nat.and_mod_two_pow]
    exact Nat.and_zero _
  have high : pc.toNat &&& 2016 ≤ 2016 := Nat.and_le_right
  exact ⟨low, Nat.add_le_add_right high 32⟩

theorem findBucket_spec (full : cache.length = cacheSize) (generation : UInt64) (pc : UInt64) :
    ∃ found k, findBucket cache generation pc = some (found, k) ∧ InSet (setOf pc) k ∧
      Bucket (cache.getD · {}) generation pc (setOf pc) found k := by
  have bounds := setOf_bounds pc
  refine scan_spec (fun k inside => ?_) rfl ⟨Nat.le_refl _, Nat.lt_add_of_pos_right (by decide)⟩
    (by omega) nofun (fun _ => by omega) (Nat.le_refl _)
  have there : k < cache.length := by
    unfold InSet at inside
    omega
  simp [there]

end

/-! ## Runs -/

def Unique (generation : UInt64) (entry : Nat → CacheEntry α) : Prop :=
  ∀ start j k, start % cacheAssoc = 0 → InSet start j → InSet start k → ∀ pc,
    Current generation pc (entry j) → Current generation pc (entry k) → j = k

structure Valid (generation : UInt64) (cache : List (CacheEntry α)) : Prop where
  full : cache.length = cacheSize
  past : ∀ k, (cache.getD k {}).generation ≤ generation
  unique : Unique generation (cache.getD · {})

variable {cache : List (CacheEntry α)} {generation pc : UInt64} {ce : Nat}

theorem getD_set (inside : ce < cache.length) (new : CacheEntry α) (k : Nat) :
    (cache.set ce new).getD k {} = if k = ce then new else cache.getD k {} := by
  by_cases here : k = ce
  · simp [here, inside]
  · simp [here, Ne.symm here]

theorem InSet.lt_size (inside : InSet (setOf pc) ce) : ce < cacheSize :=
  Nat.lt_of_lt_of_le inside.2 (setOf_bounds pc).2

theorem Valid.set (valid : Valid generation cache) (inside : InSet (setOf pc) ce)
    {new : CacheEntry α} (current : Current generation pc new)
    (others : ∀ j, InSet (setOf pc) j → Current generation pc (cache.getD j {}) → j = ce) :
    Valid generation (cache.set ce new) := by
  have there := valid.full ▸ inside.lt_size
  have only {start k : Nat} {pc' : UInt64} (aligned : start % cacheAssoc = 0)
      (at_ce : InSet start ce) (at_k : InSet start k) (new' : Current generation pc' new)
      (old : Current generation pc' (cache.getD k {})) : k = ce := by
    obtain rfl : start = setOf pc := by
      have := (setOf_bounds pc).1
      unfold InSet cacheAssoc at *
      omega
    exact others k at_k (new'.2.symm.trans current.2 ▸ old)
  refine ⟨length_set.trans valid.full, fun k => ?_, ?_⟩
  · rw [getD_set there]
    split
    · exact UInt64.le_of_eq current.1
    · exact valid.past k
  · simp only [Unique, getD_set there]
    intro start j k aligned at_j at_k pc' first second
    split at first
    · grind
    · split at second
      · next eq' => exact (only aligned (eq' ▸ at_k) at_j second first).trans eq'.symm
      · exact valid.unique start j k aligned at_j at_k pc' first second

theorem valid_zero : Valid 1 (List.replicate cacheSize ({} : CacheEntry α)) := by
  have zero (k : Nat) :
      ((List.replicate cacheSize ({} : CacheEntry α)).getD k {}).generation = 0 := by
    rw [getD_eq_getElem?_getD, getElem?_replicate]
    split <;> rfl
  refine ⟨length_replicate, fun k => by simp only [zero]; decide, ?_⟩
  intro start j k _ _ _ pc first
  exact absurd (zero j ▸ first.1) (by decide)

/-- What holds between two events of which `left` more change the mappings: `mapping_generation`
does not wrap, so no entry of an earlier one becomes current again. -/
structure State.Kept (s : State α) (left : Nat) : Prop where
  valid : ∀ tracee, Valid s.mappingGeneration (s.cache tracee)
  counts : s.mappingGeneration.toNat + left < 2 ^ 64

theorem next_kept {s : State α} {event : Event α} {left : Nat}
    (kept : s.Kept (left + if event.isMapping then 1 else 0)) :
    ∃ s', s.next event = some s' ∧ s'.Kept left := by
  obtain ⟨valid, counts⟩ := kept
  cases event with
  | mapping =>
    have counts : s.mappingGeneration.toNat + (left + 1) < 2 ^ 64 := counts
    have grows : (s.mappingGeneration + 1).toNat = s.mappingGeneration.toNat + 1 := by
      grind [UInt64.toNat_add]
    have later : s.mappingGeneration < s.mappingGeneration + 1 := by
      simp [UInt64.lt_iff_toNat_lt, grows]
    refine ⟨_, rfl, fun tracee => ?_, by rw [grows]; omega⟩
    obtain ⟨full, past, _⟩ := valid tracee
    have older (k : Nat) := UInt64.lt_of_le_of_lt (past k) later
    refine ⟨full, fun k => UInt64.le_of_lt (older k), fun start j k _ _ _ pc first => ?_⟩
    exact absurd (first.1 ▸ older j) (UInt64.lt_irrefl _)
  | frame tracee pc symbol =>
    obtain ⟨found, ce, search, inside, bucket⟩ :=
      findBucket_spec (valid tracee).full s.mappingGeneration pc
    have there := (valid tracee).full ▸ inside.lt_size
    have stored {new : CacheEntry α} (current : Current s.mappingGeneration pc new)
        (others : ∀ j, InSet (setOf pc) j →
          Current s.mappingGeneration pc ((s.cache tracee).getD j {}) → j = ce) (t : Nat) :
        Valid s.mappingGeneration ((s.store tracee ce new).cache t) := by
      by_cases here : t = tracee
      · subst here
        simpa [State.store] using (valid t).set inside current others
      · simpa [State.store, here] using valid t
    simp only [State.next, search, getElem?_eq_getElem there, Option.bind_eq_bind,
      Option.bind_some]
    cases found with
    | true =>
      have found : Current s.mappingGeneration pc (s.cache tracee)[ce] := by
        simpa [Bucket, there] using bucket
      refine ⟨_, rfl, stored found fun j at_j current => ?_, counts⟩
      exact (valid tracee).unique _ j ce (setOf_bounds pc).1 at_j inside pc current bucket
    | false =>
      cases symbol with
      | none => exact ⟨s, rfl, valid, counts⟩
      | some value =>
        refine ⟨_, rfl, stored ⟨rfl, rfl⟩ fun j at_j current => ?_, counts⟩
        exact absurd current (bucket.1 j at_j)

theorem run_kept {s : State α} {events : List (Event α)}
    (kept : s.Kept (events.countP Event.isMapping)) :
    ∃ s', events.foldlM State.next s = some s' ∧ s'.Kept 0 := by
  induction events generalizing s with
  | nil => exact ⟨s, rfl, kept⟩
  | cons event events ih =>
    rw [countP_cons] at kept
    obtain ⟨s', step, kept'⟩ := next_kept kept
    rw [foldlM_cons, step]
    exact ih kept'

/-- After any frames and changes of mappings: one entry for a `pc` at most, that `find_bucket` finds
if there is one, and what it returns otherwise. The 64 bits of `mapping_generation` bound the number
of changes; `uwcache_clock` may wrap. -/
theorem unwind_cache_finds (events : List (Event α))
    (short : 1 + events.countP Event.isMapping < 2 ^ 64) :
    ∃ s : State α, events.foldlM State.next {} = some s ∧ ∀ tracee,
      Unique s.mappingGeneration ((s.cache tracee).getD · {}) ∧
      ∀ pc, ∃ found k, findBucket (s.cache tracee) s.mappingGeneration pc = some (found, k) ∧
        InSet (setOf pc) k ∧ setOf pc + cacheAssoc ≤ (s.cache tracee).length ∧
        (found = true ↔ ∃ j, InSet (setOf pc) j ∧
          Current s.mappingGeneration pc ((s.cache tracee).getD j {})) ∧
        (found = true → Current s.mappingGeneration pc ((s.cache tracee).getD k {})) ∧
        (found = false → ((s.cache tracee).getD k {}).generation < s.mappingGeneration ∨
          ∀ j, InSet (setOf pc) j → ((s.cache tracee).getD j {}).generation = s.mappingGeneration ∧
            ((s.cache tracee).getD k {}).lastUse ≤ ((s.cache tracee).getD j {}).lastUse) := by
  obtain ⟨s, ran, valid, -⟩ := run_kept (s := {}) ⟨fun _ => valid_zero, short⟩
  refine ⟨s, ran, fun tracee => ⟨(valid tracee).unique, fun pc => ?_⟩⟩
  obtain ⟨found, k, search, inside, bucket⟩ :=
    findBucket_spec (valid tracee).full s.mappingGeneration pc
  refine ⟨found, k, search, inside, (valid tracee).full ▸ (setOf_bounds pc).2, ?_, ?_, ?_⟩
  · cases found with
    | true => exact iff_of_true rfl ⟨k, inside, bucket⟩
    | false => exact iff_of_false nofun fun ⟨j, at_j, current⟩ => bucket.1 j at_j current
  · rintro rfl
    exact bucket
  · rintro rfl
    exact bucket.2.imp_left fun other => UInt64.lt_of_le_of_ne ((valid tracee).past k) other

/-- One `pc` before and after a change of the mappings, and another of the same set. -/
def remapped : List (Event Nat) :=
  [.frame 0 0x401020 (some 1), .frame 0 0x401020 none, .mapping, .frame 0 0x401020 (some 2),
    .frame 0 0x402025 (some 3)]

theorem unwind_cache_finds_remapped : ∃ s : State Nat, remapped.foldlM State.next {} = some s ∧
    s.mappingGeneration = 2 ∧ findBucket (s.cache 0) 2 0x401020 = some (true, 63) ∧
    (s.cache 0).getD 63 {} = ⟨0x401020, 2, some 2, 2⟩ ∧
    Unique s.mappingGeneration ((s.cache 0).getD · {}) := by
  have evaluates : (remapped.foldlM State.next {}).map (fun s => (s.mappingGeneration,
      findBucket (s.cache 0) 2 0x401020, (s.cache 0).getD 63 {})) =
      some (2, some (true, 63), ⟨0x401020, 2, some 2, 2⟩) := by decide +kernel
  obtain ⟨s, ran, found⟩ := unwind_cache_finds remapped (by decide)
  simp only [ran, Option.map_some, Option.some.injEq, Prod.mk.injEq] at evaluates
  exact ⟨s, ran, evaluates.1, evaluates.2.1, evaluates.2.2, (found 0).1⟩

end Strace.UnwindCache
