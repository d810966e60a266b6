import Mathlib.Data.List.Nodup
import Strace.Runs
import Strace.Tracer.NextEvent

/-! `strace.c`: the table of pointers to tcbs, and the cache of `pid2tcb` that is
never cleared. The table of `Strace.Tracer` is what this one stands for. -/
namespace Strace
open List Option Runs

structure TcbTable where
  heap : Nat → Tcb := fun _ => {}
  tcbtab : List Nat := []
  nprocs : Nat := 0
  pid2tcbCache : Nat → Option Nat := fun _ => none

/-- `PID2TCB_CACHE_SIZE` -/
def pid2tcbCacheSize : Nat := 1024

namespace TcbTable
variable (t : TcbTable) (p : Nat) (tcb : Tcb) (pid : Nat)

def tcbtabsize : Nat := t.tcbtab.length

def set : TcbTable := { t with heap := fun q => if q = p then tcb else t.heap q }

@[simp] theorem set_heap_self : (t.set p tcb).heap p = tcb := if_pos rfl

theorem set_heap_other {p q : Nat} (other : q ≠ p) : (t.set p tcb).heap q = t.heap q := if_neg other

def cached : Option Nat :=
  (t.pid2tcbCache (pid % pid2tcbCacheSize)).filter fun p => (t.heap p).pid = pid

/-- Look up a tcb in the table. -/
def search : Option Nat := t.tcbtab.find? fun p => (t.heap p).pid = pid

def pid2tcb : TcbTable × Option Nat :=
  if pid = 0 ∨ 2 ^ 31 ≤ pid then (t, none)
  else
    match t.cached pid with
    | some p => (t, some p)
    | none =>
      match t.search pid with
      | none => (t, none)
      | some p =>
        ({ t with pid2tcbCache := fun k =>
          if k = pid % pid2tcbCacheSize then some p else t.pid2tcbCache k }, some p)

/-- By how much `xgrowarray` grows the table. -/
def growth : Nat := if t.tcbtabsize = 0 then 16 else t.tcbtabsize / 2 + 1

def expandTcbtab (newtcbs : Nat) : TcbTable :=
  { t with
    heap := fun p => if newtcbs ≤ p ∧ p < newtcbs + t.growth then {} else t.heap p
    tcbtab := t.tcbtab ++ (List.range t.growth).map (newtcbs + ·) }

def Fresh (newtcbs : Nat) : Prop := ∀ p ∈ t.tcbtab, ¬ (newtcbs ≤ p ∧ p < newtcbs + t.growth)

def alloctcb (personality newtcbs : Nat) : Option (TcbTable × Nat) :=
  let t := if t.nprocs = t.tcbtabsize then t.expandTcbtab newtcbs else t
  (t.tcbtab.find? fun p => (t.heap p).pid = 0).map fun p =>
    ({ t.set p { pid, currpers := personality } with nprocs := t.nprocs + 1 }, p)

def droptcb : TcbTable :=
  if (t.heap p).pid = 0 then t
  else { t.set p {} with nprocs := t.nprocs - 1 }

def maybeSwitchTcbs (oldKernel : Bool) (msg : Nat) : TcbTable × Option Nat :=
  let pid := (t.heap p).pid
  if oldKernel ∨ msg = 0 ∨ msg = pid ∨ 2 ^ 32 ≤ msg then (t, none)
  else
    match t.pid2tcb msg with
    | (t, none) => (t, none)
    | (t, some thread) =>
      let t := t.droptcb p
      (t.set thread ((t.heap thread).setPid pid), some thread)

end TcbTable

/-- What is called on the table. -/
inductive TableCall where
  | alloctcb (pid personality newtcbs : Nat)
  | droptcb (p : Nat)
  | maybeSwitchTcbs (p : Nat) (oldKernel : Bool) (msg : Nat)
  | pid2tcb (pid : Nat)
  | other

inductive TableStep : TcbTable → TableCall → TcbTable → Prop
  | alloctcb {t t' : TcbTable} {p : Nat} (pid personality newtcbs : Nat) (positive : pid ≠ 0)
      (fresh : t.Fresh newtcbs) (allocated : t.alloctcb pid personality newtcbs = some (t', p)) :
      TableStep t (.alloctcb pid personality newtcbs) t'
  | droptcb (t : TcbTable) (p : Nat) (entry : p ∈ t.tcbtab) :
      TableStep t (.droptcb p) (t.droptcb p)
  | maybeSwitchTcbs (t : TcbTable) (p : Nat) (oldKernel : Bool) (msg : Nat) (entry : p ∈ t.tcbtab)
      (live : (t.heap p).pid ≠ 0) :
      TableStep t (.maybeSwitchTcbs p oldKernel msg) (t.maybeSwitchTcbs p oldKernel msg).1
  | pid2tcb (t : TcbTable) (pid : Nat) : TableStep t (.pid2tcb pid) (t.pid2tcb pid).1
  | other (t : TcbTable) (heap : Nat → Tcb) (pids : ∀ p, (heap p).pid = (t.heap p).pid) :
      TableStep t .other { t with heap }

namespace TcbTable
variable {t t' : TcbTable} {p q pid : Nat} {tcb : Tcb}

/-- The number of tcbs in use. -/
def inUse (t : TcbTable) : Nat := t.tcbtab.countP fun p => (t.heap p).pid ≠ 0

structure Valid (t : TcbTable) : Prop where
  nodup : t.tcbtab.Nodup
  count : t.nprocs = t.inUse
  cache : ∀ k p, t.pid2tcbCache k = some p → p ∈ t.tcbtab

theorem countP_change {l : List Nat} {f g : Nat → Bool} (nodup : l.Nodup) (entry : p ∈ l)
    (same : ∀ q ∈ l, q ≠ p → g q = f q) :
    l.countP g + (f p).toNat = l.countP f + (g p).toNat := by
  induction l with
  | nil => cases entry
  | cons q l ih =>
    obtain ⟨absent, nodup⟩ := nodup_cons.mp nodup
    rw [countP_cons, countP_cons]
    by_cases eq : q = p
    · subst eq
      have rest : l.countP g = l.countP f := by
        refine countP_congr fun r mem => ?_
        rw [same r (mem_cons_of_mem q mem) fun eq => absent (eq ▸ mem)]
      rw [rest]
      cases f q <;> cases g q <;> simp
    · have entry := (mem_cons.mp entry).resolve_left fun eq' => eq eq'.symm
      have rest := ih nodup entry fun r mem => same r (mem_cons_of_mem q mem)
      rw [same q mem_cons_self eq]
      omega

theorem set_inUse (valid : t.Valid) (entry : p ∈ t.tcbtab) (tcb : Tcb) :
    (t.set p tcb).inUse + (decide ((t.heap p).pid ≠ 0)).toNat =
      t.inUse + (decide (tcb.pid ≠ 0)).toNat := by
  have change := countP_change (f := fun p => decide ((t.heap p).pid ≠ 0))
    (g := fun q => decide (((t.set p tcb).heap q).pid ≠ 0)) valid.nodup entry
    fun q _ other => by rw [set_heap_other t tcb other]
  rw [set_heap_self] at change
  exact change

theorem Valid.size (valid : t.Valid) : t.nprocs ≤ t.tcbtabsize := by
  rw [valid.count]
  exact countP_le_length

/-! ## Looking up a pid -/

theorem cached_some (valid : t.Valid) (hit : t.cached pid = some p) :
    p ∈ t.tcbtab ∧ (t.heap p).pid = pid := by
  obtain ⟨entry, same⟩ := filter_eq_some_iff.mp hit
  exact ⟨valid.cache _ p entry, by simpa using same⟩

theorem search_some (found : t.search pid = some p) : p ∈ t.tcbtab ∧ (t.heap p).pid = pid :=
  ⟨mem_of_find?_eq_some found, by simpa using find?_some found⟩

theorem search_none (missed : t.search pid = none) (entry : p ∈ t.tcbtab) :
    (t.heap p).pid ≠ pid := by
  simpa using find?_eq_none.mp missed p entry

theorem pid2tcb_some (valid : t.Valid) (found : (t.pid2tcb pid).2 = some p) :
    p ∈ t.tcbtab ∧ (t.heap p).pid = pid := by
  unfold pid2tcb at found
  split at found
  · cases found
  · grind [cached_some, search_some]

theorem pid2tcb_none (positive : 0 < pid) (int : pid < 2 ^ 31) (missed : (t.pid2tcb pid).2 = none)
    (entry : p ∈ t.tcbtab) : (t.heap p).pid ≠ pid := by
  unfold pid2tcb at missed
  split at missed
  · next out => omega
  · grind [search_none]

theorem pid2tcb_table (t : TcbTable) (pid : Nat) : (t.pid2tcb pid).1.heap = t.heap ∧
    (t.pid2tcb pid).1.tcbtab = t.tcbtab ∧ (t.pid2tcb pid).1.nprocs = t.nprocs := by
  unfold pid2tcb
  split
  · exact ⟨rfl, rfl, rfl⟩
  · grind

theorem pid2tcb_valid (valid : t.Valid) (pid : Nat) : (t.pid2tcb pid).1.Valid := by
  unfold pid2tcb
  split
  · exact valid
  · split
    · exact valid
    · split
      · exact valid
      · next found =>
        refine ⟨valid.nodup, valid.count, fun k p hit => ?_⟩
        dsimp only at hit
        split at hit
        · exact Option.some.inj hit ▸ (search_some found).1
        · exact valid.cache k p hit

/-! ## Growing the table -/

variable {newtcbs i j : Nat}

theorem expandTcbtab_heap (fresh : t.Fresh newtcbs) (entry : p ∈ t.tcbtab) :
    (t.expandTcbtab newtcbs).heap p = t.heap p := if_neg (fresh p entry)

theorem mem_newtcbs {n : Nat} :
    p ∈ (List.range n).map (newtcbs + ·) ↔ newtcbs ≤ p ∧ p < newtcbs + n := by
  rw [List.mem_map]
  constructor
  · rintro ⟨k, mem, rfl⟩
    have := List.mem_range.mp mem
    omega
  · rintro ⟨low, high⟩
    exact ⟨p - newtcbs, List.mem_range.mpr (by omega), by omega⟩

theorem expandTcbtab_new (new : p ∈ (List.range t.growth).map (newtcbs + ·)) :
    (t.expandTcbtab newtcbs).heap p = {} := if_pos (mem_newtcbs.mp new)

theorem expandTcbtab_valid (valid : t.Valid) (fresh : t.Fresh newtcbs) :
    (t.expandTcbtab newtcbs).Valid := by
  refine ⟨?_, ?_, fun k p hit => mem_append_left _ (valid.cache k p hit)⟩
  · refine nodup_append.mpr ⟨valid.nodup, ?_, ?_⟩
    · exact List.Nodup.map (fun _ _ => Nat.add_left_cancel) nodup_range
    · rintro p entry q new rfl
      exact fresh p entry (mem_newtcbs.mp new)
  · have old : t.tcbtab.countP (fun p => ((t.expandTcbtab newtcbs).heap p).pid ≠ 0) = t.inUse := by
      refine countP_congr fun p entry => ?_
      rw [expandTcbtab_heap fresh entry]
    have new : ((List.range t.growth).map (newtcbs + ·)).countP
        (fun p => ((t.expandTcbtab newtcbs).heap p).pid ≠ 0) = 0 := by
      refine countP_eq_zero.mpr fun p new => ?_
      simp [expandTcbtab_new new]
    have count : (t.expandTcbtab newtcbs).inUse = _ + _ := countP_append
    rw [count, old, new]
    exact valid.count

theorem expandTcbtab_free (t : TcbTable) (newtcbs : Nat) :
    ∃ p ∈ (t.expandTcbtab newtcbs).tcbtab, ((t.expandTcbtab newtcbs).heap p).pid = 0 := by
  have new : newtcbs ∈ (List.range t.growth).map (newtcbs + ·) := by
    refine mem_newtcbs.mpr ⟨Nat.le_refl _, ?_⟩
    unfold growth
    split <;> omega
  exact ⟨newtcbs, mem_append_right _ new, by rw [expandTcbtab_new new]⟩

section
variable (valid : t.Valid)
include valid

theorem Valid.free (room : t.nprocs ≠ t.tcbtabsize) :
    ∃ p ∈ t.tcbtab, (t.heap p).pid = 0 := by
  by_contra full
  refine room (valid.count.trans ?_)
  refine countP_eq_length.mpr fun p entry => ?_
  simp only [decide_not, Bool.not_eq_eq_eq_not, Bool.not_true, decide_eq_false_iff_not]
  exact fun zero => full ⟨p, entry, zero⟩

theorem alloctcb_isSome (pid personality newtcbs : Nat) :
    (t.alloctcb pid personality newtcbs).isSome := by
  unfold alloctcb
  rw [isSome_map, find?_isSome]
  split
  · obtain ⟨p, entry, free⟩ := expandTcbtab_free t newtcbs
    exact ⟨p, entry, by simpa using free⟩
  · next room =>
    obtain ⟨p, entry, free⟩ := valid.free room
    exact ⟨p, entry, by simpa using free⟩

theorem Valid.set (entry : p ∈ t.tcbtab) (tcb : Tcb) (n : Nat)
    (count : n + (decide ((t.heap p).pid ≠ 0)).toNat =
      t.nprocs + (decide (tcb.pid ≠ 0)).toNat) : { t.set p tcb with nprocs := n }.Valid := by
  refine ⟨valid.nodup, ?_, valid.cache⟩
  have change := set_inUse valid entry tcb
  rw [← valid.count] at change
  have same : ({ t.set p tcb with nprocs := n } : TcbTable).inUse = (t.set p tcb).inUse := rfl
  rw [same]
  dsimp only
  omega

theorem alloctcb_valid {personality : Nat} (positive : pid ≠ 0)
    (fresh : t.Fresh newtcbs) (allocated : t.alloctcb pid personality newtcbs = some (t', p)) :
    t'.Valid := by
  unfold alloctcb at allocated
  generalize eq : (if t.nprocs = t.tcbtabsize then t.expandTcbtab newtcbs else t) = u at allocated
  have grown : u.Valid := by
    rw [← eq]
    split
    · exact expandTcbtab_valid valid fresh
    · exact valid
  obtain ⟨q, found, put⟩ := map_eq_some_iff.mp allocated
  obtain ⟨rfl, rfl⟩ := Prod.mk.inj put
  have free : (u.heap q).pid = 0 := by simpa using find?_some found
  refine grown.set (mem_of_find?_eq_some found) _ _ ?_
  simp [free, positive]

theorem droptcb_valid (entry : p ∈ t.tcbtab) : (t.droptcb p).Valid := by
  unfold droptcb
  split
  · exact valid
  · next live =>
    have used : 0 < t.nprocs := by
      rw [valid.count]
      exact countP_pos_iff.mpr ⟨p, entry, by simpa using live⟩
    refine valid.set entry _ _ ?_
    simp [live]
    omega

theorem maybeSwitchTcbs_valid (entry : p ∈ t.tcbtab) (live : (t.heap p).pid ≠ 0)
    (oldKernel : Bool) (msg : Nat) : (t.maybeSwitchTcbs p oldKernel msg).1.Valid := by
  unfold maybeSwitchTcbs
  dsimp only
  split
  · exact valid
  · have looked := pid2tcb_valid valid msg
    obtain ⟨heap, tcbtab, -⟩ := pid2tcb_table t msg
    cases found : t.pid2tcb msg with
    | mk u thread =>
      rw [found] at looked heap tcbtab
      cases thread with
      | none => exact looked
      | some thread =>
        obtain ⟨inTable, pid⟩ := pid2tcb_some valid (by rw [found])
        have other : thread ≠ p := by
          grind
        have dropped := droptcb_valid looked (tcbtab ▸ entry)
        have kept : (u.droptcb p).heap thread = t.heap thread := by
          unfold droptcb
          rw [← heap]
          split
          · rfl
          · exact set_heap_other u _ other
        have inDropped : thread ∈ (u.droptcb p).tcbtab := by
          unfold droptcb
          split
          · exact tcbtab ▸ inTable
          · exact tcbtab ▸ inTable
        refine dropped.set inDropped _ _ ?_
        have threadLive : (t.heap thread).pid ≠ 0 := by
          grind
        rw [kept]
        simp [threadLive, live, Tcb.setPid]

end

/-! ## Runs -/

/-- Nothing is allocated. -/
def Initial (t : TcbTable) : Prop := t = {}

theorem initial_valid (initial : t.Initial) : t.Valid := by
  obtain rfl := initial
  exact ⟨.nil, rfl, nofun⟩

theorem step_valid {call : TableCall} (valid : t.Valid) (step : TableStep t call t') :
    t'.Valid := by
  cases step with
  | alloctcb pid personality newtcbs positive fresh allocated =>
    exact alloctcb_valid valid positive fresh allocated
  | droptcb p entry => exact droptcb_valid valid entry
  | maybeSwitchTcbs p oldKernel msg entry live =>
    exact maybeSwitchTcbs_valid valid entry live oldKernel msg
  | pid2tcb pid => exact pid2tcb_valid valid pid
  | other heap pids =>
    refine ⟨valid.nodup, valid.count.trans ?_, valid.cache⟩
    refine countP_congr fun p _ => ?_
    rw [pids]

/-- After any calls, the tcbs in use are counted and fit into the table, `alloctcb` does
not give up, growing the table keeps its pointers and what they point to, and `pid2tcb`
finds a tcb with a pid exactly when there is one. -/
theorem tcb_table_valid (t : TcbTable) (run : Run Initial TableStep (fun _ _ => True) t) :
    t.nprocs = t.inUse ∧ t.nprocs ≤ t.tcbtabsize ∧
      (∀ pid personality newtcbs, (t.alloctcb pid personality newtcbs).isSome) ∧
      (∀ newtcbs, t.Fresh newtcbs → t.tcbtab <+: (t.expandTcbtab newtcbs).tcbtab ∧
        ∀ p ∈ t.tcbtab, (t.expandTcbtab newtcbs).heap p = t.heap p) ∧
      ∀ pid, 0 < pid → pid < 2 ^ 31 →
        ((t.pid2tcb pid).2.isSome ↔ ∃ p ∈ t.tcbtab, (t.heap p).pid = pid) ∧
        ∀ p, (t.pid2tcb pid).2 = some p → p ∈ t.tcbtab ∧ (t.heap p).pid = pid := by
  have valid :=
    run.invariant (P := Valid) (fun _ initial => initial_valid initial) fun _ _ _ valid _ step =>
      step_valid valid step
  refine ⟨valid.count, valid.size, alloctcb_isSome valid, ?_, ?_⟩
  · exact fun newtcbs fresh => ⟨List.prefix_append _ _, fun p => expandTcbtab_heap fresh⟩
  · intro pid positive int
    refine ⟨⟨fun found => ?_, fun ⟨p, entry, same⟩ => ?_⟩, fun p => pid2tcb_some valid⟩
    · obtain ⟨p, found⟩ := Option.isSome_iff_exists.mp found
      exact ⟨p, pid2tcb_some valid found⟩
    · by_contra missed
      exact pid2tcb_none positive int (Option.not_isSome_iff_eq_none.mp missed) entry same

/-- The table after `alloctcb`. -/
def allocated (t : TcbTable) (pid newtcbs : Nat) : TcbTable :=
  ((t.alloctcb pid 0 newtcbs).map Prod.fst).getD t

def replaced : TcbTable :=
  ((((allocated {} 7 1000).allocated 8 0).pid2tcb 8).1.maybeSwitchTcbs 1000 false 8).1

/-- The pid of the leader is found although the cache has the thread under its old
one. -/
theorem tcb_table_valid_replaced : replaced.nprocs = replaced.inUse ∧
    (replaced.pid2tcb 7).2.isSome ∧ ¬ (replaced.pid2tcb 8).2.isSome := by
  have run : Run Initial TableStep (fun _ _ => True) replaced := by
    refine .next (.next (.next (.next (.start rfl) trivial (.alloctcb 7 0 1000 ?_ ?_ rfl)) trivial
      (.alloctcb 8 0 0 ?_ ?_ rfl)) trivial (.pid2tcb _ 8)) trivial
      (.maybeSwitchTcbs _ 1000 false 8 ?_ ?_)
    · decide
    · exact nofun
    · decide
    · unfold Fresh
      decide
    · decide
    · decide
  have valid := tcb_table_valid replaced run
  refine ⟨valid.1, (valid.2.2.2.2 7 (by decide) (by decide)).1.mpr ⟨1001, by decide, by decide⟩, ?_⟩
  decide

/-! ## The table of the tracer -/

/-- The pointer at place `i` of the table. -/
def pointer (t : TcbTable) (i : Nat) : Nat := t.tcbtab.getD i 0

structure Represents (t : TcbTable) (s : Tracer) : Prop where
  size : s.tcbtabsize = t.tcbtabsize
  nprocs : s.nprocs = t.nprocs
  tcb : ∀ i, i < t.tcbtabsize → s.tcbtab i = t.heap (t.pointer i)
  unused : ∀ i, t.tcbtabsize ≤ i → s.tcbtab i = {}

theorem tcbtab_eq (t : TcbTable) : t.tcbtab = (List.range t.tcbtabsize).map t.pointer := by
  refine ext_getElem (by simp [tcbtabsize]) fun i low _ => ?_
  simp [pointer, getElem?_eq_getElem low]

theorem pointer_mem (low : i < t.tcbtabsize) : t.pointer i ∈ t.tcbtab := by
  rw [tcbtab_eq t]
  exact mem_map_of_mem (mem_range.mpr low)

theorem Valid.pointer_inj (valid : t.Valid) (low : i < t.tcbtabsize) (low' : j < t.tcbtabsize)
    (same : t.pointer i = t.pointer j) : i = j := by
  have nodup := valid.nodup
  rw [tcbtab_eq t] at nodup
  exact inj_on_of_nodup_map nodup (mem_range.mpr low) (mem_range.mpr low') same

variable {s : Tracer} {i : Nat}

theorem droptcb_tcbtab : (t.droptcb p).tcbtab = t.tcbtab := by
  unfold droptcb
  split <;> rfl

section
variable (rep : t.Represents s)
include rep

theorem Represents.find (wanted : Tcb → Bool) :
    (t.tcbtab.find? fun p => wanted (t.heap p)) =
      ((List.range s.tcbtabsize).find? fun i => wanted (s.tcbtab i)).map t.pointer := by
  rw [tcbtab_eq t, find?_map, rep.size]
  congr 1
  rw [← head?_filter, ← head?_filter]
  congr 1
  refine filter_congr fun i mem => ?_
  rw [rep.tcb i (mem_range.mp mem)]
  rfl

theorem Represents.pid2tcb (valid : t.Valid)
    (unique : ∀ p ∈ t.tcbtab, ∀ q ∈ t.tcbtab, (t.heap p).pid = pid → (t.heap q).pid = pid → p = q) :
    (t.pid2tcb pid).2 = (s.pid2tcb pid).map t.pointer := by
  have found : t.search pid =
      ((List.range s.tcbtabsize).find? fun i => (s.tcbtab i).pid = pid).map t.pointer :=
    rep.find fun tcb => tcb.pid = pid
  unfold TcbTable.pid2tcb Tracer.pid2tcb
  split
  · rfl
  · rw [← found]
    split
    · next p hit =>
      obtain ⟨entry, same⟩ := cached_some valid hit
      cases hit' : t.search pid with
      | none => exact absurd same (search_none hit' entry)
      | some q =>
        obtain ⟨entry', same'⟩ := search_some hit'
        rw [unique p entry q entry' same same']
    · grind

theorem Represents.set (valid : t.Valid) (low : i < t.tcbtabsize)
    (tcb : Tcb) : (t.set (t.pointer i) tcb).Represents (s.setTcb i tcb) := by
  refine ⟨rep.size, rep.nprocs, fun j low' => ?_, fun j high => ?_⟩
  · by_cases eq : j = i
    · subst eq
      rw [Tracer.setTcb_tcbtab_self]
      exact (set_heap_self t _ tcb).symm
    · rw [Tracer.setTcb_tcbtab_other s tcb eq, rep.tcb j low']
      refine (set_heap_other t tcb fun same => eq ?_).symm
      exact valid.pointer_inj low' low same
  · have other : j ≠ i := by
      rintro rfl
      exact Nat.not_le_of_lt low high
    rw [Tracer.setTcb_tcbtab_other s tcb other]
    exact rep.unused j high

theorem Represents.expandTcbtab (fresh : t.Fresh newtcbs) :
    (t.expandTcbtab newtcbs).Represents s.expandTcbtab := by
  have size : (t.expandTcbtab newtcbs).tcbtabsize = t.tcbtabsize + t.growth := by
    simp [TcbTable.expandTcbtab, tcbtabsize]
  refine ⟨?_, rep.nprocs, fun j low => ?_, fun j high => ?_⟩
  · rw [size]
    unfold Tracer.expandTcbtab growth
    dsimp only
    rw [rep.size]
    split <;> omega
  · have same : s.expandTcbtab.tcbtab j = s.tcbtab j := rfl
    rw [same]
    by_cases old : j < t.tcbtabsize
    · have pointer : (t.expandTcbtab newtcbs).pointer j = t.pointer j := by
        exact congrArg (·.getD 0) (getElem?_append_left old)
      rw [pointer, expandTcbtab_heap fresh (pointer_mem old), rep.tcb j old]
    · have new : (t.expandTcbtab newtcbs).pointer j ∈ (List.range t.growth).map (newtcbs + ·) := by
        have bound : j - t.tcbtab.length < ((List.range t.growth).map (newtcbs + ·)).length := by
          grind [tcbtabsize]
        unfold pointer TcbTable.expandTcbtab
        rw [getD_eq_getElem?_getD, getElem?_append_right (Nat.le_of_not_lt old),
          getElem?_eq_getElem bound]
        exact getElem_mem _
      rw [expandTcbtab_new new, rep.unused j (Nat.le_of_not_lt old)]
  · exact rep.unused j (by omega)

theorem Represents.alloctcb (valid : t.Valid) (fresh : t.Fresh newtcbs)
    (allocated : t.alloctcb pid s.currentPersonality newtcbs = some (t', p)) :
    ∃ s' i, s.alloctcb pid = some (s', i) ∧ p = t'.pointer i ∧ t'.Represents s' := by
  unfold TcbTable.alloctcb at allocated
  dsimp only at allocated ⊢
  have grown : (if t.nprocs = t.tcbtabsize then t.expandTcbtab newtcbs else t).Represents
      (if s.nprocs = s.tcbtabsize then s.expandTcbtab else s) ∧
      (if t.nprocs = t.tcbtabsize then t.expandTcbtab newtcbs else t).Valid := by
    rw [rep.nprocs, rep.size]
    split
    · exact ⟨rep.expandTcbtab fresh, expandTcbtab_valid valid fresh⟩
    · exact ⟨rep, valid⟩
  have personality : (if s.nprocs = s.tcbtabsize then s.expandTcbtab else s).currentPersonality =
      s.currentPersonality := by
    split <;> rfl
  obtain ⟨rep, valid⟩ := grown
  rw [rep.find fun tcb => tcb.pid = 0, Option.map_map] at allocated
  obtain ⟨i, found, put⟩ := Option.map_eq_some_iff.mp allocated
  obtain ⟨rfl, rfl⟩ := Prod.mk.inj put
  have low := rep.size ▸ List.mem_range.mp (List.mem_of_find?_eq_some found)
  refine ⟨_, i, Option.map_eq_some_iff.mpr ⟨i, found, rfl⟩, rfl, ?_⟩
  have set := rep.set valid low { pid, currpers := s.currentPersonality }
  rw [personality]
  exact ⟨set.size, congrArg (· + 1) rep.nprocs, set.tcb, set.unused⟩

theorem Represents.droptcb (valid : t.Valid) (low : i < t.tcbtabsize) :
    (t.droptcb (t.pointer i)).Represents (s.droptcb i) := by
  have same := rep.tcb i low
  unfold TcbTable.droptcb Tracer.droptcb
  rw [← same]
  split
  · exact rep
  · have set := rep.set valid low {}
    dsimp only
    refine ⟨?_, ?_, ?_, ?_⟩
    · split <;> exact set.size
    · rw [← rep.nprocs]
      split <;> rfl
    · split <;> exact set.tcb
    · split <;> exact set.unused

theorem pid2tcb_represents (pid : Nat) : (t.pid2tcb pid).1.Represents s ∧
    (t.pid2tcb pid).1.pointer = t.pointer := by
  obtain ⟨heap, tcbtab, nprocs⟩ := pid2tcb_table t pid
  have size : (t.pid2tcb pid).1.tcbtabsize = t.tcbtabsize := congrArg List.length tcbtab
  have pointer : (t.pid2tcb pid).1.pointer = t.pointer := by
    unfold TcbTable.pointer
    rw [tcbtab]
  refine ⟨⟨rep.size.trans size.symm, rep.nprocs.trans nprocs.symm, ?_, ?_⟩, pointer⟩
  · rw [size, heap, pointer]
    exact rep.tcb
  · rw [size]
    exact rep.unused

theorem Represents.switchTcbs (valid : t.Valid) (low : i < t.tcbtabsize)
    (low' : j < t.tcbtabsize) :
    ((t.droptcb (t.pointer i)).set (t.pointer j)
      (((t.droptcb (t.pointer i)).heap (t.pointer j)).setPid (t.heap (t.pointer i)).pid)).Represents
      (s.switchTcbs i j) := by
  have dropped := rep.droptcb valid low
  have pointer : (t.droptcb (t.pointer i)).pointer = t.pointer := by
    unfold TcbTable.pointer
    rw [droptcb_tcbtab]
  have size : (t.droptcb (t.pointer i)).tcbtabsize = t.tcbtabsize :=
    congrArg List.length droptcb_tcbtab
  have tcb := dropped.tcb j (size ▸ low')
  have set := dropped.set (droptcb_valid valid (pointer_mem low)) (size ▸ low')
    (((s.droptcb i).tcbtab j).setPid (s.tcbtab i).pid)
  rw [pointer] at tcb set
  rw [← tcb, ← rep.tcb i low]
  exact ⟨set.size, set.nprocs, set.tcb, set.unused⟩

theorem Represents.maybeSwitchTcbs (valid : t.Valid)
    (low : i < t.tcbtabsize) (o : Options)
    (unique : ∀ p ∈ t.tcbtab, ∀ q ∈ t.tcbtab, (t.heap p).pid = (t.heap q).pid →
      (t.heap p).pid ≠ 0 → p = q) :
    let switched := t.maybeSwitchTcbs (t.pointer i) o.oldKernel
      (s.tcbWaitTab (s.tcbtab i).waitDataIdx).msg
    switched.2 = (s.execveThread o i).map t.pointer ∧
      switched.1.Represents ((s.execveThread o i).elim s (s.switchTcbs i)) := by
  have same := rep.tcb i low
  unfold TcbTable.maybeSwitchTcbs Tracer.execveThread
  rw [same]
  generalize (s.tcbWaitTab (t.heap (t.pointer i)).waitDataIdx).msg = msg
  by_cases old : o.oldKernel
  · grind
  · by_cases unusable : msg = 0 ∨ msg = (t.heap (t.pointer i)).pid ∨ 2 ^ 32 ≤ msg
    · grind
    · rw [if_neg (not_or.mpr ⟨old, unusable⟩), if_neg old, if_neg unusable]
      have looked :=
        rep.pid2tcb valid fun p entry q entry' is is' => unique p entry q entry' (is.trans is'.symm)
          fun zero => unusable (.inl (is.symm.trans zero))
      obtain ⟨rep', pointer⟩ := pid2tcb_represents rep msg
      have valid' := pid2tcb_valid valid msg
      have heap := (pid2tcb_table t msg).1
      generalize t.pid2tcb msg = found at looked rep' pointer valid' heap ⊢
      obtain ⟨u, result⟩ := found
      cases thread : s.pid2tcb msg with
      | none =>
        grind
      | some j =>
        rw [thread] at looked
        obtain rfl := looked
        refine ⟨rfl, ?_⟩
        have low' := rep'.size ▸ (Tracer.pid2tcb_some thread).1
        have switched := rep'.switchTcbs valid' (rep'.size ▸ rep.size ▸ low) low'
        rw [pointer, heap] at switched
        exact switched

end

/-! ## Both tables over whole runs -/

variable {call : TableCall}

def Distinct (t : TcbTable) : Prop := ∀ p ∈ t.tcbtab, ∀ q ∈ t.tcbtab,
  (t.heap p).pid = (t.heap q).pid → (t.heap p).pid ≠ 0 → p = q

/-- A pid that gets a tcb has none yet, as `next_event` makes sure. -/
def NewPid (t : TcbTable) : TableCall → Prop
  | .alloctcb pid _ _ => ∀ p ∈ t.tcbtab, (t.heap p).pid ≠ pid
  | _ => True

section
variable (distinct : t.Distinct)
include distinct

theorem Distinct.set (n : Nat)
    (new : tcb.pid ≠ 0 → ∀ q ∈ t.tcbtab, q ≠ p → (t.heap q).pid ≠ tcb.pid) :
    { t.set p tcb with nprocs := n }.Distinct := by
  unfold Distinct TcbTable.set at *
  grind

theorem Distinct.droptcb (p : Nat) : (t.droptcb p).Distinct := by
  unfold TcbTable.droptcb
  split
  · exact distinct
  · exact distinct.set _ fun live => absurd rfl live

theorem Distinct.pid2tcb (pid : Nat) : (t.pid2tcb pid).1.Distinct := by
  obtain ⟨heap, tcbtab, -⟩ := pid2tcb_table t pid
  unfold Distinct
  rw [heap, tcbtab]
  exact distinct

theorem alloctcb_distinct {personality newtcbs : Nat}
    (new : ∀ p ∈ t.tcbtab, (t.heap p).pid ≠ pid) (positive : pid ≠ 0) (fresh : t.Fresh newtcbs)
    (allocated : t.alloctcb pid personality newtcbs = some (t', p)) : t'.Distinct := by
  obtain ⟨q, -, put⟩ := map_eq_some_iff.mp allocated
  obtain ⟨rfl, rfl⟩ := Prod.mk.inj put
  have kept (q : Nat) (entry : q ∈ (t.expandTcbtab newtcbs).tcbtab) :
      q ∈ t.tcbtab ∧ (t.expandTcbtab newtcbs).heap q = t.heap q ∨
        ((t.expandTcbtab newtcbs).heap q).pid = 0 := by
    rcases mem_append.mp entry with old | new
    · exact .inl ⟨old, expandTcbtab_heap fresh old⟩
    · exact .inr (by rw [expandTcbtab_new new])
  split
  · apply Distinct.set
    · grind [Distinct]
    · grind
  · exact distinct.set _ fun _ q entry _ => new q entry

theorem maybeSwitchTcbs_distinct (entry : p ∈ t.tcbtab) (oldKernel : Bool) (msg : Nat) :
    (t.maybeSwitchTcbs p oldKernel msg).1.Distinct := by
  unfold TcbTable.maybeSwitchTcbs
  dsimp only
  split
  · exact distinct
  · have looked := distinct.pid2tcb msg
    obtain ⟨heap, tcbtab, -⟩ := pid2tcb_table t msg
    generalize t.pid2tcb msg = found at looked heap tcbtab
    obtain ⟨u, _ | thread⟩ := found
    · exact looked
    · refine (looked.droptcb p).set _ fun live q inU other same => ?_
      have := looked p (tcbtab ▸ entry) q (droptcb_tcbtab ▸ inU)
      unfold TcbTable.droptcb TcbTable.set at same
      grind [Tcb.setPid]

end

/-- A call on the table of the tracer, which finds in the state what the pointer
table's call is told. -/
inductive TracerStep (o : Options) (t : TcbTable) : Tracer → TableCall → Tracer → Prop
  | alloctcb {s s' : Tracer} {i : Nat} (pid currentPersonality newtcbs : Nat)
      (allocated : { s with currentPersonality }.alloctcb pid = some (s', i)) :
      TracerStep o t s (.alloctcb pid currentPersonality newtcbs) s'
  | droptcb (s : Tracer) (i : Nat) : TracerStep o t s (.droptcb (t.pointer i)) (s.droptcb i)
  | maybeSwitchTcbs {s s' : Tracer} (i : Nat) (oldKernel : Bool) (msg : Nat)
      (told : s' = { s with tcbWaitTab := fun _ => { te := .next, msg } }) :
      TracerStep o t s (.maybeSwitchTcbs (t.pointer i) oldKernel msg)
        ((s'.execveThread { o with oldKernel } i).elim s' (s'.switchTcbs i))
  | pid2tcb (s : Tracer) (pid : Nat) : TracerStep o t s (.pid2tcb pid) s
  | other (s : Tracer) (tcbtab : Nat → Tcb) (pids : ∀ i, (tcbtab i).pid = (s.tcbtab i).pid) :
      TracerStep o t s .other { s with tcbtab }

/-- The same calls lead to both tables. -/
def Built (o : Options) (t : TcbTable) (s : Tracer) : Prop :=
  Run (· = ({}, {})) (fun x call x' => TableStep x.1 call x'.1 ∧ TracerStep o x.1 x.2 call x'.2)
    (fun _ _ => True) (t, s)

theorem exists_pointer (entry : p ∈ t.tcbtab) : ∃ i < t.tcbtabsize, t.pointer i = p := by
  rw [tcbtab_eq t] at entry
  simpa using entry

theorem step_represents (o : Options) (valid : t.Valid) (distinct : t.Distinct)
    (rep : t.Represents s) (step : TableStep t call t') :
    ∃ s', TracerStep o t s call s' ∧ t'.Represents s' := by
  cases step with
  | alloctcb pid personality newtcbs positive fresh allocated =>
    have told : t.Represents { s with currentPersonality := personality } :=
      ⟨rep.size, rep.nprocs, rep.tcb, rep.unused⟩
    obtain ⟨s', i, same, -, rep'⟩ := told.alloctcb valid fresh allocated
    exact ⟨s', .alloctcb pid personality newtcbs same, rep'⟩
  | droptcb p entry =>
    obtain ⟨i, low, rfl⟩ := exists_pointer entry
    exact ⟨_, .droptcb s i, rep.droptcb valid low⟩
  | maybeSwitchTcbs p oldKernel msg entry live =>
    obtain ⟨i, low, rfl⟩ := exists_pointer entry
    have told : t.Represents { s with tcbWaitTab := fun _ => { te := .next, msg } } :=
      ⟨rep.size, rep.nprocs, rep.tcb, rep.unused⟩
    obtain ⟨-, switched⟩ := told.maybeSwitchTcbs valid low { o with oldKernel } distinct
    exact ⟨_, .maybeSwitchTcbs i oldKernel msg rfl, switched⟩
  | pid2tcb pid => exact ⟨s, .pid2tcb s pid, (pid2tcb_represents rep pid).1⟩
  | other heap pids =>
    refine ⟨_, .other s (fun i => if i < t.tcbtabsize then heap (t.pointer i) else {}) fun i => ?_,
      rep.size, rep.nprocs, fun i low => if_pos low, fun i high => if_neg (Nat.not_lt.mpr high)⟩
    split
    · next low => rw [pids, rep.tcb i low]
    · next high => rw [rep.unused i (Nat.not_lt.mp high)]

theorem step_distinct (distinct : t.Distinct) (new : NewPid t call) (step : TableStep t call t') :
    t'.Distinct := by
  cases step with
  | alloctcb pid personality newtcbs positive fresh allocated =>
    exact alloctcb_distinct distinct new positive fresh allocated
  | droptcb p entry => exact distinct.droptcb p
  | maybeSwitchTcbs p oldKernel msg entry live =>
    exact maybeSwitchTcbs_distinct distinct entry _ msg
  | pid2tcb pid => exact distinct.pid2tcb pid
  | other heap pids =>
    intro p inP q inQ
    simp only [pids]
    exact distinct p inP q inQ

/-- In every run that gives no pid to two tcbs, the pointers and their stale cache stand
for a table that the same calls build in the tracer, and `pid2tcb` finds the same tcb. -/
theorem tracer_table_refined (o : Options) (t : TcbTable) (run : Run Initial TableStep NewPid t) :
    ∃ s, Built o t s ∧ t.Represents s ∧ ∀ pid, (t.pid2tcb pid).2 =
      (s.pid2tcb pid).map t.pointer := by
  have kept : t.Valid ∧ t.Distinct ∧ ∃ s, Built o t s ∧ t.Represents s := by
    induction run with
    | start initial =>
      obtain rfl := initial
      exact ⟨initial_valid rfl, nofun, {}, .start rfl, rfl, rfl, nofun, fun _ _ => rfl⟩
    | @next t t' call _ new step ih =>
      obtain ⟨valid, distinct, s, reached, rep⟩ := ih
      obtain ⟨s', made, rep'⟩ := step_represents o valid distinct rep step
      exact ⟨step_valid valid step, step_distinct distinct new step, s',
        Run.next (x := call) reached trivial ⟨step, made⟩, rep'⟩
  obtain ⟨valid, distinct, s, reached, rep⟩ := kept
  refine ⟨s, reached, rep, fun pid => ?_⟩
  by_cases zero : pid = 0
  · simp [zero, TcbTable.pid2tcb, Tracer.pid2tcb]
  · apply rep.pid2tcb valid
    intro p inP q inQ is is'
    exact distinct p inP q inQ (is.trans is'.symm) (is ▸ zero)

theorem tracer_table_refined_replaced : ∃ (o : Options) (s : Tracer), Built o replaced s ∧
    (s.pid2tcb 7).map replaced.pointer = some 1001 := by
  have first : Run Initial TableStep NewPid _ := .next (x := .alloctcb 7 0 1000) (.start rfl) nofun
    (.alloctcb 7 0 1000 (by decide) nofun rfl)
  have second := first.next (x := .alloctcb 8 0 0) (by dsimp only [NewPid]; decide)
    (.alloctcb 8 0 0 (by decide) (by unfold Fresh; decide) rfl)
  have looked := second.next (show NewPid _ (.pid2tcb 8) from trivial) (.pid2tcb _ 8)
  have run := looked.next (show NewPid _ (.maybeSwitchTcbs 1000 false 8) from trivial)
    (.maybeSwitchTcbs _ 1000 false 8 (by decide) (by decide))
  obtain ⟨s, built, -, same⟩ := tracer_table_refined
    { supportedPersonalities := 1, auditArchVec := fun _ => ⟨0, 0⟩, nsyscallVec := fun _ => 0,
      sysentVec := fun _ _ => {} } replaced run
  exact ⟨_, s, built, (same 7).symm⟩

end TcbTable

end Strace
