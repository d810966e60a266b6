import Strace.MmapCache.Cache
import Strace.Runs
import Strace.Seccomp.Verdict
import Strace.Tracer.Dispatch
import Strace.Words

/-! Whether a cache that is found ready is fresh. Caches are dropped at the exit
stops of syscalls that change mappings; the seccomp filter decides which
syscalls have such a stop. -/
namespace Strace.MmapCache
open Runs Seccomp

/-! ## Syscalls and their exits -/

structure Exit where
  data : SeccompData
  personality : Nat
  /-- `TCB_SECCOMP_FILTER`: the process runs under the filter -/
  filter : Bool
  /-- what the registers showed on entering -/
  answers : Answers := {}
  /-- the other stops inside the syscall: the tracer at each of them, and the
  tcb whose event it was -/
  stops : List (Tracer × Nat) := []

namespace Exit

variable (o : Options)

variable (e : Exit)

def nr : Nat := (bareNr o.toConfig e.personality e.data).toNat

/-- `tcp_sysent(tcp)` when the syscall exits. -/
def sysent : Sysent :=
  sysentOf o (shownScno o e.answers e.personality (e.nr o)) e.personality

def ChangesMappings : Prop :=
  (e.sysent o).sysFlags &&& memoryMappingChange ≠ 0

instance (o : Options) (e : Exit) : Decidable (e.ChangesMappings o) :=
  inferInstanceAs (Decidable (_ ≠ _))

def entryStop : Bool :=
  !e.filter || verdict o.toConfig e.data (fun p => SectionTraces o.toConfig e.data p)
    o.supportedPersonalities == seccompRetTrace

def lastOp : RestartOp :=
  match e.stops.getLast? with
  | none => .syscall
  | some (s, i) => s.restartOp o i

def stopped : Bool := e.entryStop o && e.lastOp o == .syscall

def Possible : Prop :=
  Selected o.toConfig e.data o.supportedPersonalities e.personality

def LeftToTracer : Prop :=
  o.nsyscallVec e.personality ≤ bareNr o.toConfig e.personality e.data ∨
    tracedBySeccomp { o.toConfig with stackTraceMode := false } (e.nr o) e.personality = true ∨
    (o.stackTraceMode = true ∧
      (o.sysentVec e.personality (e.nr o)).sysFlags &&& memoryMappingChange ≠ 0)

def Noticed : Prop :=
  (e.filter = true → e.LeftToTracer o) ∧
    ∀ s i, e.stops.getLast? = some (s, i) → Tracer.TopOpStops o s (s.tcbtab i)

section
variable {o : Options} {e : Exit}

theorem tracedBySeccomp_iff (c : Config) (scno p : Nat) : tracedBySeccomp c scno p = true ↔
    tracedBySeccomp { c with stackTraceMode := false } scno p = true ∨
      (c.stackTraceMode = true ∧ (c.sysentVec p scno).sysFlags &&& memoryMappingChange ≠ 0) := by
  unfold tracedBySeccomp
  cases c.stackTraceMode with
  | false => simp
  | true =>
    simp only [Bool.or_eq_true, bne_iff_ne, Words.and_or_ne_zero,
      Bool.false_eq_true, if_false, UInt32.and_zero]
    tauto

theorem sectionTraces_iff_left :
    SectionTraces o.toConfig e.data e.personality ↔ e.LeftToTracer o := by
  rw [SectionTraces, tracedBySeccomp_iff]
  exact Iff.rfl

theorem entryStop_iff (possible : e.Possible o) :
    e.entryStop o = true ↔ (e.filter = true → e.LeftToTracer o) := by
  have differ : seccompRetAllow ≠ seccompRetTrace := by decide
  rw [entryStop, verdict_selected possible, ← sectionTraces_iff_left]
  by_cases traced : SectionTraces o.toConfig e.data e.personality <;> simp [traced, differ]

theorem lastOp_iff : e.lastOp o = .syscall ↔
    ∀ s i, e.stops.getLast? = some (s, i) → Tracer.TopOpStops o s (s.tcbtab i) := by
  unfold lastOp
  split
  · next none => simp [none]
  · next s i last =>
    rw [Tracer.restartOp_eq_syscall, last]
    constructor
    · simp
    · exact fun stops => stops s i rfl

theorem stopped_iff (possible : e.Possible o) : e.stopped o = true ↔ e.Noticed o := by
  rw [stopped, Bool.and_eq_true, entryStop_iff possible, beq_iff_eq, lastOp_iff]
  exact Iff.rfl

end

end Exit

/-! ## Runs -/

structure World where
  caches : Caches
  changes : Nat := 0
  readAt : Nat → Nat := fun _ => 0

inductive Event where
  /-- a syscall completes its exit -/
  | exits (e : Exit)
  /-- the cache of tcb `i` is to be used -/
  | uses (i : Nat) (maps : Option (List (Option MapsLine)))
  /-- `droptcb` -/
  | drops (i : Nat)

def World.exited (o : Options) (w : World) (e : Exit) : World :=
  { w with
    caches := if e.stopped o then w.caches.syscallExitingDecode (e.sysent o) else w.caches
    changes := if e.ChangesMappings o then w.changes + 1 else w.changes }

/-- A call for tcb `i` has come to `rebuild`. -/
def World.used (w : World) (i : Nat) (rebuild : RebuildResult × Caches) : World :=
  { w with
    caches := rebuild.2
    readAt := fun j => if j = i ∧ rebuild.1 = .renewed then w.changes else w.readAt j }

def World.after (o : Options) (w : World) : Event → World
  | .exits e => w.exited o e
  | .uses i maps => w.used i (w.caches.mmapCacheRebuildIfInvalid i maps)
  | .drops i => { w with caches := w.caches.deleteMmapCache i }

def Happens (o : Options) (w : World) : Event → Prop
  | .exits e => e.Possible o
  | .uses _ _ => w.caches.useMmapCache = true
  | .drops _ => True

def Step (o : Options) (w : World) (event : Event) (w' : World) : Prop :=
  Happens o w event ∧ w' = w.after o event

def Start (o : Options) (w : World) : Prop :=
  ∃ kvm unwinder, w = { caches := .init o.toConfig kvm unwinder }

def Watched (o : Options) (w : World) : Event → Prop
  | .exits e => e.ChangesMappings o → e.Noticed o
  | .uses i _ => w.caches.mmapCache i ≠ none → w.changes - w.readAt i < 2 ^ 32
  | .drops _ => True

structure Counted (w : World) : Prop where
  registered : w.caches.useMmapCache = true → w.caches.clients.count .mmapCacheInvalidate = 1
  current : w.caches.useMmapCache = true → w.caches.mmapCacheGeneration = UInt32.ofNat w.changes
  read : ∀ i cache, w.caches.mmapCache i = some cache →
    cache.generation = UInt32.ofNat (w.readAt i) ∧ w.readAt i ≤ w.changes

section
variable {o : Options} {w w' : World}

theorem Counted.start (start : Start o w) : Counted w := by
  obtain ⟨kvm, unwinder, rfl⟩ := start
  have empty : ∀ i, (Caches.init o.toConfig kvm unwinder).mmapCache i = none ∧
      (Caches.init o.toConfig kvm unwinder).mmapCacheGeneration = 0 := by
    intro i
    unfold Caches.init
    cases kvm <;> cases o.stackTraceMode <;> cases unwinder <;> exact ⟨rfl, rfl⟩
  exact {
    registered := Caches.init_clients o.toConfig kvm unwinder
    current := fun _ => (empty 0).2
    read := fun i cache held => by cases (empty i).1.symm.trans held }

variable (counted : Counted w)
include counted

theorem Counted.exits {e : Exit} (possible : e.Possible o)
    (noticed : e.ChangesMappings o → e.Noticed o) : Counted (w.exited o e) := by
  unfold World.exited
  by_cases changes : e.ChangesMappings o
  · have reports : w.caches.syscallExitingDecode (e.sysent o) = w.caches.mmapNotifyReport :=
      if_pos changes
    obtain ⟨generation, same, use, clients⟩ := Caches.foldl_call w.caches.clients w.caches
    rw [if_pos ((Exit.stopped_iff possible).mpr (noticed changes)), if_pos changes, reports,
      Caches.mmapNotifyReport]
    constructor
    · intro enabled
      rw [use] at enabled
      rw [clients]
      exact counted.registered enabled
    · intro enabled
      rw [use] at enabled
      rw [generation, counted.registered enabled, counted.current enabled, UInt32.ofNat_add]
    · intro i cache held
      rw [same] at held
      exact ⟨(counted.read i cache held).1, Nat.le_succ_of_le (counted.read i cache held).2⟩
  · have silent : w.caches.syscallExitingDecode (e.sysent o) = w.caches := if_neg changes
    rw [if_neg changes, silent, ite_self]
    exact counted

theorem Counted.without (i : Nat) :
    Counted { w with caches := w.caches.setMmapCache i none } := by
  refine ⟨counted.registered, counted.current, fun j cache held => ?_⟩
  by_cases here : j = i
  · cases (if_pos here).symm.trans held
  · exact counted.read j cache ((if_neg here).symm.trans held)

theorem Counted.uses (enabled : w.caches.useMmapCache = true) {i : Nat}
    {rebuild : RebuildResult × Caches} (outcome : w.caches.Rebuilt i rebuild) :
    Counted (w.used i rebuild) := by
  have kept {rebuild : RebuildResult × Caches} {j : Nat} (other : j ≠ i ∨ rebuild.1 ≠ .renewed) :
      (w.used i rebuild).readAt j = w.readAt j :=
    if_neg (not_and_or.mpr other)
  cases outcome with
  | ready cache held current =>
    refine ⟨counted.registered, counted.current, fun j cache held => ?_⟩
    rw [kept (.inr (by simp))]
    exact counted.read j cache held
  | nocache =>
    refine ⟨counted.registered, counted.current, fun j cache held => ?_⟩
    rw [kept (.inr (by simp))]
    exact (counted.without i).read j cache held
  | renewed entry =>
    refine ⟨counted.registered, counted.current, fun j cache held => ?_⟩
    by_cases here : j = i
    · have now : (w.used i (.renewed, w.caches.setMmapCache i
          (some ⟨entry, w.caches.mmapCacheGeneration⟩))).readAt j = w.changes := if_pos ⟨here, rfl⟩
      obtain rfl := Option.some.inj ((if_pos here).symm.trans held)
      rw [now]
      exact ⟨counted.current enabled, Nat.le_refl _⟩
    · rw [kept (.inl here)]
      exact counted.read j cache ((if_neg here).symm.trans held)

theorem Counted.step {event : Event} (watched : Watched o w event)
    (step : Step o w event w') : Counted w' := by
  obtain ⟨happens, rfl⟩ := step
  cases event with
  | exits e => exact counted.exits happens watched
  | uses i maps => exact counted.uses happens (w.caches.rebuilt i maps)
  | drops i => exact counted.without i

theorem Counted.fresh (enabled : w.caches.useMmapCache = true) {i : Nat}
    {maps : Option (List (Option MapsLine))} (watched : Watched o w (.uses i maps))
    (ready : (w.caches.mmapCacheRebuildIfInvalid i maps).1 = .ready) : w.readAt i = w.changes := by
  have outcome := w.caches.rebuilt i maps
  generalize w.caches.mmapCacheRebuildIfInvalid i maps = rebuild at ready outcome
  cases outcome with
  | ready cache held current =>
    obtain ⟨generation, le⟩ := counted.read i cache held
    have within := watched (by rw [held]; exact Option.some_ne_none _)
    rw [generation, counted.current enabled, ← UInt32.toNat_inj, UInt32.toNat_ofNat',
      UInt32.toNat_ofNat'] at current
    omega
  | nocache => cases ready
  | renewed entry => cases ready

end

/-- The exit of a syscall stops exactly if the condition holds for it; in every run
whose syscalls that change mappings all meet it, and whose caches are used
within 2^32 changes, a cache that is found ready was read after the last of them. -/
theorem ready_is_fresh (o : Options) (w : World) (run : Run (Start o) (Step o) (Watched o) w) :
    (∀ e : Exit, e.Possible o → (e.stopped o = true ↔ e.Noticed o)) ∧
      ∀ i maps, w.caches.useMmapCache = true → Watched o w (.uses i maps) →
        (w.caches.mmapCacheRebuildIfInvalid i maps).1 = .ready → w.readAt i = w.changes := by
  have counted :=
    run.invariant (P := Counted) (fun _ start => .start start) fun _ _ _ counted watched step =>
      counted.step watched step
  exact ⟨fun e possible => e.stopped_iff possible, fun i maps enabled watched ready =>
    counted.fresh enabled watched ready⟩

def kvmOptions (stackTraceMode : Bool) : Options where
  supportedPersonalities := 1
  auditArchVec _ := ⟨0xc000003e, 0⟩
  nsyscallVec _ := 17
  sysentVec _ scno := if scno = 11 then { sysFlags := memoryMappingChange } else {}
  traceSet := some fun _ => ⟨[0x10000], false⟩
  stackTraceMode

def munmap : Exit := { data := ⟨11, 0xc000003e⟩, personality := 0, filter := true }

theorem munmap_possible (stackTraceMode : Bool) : munmap.Possible (kvmOptions stackTraceMode) :=
  ⟨⟨Nat.one_pos, rfl, UInt32.zero_le⟩, fun _ selected => Nat.le_of_lt_succ selected.1⟩

/-- The vcpu's mapping. -/
def vcpuMaps : Option (List (Option MapsLine)) :=
  some [some ⟨0x1000, 0x4000, 'r', 'w', '-', 's', 0, 0, 0xd, "anon_inode:kvm-vcpu:0"⟩]

def kvmWorld (stackTraceMode : Bool) (events : List Event) : World :=
  events.foldl (World.after (kvmOptions stackTraceMode))
    { caches := .init (kvmOptions stackTraceMode).toConfig true .libunwind }

/-- With `-k` a cache that is read again after `munmap` is found ready and fresh. -/
theorem ready_is_fresh_munmap :
    ((kvmWorld true
      [.uses 0 vcpuMaps, .exits munmap, .uses 0 vcpuMaps]).caches.mmapCacheRebuildIfInvalid
      0 vcpuMaps).1 = .ready ∧
    (kvmWorld true [.uses 0 vcpuMaps, .exits munmap, .uses 0 vcpuMaps]).readAt 0 =
      (kvmWorld true [.uses 0 vcpuMaps, .exits munmap, .uses 0 vcpuMaps]).changes := by
  have start : Run (Start (kvmOptions true)) (Step (kvmOptions true)) (Watched (kvmOptions true))
      (kvmWorld true []) := .start ⟨true, .libunwind, rfl⟩
  have read := start.next (x := Event.uses 0 vcpuMaps) (fun held => absurd rfl held) ⟨rfl, rfl⟩
  have exited := read.next (x := Event.exits munmap)
    (fun _ => ⟨fun _ => .inr (.inr ⟨rfl, by decide⟩), fun _ _ last => by cases last⟩)
    ⟨munmap_possible true, rfl⟩
  have again := exited.next (x := Event.uses 0 vcpuMaps) (fun _ => by decide) ⟨rfl, rfl⟩
  have ready : ((kvmWorld true [.uses 0 vcpuMaps, .exits munmap,
      .uses 0 vcpuMaps]).caches.mmapCacheRebuildIfInvalid 0 vcpuMaps).1 = .ready := by decide
  exact ⟨ready, (ready_is_fresh _ _ again).2 0 vcpuMaps rfl (fun _ => by decide) ready⟩

/-- With `-e kvm=vcpu` and without `-k` the filter lets `munmap` pass, and a cache
read before it is found ready after it. -/
theorem kvm_cache_goes_stale :
    ∃ (o : Options) (e : Exit) (w : World) (i : Nat) (maps : Option (List (Option MapsLine))),
      e.Possible o ∧ e.ChangesMappings o ∧ e.stopped o = false ∧
      Run (Start o) (Step o) (fun _ _ => True) w ∧ w.caches.clients ≠ [] ∧
      (w.caches.mmapCacheRebuildIfInvalid i maps).1 = .ready ∧ w.readAt i ≠ w.changes := by
  have start : Run (Start (kvmOptions false)) (Step (kvmOptions false)) (fun _ _ => True)
      (kvmWorld false []) := .start ⟨true, .libunwind, rfl⟩
  have read := start.next (x := Event.uses 0 vcpuMaps) trivial ⟨rfl, rfl⟩
  have exited := read.next (x := Event.exits munmap) trivial ⟨munmap_possible false, rfl⟩
  exact ⟨kvmOptions false, munmap, _, 0, vcpuMaps, munmap_possible false, by decide, by decide,
    exited, by decide, by decide, by decide⟩

end Strace.MmapCache
