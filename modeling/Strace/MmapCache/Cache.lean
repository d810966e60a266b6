import Strace.Config

/-! `mmap_notify.c` and `mmap_cache.c`: who is told of a syscall that changes
memory mappings, and the copies of `/proc/PID/maps` that are kept until then. -/
namespace Strace.MmapCache

/-! ## The entries of a cache -/

def mmapCacheProtReadable : UInt8 := 1
def mmapCacheProtWritable : UInt8 := 2
def mmapCacheProtExecutable : UInt8 := 4
def mmapCacheProtShared : UInt8 := 8

/-- `struct mmap_cache_entry_t`. -/
structure Entry where
  startAddr : Nat
  endAddr : Nat
  mmapOffset : Nat
  protections : UInt8
  major : Nat
  minor : Nat
  binaryFilename : String
  deriving DecidableEq, Repr

structure MapsLine where
  startAddr : Nat
  endAddr : Nat
  readBit : Char
  writeBit : Char
  execBit : Char
  sharedBit : Char
  mmapOffset : Nat := 0
  major : Nat := 0
  minor : Nat := 0
  binaryPath : String
  deriving DecidableEq, Repr

def MapsLine.knownProtection (line : MapsLine) : Bool :=
  (line.readBit == '-' || line.readBit == 'r') && (line.writeBit == '-' || line.writeBit == 'w') &&
    (line.execBit == '-' || line.execBit == 'x') &&
    (line.sharedBit == 'p' || line.sharedBit == 's')

def MapsLine.entry (line : MapsLine) : Entry where
  startAddr := line.startAddr
  endAddr := line.endAddr
  mmapOffset := line.mmapOffset
  protections :=
    (if line.readBit = 'r' then mmapCacheProtReadable else 0) |||
    (if line.writeBit = 'w' then mmapCacheProtWritable else 0) |||
    (if line.execBit = 'x' then mmapCacheProtExecutable else 0) |||
    (if line.sharedBit = 's' then mmapCacheProtShared else 0)
  major := line.major
  minor := line.minor
  binaryFilename := line.binaryPath

def MapsLine.overlaps (line : MapsLine) : Option Entry → Bool
  | none => false
  | some entry =>
    (entry.startAddr == line.startAddr && entry.endAddr == line.endAddr) ||
      decide (line.startAddr ≤ entry.startAddr) || decide (line.startAddr < entry.endAddr)

def storeEntry (entries : List Entry) (entry : Entry) : List Entry :=
  if entries.length + 1 = UInt32.size then [] else entries ++ [entry]

def readMaps : List Entry → List (Option MapsLine) → List Entry
  | entries, [] => entries
  | entries, none :: rest => readMaps entries rest
  | entries, some line :: rest =>
    if !line.knownProtection then readMaps entries rest
    else if line.endAddr < line.startAddr then entries
    else if line.overlaps entries.getLast? then readMaps entries rest
    else readMaps (storeEntry entries line.entry) rest

structure Cache where
  entry : List Entry
  generation : UInt32
  deriving DecidableEq, Repr

/-- `enum mmap_cache_rebuild_result`. -/
inductive RebuildResult where
  | nocache
  | ready
  | renewed
  deriving DecidableEq, Repr

/-! ## The clients and the caches -/

inductive Client where
  | mmapCacheInvalidate
  | updateMappingGeneration
  deriving DecidableEq, Repr

inductive Unwinder where
  | libunwind
  | libdw
  deriving DecidableEq, Repr

structure Caches where
  clients : List Client := []
  useMmapCache : Bool := false
  mmapCacheGeneration : UInt32 := 0
  mappingGeneration : UInt64 := 1
  /-- `mmap_cache` of each tcb -/
  mmapCache : Nat → Option Cache := fun _ => none

namespace Caches

variable (m : Caches)

def mmapNotifyRegisterClient (client : Client) : Caches :=
  { m with clients := client :: m.clients }

def mmapCacheEnable : Caches :=
  if m.useMmapCache then m
  else { m.mmapNotifyRegisterClient .mmapCacheInvalidate with useMmapCache := true }

def kvmRunStructureDecoderInit : Caches := m.mmapCacheEnable

/-- The `init` function of the unwinder. -/
def unwindInit : Unwinder → Caches
  | .libunwind => m.mmapCacheEnable
  | .libdw => m.mmapNotifyRegisterClient .updateMappingGeneration

def init (c : Config) (kvm : Bool) (unwinder : Unwinder) : Caches :=
  let m : Caches := if kvm then kvmRunStructureDecoderInit {} else {}
  if c.stackTraceMode then m.unwindInit unwinder else m

def call : Client → Caches
  | .mmapCacheInvalidate => { m with mmapCacheGeneration := m.mmapCacheGeneration + 1 }
  | .updateMappingGeneration => { m with mappingGeneration := m.mappingGeneration + 1 }

def mmapNotifyReport : Caches := m.clients.foldl call m

def syscallExitingDecode (ent : Sysent) : Caches :=
  if ent.sysFlags &&& memoryMappingChange ≠ 0 then m.mmapNotifyReport else m

/-- Give tcb `i` another cache, or none. -/
def setMmapCache (i : Nat) (cache : Option Cache) : Caches :=
  { m with mmapCache := fun j => if j = i then cache else m.mmapCache j }

def deleteMmapCache (i : Nat) : Caches := m.setMmapCache i none

def deleteOutdated (i : Nat) : Caches :=
  match m.mmapCache i with
  | some cache => if cache.generation ≠ m.mmapCacheGeneration then m.deleteMmapCache i else m
  | none => m

def mmapCacheRebuildIfInvalid (i : Nat) (maps : Option (List (Option MapsLine))) :
    RebuildResult × Caches :=
  let m := m.deleteOutdated i
  match m.mmapCache i, maps with
  | some _, _ => (.ready, m)
  | none, none => (.nocache, m)
  | none, some lines =>
    match readMaps [] lines with
    | [] => (.nocache, m)
    | entry => (.renewed, m.setMmapCache i (some ⟨entry, m.mmapCacheGeneration⟩))

/-! ## What each of them does -/

section
variable {m : Caches} {i : Nat}

/-- What a call for tcb `i` can come to. -/
inductive Rebuilt (m : Caches) (i : Nat) : RebuildResult × Caches → Prop
  | ready (cache : Cache) : m.mmapCache i = some cache →
      cache.generation = m.mmapCacheGeneration → Rebuilt m i (.ready, m)
  | nocache : Rebuilt m i (.nocache, m.setMmapCache i none)
  | renewed (entry : List Entry) :
      Rebuilt m i (.renewed, m.setMmapCache i (some ⟨entry, m.mmapCacheGeneration⟩))

theorem setMmapCache_none (empty : m.mmapCache i = none) : m.setMmapCache i none = m := by
  have same : (fun j => if j = i then none else m.mmapCache j) = m.mmapCache := by
    grind
  rw [setMmapCache, same]

theorem deleteOutdated_cases (m : Caches) (i : Nat) :
    (∃ cache, m.mmapCache i = some cache ∧ cache.generation = m.mmapCacheGeneration ∧
      m.deleteOutdated i = m) ∨ m.deleteOutdated i = m.setMmapCache i none := by
  unfold deleteOutdated
  split
  · next cache held =>
    split
    · exact .inr rfl
    · next current => exact .inl ⟨cache, held, not_not.mp current, rfl⟩
  · next empty => exact .inr (setMmapCache_none empty).symm

theorem rebuilt (m : Caches) (i : Nat) (maps : Option (List (Option MapsLine))) :
    Rebuilt m i (m.mmapCacheRebuildIfInvalid i maps) := by
  unfold mmapCacheRebuildIfInvalid
  rcases deleteOutdated_cases m i with ⟨cache, held, current, same⟩ | deleted
  · simpa [same, held] using .ready cache held current
  · have empty : (m.setMmapCache i none).mmapCache i = none := if_pos rfl
    have again (cache : Option Cache) :
        (m.setMmapCache i none).setMmapCache i cache = m.setMmapCache i cache := by
      unfold setMmapCache
      congr
      funext j
      split
      · rfl
      · next other => exact if_neg other
    simp only [deleted, empty]
    split
    · next h => cases h
    · exact .nocache
    · split
      · exact .nocache
      · simpa [again] using .renewed _

theorem foldl_call (clients : List Client) (m : Caches) :
    (clients.foldl call m).mmapCacheGeneration =
        m.mmapCacheGeneration + UInt32.ofNat (clients.count .mmapCacheInvalidate) ∧
      (clients.foldl call m).mmapCache = m.mmapCache ∧
      (clients.foldl call m).useMmapCache = m.useMmapCache ∧
      (clients.foldl call m).clients = m.clients := by
  induction clients generalizing m with
  | nil => exact ⟨(UInt32.add_zero _).symm, rfl, rfl, rfl⟩
  | cons client rest ih =>
    obtain ⟨generation, cache, use, same⟩ := ih (m.call client)
    rw [List.foldl_cons]
    cases client with
    | mmapCacheInvalidate =>
      refine ⟨?_, cache, use, same⟩
      rw [generation, List.count_cons_self, UInt32.ofNat_add, UInt32.add_comm (UInt32.ofNat _),
        ← UInt32.add_assoc]
      rfl
    | updateMappingGeneration =>
      refine ⟨?_, cache, use, same⟩
      rw [generation]
      rfl

theorem init_clients (c : Config) (kvm : Bool) (unwinder : Unwinder) :
    (init c kvm unwinder).useMmapCache = true →
      (init c kvm unwinder).clients.count .mmapCacheInvalidate = 1 := by
  unfold init
  cases kvm <;> cases c.stackTraceMode <;> cases unwinder <;> decide

end

end Caches

end Strace.MmapCache
