import Strace.MmapCache.Freshness

/-! `mmap_cache_search`: the entries that are kept are in order, and a binary
search finds the one with an address. -/
namespace Strace.MmapCache
open List Runs

/-! ## The search -/

def Entry.contains (entry : Entry) (ip : Nat) : Bool :=
  decide (entry.startAddr ≤ ip ∧ ip < entry.endAddr)

/-- The values of an `int`. -/
def IsInt (n : Int) : Prop := -2147483648 ≤ n ∧ n ≤ 2147483647

instance (n : Int) : Decidable (IsInt n) :=
  inferInstanceAs (Decidable (-2147483648 ≤ n ∧ n ≤ 2147483647))

def entryAt (entries : List Entry) : Int → Option Entry
  | .ofNat i => entries[i]?
  | .negSucc _ => none

theorem mid_between {lower upper : Int} (ordered : lower ≤ upper) :
    lower ≤ (upper + lower).tdiv 2 ∧ (upper + lower).tdiv 2 ≤ upper := by
  have sign : Int.sign 2 = 1 := rfl
  rw [Int.tdiv_eq_ediv]
  split <;> omega

def search (entries : List Entry) (ip : Nat) (lower upper : Int) : Option (Option Entry) :=
  if lower ≤ upper then
    if IsInt (upper + lower) then
      let mid := (upper + lower).tdiv 2
      match entryAt entries mid with
      | none => none
      | some entry =>
        if entry.contains ip then some (some entry)
        else if ip < entry.startAddr then search entries ip lower (mid - 1)
        else search entries ip (mid + 1) upper
    else none
  else some none
termination_by (upper + 1 - lower).toNat
decreasing_by all_goals have := mid_between ‹lower ≤ upper›; omega

namespace Caches

/-- `(int) size` is `size` modulo 2³². -/
def mmapCacheSearch (m : Caches) (i ip : Nat) : Option (Option Entry) :=
  match m.mmapCache i with
  | none => some none
  | some cache =>
    let size := Int.bmod cache.entry.length UInt32.size
    if IsInt (size - 1) then search cache.entry ip 0 (size - 1) else none

/-- The entries that are stored for tcb `i`. -/
def entries (m : Caches) (i : Nat) : List Entry := (m.mmapCache i).elim [] Cache.entry

end Caches

/-! ## The order of the entries -/

/-- `a` is over when `b` starts. -/
def Entry.Before (a b : Entry) : Prop := a.startAddr < b.startAddr ∧ a.endAddr ≤ b.startAddr

variable {a b entry : Entry} {line : MapsLine} {ip : Nat}

theorem Entry.Before.trans {c : Entry} (first : a.Before b) (second : b.Before c) : a.Before c := by
  obtain ⟨_, _⟩ := first
  obtain ⟨_, _⟩ := second
  constructor <;> omega

/-- What the array of a cache is like. -/
structure Stored (entries : List Entry) : Prop where
  ordered : entries.Pairwise Entry.Before
  valid : ∀ entry ∈ entries, entry.startAddr ≤ entry.endAddr
  counted : entries.length < UInt32.size

theorem Stored.nil : Stored [] := ⟨.nil, nofun, by decide⟩

theorem before_of_last {entries : List Entry} (ordered : entries.Pairwise Entry.Before)
    (last : ∀ a ∈ entries.getLast?, a.Before entry) :
    ∀ a ∈ entries, a.Before entry := by
  rcases eq_nil_or_concat entries with rfl | ⟨init, b, rfl⟩
  · exact nofun
  · rw [concat_eq_append] at ordered last ⊢
    have beforeEntry := last b (by simp)
    intro a member
    rcases mem_append.mp member with earlier | here
    · exact ((pairwise_append.mp ordered).2.2 a earlier b (mem_singleton_self b)).trans
        beforeEntry
    · simp [mem_singleton.mp here, beforeEntry]

theorem before_of_not_overlaps {last : Option Entry} (apart : line.overlaps last = false) :
    ∀ a ∈ last, a.Before line.entry := by
  rintro a rfl
  simp only [MapsLine.overlaps, Bool.or_eq_false_iff, decide_eq_false_iff_not] at apart
  obtain ⟨⟨-, later⟩, beyond⟩ := apart
  exact ⟨Nat.lt_of_not_le later, Nat.le_of_not_lt beyond⟩

theorem Stored.store {entries : List Entry} (stored : Stored entries)
    (valid : line.startAddr ≤ line.endAddr) (apart : line.overlaps entries.getLast? = false) :
    Stored (storeEntry entries line.entry) := by
  have before := before_of_last stored.ordered (before_of_not_overlaps apart)
  unfold storeEntry
  split
  · exact .nil
  · have := stored.counted
    constructor
    · rw [pairwise_append]
      refine ⟨stored.ordered, pairwise_singleton _ _, fun a member b last => ?_⟩
      rw [mem_singleton.mp last]
      exact before a member
    · intro a member
      rcases mem_append.mp member with old | new
      · exact stored.valid a old
      · rw [mem_singleton.mp new]
        exact valid
    · grind

theorem Stored.readMaps {entries : List Entry} (stored : Stored entries)
    (lines : List (Option MapsLine)) : Stored (readMaps entries lines) := by
  fun_induction MmapCache.readMaps entries lines with
  | case1 entries => exact stored
  | case2 entries rest ih => exact ih stored
  | case3 entries line rest unknown ih => exact ih stored
  | case4 entries line rest known invalid => exact stored
  | case5 entries line rest known valid overlaps ih => exact ih stored
  | case6 entries line rest known valid apart ih =>
    exact ih (stored.store (Nat.le_of_not_lt valid) (Bool.eq_false_iff.mpr apart))

/-! ## What the search finds -/

theorem Entry.contains_iff :
    entry.contains ip = true ↔ entry.startAddr ≤ ip ∧ ip < entry.endAddr := decide_eq_true_iff

theorem Entry.Before.apart (before : a.Before b) (here : a.contains ip = true) :
    b.contains ip = false := by
  obtain ⟨-, inside⟩ := contains_iff.mp here
  rw [Bool.eq_false_iff, Ne, contains_iff]
  have := before.2
  omega

section
variable {entries : List Entry} {ip : Nat} {lower upper : Int}

theorem entryAt_eq {i : Int} (nonneg : 0 ≤ i) : entryAt entries i = entries[i.toNat]? := by
  cases i with
  | ofNat i => rfl
  | negSucc i => omega

variable {entry : Entry} {mid : Nat}

theorem find?_of_contains (ordered : entries.Pairwise Entry.Before) (member : entry ∈ entries)
    (here : entry.contains ip = true) :
    entries.find? (·.contains ip) = some entry := by
  induction ordered with
  | nil => cases member
  | @cons first rest before ordered ih =>
    rcases mem_cons.mp member with rfl | later
    · exact find?_cons_of_pos here
    · have no : first.contains ip ≠ true := by
        intro inFirst
        rw [(before entry later).apart inFirst] at here
        cases here
      rw [find?_cons, Bool.eq_false_iff.mpr no]
      exact ih later

theorem before_of_lt (ordered : entries.Pairwise Entry.Before) {i j : Nat} {a b : Entry}
    (atI : entries[i]? = some a) (atJ : entries[j]? = some b) (lt : i < j) : a.Before b := by
  obtain ⟨insideI, rfl⟩ := List.getElem?_eq_some_iff.mp atI
  obtain ⟨insideJ, rfl⟩ := List.getElem?_eq_some_iff.mp atJ
  exact List.pairwise_iff_getElem.mp ordered i j insideI insideJ lt

structure Window (entries : List Entry) (ip : Nat) (lower upper : Int) : Prop where
  nonneg : 0 ≤ lower
  inside : upper < entries.length
  outside : ∀ (i : Nat) entry, entries[i]? = some entry → (i < lower ∨ upper < i) →
    entry.contains ip = false

section
variable (window : Window entries ip lower upper)
include window

theorem Window.left
    (ordered : entries.Pairwise Entry.Before) (atMid : entries[mid]? = some entry)
    (smaller : ip < entry.startAddr) :
    Window entries ip lower (mid - 1) := by
  have inside := (List.getElem?_eq_some_iff.mp atMid).1
  refine ⟨window.nonneg, by omega, fun i other atI out => ?_⟩
  rcases out with below | above
  · exact window.outside i other atI (.inl below)
  · rw [Bool.eq_false_iff, Ne, Entry.contains_iff]
    rcases Nat.lt_or_eq_of_le (show mid ≤ i by omega) with later | rfl
    · have := (before_of_lt ordered atMid atI later).1
      omega
    · grind

theorem Window.right
    (ordered : entries.Pairwise Entry.Before) (atMid : entries[mid]? = some entry)
    (larger : entry.startAddr ≤ ip) (missed : entry.contains ip = false) :
    Window entries ip (mid + 1) upper := by
  refine ⟨by omega, window.inside, fun i other atI out => ?_⟩
  rcases out with below | above
  · rcases Nat.lt_or_eq_of_le (show i ≤ mid by omega) with earlier | rfl
    · rw [Bool.eq_false_iff, Ne, Entry.contains_iff]
      have := (before_of_lt ordered atI atMid earlier).2
      omega
    · grind
  · exact window.outside i other atI (.inr above)

theorem Window.find?_eq_none (done : upper < lower) :
    entries.find? (·.contains ip) = none := by
  rw [List.find?_eq_none]
  intro entry member
  obtain ⟨i, atI⟩ := List.mem_iff_getElem?.mp member
  rw [window.outside i entry atI (by omega)]
  exact Bool.false_ne_true

end

theorem search_finds (ordered : entries.Pairwise Entry.Before)
    (small : entries.length ≤ 1073741824) (window : Window entries ip lower upper) :
    search entries ip lower upper = some (entries.find? (·.contains ip)) := by
  have nonneg := window.nonneg
  have inside := window.inside
  fun_induction search entries ip lower upper with
  | case1 lower upper le _ mid nothing =>
    obtain ⟨_, _⟩ := mid_between le
    rw [entryAt_eq (by omega), getElem?_eq_none_iff] at nothing
    omega
  | case2 lower upper le _ mid entry atMid here =>
    obtain ⟨_, _⟩ := mid_between le
    rw [entryAt_eq (by omega)] at atMid
    rw [find?_of_contains ordered (mem_of_getElem? atMid) here]
  | case3 lower upper le _ mid entry atMid missed smaller ih =>
    obtain ⟨_, _⟩ := mid_between le
    rw [entryAt_eq (by omega)] at atMid
    have next := window.left ordered atMid smaller
    rw [Int.toNat_of_nonneg (by omega)] at next
    exact ih next next.nonneg next.inside
  | case4 lower upper le _ mid entry atMid missed larger ih =>
    obtain ⟨_, _⟩ := mid_between le
    rw [entryAt_eq (by omega)] at atMid
    have next := window.right ordered atMid (Nat.le_of_not_lt larger) (Bool.eq_false_iff.mpr missed)
    rw [Int.toNat_of_nonneg (by omega)] at next
    exact ih next next.nonneg next.inside
  | case5 lower upper le large =>
    unfold IsInt at large
    omega
  | case6 lower upper gt => rw [window.find?_eq_none (by omega)]

theorem search_overflows (beyond : ∀ entry ∈ entries, entry.startAddr ≤ ip ∧ entry.endAddr ≤ ip)
    (large : 2147483647 < 2 * upper) (nonneg : 0 ≤ lower) (le : lower ≤ upper)
    (inside : upper < entries.length) : search entries ip lower upper = none := by
  fun_induction search entries ip lower upper with
  | case1 | case5 => rfl
  | case2 lower upper _ _ mid entry atMid here =>
    obtain ⟨_, _⟩ := mid_between le
    rw [entryAt_eq (by omega)] at atMid
    have := beyond entry (mem_of_getElem? atMid)
    have := Entry.contains_iff.mp here
    omega
  | case3 lower upper _ _ mid entry atMid _ smaller =>
    obtain ⟨_, _⟩ := mid_between le
    rw [entryAt_eq (by omega)] at atMid
    have := beyond entry (mem_of_getElem? atMid)
    omega
  | case4 lower upper _ small mid entry atMid _ _ ih =>
    have lt : mid < upper := by
      have := small.2
      unfold mid
      rw [Int.tdiv_eq_ediv_of_nonneg (by omega)]
      omega
    obtain ⟨_, _⟩ := mid_between le
    exact ih large (by omega) (by omega) inside
  | case6 lower upper gt => exact absurd le gt

def Searchable (entries : List Entry) : Prop :=
  entries.length ≤ 1073741824 ∨
    2147483648 < entries.length ∧ ∀ entry ∈ entries, entry.startAddr = entry.endAddr

theorem asInt_size (counted : entries.length < UInt32.size) :
    Int.bmod entries.length UInt32.size =
      if entries.length < 2147483648 then (entries.length : Int)
      else entries.length - 4294967296 := by
  unfold UInt32.size at counted ⊢
  rw [Int.bmod_def]
  split <;> split <;> omega

theorem search_size (counted : entries.length < UInt32.size) :
    (if IsInt (Int.bmod entries.length UInt32.size - 1) then
        search entries ip 0 (Int.bmod entries.length UInt32.size - 1) else none) =
      if entries.length < 2147483648 then search entries ip 0 (entries.length - 1)
      else if entries.length = 2147483648 then none
      else some none := by
  rw [asInt_size counted]
  unfold UInt32.size at counted
  by_cases fewer : entries.length < 2147483648
  · have int : IsInt (entries.length - 1) := by constructor <;> omega
    rw [if_pos fewer, if_pos int, if_pos fewer]
  · rw [if_neg fewer, if_neg fewer]
    by_cases equal : entries.length = 2147483648
    · have below : ¬ IsInt (entries.length - 4294967296 - 1) := by
        rintro ⟨_, _⟩
        omega
      rw [if_neg below, if_pos equal]
    · have int : IsInt (entries.length - 4294967296 - 1) := by constructor <;> omega
      rw [if_pos int, if_neg equal, search, if_neg (by omega)]

end

namespace Caches

section
variable {m : Caches} {i : Nat}

def AllStored (m : Caches) : Prop := ∀ i, Stored (m.entries i)

theorem mmapCacheSearch_eq (m : Caches) (i ip : Nat) (stored : Stored (m.entries i)) :
    m.mmapCacheSearch i ip =
      if (m.entries i).length < 2147483648 then
        search (m.entries i) ip 0 ((m.entries i).length - 1)
      else if (m.entries i).length = 2147483648 then none
      else some none := by
  cases held : m.mmapCache i with
  | none =>
    have empty : m.entries i = [] := by rw [entries, held, Option.elim_none]
    rw [mmapCacheSearch, held, empty, if_pos (by decide), search, if_neg (by decide)]
  | some cache =>
    have same : m.entries i = cache.entry := by rw [entries, held, Option.elim_some]
    rw [mmapCacheSearch, held, same]
    exact search_size (same ▸ stored.counted)

theorem mmapCacheSearch_finds (stored : Stored (m.entries i)) (fits : Searchable (m.entries i))
    (ip : Nat) : m.mmapCacheSearch i ip = some ((m.entries i).find? (·.contains ip)) := by
  rw [mmapCacheSearch_eq m i ip stored]
  rcases fits with small | ⟨large, empty⟩
  · rw [if_pos (by omega)]
    refine search_finds stored.ordered small ⟨Int.le_refl 0, by omega, fun j entry atJ out => ?_⟩
    have := (List.getElem?_eq_some_iff.mp atJ).1
    omega
  · have nowhere : (m.entries i).find? (·.contains ip) = none := by
      rw [List.find?_eq_none]
      intro entry member here
      have := Entry.contains_iff.mp here
      have := empty entry member
      omega
    rw [if_neg (by omega), if_neg (by omega), nowhere]

theorem searchable_of_finds (stored : Stored (m.entries i))
    (finds : ∀ ip, m.mmapCacheSearch i ip = some ((m.entries i).find? (·.contains ip))) :
    Searchable (m.entries i) := by
  by_contra unfit
  obtain ⟨many, full⟩ := not_or.mp unfit
  rcases Nat.lt_trichotomy (m.entries i).length 2147483648 with fewer | equal | more
  · -- the end of the last entry is beyond all of them
    obtain ⟨init, last, eq⟩ := (eq_nil_or_concat (m.entries i)).resolve_left
      (fun nil => many (by rw [nil]; decide))
    rw [concat_eq_append] at eq
    have beyond : ∀ entry ∈ m.entries i,
        entry.startAddr ≤ last.endAddr ∧ entry.endAddr ≤ last.endAddr := by
      have valid := stored.valid last (by simp [eq])
      have ordered := stored.ordered
      rw [eq] at ordered ⊢
      intro entry member
      rcases mem_append.mp member with earlier | here
      · have before :=
          (pairwise_append.mp ordered).2.2 entry earlier last (mem_singleton_self last)
        obtain ⟨_, _⟩ := before
        constructor <;> omega
      · grind
    have found := finds last.endAddr
    rw [mmapCacheSearch_eq m i _ stored, if_pos fewer,
      search_overflows beyond (by omega) (Int.le_refl 0) (by omega) (by omega)] at found
    cases found
  · have found := finds 0
    rw [mmapCacheSearch_eq m i _ stored, if_neg (by omega), if_pos equal] at found
    cases found
  · apply full
    refine ⟨more, fun entry member => ?_⟩
    have found := finds entry.startAddr
    rw [mmapCacheSearch_eq m i _ stored, if_neg (by omega), if_neg (by omega)] at found
    have missed := find?_eq_none.mp (Option.some.inj found).symm entry member
    have valid := stored.valid entry member
    rw [Entry.contains_iff] at missed
    omega

/-! ## Runs -/

theorem entries_setMmapCache (cache : Option Cache) (j : Nat) :
    (m.setMmapCache i cache).entries j =
      if j = i then cache.elim [] Cache.entry else m.entries j :=
  apply_ite (Option.elim · [] Cache.entry) _ _ _

theorem AllStored.set (all : m.AllStored) (i : Nat) {cache : Option Cache}
    (stored : Stored (cache.elim [] Cache.entry)) : (m.setMmapCache i cache).AllStored := by
  intro j
  rw [entries_setMmapCache]
  split
  · exact stored
  · exact all j

theorem AllStored.rebuild (all : m.AllStored) (i : Nat) (maps : Option (List (Option MapsLine))) :
    (m.mmapCacheRebuildIfInvalid i maps).2.AllStored := by
  have current : (m.deleteOutdated i).AllStored := by
    rcases deleteOutdated_cases m i with ⟨_, -, -, same⟩ | deleted
    · rwa [same]
    · rw [deleted]
      exact all.set i Stored.nil
  unfold mmapCacheRebuildIfInvalid
  dsimp only
  split
  · exact current
  · exact current
  · next lines _ =>
    have read := Stored.nil.readMaps lines
    split
    · exact current
    · exact current.set i read

theorem entries_rebuild (empty : m.mmapCache i = none) (lines : List (Option MapsLine)) :
    (m.mmapCacheRebuildIfInvalid i (some lines)).2.entries i = readMaps [] lines := by
  have same : m.deleteOutdated i = m := by rw [deleteOutdated, empty]
  simp only [mmapCacheRebuildIfInvalid, same, empty]
  split
  · next nothing =>
    rw [nothing, entries, empty, Option.elim_none]
  · rw [entries_setMmapCache, if_pos rfl, Option.elim_some]

theorem AllStored.report (all : m.AllStored) (ent : Sysent) :
    (m.syscallExitingDecode ent).AllStored := by
  unfold syscallExitingDecode
  split
  · intro i
    have same : m.mmapNotifyReport.mmapCache = m.mmapCache := (foldl_call m.clients m).2.1
    unfold entries
    rw [same]
    exact all i
  · exact all

end

end Caches

theorem stored_run {o : Options} {w : World} (run : Run (Start o) (Step o) (fun _ _ => True) w) :
    w.caches.AllStored := by
  refine run.invariant (P := fun w => w.caches.AllStored) ?_ ?_
  · rintro w ⟨kvm, unwinder, rfl⟩ i
    have empty : (Caches.init o.toConfig kvm unwinder).mmapCache i = none := by
      unfold Caches.init
      cases kvm <;> cases o.stackTraceMode <;> cases unwinder <;> rfl
    rw [Caches.entries, empty]
    exact .nil
  · rintro w event w' all - ⟨-, rfl⟩
    cases event with
    | exits e =>
      unfold World.after World.exited
      dsimp only
      split
      · exact all.report _
      · exact all
    | uses i maps => exact all.rebuild i maps
    | drops i => exact all.set i Stored.nil

/-- In every run, whatever the files have shown, the entries of a tcb are in
ascending order and share no address; a search for any address returns the
entry that has it, or none, exactly if they are searchable. -/
theorem mmap_cache_search_finds_iff (o : Options) (w : World)
    (run : Run (Start o) (Step o) (fun _ _ => True) w) (i : Nat) :
    (w.caches.entries i).Pairwise (·.startAddr < ·.startAddr) ∧
      (w.caches.entries i).Pairwise
        (fun a b => ∀ ip, ¬ (a.contains ip = true ∧ b.contains ip = true)) ∧
      ((∀ ip, w.caches.mmapCacheSearch i ip =
          some ((w.caches.entries i).find? (·.contains ip))) ↔
        Searchable (w.caches.entries i)) := by
  have stored := stored_run run i
  refine ⟨stored.ordered.imp And.left, stored.ordered.imp ?_, Caches.searchable_of_finds stored,
    Caches.mmapCacheSearch_finds stored⟩
  rintro a b before ip ⟨inA, inB⟩
  rw [before.apart inA] at inB
  cases inB

def pageLine (n : Nat) : MapsLine where
  startAddr := 4096 * n
  endAddr := 4096 * (n + 1)
  readBit := 'r'
  writeBit := '-'
  execBit := '-'
  sharedBit := 's'
  binaryPath := "/tmp/page"

def fourPages : Option (List (Option MapsLine)) :=
  some [some (pageLine 1), some (pageLine 2), none, some (pageLine 5), some (pageLine 6)]

/-- An address of the third of four pages is found, and one between the second and the third
is in none. -/
theorem mmap_cache_search_finds_third_page :
    (kvmWorld true [.uses 0 fourPages]).caches.mmapCacheSearch 0 0x5800 =
        some (some (pageLine 5).entry) ∧
      (kvmWorld true [.uses 0 fourPages]).caches.mmapCacheSearch 0 0x3000 = some none := by
  have run : Run (Start (kvmOptions true)) (Step (kvmOptions true)) (fun _ _ => True)
      (kvmWorld true [.uses 0 fourPages]) :=
    .next (x := .uses 0 fourPages) (.start ⟨true, .libunwind, rfl⟩) trivial ⟨rfl, rfl⟩
  have finds := (mmap_cache_search_finds_iff (kvmOptions true) _ run 0).2.2.mpr (.inl (by decide))
  exact ⟨(finds 0x5800).trans (by decide), (finds 0x3000).trans (by decide)⟩

theorem readMaps_pages (k n : Nat) (few : k + n < UInt32.size) :
    readMaps ((List.range k).map fun j => (pageLine j).entry)
        ((List.range' k n).map fun j => some (pageLine j)) =
      (List.range (k + n)).map fun j => (pageLine j).entry := by
  induction n generalizing k with
  | zero => rfl
  | succ n ih =>
    have valid : ¬ (pageLine k).endAddr < (pageLine k).startAddr := by
      simp [pageLine]
    have apart : (pageLine k).overlaps ((List.range k).map fun j => (pageLine j).entry).getLast? =
        false := by
      cases k with
      | zero => rfl
      | succ k =>
        rw [range_succ, map_append, map_singleton, getLast?_concat]
        simp only [MapsLine.overlaps, MapsLine.entry, pageLine, Bool.or_eq_false_iff,
          Bool.and_eq_false_iff, beq_eq_false_iff_ne, decide_eq_false_iff_not]
        omega
    have stored : storeEntry ((List.range k).map fun j => (pageLine j).entry) (pageLine k).entry =
        (List.range (k + 1)).map fun j => (pageLine j).entry := by
      rw [storeEntry, if_neg (by rw [length_map, length_range]; omega), range_succ,
        map_append, map_singleton]
    rw [range'_succ, map_cons, readMaps, if_neg (by simp [MapsLine.knownProtection, pageLine]),
      if_neg valid, if_neg (by rw [apart]; exact Bool.false_ne_true), stored, ih (k + 1) (by omega),
      Nat.add_assoc, Nat.add_comm 1]

def readWorld (lines : List (Option MapsLine)) : World := kvmWorld true [.uses 0 (some lines)]

theorem readWorld_run (lines : List (Option MapsLine)) :
    Run (Start (kvmOptions true)) (Step (kvmOptions true)) (fun _ _ => True) (readWorld lines) :=
  .next (x := .uses 0 (some lines)) (.start ⟨true, .libunwind, rfl⟩) trivial ⟨rfl, rfl⟩

theorem entries_readWorld (lines : List (Option MapsLine)) :
    (readWorld lines).caches.entries 0 = readMaps [] lines :=
  Caches.entries_rebuild rfl lines

/-- One page, mapped often enough: the address behind the last of them is in no
entry, but the search for it adds 2³⁰ to 2³⁰. -/
theorem mmap_cache_search_overflows_pages :
    Run (Start (kvmOptions true)) (Step (kvmOptions true)) (fun _ _ => True)
        (readWorld ((List.range' 0 1073741825).map fun j => some (pageLine j))) ∧
      (readWorld ((List.range' 0 1073741825).map fun j => some (pageLine j))).caches.mmapCacheSearch
        0 (4096 * 1073741825) = none := by
  refine ⟨readWorld_run _, ?_⟩
  have pages := (entries_readWorld _).trans (readMaps_pages 0 1073741825 (by decide))
  have stored := stored_run
    (readWorld_run ((List.range' 0 1073741825).map fun j => some (pageLine j))) 0
  have length : ((List.range (0 + 1073741825)).map fun j => (pageLine j).entry).length =
      1073741825 := by
    rw [List.length_map, List.length_range]
  rw [Caches.mmapCacheSearch_eq _ _ _ stored, pages, length, if_pos (by decide)]
  apply search_overflows
  · intro entry member
    obtain ⟨j, inside, rfl⟩ := List.mem_map.mp member
    have := List.mem_range.mp inside
    simp only [MapsLine.entry, pageLine]
    omega
  · decide
  · decide
  · decide
  · rw [length]
    decide

end Strace.MmapCache
