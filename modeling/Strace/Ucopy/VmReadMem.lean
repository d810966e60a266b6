import Mathlib.Algebra.Group.Nat.Defs
import Strace.Runs

/-! `vm_read_mem` of `ucopy.c`: reads of the tracee's memory through a cache of four
pages. A copy to `laddr` is the list of the bytes that are stored there. -/
namespace Strace
open Function

structure Geometry where
  longBits : Nat
  pageBits : Nat
  long : longBits = 32 ∨ longBits = 64
  page : 3 ≤ pageBits ∧ pageBits ≤ 20

namespace Geometry

variable (g : Geometry)

/-- The number of addresses. -/
def space : Nat := 2 ^ g.longBits
def pageSize : Nat := 2 ^ g.pageBits
/-- `sizeof(long)` -/
def wordSize : Nat := g.longBits / 8

/-- `addr & ~page_mask` -/
def pageStart (addr : Nat) : Nat := addr - addr % g.pageSize

def pageAfterLast (addr len : Nat) : Nat :=
  g.pageStart ((addr + len + (g.pageSize - 1)) % g.space)

def cached (addr len : Nat) : Bool :=
  decide (g.pageStart addr ≠ 0 ∧ g.pageStart addr ≤ g.pageAfterLast addr len ∧
    g.pageAfterLast addr len - g.pageStart addr ≤ 4 * g.pageSize)

end Geometry

inductive Errno where
  | enosys
  | eperm
  | esrch
  | efault
  | eio
  | einval
  | other (n : Nat)
  deriving DecidableEq, Repr

abbrev Memory := Nat → UInt8

variable (g : Geometry)

def Memory.bytes (mem : Memory) (addr len : Nat) : List UInt8 :=
  (List.range len).map fun j => mem ((addr + j) % g.space)

structure Kernel (g : Geometry) where
  readv : (addr len : Nat) → Except Errno Nat
  writev : (addr len : Nat) → Except Errno Nat
  peek : (addr : Nat) → Option Errno
  poke : (addr : Nat) → Option Errno
  readv_bounds : ∀ {addr len n}, 0 < len → readv addr len = .ok n → 0 < n ∧ n ≤ len
  readv_page : ∀ {addr n}, addr % g.pageSize = 0 → readv addr g.pageSize = .ok n → n = g.pageSize
  writev_bounds : ∀ {addr len n}, writev addr len = .ok n → n ≤ len

structure Ucopy where
  cachedIdx : Option (Fin 4) := none
  cachedRaddr : Fin 4 → Nat := fun _ => 0
  buf : Fin 4 → Nat → UInt8 := fun _ _ => 0
  processVmReadvNotSupported : Bool := false
  processVmWritevNotSupported : Bool := false

namespace Ucopy

def invalidateUmoveCache (s : Ucopy) : Ucopy := { s with cachedIdx := none }

def getNextUnusedIdx (s : Ucopy) : Fin 4 :=
  match s.cachedIdx with
  | none => 0
  | some idx => idx + 1

def lookupCachedRaddrIdx (s : Ucopy) (raddr : Nat) : Option (Fin 4) :=
  match s.cachedIdx with
  | none => none
  | some idx =>
    (((List.finRange 4).filter (· ≤ idx)).reverse ++
      ((List.finRange 4).filter (idx < ·)).reverse).find? fun i => raddr = s.cachedRaddr i

def setCachedRaddrIdx (s : Ucopy) (raddr : Nat) (idx : Fin 4) : Ucopy :=
  let cleared := if s.cachedIdx = none then fun _ => 0 else s.cachedRaddr
  { s with cachedRaddr := Function.update cleared idx raddr, cachedIdx := some idx }

variable {g : Geometry} (k : Kernel g) (mem : Memory)

def processReadMem (s : Ucopy) (raddr len : Nat) : Ucopy × Except Errno Nat :=
  match k.readv raddr len with
  | .error .enosys => ({ s with processVmReadvNotSupported := true }, .error .enosys)
  | rc => (s, rc)

def loadPage (s : Ucopy) (pageStart : Nat) : Ucopy × Except Errno (Fin 4) :=
  match s.lookupCachedRaddrIdx pageStart with
  | some idx => (s, .ok idx)
  | none =>
    let idx := s.getNextUnusedIdx
    match s.processReadMem k pageStart g.pageSize with
    | (s, .error e) => (s, .error e)
    | (s, .ok rc) =>
      let page off := if off < rc then mem ((pageStart + off) % g.space) else s.buf idx off
      ({ s with buf := Function.update s.buf idx page }.setCachedRaddrIdx pageStart idx, .ok idx)

def vmReadLoop : (fuel : Nat) → Ucopy → (taddr pageStart len totalRead : Nat) →
    Ucopy × List UInt8 × Except Errno Nat
  | 0, s, _, _, _, totalRead => (s, [], .ok totalRead)
  | fuel + 1, s, taddr, pageStart, len, totalRead =>
    match s.loadPage k mem pageStart with
    | (s, .error e) => (s, [], if totalRead ≠ 0 then .ok totalRead else .error e)
    | (s, .ok idx) =>
      let offset := taddr - pageStart
      let copyLen := if len ≤ g.pageSize - offset then len else g.pageSize - offset
      let nextLen := if len ≤ g.pageSize - offset then 0 else len - copyLen
      let copy := (List.range copyLen).map fun j => s.buf idx (offset + j)
      if nextLen = 0 then (s, copy, .ok (totalRead + copyLen))
      else
        let next := (pageStart + g.pageSize) % g.space
        let (s, stored, rc) := vmReadLoop fuel s next next nextLen (totalRead + copyLen)
        (s, copy ++ stored, rc)

def vmReadMem (s : Ucopy) (kraddr len : Nat) : Ucopy × List UInt8 × Except Errno Nat :=
  if len = 0 then (s, [], .ok 0)
  else if g.cached kraddr len then vmReadLoop k mem len s kraddr (g.pageStart kraddr) len 0
  else
    match s.processReadMem k kraddr len with
    | (s, .error e) => (s, [], .error e)
    | (s, .ok rc) => (s, mem.bytes g kraddr rc, .ok rc)

end Ucopy

/-! ## Pages -/

namespace Geometry

variable {g : Geometry}

theorem pageSize_pos : 0 < g.pageSize := Nat.two_pow_pos _

theorem pages_fit : 8 * g.pageSize ≤ g.space := by
  have shift : 8 * g.pageSize = 2 ^ (3 + g.pageBits) := by
    rw [Nat.pow_add]
    rfl
  rw [shift]
  refine Nat.pow_le_pow_right (by decide) ?_
  have page := g.page
  rcases g.long with long | long <;> omega

theorem pageSize_dvd_space : g.pageSize ∣ g.space := by
  refine Nat.pow_dvd_pow 2 ?_
  have page := g.page
  rcases g.long with long | long <;> omega

theorem offset_lt (addr : Nat) : addr % g.pageSize < g.pageSize := Nat.mod_lt _ pageSize_pos

theorem pageStart_add (addr : Nat) : g.pageStart addr + addr % g.pageSize = addr :=
  Nat.sub_add_cancel (Nat.mod_le _ _)

theorem pageStart_mod (addr : Nat) : g.pageStart addr % g.pageSize = 0 :=
  Nat.sub_mod_eq_zero_of_mod_eq (Nat.mod_mod _ _).symm

theorem pageStart_eq {addr start : Nat} (aligned : start % g.pageSize = 0) (low : start ≤ addr)
    (high : addr < start + g.pageSize) : g.pageStart addr = start := by
  obtain ⟨off, rfl⟩ := Nat.exists_eq_add_of_le low
  have offset : (start + off) % g.pageSize = off := by
    rw [Nat.add_mod, aligned, Nat.zero_add, Nat.mod_mod]
    exact Nat.mod_eq_of_lt (by omega)
  unfold pageStart
  rw [offset, Nat.add_sub_cancel]

end Geometry

theorem Memory.bytes_append (mem : Memory) (addr m n : Nat) :
    mem.bytes g addr (m + n) = mem.bytes g addr m ++ mem.bytes g (addr + m) n := by
  simp [List.range_add, Nat.add_assoc, Memory.bytes]

theorem Memory.length_bytes (mem : Memory) (addr len : Nat) :
    (mem.bytes g addr len).length = len := by simp [Memory.bytes]

namespace Ucopy

variable {g : Geometry} {k : Kernel g} {mem : Memory} {good : Nat → Prop} {s : Ucopy}

def Valid (g : Geometry) (good : Nat → Prop) (mem : Memory) (s : Ucopy) : Prop :=
  s.cachedIdx ≠ none → ∀ i, s.cachedRaddr i ≠ 0 → good (s.cachedRaddr i) ∧
    ∀ off < g.pageSize, s.buf i off = mem ((s.cachedRaddr i + off) % g.space)

theorem lookupCachedRaddrIdx_some {raddr : Nat} {idx : Fin 4}
    (found : s.lookupCachedRaddrIdx raddr = some idx) :
    s.cachedIdx ≠ none ∧ s.cachedRaddr idx = raddr := by
  unfold lookupCachedRaddrIdx at found
  split at found
  · cases found
  · next used =>
    have same := List.find?_some found
    rw [used]
    exact ⟨nofun, (of_decide_eq_true same).symm⟩

/-- The slots of the cache are the same. -/
structure SameSlots (s s' : Ucopy) : Prop where
  idx : s'.cachedIdx = s.cachedIdx
  raddr : s'.cachedRaddr = s.cachedRaddr
  buf : s'.buf = s.buf

theorem processReadMem_eq (k : Kernel g) (s : Ucopy) (raddr len : Nat) :
    (s.processReadMem k raddr len).2 = k.readv raddr len ∧
      SameSlots s (s.processReadMem k raddr len).1 := by
  unfold processReadMem
  split
  · next failed => exact ⟨failed.symm, rfl, rfl, rfl⟩
  · exact ⟨rfl, rfl, rfl, rfl⟩

theorem Valid.of_eq {s' : Ucopy} (valid : s.Valid g good mem) (same : SameSlots s s') :
    s'.Valid g good mem := by
  simpa [same.idx, same.raddr, same.buf, Valid] using valid

theorem Valid.setCachedRaddrIdx (valid : s.Valid g good mem) {pageStart : Nat} (idx : Fin 4)
    {page : Nat → UInt8} (isGood : good pageStart)
    (holds : ∀ off < g.pageSize, page off = mem ((pageStart + off) % g.space)) :
    ({ s with buf := Function.update s.buf idx page }.setCachedRaddrIdx pageStart idx).Valid
      g good mem := by
  intro _ i nonzero
  unfold Ucopy.setCachedRaddrIdx at nonzero ⊢
  dsimp only at nonzero ⊢
  by_cases eq : i = idx
  · subst eq
    rw [update_self, update_self]
    exact ⟨isGood, holds⟩
  · rw [update_of_ne eq] at nonzero ⊢
    rw [update_of_ne eq]
    split at nonzero
    · exact absurd rfl nonzero
    · next used =>
      rw [if_neg used]
      exact valid used i nonzero

theorem loadPage_valid (valid : s.Valid g good mem) {pageStart : Nat} (nonzero : pageStart ≠ 0)
    (aligned : pageStart % g.pageSize = 0)
    (isGood : ∀ n, k.readv pageStart g.pageSize = .ok n → good pageStart) :
    (loadPage k mem s pageStart).1.Valid g good mem ∧
      (∀ idx, (loadPage k mem s pageStart).2 = .ok idx → good pageStart ∧ ∀ off < g.pageSize,
        (loadPage k mem s pageStart).1.buf idx off = mem ((pageStart + off) % g.space)) ∧
      ∀ e, (loadPage k mem s pageStart).2 = .error e →
        k.readv pageStart g.pageSize = .error e := by
  unfold loadPage
  cases looked : s.lookupCachedRaddrIdx pageStart with
  | some idx =>
    obtain ⟨used, rfl⟩ := lookupCachedRaddrIdx_some looked
    refine ⟨valid, ?_, ?_⟩
    · simpa using valid used idx nonzero
    · rintro _ ⟨⟩
  | none =>
    obtain ⟨rc, same⟩ := processReadMem_eq k s pageStart g.pageSize
    generalize s.processReadMem k pageStart g.pageSize = read at rc same
    obtain ⟨u, result⟩ := read
    obtain rfl := rc
    have valid' := valid.of_eq same
    cases answer : k.readv pageStart g.pageSize with
    | error e =>
      refine ⟨valid', ?_, ?_⟩
      · rintro _ ⟨⟩
      · simp
    | ok n =>
      obtain rfl := k.readv_page aligned answer
      have isGood := isGood _ answer
      refine ⟨valid'.setCachedRaddrIdx _ isGood fun off inside => if_pos inside, ?_, ?_⟩
      · rintro _ ⟨⟩
        refine ⟨isGood, fun off inside => ?_⟩
        unfold Ucopy.setCachedRaddrIdx
        dsimp only
        rw [update_self]
        exact if_pos inside
      · rintro _ ⟨⟩

/-- The pages that can be read are good ones. -/
def GoodPages (k : Kernel g) (good : Nat → Prop) : Prop :=
  ∀ page, page % g.pageSize = 0 → ∀ n, k.readv page g.pageSize = .ok n → good page

structure Reads (k : Kernel g) (mem : Memory) (good : Nat → Prop) (addr len total n : Nat)
    (result : Ucopy × List UInt8 × Except Errno Nat) : Prop where
  valid : result.1.Valid g good mem
  bound : n ≤ len
  stored : result.2.1 = mem.bytes g addr n
  good : ∀ j < n, good (g.pageStart (addr + j))
  rc : n = len ∧ result.2.2 = .ok (total + len) ∨
    n < len ∧ ∃ e, k.readv (g.pageStart (addr + n)) g.pageSize = .error e ∧
      result.2.2 = if total + n ≠ 0 then .ok (total + n) else .error e

variable {addr len : Nat}

theorem Reads.append {total m n : Nat} {result : Ucopy × List UInt8 × Except Errno Nat}
    (short : m < len) (goodBytes : ∀ j < m, good (g.pageStart (addr + j)))
    (rest : Reads k mem good (addr + m) (len - m) (total + m) n result) :
    Reads k mem good addr len total (m + n)
      (result.1, mem.bytes g addr m ++ result.2.1, result.2.2) := by
  have bound := rest.bound
  refine ⟨rest.valid, by omega, ?_, ?_, ?_⟩
  · rw [Memory.bytes_append, ← rest.stored]
  · intro j below
    by_cases here : j < m
    · exact goodBytes j here
    · have later := rest.good (j - m) (by omega)
      rwa [show addr + m + (j - m) = addr + j by omega] at later
  · rcases rest.rc with ⟨whole, answer⟩ | ⟨stops, e, stuck, answer⟩
    · refine .inl ⟨by omega, answer.trans ?_⟩
      rw [show total + m + (len - m) = total + len by omega]
    · refine .inr ⟨by omega, e, ?_, answer.trans ?_⟩
      · simpa [← Nat.add_assoc] using stuck
      · rw [Nat.add_assoc]

theorem vmReadLoop_reads (isGood : GoodPages k good) {fuel taddr pageStart : Nat}
    (valid : s.Valid g good mem) (enough : len ≤ fuel) (positive : 0 < len)
    (nonzero : pageStart ≠ 0) (aligned : pageStart % g.pageSize = 0) (low : pageStart ≤ taddr)
    (high : taddr < pageStart + g.pageSize) (inside : taddr + len ≤ g.space) (total : Nat) :
    ∃ n, Reads k mem good taddr len total n
      (vmReadLoop k mem fuel s taddr pageStart len total) := by
  induction fuel generalizing s taddr pageStart len total with
  | zero => omega
  | succ fuel ih =>
    obtain ⟨valid', loaded, failed⟩ :=
      loadPage_valid valid nonzero aligned (isGood pageStart aligned)
    unfold vmReadLoop
    generalize loadPage k mem s pageStart = load at valid' loaded failed
    obtain ⟨u, answer⟩ := load
    cases answer with
    | error e =>
      refine ⟨0, valid', Nat.zero_le _, rfl, fun j below => absurd below (Nat.not_lt_zero j), ?_⟩
      refine .inr ⟨positive, e, ?_, rfl⟩
      rw [Nat.add_zero, Geometry.pageStart_eq aligned low high]
      exact failed e rfl
    | ok idx =>
      obtain ⟨goodPage, holds⟩ := loaded idx rfl
      dsimp only at valid' holds ⊢
      have copied (m : Nat) (fits : m ≤ g.pageSize - (taddr - pageStart)) :
          (List.range m).map (fun j => u.buf idx (taddr - pageStart + j)) =
            mem.bytes g taddr m := by
        refine List.map_congr_left fun j mem => ?_
        have below := List.mem_range.mp mem
        rw [holds _ (by omega)]
        congr 2
        omega
      have goodBytes (m : Nat) (fits : m ≤ g.pageSize - (taddr - pageStart)) (j : Nat)
          (below : j < m) : good (g.pageStart (taddr + j)) := by
        rw [Geometry.pageStart_eq aligned (by omega) (by omega)]
        exact goodPage
      by_cases last : len ≤ g.pageSize - (taddr - pageStart)
      · rw [if_pos last, if_pos last]
        exact ⟨len, valid', Nat.le_refl _, copied len last, goodBytes len last, .inl ⟨rfl, rfl⟩⟩
      · rw [if_neg last, if_neg last, if_neg (by omega), copied _ (Nat.le_refl _)]
        have goodBytes := goodBytes _ (Nat.le_refl _)
        generalize room : g.pageSize - (taddr - pageStart) = m at last goodBytes
        have next : pageStart + g.pageSize = taddr + m := by omega
        have aligned' : (taddr + m) % g.pageSize = 0 := by
          rw [← next, Nat.add_mod_right, aligned]
        rw [next, Nat.mod_eq_of_lt (show taddr + m < g.space by omega)]
        obtain ⟨n, rest⟩ := ih valid' (by omega) (Nat.sub_pos_of_lt (Nat.lt_of_not_le last))
          (by omega) aligned' (Nat.le_refl _) (Nat.lt_add_of_pos_right Geometry.pageSize_pos)
          (show taddr + m + (len - m) ≤ g.space by omega) (total + m)
        exact ⟨m + n, rest.append (Nat.lt_of_not_le last) goodBytes⟩

theorem cached_inside (low : addr < g.space) (small : len < g.space / 2)
    (cached : g.cached addr len = true) : addr + len ≤ g.space := by
  have fit := g.pages_fit
  obtain ⟨-, ordered, -⟩ := of_decide_eq_true cached
  unfold Geometry.pageAfterLast Geometry.pageStart at ordered
  have offset := g.offset_lt addr
  by_contra beyond
  have wrapped : (addr + len + (g.pageSize - 1)) % g.space =
      addr + len + (g.pageSize - 1) - g.space := by
    rw [Nat.mod_eq_sub_mod (by omega), Nat.mod_eq_of_lt (by omega)]
  omega

theorem vmReadMem_cached (isGood : GoodPages k good) (valid : s.Valid g good mem)
    (positive : 0 < len) (low : addr < g.space) (small : len < g.space / 2)
    (cached : g.cached addr len = true) :
    ∃ n, Reads k mem good addr len 0 n (vmReadMem k mem s addr len) := by
  have start := g.pageStart_add addr
  have offset := g.offset_lt addr
  unfold vmReadMem
  rw [if_neg (Nat.ne_of_gt positive), if_pos cached]
  refine vmReadLoop_reads isGood valid (Nat.le_refl _) positive (of_decide_eq_true cached).1
    (Geometry.pageStart_mod addr) (by omega) (by omega) (cached_inside low small cached) 0

theorem vmReadMem_direct (positive : 0 < len) (direct : g.cached addr len = false) :
    (vmReadMem k mem s addr len).1 = (s.processReadMem k addr len).1 ∧
      (vmReadMem k mem s addr len).2 =
        match k.readv addr len with
        | .ok n => (mem.bytes g addr n, .ok n)
        | .error e => ([], .error e) := by
  unfold vmReadMem
  rw [if_neg (Nat.ne_of_gt positive), direct,
    ← (processReadMem_eq k s addr len).1]
  generalize s.processReadMem k addr len = read
  obtain ⟨u, rc⟩ := read
  cases rc <;> exact ⟨rfl, rfl⟩

theorem vmReadMem_valid (isGood : GoodPages k good) (valid : s.Valid g good mem)
    (low : addr < g.space) (small : len < g.space / 2) :
    (vmReadMem k mem s addr len).1.Valid g good mem := by
  rcases Nat.eq_zero_or_pos len with rfl | positive
  · exact valid
  · cases cached : g.cached addr len with
    | true =>
      obtain ⟨n, reads⟩ := vmReadMem_cached isGood valid positive low small cached
      exact reads.valid
    | false =>
      rw [(vmReadMem_direct positive cached).1]
      exact valid.of_eq (processReadMem_eq k s addr len).2

/-! ## Any number of reads -/

open Runs (Run)

def ReadStep (k : Kernel g) (mem : Memory) (s : Ucopy) (call : Nat × Nat) (s' : Ucopy) : Prop :=
  s' = (vmReadMem k mem s call.1 call.2).1

def Readable (g : Geometry) (_ : Ucopy) (call : Nat × Nat) : Prop :=
  call.1 < g.space ∧ call.2 < g.space / 2

theorem valid_of_run (isGood : GoodPages k good)
    (run : Run (fun s => s.cachedIdx = none) (ReadStep k mem) (Readable g) s) :
    s.Valid g good mem := by
  refine run.invariant (fun s fresh used => absurd fresh used) ?_
  rintro s call _ valid ⟨low, small⟩ rfl
  exact vmReadMem_valid isGood valid low small

/-- After any reads of a memory that does not change, a slot in use holds its page, and
a read through the cache gives the bytes before the first page that cannot be read. -/
theorem cached_reads_exact (k : Kernel g) (mem : Memory) (readable : Nat → Bool)
    (pages : ∀ page, page % g.pageSize = 0 →
      ((∃ n, k.readv page g.pageSize = .ok n) ↔ readable page = true))
    (s : Ucopy) (run : Run (fun s => s.cachedIdx = none) (ReadStep k mem) (Readable g) s) :
    (s.cachedIdx ≠ none → ∀ i, s.cachedRaddr i ≠ 0 → ∀ off < g.pageSize,
      s.buf i off = mem ((s.cachedRaddr i + off) % g.space)) ∧
    ∀ addr len, addr < g.space → 0 < len → len < g.space / 2 → g.cached addr len = true →
      ((∀ j < len, readable (g.pageStart (addr + j)) = true) →
        (vmReadMem k mem s addr len).2 = (mem.bytes g addr len, .ok len)) ∧
      ∀ n < len, (∀ j < n, readable (g.pageStart (addr + j)) = true) →
        readable (g.pageStart (addr + n)) = false →
        (vmReadMem k mem s addr len).2.1 = mem.bytes g addr n ∧
          if 0 < n then (vmReadMem k mem s addr len).2.2 = .ok n
          else ∃ e, (vmReadMem k mem s addr len).2.2 = .error e := by
  have isGood : GoodPages k (readable · = true) :=
    fun page aligned n read => (pages page aligned).mp ⟨n, read⟩
  have valid := valid_of_run isGood run
  refine ⟨fun used i nonzero => (valid used i nonzero).2, ?_⟩
  intro addr len low positive small cached
  obtain ⟨n, -, bound, stored, goodBytes, rc⟩ :=
    vmReadMem_cached isGood valid positive low small cached
  have stops (short : n < len) (e : Errno)
      (stuck : k.readv (g.pageStart (addr + n)) g.pageSize = .error e) :
      readable (g.pageStart (addr + n)) = false := by
    rw [Bool.eq_false_iff, ne_eq, ← pages _ (Geometry.pageStart_mod _), stuck]
    rintro ⟨_, ⟨⟩⟩
  generalize vmReadMem k mem s addr len = result at stored rc
  obtain ⟨_, bytes, answer⟩ := result
  subst stored
  constructor
  · intro all
    rcases rc with ⟨rfl, rfl⟩ | ⟨short, e, stuck, -⟩
    · rw [Nat.zero_add]
    · have contrary := (all n short).symm.trans (stops short e stuck)
      cases contrary
  · intro m short before unreadable
    have same : n = m := by
      rcases Nat.lt_trichotomy n m with less | same | more
      · rcases rc with ⟨whole, -⟩ | ⟨short', e, stuck, -⟩
        · omega
        · have contrary := (before n less).symm.trans (stops short' e stuck)
          cases contrary
      · exact same
      · have contrary := (goodBytes m more).symm.trans unreadable
        cases contrary
    subst same
    refine ⟨rfl, ?_⟩
    rcases rc with ⟨whole, -⟩ | ⟨-, e, -, rfl⟩
    · omega
    · rw [Nat.zero_add]
      split
      · next some => exact if_pos (Nat.ne_of_gt some)
      · next none => exact ⟨e, if_neg (by omega)⟩

end Ucopy

/-! ## A kernel -/

def Geometry.rangeReadable (readable : Nat → Bool) (addr len : Nat) : Bool :=
  (List.range ((addr % g.pageSize + len + (g.pageSize - 1)) / g.pageSize)).all fun i =>
    readable (g.pageStart addr + i * g.pageSize)

def pageKernel (readable : Nat → Bool) : Kernel g where
  readv addr len := if g.rangeReadable readable addr len then .ok len else .error .efault
  writev addr len := if g.rangeReadable readable addr len then .ok len else .error .efault
  peek addr := if readable (g.pageStart addr) then none else some .eio
  poke addr := if readable (g.pageStart addr) then none else some .eio
  readv_bounds := by
    intro addr len n positive answer
    split at answer <;> cases answer
    exact ⟨positive, Nat.le_refl _⟩
  readv_page := by
    intro addr n _ answer
    split at answer <;> cases answer
    rfl
  writev_bounds := by
    intro addr len n answer
    split at answer <;> cases answer
    exact Nat.le_refl _

variable {g : Geometry}

theorem rangeReadable_page (readable : Nat → Bool) {addr len : Nat} (positive : 0 < len)
    (fits : addr % g.pageSize + len ≤ g.pageSize) :
    g.rangeReadable readable addr len = readable (g.pageStart addr) := by
  have one : (addr % g.pageSize + len + (g.pageSize - 1)) / g.pageSize = 1 :=
    Nat.div_eq_of_lt_le (by omega) (by omega)
  unfold Geometry.rangeReadable
  rw [one]
  simp

theorem pageKernel_page (readable : Nat → Bool) {page : Nat} (aligned : page % g.pageSize = 0) :
    (∃ n, (pageKernel g readable).readv page g.pageSize = .ok n) ↔ readable page = true := by
  have start :=
    Geometry.pageStart_eq aligned (Nat.le_refl _) (Nat.lt_add_of_pos_right Geometry.pageSize_pos)
  have range : g.rangeReadable readable page g.pageSize = readable page := by
    rw [rangeReadable_page readable Geometry.pageSize_pos (by omega), start]
  unfold pageKernel
  dsimp only
  rw [range]
  split
  · next able => exact ⟨fun _ => able, fun _ => ⟨_, rfl⟩⟩
  · next unable => exact ⟨by rintro ⟨_, ⟨⟩⟩, fun able => absurd able unable⟩

/-- 64-bit addresses and pages of 4096 bytes. -/
def x8664 : Geometry := ⟨64, 12, .inr rfl, by decide⟩

/-- Pages 1 and 2 can be read. -/
def twoPages (page : Nat) : Bool := page = 0x1000 || page = 0x2000

namespace Ucopy

/-- A read that crosses from page 1 to page 2, and then one that goes on to page 3. -/
theorem cached_reads_exact_partial :
    (vmReadMem (pageKernel x8664 twoPages) (UInt8.ofNat ·)
      (vmReadMem (pageKernel x8664 twoPages) (UInt8.ofNat ·) {} 0x1ffe 4).1 0x2ffe 4).2.1 =
        [0xfe, 0xff] := by
  have run : Runs.Run (fun s => s.cachedIdx = none)
      (ReadStep (pageKernel x8664 twoPages) (UInt8.ofNat ·)) (Readable x8664)
      (vmReadMem (pageKernel x8664 twoPages) (UInt8.ofNat ·) {} 0x1ffe 4).1 :=
    .next (x := (0x1ffe, 4)) (.start rfl) ⟨by decide, by decide⟩ rfl
  have exact := (cached_reads_exact _ _ twoPages (fun _ => pageKernel_page twoPages) _ run).2
    0x2ffe 4 (by decide) (by decide) (by decide) (by decide)
  exact (exact.2 2 (by decide) (by decide) (by decide)).1

end Ucopy

end Strace
