import Mathlib.Algebra.Group.Int.Defs
import Strace.Ucopy.VmReadMem

/-! `umoven` and `umovestr` of `ucopy.c`, and what `umovestr` is for. -/
namespace Strace
open List

/-- A `long` that is returned as an `int`. -/
def asInt (n : Nat) : Int :=
  if n % 2 ^ 32 < 2 ^ 31 then (n % 2 ^ 32 : Nat) else (n % 2 ^ 32 : Nat) - 2 ^ 32

variable (g : Geometry)

def traceeAddrIsInvalid (currentWordsize addr : Nat) : Bool :=
  decide (currentWordsize < g.wordSize ∧ 2 ^ 32 ≤ addr)

/-- `addr & -sizeof(long)` -/
def Geometry.wordStart (addr : Nat) : Nat := addr - addr % g.wordSize

namespace Ucopy

variable {g : Geometry} (k : Kernel g) (mem : Memory)

def umovenPeekLoop : (fuel addr residue len : Nat) → List UInt8 × Int
  | 0, _, _, _ => ([], 0)
  | fuel + 1, addr, residue, len =>
    if len = 0 then ([], 0)
    else
      let addr := g.wordStart addr
      match k.peek addr with
      | some _ => ([], -1)
      | none =>
        let m := min (g.wordSize - residue) len
        let (stored, rc) := umovenPeekLoop fuel ((addr + g.wordSize) % g.space) 0 (len - m)
        (mem.bytes g (addr + residue) m ++ stored, rc)

def umovenPeekdata (addr len : Nat) : List UInt8 × Int :=
  umovenPeekLoop k mem len addr (addr % g.wordSize) len

def umovenFallback (addr len : Nat) (stored : List UInt8) : (errno : Errno) → List UInt8 × Int
  | .enosys => umovenPeekdata k mem addr len
  | .eperm => umovenPeekdata k mem addr len
  | _ => (stored, -1)

def umoven (s : Ucopy) (errno : Errno) (currentWordsize addr len : Nat) :
    Ucopy × List UInt8 × Int :=
  if traceeAddrIsInvalid g currentWordsize addr then (s, [], -1)
  else if s.processVmReadvNotSupported then (s, umovenPeekdata k mem addr len)
  else
    match vmReadMem k mem s addr len with
    | (s, stored, .ok r) =>
      if r = len then (s, stored, 0)
      else if asInt r ≥ 0 then (s, stored, -1)
      else (s, umovenFallback k mem addr len stored errno)
    | (s, stored, .error e) =>
      if len = 2 ^ 32 - 1 then (s, stored, 0)
      else (s, umovenFallback k mem addr len stored e)

def umovestrPeekLoop : (fuel addr residue len done : Nat) → List UInt8 × Int
  | 0, _, _, _, _ => ([], 0)
  | fuel + 1, addr, residue, len, done =>
    if len = 0 then ([], 0)
    else
      let addr := g.wordStart addr
      match k.peek addr with
      | some _ => ([], -1)
      | none =>
        let m := min (g.wordSize - residue) len
        match (mem.bytes g (addr + residue) (g.wordSize - residue)).idxOf? 0 with
        | some i => (mem.bytes g (addr + residue) m, asInt (done + (residue + i + 1)))
        | none =>
          let (stored, rc) :=
            umovestrPeekLoop fuel ((addr + g.wordSize) % g.space) 0 (len - m) (done + m)
          (mem.bytes g (addr + residue) m ++ stored, rc)

def umovestrPeekdata (addr len : Nat) : List UInt8 × Int :=
  umovestrPeekLoop k mem len addr (addr % g.wordSize) len 0

def chunkLen (g : Geometry) (addr len : Nat) : Nat :=
  let chunk := if len > g.pageSize then g.pageSize else len
  let endInPage := (addr + chunk) % g.space % g.pageSize
  if chunk > endInPage then chunk - endInPage else chunk

def umovestrLoop : (fuel : Nat) → Ucopy → (addr len nread : Nat) → Ucopy × List UInt8 × Int
  | 0, s, _, _, _ => (s, [], 0)
  | fuel + 1, s, addr, len, nread =>
    if len = 0 then (s, [], 0)
    else
      match vmReadMem k mem s addr (chunkLen g addr len) with
      | (s, chunk, .ok r) =>
        match chunk.idxOf? 0 with
        | some i => (s, chunk, asInt (nread + i + 1))
        | none =>
          let (s, stored, rc) :=
            umovestrLoop fuel s ((addr + r) % g.space) (len - r) (nread + r)
          (s, chunk ++ stored, rc)
      | (s, chunk, .error e) =>
        match e, nread with
        | .enosys, 0 => (s, umovestrPeekdata k mem addr len)
        | .eperm, 0 => (s, umovestrPeekdata k mem addr len)
        | _, _ => (s, chunk, -1)

def umovestr (s : Ucopy) (currentWordsize addr len : Nat) : Ucopy × List UInt8 × Int :=
  if traceeAddrIsInvalid g currentWordsize addr then (s, [], -1)
  else if s.processVmReadvNotSupported then (s, umovestrPeekdata k mem addr len)
  else umovestrLoop k mem len s addr len 0

end Ucopy

/-! ## The contract -/

inductive Scan where
  | nul (j : Nat)
  | full
  | stuck (j : Nat)
  deriving DecidableEq, Repr

def Scan.shift (m : Nat) : Scan → Scan
  | .nul j => .nul (m + j)
  | .full => .full
  | .stuck j => .stuck (m + j)

def scan (g : Geometry) (mem : Memory) (readable : Nat → Bool) : (addr len : Nat) → Scan
  | _, 0 => .full
  | addr, len + 1 =>
    if readable (g.pageStart (addr % g.space)) = false then .stuck 0
    else if mem (addr % g.space) = 0 then .nul 0
    else (scan g mem readable (addr + 1) len).shift 1

/-- What `umovestr` should store and return. -/
def Contract (mem : Memory) (readable : Nat → Bool) (addr len : Nat)
    (stored : List UInt8) (rc : Int) : Prop :=
  stored.length ≤ len ∧
    match scan g mem readable addr len with
    | .nul j => rc = j + 1 ∧ stored.take (j + 1) = mem.bytes g addr (j + 1)
    | .full => rc = 0 ∧ stored = mem.bytes g addr len
    | .stuck _ => rc < 0

def ReadsPages (k : Kernel g) (readable : Nat → Bool) : Prop :=
  ∀ addr len, 0 < len → addr % g.pageSize + len ≤ g.pageSize →
    k.readv addr len = if readable (g.pageStart addr) then .ok len else .error .efault

def PeeksPages (k : Kernel g) (readable : Nat → Bool) : Prop :=
  ∀ addr, addr % g.wordSize = 0 → (k.peek addr = none ↔ readable (g.pageStart addr) = true)

inductive CodePath where
  | vmReadv
  | peekdata
  deriving DecidableEq, Repr

def Takes (k : Kernel g) (readable : Nat → Bool) (s : Ucopy) : CodePath → Prop
  | .vmReadv => s.processVmReadvNotSupported = false ∧ ReadsPages g k readable
  | .peekdata => PeeksPages g k readable ∧
      (s.processVmReadvNotSupported = true ∨ s.cachedIdx = none ∧
        ∃ e, (e = .enosys ∨ e = .eperm) ∧ ∀ addr len, 0 < len → k.readv addr len = .error e)

def Geometry.inWords (residue len : Nat) : Nat :=
  if len = 0 then 0 else (residue + len + (g.wordSize - 1)) / g.wordSize * g.wordSize - residue

def Geometry.skew (residue j : Nat) : Nat :=
  if j < g.wordSize - residue then residue else 0

def Exact (mem : Memory) (readable : Nat → Bool) (currentWordsize addr len : Nat)
    (path : CodePath) : Prop :=
  if traceeAddrIsInvalid g currentWordsize addr then ∃ j, scan g mem readable addr len = .stuck j
  else
    match path with
    | .vmReadv => ∀ j, scan g mem readable addr len = .nul j → j + 1 < 2 ^ 31
    | .peekdata =>
      let residue := addr % g.wordSize
      ∀ j, scan g mem readable addr (g.inWords residue len) = .nul j →
        if j < len then j + 1 < 2 ^ 31 ∧ g.skew residue j = 0
        else j + 1 + g.skew residue j = 2 ^ 32

/-! ## Searches -/

section

variable {g : Geometry} {mem : Memory} {readable : Nat → Bool}

theorem Scan.shift_shift (m n : Nat) (found : Scan) :
    (found.shift n).shift m = found.shift (m + n) := by
  cases found <;> simp [Scan.shift, Nat.add_assoc]

variable {a b addr len : Nat}

theorem scan_congr (same : a % g.space = b % g.space) (len : Nat) :
    scan g mem readable a len = scan g mem readable b len := by
  induction len generalizing a b with
  | zero => rfl
  | succ len ih =>
    have next : (a + 1) % g.space = (b + 1) % g.space := by rw [Nat.add_mod, same, ← Nat.add_mod]
    unfold scan
    rw [same, ih next]

theorem bytes_congr (same : a % g.space = b % g.space) (len : Nat) :
    mem.bytes g a len = mem.bytes g b len := by
  refine map_congr_left fun j _ => ?_
  rw [Nat.add_mod, same, ← Nat.add_mod]

theorem scan_add (addr m n : Nat) : scan g mem readable addr (m + n) =
    if scan g mem readable addr m = .full then (scan g mem readable (addr + m) n).shift m
    else scan g mem readable addr m := by
  induction m generalizing addr with
  | zero =>
    rw [Nat.zero_add, scan]
    cases scan g mem readable (addr + 0) n <;> simp [Scan.shift]
  | succ m ih =>
    rw [Nat.add_right_comm, scan, scan]
    split
    · simp
    · split
      · simp
      · rw [ih, show addr + 1 + m = addr + (m + 1) by omega]
        have full : (scan g mem readable (addr + 1) m).shift 1 = .full ↔
            scan g mem readable (addr + 1) m = .full := by
          cases scan g mem readable (addr + 1) m <;> simp [Scan.shift]
        by_cases found : scan g mem readable (addr + 1) m = .full
        · rw [if_pos found, if_pos (full.mpr found), Scan.shift_shift, Nat.add_comm]
        · rw [if_neg found, if_neg (full.not.mpr found)]

theorem scan_nul_lt {j : Nat} (found : scan g mem readable addr len = .nul j) : j < len := by
  induction len generalizing addr j with
  | zero => cases found
  | succ len ih =>
    unfold scan at found
    split at found
    · cases found
    · split at found
      · grind
      · cases later : scan g mem readable (addr + 1) len with
        | nul i =>
          rw [later] at found
          cases found
          have := ih later
          omega
        | full | stuck =>
          rw [later] at found
          cases found

/-- The result of a search by `memchr`. -/
def Scan.ofFound : Option Nat → Scan
  | some j => .nul j
  | none => .full

theorem scan_readable (able : ∀ j < len, readable (g.pageStart ((addr + j) % g.space)) = true) :
    scan g mem readable addr len = .ofFound ((mem.bytes g addr len).idxOf? 0) := by
  induction len generalizing addr with
  | zero => rfl
  | succ len ih =>
    have first := able 0 (Nat.succ_pos len)
    have later : scan g mem readable (addr + 1) len =
        .ofFound ((mem.bytes g (addr + 1) len).idxOf? 0) := by
      refine ih fun j below => ?_
      rw [show addr + 1 + j = addr + (j + 1) by omega]
      exact able (j + 1) (Nat.succ_lt_succ below)
    have bytes : mem.bytes g addr (len + 1) =
        mem (addr % g.space) :: mem.bytes g (addr + 1) len := by
      rw [Nat.add_comm len 1, Memory.bytes_append]
      rfl
    rw [bytes, idxOf?_cons, scan, if_neg (by simpa using first), later]
    by_cases zero : mem (addr % g.space) = 0
    · rw [if_pos zero, if_pos (beq_iff_eq.mpr zero)]
      rfl
    · rw [if_neg zero, if_neg (by simpa using zero)]
      cases (mem.bytes g (addr + 1) len).idxOf? 0 with
      | none => rfl
      | some j =>
        simp [Scan.ofFound, Scan.shift, Option.map_some, Nat.add_comm]

variable (g mem readable) in
theorem scan_shorter (addr len extra : Nat) :
    (∀ j, scan g mem readable addr (len + extra) = .nul j →
      scan g mem readable addr len = if j < len then .nul j else .full) ∧
    (scan g mem readable addr (len + extra) = .full → scan g mem readable addr len = .full) ∧
    ∀ j < len, scan g mem readable addr (len + extra) = .stuck j →
      scan g mem readable addr len = .stuck j := by
  rw [scan_add]
  cases here : scan g mem readable addr len with
  | nul i =>
    refine ⟨?_, by simp, by simp⟩
    rintro _ ⟨⟩
    rw [if_pos (scan_nul_lt here)]
  | full =>
    cases scan g mem readable (addr + len) extra with
    | nul i =>
      simp [Scan.shift]
    | full => simp [Scan.shift]
    | stuck i =>
      refine ⟨by simp [Scan.shift], fun _ => rfl, ?_⟩
      rintro _ before ⟨⟩
      omega
  | stuck i => simp

theorem scan_unreadable (positive : 0 < len)
    (unable : readable (g.pageStart (addr % g.space)) = false) :
    scan g mem readable addr len = .stuck 0 := by
  obtain ⟨n, rfl⟩ := Nat.exists_eq_add_of_lt positive
  rw [scan, if_pos unable]

theorem bytes_take (addr m n : Nat) :
    (mem.bytes g addr n).take m = mem.bytes g addr (min m n) := by
  simp [← map_take, Memory.bytes]

end

/-! ## Parts of pages -/

namespace Geometry

variable {g : Geometry}

theorem add_le_of_dvd {d a n : Nat} (start : d ∣ a) (finish : d ∣ n) (before : a < n) :
    a + d ≤ n := by
  have gap := Nat.le_of_dvd (Nat.sub_pos_of_lt before) (Nat.dvd_sub finish start)
  omega

variable {addr len : Nat}

theorem pageStart_inside {j : Nat} (fits : addr % g.pageSize + j < g.pageSize) :
    g.pageStart (addr + j) = g.pageStart addr := by
  have start := g.pageStart_add addr
  exact pageStart_eq (g.pageStart_mod addr) (by omega) (by omega)

theorem page_in_space (low : addr < g.space) (fits : addr % g.pageSize + len ≤ g.pageSize) :
    addr + len ≤ g.space := by
  have start := g.pageStart_add addr
  have whole :=
    add_le_of_dvd (Nat.dvd_of_mod_eq_zero (g.pageStart_mod addr)) pageSize_dvd_space (by omega)
  omega

theorem wordSize_pow : ∃ n, n ≤ 3 ∧ g.wordSize = 2 ^ n := by
  unfold wordSize
  rcases g.long with long | long
  · exact ⟨2, by decide, by rw [long]; rfl⟩
  · exact ⟨3, by decide, by rw [long]; rfl⟩

theorem wordSize_dvd_pageSize : g.wordSize ∣ g.pageSize := by
  obtain ⟨n, small, size⟩ := g.wordSize_pow
  rw [size]
  exact Nat.pow_dvd_pow 2 (Nat.le_trans small g.page.1)

theorem wordSize_pos : 0 < g.wordSize := by
  obtain ⟨n, -, size⟩ := g.wordSize_pow
  rw [size]
  exact Nat.two_pow_pos n

theorem word_in_page (aligned : addr % g.wordSize = 0) :
    addr % g.pageSize + g.wordSize ≤ g.pageSize := by
  have offset := (Nat.dvd_mod_iff g.wordSize_dvd_pageSize).mpr (Nat.dvd_of_mod_eq_zero aligned)
  exact add_le_of_dvd offset wordSize_dvd_pageSize (g.offset_lt addr)

theorem wordStart_add (addr : Nat) : g.wordStart addr + addr % g.wordSize = addr :=
  Nat.sub_add_cancel (Nat.mod_le _ _)

theorem wordStart_mod (addr : Nat) : g.wordStart addr % g.wordSize = 0 :=
  Nat.sub_mod_eq_zero_of_mod_eq (Nat.mod_mod _ _).symm

theorem restOfWord_in_page (addr : Nat) : g.pageStart (g.wordStart addr) = g.pageStart addr ∧
    addr % g.pageSize + (g.wordSize - addr % g.wordSize) ≤ g.pageSize := by
  have inside : addr % g.wordSize < g.wordSize := Nat.mod_lt _ g.wordSize_pos
  have word := g.word_in_page (g.wordStart_mod addr)
  have same : g.pageStart (g.wordStart addr + addr % g.wordSize) = g.pageStart (g.wordStart addr) :=
    pageStart_inside (by omega)
  have start := g.pageStart_add addr
  have wordPage := g.pageStart_add (g.wordStart addr)
  have wordStart := g.wordStart_add addr
  rw [wordStart] at same
  exact ⟨same.symm, by omega⟩

theorem wordSize_dvd_space : g.wordSize ∣ g.space :=
  Nat.dvd_trans g.wordSize_dvd_pageSize g.pageSize_dvd_space

theorem nextWord_mod (addr : Nat) :
    (g.wordStart addr + g.wordSize) % g.space % g.wordSize = 0 := by
  rw [Nat.mod_mod_of_dvd _ g.wordSize_dvd_space, Nat.add_mod_right, wordStart_mod]

theorem skew_lt (addr j : Nat) : g.skew (addr % g.wordSize) j < 8 := by
  obtain ⟨n, small, size⟩ := g.wordSize_pow
  have word := size ▸ Nat.pow_le_pow_right (by decide) small
  unfold skew
  split <;> omega

theorem inWords_bounds (residue len : Nat) :
    ∃ extra < 8, g.inWords residue len = len + extra := by
  refine ⟨g.inWords residue len - len, ?_⟩
  unfold inWords wordSize
  rcases g.long with long | long <;> rw [long] <;> split <;> omega

theorem inWords_eq {residue : Nat} (inside : residue < g.wordSize) (positive : 0 < len) :
    g.inWords residue len =
      g.wordSize - residue + g.inWords 0 (len - (g.wordSize - residue)) := by
  unfold inWords wordSize at *
  rw [if_neg (Nat.ne_of_gt positive)]
  rcases g.long with long | long <;> rw [long] at inside ⊢ <;> split <;> omega

theorem chunkLen_bounds (addr : Nat) (positive : 0 < len) :
    0 < Ucopy.chunkLen g addr len ∧ Ucopy.chunkLen g addr len ≤ len ∧
      addr % g.pageSize + Ucopy.chunkLen g addr len ≤ g.pageSize := by
  have offset := g.offset_lt addr
  obtain ⟨chunk, isChunk⟩ : ∃ chunk, chunk = if len > g.pageSize then g.pageSize else len :=
    ⟨_, rfl⟩
  have bounds : 0 < chunk ∧ chunk ≤ len ∧ chunk ≤ g.pageSize := by
    rw [isChunk]
    split <;> omega
  have finish : (addr + chunk) % g.space % g.pageSize =
      (addr % g.pageSize + chunk) % g.pageSize := by
    rw [Nat.mod_mod_of_dvd _ pageSize_dvd_space, Nat.mod_add_mod]
  unfold Ucopy.chunkLen
  dsimp only
  rw [← isChunk, finish]
  by_cases inside : addr % g.pageSize + chunk < g.pageSize
  · rw [Nat.mod_eq_of_lt inside, if_neg (by omega)]
    omega
  · have wrapped : (addr % g.pageSize + chunk) % g.pageSize =
        addr % g.pageSize + chunk - g.pageSize := by
      rw [Nat.mod_eq_sub_mod (by omega)]
      exact Nat.mod_eq_of_lt (by omega)
    split <;> omega

end Geometry

section

variable {g : Geometry} {mem : Memory} {readable : Nat → Bool} {addr len m : Nat}
  {value value' : Nat → Int} {found : Scan} {result : List UInt8 × Int}

theorem scan_page (low : addr < g.space) (fits : addr % g.pageSize + len ≤ g.pageSize)
    (able : readable (g.pageStart addr) = true) :
    scan g mem readable addr len = .ofFound ((mem.bytes g addr len).idxOf? 0) := by
  refine scan_readable fun j below => ?_
  have inside := Geometry.page_in_space low fits
  rw [Nat.mod_eq_of_lt (by omega), Geometry.pageStart_inside (by omega)]
  exact able

/-! ## The two code paths -/

def Gives (g : Geometry) (mem : Memory) (addr len : Nat) (value : Nat → Int) :
    Scan → List UInt8 × Int → Prop
  | .nul j, result => result.2 = value j ∧ result.1.length ≤ len ∧
      result.1.take (j + 1) = mem.bytes g addr (min (j + 1) len)
  | .full, result => result.2 = 0 ∧ result.1 = mem.bytes g addr len
  | .stuck j, result => result.2 = -1 ∧ result.1.length ≤ len ∧ j < len

theorem Gives.congr {b : Nat} (rest : Gives g mem addr len value found result)
    (same : addr % g.space = b % g.space) (values : ∀ j, value j = value' j) :
    Gives g mem b len value' found result := by
  cases found with
  | nul j =>
    obtain ⟨rc, short, copied⟩ := rest
    exact ⟨rc.trans (values j), short, copied.trans (bytes_congr same _)⟩
  | full =>
    obtain ⟨rc, copied⟩ := rest
    exact ⟨rc, copied.trans (bytes_congr same _)⟩
  | stuck j => exact rest

theorem Gives.append (bound : m ≤ len)
    (rest : Gives g mem (addr + m) (len - m) (fun j => value (m + j)) found result) :
    Gives g mem addr len value (found.shift m) (mem.bytes g addr m ++ result.1, result.2) := by
  have size (longer : result.1.length ≤ len - m) :
      (mem.bytes g addr m ++ result.1).length ≤ len := by
    rw [length_append, Memory.length_bytes]
    omega
  cases found with
  | nul j =>
    obtain ⟨rc, short, copied⟩ := rest
    refine ⟨rc, size short, ?_⟩
    rw [take_append, Memory.length_bytes, bytes_take, show m + j + 1 - m = j + 1 by omega,
      copied, Nat.min_eq_right (show m ≤ m + j + 1 by omega), ← Memory.bytes_append]
    congr 1
    omega
  | full =>
    obtain ⟨rc, copied⟩ := rest
    refine ⟨rc, ?_⟩
    rw [copied, ← Memory.bytes_append, Nat.add_sub_cancel' bound]
  | stuck j =>
    obtain ⟨rc, short, before⟩ := rest
    exact ⟨rc, size short, by omega⟩

end

namespace Ucopy

variable {g : Geometry} {k : Kernel g} {mem : Memory} {readable : Nat → Bool} {s : Ucopy}

theorem readPage_eq (reads : ReadsPages g k readable) {page : Nat}
    (aligned : page % g.pageSize = 0) :
    k.readv page g.pageSize = if readable page then .ok g.pageSize else .error .efault := by
  have positive := g.pageSize_pos
  have answer := reads page g.pageSize positive (by omega)
  rwa [Geometry.pageStart_eq aligned (Nat.le_refl _) (by omega)] at answer

theorem goodPages_of_readsPages (reads : ReadsPages g k readable) :
    GoodPages k (readable · = true) := by
  intro page aligned n answer
  rw [readPage_eq reads aligned] at answer
  by_contra unable
  rw [if_neg unable] at answer
  cases answer

variable {addr len fuel : Nat} {e : Errno}

theorem vmReadMem_inPage (reads : ReadsPages g k readable)
    (valid : s.Valid g (readable · = true) mem) (low : addr < g.space) (positive : 0 < len)
    (fits : addr % g.pageSize + len ≤ g.pageSize) :
    (vmReadMem k mem s addr len).1.Valid g (readable · = true) mem ∧
      (vmReadMem k mem s addr len).2 =
        if readable (g.pageStart addr) then (mem.bytes g addr len, .ok len)
        else ([], .error .efault) := by
  have fit := g.pages_fit
  have isGood := goodPages_of_readsPages reads
  refine ⟨vmReadMem_valid isGood valid low (by omega), ?_⟩
  cases cached : g.cached addr len with
  | false =>
    rw [(vmReadMem_direct positive cached).2, reads addr len positive fits]
    cases readable (g.pageStart addr) <;> rfl
  | true =>
    obtain ⟨n, -, bound, stored, goodBytes, rc⟩ :=
      vmReadMem_cached isGood valid positive low (by omega) cached
    have first (some : 0 < n) : readable (g.pageStart addr) = true := goodBytes 0 some
    generalize vmReadMem k mem s addr len = result at stored rc
    obtain ⟨u, bytes, answer⟩ := result
    subst stored
    rcases rc with ⟨rfl, rfl⟩ | ⟨short, e, stuck, rfl⟩
    · rw [if_pos (first positive), Nat.zero_add]
    · rw [Geometry.pageStart_inside (by omega), readPage_eq reads (g.pageStart_mod addr)] at stuck
      by_cases able : readable (g.pageStart addr) = true
      · grind
      · rw [if_neg able] at stuck ⊢
        cases stuck
        obtain rfl := Nat.eq_zero_of_not_pos fun some => able (first some)
        rfl

theorem umovestrLoop_gives (reads : ReadsPages g k readable)
    (valid : s.Valid g (readable · = true) mem) (enough : len ≤ fuel) (low : addr < g.space)
    (nread : Nat) :
    Gives g mem addr len (fun j => asInt (nread + j + 1)) (scan g mem readable addr len)
      (umovestrLoop k mem fuel s addr len nread).2 := by
  induction fuel generalizing s addr len nread with
  | zero =>
    obtain rfl : len = 0 := by omega
    exact ⟨rfl, rfl⟩
  | succ fuel ih =>
    unfold umovestrLoop
    rcases Nat.eq_zero_or_pos len with rfl | positive
    · exact ⟨rfl, rfl⟩
    · rw [if_neg (Nat.ne_of_gt positive)]
      obtain ⟨some, bound, fits⟩ := g.chunkLen_bounds addr positive
      generalize chunkLen g addr len = c at some bound fits
      -- A chunk lies in one page, so it is read as a whole or not at all.
      obtain ⟨valid', answer⟩ := vmReadMem_inPage reads valid low some fits
      generalize vmReadMem k mem s addr c = read at valid' answer
      obtain ⟨u, chunk, rc⟩ := read
      cases able : readable (g.pageStart addr) with
      | false =>
        rw [able] at answer
        cases answer
        rw [scan_unreadable positive (by rwa [Nat.mod_eq_of_lt low])]
        exact ⟨rfl, Nat.zero_le _, positive⟩
      | true =>
        rw [able] at answer
        cases answer
        have here : scan g mem readable addr c = _ := scan_page low fits able
        have split : scan g mem readable addr len = _ :=
          (congrArg _ (Nat.add_sub_cancel' bound).symm).trans (scan_add addr c (len - c))
        rw [split, here]
        dsimp only
        cases found : (mem.bytes g addr c).idxOf? 0 with
        | some i =>
          have inside := scan_nul_lt (here.trans (congrArg _ found))
          refine ⟨rfl, ?_, ?_⟩
          · simpa [Memory.length_bytes] using bound
          · rw [bytes_take, Nat.min_eq_left inside, Nat.min_eq_left (by omega)]
        | none =>
          have rest := ih valid' (show len - c ≤ fuel by omega)
            (Nat.mod_lt (addr + c) (Nat.two_pow_pos _)) (nread + c)
          rw [scan_congr (Nat.mod_mod _ _)] at rest
          refine Gives.append bound (rest.congr (Nat.mod_mod _ _) fun j => ?_)
          rw [Nat.add_assoc nread]

theorem umovestrPeekLoop_gives (peeks : PeeksPages g k readable) (enough : len ≤ fuel)
    (low : addr < g.space) (done : Nat) :
    Gives g mem addr len (fun j => asInt (done + g.skew (addr % g.wordSize) j + j + 1))
      (scan g mem readable addr (g.inWords (addr % g.wordSize) len))
      (umovestrPeekLoop k mem fuel addr (addr % g.wordSize) len done) := by
  induction fuel generalizing addr len done with
  | zero =>
    obtain rfl : len = 0 := by omega
    exact ⟨rfl, rfl⟩
  | succ fuel ih =>
    unfold umovestrPeekLoop
    rcases Nat.eq_zero_or_pos len with rfl | positive
    · exact ⟨rfl, rfl⟩
    · rw [if_neg (Nat.ne_of_gt positive)]
      have start := g.wordStart_add addr
      have inside : addr % g.wordSize < g.wordSize := Nat.mod_lt _ g.wordSize_pos
      have peek := peeks _ (g.wordStart_mod addr)
      obtain ⟨samePage, fits⟩ := g.restOfWord_in_page addr
      have rest := ih (show len - min (g.wordSize - addr % g.wordSize) len ≤ fuel by omega)
        (Nat.mod_lt (g.wordStart addr + g.wordSize) (Nat.two_pow_pos _))
        (done + min (g.wordSize - addr % g.wordSize) len)
      rw [g.nextWord_mod, scan_congr (Nat.mod_mod _ _)] at rest
      have whole := g.inWords_eq inside positive
      rw [samePage] at peek
      dsimp only
      rw [start, whole]
      generalize left : g.wordSize - addr % g.wordSize = w at *
      rw [show g.wordStart addr + g.wordSize = addr + w by omega] at rest ⊢
      cases answer : k.peek (g.wordStart addr) with
      | some e =>
        have unable : readable (g.pageStart addr) = false := by
          grind
        rw [scan_unreadable (by omega) (by rwa [Nat.mod_eq_of_lt low])]
        exact ⟨rfl, Nat.zero_le _, positive⟩
      | none =>
        have here : scan g mem readable addr w = _ := scan_page low fits (peek.mp answer)
        rw [scan_add, here]
        cases found : (mem.bytes g addr w).idxOf? 0 with
        | some i =>
          have below := scan_nul_lt (here.trans (congrArg _ found))
          refine ⟨?_, ?_, ?_⟩
          · have skew : g.skew (addr % g.wordSize) i = addr % g.wordSize := if_pos (by omega)
            dsimp only
            rw [skew, show done + (addr % g.wordSize + i + 1) =
              done + addr % g.wordSize + i + 1 by omega]
          · rw [Memory.length_bytes]
            exact Nat.min_le_right _ _
          · rw [bytes_take]
            congr 1
            omega
        | none =>
          -- The last word may go on past the `len` bytes, and the search with it.
          rcases Nat.le_total w len with more | last
          · rw [Nat.min_eq_left more] at rest ⊢
            refine Gives.append more (rest.congr (Nat.mod_mod _ _) fun j => ?_)
            have aligned : g.skew 0 j = 0 := by simp [Geometry.skew]
            have later : g.skew (addr % g.wordSize) (w + j) = 0 := if_neg (by omega)
            exact congrArg asInt (by omega)
          · rw [Nat.min_eq_right last, Nat.sub_self] at rest ⊢
            rw [Nat.sub_eq_zero_of_le last]
            obtain ⟨rc, copied⟩ := rest
            exact ⟨rc, (congrArg _ copied).trans (append_nil _)⟩

theorem vmReadMem_refused (empty : s.cachedIdx = none) (positive : 0 < len)
    (refuses : ∀ addr len, 0 < len → k.readv addr len = .error e) :
    (vmReadMem k mem s addr len).2 = ([], .error e) := by
  cases cached : g.cached addr len with
  | false => rw [(vmReadMem_direct positive cached).2, refuses addr len positive]
  | true =>
    obtain ⟨n, rfl⟩ := Nat.exists_eq_add_of_lt positive
    have looked : s.lookupCachedRaddrIdx (g.pageStart addr) = none := by
      simp [empty, lookupCachedRaddrIdx]
    have read := (processReadMem_eq k s (g.pageStart addr) g.pageSize).1
    rw [refuses _ _ g.pageSize_pos] at read
    have load : (loadPage k mem s (g.pageStart addr)).2 = .error e := by
      unfold loadPage
      rw [looked]
      generalize s.processReadMem k (g.pageStart addr) g.pageSize = answer at read
      obtain ⟨u, rc⟩ := answer
      obtain rfl := read
      rfl
    unfold vmReadMem
    rw [if_pos cached, vmReadLoop]
    generalize loadPage k mem s (g.pageStart addr) = loaded at load
    obtain ⟨u, rc⟩ := loaded
    obtain rfl := load
    rfl

theorem umovestrLoop_refused (fallback : e = .enosys ∨ e = .eperm) (empty : s.cachedIdx = none)
    (refuses : ∀ addr len, 0 < len → k.readv addr len = .error e) (addr len : Nat) :
    (umovestrLoop k mem len s addr len 0).2 = umovestrPeekdata k mem addr len := by
  cases len with
  | zero => rfl
  | succ len =>
    unfold umovestrLoop
    obtain ⟨some, -⟩ := g.chunkLen_bounds addr (Nat.succ_pos len)
    have answer : (vmReadMem k mem s addr (chunkLen g addr (len + 1))).2 = ([], .error e) :=
      vmReadMem_refused empty some refuses
    generalize vmReadMem k mem s addr (chunkLen g addr (len + 1)) = read at answer
    obtain ⟨u, rc⟩ := read
    obtain rfl := answer
    rcases fallback with rfl | rfl <;> rfl

end Ucopy

theorem asInt_eq (n : Nat) (positive : 0 < n) (bound : n < 2 ^ 32 + 2 ^ 31) :
    asInt n = if n < 2 ^ 31 then (n : Int) else n - 2 ^ 32 := by
  unfold asInt
  split <;> split <;> omega

variable {g : Geometry} {mem : Memory} {readable : Nat → Bool} {addr len : Nat}

theorem contract_iff {extra : Nat} {skew : Nat → Nat} {result : List UInt8 × Int}
    (small : len < 2 ^ 32) (near : extra < 8) (little : ∀ j, skew j < 8)
    (gives : Gives g mem addr len (fun j => asInt (skew j + j + 1))
      (scan g mem readable addr (len + extra)) result) :
    Contract g mem readable addr len result.1 result.2 ↔
      ∀ j, scan g mem readable addr (len + extra) = .nul j →
        if j < len then j + 1 < 2 ^ 31 ∧ skew j = 0 else j + 1 + skew j = 2 ^ 32 := by
  obtain ⟨nul, full, stuck⟩ := scan_shorter g mem readable addr len extra
  unfold Contract
  cases found : scan g mem readable addr (len + extra) with
  | nul j =>
    -- The zero byte may lie after the `len` bytes; then 0 would be the right result.
    rw [found] at gives
    obtain ⟨rc, short, copied⟩ := gives
    have below := scan_nul_lt found
    have few := little j
    replace rc := rc.trans (asInt_eq (skew j + j + 1) (by omega) (by omega))
    rw [nul j found]
    by_cases inside : j < len
    · rw [if_pos inside]
      constructor
      · grind
      · intro exact
        obtain ⟨fits, whole⟩ := if_pos inside ▸ exact j rfl
        refine ⟨short, ?_, ?_⟩
        · omega
        · rw [copied, Nat.min_eq_left inside]
    · have stored : result.1 = mem.bytes g addr len := by
        rwa [take_of_length_le (by omega), Nat.min_eq_right (by omega)] at copied
      rw [if_neg inside]
      constructor
      · rintro ⟨-, value, -⟩ _ ⟨⟩
        rw [if_neg inside]
        rw [rc] at value
        split at value <;> omega
      · intro exact
        have wraps := if_neg inside ▸ exact j rfl
        refine ⟨short, ?_, stored⟩
        omega
  | full =>
    rw [found] at gives
    obtain ⟨rc, copied⟩ := gives
    rw [full found]
    refine ⟨fun _ => by simp, fun _ => ⟨?_, rc, copied⟩⟩
    exact Nat.le_of_eq (copied ▸ Memory.length_bytes g mem addr len)
  | stuck j =>
    rw [found] at gives
    obtain ⟨rc, short, before⟩ := gives
    rw [stuck j before found]
    refine ⟨fun _ => by simp, fun _ => ⟨short, ?_⟩⟩
    omega

theorem pageKernel_readsPages (readable : Nat → Bool) :
    ReadsPages g (pageKernel g readable) readable := by
  intro addr len positive fits
  unfold pageKernel
  dsimp only
  rw [rangeReadable_page readable positive fits]

theorem pageKernel_peeksPages (readable : Nat → Bool) :
    PeeksPages g (pageKernel g readable) readable := by
  intro addr _
  unfold pageKernel
  dsimp only
  split
  · next able => exact ⟨fun _ => able, fun _ => rfl⟩
  · next unable => exact ⟨by rintro ⟨⟩, fun able => absurd able unable⟩

theorem Contract.scan_eq {j : Nat} {stored : List UInt8}
    (contract : Contract g mem readable addr len stored (j + 1)) :
    scan g mem readable addr len = .nul j := by
  obtain ⟨-, contract⟩ := contract
  split at contract
  · grind
  · omega
  · omega

/-- A string of five characters at 0x1000. -/
def fiveCharacters : Memory := fun addr => if addr = 0x1005 then 0 else 0x61

namespace Ucopy

/-- Without `process_vm_readv` the string "aa" at 0x1003 has 6 bytes, and there are 6 in
the first 4 bytes at 0x1000. -/
theorem umovestr_peekdata_miscounts :
    (¬ Contract x8664 fiveCharacters twoPages 0x1003 16
      (umovestr (pageKernel x8664 twoPages) fiveCharacters
        { processVmReadvNotSupported := true } 8 0x1003 16).2.1
      (umovestr (pageKernel x8664 twoPages) fiveCharacters
        { processVmReadvNotSupported := true } 8 0x1003 16).2.2) ∧
    ¬ Contract x8664 fiveCharacters twoPages 0x1000 4
      (umovestr (pageKernel x8664 twoPages) fiveCharacters
        { processVmReadvNotSupported := true } 8 0x1000 4).2.1
      (umovestr (pageKernel x8664 twoPages) fiveCharacters
        { processVmReadvNotSupported := true } 8 0x1000 4).2.2 := by
  have wrong {addr len : Nat} {stored : List UInt8} {rc : Int} (count : rc = (5 : Nat) + 1)
      (found : scan x8664 fiveCharacters twoPages addr len ≠ .nul 5) :
      ¬ Contract x8664 fiveCharacters twoPages addr len stored rc :=
    fun contract => found (Contract.scan_eq (count ▸ contract))
  exact ⟨wrong (by decide) (by decide), wrong (by decide) (by decide)⟩

/-- After any reads of the memory, on both code paths the contract is met exactly if the
call is an exact one. -/
theorem umovestr_contract_iff {g : Geometry} (k : Kernel g) (mem : Memory) (readable : Nat → Bool)
    (s : Ucopy) (run : Runs.Run (fun s => s.cachedIdx = none) (ReadStep k mem) (Readable g) s)
    (path : CodePath) (takes : Takes g k readable s path) (currentWordsize addr len : Nat)
    (low : addr < g.space) (small : len < 2 ^ 32) :
    Contract g mem readable addr len (umovestr k mem s currentWordsize addr len).2.1
        (umovestr k mem s currentWordsize addr len).2.2 ↔
      Exact g mem readable currentWordsize addr len path := by
  unfold Exact umovestr
  split
  · unfold Contract
    dsimp only
    cases scan g mem readable addr len with
    | nul j =>
      constructor
      · rintro ⟨-, rc, -⟩
        omega
      · rintro ⟨_, ⟨⟩⟩
    | full =>
      constructor
      · rintro ⟨-, ⟨⟩, -⟩
      · rintro ⟨_, ⟨⟩⟩
    | stuck j => exact ⟨fun _ => ⟨j, rfl⟩, fun _ => ⟨Nat.zero_le len, by omega⟩⟩
  · cases path with
    | vmReadv =>
      obtain ⟨supported, reads⟩ := takes
      rw [supported, if_neg Bool.false_ne_true]
      have valid := valid_of_run (goodPages_of_readsPages reads) run
      have gives : Gives g mem addr len (fun j => asInt (0 + j + 1))
          (scan g mem readable addr (len + 0)) (umovestrLoop k mem len s addr len 0).2 :=
        umovestrLoop_gives reads valid (Nat.le_refl len) low 0
      rw [contract_iff small (by decide) (fun _ => by decide) gives]
      refine forall_congr' fun j => imp_congr_right fun found => ?_
      have inside : j < len := scan_nul_lt found
      rw [if_pos inside]
      exact and_iff_left rfl
    | peekdata =>
      obtain ⟨peeks, reason⟩ := takes
      have goes : (if s.processVmReadvNotSupported = true then (s, umovestrPeekdata k mem addr len)
          else umovestrLoop k mem len s addr len 0).2 = umovestrPeekdata k mem addr len := by
        rcases reason with unsupported | ⟨empty, e, fallback, refuses⟩
        · rw [if_pos unsupported]
        · split
          · rfl
          · exact umovestrLoop_refused fallback empty refuses addr len
      obtain ⟨extra, near, inWords⟩ := g.inWords_bounds (addr % g.wordSize) len
      have gives : Gives g mem addr len
          (fun j => asInt (0 + g.skew (addr % g.wordSize) j + j + 1)) _
          (umovestrPeekdata k mem addr len) :=
        umovestrPeekLoop_gives peeks (Nat.le_refl len) low 0
      simp only [Nat.zero_add] at gives
      dsimp only
      rw [inWords] at gives ⊢
      rw [goes]
      exact contract_iff small near (g.skew_lt addr) gives

/-- The string at 0x1000 on both code paths. -/
theorem umovestr_contract_iff_aligned :
    Contract x8664 fiveCharacters twoPages 0x1000 16
        (umovestr (pageKernel x8664 twoPages) fiveCharacters {} 8 0x1000 16).2.1
        (umovestr (pageKernel x8664 twoPages) fiveCharacters {} 8 0x1000 16).2.2 ∧
      Contract x8664 fiveCharacters twoPages 0x1000 16
        (umovestr (pageKernel x8664 twoPages) fiveCharacters
          { processVmReadvNotSupported := true } 8 0x1000 16).2.1
        (umovestr (pageKernel x8664 twoPages) fiveCharacters
          { processVmReadvNotSupported := true } 8 0x1000 16).2.2 := by
  have found : scan x8664 fiveCharacters twoPages 0x1000 16 = .nul 5 := by decide
  constructor
  · refine (umovestr_contract_iff _ _ twoPages _ (.start rfl) .vmReadv
      ⟨rfl, pageKernel_readsPages _⟩ 8 0x1000 16 (by decide) (by decide)).mpr fun j nul => ?_
    cases found.symm.trans nul
    decide
  · refine (umovestr_contract_iff _ _ twoPages _ (.start rfl) .peekdata
      ⟨pageKernel_peeksPages _, .inl rfl⟩ 8 0x1000 16 (by decide) (by decide)).mpr fun j nul => ?_
    cases found.symm.trans nul
    decide

end Ucopy

end Strace
