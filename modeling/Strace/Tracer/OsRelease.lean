import Mathlib.Algebra.Group.Nat.Defs
import Strace.Qualify.StringToUint

/-! `get_os_release`: the version of the kernel in one number, to be compared with
`KERNEL_VERSION`. -/
namespace Strace.OsRelease

def readPart (n : UInt32) : List Char → UInt32 × List Char
  | [] => (n, [])
  | c :: p => if c.isDigit then readPart (n * 10 + UInt32.ofNat (c.toNat - 48)) p else (n, c :: p)

/-- The loop, with `parts` to go. -/
def readParts : (parts : Nat) → UInt32 → List Char → UInt32
  | 0, rel, _ => rel
  | parts + 1, rel, p =>
    let (n, p) := readPart 0 p
    let rel := rel <<< 8 ||| n
    match p with
    | '.' :: p => readParts parts rel p
    | p => readParts parts rel p

def getOsRelease (release : List Char) : UInt32 := readParts 3 0 release

def kernelVersion (a b c : Nat) : UInt32 := UInt32.ofNat ((a <<< 16) + (b <<< 8) + c)

structure Component where
  digits : List Char
  nonempty : digits ≠ []
  digit : ∀ c ∈ digits, c.isDigit
  fits : decimal digits < 2 ^ 32

def Component.number (n : Component) : Nat := decimal n.digits

structure Release where
  major : Component
  minor : Component
  patch : Component
  suffix : List Char
  ends : ∀ c ∈ suffix.head?, c.isDigit = false

namespace Release

def text (r : Release) : List Char :=
  r.major.digits ++ '.' :: (r.minor.digits ++ '.' :: (r.patch.digits ++ r.suffix))

def version (r : Release) : Nat × Nat × Nat := (r.major.number, r.minor.number, r.patch.number)

end Release

/-- The lexicographic order. -/
def Before (v w : Nat × Nat × Nat) : Prop :=
  v.1 < w.1 ∨ v.1 = w.1 ∧ (v.2.1 < w.2.1 ∨ v.2.1 = w.2.1 ∧ v.2.2 < w.2.2)

def InFields (v : Nat × Nat × Nat) : Prop := v.1 < 2 ^ 16 ∧ v.2.1 < 2 ^ 8 ∧ v.2.2 < 2 ^ 8

def packed (v : Nat × Nat × Nat) : UInt32 :=
  (UInt32.ofNat v.1 <<< 8 ||| UInt32.ofNat v.2.1) <<< 8 ||| UInt32.ofNat v.2.2

theorem readPart_digits {digits rest : List Char} (digit : ∀ c ∈ digits, c.isDigit)
    (ends : ∀ c ∈ rest.head?, c.isDigit = false) (n : Nat) :
    readPart (UInt32.ofNat n) (digits ++ rest) =
      (UInt32.ofNat (digits.foldl (fun n c => 10 * n + (c.toNat - 48)) n), rest) := by
  induction digits generalizing n with
  | nil =>
    cases rest with
    | nil => rfl
    | cons c rest => simp [readPart, ends c rfl]
  | cons c digits ih =>
    have next : UInt32.ofNat n * 10 + UInt32.ofNat (c.toNat - 48) =
        UInt32.ofNat (10 * n + (c.toNat - 48)) := by
      rw [UInt32.ofNat_add, UInt32.ofNat_mul, UInt32.mul_comm]
      rfl
    simp only [List.cons_append, readPart, digit c List.mem_cons_self, next]
    exact ih (fun c mem => digit c (List.mem_cons_of_mem _ mem)) _

theorem getOsRelease_eq (r : Release) : getOsRelease r.text = packed r.version := by
  have part (n : Component) {rest : List Char} (ends : ∀ c ∈ rest.head?, c.isDigit = false) :
      readPart 0 (n.digits ++ rest) = (UInt32.ofNat n.number, rest) :=
        readPart_digits n.digit ends 0
  have dot {rest : List Char} : ∀ c ∈ ('.' :: rest).head?, c.isDigit = false := by
    rintro c ⟨⟩
    rfl
  have last (rel : UInt32) : readParts 1 rel (r.patch.digits ++ r.suffix) =
      rel <<< 8 ||| UInt32.ofNat r.patch.number := by
    simp only [readParts, part r.patch r.ends]
    split <;> rfl
  have start : (0 : UInt32) <<< 8 ||| UInt32.ofNat r.major.number = UInt32.ofNat r.major.number :=
    UInt32.zero_or
  rw [getOsRelease, Release.text, readParts, part r.major dot]
  simp only
  rw [readParts, part r.minor dot]
  simp only
  rw [last, start]
  rfl

theorem toNat_ofNat_small {n : Nat} (small : n < 2 ^ 32) : (UInt32.ofNat n).toNat = n :=
  UInt32.toNat_ofNat_of_lt' small

theorem toNat_field {x : UInt32} {n : Nat} (room : x.toNat < 2 ^ 24) (small : n < 2 ^ 8) :
    (x <<< 8 ||| UInt32.ofNat n).toNat = x.toNat * 256 + n := by
  have shifted : (x <<< 8).toNat = 2 ^ 8 * x.toNat := by
    rw [UInt32.toNat_shiftLeft]
    exact (Nat.mod_eq_of_lt (by simp; omega)).trans
      ((Nat.shiftLeft_eq ..).trans (Nat.mul_comm ..))
  rw [UInt32.toNat_or, shifted, toNat_ofNat_small (by omega),
    ← Nat.two_pow_add_eq_or_of_lt small]
  omega

theorem toNat_packed {v : Nat × Nat × Nat} (fields : InFields v) :
    (packed v).toNat = v.1 * 65536 + v.2.1 * 256 + v.2.2 := by
  obtain ⟨major, minor, patch⟩ := fields
  have first : (UInt32.ofNat v.1).toNat = v.1 := toNat_ofNat_small (by omega)
  have second := toNat_field (x := UInt32.ofNat v.1) (by omega) minor
  rw [packed, toNat_field (by omega) patch, second]
  omega

theorem packed_lt_iff {v w : Nat × Nat × Nat} (fields : InFields v) (fields' : InFields w) :
    packed v < packed w ↔ Before v w := by
  rw [UInt32.lt_iff_toNat_lt, toNat_packed fields, toNat_packed fields', Before]
  obtain ⟨_, _, _⟩ := fields
  obtain ⟨_, _, _⟩ := fields'
  omega

theorem kernelVersion_eq {x y z : Nat} (major : x < 2 ^ 15) (minor : y < 2 ^ 8)
    (patch : z < 2 ^ 8) :
    kernelVersion x y z = packed (x, y, z) := by
  apply UInt32.toNat_inj.mp
  rw [toNat_packed ⟨by omega, minor, patch⟩, kernelVersion, Nat.shiftLeft_eq, Nat.shiftLeft_eq,
    toNat_ofNat_small (by omega)]

theorem exists_component {n : Nat} (fits : n < 2 ^ 32) : ∃ part : Component, part.number = n := by
  induction n using Nat.strongRecOn with
  | ind n ih =>
    have digit : ∀ d < 10, (Nat.digitChar d).isDigit ∧ (Nat.digitChar d).toNat - 48 = d := by decide
    have last := digit (n % 10) (Nat.mod_lt n (by decide))
    by_cases single : n < 10
    · refine ⟨⟨[Nat.digitChar (n % 10)], by simp, by simpa using last.1, ?_⟩, ?_⟩ <;>
        simp [Component.number, decimal] <;> omega
    · obtain ⟨part, number⟩ := ih (n / 10) (by omega) (by omega)
      have value : decimal (part.digits ++ [Nat.digitChar (n % 10)]) = n := by
        rw [decimal, List.foldl_append]
        simp only [List.foldl_cons, List.foldl_nil]
        rw [Component.number, decimal] at number
        omega
      exact ⟨⟨part.digits ++ [Nat.digitChar (n % 10)], by simp,
        by simpa [or_imp, forall_and, last.1] using part.digit, by omega⟩, value⟩

theorem exists_release {v : Nat × Nat × Nat} (fields : InFields v) :
    ∃ r : Release, r.version = v := by
  obtain ⟨a, b, c⟩ := v
  simp only [InFields] at fields
  obtain ⟨major, rfl⟩ := exists_component (n := a) (by omega)
  obtain ⟨minor, rfl⟩ := exists_component (n := b) (by omega)
  obtain ⟨patch, rfl⟩ := exists_component (n := c) (by omega)
  exact ⟨⟨major, minor, patch, [], by simp⟩, rfl⟩

/-- A release compares as it should with all versions that fit their fields, releases or
`KERNEL_VERSION`s, if and only if its own does. -/
theorem os_release_ordered_iff (r : Release) :
    ((∀ r' : Release, InFields r'.version →
        (getOsRelease r.text < getOsRelease r'.text ↔ Before r.version r'.version) ∧
        (getOsRelease r'.text < getOsRelease r.text ↔ Before r'.version r.version)) ∧
      ∀ x y z, x < 2 ^ 15 → y < 2 ^ 8 → z < 2 ^ 8 →
        (getOsRelease r.text < kernelVersion x y z ↔ Before r.version (x, y, z)) ∧
        (kernelVersion x y z < getOsRelease r.text ↔ Before (x, y, z) r.version)) ↔
      InFields r.version := by
  constructor
  · rintro ⟨ordered, _⟩
    -- the version that the packed value stands for
    obtain ⟨n, value⟩ : ∃ n, (packed r.version).toNat = n := ⟨_, rfl⟩
    have small := value ▸ (packed r.version).toNat_lt
    have fields : InFields (n / 65536, n / 256 % 256, n % 256) := by
      refine ⟨?_, ?_, ?_⟩ <;> simp only <;> omega
    obtain ⟨r', version⟩ := exists_release fields
    have same : packed r'.version = packed r.version := by
      apply UInt32.toNat_inj.mp
      rw [version, toNat_packed fields, value]
      simp only
      omega
    obtain ⟨less, greater⟩ := ordered r' (version ▸ fields)
    rw [getOsRelease_eq, getOsRelease_eq, same] at less greater
    have equal : r.version = r'.version := by
      have not_less := mt less.mpr (UInt32.lt_irrefl _)
      have not_greater := mt greater.mpr (UInt32.lt_irrefl _)
      unfold Before at not_less not_greater
      refine Prod.ext ?_ (Prod.ext ?_ ?_) <;> omega
    rw [equal, version]
    exact fields
  · intro fields
    refine ⟨fun r' fields' => ?_, fun x y z major minor patch => ?_⟩
    · rw [getOsRelease_eq, getOsRelease_eq]
      exact ⟨packed_lt_iff fields fields', packed_lt_iff fields' fields⟩
    · have fields' : InFields (x, y, z) := ⟨by simp only; omega, minor, patch⟩
      rw [getOsRelease_eq, kernelVersion_eq major minor patch]
      exact ⟨packed_lt_iff fields fields', packed_lt_iff fields' fields⟩

/-- The release 4.4.256 counts as 4.5.0. -/
theorem os_release_long_term :
    ¬ ∀ r r' : Release, getOsRelease r.text < getOsRelease r'.text ↔
      Before r.version r'.version := by
  intro ordered
  let four : Component := ⟨['4'], by simp, by simp, by simp [decimal]⟩
  let r : Release :=
    ⟨four, four, ⟨['2', '5', '6'], by simp, by simp, by simp [decimal]⟩, [], by simp⟩
  let r' : Release := ⟨four, ⟨['5'], by simp, by simp, by simp [decimal]⟩,
    ⟨['0'], by simp, by simp, by simp [decimal]⟩, [], by simp⟩
  have less := (ordered r r').mpr (.inr ⟨rfl, .inl (by decide)⟩)
  exact absurd less (by decide)

end Strace.OsRelease
