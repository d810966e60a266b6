import Strace.Qualify.StringToUint
import Strace.Summary.Timespec

/-! `parse_ts` of `util.c`: a duration as a number with a unit. -/
namespace Strace.ParseTs

open Summary

def nsInS : Int := 1000000000

def units : List (Nat × List Char) :=
  [(1000000000 ||| 0 <<< 32, ['s']), (1000000 ||| 3 <<< 32, ['m', 's']),
    (1000 ||| 6 <<< 32, ['u', 's']), (1 ||| 9 <<< 32, ['n', 's'])]

/-- Whether `strcasecmp` finds no difference. -/
def sameNoCase (a b : List Char) : Bool := a.map Char.toLower == b.map Char.toLower

def findArgVal (arg : List Char) : Nat :=
  ((units.find? fun unit => sameNoCase unit.2 arg).map (·.1)).getD (2 ^ 64 - 1)

def str2timescaleSfx (arg : List Char) : Int :=
  if arg = [] then 1000 else (BitVec.ofNat 32 (findArgVal arg)).toInt

def strspn (s accept : List Char) : Nat := (s.takeWhile (· ∈ accept)).length

def floatAccept : List Char := "eE.-+0123456789".toList

def intAccept : List Char := "+0123456789".toList

/-- What the integer path stores. -/
def stored (val scale : Int) : Timespec := ⟨val / (nsInS / scale), val % (nsInS / scale) * scale⟩

def parseTs (float : List Char → Option Timespec) (s : List Char) : Option Timespec :=
  if strspn s floatAccept > strspn s intAccept then float s
  else do
    let (val, endptr) ← stringToUintEx s (2 ^ 63 - 1) ['s', 'm', 'u', 'n']
    let scale := str2timescaleSfx endptr
    if scale ≤ 0 then none
    else return stored val scale

inductive Suffix : List Char → Int → Prop
  | none : Suffix [] 1000
  | s : Suffix ['s'] 1000000000
  | ms {c : Char} (same : c.toLower = 's') : Suffix ['m', c] 1000000
  | us {c : Char} (same : c.toLower = 's') : Suffix ['u', c] 1000
  | ns {c : Char} (same : c.toLower = 's') : Suffix ['n', c] 1

variable {s rest : List Char} {scale : Int} {val : Int} {t : Timespec}

theorem Suffix.scaled (suffix : Suffix rest scale) : str2timescaleSfx rest = scale := by
  cases suffix with
  | none => rfl
  | s => decide
  | ms same => simp [str2timescaleSfx, findArgVal, units, sameNoCase, same]
  | us same => simp [str2timescaleSfx, findArgVal, units, sameNoCase, same]
  | ns same => simp [str2timescaleSfx, findArgVal, units, sameNoCase, same]

theorem suffix_of_scaled (positive : 0 < str2timescaleSfx rest)
    (ends : Ends ['s', 'm', 'u', 'n'] rest) : Suffix rest (str2timescaleSfx rest) := by
  cases rest with
  | nil => exact .none
  | cons c tail =>
    have first : c = 's' ∨ c = 'm' ∨ c = 'u' ∨ c = 'n' := by simpa [Ends] using ends
    have second (known : ['s'] = tail.map Char.toLower) : ∃ d, tail = [d] ∧ d.toLower = 's' := by
      obtain ⟨d, rest, rfl, same, none⟩ := List.map_eq_cons_iff.mp known.symm
      exact ⟨d, by rw [List.map_eq_nil_iff.mp none], same⟩
    rcases first with rfl | rfl | rfl | rfl
    · by_cases known : tail = []
      · subst known
        exact Suffix.s.scaled ▸ .s
      · simp [str2timescaleSfx, findArgVal, units, sameNoCase, known] at positive
    all_goals
      by_cases known : ['s'] = tail.map Char.toLower
      · obtain ⟨d, rfl, same⟩ := second known
        first
        | exact (Suffix.ms same).scaled ▸ .ms same
        | exact (Suffix.us same).scaled ▸ .us same
        | exact (Suffix.ns same).scaled ▸ .ns same
      · simp [str2timescaleSfx, findArgVal, units, sameNoCase, known] at positive

theorem strtoll_range {erange : Bool} (read : strtoll s = (val, rest, erange)) :
    val ≤ llongMax ∧ (erange = true → val = llongMax ∨ val < 0) ∧ (s = [] → rest = s) := by
  have extremes : llongMin < 0 ∧ 0 < llongMax := by decide
  refine ⟨?_, ?_, ?_⟩
  · simp only [strtoll] at read
    grind
  · simp only [strtoll] at read
    grind
  · rintro rfl
    cases read
    rfl

theorem stringToUintEx_iff {n : Nat} :
    stringToUintEx s (2 ^ 63 - 1) ['s', 'm', 'u', 'n'] = some (n, rest) ↔
      strtoll s = ((n : Int), rest, false) ∧ rest ≠ s ∧ Ends ['s', 'm', 'u', 'n'] rest := by
  unfold stringToUintEx
  generalize read : strtoll s = r
  obtain ⟨val, tail, erange⟩ := r
  obtain ⟨bound, clipped, empty⟩ := strtoll_range read
  unfold llongMax at *
  by_cases good : tail ≠ s ∧ 0 ≤ val ∧ erange = false
  · cases tail with
    | nil => grind [Ends]
    | cons c tail => grind [Ends]
  · refine ⟨fun accepted => ?_, fun ⟨eq, moved, _⟩ => ?_⟩
    · grind
    · grind

theorem Suffix.stored (suffix : Suffix rest scale) {val : Int} (nonneg : 0 ≤ val) :
    0 < scale ∧ (stored val scale).Normalized ∧ (stored val scale).ns = val * scale ∧
      (stored val scale).sec ≤ val := by
  simp only [ParseTs.stored, Timespec.Normalized, Timespec.ns, nsInS]
  cases suffix <;> omega

theorem eq_of_ns {a b : Timespec} (normal : a.Normalized) (normal' : b.Normalized)
    (same : a.ns = b.ns) : a = b := by
  obtain ⟨sec, nsec⟩ := a
  obtain ⟨sec', nsec'⟩ := b
  simp only [Timespec.Normalized, Timespec.ns, Timespec.mk.injEq] at *
  omega

/-- The integer path accepts a number that `strtoll` reads, with a unit or without one, and stores
just so many nanoseconds. -/
theorem parse_ts_accepts_iff (float : List Char → Option Timespec)
    (path : ¬ strspn s floatAccept > strspn s intAccept) (t : Timespec) :
    parseTs float s = some t ↔
      ∃ val rest scale, strtoll s = (val, rest, false) ∧ rest ≠ s ∧ 0 ≤ val ∧ Suffix rest scale ∧
        t.Normalized ∧ t.ns = val * scale ∧ t.sec ≤ llongMax := by
  simp only [parseTs, if_neg path, Option.bind_eq_bind, Option.bind_eq_some_iff, Prod.exists]
  constructor
  · rintro ⟨n, rest, read, kept⟩
    obtain ⟨number, moved, ends⟩ := stringToUintEx_iff.mp read
    split at kept
    · cases kept
    · next positive =>
      have suffix := suffix_of_scaled (Int.not_le.mp positive) ends
      obtain ⟨_, normal, exact, least⟩ := suffix.stored (Int.natCast_nonneg n)
      cases kept
      exact ⟨n, rest, _, number, moved, Int.natCast_nonneg n, suffix, normal, exact,
        Int.le_trans least (strtoll_range number).1⟩
  · rintro ⟨val, rest, scale, number, moved, nonneg, suffix, normal, exact, _⟩
    obtain ⟨n, rfl⟩ := Int.eq_ofNat_of_zero_le nonneg
    obtain ⟨positive, normal', exact', _⟩ := suffix.stored nonneg
    have ends : Ends ['s', 'm', 'u', 'n'] rest := by cases suffix <;> simp [Ends]
    refine ⟨n, rest, stringToUintEx_iff.mpr ⟨number, moved, ends⟩, ?_⟩
    rw [suffix.scaled, if_neg (by omega)]
    exact congrArg some (eq_of_ns normal' normal (exact'.trans exact.symm))

/-- The largest number of milliseconds. -/
theorem parse_ts_accepts_largest :
    parseTs (fun _ => none) "9223372036854775807ms".toList = some ⟨9223372036854775, 807000000⟩ :=
  (parse_ts_accepts_iff _ (by decide) _).mpr ⟨9223372036854775807, ['m', 's'], 1000000, by decide,
    by decide, by decide, .ms rfl, by decide, by decide, by decide⟩

/-- A unit in capitals is accepted after its first letter. -/
theorem parse_ts_accepts_capital :
    ¬ ∀ (float : List Char → Option Timespec) (s : List Char) (t : Timespec),
      ¬ strspn s floatAccept > strspn s intAccept →
      (parseTs float s = some t ↔
        ∃ val rest scale, strtoll s = (val, rest, false) ∧ rest ≠ s ∧ 0 ≤ val ∧
          (rest = [] ∧ scale = 1000 ∨ ∃ unit ∈ units, rest = unit.2 ∧
            scale = (unit.1 % 2 ^ 32 : Nat)) ∧
          t.Normalized ∧ t.ns = val * scale ∧ t.sec ≤ llongMax) := by
  intro stated
  obtain ⟨val, rest, scale, read, _, _, known, _⟩ :=
    (stated (fun _ => none) "5mS".toList ⟨0, 5000000⟩ (by decide)).mp (by decide)
  obtain rfl : rest = ['m', 'S'] := by
    have : strtoll "5mS".toList = (5, ['m', 'S'], false) := by decide
    simpa using (congrArg (·.2.1) (read.symm.trans this))
  simp [units] at known

end Strace.ParseTs
