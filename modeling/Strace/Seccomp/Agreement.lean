import Strace.Seccomp.Linear
import Strace.Seccomp.Match

/-! The verdicts of the two generated filters, compared. They part on numbers
outside the table of the selected personality, which only the linear filter
traces, and in builds with one personality on numbers whose flag the sections
do not check. -/
namespace Strace.Seccomp
open ClassicBpf

section
variable {flag x : UInt32} {k : Nat}

variable (bit : flag.toNat = 2 ^ k)
include bit

theorem without_bit :
    (x &&& ~~~flag).toNat + (x.toNat.testBit k).toNat * 2 ^ k = x.toNat := by
  have parts : (x &&& ~~~flag).toNat + (x &&& flag).toNat = x.toNat :=
    toNat_without_add_within x.toBitVec flag.toBitVec
  rwa [UInt32.toNat_and x flag, bit, Nat.and_two_pow] at parts

theorem without_high_mod (high : 5 ≤ k) :
    (x &&& ~~~flag).toNat % 32 = x.toNat % 32 := by
  have parts := without_bit (x := x) bit
  obtain ⟨j, rfl⟩ := Nat.exists_eq_add_of_le high
  rw [Nat.pow_add] at parts
  cases set : x.toNat.testBit (5 + j) with
  | false =>
    grind
  | true =>
    grind

theorem without_low_div (low : k < 5) :
    (x &&& ~~~flag).toNat / 32 = x.toNat / 32 := by
  have parts := without_bit (x := x) bit
  cases set : x.toNat.testBit k with
  | false =>
    grind
  | true =>
    rw [set, Bool.toNat_true] at parts
    have inside : (x.toNat % 2 ^ 5).testBit k = true := by
      rw [Nat.testBit_mod_two_pow, set]
      simpa using low
    have := Nat.ge_two_pow_of_testBit inside
    omega

end

variable {c : Config} {d : SeccompData}

theorem matchedNr_single (apart : Apart (c.auditArchVec 0).flag (c.nsyscallVec 0).toNat) :
    matchedNr c 0 d d.nr =
      if (c.auditArchVec 0).flag = 0 ∨ 32 ≤ (c.auditArchVec 0).flag then (bareNr c 0 d).toNat
      else d.nr.toNat := by
  simp only [matchedNr, bareNr, UInt32.le_iff_toNat_le]
  obtain plain | ⟨k, bit, -⟩ := apart
  · simp [plain, Nat.div_add_mod]
  · have flagged : (c.auditArchVec 0).flag ≠ 0 := by
      intro plain
      rw [plain] at bit
      exact absurd bit.symm (Nat.two_pow_pos k).ne'
    rw [bit, show (32 : UInt32).toNat = 2 ^ 5 from rfl]
    by_cases high : 5 ≤ k
    · have above : 2 ^ 5 ≤ 2 ^ k := Nat.pow_le_pow_right (by decide) high
      rw [if_pos (Or.inr above), ← without_high_mod bit high, Nat.div_add_mod]
    · have below : 2 ^ k < 2 ^ 5 := Nat.pow_lt_pow_right (by decide) (by omega)
      rw [if_neg (not_or.mpr ⟨flagged, Nat.not_le.mpr below⟩), without_low_div bit (by omega),
        Nat.div_add_mod]

def SameVerdict (c : Config) (d : SeccompData) : Prop :=
  if c.supportedPersonalities > 1 then
    ∀ p, Selected c d c.supportedPersonalities p → bareNr c p d < c.nsyscallVec p
  else if (c.auditArchVec 0).flag ≤ d.nr then
    bareNr c 0 d < c.nsyscallVec 0 ∧
      ((c.auditArchVec 0).flag = 0 ∨ 32 ≤ (c.auditArchVec 0).flag ∨
        tracedBySeccomp c (bareNr c 0 d).toNat 0 = false)
  else ¬ (d.nr < c.nsyscallVec 0 ∧ tracedBySeccomp c d.nr.toNat 0 = true)

def IsVerdict (result : Option UInt32) : Prop :=
  result = some seccompRetTrace ∨ result = some seccompRetAllow

theorem isVerdict_ite (traced : Prop) [Decidable traced] :
    IsVerdict (some (if traced then seccompRetTrace else seccompRetAllow)) := by
  by_cases h : traced
  · exact Or.inl (by rw [if_pos h])
  · exact Or.inr (by rw [if_neg h])

theorem verdict_eq_iff (a b : Prop) [Decidable a] [Decidable b] :
    some (if a then seccompRetTrace else seccompRetAllow) =
      some (if b then seccompRetTrace else seccompRetAllow) ↔ (a ↔ b) := by
  by_cases ha : a <;> by_cases hb : b <;> simp [ha, hb] <;> decide

theorem bareNr_below {p : Nat} (apart : Apart (c.auditArchVec p).flag (c.nsyscallVec p).toNat)
    (below : d.nr < (c.auditArchVec p).flag) : bareNr c p d = d.nr := by
  rw [UInt32.lt_iff_toNat_lt] at below
  obtain plain | ⟨k, bit, -⟩ := apart
  · simp [plain] at below
  · have parts := without_bit (x := d.nr) bit
    rw [Nat.testBit_lt_two_pow (by omega), Bool.toNat_false, Nat.zero_mul] at parts
    exact UInt32.toNat_inj.mp parts

theorem single_agree_iff (apart : Apart (c.auditArchVec 0).flag (c.nsyscallVec 0).toNat)
    (single : ¬ c.supportedPersonalities > 1) :
    ((matchedNr c 0 d d.nr < (c.nsyscallVec 0).toNat ∧
        tracedBySeccomp c (matchedNr c 0 d d.nr) 0 = true) ↔ LinearTraces c 0 d.nr) ↔
      SameVerdict c d := by
  have number := matchedNr_single (d := d) apart
  rw [SameVerdict, if_neg single]
  split
  · next above =>
    have traces := sectionTraces_iff c 0 apart above
    rw [← traces, SectionTraces, ← UInt32.not_lt]
    by_cases wide : (c.auditArchVec 0).flag = 0 ∨ 32 ≤ (c.auditArchVec 0).flag
    · rw [number, if_pos wide]
      tauto
    · have beyond : ¬ d.nr.toNat < (c.nsyscallVec 0).toNat := by
        obtain plain | ⟨k, bit, fits⟩ := apart
        · exact absurd (Or.inl plain) wide
        · rw [UInt32.le_iff_toNat_le] at above
          omega
      rw [number, if_neg wide, ← Bool.not_eq_true]
      tauto
  · next below =>
    have below := UInt32.not_le.mp below
    have bare := bareNr_below apart below
    have matched : matchedNr c 0 d d.nr = d.nr.toNat := by
      rw [number, bare, ite_self]
    have passed : ¬ LinearTraces c 0 d.nr := by
      rw [UInt32.lt_iff_toNat_lt] at below
      rintro (⟨s, same, _⟩ | unknown)
      · omega
      · omega
    rw [matched]
    tauto

/-- Both filters always return a verdict, and it is the same verdict exactly
for the syscalls of `SameVerdict`. -/
theorem generators_agree_iff (c : Config) (supported : 0 < c.supportedPersonalities)
    (flags : FlagsApart c) {linear binary : Buffer}
    (generated_linear : linearFilterGenerator c = some (linear, false))
    (generated_binary : binaryMatchFilterGenerator c = some (binary, false))
    (fits_linear : linear.length ≤ bpfMaxinsns) (fits_binary : binary.length ≤ bpfMaxinsns)
    (d : SeccompData) :
    IsVerdict (exec d.load linear) ∧ IsVerdict (exec d.load binary) ∧
      (exec d.load binary = exec d.load linear ↔ SameVerdict c d) := by
  classical
  obtain ⟨short_linear, rfl⟩ := linearFilterGenerator_some c generated_linear
  obtain ⟨short_binary, rfl⟩ := binaryMatchFilterGenerator_some c generated_binary fits_binary
  by_cases multi : 1 < c.supportedPersonalities
  · rw [exec_linear_multi c multi flags short_linear, exec_match_multi c multi short_binary,
      SameVerdict, if_pos multi]
    rcases selected_or_none c d c.supportedPersonalities with none | ⟨p, selected⟩
    · rw [verdict_none none, verdict_none none]
      refine ⟨Or.inl rfl, Or.inl rfl, ?_, fun _ => rfl⟩
      intro _ p selected
      exact absurd selected.1.2 (none p selected.1.1)
    · simp only [verdict_selected selected, decide_eq_true_eq]
      refine ⟨isVerdict_ite _, isVerdict_ite _, ?_⟩
      have chosen :
        (∀ q, Selected c d c.supportedPersonalities q → bareNr c q d < c.nsyscallVec q) ↔
          bareNr c p d < c.nsyscallVec p :=
        ⟨fun h => h p selected, fun h q other => other.unique selected ▸ h⟩
      rw [verdict_eq_iff, MatchTraces, SectionTraces, ← UInt32.not_lt]
      tauto
  · have single : c.supportedPersonalities = 1 := by omega
    have apart := flags.apart supported
    rw [exec_linear_single c single apart (short_linear 0 supported)
        (fun h => if_pos h) (fun h => if_neg h),
      exec_match_single c single (short_binary 0 supported)
        (v := if matchedNr c 0 d d.nr < (c.nsyscallVec 0).toNat ∧
          tracedBySeccomp c (matchedNr c 0 d d.nr) 0 =
            true then seccompRetTrace else seccompRetAllow)
        (fun known traced => if_pos ⟨known, traced⟩) (fun h => if_neg fun hit => h hit.1 hit.2),
      verdict_eq_iff, single_agree_iff apart multi]
    exact ⟨isVerdict_ite _, isVerdict_ite _, Iff.rfl⟩

def amd64Build : Config where
  supportedPersonalities := 2
  auditArchVec p := if p = 0 then ⟨0xc000003e, 0⟩ else ⟨0x40000003, 0⟩
  nsyscallVec _ := 3
  sysentVec _ _ := {}
  traceSet := some fun _ => ⟨[0b10], false⟩

theorem amd64Build_flags : FlagsApart amd64Build := by
  intro p _ flagged
  exact absurd (by simp only [amd64Build]; split <;> rfl) flagged

def amd64Linear : Buffer := ((linearFilterGenerator amd64Build).getD ([], true)).1

def amd64Binary : Buffer := ((binaryMatchFilterGenerator amd64Build).getD ([], true)).1

theorem generators_agree_amd64 :
    IsVerdict (exec (SeccompData.load ⟨1, 0xc000003e⟩) amd64Linear) ∧
      IsVerdict (exec (SeccompData.load ⟨1, 0xc000003e⟩) amd64Binary) ∧
      (exec (SeccompData.load ⟨1, 0xc000003e⟩) amd64Binary =
        exec (SeccompData.load ⟨1, 0xc000003e⟩) amd64Linear ↔
        SameVerdict amd64Build ⟨1, 0xc000003e⟩) :=
  generators_agree_iff amd64Build (by decide) amd64Build_flags (by decide) (by decide) (by decide)
    (by decide) _

/-- The linear filter traces the first number outside the table, the binary
filter allows it. -/
theorem generators_disagree_outside_table :
    ¬ ∀ (c : Config) (linear binary : Buffer), 0 < c.supportedPersonalities → FlagsApart c →
      linearFilterGenerator c = some (linear, false) →
      binaryMatchFilterGenerator c = some (binary, false) →
      linear.length ≤ bpfMaxinsns → binary.length ≤ bpfMaxinsns →
      ∀ d : SeccompData, exec d.load binary = exec d.load linear := by
  intro stated
  have same := stated amd64Build amd64Linear amd64Binary (by decide) amd64Build_flags (by decide)
    (by decide) (by decide) (by decide) ⟨3, 0xc000003e⟩
  exact absurd same (by decide)

end Strace.Seccomp
