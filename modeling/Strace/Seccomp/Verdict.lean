import Mathlib.Order.Bounds.Basic
import Strace.Seccomp.Layout

/-! What a filter decides about a syscall, without its program: the section of
a personality is selected by architecture and flag, and the section decides. -/
namespace Strace.Seccomp
open ClassicBpf

def Apart (flag : UInt32) (bound : Nat) : Prop :=
  flag = 0 ∨ ∃ k, flag.toNat = 2 ^ k ∧ bound < 2 ^ k

variable {flag x : UInt32} {bound : Nat}

theorem or_flag (apart : Apart flag bound) (below : x.toNat ≤ bound) :
    (x ||| flag).toNat = x.toNat + flag.toNat := by
  rw [UInt32.toNat_or]
  obtain rfl | ⟨k, bit, above⟩ := apart
  · simp
  · have := Nat.two_pow_add_eq_or_of_lt (show x.toNat < 2 ^ k by omega) 1
    rw [bit, Nat.or_comm, Nat.add_comm]
    simpa using this.symm

variable (c : Config)

def bareNr (p : Nat) (d : SeccompData) : UInt32 := d.nr &&& ~~~(c.auditArchVec p).flag

def Matches (d : SeccompData) (p : Nat) : Prop :=
  (c.auditArchVec p).arch = d.arch ∧ (c.auditArchVec p).flag ≤ d.nr

def SectionTraces (d : SeccompData) (p : Nat) : Prop :=
  c.nsyscallVec p ≤ bareNr c p d ∨ tracedBySeccomp c (bareNr c p d).toNat p = true

instance (c : Config) (d : SeccompData) (p : Nat) : Decidable (Matches c d p) :=
  inferInstanceAs (Decidable (_ ∧ _))

instance (c : Config) (d : SeccompData) (p : Nat) : Decidable (SectionTraces c d p) :=
  inferInstanceAs (Decidable (_ ∨ _))

theorem toNat_without_add_within (x mask : BitVec 32) :
    (x &&& ~~~mask).toNat + (x &&& mask).toNat = x.toNat := by
  have apart : (x &&& ~~~mask) &&& (x &&& mask) = 0#32 := by
    apply BitVec.eq_of_getElem_eq
    intro i _
    cases a : x[i] <;> cases b : mask[i] <;> simp [a]
  rw [← BitVec.toNat_add_of_and_eq_zero apart, BitVec.add_eq_or_of_and_eq_zero _ _ apart]
  congr 1
  apply BitVec.eq_of_getElem_eq
  intro i _
  cases a : x[i] <;> cases b : mask[i] <;> simp [a]

theorem without_flag (apart : Apart flag bound) (le : flag ≤ x) :
    (x &&& ~~~flag).toNat + flag.toNat = x.toNat ∨
      bound < (x &&& ~~~flag).toNat ∧ bound + flag.toNat ≤ x.toNat := by
  have parts : (x &&& ~~~flag).toNat + (x &&& flag).toNat = x.toNat :=
    toNat_without_add_within x.toBitVec flag.toBitVec
  rw [UInt32.le_iff_toNat_le] at le
  obtain rfl | ⟨k, bit, above⟩ := apart
  · simp
  · rw [UInt32.toNat_and x flag, bit, Nat.and_two_pow] at parts
    rw [bit] at le ⊢
    cases set : x.toNat.testBit k with
    | true =>
      simpa [set, Nat.one_mul] using Or.inl parts
    | false =>
      rw [set, Bool.toNat_false] at parts
      have large : 2 ^ (k + 1) ≤ x.toNat := by
        by_contra small
        have := Nat.testBit_of_two_pow_le_and_two_pow_add_one_gt le (by omega)
        rw [set] at this
        cases this
      exact Or.inr ⟨by omega, by omega⟩

def FlagsApart : Prop :=
  ∀ p < c.supportedPersonalities, (c.auditArchVec p).flag ≠ 0 →
    (∃ k, (c.auditArchVec p).flag.toNat = 2 ^ k) ∧ c.nsyscallVec p < (c.auditArchVec p).flag

theorem FlagsApart.apart {c : Config} (flags : FlagsApart c) {p : Nat}
    (supported : p < c.supportedPersonalities) :
    Apart (c.auditArchVec p).flag (c.nsyscallVec p).toNat := by
  by_cases plain : (c.auditArchVec p).flag = 0
  · exact Or.inl plain
  · obtain ⟨⟨k, bit⟩, below⟩ := flags p supported plain
    rw [UInt32.lt_iff_toNat_lt, bit] at below
    exact Or.inr ⟨k, bit, below⟩

def Selected (d : SeccompData) (n p : Nat) : Prop :=
  IsGreatest {q | q < n ∧ Matches c d q} p

def verdict (c : Config) (d : SeccompData) (traces : Nat → Bool) : Nat → UInt32
  | 0 => seccompRetTrace
  | p + 1 =>
    if Matches c d p then (if traces p then seccompRetTrace else seccompRetAllow)
    else verdict c d traces p

section
variable {c : Config} {d : SeccompData} {traces : Nat → Bool} {n : Nat} {p : Nat}

theorem selected_succ : Selected c d (n + 1) p ↔
    if Matches c d n then p = n else Selected c d n p := by
  split
  · next here =>
    constructor
    · rintro ⟨⟨below, _⟩, greatest⟩
      have := greatest ⟨Nat.lt_succ_self n, here⟩
      omega
    · rintro rfl
      exact ⟨⟨Nat.lt_succ_self p, here⟩, fun q hq => Nat.lt_succ_iff.mp hq.1⟩
  · next other =>
    have same : {q | q < n + 1 ∧ Matches c d q} = {q | q < n ∧ Matches c d q} := by
      ext q
      constructor
      · rintro ⟨below, matched⟩
        have : q ≠ n := by rintro rfl; exact other matched
        exact ⟨by omega, matched⟩
      · grind
    rw [Selected, same, Selected]

theorem verdict_none (none : ∀ p < n, ¬ Matches c d p) :
    verdict c d traces n = seccompRetTrace := by
  induction n with
  | zero => rfl
  | succ n ih =>
    grind [verdict]

theorem verdict_selected (selected : Selected c d n p) :
    verdict c d traces n = if traces p then seccompRetTrace else seccompRetAllow := by
  induction n with
  | zero => exact absurd selected.1.1 (Nat.not_lt_zero p)
  | succ n ih =>
    grind [selected_succ, verdict]

theorem selected_or_none (c : Config) (d : SeccompData) (n : Nat) :
    (∀ p < n, ¬ Matches c d p) ∨ ∃ p, Selected c d n p := by
  induction n with
  | zero => exact Or.inl fun p hp => absurd hp (Nat.not_lt_zero p)
  | succ n ih =>
    by_cases here : Matches c d n
    · exact Or.inr ⟨n, selected_succ.mpr (by simp [here])⟩
    · rcases ih with none | ⟨p, selected⟩
      · left
        intro p hp
        rcases Nat.lt_succ_iff_lt_or_eq.mp hp with below | rfl
        · exact none p below
        · exact here
      · exact Or.inr ⟨p, selected_succ.mpr (by simpa [here] using selected)⟩

theorem returns_verdict (code : Nat → List Insn) {last : List Insn} {x : UInt32}
    (done : ∀ x, Returns d.load last ⟨d.arch, x⟩ seccompRetTrace)
    (start : code 0 = last)
    (step : ∀ p < n, ∀ (x v : UInt32),
      (¬ Matches c d p → Returns d.load (code p) ⟨d.arch, x⟩ v) →
      (Matches c d p → v = if traces p then seccompRetTrace else seccompRetAllow) →
      Returns d.load (code (p + 1)) ⟨d.arch, x⟩ v) :
    Returns d.load (code n) ⟨d.arch, x⟩ (verdict c d traces n) := by
  induction n generalizing x with
  | zero => rw [start]; exact done x
  | succ n ih =>
    apply step n (Nat.lt_succ_self n)
    · intro other
      rw [verdict, if_neg other]
      exact ih fun p hp => step p (by omega)
    · intro here
      rw [verdict, if_pos here]

theorem exec_linkProgram {body tail : Nat → List Insn} (multi : 1 < c.supportedPersonalities)
    (step : ∀ p < c.supportedPersonalities, ∀ (code : List Insn) (x v : UInt32),
      (¬ Matches c d p → Returns d.load code ⟨d.arch, x⟩ v) →
      (Matches c d p → v = if traces p then seccompRetTrace else seccompRetAllow) →
      Returns d.load (linkSection (body p) (tail p) ++ code) ⟨d.arch, x⟩ v) :
    exec d.load (linkProgram c body tail) = some (verdict c d traces c.supportedPersonalities) := by
  have sections : Returns d.load (linkSections body tail c.supportedPersonalities ++ programTail c)
      ⟨d.arch, 0⟩ (verdict c d traces c.supportedPersonalities) := by
    apply returns_verdict (fun n => linkSections body tail n ++ programTail c) _ rfl
    · intro p supported x v next decided
      simp only [linkSections, List.append_assoc]
      exact step p supported _ x v next decided
    · intro x
      rw [programTail, if_pos multi]
      exact Returns.ret rfl
  apply Returns.exec_eq
  rw [linkProgram, programHead, if_pos multi]
  exact Returns.ldAbs rfl d.load_arch sections

end

end Strace.Seccomp
