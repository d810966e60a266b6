import Strace.Qualify.Denotation
import Strace.Seccomp.Bounds

/-! From `-e trace=` to the kernel: the specification fills the set, one of the
two generators compiles the set, and the program that is installed decides. -/
namespace Strace.Seccomp
open ClassicBpf

variable {c : Config} {d : SeccompData} {p : Nat} {prog : Buffer}

/-- Inside the table of the selected personality, whichever program is chosen
decides as the sets do. -/
theorem exec_chosen (multi : 1 < c.supportedPersonalities) (flags : FlagsApart c)
    {available orderKnown : Bool}
    (chosen : checkSeccompFilterProperties c available orderKnown = some (some prog, true))
    (selected : Selected c d c.supportedPersonalities p) (known : bareNr c p d < c.nsyscallVec p) :
    exec d.load prog = some (if tracedBySeccomp c (bareNr c p d).toNat p then seccompRetTrace
      else seccompRetAllow) := by
  obtain ⟨fits, generated | generated⟩ := chosen_filter c chosen
  · obtain ⟨short, rfl⟩ := linearFilterGenerator_some c generated
    have traces : SectionTraces c d p ↔ tracedBySeccomp c (bareNr c p d).toNat p = true :=
      or_iff_right (UInt32.not_le.mpr known)
    simp only [exec_linear_multi c multi flags short, verdict_selected selected, traces,
      Bool.decide_eq_true]
  · obtain ⟨short, rfl⟩ := binaryMatchFilterGenerator_some c generated fits
    simp only [exec_match_multi c multi short, verdict_selected selected, MatchTraces, known,
      true_and, Bool.decide_eq_true]

/-- What is traced for its flags is traced whatever the set holds. -/
theorem tracedBySeccomp_traceSet (c : Config) (set : NumberSets) (n p : Nat) :
    tracedBySeccomp { c with traceSet := some set } n p =
      (tracedBySeccomp { c with traceSet := none } n p || isNumberInSetArray n (some set) p) := by
  simp [tracedBySeccomp, isNumberInSetArray, isNumberInSet]

/-- Whichever program is chosen, it stops a syscall of the table exactly if its
flags ask for it or the specification, inverted as often as it says, stands for
it, and lets the others run. -/
theorem trace_option_decides (t : FilterTables) (multi : 1 < t.supportedPersonalities)
    (flags : FlagsApart t.toConfig) {str : List Char} {set set' : NumberSets}
    (qualified : qualifySyscallTokens t str set = .ok set')
    {available orderKnown : Bool}
    (chosen : checkSeccompFilterProperties { t.toConfig with traceSet := some set' } available
      orderKnown = some (some prog, true))
    (selected : Selected t.toConfig d t.supportedPersonalities p)
    (known : bareNr t.toConfig p d < t.nsyscallVec p) :
    let stops :=
      tracedBySeccomp { t.toConfig with traceSet := none } (bareNr t.toConfig p d).toNat p ∨
      Xor (Odd (str.takeWhile (· == '!')).length)
        (t.SpecDenotes (str.dropWhile (· == '!')) p (bareNr t.toConfig p d).toNat)
    (stops → exec d.load prog = some seccompRetTrace) ∧
      (¬ stops → exec d.load prog = some seccompRetAllow) := by
  intro stops
  let c : Config := { t.toConfig with traceSet := some set' }
  have decided := exec_chosen (c := c) multi flags chosen selected known
  have filled := qualifySyscallTokens_filled t str set
  rw [qualified] at filled
  cases filled with
  | returns valid members =>
    have same : tracedBySeccomp c (bareNr c p d).toNat p = true ↔ stops := by
      rw [tracedBySeccomp_traceSet, Bool.or_eq_true]
      exact or_congr_right (members p selected.1.1 _)
    rw [decided]
    exact ⟨fun hit => congrArg some (if_pos (same.mpr hit)),
      fun miss => congrArg some (if_neg fun hit => miss (same.mp hit))⟩

def invertedSet : NumberSets := ((qualifySyscallTokens twoPersonalities invertedSpec
  fun _ => { vec := [7] }).toOption).getD fun _ => {}

def invertedFilter : Buffer := ((checkSeccompFilterProperties
  { twoPersonalities.toConfig with traceSet := some invertedSet } true true).bind (·.1)).getD []

/-- The installed filter stops syscall 0 of the second personality, so the
specification stands for it: it is not `read`. -/
theorem trace_option_decides_inverted :
    exec (SeccompData.load ⟨0, 0⟩) invertedFilter = some seccompRetTrace ∧
      (tracedBySeccomp { twoPersonalities.toConfig with traceSet := none } 0 1 ∨
        Xor (Odd 1) (twoPersonalities.SpecDenotes (invertedSpec.dropWhile (· == '!')) 1 0)) := by
  have traced : exec (SeccompData.load ⟨0, 0⟩) invertedFilter = some seccompRetTrace := by decide
  have second : Selected twoPersonalities.toConfig ⟨0, 0⟩ 2 1 :=
    ⟨⟨by decide, by decide⟩, fun q below => Nat.le_of_lt_succ below.1⟩
  have decides :=
    trace_option_decides twoPersonalities (by decide) (fun _ _ flag => absurd rfl flag)
    (show qualifySyscallTokens _ invertedSpec (fun _ => { vec := [7] }) = .ok invertedSet from rfl)
    (show checkSeccompFilterProperties _ true true = some (some invertedFilter, true) by decide)
    second (by decide)
  refine ⟨traced, Classical.by_contradiction fun other => ?_⟩
  exact absurd (traced.symm.trans (decides.2 other)) (by decide)

end Strace.Seccomp
