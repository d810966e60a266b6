import Strace.Seccomp.Install

/-! How much the generators write. Sections are checked for their size only
once they are complete, so the longest possible section has to fit the buffer
as well. -/
namespace Strace.Seccomp
open List Option UInt32 ClassicBpf

def WideFlag (flag : UInt32) : Prop := flag = 0 ∨ ∃ k, 10 ≤ k ∧ flag.toNat = 2 ^ k

theorem or_high (q g : Nat) {r : Nat} (low : r < 2 ^ 10) :
    (2 ^ 10 * q + r) ||| 2 ^ 10 * g = 2 ^ 10 * (q ||| g) + r := by
  have shifted : 2 ^ 10 * (q ||| g) = 2 ^ 10 * q ||| 2 ^ 10 * g := by
    simp only [Nat.mul_comm (2 ^ 10), ← Nat.shiftLeft_eq, Nat.shiftLeft_or_distrib]
  rw [Nat.two_pow_add_eq_or_of_lt low, Nat.two_pow_add_eq_or_of_lt low, shifted]
  rw [Nat.or_assoc, Nat.or_comm r, Nat.or_assoc]

variable {flag : UInt32} {lo : Nat} {prog : Buffer}

theorem or_flag_succ (wide : WideFlag flag) (small : lo + 1 < 2 ^ 32) (inner : lo % 1024 ≠ 1023) :
    (UInt32.ofNat lo ||| flag) + 1 = UInt32.ofNat (lo + 1) ||| flag := by
  have exact_lo : (UInt32.ofNat lo).toNat = lo :=
    UInt32.toNat_ofNat_of_lt' (by simp only [UInt32.size]; omega)
  have exact_hi := UInt32.toNat_ofNat_of_lt' (by simp only [UInt32.size]; omega)
  apply UInt32.toNat_inj.mp
  have bound := (UInt32.ofNat (lo + 1) ||| flag).toNat_lt
  suffices h : (UInt32.ofNat lo ||| flag).toNat + 1 = (UInt32.ofNat (lo + 1) ||| flag).toNat by
    rw [UInt32.toNat_add, show (1 : UInt32).toNat = 1 from rfl, Nat.mod_eq_of_lt (by omega), h]
  rw [UInt32.toNat_or, UInt32.toNat_or, exact_lo, exact_hi]
  obtain ⟨g, shape⟩ : ∃ g, flag.toNat = 2 ^ 10 * g := by
    obtain rfl | ⟨k, above, bit⟩ := wide
    · exact ⟨0, rfl⟩
    · obtain ⟨j, rfl⟩ := Nat.exists_eq_add_of_le above
      exact ⟨2 ^ j, by rw [bit, Nat.pow_add]⟩
  have lower : lo = 2 ^ 10 * (lo / 1024) + lo % 1024 := by omega
  have upper : lo + 1 = 2 ^ 10 * (lo / 1024) + (lo % 1024 + 1) := by omega
  have first := or_high (lo / 1024) g (show lo % 1024 < 2 ^ 10 by omega)
  have second := or_high (lo / 1024) g (show lo % 1024 + 1 < 2 ^ 10 by omega)
  rw [shape, upper]
  rw [← lower] at first
  omega

theorem length_cmp (wide : WideFlag flag) {hi : Nat} (ordered : lo < hi) (small : hi < 2 ^ 32) :
    3 * (bpfSyscallsCmp (UInt32.ofNat lo ||| flag) (UInt32.ofNat hi ||| flag)).length + 2 *
      (lo / 1024)
      ≤ 2 * (hi - lo) + 2 + 2 * (hi / 1024) := by
  unfold bpfSyscallsCmp
  split
  · grind
  · next differ =>
    simp only [length_cons, length_nil]
    by_cases single : hi = lo + 1
    · have last : lo % 1024 = 1023 := by
        by_contra inner
        exact differ (single ▸ or_flag_succ wide (by omega) inner)
      omega
    · omega

theorem length_patchJumps (pos i count : Nat) (filter : Buffer) :
    (patchJumps pos i count filter).length = filter.length := by
  induction count generalizing i filter with
  | zero => rfl
  | succ count ih => rw [patchJumps, ih, length_modify]

section
variable {c : Config} {p : Nat}

theorem length_linearCmps (wide : WideFlag (c.auditArchVec p).flag) (i count : Nat) (lower : UInt32)
    (small : i + count < 2 ^ 32) (opened : lower ≠ uintMax → lower.toNat < i) :
    3 * (linearCmps c p i count lower).length +
        2 * ((if lower = uintMax then i else lower.toNat) / 1024) ≤
      2 * (i + count - (if lower = uintMax then i else lower.toNat)) + 2 + 2 *
        ((i + count) / 1024) := by
  induction count generalizing i lower with
  | zero =>
    unfold linearCmps
    by_cases idle : lower = uintMax
    · simp [idle, ne_eq, not_true_eq_false, ↓reduceIte, List.length_nil]
    · have below := opened idle
      have cost := length_cmp wide below (by omega)
      rw [UInt32.ofNat_toNat] at cost
      simp only [idle, ne_eq, not_false_eq_true, ↓reduceIte]
      omega
  | succ count ih =>
    unfold linearCmps
    by_cases traced : tracedBySeccomp c i p = true
    · rw [if_pos traced]
      by_cases idle : lower = uintMax
      · have exact_i : (UInt32.ofNat i).toNat = i :=
          UInt32.toNat_ofNat_of_lt' (by simp only [UInt32.size]; omega)
        have proper : UInt32.ofNat i ≠ uintMax := by
          intro h
          have := congrArg UInt32.toNat h
          rw [show uintMax.toNat = 2 ^ 32 - 1 from rfl] at this
          omega
        have rest := ih (i + 1) (UInt32.ofNat i) (by omega) (fun _ => by omega)
        simp only [idle, ↓reduceIte, proper] at rest ⊢
        omega
      · have below := opened idle
        have rest := ih (i + 1) lower (by omega) (fun _ => by omega)
        simp only [idle, ↓reduceIte] at rest ⊢
        omega
    · rw [if_neg traced]
      have rest := ih (i + 1) uintMax (by omega) (fun h => absurd rfl h)
      simp only [↓reduceIte] at rest
      by_cases idle : lower = uintMax
      · grind
      · have below := opened idle
        have cost := length_cmp wide below (by omega)
        rw [UInt32.ofNat_toNat] at cost
        simp only [idle, ↓reduceIte, List.length_append]
        omega

theorem length_linearHead : (linearHead c p).length ≤ 5 := by
  unfold linearHead
  split <;> split <;> simp

theorem length_linearBody (wide : WideFlag (c.auditArchVec p).flag)
    (small : c.nsyscallVec p ≤ 8192) : (linearBody c p).length ≤ 5475 := by
  rw [le_iff_toNat_le, show (8192 : UInt32).toNat = 8192 from rfl] at small
  have head := length_linearHead (c := c) (p := p)
  have cmps := length_linearCmps wide 0 (c.nsyscallVec p).toNat uintMax (by omega)
    (fun h => absurd rfl h)
  rw [linearBody, length_append]
  omega

theorem length_matchHead : (matchHead c p).length ≤ 14 := by
  unfold matchHead
  split <;> split <;> split <;> simp

theorem length_match (word idx : UInt32) : (bpfSyscallsMatch word idx).length ≤ 3 := by
  unfold bpfSyscallsMatch
  split
  · simp
  · split <;> simp

theorem matchScan_total (i count : Nat) (word : UInt32) (filter : Buffer)
    (fits : filter.length ≤ bpfMaxinsns + 14) :
    ∃ s, matchScan c p i count word filter = some s ∧ s.1.length ≤ bpfMaxinsns + 14 := by
  induction count generalizing i word filter with
  | zero => exact ⟨_, rfl, fits⟩
  | succ count ih =>
    unfold matchScan
    split
    · next room =>
      dsimp only
      split
      · have size := length_match
          (if tracedBySeccomp c i p then word ||| (1 <<< UInt32.ofNat (i % 32)) else word)
          (UInt32.ofNat (i / 32))
        rw [emits_fits (by unfold bpfMaxinsns at room ⊢; omega)]
        exact ih _ _ _ (by rw [length_append]; omega)
      · exact ih _ _ _ fits
    · exact ⟨_, rfl, fits⟩

theorem matchSection_total (filter : Buffer) (fits : filter.length ≤ bpfMaxinsns) :
    ∃ f overflow, matchSection c p filter = some (f, overflow) ∧ f.length ≤ bpfMaxinsns + 19 := by
  have head := length_matchHead (c := c) (p := p)
  rw [matchSection_parts, emits_fits (by unfold bpfMaxinsns at fits ⊢; omega), bind_some]
  obtain ⟨⟨g, word, i⟩, scanned, size⟩ := matchScan_total 0 (c.nsyscallVec p).toNat 0
    (filter ++ matchHead c p) (by rw [length_append]; omega)
  have last := length_match word (UInt32.ofNat (i / 32))
  have flushed :
      (if i % 32 ≠ 0 then bpfSyscallsMatch word (UInt32.ofNat (i / 32)) else []).length ≤ 3 := by
    split
    · exact last
    · simp
  have tail_size : matchTail.length = 2 := rfl
  simp only at size
  rw [scanned, bind_some, emits_fits (by dsimp only; unfold bpfMaxinsns at size ⊢; omega),
    bind_some, emits_fits (by simp only [length_append]; unfold bpfMaxinsns at size ⊢; omega),
    bind_some]
  generalize (if i % 32 ≠ 0 then bpfSyscallsMatch word (UInt32.ofNat (i / 32)) else []) =
    flush at flushed ⊢
  have written : (g ++ flush ++ matchTail).length ≤ bpfMaxinsns + 19 := by
    simp only [length_append]
    omega
  split
  · exact ⟨_, _, rfl, written⟩
  · exact ⟨_, _, rfl, by rwa [length_patchJumps]⟩

theorem matchSections_total (filter : Buffer) (fits : filter.length ≤ bpfMaxinsns + 19) :
    ∃ f overflow, matchSections c p filter = some (f, overflow) ∧ f.length ≤ bpfMaxinsns + 19 := by
  induction p generalizing filter with
  | zero => exact ⟨_, _, rfl, fits⟩
  | succ p ih =>
    unfold matchSections
    split
    · next room =>
      obtain ⟨g, overflow, written, size⟩ := matchSection_total filter room
      rw [written]
      cases overflow with
      | true => exact ⟨g, true, rfl, size⟩
      | false => exact ih g size
    · exact ⟨_, _, rfl, fits⟩

theorem linearSection_total (wide : WideFlag (c.auditArchVec p).flag)
    (small : c.nsyscallVec p ≤ 8192) (filter : Buffer) (room : filter.length ≤ 1021) :
    ∃ f overflow, linearSection c p filter = some (f, overflow) ∧
      (overflow = false → f.length ≤ filter.length + ucharMax) := by
  have body := length_linearBody wide small
  have tail_size : (linearTail c p).length = 3 := rfl
  have written : emits filter (linearBody c p ++ linearTail c p) =
      some (filter ++ (linearBody c p ++ linearTail c p)) :=
    emits_fits (by rw [length_append]; unfold bpfMaxinsns; omega)
  cases done : linearSection c p filter with
  | none => rw [linearSection_eq, emitSection, written] at done; cases done
  | some result =>
    obtain ⟨f, overflow⟩ := result
    refine ⟨f, overflow, rfl, ?_⟩
    intro complete
    rw [linearSection_eq] at done
    obtain ⟨rfl, -, -⟩ | ⟨-, short, rfl⟩ := emitSection_some done
    · cases complete
    · grind [length_link]

theorem linearSections_total (wide : ∀ q < p, WideFlag (c.auditArchVec q).flag)
    (small : ∀ q < p, c.nsyscallVec q ≤ 8192) (filter : Buffer)
    (room : filter.length + ucharMax * p ≤ 1 + ucharMax * 3) :
    ∃ f overflow, linearSections c p filter = some (f, overflow) ∧
      (overflow = false → f.length ≤ 1 + ucharMax * 3) := by
  unfold ucharMax at room
  induction p generalizing filter with
  | zero => exact ⟨filter, false, rfl, fun _ => by unfold ucharMax; omega⟩
  | succ p ih =>
    obtain ⟨g, overflow, written, size⟩ := linearSection_total (wide p (Nat.lt_succ_self p))
      (small p (Nat.lt_succ_self p)) filter (by omega)
    unfold linearSections
    rw [written]
    cases overflow with
    | true => exact ⟨g, true, rfl, fun h => by cases h⟩
    | false =>
      have grown := size rfl
      unfold ucharMax at grown
      exact ih (fun q hq => wide q (by omega)) (fun q hq => small q (by omega)) g (by omega)

theorem generate_total {sections : Buffer → Option (Buffer × Bool)} {f : Buffer} {overflow : Bool}
    (written : sections (programHead c) = some (f, overflow))
    (room : overflow = false → f.length < 2 * bpfMaxinsns) :
    ∃ prog overflow, generate c sections = some (prog, overflow) := by
  have tail_size : (programTail c).length ≤ 1 := by
    unfold programTail
    split <;> simp
  have first : emits [] (programHead c) = some (programHead c) := emits_fits (by
    unfold programHead bpfMaxinsns
    split <;> simp)
  unfold generate
  rw [first, bind_eq_bind, bind_some, written]
  cases overflow with
  | true => exact ⟨f, true, rfl⟩
  | false =>
    have := room rfl
    refine ⟨f ++ programTail c, false, ?_⟩
    change (emits f (programTail c)).bind _ = _
    rw [emits_fits (by omega)]
    rfl

end

theorem length_programHead (c : Config) : (programHead c).length ≤ 1 := by
  unfold programHead
  split <;> simp

theorem length_programTail (c : Config) : (programTail c).length ≤ 1 := by
  unfold programTail
  split <;> simp

theorem matchSections_short (c : Config) (p : Nat) {filter f : Buffer}
    (h : matchSections c p filter = some (f, false)) : f.length ≤ filter.length + ucharMax * p := by
  induction p generalizing filter with
  | zero =>
    simp only [matchSections, Option.some.injEq, Prod.mk.injEq, and_true] at h
    rw [h]
    exact Nat.le_add_right _ _
  | succ p ih =>
    unfold matchSections at h
    split at h
    · obtain ⟨⟨g, overflow⟩, written, others⟩ := bind_eq_some_iff.mp h
      obtain ⟨made, -, same, -⟩ := matchSection_eq c p filter
      rw [same] at written
      obtain ⟨rfl, -, -⟩ | ⟨rfl, short, rfl⟩ := emitSection_some written
      · simp at others
      · have grown := ih (by simpa using others)
        simp only [length_append, length_link] at grown
        rw [Nat.mul_succ]
        omega
    · simp only [Option.some.injEq, Prod.mk.injEq, and_true] at h
      rw [h]
      exact Nat.le_add_right _ _

theorem chooseShorter_some {best : Option Buffer} {generated : Buffer × Bool}
    (chosen : chooseShorter best generated = some prog) : best = some prog ∨
      generated = (prog, false) := by
  unfold chooseShorter at chosen
  dsimp only at chosen
  split at chosen
  · next better => exact Or.inr (Prod.ext (Option.some.inj chosen) better.2)
  · exact Or.inl chosen

theorem chosen_filter (c : Config) {available orderKnown : Bool}
    (chosen : checkSeccompFilterProperties c available orderKnown = some (some prog, true)) :
    prog.length ≤ bpfMaxinsns ∧ (linearFilterGenerator c = some (prog, false) ∨
      binaryMatchFilterGenerator c = some (prog, false)) := by
  unfold checkSeccompFilterProperties at chosen
  split at chosen
  · simp at chosen
  · obtain ⟨linear, generated_linear, chosen⟩ := bind_eq_some_iff.mp chosen
    obtain ⟨binary, generated_binary, chosen⟩ := bind_eq_some_iff.mp chosen
    dsimp only at chosen
    split at chosen
    · simp at chosen
    · next filter picked =>
      split at chosen
      · simp at chosen
      · next fits =>
        obtain rfl : filter = prog := by simpa using (Prod.mk.inj (Option.some.inj chosen)).1
        refine ⟨Nat.not_lt.mp fits, ?_⟩
        rcases chooseShorter_some picked with earlier | rfl
        · rcases chooseShorter_some earlier with none | rfl
          · cases none
          · exact Or.inl generated_linear
        · exact Or.inr generated_binary

/-- Both generators stay inside their buffers, what they return without
overflow is safe to install, and the program chosen for use fits the limit. -/
theorem generated_filters_safe (c : Config) (supported : 0 < c.supportedPersonalities)
    (few : c.supportedPersonalities ≤ 3)
    (wide : ∀ p < c.supportedPersonalities, WideFlag (c.auditArchVec p).flag)
    (small : ∀ p < c.supportedPersonalities, c.nsyscallVec p ≤ 8192) :
    (∃ prog overflow, linearFilterGenerator c = some (prog, overflow)) ∧
    (∃ prog overflow, binaryMatchFilterGenerator c = some (prog, overflow)) ∧
    (∀ prog, linearFilterGenerator c = some (prog, false) →
      Installable c (linearBody c) (linearTail c) prog) ∧
    (∀ prog, binaryMatchFilterGenerator c = some (prog, false) →
      Installable c (matchBody c) (fun _ => matchTail) prog) ∧
    (∀ available orderKnown prog,
      checkSeccompFilterProperties c available orderKnown = some (some prog, true) →
      prog.length ≤ bpfMaxinsns ∧ (linearFilterGenerator c = some (prog, false) ∨
        binaryMatchFilterGenerator c = some (prog, false))) := by
  have head := length_programHead c
  refine ⟨?_, ?_, ?_, ?_, ?_⟩
  · have room :
        (programHead c).length + ucharMax * c.supportedPersonalities ≤ 1 + ucharMax * 3 := by
      unfold ucharMax
      omega
    obtain ⟨f, overflow, written, size⟩ := linearSections_total wide small (programHead c) room
    apply generate_total written
    intro complete
    have := size complete
    unfold ucharMax at this
    unfold bpfMaxinsns
    omega
  · obtain ⟨f, overflow, written, size⟩ := matchSections_total
      (programHead c) (by unfold bpfMaxinsns; omega)
    apply generate_total written
    intro _
    unfold bpfMaxinsns at size ⊢
    omega
  · intro prog generated
    obtain ⟨short, rfl⟩ := linearFilterGenerator_some c generated
    exact installable supported fun q hq => goodSection_linear c q (short q hq)
  · intro prog generated
    have fits : prog.length ≤ bpfMaxinsns := by
      obtain ⟨f, sections, rfl⟩ := generate_some generated
      have size := matchSections_short c _ sections
      have tail := length_programTail c
      rw [List.length_append]
      unfold ucharMax at size
      unfold bpfMaxinsns
      omega
    obtain ⟨short, rfl⟩ := binaryMatchFilterGenerator_some c generated fits
    exact installable supported fun q hq => goodSection_match c q (short q hq)
  · exact fun available orderKnown prog chosen => chosen_filter c chosen

theorem generated_filters_safe_x32 :
    Installable x32Build (linearBody x32Build) (linearTail x32Build) x32Filter := by
  have bits (p : Nat) : WideFlag (x32Build.auditArchVec p).flag := by
    by_cases first : p = 0
    · exact Or.inr ⟨30, by decide, by simp [x32Build, first]⟩
    · exact Or.inl (by simp [x32Build, first])
  exact (generated_filters_safe x32Build (by decide) (by decide) (fun p _ => bits p)
    (fun _ _ => show (3 : UInt32) ≤ 8192 by decide)).2.2.1 x32Filter x32Build_generates

end Strace.Seccomp
