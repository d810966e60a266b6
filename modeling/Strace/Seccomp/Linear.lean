import Strace.Seccomp.Verdict

/-! The program of `linear_filter_generator` and the verdict it returns. -/
namespace Strace.Seccomp
open List UInt32 ClassicBpf

variable (c : Config) (p : Nat)

/-! ## The program as a list -/

def linearCmps : Nat → Nat → UInt32 → List Insn
  | i, 0, lower =>
    if lower ≠ uintMax then
      bpfSyscallsCmp (lower ||| (c.auditArchVec p).flag)
        (UInt32.ofNat i ||| (c.auditArchVec p).flag)
    else []
  | i, count + 1, lower =>
    if tracedBySeccomp c i p then
      linearCmps (i + 1) count (if lower = uintMax then UInt32.ofNat i else lower)
    else if lower = uintMax then
      linearCmps (i + 1) count lower
    else
      bpfSyscallsCmp (lower ||| (c.auditArchVec p).flag)
        (UInt32.ofNat i ||| (c.auditArchVec p).flag) ++
        linearCmps (i + 1) count uintMax

def linearHead : List Insn :=
  (if c.supportedPersonalities > 1 then
    [setBpfJump (opJeq ||| srcK) (c.auditArchVec p).arch 0 jmpPlaceholderNext]
  else []) ++
  ([setBpfStmt (classLd ||| sizeW ||| modeAbs) offsetNr] ++
  (if c.supportedPersonalities > 1 ∧ (c.auditArchVec p).flag ≠ 0 then
    [setBpfJump (opJge ||| srcK) (c.auditArchVec p).flag 2 0,
     setBpfStmt (classLd ||| sizeW ||| modeAbs) offsetArch,
     setBpfJump opJa jmpPlaceholderNext.toUInt32 0 0]
  else []))

def linearBody : List Insn :=
  linearHead c p ++ linearCmps c p 0 (c.nsyscallVec p).toNat uintMax

def linearTail : List Insn :=
  [setBpfJump (opJge ||| srcK) (c.nsyscallVec p ||| (c.auditArchVec p).flag) 1 0,
   setBpfStmt (classRet ||| srcK) seccompRetAllow,
   setBpfStmt (classRet ||| srcK) seccompRetTrace]

theorem linearScan_eq (i count : Nat) (lower : UInt32) (filter : Buffer) :
    ((linearScan c p i count lower filter).bind fun s =>
      emits s.1 (if s.2 ≠ uintMax then
        bpfSyscallsCmp (s.2 ||| (c.auditArchVec p).flag)
          (UInt32.ofNat (i + count) ||| (c.auditArchVec p).flag) else [])) =
      emits filter (linearCmps c p i count lower) := by
  induction count generalizing i lower filter with
  | zero => rfl
  | succ count ih =>
    have next (lower : UInt32) (f : Buffer) := ih (i + 1) lower f
    rw [show i + 1 + count = i + (count + 1) by omega] at next
    simp only [linearScan, linearCmps]
    split
    · exact next _ _
    · grind [emits_append]

theorem linearSection_eq (filter : Buffer) :
    linearSection c p filter = emitSection (linearBody c p) (linearTail c p) filter := by
  have scan := linearScan_eq c p 0 (c.nsyscallVec p).toNat uintMax
  simp only [Nat.zero_add, UInt32.ofNat_toNat] at scan
  rw [emitSection_eq]
  unfold linearSection linearBody linearHead
  simp only [emits_append, Option.bind_assoc]
  congr 1; funext f₁
  congr 1; funext f₂
  congr 1; funext f₃
  rw [← scan, Option.bind_assoc]
  rfl

theorem linearSections_some {filter f : Buffer} (h : linearSections c p filter = some (f, false)) :
    (∀ q < p, (linearBody c q).length + (linearTail c q).length ≤ ucharMax) ∧
      f = filter ++ linkSections (linearBody c) (linearTail c) p := by
  induction p generalizing filter with
  | zero => simp_all [linearSections, linkSections]
  | succ p ih =>
    obtain ⟨⟨g, overflow⟩, written, others⟩ := Option.bind_eq_some_iff.mp h
    rw [linearSection_eq] at written
    obtain ⟨rfl, -, -⟩ | ⟨rfl, short, rfl⟩ := emitSection_some written
    · simp at others
    · obtain ⟨all_short, rfl⟩ := ih (by simpa using others)
      refine ⟨?_, by simp [linkSections, linkSection]⟩
      intro q hq
      rcases Nat.lt_succ_iff_lt_or_eq.mp hq with below | rfl
      · exact all_short q below
      · exact short

theorem linearFilterGenerator_some {prog : Buffer}
    (h : linearFilterGenerator c = some (prog, false)) :
    (∀ q < c.supportedPersonalities,
      (linearBody c q).length + (linearTail c q).length ≤ ucharMax) ∧
    prog = linkProgram c (linearBody c) (linearTail c) := by
  obtain ⟨f, sections, rfl⟩ := generate_some h
  obtain ⟨short, rfl⟩ := linearSections_some c _ sections
  exact ⟨short, by simp [linkProgram]⟩

/-! ## The verdict -/

section
variable {load : UInt32 → Option UInt32} {r : Regs} {v : UInt32} {n : Nat} {rest code : List Insn}
  {lower : UInt32} {i bound : Nat}

theorem returns_cmp {upper : UInt32} (ordered : lower < upper)
    (short : (bpfSyscallsCmp lower upper ++ rest).length + n ≤ ucharMax) (room : 1 ≤ n)
    (hit : lower ≤ r.a → r.a < upper → Returns load (code.drop (n - 1)) r v)
    (miss : r.a < lower ∨ upper ≤ r.a → Returns load (link n rest ++ code) r v) :
    Returns load (link n (bpfSyscallsCmp lower upper ++ rest) ++ code) r v := by
  unfold bpfSyscallsCmp at short ⊢
  split
  · next single =>
    rw [if_pos single] at short
    simp only [List.cons_append, List.length_cons] at short ⊢
    have width := congrArg UInt32.toNat single
    rw [UInt32.toNat_add, show (1 : UInt32).toNat = 1 from rfl] at width
    apply returns_jeq
    · intro equal
      rw [landing_trace (by omega) room]
      exact hit (by simp [equal]) (equal ▸ ordered)
    · intro differ
      have differ' : r.a.toNat ≠ lower.toNat := fun h => differ (UInt32.toNat_inj.mp h)
      apply miss
      rw [UInt32.lt_iff_toNat_lt, UInt32.le_iff_toNat_le]
      omega
  · next wide =>
    rw [if_neg wide] at short
    simp only [List.cons_append, List.length_cons] at short ⊢
    apply returns_jge
    · intro above
      apply returns_jge
      · exact fun beyond => miss (Or.inr beyond)
      · intro below
        rw [landing_trace (by omega) room]
        exact hit above below
    · exact fun below => miss (Or.inl below)

def Hit (i count : Nat) (lower : UInt32) (s : Nat) : Prop :=
  (lower ≠ uintMax ∧ lower.toNat ≤ s ∧ s < i) ∨
  (i ≤ s ∧ s < i + count ∧ tracedBySeccomp c s p = true)

theorem hit_traced (count s : Nat) (small : i < uintMax.toNat)
    (opened : lower ≠ uintMax → lower.toNat < i) (traced : tracedBySeccomp c i p = true) :
    Hit c p (i + 1) count (if lower = uintMax then UInt32.ofNat i else lower) s ↔
      Hit c p i (count + 1) lower s := by
  have exact_i : (UInt32.ofNat i).toNat = i :=
    toNat_ofNat_of_lt' (by have := uintMax.toNat_lt; simp only [UInt32.size]; omega)
  unfold Hit
  by_cases none : lower = uintMax
  · constructor
    · grind
    · grind
  · have := opened none
    constructor
    · grind
    · grind

theorem hit_skipped (count s : Nat) (lower : UInt32) (skipped : tracedBySeccomp c i p = false) :
    Hit c p i (count + 1) lower s ↔
      (lower ≠ uintMax ∧ lower.toNat ≤ s ∧ s < i) ∨ Hit c p (i + 1) count uintMax s := by
  unfold Hit
  simp only [ne_eq, not_true_eq_false, false_and, false_or]
  refine or_congr_right ⟨?_, ?_⟩
  · rintro ⟨_, _, h⟩
    have : s ≠ i := by rintro rfl; simp [skipped] at h
    exact ⟨by omega, by omega, h⟩
  · grind

theorem returns_run {flag : UInt32} {lo hi : Nat} (apart : Apart flag bound) (le : hi ≤ bound)
    (small : bound < 2 ^ 32) (ordered : lo < hi) (room : 1 ≤ n)
    (short : (bpfSyscallsCmp (UInt32.ofNat lo ||| flag) (UInt32.ofNat hi ||| flag) ++ rest).length
      + n ≤ ucharMax)
    (hit : ∀ s, r.a.toNat = s + flag.toNat → lo ≤ s → s < hi → Returns load (code.drop (n - 1)) r v)
    (miss : (∀ s, r.a.toNat = s + flag.toNat → ¬ (lo ≤ s ∧ s < hi)) →
      Returns load (link n rest ++ code) r v) :
    Returns load
      (link n (bpfSyscallsCmp (UInt32.ofNat lo ||| flag) (UInt32.ofNat hi ||| flag) ++ rest)
      ++ code) r v := by
  have exact_lo : (UInt32.ofNat lo).toNat = lo := toNat_ofNat_of_lt' (by
    simp only [UInt32.size]; omega)
  have exact_hi : (UInt32.ofNat hi).toNat = hi := toNat_ofNat_of_lt' (by
    simp only [UInt32.size]; omega)
  have lower := or_flag (x := UInt32.ofNat lo) apart (by omega)
  have upper := or_flag (x := UInt32.ofNat hi) apart (by omega)
  apply returns_cmp (lt_iff_toNat_lt.mpr (by omega)) short room
  · intro above below
    rw [le_iff_toNat_le] at above
    rw [lt_iff_toNat_lt] at below
    exact hit (r.a.toNat - flag.toNat) (by omega) (by omega) (by omega)
  · intro outside
    rw [lt_iff_toNat_lt, le_iff_toNat_le] at outside
    exact miss fun s hs => by omega

theorem returns_cmps {count : Nat} (apart : Apart (c.auditArchVec p).flag bound)
    (total : i + count = bound) (small : bound < 2 ^ 32)
    (opened : lower ≠ uintMax → lower.toNat < i) (room : 1 ≤ n)
    (short : (linearCmps c p i count lower).length + n ≤ ucharMax)
    (hit : ∀ s, r.a.toNat = s + (c.auditArchVec p).flag.toNat → Hit c p i count lower s →
      Returns load (code.drop (n - 1)) r v)
    (miss : (∀ s, r.a.toNat = s + (c.auditArchVec p).flag.toNat → ¬ Hit c p i count lower s) →
      Returns load code r v) :
    Returns load (link n (linearCmps c p i count lower) ++ code) r v := by
  induction count generalizing i lower with
  | zero =>
    unfold linearCmps at short ⊢
    split
    · next running =>
      have below := opened running
      rw [if_pos running] at short
      rw [← List.append_nil (bpfSyscallsCmp _ _)] at short ⊢
      have lower_eq : lower = UInt32.ofNat lower.toNat := UInt32.ofNat_toNat.symm
      rw [lower_eq] at short ⊢
      apply returns_run apart (by omega) small below room short
      · intro s number above below
        exact hit s number (Or.inl ⟨running, above, below⟩)
      · intro none
        apply miss
        rintro s number (⟨_, inside⟩ | ⟨_, _, _⟩)
        · exact none s number inside
        · omega
    · next idle =>
      apply miss
      rintro s number (⟨running, _⟩ | ⟨_, _, _⟩)
      · exact idle running
      · omega
  | succ count ih =>
    unfold linearCmps at short ⊢
    split
    · next traced =>
      rw [if_pos traced] at short
      have same (s : Nat) := hit_traced c p count s (by
        simp only [show uintMax.toNat = 2 ^ 32 - 1 from rfl]; omega) opened traced
      apply ih (by omega) _ short
      · grind
      · intro none
        exact miss fun s number h => none s number ((same s).mpr h)
      · split
        · rw [UInt32.toNat_ofNat_of_lt' (by simp only [UInt32.size]; omega)]
          omega
        · intro running
          have := opened running
          omega
    · next skipped =>
      rw [if_neg skipped] at short
      have same (s : Nat) := hit_skipped c p count s lower
        (Bool.not_eq_true _ ▸ skipped)
      split
      · next idle =>
        subst idle
        apply ih (by omega) (fun h => absurd rfl h) short
        · intro s number h
          exact hit s number ((same s).mpr (Or.inr h))
        · intro none
          apply miss
          intro s number h
          rcases (same s).mp h with ⟨running, _⟩ | h
          · exact running rfl
          · exact none s number h
      · next running =>
        have below := opened running
        rw [if_neg running] at short
        have lower_eq : lower = UInt32.ofNat lower.toNat := UInt32.ofNat_toNat.symm
        rw [lower_eq] at short ⊢
        apply returns_run apart (by omega) small below room short
        · intro s number above below
          exact hit s number ((same s).mpr (Or.inl ⟨running, above, below⟩))
        · intro none
          apply ih (by omega) (fun h => absurd rfl h) (by simp at short; omega)
          · intro s number h
            exact hit s number ((same s).mpr (Or.inr h))
          · intro none'
            apply miss
            intro s number h
            rcases (same s).mp h with ⟨_, inside⟩ | h
            · exact none s number inside
            · exact none' s number h

end

def LinearTraces (nr : UInt32) : Prop :=
  (∃ s, nr.toNat = s + (c.auditArchVec p).flag.toNat ∧
    Hit c p 0 (c.nsyscallVec p).toNat uintMax s) ∨
  (c.nsyscallVec p).toNat + (c.auditArchVec p).flag.toNat ≤ nr.toNat

variable {d : SeccompData} {x v : UInt32} {code : List Insn}

theorem sectionTraces_iff (apart : Apart (c.auditArchVec p).flag (c.nsyscallVec p).toNat)
    (le : (c.auditArchVec p).flag ≤ d.nr) :
    SectionTraces c d p ↔ LinearTraces c p d.nr := by
  have bare := without_flag apart le
  simp only [SectionTraces, LinearTraces, bareNr, Hit, le_iff_toNat_le, ne_eq,
    not_true_eq_false, false_and, Nat.zero_le]
  constructor
  · grind
  · grind

theorem returns_linearRest {load : UInt32 → Option UInt32} {nr : UInt32}
    (apart : Apart (c.auditArchVec p).flag (c.nsyscallVec p).toNat)
    (short : (linearCmps c p 0 (c.nsyscallVec p).toNat uintMax).length + 3 ≤ ucharMax)
    (trace : LinearTraces c p nr → v = seccompRetTrace)
    (allow : ¬ LinearTraces c p nr → v = seccompRetAllow) :
    Returns load
      (link 3 (linearCmps c p 0 (c.nsyscallVec p).toNat uintMax) ++ (linearTail c p ++ code))
      ⟨nr, x⟩ v := by
  apply returns_cmps c p apart (Nat.zero_add _) (toNat_lt _) (fun h => absurd rfl h)
    (by decide) short
  · intro s number hit
    rw [trace (Or.inl ⟨s, number, hit⟩)]
    exact Returns.ret rfl
  · intro none
    have bound := or_flag apart (Nat.le_refl _)
    refine Returns.jgeK rfl ?_
    split
    · next unknown =>
      simp only [setBpfJump, le_iff_toNat_le, bound] at unknown
      rw [trace (Or.inr unknown)]
      exact Returns.ret rfl
    · next known =>
      simp only [setBpfJump, le_iff_toNat_le, bound] at known
      have nowhere : ¬ LinearTraces c p nr := by
        rintro (⟨s, number, hit⟩ | unknown)
        · exact none s number hit
        · exact known unknown
      rw [allow nowhere]
      exact Returns.ret rfl

theorem returns_linearSection (multi : 1 < c.supportedPersonalities)
    (apart : Apart (c.auditArchVec p).flag (c.nsyscallVec p).toNat)
    (short : (linearBody c p).length + (linearTail c p).length ≤ ucharMax)
    (next : ¬ Matches c d p → Returns d.load code ⟨d.arch, x⟩ v)
    (decided : Matches c d p →
      v = if SectionTraces c d p then seccompRetTrace else seccompRetAllow) :
    Returns d.load (linkSection (linearBody c p) (linearTail c p) ++ code) ⟨d.arch, x⟩ v := by
  have tail_size : (linearTail c p).length = 3 := rfl
  rw [linkSection, List.append_assoc]
  unfold linearBody linearHead at short ⊢
  rw [if_pos multi] at short ⊢
  simp only [List.cons_append, List.nil_append, List.length_cons, List.length_append] at short ⊢
  have cmps : Matches c d p → Returns d.load
      (link 3 (linearCmps c p 0 (c.nsyscallVec p).toNat uintMax) ++ (linearTail c p ++ code))
      ⟨d.nr, x⟩ v := by
    intro here
    have traces := sectionTraces_iff c p apart here.2
    rw [decided here]
    apply returns_linearRest c p apart (by omega)
    · exact fun h => if_pos (traces.mpr h)
    · exact fun h => if_neg fun h' => h (traces.mp h')
  apply returns_jeq
  · intro same
    apply returns_ld d.load_nr
    by_cases plain : (c.auditArchVec p).flag = 0
    · simp only [plain, ne_eq, not_true_eq_false, and_false]
      exact cmps ⟨same.symm, by simp [plain]⟩
    · simp only [multi, ne_eq, plain, not_false_eq_true, and_self, ↓reduceIte,
        List.cons_append, List.nil_append] at short ⊢
      apply returns_jge
      · exact fun above => cmps ⟨same.symm, above⟩
      · intro below
        apply returns_ld d.load_arch
        apply returns_ja (by omega)
        exact next fun here => UInt32.not_le.mpr below here.2
  · intro other
    rw [landing_next (by simp only [List.length_cons, List.length_append]; omega)]
    exact next fun here => other here.1.symm

theorem exec_linear_multi (multi : 1 < c.supportedPersonalities) (flags : FlagsApart c)
    (short : ∀ q < c.supportedPersonalities,
      (linearBody c q).length + (linearTail c q).length ≤ ucharMax) :
    exec d.load (linkProgram c (linearBody c) (linearTail c)) =
      some (verdict c d (fun p => SectionTraces c d p) c.supportedPersonalities) := by
  apply exec_linkProgram multi
  intro p supported code x v next decided
  exact returns_linearSection c p multi (flags.apart supported) (short p supported) next
    (by simpa using decided)

theorem exec_linear_single (single : c.supportedPersonalities = 1)
    (apart : Apart (c.auditArchVec 0).flag (c.nsyscallVec 0).toNat)
    (short : (linearBody c 0).length + (linearTail c 0).length ≤ ucharMax)
    (trace : LinearTraces c 0 d.nr → v = seccompRetTrace)
    (allow : ¬ LinearTraces c 0 d.nr → v = seccompRetAllow) :
    exec d.load (linkProgram c (linearBody c) (linearTail c)) = some v := by
  have alone : ¬ 1 < 1 := by decide
  have tail_size : (linearTail c 0).length = 3 := rfl
  apply Returns.exec_eq
  rw [linkProgram, programHead, programTail, single, linkSections, linkSections]
  unfold linearBody linearHead at short ⊢
  simp only [single, alone, false_and, ↓reduceIte, nil_append, append_nil,
    cons_append, length_cons] at short ⊢
  apply returns_ld d.load_nr
  exact returns_linearRest c 0 apart (by omega) trace allow

/-- The filter traces exactly the syscalls that no section takes and those
that the selected section traces, and allows the others. -/
theorem linear_filter_exact (c : Config) (multi : 1 < c.supportedPersonalities)
    (flags : FlagsApart c) {prog : Buffer}
      (generated : linearFilterGenerator c = some (prog, false))
    (d : SeccompData) :
    (exec d.load prog = some seccompRetTrace ↔
      (∀ p < c.supportedPersonalities, ¬ Matches c d p) ∨
      ∃ p, Selected c d c.supportedPersonalities p ∧ SectionTraces c d p) ∧
    (exec d.load prog ≠ some seccompRetTrace → exec d.load prog = some seccompRetAllow) := by
  obtain ⟨short, rfl⟩ := linearFilterGenerator_some c generated
  rw [exec_linear_multi c multi flags short]
  rcases selected_or_none c d c.supportedPersonalities with none | ⟨p, selected⟩
  · rw [verdict_none none]
    exact ⟨⟨fun _ => Or.inl none, fun _ => rfl⟩, fun h => absurd rfl h⟩
  · rw [verdict_selected selected]
    have unique (q : Nat) (h : Selected c d c.supportedPersonalities q) : q = p := h.unique selected
    have taken : ¬ ∀ q < c.supportedPersonalities, ¬ Matches c d q :=
      fun none => none p selected.1.1 selected.1.2
    by_cases traced : SectionTraces c d p
    · simp only [traced, decide_true, ↓reduceIte, true_iff]
      exact ⟨Or.inr ⟨p, selected, traced⟩, fun h => absurd rfl h⟩
    · simp only [traced, decide_false, Bool.false_eq_true, ↓reduceIte]
      refine ⟨⟨fun h => absurd h (by decide), ?_⟩, fun _ => trivial⟩
      rintro (none | ⟨q, hq, traces⟩)
      · exact absurd none taken
      · exact absurd (unique q hq ▸ traces) traced

def x32Build : Config where
  supportedPersonalities := 2
  auditArchVec p := if p = 0 then ⟨0xc000003e, 0x40000000⟩ else ⟨0x40000003, 0⟩
  nsyscallVec _ := 3
  sysentVec _ _ := {}
  traceSet := some fun _ => ⟨[0b10], false⟩

theorem x32Build_flags : FlagsApart x32Build := by
  intro p supported flagged
  have : p = 0 ∨ p = 1 := by
    change p < 2 at supported
    omega
  rcases this with rfl | rfl
  · exact ⟨⟨30, rfl⟩, by decide⟩
  · exact absurd rfl flagged

def x32Filter : Buffer := ((linearFilterGenerator x32Build).getD ([], true)).1

theorem x32Build_generates : linearFilterGenerator x32Build = some (x32Filter, false) := by decide

theorem linear_filter_exact_x32 :
    (exec (SeccompData.load ⟨0x40000001, 0xc000003e⟩) x32Filter = some seccompRetTrace ↔
      (∀ p < x32Build.supportedPersonalities, ¬ Matches x32Build ⟨0x40000001, 0xc000003e⟩ p) ∨
      ∃ p, Selected x32Build ⟨0x40000001, 0xc000003e⟩ x32Build.supportedPersonalities p ∧
        SectionTraces x32Build ⟨0x40000001, 0xc000003e⟩ p) ∧
    exec (SeccompData.load ⟨0x40000000, 0xc000003e⟩) x32Filter = some seccompRetAllow := by
  refine ⟨(linear_filter_exact x32Build (by decide) x32Build_flags x32Build_generates _).1, ?_⟩
  exact (linear_filter_exact x32Build (by decide) x32Build_flags x32Build_generates _).2 (by decide)

/-- Without the flag in the first case the statement fails: an unflagged
number of the x32 build's architecture selects no section and is traced. -/
theorem linear_filter_unflagged_traced :
    ¬ ∀ c : Config, 1 < c.supportedPersonalities → FlagsApart c → ∀ prog : Buffer,
      linearFilterGenerator c = some (prog, false) → ∀ d : SeccompData,
        (exec d.load prog = some seccompRetTrace ↔
          (∀ p < c.supportedPersonalities, (c.auditArchVec p).arch ≠ d.arch) ∨
          ∃ p, Selected c d c.supportedPersonalities p ∧ SectionTraces c d p) := by
  intro stated
  have traced := (stated x32Build (by decide) x32Build_flags x32Filter x32Build_generates
    ⟨1, 0xc000003e⟩).mp (by decide)
  rcases traced with no_arch | ⟨p, ⟨⟨supported, matched⟩, _⟩, _⟩
  · exact no_arch 0 (by decide) rfl
  · have : p = 0 ∨ p = 1 := by
      change p < 2 at supported
      omega
    rcases this with rfl | rfl
    · exact absurd matched (by decide)
    · exact absurd matched (by decide)

end Strace.Seccomp
