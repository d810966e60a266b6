import Strace.Seccomp.Verdict

/-! The program of `binary_match_filter_generator` and the verdict it returns. -/
namespace Strace.Seccomp
open List ClassicBpf

variable (c : Config) (p : Nat)

/-! ## The program as a list -/

def matchWords : Nat → Nat → UInt32 → List Insn
  | i, 0, bitarray =>
    if i % 32 ≠ 0 then bpfSyscallsMatch bitarray (UInt32.ofNat (i / 32)) else []
  | i, count + 1, bitarray =>
    let bitarray :=
      if tracedBySeccomp c i p then bitarray ||| (1 <<< UInt32.ofNat (i % 32)) else bitarray
    if i % 32 = 31 then
      bpfSyscallsMatch bitarray (UInt32.ofNat (i / 32)) ++ matchWords (i + 1) count 0
    else matchWords (i + 1) count bitarray

def matchHead : List Insn :=
  (if c.supportedPersonalities > 1 then
    [setBpfJump (opJeq ||| srcK) (c.auditArchVec p).arch 0 jmpPlaceholderNext]
  else []) ++
  ([setBpfStmt (classLd ||| sizeW ||| modeAbs) offsetNr] ++
  ((if c.supportedPersonalities > 1 ∧ (c.auditArchVec p).flag ≠ 0 then
    [setBpfJump (opJge ||| srcK) (c.auditArchVec p).flag 2 0,
     setBpfStmt (classLd ||| sizeW ||| modeAbs) offsetArch,
     setBpfJump opJa jmpPlaceholderNext.toUInt32 0 0,
     setBpfStmt (classAlu ||| opAnd ||| srcK) (~~~(c.auditArchVec p).flag)]
  else []) ++
  ([setBpfStmt (classAlu ||| opAnd ||| srcK) 0x1f,
    setBpfStmt (classMisc ||| miscTax) 0,
    setBpfStmt (classLd ||| modeImm) 1,
    setBpfStmt (classAlu ||| opLsh ||| srcX) 0,
    setBpfStmt (classMisc ||| miscTax) 0,
    setBpfStmt (classLd ||| sizeW ||| modeAbs) offsetNr] ++
  ((if (c.auditArchVec p).flag ≠ 0 then
    [setBpfStmt (classAlu ||| opAnd ||| srcK) (~~~(c.auditArchVec p).flag)]
  else []) ++
  [setBpfStmt (classAlu ||| opRsh ||| srcK) 5]))))

def matchBodyTo (count : Nat) : List Insn := matchHead c p ++ matchWords c p 0 count 0

def matchBody : List Insn := matchBodyTo c p (c.nsyscallVec p).toNat

def matchTail : List Insn :=
  [setBpfStmt (classRet ||| srcK) seccompRetAllow,
   setBpfStmt (classRet ||| srcK) seccompRetTrace]

theorem matchScan_eq (i count : Nat) (bitarray : UInt32) (filter : Buffer) :
    ∃ made ≤ count,
      ((matchScan c p i count bitarray filter).bind fun s =>
        emits s.1
          (if s.2.2 % 32 ≠ 0 then bpfSyscallsMatch s.2.1 (UInt32.ofNat (s.2.2 / 32)) else [])) =
        emits filter (matchWords c p i made bitarray) ∧
      (made < count → bpfMaxinsns < filter.length + (matchWords c p i made bitarray).length) := by
  induction count generalizing i bitarray filter with
  | zero => exact ⟨0, Nat.le_refl 0, rfl, fun h => absurd h (Nat.lt_irrefl 0)⟩
  | succ count ih =>
    by_cases fits : filter.length ≤ bpfMaxinsns
    · simp only [matchScan, fits]
      by_cases last : i % 32 = 31
      · generalize hw : (if tracedBySeccomp c i p then bitarray ||| (1 <<< UInt32.ofNat 31)
          else bitarray) = word
        cases written : emits filter (bpfSyscallsMatch word (UInt32.ofNat (i / 32))) with
        | none =>
          refine ⟨count + 1, Nat.le_refl _, ?_, fun h => absurd h (Nat.lt_irrefl _)⟩
          simp only [matchWords, last, ↓reduceIte, hw, emits_append, written]
          rfl
        | some f =>
          obtain ⟨made, le, same, exceeds⟩ := ih (i + 1) 0 f
          refine ⟨made + 1, by omega, ?_, ?_⟩
          · simp only [matchWords, last, ↓reduceIte, hw, emits_append, written]
            exact same
          · intro h
            have oversized := exceeds (by omega)
            rw [emits_some written] at oversized
            simp only [matchWords, last, ↓reduceIte, hw, length_append] at oversized ⊢
            omega
      · obtain ⟨made, le, same, exceeds⟩ := ih (i + 1)
          (if tracedBySeccomp c i p then bitarray ||| (1 <<< UInt32.ofNat (i % 32)) else bitarray)
          filter
        refine ⟨made + 1, by omega, ?_, ?_⟩
        · simpa [matchWords, last] using same
        · intro h
          simp only [matchWords, last]
          exact exceeds (by omega)
    · refine ⟨0, by omega, ?_, fun _ => by omega⟩
      simp only [matchScan, fits]
      rfl

theorem matchSection_parts (filter : Buffer) :
    matchSection c p filter = (emits filter (matchHead c p)).bind fun start =>
      ((matchScan c p 0 (c.nsyscallVec p).toNat 0 start).bind fun s =>
        emits s.1 (if s.2.2 % 32 ≠ 0 then bpfSyscallsMatch s.2.1 (UInt32.ofNat (s.2.2 / 32))
          else [])).bind fun g => (emits g matchTail).bind fun f =>
      if f.length - filter.length > ucharMax then some (f, true)
      else some (patchJumps f.length filter.length (g.length - filter.length) f, false) := by
  unfold matchHead
  simp only [emits_append, Option.bind_assoc]
  rfl

theorem matchSection_eq (filter : Buffer) :
    ∃ made ≤ (c.nsyscallVec p).toNat,
      matchSection c p filter = emitSection (matchBodyTo c p made) matchTail filter ∧
      (made < (c.nsyscallVec p).toNat →
        bpfMaxinsns < filter.length + (matchBodyTo c p made).length) := by
  rw [matchSection_parts]
  cases head : emits filter (matchHead c p) with
  | none =>
    refine ⟨_, Nat.le_refl _, ?_, fun h => absurd h (Nat.lt_irrefl _)⟩
    rw [emitSection_eq, matchBodyTo, emits_append, head]
    rfl
  | some start =>
    obtain ⟨made, le, same, exceeds⟩ := matchScan_eq c p 0 (c.nsyscallVec p).toNat 0 start
    refine ⟨made, le, ?_, ?_⟩
    · rw [emitSection_eq, matchBodyTo, emits_append, head, Option.bind_some, Option.bind_some, same]
    · intro h
      have oversized := exceeds h
      rw [emits_some head] at oversized
      simp only [matchBodyTo, length_append] at oversized ⊢
      omega

variable {filter f : Buffer} {x v : UInt32} {d : SeccompData} {code : List Insn}

theorem matchSections_length {overflow : Bool} (h : matchSections c p filter = some (f, overflow)) :
    filter.length ≤ f.length := by
  induction p generalizing filter with
  | zero =>
    grind [matchSections, Prod.mk.injEq]
  | succ p ih =>
    unfold matchSections at h
    split at h
    · obtain ⟨⟨g, exceeds⟩, written, others⟩ := Option.bind_eq_some_iff.mp h
      obtain ⟨made, -, same, -⟩ := matchSection_eq c p filter
      rw [same] at written
      obtain ⟨rfl, -, rfl⟩ | ⟨rfl, -, rfl⟩ := emitSection_some written
      · grind
      · have := ih (by simpa using others)
        simp only [length_append] at this
        omega
    · grind

theorem matchSections_some (h : matchSections c p filter = some (f, false))
    (fits : f.length ≤ bpfMaxinsns) :
    (∀ q < p, (matchBody c q).length + matchTail.length ≤ ucharMax) ∧
      f = filter ++ linkSections (matchBody c) (fun _ => matchTail) p := by
  induction p generalizing filter with
  | zero => simp_all [matchSections, linkSections]
  | succ p ih =>
    have room := matchSections_length c (p + 1) h
    rw [matchSections, if_pos (by omega)] at h
    obtain ⟨⟨g, overflow⟩, written, others⟩ := Option.bind_eq_some_iff.mp h
    obtain ⟨made, le, same, exceeds⟩ := matchSection_eq c p filter
    rw [same] at written
    obtain ⟨rfl, -, -⟩ | ⟨rfl, short, rfl⟩ := emitSection_some written
    · simp at others
    · have rest : matchSections c p (filter ++ (link matchTail.length (matchBodyTo c p made) ++
        matchTail)) = some (f, false) := by simpa using others
      have longer := matchSections_length c p rest
      obtain rfl : made = (c.nsyscallVec p).toNat := by
        by_contra fewer
        simp only [length_append, length_link] at longer
        omega
      obtain ⟨all_short, rfl⟩ := ih rest
      refine ⟨?_, by simp [linkSections, linkSection, matchBody]⟩
      intro q hq
      rcases Nat.lt_succ_iff_lt_or_eq.mp hq with below | rfl
      · exact all_short q below
      · exact short

theorem binaryMatchFilterGenerator_some {prog : Buffer}
    (h : binaryMatchFilterGenerator c = some (prog, false)) (fits : prog.length ≤ bpfMaxinsns) :
    (∀ q < c.supportedPersonalities, (matchBody c q).length + matchTail.length ≤ ucharMax) ∧
    prog = linkProgram c (matchBody c) (fun _ => matchTail) := by
  obtain ⟨f, sections, rfl⟩ := generate_some h
  obtain ⟨short, rfl⟩ := matchSections_some c _ sections
    (by simp only [length_append] at fits ⊢; omega)
  exact ⟨short, by simp [linkProgram]⟩

/-! ## The verdict -/

theorem and_bit {word : UInt32} {b : Nat} (bit : x.toNat = 2 ^ b) :
    x &&& word ≠ 0 ↔ word.toNat.testBit b = true := by
  rw [ne_eq, ← UInt32.toNat_inj, UInt32.toNat_and, bit, Nat.two_pow_and]
  cases word.toNat.testBit b <;> simp

section
variable {load : UInt32 → Option UInt32} {r : Regs} {v : UInt32} {rest code : List Insn}
  {word : UInt32} {b i : Nat}

theorem returns_match {idx : UInt32} (bit : r.x.toNat = 2 ^ b) (narrow : b < 32)
    (short : (bpfSyscallsMatch word idx ++ rest).length + 2 ≤ ucharMax)
    (trace : r.a = idx → word.toNat.testBit b = true → v = seccompRetTrace)
    (allow : r.a = idx → word.toNat.testBit b = false → v = seccompRetAllow)
    (other : r.a ≠ idx → Returns load (link 2 rest ++ (matchTail ++ code)) r v) :
    Returns load (link 2 (bpfSyscallsMatch word idx ++ rest) ++ (matchTail ++ code)) r v := by
  unfold bpfSyscallsMatch at short ⊢
  split
  · next empty =>
    rw [if_pos empty] at short
    simp only [cons_append, length_cons] at short ⊢
    apply returns_jeq
    · intro here
      rw [landing_allow (by omega) (by decide), allow here (by simp [empty])]
      exact Returns.ret rfl
    · exact other
  · next nonempty =>
    rw [if_neg nonempty] at short
    split
    · next full =>
      rw [if_pos full] at short
      simp only [cons_append, length_cons] at short ⊢
      apply returns_jeq
      · intro here
        have set : word.toNat.testBit b = true := by
          rw [full, show uintMax.toNat = 2 ^ 32 - 1 from rfl, Nat.testBit_two_pow_sub_one]
          simpa using narrow
        rw [landing_trace (by omega) (by decide), trace here set]
        exact Returns.ret rfl
      · exact other
    · next partly =>
      rw [if_neg partly] at short
      simp only [cons_append, length_cons] at short ⊢
      apply returns_jeq
      · intro here
        apply returns_stmt (by decide)
        apply Returns.txa rfl
        apply returns_jset
        · intro set
          rw [landing_trace (by omega) (by decide), trace here ((and_bit bit).mp set)]
          exact Returns.ret rfl
        · intro clear
          have unset : word.toNat.testBit b = false := by
            rw [← Bool.not_eq_true, ← and_bit bit]
            exact fun h => h clear
          rw [landing_allow (by omega) (by decide), allow here unset]
          exact Returns.ret rfl
      · exact other

def Collected (i : Nat) (word : UInt32) : Prop :=
  ∀ j < 32, word.toNat.testBit j = true ↔
    32 * (i / 32) + j < i ∧ tracedBySeccomp c (32 * (i / 32) + j) p = true

theorem collected_start (start : i % 32 = 0) : Collected c p i 0 := by
  intro j _
  simp only [UInt32.toNat_zero, Nat.zero_testBit, Bool.false_eq_true, false_iff]
  omega

theorem collected_add (collected : Collected c p i word) (j : Nat) (narrow : j < 32) :
    (if tracedBySeccomp c i p then word ||| (1 <<< UInt32.ofNat (i % 32)) else word).toNat.testBit j
        = true ↔
      32 * (i / 32) + j < i + 1 ∧ tracedBySeccomp c (32 * (i / 32) + j) p = true := by
  have shift : (1 <<< UInt32.ofNat (i % 32) : UInt32).toNat = 2 ^ (i % 32) := by
    have below : i % 32 < 32 := Nat.mod_lt _ (by decide)
    rw [UInt32.toNat_shiftLeft, UInt32.toNat_ofNat_of_lt' (by simp only [UInt32.size]; omega),
      Nat.mod_eq_of_lt below, UInt32.toNat_one, Nat.one_shiftLeft]
    exact Nat.mod_eq_of_lt (Nat.pow_lt_pow_right (by decide) below)
  have known := collected j narrow
  split
  · next traced =>
    rw [UInt32.toNat_or, shift, Nat.testBit_or, Nat.testBit_two_pow, Bool.or_eq_true, known]
    constructor
    · rintro (⟨below, h⟩ | same)
      · exact ⟨by omega, h⟩
      · have : 32 * (i / 32) + j = i := by
          simp only [decide_eq_true_eq] at same
          omega
        rw [this]
        exact ⟨by omega, traced⟩
    · grind
  · next skipped =>
    rw [known]
    constructor
    · grind
    · rintro ⟨below, h⟩
      refine ⟨?_, h⟩
      by_contra beyond
      rw [show 32 * (i / 32) + j = i by omega] at h
      exact skipped h

theorem returns_words {count bound : Nat} (total : i + count = bound) (small : bound < 2 ^ 32)
    (collected : Collected c p i word) (bit : r.x.toNat = 2 ^ b) (narrow : b < 32)
    (short : (matchWords c p i count word).length + 2 ≤ ucharMax)
    (trace : i / 32 ≤ r.a.toNat → 32 * r.a.toNat + b < bound →
      tracedBySeccomp c (32 * r.a.toNat + b) p = true → v = seccompRetTrace)
    (allow : (i / 32 ≤ r.a.toNat → 32 * r.a.toNat + b < bound →
      ¬ tracedBySeccomp c (32 * r.a.toNat + b) p = true) → v = seccompRetAllow) :
    Returns load (link 2 (matchWords c p i count word) ++ (matchTail ++ code)) r v := by
  have index : (UInt32.ofNat (i / 32)).toNat = i / 32 :=
    UInt32.toNat_ofNat_of_lt' (by simp only [UInt32.size]; omega)
  have at_index : r.a = UInt32.ofNat (i / 32) ↔ r.a.toNat = i / 32 := by
    rw [← UInt32.toNat_inj, index]
  induction count generalizing i word with
  | zero =>
    unfold matchWords at short ⊢
    split
    · next part =>
      rw [if_pos part] at short
      rw [← append_nil (bpfSyscallsMatch _ _)] at short ⊢
      apply returns_match bit narrow short
      · intro here set
        have here := at_index.mp here
        obtain ⟨below, traced⟩ := (collected b narrow).mp set
        rw [← here] at below traced
        exact trace (by omega) (by omega) traced
      · intro here clear
        have here := at_index.mp here
        apply allow
        intro _ below traced
        rw [here] at below traced
        have := (collected b narrow).mpr ⟨by omega, traced⟩
        rw [clear] at this
        cases this
      · intro other
        have apart : r.a.toNat ≠ i / 32 := fun h => other (at_index.mpr h)
        rw [allow fun _ _ => by omega]
        exact Returns.ret rfl
    · next whole =>
      rw [allow fun _ _ => by omega]
      exact Returns.ret rfl
  | succ count ih =>
    unfold matchWords at short ⊢
    have added := collected_add c p collected
    generalize (if tracedBySeccomp c i p then word ||| (1 <<< UInt32.ofNat (i % 32)) else word)
      = word' at added short ⊢
    split
    · next last =>
      rw [if_pos last] at short
      apply returns_match bit narrow short
      · intro here set
        have here := at_index.mp here
        obtain ⟨below, traced⟩ := (added b narrow).mp set
        rw [← here] at below traced
        exact trace (by omega) (by omega) traced
      · intro here clear
        have here := at_index.mp here
        apply allow
        intro _ below traced
        rw [here] at below traced
        have := (added b narrow).mpr ⟨by omega, traced⟩
        rw [clear] at this
        cases this
      · intro other
        have apart : r.a.toNat ≠ i / 32 := fun h => other (at_index.mpr h)
        have index' : (UInt32.ofNat ((i + 1) / 32)).toNat = (i + 1) / 32 :=
          UInt32.toNat_ofNat_of_lt' (by simp only [UInt32.size]; omega)
        apply ih (by omega) (collected_start c p (by omega))
          (by simp only [length_append] at short; omega)
          (fun reached => trace (by omega)) _ index' (by rw [← UInt32.toNat_inj, index'])
        intro h
        exact allow fun reached => h (by omega)
    · next more =>
      rw [if_neg more] at short
      have same_index : (i + 1) / 32 = i / 32 := by omega
      apply ih (by omega) _ short (by rw [same_index]; exact trace)
        (by rw [same_index]; exact allow)
        (by rw [same_index]; exact index) (by rw [same_index]; exact at_index)
      intro j hj
      rw [same_index]
      exact added j hj

end

def matchRest : List Insn :=
  setBpfStmt (classAlu ||| opAnd ||| srcK) 0x1f ::
  setBpfStmt (classMisc ||| miscTax) 0 ::
  setBpfStmt (classLd ||| modeImm) 1 ::
  setBpfStmt (classAlu ||| opLsh ||| srcX) 0 ::
  setBpfStmt (classMisc ||| miscTax) 0 ::
  setBpfStmt (classLd ||| sizeW ||| modeAbs) offsetNr ::
  ((if (c.auditArchVec p).flag ≠ 0 then
    [setBpfStmt (classAlu ||| opAnd ||| srcK) (~~~(c.auditArchVec p).flag)]
  else []) ++
  setBpfStmt (classAlu ||| opRsh ||| srcK) 5 :: matchWords c p 0 (c.nsyscallVec p).toNat 0)

def matchedNr (d : SeccompData) (m : UInt32) : Nat :=
  32 * ((bareNr c p d).toNat / 32) + m.toNat % 32

theorem returns_matchRest {m : UInt32} (short : (matchRest c p).length + 2 ≤ ucharMax)
    (trace : matchedNr c p d m < (c.nsyscallVec p).toNat →
      tracedBySeccomp c (matchedNr c p d m) p = true → v = seccompRetTrace)
    (allow : (matchedNr c p d m < (c.nsyscallVec p).toNat →
      ¬ tracedBySeccomp c (matchedNr c p d m) p = true) → v = seccompRetAllow) :
    Returns d.load (link 2 (matchRest c p) ++ (matchTail ++ code)) ⟨m, x⟩ v := by
  have low : (m &&& 0x1f).toNat = m.toNat % 32 := by
    exact Nat.and_two_pow_sub_one_eq_mod m.toNat 5
  have narrow : m.toNat % 32 < 32 := Nat.mod_lt _ (by decide)
  have bit : ((1 : UInt32) <<< (m &&& 0x1f)).toNat = 2 ^ (m.toNat % 32) := by
    rw [UInt32.toNat_shiftLeft, low, Nat.mod_eq_of_lt narrow, UInt32.toNat_one, Nat.one_shiftLeft]
    exact Nat.mod_eq_of_lt (Nat.pow_lt_pow_right (by decide) narrow)
  have index : (bareNr c p d >>> 5).toNat = (bareNr c p d).toNat / 32 := by
    exact Nat.shiftRight_eq_div_pow _ 5
  unfold matchedNr at trace allow
  rw [← index] at trace allow
  have words (room : (matchWords c p 0 (c.nsyscallVec p).toNat 0).length + 2 ≤ ucharMax) :
      Returns d.load (link 2 (setBpfStmt (classAlu ||| opRsh ||| srcK) 5 ::
        matchWords c p 0 (c.nsyscallVec p).toNat 0) ++ (matchTail ++ code))
        ⟨bareNr c p d, 1 <<< (m &&& 0x1f)⟩ v := by
    apply returns_stmt (by decide)
    apply Returns.rshK rfl
    exact returns_words c p (Nat.zero_add _) (UInt32.toNat_lt _)
      (collected_start c p rfl) bit narrow
      room (fun _ => trace) (fun h => allow (h (Nat.zero_le _)))
  unfold matchRest at short ⊢
  simp only [length_cons, length_append] at short
  apply returns_stmt (by decide)
  apply Returns.andK rfl
  apply returns_stmt (by decide)
  apply Returns.tax rfl
  apply returns_stmt (by decide)
  apply Returns.ldImm rfl
  apply returns_stmt (by decide)
  apply Returns.lshX rfl
  apply returns_stmt (by decide)
  apply Returns.tax rfl
  apply returns_ld d.load_nr
  split
  · next flagged =>
    apply returns_stmt (by decide)
    apply Returns.andK rfl
    exact words (by omega)
  · next plain =>
    have bare : bareNr c p d = d.nr := by
      simp only [not_not] at plain
      simp [bareNr, plain]
    have := words (by omega)
    rw [bare] at this
    exact this

theorem matchBody_eq : matchBody c p =
    (if c.supportedPersonalities > 1 then
      [setBpfJump (opJeq ||| srcK) (c.auditArchVec p).arch 0 jmpPlaceholderNext]
    else []) ++
    (setBpfStmt (classLd ||| sizeW ||| modeAbs) offsetNr ::
    ((if c.supportedPersonalities > 1 ∧ (c.auditArchVec p).flag ≠ 0 then
      [setBpfJump (opJge ||| srcK) (c.auditArchVec p).flag 2 0,
       setBpfStmt (classLd ||| sizeW ||| modeAbs) offsetArch,
       setBpfJump opJa jmpPlaceholderNext.toUInt32 0 0,
       setBpfStmt (classAlu ||| opAnd ||| srcK) (~~~(c.auditArchVec p).flag)]
    else []) ++ matchRest c p)) := by
  simp [matchBody, matchBodyTo, matchHead, matchRest]

def MatchTraces (d : SeccompData) : Prop :=
  bareNr c p d < c.nsyscallVec p ∧ tracedBySeccomp c (bareNr c p d).toNat p = true

instance (d : SeccompData) : Decidable (MatchTraces c p d) :=
  inferInstanceAs (Decidable (_ ∧ _))

theorem returns_matchSection (multi : 1 < c.supportedPersonalities)
    (short : (matchBody c p).length + matchTail.length ≤ ucharMax)
    (next : ¬ Matches c d p → Returns d.load code ⟨d.arch, x⟩ v)
    (decided : Matches c d p → v = if MatchTraces c p d then seccompRetTrace else seccompRetAllow) :
    Returns d.load (linkSection (matchBody c p) matchTail ++ code) ⟨d.arch, x⟩ v := by
  rw [linkSection, append_assoc]
  rw [matchBody_eq] at short
  rw [matchBody_eq]
  rw [if_pos multi] at short ⊢
  simp only [cons_append, length_cons, length_append] at short ⊢
  have rest : Matches c d p → Returns d.load (link 2 (matchRest c p) ++ (matchTail ++ code))
      ⟨bareNr c p d, x⟩ v := by
    intro here
    have number : matchedNr c p d (bareNr c p d) = (bareNr c p d).toNat := Nat.div_add_mod _ 32
    rw [decided here]
    apply returns_matchRest c p (by omega)
    · rw [number]
      exact fun known traced => if_pos ⟨UInt32.lt_iff_toNat_lt.mpr known, traced⟩
    · rw [number]
      exact fun h => if_neg fun traces => h (UInt32.lt_iff_toNat_lt.mp traces.1) traces.2
  apply returns_jeq
  · intro same
    apply returns_ld d.load_nr
    by_cases plain : (c.auditArchVec p).flag = 0
    · have bare : bareNr c p d = d.nr := by simp [bareNr, plain]
      simp only [plain, ne_eq, not_true_eq_false, and_false]
      exact bare ▸ rest ⟨same.symm, by simp [plain]⟩
    · simp only [multi, ne_eq, plain, not_false_eq_true, and_self, ↓reduceIte,
        cons_append, nil_append] at short ⊢
      apply returns_jge
      · intro above
        apply returns_stmt (by decide)
        apply Returns.andK rfl
        exact rest ⟨same.symm, above⟩
      · intro below
        apply returns_ld d.load_arch
        apply returns_ja (by simp only [length_cons]; omega)
        exact next fun here => UInt32.not_le.mpr below here.2
  · intro other
    rw [landing_next (by simp only [length_cons, length_append]; omega)]
    exact next fun here => other here.1.symm

theorem exec_match_multi (multi : 1 < c.supportedPersonalities)
    (short : ∀ q < c.supportedPersonalities, (matchBody c q).length + matchTail.length ≤ ucharMax) :
    exec d.load (linkProgram c (matchBody c) (fun _ => matchTail)) =
      some (verdict c d (fun p => MatchTraces c p d) c.supportedPersonalities) := by
  apply exec_linkProgram multi
  intro p supported code x v next decided
  exact returns_matchSection c p multi (short p supported) next (by simpa using decided)

theorem exec_match_single (single : c.supportedPersonalities = 1)
    (short : (matchBody c 0).length + matchTail.length ≤ ucharMax)
    (trace : matchedNr c 0 d d.nr < (c.nsyscallVec 0).toNat →
      tracedBySeccomp c (matchedNr c 0 d d.nr) 0 = true → v = seccompRetTrace)
    (allow : (matchedNr c 0 d d.nr < (c.nsyscallVec 0).toNat →
      ¬ tracedBySeccomp c (matchedNr c 0 d d.nr) 0 = true) → v = seccompRetAllow) :
    exec d.load (linkProgram c (matchBody c) (fun _ => matchTail)) = some v := by
  have alone : ¬ 1 < 1 := by decide
  have tail_size : matchTail.length = 2 := rfl
  apply Returns.exec_eq
  rw [linkProgram, programHead, programTail, single, linkSections, linkSections]
  rw [matchBody_eq] at short
  rw [matchBody_eq]
  simp only [single, alone, false_and, ↓reduceIte, nil_append, append_nil,
    length_cons] at short ⊢
  apply returns_ld d.load_nr
  exact returns_matchRest c 0 (by omega) trace allow

end Strace.Seccomp
