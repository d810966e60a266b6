import Strace.Seccomp.Linear
import Strace.Seccomp.Match

/-! What the kernel requires of a filter: the generators stay inside their
buffers, and every jump of a program they return lands on an instruction of
it, at the label its placeholder named. -/
namespace Strace.Seccomp
open List ClassicBpf

/-! ## Emitted and patched code -/

def GoodOffset (multi : Prop) (after : Nat) (off : UInt8) : Prop :=
  (off = jmpPlaceholderNext ∧ multi) ∨ off = jmpPlaceholderTrace ∨ off = jmpPlaceholderAllow ∨
    off ≤ 2 ∧ off.toNat < after

def GoodInsn (multi : Prop) (after : Nat) (i : Insn) : Prop :=
  match decode i.code with
  | none => False
  | some .ja => multi
  | some .jeqK | some .jgeK | some .jsetK => GoodOffset multi after i.jt ∧
    GoodOffset multi after i.jf
  | some .ldAbs => i.k = offsetNr ∨ i.k = offsetArch
  | some _ => True

def GoodBody (multi : Prop) (n : Nat) : List Insn → Prop
  | [] => True
  | i :: rest => GoodInsn multi (rest.length + n) i ∧ GoodBody multi n rest

def OffsetResolved (after : Nat) (emitted final : UInt8) : Prop :=
  (emitted = jmpPlaceholderNext ∧ final.toNat = after) ∨
  (emitted = jmpPlaceholderTrace ∧ final.toNat + 1 = after) ∨
  (emitted = jmpPlaceholderAllow ∧ final.toNat + 2 = after) ∨
  (emitted ≤ 2 ∧ final = emitted)

def Resolved (after : Nat) (emitted final : Insn) : Prop :=
  final.code = emitted.code ∧
  match decode emitted.code with
  | some .ja => final.k.toNat = after
  | some .jeqK | some .jgeK | some .jsetK =>
    final.k = emitted.k ∧ OffsetResolved after emitted.jt final.jt ∧
      OffsetResolved after emitted.jf final.jf
  | _ => final = emitted

def SectionResolved : List Insn → List Insn → Prop
  | [], [] => True
  | e :: emitted, f :: final => Resolved emitted.length e f ∧ SectionResolved emitted final
  | _, _ => False

section
variable {multi : Prop} {n after : Nat} {i : Insn} {off : UInt8} {body code : List Insn}

theorem goodBody_append {a b : List Insn} :
    GoodBody multi n (a ++ b) ↔ GoodBody multi (b.length + n) a ∧ GoodBody multi n b := by
  induction a with
  | nil => simp [GoodBody]
  | cons i rest ih =>
    simp only [cons_append, GoodBody, ih, length_append, and_assoc, Nat.add_assoc]

theorem linkedOffset_resolved (good : GoodOffset multi after off) (short : after ≤ ucharMax)
    (room : 2 ≤ after) : OffsetResolved after off (linkedOffset after off) := by
  have fits (m : Nat) (h : m ≤ ucharMax) : (UInt8.ofNat m).toNat = m := by
    exact Nat.mod_eq_of_lt (by unfold ucharMax at h; omega)
  rcases good with ⟨rfl, -⟩ | rfl | rfl | ⟨small, -⟩
  · exact Or.inl ⟨rfl, fits after short⟩
  · refine Or.inr (Or.inl ⟨rfl, ?_⟩)
    rw [show linkedOffset after jmpPlaceholderTrace = UInt8.ofNat (after - 1) from rfl,
      fits _ (by omega)]
    omega
  · refine Or.inr (Or.inr (Or.inl ⟨rfl, ?_⟩))
    rw [show linkedOffset after jmpPlaceholderAllow = UInt8.ofNat (after - 2) from rfl,
      fits _ (by omega)]
    omega
  · refine Or.inr (Or.inr (Or.inr ⟨small, ?_⟩))
    have apart (label : UInt8) (large : 2 < label) : off ≠ label := by
      grind
    rw [linkedOffset, replaceJmpPlaceholders, if_neg (apart _ (by decide)),
      if_neg (apart _ (by decide)), if_neg (apart _ (by decide))]

theorem resolved_inside {final : UInt8} (good : GoodOffset multi after off)
    (resolved : OffsetResolved after off final) : final.toNat < after ∨ multi ∧
      final.toNat = after := by
  rcases good with ⟨rfl, several⟩ | rfl | rfl | ⟨small, below⟩
  · rcases resolved with ⟨-, h⟩ | ⟨h, -⟩ | ⟨h, -⟩ | ⟨h, -⟩
    · exact Or.inr ⟨several, h⟩
    all_goals exact absurd h (by decide)
  · rcases resolved with ⟨h, -⟩ | ⟨-, h⟩ | ⟨h, -⟩ | ⟨h, -⟩
    · exact absurd h (by decide)
    · exact Or.inl (by omega)
    all_goals exact absurd h (by decide)
  · rcases resolved with ⟨h, -⟩ | ⟨h, -⟩ | ⟨-, h⟩ | ⟨h, -⟩
    · exact absurd h (by decide)
    · exact absurd h (by decide)
    · exact Or.inl (by omega)
    · exact absurd h (by decide)
  · rcases resolved with ⟨rfl, -⟩ | ⟨rfl, -⟩ | ⟨rfl, -⟩ | ⟨-, rfl⟩
    · exact absurd small (by decide)
    · exact absurd small (by decide)
    · exact absurd small (by decide)
    · exact Or.inl below

theorem class_of_decode {code : UInt16} {op : Op} (known : decode code = some op) :
    match op with
    | .ja => bpfClass code = classJmp ∧ bpfOp code = opJa
    | .jeqK | .jgeK | .jsetK => bpfClass code = classJmp ∧ bpfOp code ≠ opJa
    | _ => bpfClass code ≠ classJmp := by
  obtain rfl := encode_of_decode known
  cases op <;> (dsimp only; decide)

@[simp] theorem patchAt_code (after : Nat) (i : Insn) : (patchAt after i).code = i.code := by
  unfold patchAt patchJump
  split <;> rfl

theorem patchAt_resolved (good : GoodInsn multi after i) (short : after ≤ ucharMax)
    (room : 2 ≤ after) : Resolved after i (patchAt after i) := by
  refine ⟨patchAt_code after i, ?_⟩
  unfold GoodInsn at good
  cases known : decode i.code with
  | none => rw [known] at good; exact good.elim
  | some op =>
    rw [known] at good
    have kind := class_of_decode known
    cases op with
    | ja =>
      simp only [patchAt, patchJump, kind.1, kind.2]
      exact Nat.mod_eq_of_lt (by unfold ucharMax at short; omega)
    | jeqK | jgeK | jsetK =>
      simp only [patchAt, patchJump, kind.1, kind.2, ne_eq, not_true_eq_false, ↓reduceIte, true_and]
      exact ⟨linkedOffset_resolved good.1 short room, linkedOffset_resolved good.2 short room⟩
    | ldAbs | ldImm | andK | lshX | rshK | retK | tax | txa =>
      simp only [patchAt, patchJump, kind, ne_eq, not_false_eq_true, ↓reduceIte]

theorem targets_patchAt (good : GoodInsn multi after i) (short : after ≤ ucharMax)
    (room : 2 ≤ after)
    {off : Nat} (target : off ∈ targets (patchAt after i)) : off < after ∨ multi ∧ off = after := by
  have resolved := (patchAt_resolved good short room).2
  unfold targets at target
  unfold GoodInsn at good
  rw [patchAt_code] at target
  cases known : decode i.code with
  | none => rw [known] at good; exact good.elim
  | some op =>
    rw [known] at good resolved target
    cases op with
    | ja => exact Or.inr ⟨good, by simpa [resolved] using target⟩
    | jeqK | jgeK | jsetK =>
      simp only [mem_cons, not_mem_nil, or_false] at target
      rcases target with rfl | rfl
      · exact resolved_inside good.1 resolved.2.1
      · exact resolved_inside good.2 resolved.2.2
    | retK => exact absurd target not_mem_nil
    | ldAbs | ldImm | andK | lshX | rshK | tax | txa =>
      grind

theorem checked_link (good : GoodBody multi n body) (short : body.length + n ≤ ucharMax)
    (room : 2 ≤ n) (checked : Checked code) (fits : n ≤ code.length)
    (follows : multi → n < code.length) : Checked (link n body ++ code) := by
  induction body with
  | nil => exact checked
  | cons i rest ih =>
    simp only [length_cons] at short
    have known : decode i.code ≠ none := by
      intro none
      have := good.1
      rw [GoodInsn, none] at this
      exact this
    refine ⟨by rwa [patchAt_code], ?_, ih good.2 (by omega)⟩
    intro off target
    change off < (link n rest ++ code).length
    rw [length_append, length_link]
    rcases targets_patchAt good.1 (by omega) (by omega) target with inside | ⟨several, behind⟩
    · omega
    · have := follows several
      omega

variable {tail : List Insn}

theorem sectionResolved_self (fixed : ∀ (after : Nat), ∀ i ∈ tail, Resolved after i i) :
    SectionResolved tail tail := by
  induction tail with
  | nil => trivial
  | cons i rest ih =>
    exact ⟨fixed _ i mem_cons_self, ih fun after j hj => fixed after j (mem_cons_of_mem i hj)⟩

theorem sectionResolved_link (good : GoodBody multi tail.length body)
    (short : body.length + tail.length ≤ ucharMax) (room : 2 ≤ tail.length)
    (fixed : SectionResolved tail tail) :
      SectionResolved (body ++ tail) (linkSection body tail) := by
  induction body with
  | nil => exact fixed
  | cons i rest ih =>
    simp only [length_cons] at short
    refine ⟨?_, ih good.2 (by omega)⟩
    change Resolved (rest ++ tail).length i _
    rw [length_append]
    exact patchAt_resolved good.1 (by omega) (by omega)

theorem reads_link (good : GoodBody multi n body) (d : SeccompData) :
    Reads d.load (link n body) := by
  induction body with
  | nil => exact fun i hi => absurd hi not_mem_nil
  | cons i rest ih =>
    intro j hj load
    rcases mem_cons.mp hj with rfl | later
    · have here := good.1
      rw [patchAt_code] at load
      have kind := class_of_decode load
      rw [GoodInsn, load] at here
      simp only [patchAt, patchJump, kind, ne_eq]
      rcases here with nr | arch
      · exact ⟨_, nr ▸ d.load_nr⟩
      · exact ⟨_, arch ▸ d.load_arch⟩
    · exact ih good.2 j later load

end

/-! ## The two generators -/

section
variable (multi : Prop) (after : Nat) (c : Config) (p : Nat)

theorem goodOffset_zero (room : 0 < after) : GoodOffset multi after 0 :=
  Or.inr (Or.inr (Or.inr ⟨by decide, room⟩))

theorem goodOffset_one (room : 1 < after) : GoodOffset multi after 1 :=
  Or.inr (Or.inr (Or.inr ⟨by decide, room⟩))

theorem goodOffset_two (room : 2 < after) : GoodOffset multi after 2 :=
  Or.inr (Or.inr (Or.inr ⟨by decide, room⟩))

theorem goodOffset_trace : GoodOffset multi after jmpPlaceholderTrace := Or.inr (Or.inl rfl)

theorem goodOffset_allow : GoodOffset multi after jmpPlaceholderAllow :=
  Or.inr (Or.inr (Or.inl rfl))

theorem goodBody_if {q : Prop} [Decidable q] {code : List Insn}
    (good : q → GoodBody multi after code) :
    GoodBody multi after (if q then code else []) := by
  split
  · next h => exact good h
  · trivial

theorem good_cmp (lower upper : UInt32) (room : 2 ≤ after) :
    GoodBody multi after (bpfSyscallsCmp lower upper) := by
  unfold bpfSyscallsCmp
  split
  · refine ⟨⟨goodOffset_trace _ _, goodOffset_zero _ _ ?_⟩, trivial⟩
    simp only [length_nil]; omega
  · refine ⟨⟨goodOffset_zero _ _ ?_, goodOffset_one _ _ ?_⟩,
      ⟨goodOffset_zero _ _ ?_, goodOffset_trace _ _⟩, trivial⟩
    all_goals simp only [length_cons, length_nil]; omega

theorem good_linearCmps (i count : Nat) (lower : UInt32) (room : 2 ≤ after) :
    GoodBody multi after (linearCmps c p i count lower) := by
  induction count generalizing i lower with
  | zero =>
    unfold linearCmps
    split
    · exact good_cmp multi after _ _ room
    · trivial
  | succ count ih =>
    unfold linearCmps
    split
    · exact ih _ _
    · grind [goodBody_append.mpr, good_cmp]

theorem good_arch (arch : UInt32) (room : 2 ≤ after) :
    GoodBody (1 < c.supportedPersonalities) after (if c.supportedPersonalities > 1 then
      [setBpfJump (opJeq ||| srcK) arch 0 jmpPlaceholderNext] else []) := by
  refine goodBody_if _ _ fun several => ⟨⟨goodOffset_zero _ _ ?_, Or.inl ⟨rfl, several⟩⟩, trivial⟩
  simp only [length_nil]; omega

theorem good_linearHead (room : 2 ≤ after) :
    GoodBody (1 < c.supportedPersonalities) after (linearHead c p) := by
  refine goodBody_append.mpr ⟨good_arch _ c _ (by omega),
    goodBody_append.mpr ⟨⟨Or.inl rfl, trivial⟩, goodBody_if _ _ ?_⟩⟩
  intro flagged
  refine ⟨⟨goodOffset_two _ _ ?_, goodOffset_zero _ _ ?_⟩, Or.inr rfl, flagged.1, trivial⟩
  all_goals simp only [length_cons]; omega

theorem good_linearBody :
    GoodBody (1 < c.supportedPersonalities) (linearTail c p).length (linearBody c p) :=
  goodBody_append.mpr ⟨good_linearHead _ c p (Nat.le_add_left 2 _),
    good_linearCmps _ _ c p _ _ _ (Nat.le_add_left 2 1)⟩

theorem good_match (word idx : UInt32) (room : 2 ≤ after) :
    GoodBody multi after (bpfSyscallsMatch word idx) := by
  unfold bpfSyscallsMatch
  split
  · refine ⟨⟨goodOffset_allow _ _, goodOffset_zero _ _ ?_⟩, trivial⟩
    simp only [length_nil]; omega
  · split
    · refine ⟨⟨goodOffset_trace _ _, goodOffset_zero _ _ ?_⟩, trivial⟩
      simp only [length_nil]; omega
    · refine ⟨⟨goodOffset_zero _ _ ?_, goodOffset_two _ _ ?_⟩, trivial,
        ⟨goodOffset_trace _ _, goodOffset_allow _ _⟩, trivial⟩
      all_goals simp only [length_cons]; omega

theorem good_matchWords (i count : Nat) (word : UInt32) (room : 2 ≤ after) :
    GoodBody multi after (matchWords c p i count word) := by
  induction count generalizing i word with
  | zero =>
    unfold matchWords
    split
    · exact good_match multi after _ _ room
    · trivial
  | succ count ih =>
    unfold matchWords
    dsimp only
    split
    · exact goodBody_append.mpr ⟨good_match multi _ _ _ (by omega), ih _ _⟩
    · exact ih _ _

theorem good_matchHead (room : 2 ≤ after) :
    GoodBody (1 < c.supportedPersonalities) after (matchHead c p) := by
  refine goodBody_append.mpr
    ⟨good_arch _ c _ (by omega), goodBody_append.mpr ⟨⟨Or.inl rfl, trivial⟩,
    goodBody_append.mpr ⟨goodBody_if _ _ ?_, goodBody_append.mpr ⟨?_,
      goodBody_append.mpr ⟨goodBody_if _ _ fun _ => ⟨trivial, trivial⟩, trivial, trivial⟩⟩⟩⟩⟩
  · intro flagged
    refine ⟨⟨goodOffset_two _ _ ?_, goodOffset_zero _ _ ?_⟩, Or.inr rfl, flagged.1,
      trivial, trivial⟩
    all_goals simp only [length_cons]; omega
  · exact ⟨trivial, trivial, trivial, trivial, trivial, Or.inl rfl, trivial⟩

theorem good_matchBody :
    GoodBody (1 < c.supportedPersonalities) matchTail.length (matchBody c p) :=
  goodBody_append.mpr ⟨good_matchHead _ c p (Nat.le_add_left 2 _),
    good_matchWords _ _ c p _ _ _ (by decide)⟩

end

/-! ## Whole programs -/

structure GoodSection (multi : Prop) (body tail : List Insn) : Prop where
  good : GoodBody multi tail.length body
  short : body.length + tail.length ≤ ucharMax
  room : 2 ≤ tail.length
  closed : Checked tail
  fixed : ∀ (after : Nat), ∀ i ∈ tail, Resolved after i i
  reads : ∀ d : SeccompData, Reads d.load tail

section
variable (c : Config) (p : Nat)

theorem reads_of_no_load {code : List Insn} (none : ∀ i ∈ code, decode i.code ≠ some .ldAbs)
    (d : SeccompData) : Reads d.load code :=
  fun i member load => absurd load (none i member)

theorem goodSection_linear
    (short : (linearBody c p).length + (linearTail c p).length ≤ ucharMax) :
    GoodSection (1 < c.supportedPersonalities) (linearBody c p) (linearTail c p) where
  good := good_linearBody c p
  short := short
  room := Nat.le_add_left 2 1
  closed := by
    refine ⟨(by intro h; cases h), fun off target => ?_, by decide, by decide, by decide, by decide,
      trivial⟩
    change off ∈ [1, 0] at target
    simp only [mem_cons, not_mem_nil, or_false] at target
    simp only [length_cons]
    omega
  fixed := by
    intro after i member
    simp only [linearTail, mem_cons, not_mem_nil, or_false] at member
    rcases member with rfl | rfl | rfl
    · have step (off : UInt8) (small : off ≤ 2) : OffsetResolved after off off :=
        Or.inr (Or.inr (Or.inr ⟨small, rfl⟩))
      exact ⟨rfl, rfl, step 1 (by decide), step 0 (by decide)⟩
    · exact ⟨rfl, rfl⟩
    · exact ⟨rfl, rfl⟩
  reads := reads_of_no_load (by
    intro i member
    simp only [linearTail, mem_cons, not_mem_nil, or_false] at member
    rcases member with rfl | rfl | rfl <;> (intro h; cases h))

theorem goodSection_match (short : (matchBody c p).length + matchTail.length ≤ ucharMax) :
    GoodSection (1 < c.supportedPersonalities) (matchBody c p) matchTail where
  good := good_matchBody c p
  short := short
  room := by decide
  closed := ⟨by decide, by decide, by decide, by decide, trivial⟩
  fixed := by
    intro after i member
    simp only [matchTail, mem_cons, not_mem_nil, or_false] at member
    rcases member with rfl | rfl
    · exact ⟨rfl, rfl⟩
    · exact ⟨rfl, rfl⟩
  reads := reads_of_no_load (by decide)

end

structure Installable (c : Config) (body tail : Nat → List Insn) (prog : List Insn) : Prop where
  forward : ∀ n i, prog[n]? = some i →
    decode i.code ≠ none ∧ ∀ off ∈ targets i, n + 1 + off < prog.length
  ends : ∀ n before, Path prog (n :: before) → before.length ≤ n ∧ n < prog.length ∧
    ((∀ m, ¬ Path prog (m :: n :: before)) → ∃ i, prog[n]? = some i ∧ decode i.code = some .retK)
  returns : ∀ d : SeccompData, ∃ v, exec d.load prog = some v
  sections : prog = linkProgram c body tail
  resolved : ∀ q < c.supportedPersonalities,
    SectionResolved (body q ++ tail q) (linkSection (body q) (tail q))

section
variable {c : Config} {body tail : Nat → List Insn}

theorem checked_linkSections {code : List Insn} (checked : Checked code)
    (follows : 1 < c.supportedPersonalities → code ≠ []) (p : Nat)
    (good : ∀ q < p, GoodSection (1 < c.supportedPersonalities) (body q) (tail q)) :
    Checked (linkSections body tail p ++ code) := by
  induction p with
  | zero => exact checked
  | succ p ih =>
    have here := good p (Nat.lt_succ_self p)
    have others := ih fun q hq => good q (by omega)
    rw [linkSections, linkSection, append_assoc, append_assoc]
    apply checked_link here.good here.short here.room (here.closed.append others)
    · simp
    · intro several
      have := length_pos_iff.mpr (follows several)
      simp only [length_append]
      omega

theorem reads_linkSections (d : SeccompData) (p : Nat)
    (good : ∀ q < p, GoodSection (1 < c.supportedPersonalities) (body q) (tail q)) :
    Reads d.load (linkSections body tail p) := by
  induction p with
  | zero => exact fun i member => absurd member not_mem_nil
  | succ p ih =>
    have here := good p (Nat.lt_succ_self p)
    exact ((reads_link here.good d).append (here.reads d)).append (ih fun q hq => good q (by omega))

theorem checked_linkProgram
    (good : ∀ q < c.supportedPersonalities,
      GoodSection (1 < c.supportedPersonalities) (body q) (tail q)) :
    Checked (linkProgram c body tail) := by
  have last : Checked (programTail c) := by
    unfold programTail
    split
    · exact ⟨by decide, by decide, trivial⟩
    · trivial
  have follows (several : 1 < c.supportedPersonalities) : programTail c ≠ [] := by
    simp [programTail, several]
  have sections := checked_linkSections last follows c.supportedPersonalities good
  unfold linkProgram programHead
  split
  · next several =>
    refine ⟨by decide, ?_, sections⟩
    intro off target
    obtain rfl := mem_singleton.mp target
    have := length_pos_iff.mpr (follows several)
    change 0 < (linkSections body tail c.supportedPersonalities ++ programTail c).length
    rw [length_append]
    omega
  · exact sections

theorem reads_linkProgram (d : SeccompData)
    (good : ∀ q < c.supportedPersonalities,
      GoodSection (1 < c.supportedPersonalities) (body q) (tail q)) :
    Reads d.load (linkProgram c body tail) := by
  refine Reads.append ?_ ((reads_linkSections d _ good).append ?_)
  · intro i member _
    unfold programHead at member
    split at member
    · obtain rfl := mem_singleton.mp member
      exact ⟨_, d.load_arch⟩
    · exact absurd member not_mem_nil
  · intro i member
    unfold programTail at member
    split at member
    · obtain rfl := mem_singleton.mp member
      intro h
      cases h
    · exact absurd member not_mem_nil

theorem installable (supported : 0 < c.supportedPersonalities)
    (good : ∀ q < c.supportedPersonalities,
      GoodSection (1 < c.supportedPersonalities) (body q) (tail q)) :
    Installable c body tail (linkProgram c body tail) := by
  have checked := checked_linkProgram good
  have nonempty : linkProgram c body tail ≠ [] := by
    obtain ⟨n, several⟩ : ∃ n, c.supportedPersonalities = n + 1 :=
      ⟨_, (Nat.sub_add_cancel supported).symm⟩
    have := (good n (by omega)).room
    intro empty
    have := congrArg List.length empty
    simp only [linkProgram, several, linkSections, linkSection, length_append,
      length_nil] at this
    omega
  constructor
  · exact fun n i found => checked.inside found
  · exact fun n before path =>
      ⟨path.length_le, checked.path_inside nonempty path, checked.path_ends nonempty path⟩
  · exact fun d => checked.run_some (reads_linkProgram d good) nonempty (Nat.le_refl _) _
  · rfl
  · exact fun q hq => sectionResolved_link (good q hq).good (good q hq).short (good q hq).room
      (sectionResolved_self (good q hq).fixed)

end

end Strace.Seccomp
