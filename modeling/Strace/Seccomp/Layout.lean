import Strace.Seccomp.Generator

/-! Where the generators put their instructions. A section is a body, whose
jumps are patched, followed by a tail of fixed instructions; `link` is the
patched body, written without positions. -/
namespace Strace.Seccomp
open List Option ClassicBpf

@[simp] theorem SeccompData.load_nr (d : SeccompData) : d.load offsetNr = some d.nr := rfl

@[simp] theorem SeccompData.load_arch (d : SeccompData) : d.load offsetArch = some d.arch := rfl

/-! ## Writing -/

variable {filter f : Buffer} {insns : List Insn}

theorem emit_some {insn : Insn} (h : emit filter insn = some f) : f = filter ++ [insn] := by
  unfold emit at h
  split at h
  · exact (Option.some.inj h).symm
  · cases h

theorem emits_some (h : emits filter insns = some f) : f = filter ++ insns := by
  induction insns generalizing filter with
  | nil => simpa [emits] using h.symm
  | cons insn rest ih =>
    obtain ⟨next, written, written_rest⟩ := bind_eq_some_iff.mp h
    rw [ih written_rest, emit_some written, append_assoc, singleton_append]

theorem emits_fits (fits : filter.length + insns.length ≤ 2 * bpfMaxinsns) :
    emits filter insns = some (filter ++ insns) := by
  induction insns generalizing filter with
  | nil => simp [emits]
  | cons insn rest ih =>
    have room : filter.length < 2 * bpfMaxinsns := by simp at fits; omega
    simp only [emits, emit, room, ↓reduceIte, bind_some]
    rw [ih (by simp at fits ⊢; omega), append_assoc, singleton_append]

theorem emits_append (filter : Buffer) (a b : List Insn) :
    emits filter (a ++ b) = (emits filter a).bind (emits · b) := by
  induction a generalizing filter with
  | nil => rfl
  | cons insn rest ih =>
    simp only [cons_append, emits, bind_assoc]
    congr 1
    funext f
    exact ih f

/-! ## Patching -/

def patchAt (after : Nat) (insn : Insn) : Insn := patchJump (after + 1) 0 insn

theorem patchJump_eq (pos i : Nat) (insn : Insn) (h : i < pos) :
    patchJump pos i insn = patchAt (pos - i - 1) insn := by
  unfold patchAt patchJump
  have next : pos - i - 1 + 1 - 0 - 1 = pos - i - 1 := by omega
  have trace : pos - i - 1 + 1 - 0 - 2 = pos - i - 2 := by omega
  have allow : pos - i - 1 + 1 - 0 - 3 = pos - i - 3 := by omega
  rw [next, trace, allow]

def link (tailLen : Nat) : List Insn → List Insn
  | [] => []
  | insn :: rest => patchAt (rest.length + tailLen) insn :: link tailLen rest

@[simp] theorem link_cons (n : Nat) (insn : Insn) (rest : List Insn) :
    link n (insn :: rest) = patchAt (rest.length + n) insn :: link n rest := rfl

@[simp] theorem length_link (n : Nat) (body : List Insn) : (link n body).length = body.length := by
  induction body with
  | nil => rfl
  | cons insn rest ih => simp [ih]

theorem drop_link_append (n j : Nat) (body code : List Insn) :
    (link n body ++ code).drop (body.length + j) = code.drop j := by
  rw [drop_append, length_link, Nat.add_sub_cancel_left,
    drop_eq_nil_of_le (by simp), nil_append]

theorem modify_behind (f : Insn → Insn) (insn : Insn) (pre rest : List Insn) :
    (pre ++ insn :: rest).modify pre.length f = pre ++ f insn :: rest := by
  induction pre with
  | nil => rfl
  | cons a pre ih => simpa using ih

theorem patchJumps_eq (pre body code : List Insn) (pos : Nat)
    (size : pos = pre.length + body.length + code.length) :
    patchJumps pos pre.length body.length (pre ++ (body ++ code)) =
      pre ++ (link code.length body ++ code) := by
  induction body generalizing pre with
  | nil => rfl
  | cons insn rest ih =>
    have here : pos - pre.length - 1 = rest.length + code.length := by
      simp only [length_cons] at size; omega
    have inside : pre.length < pos := by simp only [length_cons] at size; omega
    simp only [length_cons, patchJumps, cons_append]
    rw [modify_behind, patchJump_eq pos pre.length insn inside, here]
    have moved := ih (pre ++ [patchAt (rest.length + code.length) insn])
      (by simp only [length_cons, length_append, length_nil] at size ⊢; omega)
    simpa using moved

/-! ## Sections -/

def emitSection (body tail : List Insn) (filter : Buffer) : Option (Buffer × Bool) :=
  (emits filter (body ++ tail)).map fun f =>
    if f.length - filter.length > ucharMax then (f, true)
    else (patchJumps f.length filter.length body.length f, false)

theorem emitSection_eq (body tail : List Insn) (filter : Buffer) :
    emitSection body tail filter = (emits filter body).bind fun g => (emits g tail).bind fun f =>
      if f.length - filter.length > ucharMax then some (f, true)
      else some (patchJumps f.length filter.length (g.length - filter.length) f, false) := by
  unfold emitSection
  rw [emits_append]
  cases written : emits filter body with
  | none => rfl
  | some g =>
    have size : g.length - filter.length = body.length := by simp [emits_some written]
    simp only [bind_some, size]
    cases emits g tail with
    | none => rfl
    | some f => simp only [map_some, bind_some]; split <;> rfl

theorem emitSection_some {body tail : List Insn} {overflow : Bool}
    (h : emitSection body tail filter = some (f, overflow)) :
    (overflow = true ∧ ucharMax < body.length + tail.length ∧ f = filter ++ (body ++ tail)) ∨
    (overflow = false ∧ body.length + tail.length ≤ ucharMax ∧
      f = filter ++ (link tail.length body ++ tail)) := by
  obtain ⟨g, written, result⟩ := map_eq_some_iff.mp h
  have content := emits_some written
  have size : g.length - filter.length = body.length + tail.length := by simp [content]
  rw [size] at result
  split at result
  · next long =>
    cases result
    exact Or.inl ⟨rfl, long, content⟩
  · obtain ⟨rfl, rfl⟩ := Prod.mk.inj result
    refine Or.inr ⟨rfl, by omega, ?_⟩
    rw [content]
    exact patchJumps_eq filter body tail _ (by simp [Nat.add_assoc])

/-- A patched section. -/
def linkSection (body tail : List Insn) : List Insn := link tail.length body ++ tail

def linkSections (body tail : Nat → List Insn) : Nat → List Insn
  | 0 => []
  | p + 1 => linkSection (body p) (tail p) ++ linkSections body tail p

def programHead (c : Config) : List Insn :=
  if c.supportedPersonalities > 1 then
    [setBpfStmt (classLd ||| sizeW ||| modeAbs) offsetArch]
  else []

def programTail (c : Config) : List Insn :=
  if c.supportedPersonalities > 1 then
    [setBpfStmt (classRet ||| srcK) seccompRetTrace]
  else []

/-- A whole filter. -/
def linkProgram (c : Config) (body tail : Nat → List Insn) : List Insn :=
  programHead c ++ (linkSections body tail c.supportedPersonalities ++ programTail c)

def generate (c : Config) (sections : Buffer → Option (Buffer × Bool)) :
    Option (Buffer × Bool) := do
  let filter ← emits [] (programHead c)
  let (filter, overflow) ← sections filter
  if overflow then return (filter, true)
  let filter ← emits filter (programTail c)
  return (filter, false)

theorem generate_some {c : Config} {sections : Buffer → Option (Buffer × Bool)} {prog : Buffer}
    (h : generate c sections = some (prog, false)) :
    ∃ f, sections (programHead c) = some (f, false) ∧ prog = f ++ programTail c := by
  obtain ⟨start, first, h⟩ := bind_eq_some_iff.mp h
  obtain ⟨⟨f, overflow⟩, written, h⟩ := bind_eq_some_iff.mp h
  obtain rfl : start = programHead c := by simpa using emits_some first
  cases overflow with
  | true => simp at h
  | false =>
    obtain ⟨g, last, done⟩ := bind_eq_some_iff.mp h
    refine ⟨f, written, ?_⟩
    rw [← emits_some last]
    simpa using done.symm

/-! ## Running a patched body -/

def linkedOffset (after : Nat) (offset : UInt8) : UInt8 :=
  replaceJmpPlaceholders offset (UInt8.ofNat after) (UInt8.ofNat (after - 1))
    (UInt8.ofNat (after - 2))

def landing (n : Nat) (rest code : List Insn) (offset : UInt8) : List Insn :=
  (link n rest ++ code).drop (linkedOffset (rest.length + n) offset).toNat

section
variable {n : Nat} {rest code : List Insn}

section
variable (short : rest.length + n ≤ ucharMax)
include short

theorem landing_next :
    landing n rest code jmpPlaceholderNext = code.drop n := by
  have offset : (linkedOffset (rest.length + n) jmpPlaceholderNext).toNat = rest.length + n := by
    exact Nat.mod_eq_of_lt (by unfold ucharMax at short; omega)
  rw [landing, offset, drop_link_append]

theorem landing_trace (room : 1 ≤ n) :
    landing n rest code jmpPlaceholderTrace = code.drop (n - 1) := by
  have offset : (linkedOffset (rest.length + n) jmpPlaceholderTrace).toNat =
      rest.length + (n - 1) := by
    simp only [linkedOffset, replaceJmpPlaceholders,
      show jmpPlaceholderTrace ≠ jmpPlaceholderNext by
      decide, ↓reduceIte, UInt8.toNat_ofNat']
    rw [Nat.mod_eq_of_lt (by unfold ucharMax at short; omega)]
    omega
  rw [landing, offset, drop_link_append]

theorem landing_allow (room : 2 ≤ n) :
    landing n rest code jmpPlaceholderAllow = code.drop (n - 2) := by
  have offset : (linkedOffset (rest.length + n) jmpPlaceholderAllow).toNat =
      rest.length + (n - 2) := by
    simp only [linkedOffset, replaceJmpPlaceholders,
      show jmpPlaceholderAllow ≠ jmpPlaceholderNext by
      decide, show jmpPlaceholderAllow ≠ jmpPlaceholderTrace by decide, ↓reduceIte,
      UInt8.toNat_ofNat']
    rw [Nat.mod_eq_of_lt (by unfold ucharMax at short; omega)]
    omega
  rw [landing, offset, drop_link_append]

end

theorem patchAt_jump {code : UInt16} {k : UInt32} {jt jf : UInt8}
    (jump : bpfClass (classJmp ||| code) = classJmp) (cond : bpfOp (classJmp ||| code) ≠ opJa)
    (after : Nat) : patchAt after (setBpfJump code k jt jf) =
      ⟨classJmp ||| code, linkedOffset after jt, linkedOffset after jf, k⟩ := by
  simp only [patchAt, patchJump, setBpfJump, jump, cond]
  rfl

theorem patchAt_ja (after : Nat) : patchAt after (setBpfJump opJa jmpPlaceholderNext.toUInt32 0 0) =
    ⟨classJmp ||| opJa, 0, 0, (UInt8.ofNat after).toUInt32⟩ := rfl

variable {load : UInt32 → Option UInt32} {r : Regs} {k v w : UInt32} {jt jf : UInt8}

theorem returns_jeq (yes : r.a = k → Returns load (landing n rest code jt) r v)
    (no : r.a ≠ k → Returns load (landing n rest code jf) r v) :
    Returns load (link n (setBpfJump (opJeq ||| srcK) k jt jf :: rest) ++ code) r v := by
  rw [link_cons, patchAt_jump (by decide) (by decide)]
  apply Returns.jeqK rfl
  by_cases h : r.a = k
  · rw [if_pos h]; exact yes h
  · rw [if_neg h]; exact no h

theorem returns_jge (yes : k ≤ r.a → Returns load (landing n rest code jt) r v)
    (no : r.a < k → Returns load (landing n rest code jf) r v) :
    Returns load (link n (setBpfJump (opJge ||| srcK) k jt jf :: rest) ++ code) r v := by
  rw [link_cons, patchAt_jump (by decide) (by decide)]
  apply Returns.jgeK rfl
  by_cases h : k ≤ r.a
  · rw [if_pos h]; exact yes h
  · rw [if_neg h]; exact no (UInt32.not_le.mp h)

theorem returns_jset (yes : r.a &&& k ≠ 0 → Returns load (landing n rest code jt) r v)
    (no : r.a &&& k = 0 → Returns load (landing n rest code jf) r v) :
    Returns load (link n (setBpfJump (opJset ||| srcK) k jt jf :: rest) ++ code) r v := by
  rw [link_cons, patchAt_jump (by decide) (by decide)]
  apply Returns.jsetK rfl
  by_cases h : r.a &&& k = 0
  · rw [if_pos h]; exact no h
  · rw [if_neg h]; exact yes h

theorem returns_ja (short : rest.length + n ≤ ucharMax) (h : Returns load (code.drop n) r v) :
    Returns load
      (link n (setBpfJump opJa jmpPlaceholderNext.toUInt32 0 0 :: rest) ++ code) r v := by
  rw [link_cons, patchAt_ja, cons_append]
  apply Returns.ja rfl
  have offset : (UInt8.ofNat (rest.length + n)).toUInt32.toNat = rest.length + n := by
    exact Nat.mod_eq_of_lt (by unfold ucharMax at short; omega)
  simpa only [offset, drop_link_append] using h

theorem returns_stmt {op : UInt16} (other : bpfClass op ≠ classJmp)
    (h : Returns load (setBpfStmt op k :: (link n rest ++ code)) r v) :
    Returns load (link n (setBpfStmt op k :: rest) ++ code) r v := by
  rw [link_cons, patchAt, patchJump, setBpfStmt, if_pos other]
  exact h

theorem returns_ld {offset : UInt32} (read : load offset = some w)
    (h : Returns load (link n rest ++ code) { r with a := w } v) :
    Returns load
      (link n (setBpfStmt (classLd ||| sizeW ||| modeAbs) offset :: rest) ++ code) r v := by
  apply returns_stmt (by decide)
  exact Returns.ldAbs rfl read h

end

end Strace.Seccomp
