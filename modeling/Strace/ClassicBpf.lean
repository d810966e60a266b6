import Mathlib.Data.List.Basic

/-! Classic BPF, as far as a seccomp filter needs it. Every jump of a classic
program is relative and forward, so the machine is run on the list of the
instructions still ahead of it: a jump by `n` drops `n` of them. -/
namespace ClassicBpf
open List

/-- One instruction, `struct sock_filter`. -/
structure Insn where
  code : UInt16
  jt : UInt8
  jf : UInt8
  k : UInt32
  deriving DecidableEq, Repr

def classLd : UInt16 := 0x00
def classAlu : UInt16 := 0x04
def classJmp : UInt16 := 0x05
def classRet : UInt16 := 0x06
def classMisc : UInt16 := 0x07

def sizeW : UInt16 := 0x00
def modeImm : UInt16 := 0x00
def modeAbs : UInt16 := 0x20

def opAnd : UInt16 := 0x50
def opLsh : UInt16 := 0x60
def opRsh : UInt16 := 0x70

def opJa : UInt16 := 0x00
def opJeq : UInt16 := 0x10
def opJge : UInt16 := 0x30
def opJset : UInt16 := 0x40

def srcK : UInt16 := 0x00
def srcX : UInt16 := 0x08

def miscTax : UInt16 := 0x00
def miscTxa : UInt16 := 0x80

/-- `BPF_CLASS(code)`. -/
def bpfClass (code : UInt16) : UInt16 := code &&& 0x07

/-- `BPF_OP(code)`. -/
def bpfOp (code : UInt16) : UInt16 := code &&& 0xf0

inductive Op where
  | ldAbs
  | ldImm
  | andK
  | lshX
  | rshK
  | ja
  | jeqK
  | jgeK
  | jsetK
  | retK
  | tax
  | txa
  deriving DecidableEq, Repr

def encode : Op → UInt16
  | .ldAbs => classLd ||| sizeW ||| modeAbs
  | .ldImm => classLd ||| modeImm
  | .andK => classAlu ||| opAnd ||| srcK
  | .lshX => classAlu ||| opLsh ||| srcX
  | .rshK => classAlu ||| opRsh ||| srcK
  | .ja => classJmp ||| opJa
  | .jeqK => classJmp ||| opJeq ||| srcK
  | .jgeK => classJmp ||| opJge ||| srcK
  | .jsetK => classJmp ||| opJset ||| srcK
  | .retK => classRet ||| srcK
  | .tax => classMisc ||| miscTax
  | .txa => classMisc ||| miscTxa

def decode (code : UInt16) : Option Op :=
  [Op.ldAbs, .ldImm, .andK, .lshX, .rshK, .ja, .jeqK, .jgeK, .jsetK, .retK, .tax, .txa].find?
    (encode · = code)

theorem encode_of_decode {code : UInt16} {op : Op} (known : decode code = some op) :
    encode op = code := by
  simpa using find?_some known

/-- The accumulator and the index register. -/
structure Regs where
  a : UInt32
  x : UInt32
  deriving DecidableEq, Repr

def run (load : UInt32 → Option UInt32) : Nat → List Insn → Regs → Option UInt32
  | 0, _, _ => none
  | _ + 1, [], _ => none
  | fuel + 1, i :: rest, r =>
    match decode i.code with
    | some .ldAbs =>
      match load i.k with
      | some v => run load fuel rest { r with a := v }
      | none => none
    | some .ldImm => run load fuel rest { r with a := i.k }
    | some .andK => run load fuel rest { r with a := r.a &&& i.k }
    | some .lshX => run load fuel rest { r with a := r.a <<< r.x }
    | some .rshK => run load fuel rest { r with a := r.a >>> i.k }
    | some .ja => run load fuel (rest.drop i.k.toNat) r
    | some .jeqK => run load fuel (rest.drop (if r.a = i.k then i.jt else i.jf).toNat) r
    | some .jgeK => run load fuel (rest.drop (if i.k ≤ r.a then i.jt else i.jf).toNat) r
    | some .jsetK => run load fuel (rest.drop (if r.a &&& i.k = 0 then i.jf else i.jt).toNat) r
    | some .retK => some i.k
    | some .tax => run load fuel rest { r with x := r.a }
    | some .txa => run load fuel rest { r with a := r.x }
    | none => none

def exec (load : UInt32 → Option UInt32) (prog : List Insn) : Option UInt32 :=
  run load prog.length prog ⟨0, 0⟩

def Returns (load : UInt32 → Option UInt32) (prog : List Insn) (r : Regs) (v : UInt32) : Prop :=
  ∀ fuel, prog.length ≤ fuel → run load fuel prog r = some v

theorem Returns.exec_eq {load : UInt32 → Option UInt32} {prog : List Insn} {v : UInt32}
    (h : Returns load prog ⟨0, 0⟩ v) : exec load prog = some v :=
  h prog.length (Nat.le_refl _)

section
variable {load : UInt32 → Option UInt32} {i : Insn} {rest next : List Insn} {r r' : Regs}
  {v w : UInt32}

attribute [local simp] run

theorem Returns.of_step (step : ∀ fuel, run load (fuel + 1) (i :: rest) r = run load fuel next r')
    (ahead : next.length ≤ rest.length) (h : Returns load next r' v) :
    Returns load (i :: rest) r v := by
  intro fuel enough
  obtain ⟨n, rfl⟩ : ∃ n, fuel = n + 1 := ⟨fuel - 1, by simp at enough; omega⟩
  rw [step]
  exact h n (by simp at enough; omega)

theorem Returns.ret (op : decode i.code = some .retK) : Returns load (i :: rest) r i.k := by
  intro fuel enough
  obtain ⟨n, rfl⟩ : ∃ n, fuel = n + 1 := ⟨fuel - 1, by simp at enough; omega⟩
  simp [op]

theorem Returns.ldAbs (op : decode i.code = some .ldAbs) (read : load i.k = some w)
    (h : Returns load rest { r with a := w } v) : Returns load (i :: rest) r v :=
  h.of_step (fun _ => by simp [op, read]) (Nat.le_refl _)

theorem Returns.ldImm (op : decode i.code = some .ldImm)
    (h : Returns load rest { r with a := i.k } v) : Returns load (i :: rest) r v :=
  h.of_step (fun _ => by simp [op]) (Nat.le_refl _)

theorem Returns.andK (op : decode i.code = some .andK)
    (h : Returns load rest { r with a := r.a &&& i.k } v) : Returns load (i :: rest) r v :=
  h.of_step (fun _ => by simp [op]) (Nat.le_refl _)

theorem Returns.lshX (op : decode i.code = some .lshX)
    (h : Returns load rest { r with a := r.a <<< r.x } v) : Returns load (i :: rest) r v :=
  h.of_step (fun _ => by simp [op]) (Nat.le_refl _)

theorem Returns.rshK (op : decode i.code = some .rshK)
    (h : Returns load rest { r with a := r.a >>> i.k } v) : Returns load (i :: rest) r v :=
  h.of_step (fun _ => by simp [op]) (Nat.le_refl _)

theorem Returns.tax (op : decode i.code = some .tax)
    (h : Returns load rest { r with x := r.a } v) : Returns load (i :: rest) r v :=
  h.of_step (fun _ => by simp [op]) (Nat.le_refl _)

theorem Returns.txa (op : decode i.code = some .txa)
    (h : Returns load rest { r with a := r.x } v) : Returns load (i :: rest) r v :=
  h.of_step (fun _ => by simp [op]) (Nat.le_refl _)

theorem Returns.ja (op : decode i.code = some .ja)
    (h : Returns load (rest.drop i.k.toNat) r v) : Returns load (i :: rest) r v :=
  h.of_step (fun _ => by simp [op]) (by simp)

theorem Returns.jeqK (op : decode i.code = some .jeqK)
    (h : Returns load (rest.drop (if r.a = i.k then i.jt else i.jf).toNat) r v) :
    Returns load (i :: rest) r v :=
  h.of_step (fun _ => by simp [op]) (by simp)

theorem Returns.jgeK (op : decode i.code = some .jgeK)
    (h : Returns load (rest.drop (if i.k ≤ r.a then i.jt else i.jf).toNat) r v) :
    Returns load (i :: rest) r v :=
  h.of_step (fun _ => by simp [op]) (by simp)

theorem Returns.jsetK (op : decode i.code = some .jsetK)
    (h : Returns load (rest.drop (if r.a &&& i.k = 0 then i.jf else i.jt).toNat) r v) :
    Returns load (i :: rest) r v :=
  h.of_step (fun _ => by simp [op]) (by simp)

end

/-! ## Programs a kernel accepts -/

def targets (i : Insn) : List Nat :=
  match decode i.code with
  | some .ja => [i.k.toNat]
  | some .jeqK | some .jgeK | some .jsetK => [i.jt.toNat, i.jf.toNat]
  | some .retK | none => []
  | some _ => [0]

def Checked : List Insn → Prop
  | [] => True
  | i :: rest => decode i.code ≠ none ∧ (∀ off ∈ targets i, off < rest.length) ∧ Checked rest

section
variable {prog : List Insn} {n : Nat} {i : Insn}

theorem Checked.drop (checked : Checked prog) (n : Nat) : Checked (prog.drop n) := by
  induction n generalizing prog with
  | zero => simpa using checked
  | succ n ih =>
    cases prog with
    | nil => trivial
    | cons i rest => exact ih checked.2.2

variable {code : List Insn} {before : List Nat} {load : UInt32 → Option UInt32}

theorem Checked.append (checked : Checked prog) (behind : Checked code) :
    Checked (prog ++ code) := by
  induction prog with
  | nil => exact behind
  | cons i rest ih =>
    refine ⟨checked.1, ?_, ih checked.2.2⟩
    intro off target
    have := checked.2.1 off target
    change off < (rest ++ code).length
    rw [length_append]
    omega

theorem Checked.inside (checked : Checked prog) (found : prog[n]? = some i) :
    decode i.code ≠ none ∧ ∀ off ∈ targets i, n + 1 + off < prog.length := by
  have here := checked.drop n
  obtain ⟨bound, rfl⟩ := List.getElem?_eq_some_iff.mp found
  rw [List.drop_eq_getElem_cons bound] at here
  refine ⟨here.1, ?_⟩
  intro off target
  have := here.2.1 off target
  rw [List.length_drop] at this
  omega

inductive Path (prog : List Insn) : List Nat → Prop where
  | start : Path prog [0]
  | step {n off : Nat} {i : Insn} {before : List Nat} : Path prog (n :: before) →
      prog[n]? = some i → off ∈ targets i → Path prog ((n + 1 + off) :: n :: before)

theorem Path.length_le (path : Path prog (n :: before)) : before.length ≤ n := by
  generalize h : n :: before = positions at path
  induction path generalizing n before with
  | start => cases h; exact Nat.le_refl 0
  | step _ _ _ ih =>
    cases h
    have := ih rfl
    simp only [length_cons]
    omega

theorem Checked.path_inside (checked : Checked prog) (nonempty : prog ≠ [])
    (path : Path prog (n :: before)) : n < prog.length := by
  cases path with
  | start => exact length_pos_iff.mpr nonempty
  | step _ found target => exact (checked.inside found).2 _ target

theorem targets_nil (known : decode i.code ≠ none) (last : targets i = []) :
    decode i.code = some .retK := by
  unfold targets at last
  cases op : decode i.code with
  | none => exact absurd op known
  | some o => cases o <;> simp_all

theorem Checked.path_ends (checked : Checked prog) (nonempty : prog ≠ [])
    (path : Path prog (n :: before)) (ended : ∀ m, ¬ Path prog (m :: n :: before)) :
    ∃ i, prog[n]? = some i ∧ decode i.code = some .retK := by
  have found := getElem?_eq_getElem (checked.path_inside nonempty path)
  refine ⟨_, found, targets_nil (checked.inside found).1 ?_⟩
  rw [eq_nil_iff_forall_not_mem]
  exact fun off target => ended _ (path.step found target)

def Reads (load : UInt32 → Option UInt32) (prog : List Insn) : Prop :=
  ∀ i ∈ prog, decode i.code = some .ldAbs → ∃ v, load i.k = some v

theorem Reads.append (reads : Reads load prog) (behind : Reads load code) :
    Reads load (prog ++ code) := by
  intro i member
  rcases mem_append.mp member with h | h
  · exact reads i h
  · exact behind i h

theorem Checked.run_some (checked : Checked prog) (reads : Reads load prog) (nonempty : prog ≠ [])
    {fuel : Nat} (enough : prog.length ≤ fuel) (r : Regs) : ∃ v, run load fuel prog r = some v := by
  induction fuel generalizing prog r with
  | zero => exact absurd (length_eq_zero_iff.mp (Nat.le_zero.mp enough)) nonempty
  | succ fuel ih =>
    cases prog with
    | nil => exact absurd rfl nonempty
    | cons i rest =>
      obtain ⟨known, inside, checked_rest⟩ := checked
      have onward (off : Nat) (target : off ∈ targets i) (r : Regs) :
          ∃ v, run load fuel (rest.drop off) r = some v := by
        have room := inside off target
        apply ih (checked_rest.drop off)
        · exact fun j hj => reads j (mem_cons_of_mem i (mem_of_mem_drop hj))
        · exact fun empty => absurd (drop_eq_nil_iff.mp empty) (by omega)
        · grind
      unfold run
      unfold targets at onward
      cases op : decode i.code with
      | none => exact absurd op known
      | some o =>
        rw [op] at onward
        cases o with
        | ldAbs =>
          obtain ⟨w, read⟩ := reads i mem_cons_self op
          simp only [read]
          exact onward 0 mem_cons_self _
        | ldImm | andK | lshX | rshK | tax | txa => exact onward 0 mem_cons_self _
        | ja => exact onward _ mem_cons_self _
        | jeqK | jgeK | jsetK =>
          refine onward _ ?_ _
          dsimp only
          split
          · simp
          · simp
        | retK => exact ⟨_, rfl⟩

end

end ClassicBpf
