import Strace.Qualify.StringToUint
import Strace.Tracer.Tcb

/-! `filter_qualify.c`: the `when=` token of an injection. -/
namespace Strace
open List

def parseWhenStep (rest : List Char) (fopts : InjectOpts) : Option InjectOpts :=
  match rest with
  | [] => some { fopts with step := if fopts.last = injectLastInf then 0 else 1 }
  | [_] => some { fopts with step := 1 }
  | _ :: val => match stringToUintUpto val 0xffff with
    | none => none
    | some intval => if intval < 1 then none else some { fopts with step := intval.toUInt16 }

/-- `parse_inject_token` on a `when=` token. -/
def parseWhen (val : List Char) (fopts : InjectOpts) : Option InjectOpts :=
  match stringToUintEx val 0xffff ['+', '.'] with
  | none => none
  | some (intval, rest) =>
    if intval < 1 then none
    else
      let fopts := { fopts with first := intval.toUInt16 }
      match rest with
      | '.' :: '.' :: val => match stringToUintEx val 0xffff ['+'] with
        | none => none
        | some (intval, rest) =>
          if intval < fopts.first.toNat ∨ intval = injectLastInf.toNat then none
          else parseWhenStep rest { fopts with last := intval.toUInt16 }
      | '.' :: _ => none
      | rest => parseWhenStep rest { fopts with last := injectLastInf }

inductive Stride where
  | plain
  | every
  | steps (n : Nat)
  deriving DecidableEq, Repr

def Stride.step (bounded : Bool) : Stride → Nat
  | .plain => if bounded then 1 else 0
  | .every => 1
  | .steps n => n

structure WhenExpr where
  first : Nat
  last : Option Nat
  stride : Stride
  first_bounds : 1 ≤ first ∧ first ≤ 0xffff
  last_bounds : ∀ l ∈ last, first ≤ l ∧ l < 0xffff
  stride_bounds : ∀ n, stride = .steps n → 1 ≤ n ∧ n ≤ 0xffff

namespace WhenExpr

variable (e : WhenExpr)

def step : Nat := e.stride.step e.last.isSome

def Selects (n : Nat) : Prop :=
  e.first ≤ n ∧ (∀ l ∈ e.last, n ≤ l) ∧ (n = e.first ∨ e.step ≠ 0 ∧ e.step ∣ n - e.first)

instance (e : WhenExpr) (n : Nat) : Decidable (e.Selects n) :=
  inferInstanceAs (Decidable (_ ∧ _ ∧ _))

def counters (fopts : InjectOpts) : InjectOpts :=
  { fopts with
    first := e.first.toUInt16
    last := (e.last.getD 0xffff).toUInt16
    step := e.step.toUInt16 }

inductive SpellsStride : Stride → List Char → Prop
  | plain : SpellsStride .plain []
  | every : SpellsStride .every ['+']
  | steps {n : Nat} {text : List Char} (numeral : Numeral n text) :
      SpellsStride (.steps n) ('+' :: text)

inductive SpellsLast : Option Nat → List Char → Prop
  | none : SpellsLast none []
  | some {n : Nat} {text : List Char} (numeral : Numeral n text) :
      SpellsLast (some n) ('.' :: '.' :: text)

/-- The spellings of an expression. -/
def Spells (text : List Char) : Prop :=
  ∃ first last stride, text = first ++ (last ++ stride) ∧ Numeral e.first first ∧
    SpellsLast e.last last ∧ SpellsStride e.stride stride

/-! ## The parser accepts the spellings -/

section
variable {fopts opts : InjectOpts} {rest : List Char} {val : List Char} {n l : Nat}
  {stride : Stride}

theorem stringToUintUpto_spelled (read : stringToUintUpto val 0xffff = some n) (positive : 1 ≤ n) :
    Numeral n val ∧ n ≤ 0xffff := by
  obtain ⟨⟨m, rest⟩, found, rfl⟩ := Option.map_eq_some_iff.mp read
  obtain ⟨text, rfl, numeral, bound, ends⟩ := stringToUintEx_spelled found positive
  cases rest with
  | nil => exact ⟨by simpa using numeral, bound⟩
  | cons c tail => exact absurd ends not_mem_nil

theorem parseWhenStep_spelled (ends : Ends ['+'] rest)
    (parsed : parseWhenStep rest fopts = some opts) :
    ∃ stride, SpellsStride stride rest ∧ (∀ n, stride = .steps n → 1 ≤ n ∧ n ≤ 0xffff) ∧
      opts = { fopts with step := (stride.step (fopts.last ≠ injectLastInf)).toUInt16 } := by
  unfold parseWhenStep at parsed
  split at parsed
  · refine ⟨.plain, .plain, nofun, ?_⟩
    obtain rfl := Option.some.inj parsed
    by_cases unbounded : fopts.last = injectLastInf
    · simp [Stride.step, unbounded]
    · simp [Stride.step, unbounded]
  · obtain rfl := mem_singleton.mp ends
    exact ⟨.every, .every, nofun, (Option.some.inj parsed).symm⟩
  · obtain rfl := mem_singleton.mp ends
    split at parsed
    · cases parsed
    · next n read =>
      split at parsed
      · cases parsed
      · obtain ⟨numeral, bound⟩ := stringToUintUpto_spelled read (by omega)
        refine ⟨.steps n, .steps numeral, ?_, (Option.some.inj parsed).symm⟩
        rintro m ⟨⟩
        omega

theorem parseWhenStep_parsed (spelled : SpellsStride stride rest)
    (bounds : ∀ n, stride = .steps n → 1 ≤ n ∧ n ≤ 0xffff) : parseWhenStep rest fopts =
      some { fopts with step := (stride.step (fopts.last ≠ injectLastInf)).toUInt16 } := by
  cases spelled with
  | plain =>
    by_cases unbounded : fopts.last = injectLastInf
    · simp [parseWhenStep, Stride.step, unbounded]
    · simp [parseWhenStep, Stride.step, unbounded]
  | every => rfl
  | @steps n text numeral =>
    obtain ⟨positive, bound⟩ := bounds n rfl
    obtain ⟨c, tail, rfl⟩ := exists_cons_of_ne_nil numeral.ne_nil
    have read : stringToUintEx ((c :: tail) ++ []) 0xffff [] = some (n, []) :=
      stringToUintEx_numeral numeral bound (by decide) trivial (by simp)
    rw [append_nil] at read
    have upto : stringToUintUpto (c :: tail) 0xffff = some n := by
      simp [read, stringToUintUpto]
    unfold parseWhenStep
    simp only [upto]
    rw [if_neg (by omega)]
    rfl

theorem toNat_toUInt16 (small : n ≤ 0xffff) : n.toUInt16.toNat = n := by
  exact Nat.mod_eq_of_lt (by omega)

theorem toUInt16_ne_inf (below : l < 0xffff) : l.toUInt16 ≠ injectLastInf := by
  intro eq
  have value := congrArg UInt16.toNat eq
  rw [toNat_toUInt16 (Nat.le_of_lt below)] at value
  exact absurd value (Nat.ne_of_lt below)

theorem parseWhen_spelled (parsed : parseWhen val fopts = some opts) :
    ∃ e : WhenExpr, e.Spells val ∧ opts = e.counters fopts := by
  unfold parseWhen at parsed
  split at parsed
  · cases parsed
  · next first rest read =>
    split at parsed
    · cases parsed
    · next positive =>
      obtain ⟨text, rfl, numeral, bound, ends⟩ := stringToUintEx_spelled read (by omega)
      dsimp only at parsed
      have same := toNat_toUInt16 bound
      split at parsed
      · next val =>
        split at parsed
        · cases parsed
        · next last rest read =>
          split at parsed
          · cases parsed
          · next inside =>
            simp only [not_or] at inside
            obtain ⟨text', rfl, numeral', bound', ends'⟩ := stringToUintEx_spelled read (by omega)
            obtain ⟨stride, spelled, bounds, rfl⟩ := parseWhenStep_spelled ends' parsed
            have below := Nat.lt_of_le_of_ne bound' inside.2
            refine ⟨⟨first, some last, stride, by omega, ?_, bounds⟩,
              ⟨text, '.' :: '.' :: text', rest, rfl, numeral, .some numeral', spelled⟩, ?_⟩
            · rintro l ⟨⟩
              omega
            · simp [counters, step, toUInt16_ne_inf below]
      · cases parsed
      · next dot =>
        have ends : Ends ['+'] rest := by
          cases rest with
          | nil => trivial
          | cons c tail =>
            have other : c ≠ '.' := by
              rintro rfl
              exact dot tail rfl
            simpa [Ends, other] using ends
        obtain ⟨stride, spelled, bounds, rfl⟩ := parseWhenStep_spelled ends parsed
        refine ⟨⟨first, none, stride, by omega, nofun, bounds⟩,
          ⟨text, [], rest, rfl, numeral, .none, spelled⟩, ?_⟩
        simp [counters, step, injectLastInf]

theorem SpellsStride.ends (spelled : SpellsStride stride rest) : Ends ['+'] rest := by
  cases spelled with
  | plain => trivial
  | every => exact mem_singleton_self _
  | steps => exact mem_singleton_self _

theorem parseWhen_unbounded (read : stringToUintEx val 0xffff ['+', '.'] = some (n, rest))
    (positive : 1 ≤ n) (ends : Ends ['+'] rest) : parseWhen val fopts =
      parseWhenStep rest { fopts with first := n.toUInt16, last := injectLastInf } := by
  unfold parseWhen
  rw [read]
  dsimp only
  rw [if_neg (by omega)]
  cases rest with
  | nil => rfl
  | cons c tail =>
    obtain rfl := mem_singleton.mp ends
    rfl

theorem parseWhen_bounded {tail : List Char}
    (read : stringToUintEx val 0xffff ['+', '.'] = some (n, '.' :: '.' :: tail)) (positive : 1 ≤ n)
    (last : stringToUintEx tail 0xffff ['+'] = some (l, rest))
    (inside : ¬ (l < n.toUInt16.toNat ∨ l = injectLastInf.toNat)) : parseWhen val fopts =
      parseWhenStep rest { fopts with first := n.toUInt16, last := l.toUInt16 } := by
  unfold parseWhen
  rw [read]
  dsimp only
  rw [if_neg (by omega)]
  simp only [last, inside, ↓reduceIte]

theorem parseWhen_parsed {e : WhenExpr} (spells : e.Spells val) :
    parseWhen val fopts = some (e.counters fopts) := by
  obtain ⟨first, last, stride, first_bounds, last_bounds, stride_bounds⟩ := e
  obtain ⟨text, middle, rest, rfl, numeral, spelled, ending⟩ := spells
  have ends := ending.ends
  have same := toNat_toUInt16 first_bounds.2
  cases spelled with
  | none =>
    have more : Ends ['+', '.'] rest := by
      cases rest with
      | nil => trivial
      | cons c tail => exact mem_cons.mpr (.inl (mem_singleton.mp ends))
    have read := stringToUintEx_numeral numeral first_bounds.2 (by decide) more (by simp)
    rw [nil_append, parseWhen_unbounded read first_bounds.1 ends,
      parseWhenStep_parsed ending stride_bounds]
    simp [counters, step, injectLastInf]
  | @some l text' numeral' =>
    have bounds := last_bounds l rfl
    have dot : Ends ['+', '.'] ('.' :: '.' :: text' ++ rest) :=
      mem_cons.mpr (.inr (mem_singleton_self _))
    have read := stringToUintEx_numeral numeral first_bounds.2 (by decide) dot (by simp)
    have read' := stringToUintEx_numeral numeral' (Nat.le_of_lt bounds.2) (by decide) ends
      (by simp)
    have inside : ¬ (l < first.toUInt16.toNat ∨ l = injectLastInf.toNat) := by
      exact not_or.mpr ⟨by omega, Nat.ne_of_lt bounds.2⟩
    rw [parseWhen_bounded read first_bounds.1 read' inside,
      parseWhenStep_parsed ending stride_bounds]
    simp [counters, step, toUInt16_ne_inf bounds.2]

/-- The value of `when=` is accepted by `parse_inject_token` exactly if it spells an
expression, and the counters are then what the expression says. -/
theorem parseWhen_iff :
    parseWhen val fopts = some opts ↔ ∃ e : WhenExpr, e.Spells val ∧ opts = e.counters fopts := by
  constructor
  · exact parseWhen_spelled
  · rintro ⟨e, spells, rfl⟩
    exact parseWhen_parsed spells

end

end WhenExpr

end Strace
