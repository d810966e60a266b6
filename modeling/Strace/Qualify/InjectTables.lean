import Strace.Qualify.Denotation
import Strace.Qualify.InjectExpression

/-! The tables that injections are merged into, and what they hold after any
sequence of `-e inject=` and `-e fault=` options. -/
namespace Strace

variable (t : InjectTables)

structure InjectState where
  injectSet : Option NumberSets := none
  injectVec : (p : Nat) → Option (Vector InjectOpts (t.nsyscalls p)) := fun _ => none
  arenas : Arenas := {}

variable (inj : Injection)

def Injection.entry (p : Nat) : InjectOpts :=
  { inj.opts with data := { inj.opts.data with scno := inj.pdata p } }

variable {t}

def mergeRound (p : Nat)
    (tables : NumberSets × Vector InjectOpts (t.nsyscalls p)) (i : Fin (t.nsyscalls p)) :
    NumberSets × Vector InjectOpts (t.nsyscalls p) :=
  if isNumberInSetArray i (some inj.tmpSet) p then
    (addNumberToSetArray i tables.1 p, tables.2.set i (inj.entry p))
  else tables

/-- One round of the outer loop. -/
def mergePersonality (st : InjectState t) (p : Nat) : InjectState t :=
  if numberSetArrayIsEmpty (some inj.tmpSet) p then st
  else
    let set := st.injectSet.getD fun _ => {}
    let vec := (st.injectVec p).getD (Vector.replicate _ {})
    let (set, vec) := (List.finRange (t.nsyscalls p)).foldl (mergeRound inj p) (set, vec)
    { st with injectSet := some set, injectVec := Function.update st.injectVec p (some vec) }

variable (st : InjectState t)

def qualifyInjectCommon (o : InjectOption) : Except Fatal (InjectState t) :=
  match parseInjection t o st.arenas with
  | .error f => .error f
  | .ok (inj, arenas) =>
    .ok ((List.range t.supportedPersonalities).foldl (mergePersonality inj) { st with arenas })

def qualifyFault (str : List Char) : Except Fatal (InjectState t) :=
  qualifyInjectCommon st ⟨true, str⟩

def qualifyInject (str : List Char) : Except Fatal (InjectState t) :=
  qualifyInjectCommon st ⟨false, str⟩

/-- An option `-e fault=` or `-e inject=`. -/
def qualifyOption (o : InjectOption) : Except Fatal (InjectState t) :=
  if o.faultTokensOnly then qualifyFault st o.str else qualifyInject st o.str

theorem qualifyOption_eq : @qualifyOption t = qualifyInjectCommon := by
  funext st o
  obtain ⟨fault, str⟩ := o
  cases fault <;> rfl

/-! ## One option -/

theorem mergeRounds_adds (p : Nat) (is : List (Fin (t.nsyscalls p)))
    (tables : NumberSets × Vector InjectOpts (t.nsyscalls p)) :
    Adds tables.1 (is.foldl (mergeRound inj p) tables).1 fun q n =>
      q = p ∧ n ∈ is.map Fin.val ∧ isNumberInSetArray n (some inj.tmpSet) p = true := by
  induction is generalizing tables with
  | nil => exact Adds.nothing.congr fun q n => by simp
  | cons i is ih =>
    have round : Adds tables.1 (mergeRound inj p tables i).1 fun q n =>
        q = p ∧ n = i.val ∧ isNumberInSetArray n (some inj.tmpSet) p = true := by
      unfold mergeRound
      split
      · refine (Adds.number i.val p).congr fun q n => and_congr_right fun _ => ?_
        constructor
        · grind
        · exact And.left
      · next missing =>
        refine Adds.nothing.congr fun q n => ⟨False.elim, ?_⟩
        rintro ⟨-, rfl, selected⟩
        exact missing selected
    refine (round.trans (ih _)).congr fun q n => ?_
    rw [List.map_cons, List.mem_cons, ← and_or_left, ← or_and_right]

theorem mergeRound_get (p : Nat)
    (tables : NumberSets × Vector InjectOpts (t.nsyscalls p)) (i j : Fin (t.nsyscalls p)) :
    (mergeRound inj p tables j).2[i] =
      if i = j ∧ isNumberInSetArray i (some inj.tmpSet) p = true then inj.entry p
      else tables.2[i] := by
  unfold mergeRound
  by_cases eq : i = j
  · subst eq
    by_cases selected : isNumberInSetArray i (some inj.tmpSet) p = true
    · simp [selected]
    · simp [selected]
  · have different : ¬ (i = j ∧ isNumberInSetArray i (some inj.tmpSet) p = true) :=
      fun both => eq both.1
    split
    · exact Vector.getElem_set_ne j.isLt i.isLt fun same => eq (Fin.ext same.symm)
    · rfl

section
variable {inj : Injection} {p : Nat} {i : Fin (t.nsyscalls p)}

theorem mergeRounds_unselected (unselected : isNumberInSetArray i (some inj.tmpSet) p = false)
    (is : List (Fin (t.nsyscalls p))) (tables : NumberSets × Vector InjectOpts (t.nsyscalls p)) :
    (is.foldl (mergeRound inj p) tables).2[i] = tables.2[i] := by
  induction is generalizing tables with
  | nil => rfl
  | cons j is ih =>
    rw [List.foldl_cons, ih, mergeRound_get, unselected]
    exact if_neg fun both => Bool.false_ne_true both.2

theorem mergeRounds_selected (selected : isNumberInSetArray i (some inj.tmpSet) p = true)
    {is : List (Fin (t.nsyscalls p))} {tables : NumberSets × Vector InjectOpts (t.nsyscalls p)}
    (met : i ∈ is ∨ tables.2[i] = inj.entry p) :
    (is.foldl (mergeRound inj p) tables).2[i] = inj.entry p := by
  induction is generalizing tables with
  | nil => exact met.resolve_left List.not_mem_nil
  | cons j is ih =>
    by_cases eq : i = j
    · exact ih (.inr ((mergeRound_get inj p tables i j).trans (if_pos ⟨eq, selected⟩)))
    · refine ih (met.imp (fun mem => (List.mem_cons.mp mem).resolve_left eq) fun old => ?_)
      rw [mergeRound_get, old, ite_self]

end

theorem isNumberInSetArray_of_empty {set : NumberSets} {p : Nat}
    (empty : numberSetArrayIsEmpty (some set) p = true) (n : Nat) :
    isNumberInSetArray n (some set) p = false := by
  simp only [numberSetArrayIsEmpty, Bool.not_eq_true', Bool.or_eq_false_iff,
    Bool.not_eq_false', List.isEmpty_iff] at empty
  rw [isNumberInSetArray_some, empty.1, empty.2, numberIsset_outside (Nat.zero_le _)]
  rfl

namespace InjectState

def sets : NumberSets := st.injectSet.getD fun _ => {}

def entry (p : Nat) (i : Fin (t.nsyscalls p)) : Option InjectOpts :=
  (st.injectVec p).map (·[i])

theorem isNumberInSetArray_sets (n p : Nat) :
    isNumberInSetArray n st.injectSet p = isNumberInSetArray n (some st.sets) p := by
  unfold sets
  cases st.injectSet with
  | none =>
    rw [isNumberInSetArray_some]
    exact (numberIsset_outside (Nat.zero_le _)).symm.trans (Bool.xor_false _).symm
  | some set => rfl

end InjectState

structure Merges (inj : Injection) (ps : List Nat) (st st' : InjectState t) : Prop where
  adds : Adds st.sets st'.sets fun p n =>
    p ∈ ps ∧ n < t.nsyscalls p ∧ isNumberInSetArray n (some inj.tmpSet) p = true
  written : ∀ p ∈ ps, ∀ i : Fin (t.nsyscalls p), isNumberInSetArray i (some inj.tmpSet) p = true →
    st'.entry p i = some (inj.entry p)
  kept : ∀ p, ∀ i : Fin (t.nsyscalls p), isNumberInSetArray i (some inj.tmpSet) p = false ∨ p ∉ ps →
    ∀ e, st.entry p i = some e → st'.entry p i = some e

namespace Merges

variable {inj : Injection} {ps qs : List Nat} {st st' st'' : InjectState t} {p : Nat}

theorem nothing : Merges inj [] st st :=
  ⟨Adds.nothing.congr fun p n => by simp, nofun, fun _ _ _ _ => id⟩

theorem trans (merges : Merges inj ps st st') (merges' : Merges inj qs st' st'') :
    Merges inj (ps ++ qs) st st'' := by
  constructor
  · refine (merges.adds.trans merges'.adds).congr fun p n => ?_
    rw [List.mem_append, or_and_right]
  · intro p mem i selected
    by_cases later : p ∈ qs
    · exact merges'.written p later i selected
    · have first := merges.written p ((List.mem_append.mp mem).resolve_right later) i selected
      exact merges'.kept p i (.inr later) _ first
  · intro p i outside e before
    have out : isNumberInSetArray i (some inj.tmpSet) p = false ∨ p ∉ ps ∧ p ∉ qs := by
      simpa using outside
    have between := merges.kept p i (out.imp_right And.left) e before
    exact merges'.kept p i (out.imp_right And.right) e between

theorem skipped (empty : numberSetArrayIsEmpty (some inj.tmpSet) p = true) :
    Merges inj [p] st st := by
  have unselected := isNumberInSetArray_of_empty empty
  refine ⟨Adds.nothing.congr fun q n => ⟨False.elim, ?_⟩, ?_, fun _ _ _ _ => id⟩
  · grind
  · grind

theorem personality (inj : Injection) (st : InjectState t) (p : Nat) :
    Merges inj [p] st (mergePersonality inj st p) := by
  unfold mergePersonality
  split
  · next empty => exact skipped empty
  · have adds := mergeRounds_adds inj p (List.finRange (t.nsyscalls p))
      (st.sets, (st.injectVec p).getD (Vector.replicate _ {}))
    constructor
    · refine adds.congr fun q n => ?_
      rw [List.mem_singleton, List.map_coe_finRange_eq_range, List.mem_range]
      exact and_congr_right fun eq => by rw [eq]
    · intro q mem i selected
      obtain rfl := List.mem_singleton.mp mem
      simp only [InjectState.entry, Function.update_self]
      exact congrArg some (mergeRounds_selected selected (.inl (List.mem_finRange i)))
    · intro q i outside e before
      by_cases eq : q = p
      · subst eq
        have unselected := outside.resolve_right (absurd List.mem_cons_self)
        obtain ⟨vec, found, rfl⟩ := Option.map_eq_some_iff.mp before
        simp only [InjectState.entry, Function.update_self, Option.map_some]
        rw [mergeRounds_unselected unselected, found]
        rfl
      · simpa [InjectState.entry, Function.update_of_ne eq] using before

theorem personalities (inj : Injection) (ps : List Nat) (st : InjectState t) :
    Merges inj ps st (ps.foldl (mergePersonality inj) st) := by
  induction ps generalizing st with
  | nil => exact nothing
  | cons p ps ih => exact (personality inj st p).trans (ih _)

end Merges

def InjectOption.Picks (t : FilterTables) (o : InjectOption) (p n : Nat) : Prop :=
  Xor (Odd (o.name.takeWhile (· == '!')).length) (t.SpecDenotes (o.name.dropWhile (· == '!')) p n)

theorem qualifyInjectCommon_merges {o : InjectOption} {st st' : InjectState t}
    (accepted : qualifyInjectCommon st o = .ok st') :
    ∃ inj a, parseInjection t o st.arenas = .ok (inj, a) ∧
      Merges inj (List.range t.supportedPersonalities) st st' ∧
      ∀ p < t.supportedPersonalities, ∀ n, isNumberInSetArray n (some inj.tmpSet) p = true ↔
        o.Picks t.toFilterTables p n := by
  unfold qualifyInjectCommon at accepted
  split at accepted
  · cases accepted
  · next inj a parsed =>
    obtain rfl := Except.ok.inj accepted
    obtain ⟨tokens, -⟩ := parseInjection_cases parsed
    have filled := qualifySyscallTokens_filled t.toFilterTables o.name fun _ => {}
    rw [tokens] at filled
    obtain ⟨-, members⟩ := filled
    have merges :=
      Merges.personalities inj (List.range t.supportedPersonalities) { st with arenas := a }
    exact ⟨inj, a, parsed, ⟨merges.adds, merges.written, merges.kept⟩, members⟩

section
variable {o : InjectOption} {os : List InjectOption} {st st' : InjectState t} {p : Nat}

theorem qualifyInjectCommon_adds (accepted : qualifyInjectCommon st o = .ok st') :
    Adds st.sets st'.sets fun p n =>
      p < t.supportedPersonalities ∧ n < t.nsyscalls p ∧ o.Picks t.toFilterTables p n := by
  obtain ⟨inj, a, -, merges, members⟩ := qualifyInjectCommon_merges accepted
  refine merges.adds.congr fun p n => ?_
  rw [List.mem_range]
  exact and_congr_right fun low => and_congr_right fun _ => members p low n

variable {i : Fin (t.nsyscalls p)} {e : InjectOpts}

theorem qualifyInjectCommon_kept (accepted : qualifyInjectCommon st o = .ok st')
    (low : p < t.supportedPersonalities) (other : ¬ o.Picks t.toFilterTables p i)
    (before : st.entry p i = some e) :
    st'.entry p i = some e := by
  obtain ⟨inj, a, -, merges, members⟩ := qualifyInjectCommon_merges accepted
  have unselected := Bool.eq_false_iff.mpr fun selected => other ((members p low i).mp selected)
  exact merges.kept p i (.inl unselected) e before

/-! ## Any sequence of options -/

theorem options_adds (accepted : os.foldlM qualifyInjectCommon st = .ok st') :
    Adds st.sets st'.sets fun p n =>
      p < t.supportedPersonalities ∧ n < t.nsyscalls p ∧
        ∃ o ∈ os, o.Picks t.toFilterTables p n := by
  induction os generalizing st with
  | nil =>
    obtain rfl := Except.ok.inj accepted
    exact Adds.nothing.congr fun p n => by simp
  | cons o os ih =>
    obtain ⟨next, first, rest⟩ := Except.of_bind_eq_ok accepted
    refine ((qualifyInjectCommon_adds first).trans (ih rest)).congr fun p n => ?_
    rw [← and_or_left, ← and_or_left]
    simp only [List.mem_cons, exists_eq_or_imp]

theorem options_kept (accepted : os.foldlM qualifyInjectCommon st = .ok st')
    (low : p < t.supportedPersonalities) (others : ∀ o ∈ os, ¬ o.Picks t.toFilterTables p i)
    (before : st.entry p i = some e) : st'.entry p i = some e := by
  induction os generalizing st with
  | nil =>
    obtain rfl := Except.ok.inj accepted
    exact before
  | cons o os ih =>
    obtain ⟨next, first, rest⟩ := Except.of_bind_eq_ok accepted
    have after := qualifyInjectCommon_kept first low (others o List.mem_cons_self) before
    exact ih rest (fun o mem => others o (List.mem_cons_of_mem _ mem)) after

theorem isNumberInSetArray_added {n : Nat} {selects : Nat → Nat → Prop}
    (adds : Adds ({} : InjectState t).sets st.sets selects) :
    isNumberInSetArray n st.injectSet p = true ↔ selects p n := by
  rw [st.isNumberInSetArray_sets,
    isNumberInSetArray_adds (numberIsset_outside (Nat.zero_le _)) adds]
  simp [InjectState.sets]

end

def pureSyscalls : InjectTables where
  toFilterTables := { twoPersonalities with sysentVec := fun _ _ => { sysFlags := tracePure } }
  errnoent := []
  signame _ := none
  nsigBytes := 8
  enosys := 38
  kernelLongBits := 64
  strtoull val := (0, val, false)
  sscanfHex _ := none
  parseTs _ := none
  tables_short _ := (by decide : (2 : UInt32).toNat ≤ 2 ^ 16)

def overlappingOptions : List InjectOption :=
  [⟨true, ['r', 'e', 'a', 'd']⟩,
   ⟨false, ['r', 'e', 'a', 'd', '@', '3', '2', ':', 'e', 'r', 'r', 'o', 'r', '=', '5', ':',
     's', 'y', 's', 'c', 'a', 'l', 'l', '=', 'r', 'e', 'a', 'd']⟩]

end Strace
