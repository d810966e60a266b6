import Strace.Qualify.BasicFilters

/-! The syscalls that a specification stands for, and that `qualify_syscall_tokens`
fills the sets with them. -/
namespace Strace
open List

/-- The ways to write a set of syscalls. -/
inductive TokenKind where
  | number
  | regex (pattern : List Char)
  | syscallClass (flags : UInt32)
  | name
  deriving DecidableEq, Repr

def tokenKind (text : List Char) : TokenKind :=
  if text.head?.any Char.isDigit then .number
  else if text.head? = some '/' then .regex text.tail
  else
    match findXlatValCase syscallClass text with
    | some flags => .syscallClass flags
    | none => .name

namespace FilterTables

variable (t : FilterTables)

def scnoOf (text : List Char) (p : Nat) : Option Nat :=
  (stringToUint text).bind fun nr =>
    let scno := shuffleScnoPers t.shuffle nr p % 2 ^ 32
    if scnoPersIsValid t scno p then some scno
    else if t.needsNonShuffledScnoCheck && scnoPersIsValid t nr p then some nr
    else none

def Selects (text : List Char) (p n : Nat) : Prop :=
  match tokenKind text with
  | .number => t.scnoOf text p = some n
  | .regex pattern => n < t.nsyscalls p ∧
      ∃ name, t.sysName p n = some name ∧ t.regexec pattern name = .ok true
  | .syscallClass flags => n < t.nsyscalls p ∧
      (t.sysName p n).isSome ∧ (t.sysentVec p n).sysFlags &&& flags = flags
  | .name => n < t.nsyscalls p ∧ t.sysName p n = some text

def Known (text : List Char) (p : Nat) : Prop :=
  match tokenKind text with
  | .syscallClass _ => True
  | _ => ∃ n, t.Selects text p n

def Runs (text : List Char) (p : Nat) : Prop :=
  match tokenKind text with
  | .regex pattern => t.regcomp pattern = none ∧
      ∀ n < t.nsyscalls p, ∀ name, t.sysName p n = some name →
        ∃ matched, t.regexec pattern name = .ok matched
  | _ => True

inductive Scope : List Char → List Char → List Nat → Prop
  | designated {text designator : List Char} {p : Nat} (last : '@' ∉ designator)
      (known : t.personalityDesignators.idxOf? designator = some p) :
      Scope (text ++ '@' :: designator) text [p]
  | everywhere {text : List Char} (plain : '@' ∉ text) :
      Scope text text (List.range t.supportedPersonalities)

def ValidToken (token : List Char) : Prop :=
  ∃ text ps, t.Scope (token.dropWhile (· == '?')) text ps ∧ (∀ p ∈ ps, t.Runs text p) ∧
    (token.head? = some '?' ∨ ∃ p ∈ ps, t.Known text p)

/-- The syscalls that a token stands for. -/
def TokenDenotes (token : List Char) (p n : Nat) : Prop :=
  ∃ text ps, t.Scope (token.dropWhile (· == '?')) text ps ∧ p ∈ ps ∧ t.Selects text p n

def tokens (s : List Char) : List (List Char) := (s.splitOn ',').filter (· ≠ [])

def ValidSpec (s : List Char) : Prop :=
  s = ['n', 'o', 'n', 'e'] ∨ s = ['a', 'l', 'l'] ∨
    tokens s ≠ [] ∧ ∀ token ∈ tokens s, t.ValidToken token

def SpecDenotes (s : List Char) (p n : Nat) : Prop :=
  if s = ['n', 'o', 'n', 'e'] then False
  else if s = ['a', 'l', 'l'] then True
  else ∃ token ∈ tokens s, t.TokenDenotes token p n

end FilterTables

/-! ## What a call does to the sets -/

inductive Qualifies (set : NumberSets) (runs found : Prop) (selects : Nat → Nat → Prop) :
    Except Fatal (Bool × NumberSets) → Prop
  | returns {rc : Bool} {set' : NumberSets} (able : runs) (result : rc = true ↔ found)
      (adds : Adds set set' selects) : Qualifies set runs found selects (.ok (rc, set'))
  | dies {e : Fatal} (stuck : ¬ runs) : Qualifies set runs found selects (.error e)

namespace Qualifies

variable {set : NumberSets} {runs runs' found found' : Prop} {selects selects' : Nat → Nat → Prop}
  {r : Except Fatal (Bool × NumberSets)}

theorem congr (qualifies : Qualifies set runs found selects r) (able : runs ↔ runs')
    (result : found ↔ found') (same : ∀ p n, selects p n ↔ selects' p n) :
    Qualifies set runs' found' selects' r := by
  cases qualifies with
  | returns able' result' adds =>
    exact .returns (able.mp able') (result'.trans result) (adds.congr same)
  | dies stuck => exact .dies fun able' => stuck (able.mpr able')

theorem qualifyEach {α : Type} {body : α → NumberSets → Except Fatal (Bool × NumberSets)}
    {runs found : α → Prop} {selects : α → Nat → Nat → Prop}
    {xs : List α}
    (round : ∀ x ∈ xs, ∀ set, Qualifies set (runs x) (found x) (selects x) (body x set))
    (before : Bool) (set : NumberSets) :
    Qualifies set (∀ x ∈ xs, runs x) (before = true ∨ ∃ x ∈ xs, found x)
      (fun p n => ∃ x ∈ xs, selects x p n) (qualifyEach body xs before set) := by
  induction xs generalizing before set with
  | nil =>
    refine .returns (by simp) (by simp) ?_
    exact Adds.nothing.congr fun p n => by simp
  | cons x xs ih =>
    unfold Strace.qualifyEach
    have first := round x mem_cons_self set
    generalize body x set = r at first
    cases first with
    | dies stuck => exact .dies fun able => stuck (able x mem_cons_self)
    | @returns rc set' able result adds =>
      have rest := ih (fun y mem => round y (mem_cons_of_mem x mem)) (before || rc) set'
      dsimp only
      generalize Strace.qualifyEach body xs (before || rc) set' = r' at rest
      cases rest with
      | dies stuck => exact .dies fun able => stuck fun y mem => able y (mem_cons_of_mem x mem)
      | returns able' result' adds' =>
        refine .returns ?_ ?_ ((adds.trans adds').congr ?_)
        · intro y mem
          rcases mem_cons.mp mem with rfl | mem
          · exact able
          · exact able' y mem
        · simp only [result', Bool.or_eq_true, result, mem_cons, exists_eq_or_imp, or_assoc]
        · simp

end Qualifies

section

variable {t : FilterTables}

/-! ## Numbers -/

theorem armShuffleScnoPers_max (eabi : Bool) :
    armShuffleScnoPers eabi (2 ^ 32 - 1) = 2 ^ 32 - 1 := by
  cases eabi <;> rfl

theorem shuffleScnoPers_max (shuffle : ShuffleScno) (p : Nat) :
    2 ^ 30 ≤ shuffleScnoPers shuffle (2 ^ 32 - 1) p % 2 ^ 32 := by
  cases shuffle <;> simp only [shuffleScnoPers, armShuffleScnoPers_max] <;> (try split) <;> decide

variable {scno p start n fuel : Nat} {s : List Char} {x : Char}

theorem scnoPersIsValid_large (large : 2 ^ 30 ≤ scno) : scnoPersIsValid t scno p = false := by
  have small : t.nsyscalls p ≤ 2 ^ 30 := t.tables_small p
  have beyond : ¬ scno < t.nsyscalls p := by omega
  simp [scnoPersIsValid, beyond]

theorem qualifySyscallNumber_eq (text : List Char) (p : Nat) (set : NumberSets) :
    qualifySyscallNumber t text p set =
      match t.scnoOf text p with
      | some n => (true, addNumberToSetArray n set p)
      | none => (false, set) := by
  unfold qualifySyscallNumber FilterTables.scnoOf
  cases stringToUint text with
  | none =>
    have out := scnoPersIsValid_large (t := t) (p := p) (shuffleScnoPers_max t.shuffle p)
    have out' : scnoPersIsValid t (2 ^ 32 - 1) p = false := scnoPersIsValid_large (by decide)
    simp only [Option.getD_none, out, out', Bool.and_false, Bool.false_eq_true, if_false,
      Option.bind_none]
  | some nr =>
    grind

/-! ## The syscalls of one personality -/

theorem regexRound_qualifies (t : FilterTables) (pattern : List Char) (p i : Nat)
    (set : NumberSets) :
    Qualifies set
      (∀ name, t.sysName p i = some name → ∃ matched, t.regexec pattern name = .ok matched)
      (∃ name, t.sysName p i = some name ∧ t.regexec pattern name = .ok true)
      (fun q n => q = p ∧ n = i ∧
        ∃ name, t.sysName p i = some name ∧ t.regexec pattern name = .ok true)
      (regexRound t pattern p i set) := by
  unfold regexRound
  cases named : t.sysName p i with
  | none =>
    refine .returns (by simp) (by simp) (Adds.nothing.congr fun q n => by simp)
  | some name =>
    simp only [Option.some.injEq, forall_eq', exists_eq_left']
    cases t.regexec pattern name with
    | error buf => exact .dies (by simp)
    | ok matched =>
      cases matched with
      | false => exact .returns (by simp) (by simp) (Adds.nothing.congr fun q n => by simp)
      | true => exact .returns (by simp) (by simp) ((Adds.number i p).congr fun q n => by simp)

theorem classRounds_adds (flags : UInt32) (p : Nat) (is : List Nat) (set : NumberSets) :
    Adds set (is.foldl (classRound t flags p) set) fun q n =>
      q = p ∧ n ∈ is ∧ (t.sysName p n).isSome ∧ (t.sysentVec p n).sysFlags &&& flags = flags := by
  induction is generalizing set with
  | nil => exact Adds.nothing.congr fun q n => by simp
  | cons i is ih =>
    have rest := ih (classRound t flags p set i)
    rw [foldl_cons]
    unfold classRound at rest ⊢
    split at rest
    · next selected =>
      rw [if_pos selected]
      refine ((Adds.number i p).trans rest).congr fun q n => ?_
      constructor
      · grind
      · rintro ⟨own, mem, chosen⟩
        rcases mem_cons.mp mem with rfl | mem
        · exact .inl ⟨own, rfl⟩
        · exact .inr ⟨own, mem, chosen⟩
    · next unselected =>
      rw [if_neg unselected]
      refine rest.congr fun q n => ?_
      constructor
      · grind
      · rintro ⟨own, mem, chosen⟩
        rcases mem_cons.mp mem with rfl | mem
        · exact absurd chosen unselected
        · exact ⟨own, mem, chosen⟩

theorem scnoByName_none (low : p < t.supportedPersonalities)
    (missed : scnoByName t s p start = none) (later : start ≤ n) (inside : n < t.nsyscalls p) :
    t.sysName p n ≠ some s := by
  unfold scnoByName at missed
  rw [if_neg (Nat.not_le_of_lt low), find?_range'_eq_none] at missed
  simpa using missed n later (by omega)

theorem scnoByName_some {i : Nat} (found : scnoByName t s p start = some i) :
    start ≤ i ∧ i < t.nsyscalls p ∧ t.sysName p i = some s ∧
      ∀ n, start ≤ n → n < i → t.sysName p n ≠ some s := by
  unfold scnoByName at found
  split at found
  · cases found
  · rw [find?_range'_eq_some] at found
    obtain ⟨named, mem, first⟩ := found
    obtain ⟨later, inside⟩ := mem_range'_1.mp mem
    refine ⟨later, by omega, by simpa using named, fun n after before => ?_⟩
    simpa using first n after before

theorem nameLoop_adds (low : p < t.supportedPersonalities) (enough : t.nsyscalls p ≤ scno + fuel)
    (found : Bool) (set : NumberSets) :
    ((nameLoop t s p fuel scno found set).1 = true ↔
      found = true ∨ ∃ n, scno ≤ n ∧ n < t.nsyscalls p ∧ t.sysName p n = some s) ∧
    Adds set (nameLoop t s p fuel scno found set).2 fun q n =>
      q = p ∧ scno ≤ n ∧ n < t.nsyscalls p ∧ t.sysName p n = some s := by
  induction fuel generalizing scno found set with
  | zero =>
    have none (n : Nat) : ¬ (scno ≤ n ∧ n < t.nsyscalls p ∧ t.sysName p n = some s) := by omega
    exact ⟨by simp [nameLoop, none], Adds.nothing.congr fun q n => by simp [none]⟩
  | succ fuel ih =>
    unfold nameLoop
    cases looked : scnoByName t s p scno with
    | none =>
      have none (n : Nat) : ¬ (scno ≤ n ∧ n < t.nsyscalls p ∧ t.sysName p n = some s) :=
        fun ⟨later, inside, named⟩ => scnoByName_none low looked later inside named
      exact ⟨by simp [none], Adds.nothing.congr fun q n => by simp [none]⟩
    | some i =>
      obtain ⟨later, inside, named, first⟩ := scnoByName_some looked
      have next (n : Nat) : (scno ≤ n ∧ n < t.nsyscalls p ∧ t.sysName p n = some s) ↔
          n = i ∨ (i + 1 ≤ n ∧ n < t.nsyscalls p ∧ t.sysName p n = some s) := by
        constructor
        · rintro ⟨after, inside', named'⟩
          rcases Nat.lt_trichotomy n i with before | same | beyond
          · exact absurd named' (first n after before)
          · exact .inl same
          · exact .inr ⟨beyond, inside', named'⟩
        · grind
      have enough' : t.nsyscalls p ≤ i + 1 + fuel := by omega
      obtain ⟨result, adds⟩ := ih enough' true (addNumberToSetArray i set p)
      refine ⟨?_, ((Adds.number i p).trans adds).congr fun q n => ?_⟩
      · exact result.trans ⟨fun _ => .inr ⟨i, later, inside, named⟩, fun _ => .inl rfl⟩
      · rw [next, and_or_left]

theorem qualifySyscallPers_eq (text : List Char) (p : Nat) (set : NumberSets) :
    qualifySyscallPers t text p set =
      match tokenKind text with
      | .number => .ok (qualifySyscallNumber t text p set)
      | .regex pattern => qualifySyscallRegex t pattern p set
      | .syscallClass flags =>
        .ok (true, (List.range (t.nsyscalls p)).foldl (classRound t flags p) set)
      | .name => .ok (qualifySyscallName t text p set) := by
  unfold qualifySyscallPers tokenKind qualifySyscallClass
  by_cases digit : text.head?.any Char.isDigit = true
  · rw [if_pos digit, if_pos digit]
  · grind

theorem qualifySyscallRegex_qualifies (t : FilterTables) (pattern : List Char) (p : Nat)
    (set : NumberSets) :
    Qualifies set
      (t.regcomp pattern = none ∧ ∀ n < t.nsyscalls p, ∀ name, t.sysName p n = some name →
        ∃ matched, t.regexec pattern name = .ok matched)
      (∃ n, n < t.nsyscalls p ∧
        ∃ name, t.sysName p n = some name ∧ t.regexec pattern name = .ok true)
      (fun q n => q = p ∧ n < t.nsyscalls p ∧
        ∃ name, t.sysName p n = some name ∧ t.regexec pattern name = .ok true)
      (qualifySyscallRegex t pattern p set) := by
  unfold qualifySyscallRegex
  cases t.regcomp pattern with
  | some buf => exact .dies (by simp)
  | none =>
    refine (Qualifies.qualifyEach
      (fun i _ set => regexRound_qualifies t pattern p i set) false set).congr
      (by simp) (by simp) fun q n => ?_
    constructor
    · grind
    · grind

theorem qualifySyscallPers_qualifies (low : p < t.supportedPersonalities) (text : List Char)
    (set : NumberSets) :
    Qualifies set (t.Runs text p) (t.Known text p) (fun q n => q = p ∧ t.Selects text p n)
      (qualifySyscallPers t text p set) := by
  rw [qualifySyscallPers_eq]
  unfold FilterTables.Runs FilterTables.Known FilterTables.Selects
  cases tokenKind text with
  | number =>
    rw [qualifySyscallNumber_eq]
    cases t.scnoOf text p with
    | none => exact .returns trivial (by simp) (Adds.nothing.congr fun q n => by simp)
    | some scno =>
      refine .returns trivial (by simp) ((Adds.number scno p).congr fun q n => ?_)
      simp [eq_comm]
  | regex pattern => exact qualifySyscallRegex_qualifies t pattern p set
  | syscallClass flags =>
    refine .returns trivial (by simp) ((classRounds_adds flags p _ set).congr fun q n => ?_)
    rw [mem_range]
  | name =>
    have enough : t.nsyscalls p ≤ 0 + t.nsyscalls p := (Nat.zero_add _).symm.le
    obtain ⟨result, adds⟩ := nameLoop_adds low enough false set
    refine .returns trivial (result.trans ?_) (adds.congr fun q n => ?_) <;> simp

/-! ## Tokens -/

theorem skipQuestionMarks_eq (rc : Bool) (token : List Char) :
    skipQuestionMarks rc token =
      (rc || token.head? == some '?', token.dropWhile (· == '?')) := by
  induction token generalizing rc with
  | nil => cases rc <;> rfl
  | cons c token ih =>
    by_cases mark : c = '?'
    · subst mark
      rw [skipQuestionMarks, ih]
      simp
    · have other : skipQuestionMarks rc (c :: token) = (rc, c :: token) := by
        unfold skipQuestionMarks
        split
        · next eq => exact absurd (List.cons.inj eq).1 mark
        · rfl
      simp [other, mark]

theorem strrchr_absent (absent : x ∉ s) : strrchr s x = none := by
  induction s with
  | nil => rfl
  | cons c s ih =>
    obtain ⟨other, absent⟩ := not_or.mp (mem_cons.not.mp absent)
    rw [strrchr, ih absent]
    exact if_neg fun eq => other eq.symm

theorem strrchr_last {after : List Char} (absent : x ∉ after) (before : List Char) :
    strrchr (before ++ x :: after) x = some (before, after) := by
  induction before with
  | nil =>
    simp [strrchr, strrchr_absent absent]
  | cons c before ih => rw [cons_append, strrchr, ih]

theorem exists_last (mem : x ∈ s) : ∃ before after, s = before ++ x :: after ∧ x ∉ after := by
  induction s with
  | nil => cases mem
  | cons c s ih =>
    by_cases later : x ∈ s
    · obtain ⟨before, after, rfl, absent⟩ := ih later
      exact ⟨c :: before, after, rfl, absent⟩
    · obtain rfl := (mem_cons.mp mem).resolve_right later
      exact ⟨[], s, rfl, later⟩

namespace FilterTables

variable {s text text' token : List Char} {ps ps' : List Nat}

theorem Scope.strrchr (scope : t.Scope s text ps) :
    (Strace.strrchr s '@' = none ∧ text = s ∧ ps = List.range t.supportedPersonalities) ∨
      ∃ designator p, Strace.strrchr s '@' = some (text, designator) ∧
        t.personalityDesignators.idxOf? designator = some p ∧ ps = [p] := by
  cases scope with
  | designated last known => exact .inr ⟨_, _, strrchr_last last text, known, rfl⟩
  | everywhere plain => exact .inl ⟨strrchr_absent plain, rfl, rfl⟩

theorem Scope.unique (scope : t.Scope s text ps) (scope' : t.Scope s text' ps') :
    text = text' ∧ ps = ps' := by
  rcases scope.strrchr with ⟨missed, rfl, rfl⟩ | ⟨designator, p, found, known, rfl⟩
  · rcases scope'.strrchr with ⟨-, rfl, rfl⟩ | ⟨_, _, found, _⟩
    · exact ⟨rfl, rfl⟩
    · rw [missed] at found
      cases found
  · rcases scope'.strrchr with ⟨missed, _⟩ | ⟨_, _, found', known', rfl⟩
    · rw [missed] at found
      cases found
    · grind

theorem Scope.low (scope : t.Scope s text ps) : ∀ p ∈ ps, p < t.supportedPersonalities := by
  cases scope with
  | designated last known =>
    intro p mem
    rw [mem_singleton.mp mem, ← t.designators_length]
    obtain ⟨inside, _⟩ := idxOf?_eq_some_iff.mp known
    exact inside
  | everywhere plain => exact fun p mem => mem_range.mp mem

theorem Scope.qualifySyscall (scope : t.Scope (token.dropWhile (· == '?')) text ps)
    (set : NumberSets) : Strace.qualifySyscall t token set =
      qualifyEach (qualifySyscallPers t text) ps (token.head? == some '?') set := by
  unfold Strace.qualifySyscall qualifySyscallSeparatePersonality
  rw [skipQuestionMarks_eq, Bool.false_or]
  rcases scope.strrchr with ⟨missed, rfl, rfl⟩ | ⟨designator, p, found, known, rfl⟩
  · simp only [missed]
  · simp only [found, known]

theorem qualifySyscall_error (unscoped : ∀ text ps, ¬ t.Scope (token.dropWhile (· == '?')) text ps)
    (set : NumberSets) : ∃ e, Strace.qualifySyscall t token set = .error e := by
  unfold Strace.qualifySyscall qualifySyscallSeparatePersonality
  rw [skipQuestionMarks_eq]
  generalize token.dropWhile (· == '?') = s at unscoped
  by_cases mem : '@' ∈ s
  · obtain ⟨before, after, rfl, absent⟩ := exists_last mem
    cases known : t.personalityDesignators.idxOf? after with
    | some p => exact absurd (.designated absent known) (unscoped before [p])
    | none =>
      simp [strrchr_last absent, known]
  · exact absurd (.everywhere mem) (unscoped s _)

end FilterTables

/-- One round of the token loop. -/
def tokenRound (t : FilterTables) (token : List Char) (set : NumberSets) :
    Except Fatal (Bool × NumberSets) :=
  match qualifySyscall t token set with
  | .error e => .error e
  | .ok (true, set) => .ok (true, set)
  | .ok (false, _) => .error (invalidSystemCall token)

theorem tokenRound_qualifies (t : FilterTables) (token : List Char) (set : NumberSets) :
    Qualifies set (t.ValidToken token) True (t.TokenDenotes token) (tokenRound t token set) := by
  unfold tokenRound
  by_cases separable : ∃ text ps, t.Scope (token.dropWhile (· == '?')) text ps
  · obtain ⟨text, ps, scope⟩ := separable
    have valid : t.ValidToken token ↔ (∀ p ∈ ps, t.Runs text p) ∧
        ((token.head? == some '?') = true ∨ ∃ p ∈ ps, t.Known text p) := by
      rw [beq_iff_eq]
      constructor
      · rintro ⟨text', ps', scope', able, result⟩
        obtain ⟨rfl, rfl⟩ := scope.unique scope'
        exact ⟨able, result⟩
      · rintro ⟨able, result⟩
        exact ⟨text, ps, scope, able, result⟩
    have denotes (p n : Nat) : (∃ q ∈ ps, p = q ∧ t.Selects text q n) ↔
        t.TokenDenotes token p n := by
      constructor
      · rintro ⟨_, mem, rfl, chosen⟩
        exact ⟨text, ps, scope, mem, chosen⟩
      · rintro ⟨text', ps', scope', mem, chosen⟩
        obtain ⟨rfl, rfl⟩ := scope.unique scope'
        exact ⟨p, mem, rfl, chosen⟩
    have rounds := Qualifies.qualifyEach
      (fun p mem set => qualifySyscallPers_qualifies (scope.low p mem) text set)
      (token.head? == some '?') set
    rw [scope.qualifySyscall, valid]
    generalize qualifyEach (qualifySyscallPers t text) ps (token.head? == some '?') set =
      r at rounds
    cases rounds with
    | dies stuck => exact .dies fun both => stuck both.1
    | @returns rc set' able result adds =>
      cases rc with
      | false => exact .dies fun both => Bool.false_ne_true (result.mpr both.2)
      | true => exact .returns ⟨able, result.mp rfl⟩ (by simp) (adds.congr denotes)
  · have unscoped (text : List Char) (ps : List Nat)
        (scope : t.Scope (token.dropWhile (· == '?')) text ps) : False :=
          separable ⟨text, ps, scope⟩
    obtain ⟨e, died⟩ := FilterTables.qualifySyscall_error unscoped set
    rw [died]
    refine .dies ?_
    rintro ⟨text, ps, scope, _⟩
    exact unscoped text ps scope

/-! ## Specifications -/

open FilterTables (tokens)

theorem tokens_dropWhile (s : List Char) : tokens (s.dropWhile (· == ',')) = tokens s := by
  induction s with
  | nil => rfl
  | cons c s ih =>
    by_cases comma : c = ','
    · subst comma
      rw [dropWhile_cons_of_pos (by simp), ih]
      simp [tokens, List.splitOn, splitOnP_cons_eq_if_modifyHead]
    · rw [dropWhile_cons_of_neg (by simpa using comma)]

theorem tokens_word {c : Char} (start : c ≠ ',') (rest : List Char) :
    tokens (c :: rest) = (c :: rest).takeWhile (· != ',') ::
      tokens ((c :: rest).dropWhile (· != ',')).tail := by
  have word : ∀ x ∈ (c :: rest).takeWhile (· != ','), (x == ',') = false := by
    intro x mem
    simpa using all_eq_true.mp all_takeWhile x mem
  have nonempty : (c :: rest).takeWhile (· != ',') ≠ [] := by
    rw [takeWhile_cons_of_pos (by simpa using start)]
    exact cons_ne_nil _ _
  have parts := takeWhile_append_dropWhile (p := (· != ',')) (l := c :: rest)
  generalize (c :: rest).takeWhile (· != ',') = w at *
  cases after : (c :: rest).dropWhile (· != ',') with
  | nil =>
    rw [after, append_nil] at parts
    unfold tokens List.splitOn
    rw [← parts, splitOnP_eq_singleton word]
    simp [nonempty]
  | cons x tail =>
    have comma : x = ',' := by
      have stop := head?_dropWhile_not (· != ',') (c :: rest)
      simpa [after] using stop
    subst comma
    rw [after] at parts
    unfold tokens List.splitOn
    rw [← parts, splitOnP_append_cons_of_forall_mem word _ (by simp),
      filter_cons_of_pos (by simpa using nonempty)]
    rfl

theorem tokenLoop_eq (t : FilterTables) (enough : s.length ≤ fuel) (done : Bool)
    (set : NumberSets) :
    tokenLoop t fuel s done set = qualifyEach (tokenRound t) (tokens s) done set := by
  induction fuel generalizing s done set with
  | zero =>
    obtain rfl := eq_nil_of_length_eq_zero (Nat.le_zero.mp enough)
    rfl
  | succ fuel ih =>
    have shorter : (s.dropWhile (· == ',')).length ≤ s.length := (dropWhile_sublist _).length_le
    unfold tokenLoop strtokR
    rw [← tokens_dropWhile s]
    cases left : s.dropWhile (· == ',') with
    | nil => rfl
    | cons c rest =>
      have start : c ≠ ',' := by
        have stop := head?_dropWhile_not (· == ',') s
        simpa [left] using stop
      rw [tokens_word start, qualifyEach]
      unfold tokenRound
      dsimp only
      generalize (c :: rest).takeWhile (· != ',') = token
      cases qualifySyscall t token set with
      | error e => rfl
      | ok result =>
        obtain ⟨rc, set'⟩ := result
        cases rc with
        | false => rfl
        | true =>
          dsimp only
          rw [Bool.or_true]
          refine ih ?_ true set'
          have short := (dropWhile_sublist (· != ',') (l := rest)).length_le
          rw [left, length_cons] at shorter
          rw [dropWhile_cons_of_pos (by simpa using start), length_tail]
          omega

theorem tokenLoop_qualifies (t : FilterTables) (s : List Char) (set : NumberSets) :
    Qualifies set (∀ token ∈ tokens s, t.ValidToken token) (tokens s ≠ [])
      (fun p n => ∃ token ∈ tokens s, t.TokenDenotes token p n)
      (tokenLoop t s.length s false set) := by
  rw [tokenLoop_eq t (Nat.le_refl s.length)]
  refine (Qualifies.qualifyEach (fun token _ set => tokenRound_qualifies t token set) false
    set).congr
    Iff.rfl ?_ fun p n => Iff.rfl
  cases tokens s <;> simp

theorem invertLeading_eq (nmemb : Nat) (set : NumberSets) (str : List Char) :
    (invertLeading nmemb set str).2 = str.dropWhile (· == '!') ∧
      ∀ p < nmemb, ((invertLeading nmemb set str).1 p).vec = (set p).vec ∧
        ((invertLeading nmemb set str).1 p).not =
          ((set p).not ^^ decide (Odd (str.takeWhile (· == '!')).length)) := by
  induction str generalizing set with
  | nil => exact ⟨rfl, fun p _ => ⟨rfl, by simp [invertLeading]⟩⟩
  | cons c str ih =>
    by_cases mark : c = '!'
    · subst mark
      obtain ⟨rest, sets⟩ := ih (invertNumberSetArray set nmemb)
      refine ⟨rest, fun p low => ?_⟩
      obtain ⟨vec, not⟩ := sets p low
      have inverted : invertNumberSetArray set nmemb p = { set p with not := !(set p).not } :=
        if_pos low
      rw [inverted] at vec not
      refine ⟨vec, not.trans ?_⟩
      rw [takeWhile_cons_of_pos (by simp), length_cons]
      simp only [Nat.odd_add_one, decide_not, Bool.not_xor, Bool.xor_not]
    · have other : invertLeading nmemb set (c :: str) = (set, c :: str) := by
        unfold invertLeading
        split
        · next eq => exact absurd (List.cons.inj eq).1 mark
        · rfl
      simp [other, mark]

theorem numberIsset_clear (n : Nat) (vec : List UInt32) :
    numberIsset n (vec.map fun _ => 0) = false := by
  rw [numberIsset_eq_testBit, getElem?_map]
  cases vec[n / bitsPerSlot]? <;> exact Nat.zero_testBit _

theorem isNumberInSetArray_adds {set set' : NumberSets} {selects : Nat → Nat → Prop}
    (empty : numberIsset n (set p).vec = false) (adds : Adds set set' selects) :
    isNumberInSetArray n (some set') p = true ↔ Xor ((set p).not = true) (selects p n) := by
  have bits := adds.bits p n
  rw [empty, Bool.false_eq_true, false_or] at bits
  rw [isNumberInSetArray_some, adds.not, ← bits]
  cases numberIsset n (set' p).vec <;> cases (set p).not <;> simp

inductive Filled (t : FilterTables) (str : List Char) : Except Fatal NumberSets → Prop
  | returns {set : NumberSets} (valid : t.ValidSpec (str.dropWhile (· == '!')))
      (members : ∀ p < t.supportedPersonalities, ∀ n, isNumberInSetArray n (some set) p = true ↔
        Xor (Odd (str.takeWhile (· == '!')).length)
          (t.SpecDenotes (str.dropWhile (· == '!')) p n)) : Filled t str (.ok set)
  | dies {e : Fatal} (invalid : ¬ t.ValidSpec (str.dropWhile (· == '!'))) : Filled t str (.error e)

theorem qualifySyscallTokens_filled (t : FilterTables) (str : List Char) (set : NumberSets) :
    Filled t str (qualifySyscallTokens t str set) := by
  obtain ⟨rest, sets⟩ := invertLeading_eq t.supportedPersonalities
    (clearNumberSetArray set t.supportedPersonalities) str
  have cleared (p : Nat) (low : p < t.supportedPersonalities) :
      clearNumberSetArray set t.supportedPersonalities p =
        { vec := (set p).vec.map fun _ => 0, not := false } := if_pos low
  unfold qualifySyscallTokens
  dsimp only
  generalize invertLeading t.supportedPersonalities
    (clearNumberSetArray set t.supportedPersonalities) str = start at rest sets
  obtain ⟨start, s⟩ := start
  obtain rfl := rest
  have empty (p : Nat) (low : p < t.supportedPersonalities) (n : Nat) :
      numberIsset n (start p).vec = false := by
    rw [(sets p low).1, cleared p low, numberIsset_clear]
  have parity (p : Nat) (low : p < t.supportedPersonalities) :
      (start p).not = true ↔ Odd (str.takeWhile (· == '!')).length := by
    rw [(sets p low).2, cleared p low, Bool.false_xor, decide_eq_true_iff]
  split
  · next none =>
    refine .returns (.inl none) fun p low n => ?_
    rw [isNumberInSetArray_adds (empty p low n) Adds.nothing, parity p low,
      FilterTables.SpecDenotes, if_pos none]
  · next notNone =>
    split
    · next all =>
      refine .returns (.inr (.inl all)) fun p low n => ?_
      have inverted : invertNumberSetArray start t.supportedPersonalities p =
          { start p with not := !(start p).not } := if_pos low
      have empty' :
          numberIsset n (invertNumberSetArray start t.supportedPersonalities p).vec = false := by
        rw [inverted]
        exact empty p low n
      rw [isNumberInSetArray_adds empty' Adds.nothing, inverted, ← parity p low,
        FilterTables.SpecDenotes, if_neg notNone, if_pos all]
      cases (start p).not <;> simp
    · next notAll =>
      have valid : t.ValidSpec (str.dropWhile (· == '!')) ↔
          FilterTables.tokens (str.dropWhile (· == '!')) ≠ [] ∧
            ∀ token ∈ FilterTables.tokens (str.dropWhile (· == '!')), t.ValidToken token := by
        simp only [FilterTables.ValidSpec, notNone, notAll, false_or]
      have rounds := tokenLoop_qualifies t (str.dropWhile (· == '!')) start
      generalize tokenLoop t (str.dropWhile (· == '!')).length
        (str.dropWhile (· == '!')) false start =
        r at rounds
      cases rounds with
      | dies stuck => exact .dies fun able => stuck (valid.mp able).2
      | @returns rc set' able result adds =>
        cases rc with
        | false => exact .dies fun able => absurd (result.mpr (valid.mp able).1) Bool.false_ne_true
        | true =>
          refine .returns (valid.mpr ⟨result.mp rfl, able⟩) fun p low n => ?_
          rw [isNumberInSetArray_adds (empty p low n) adds, parity p low, FilterTables.SpecDenotes,
            if_neg notNone, if_neg notAll]

/-- The specifications that are accepted, and what the sets hold after one. -/
theorem qualify_syscall_tokens_denotes (t : FilterTables) (str : List Char) (set : NumberSets) :
    ((∃ set', qualifySyscallTokens t str set = .ok set') ↔
      t.ValidSpec (str.dropWhile (· == '!'))) ∧
    ∀ set', qualifySyscallTokens t str set = .ok set' →
      ∀ p < t.supportedPersonalities, ∀ n, isNumberInSetArray n (some set') p = true ↔
        Xor (Odd (str.takeWhile (· == '!')).length)
          (t.SpecDenotes (str.dropWhile (· == '!')) p n) := by
  have filled := qualifySyscallTokens_filled t str set
  generalize qualifySyscallTokens t str set = r at filled
  cases filled with
  | dies invalid => exact ⟨⟨nofun, fun valid => absurd valid invalid⟩, nofun⟩
  | returns valid members =>
    refine ⟨⟨fun _ => valid, fun _ => ⟨_, rfl⟩⟩, ?_⟩
    rintro _ ⟨⟩
    exact members

end

/-- Two personalities with two syscalls each. -/
def twoPersonalities : FilterTables where
  supportedPersonalities := 2
  auditArchVec _ := ⟨0, 0⟩
  nsyscallVec _ := 2
  sysentVec _ _ := {}
  sysName
    | 0, 0 => some ['r', 'e', 'a', 'd']
    | 0, 1 => some ['w', 'r', 'i', 't', 'e']
    | 1, 0 => some ['e', 'x', 'i', 't']
    | 1, 1 => some ['r', 'e', 'a', 'd']
    | _, _ => none
  personalityDesignators := [['6', '4'], ['3', '2']]
  regcomp _ := none
  regexec pattern name := .ok (pattern == name)
  designators_length := rfl
  tables_small _ := by decide

/-- `!read@32,1@64` -/
def invertedSpec : List Char :=
  ['!', 'r', 'e', 'a', 'd', '@', '3', '2', ',', '1', '@', '6', '4']

example : (qualifySyscallTokens twoPersonalities invertedSpec fun _ => { vec := [7] }).map
    (fun set => (set 0, set 1)) = .ok (⟨[2], true⟩, ⟨[2], true⟩) := rfl

/-- Syscall 0 of the second personality is not `read`, so it is in the set. -/
theorem qualify_syscall_tokens_denotes_inverted :
    ∃ set, qualifySyscallTokens twoPersonalities invertedSpec (fun _ => { vec := [7] }) = .ok set ∧
      isNumberInSetArray 0 (some set) 1 = true ∧
      Xor (Odd 1) (twoPersonalities.SpecDenotes (invertedSpec.dropWhile (· == '!')) 1 0) :=
  ⟨_, rfl, rfl, ((qualify_syscall_tokens_denotes twoPersonalities invertedSpec fun _ =>
    { vec := [7] }).2 _ rfl 1 (by decide) 0).mp rfl⟩

end Strace
