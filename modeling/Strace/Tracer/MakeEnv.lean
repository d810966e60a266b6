import Mathlib.Algebra.Group.Nat.Defs
import Mathlib.Data.List.TakeWhile
import Mathlib.Tactic.Common

/-! `make_env` of `strace.c`: the environment of the command, from that of strace and `-E`
options. -/
namespace Strace.Env
open List Option

inductive Slot (α : Type) where
  | unset
  | null
  | ptr (p : α)

-- the strings that the pointers are to
variable {α : Type} (text : α → List Char)

def sameVar (entry var : List Char) (len : Nat) : Bool :=
  entry.take len = var.take len && entry[len]?.all (· = '=')

def entryAt (env : List (Slot α)) (r : Nat) : Option α :=
  match env[r]? with
  | some (.ptr p) => some p
  | _ => none

def store (env : List (Slot α)) (w : Nat) (p : Slot α) : Option (List (Slot α)) :=
  if w < env.length then some (env.set w p) else none

/-- `if (w < r) env[w] = env[r]`. -/
def copyEntry (env : List (Slot α)) (r w : Nat) (entry : α) : Option (List (Slot α)) :=
  if w < r then store env w (.ptr entry) else some env

def compact (var : List Char) : (left r w : Nat) → List (Slot α) → Option (List (Slot α) × Nat)
  | 0, _, w, env => some (env, w)
  | left + 1, r, w, env => do
    let entry ← entryAt env r
    if sameVar (text entry) var var.length then compact var left (r + 1) w env
    else
      let env ← copyEntry env r w entry
      compact var left (r + 1) (w + 1) env

def removeFromEnv (env : List (Slot α)) (envCount : Nat) (var : List Char) :
    Option (List (Slot α) × Nat) := do
  let (env, w) ← compact text var envCount 0 0 env
  return (env, if w < envCount then w else envCount)

/-- The loop of `add_to_env`. -/
def position (env : List (Slot α)) (var : List Char) (len : Nat) : (left r : Nat) → Option Nat
  | 0, r => some r
  | left + 1, r => do
    let entry ← entryAt env r
    if sameVar (text entry) var len then return r
    else position env var len left (r + 1)

def addToEnv (env : List (Slot α)) (envCount : Nat) (var : α) (len : Nat) :
    Option (List (Slot α) × Nat) := do
  let r ← position text env (text var) len envCount 0
  let env ← store env r (.ptr var)
  return (env, if r < envCount then envCount else envCount + 1)

def updateEnv : List (Slot α) × Nat → α → Option (List (Slot α) × Nat)
  | (env, envCount), var =>
    match (text var).findIdx? (· = '=') with
    | some len => addToEnv text env envCount var len
    | none => removeFromEnv text env envCount (text var)

inductive Outcome (α : Type) where
  | orig
  | died
  | new (env : List (Slot α))

def makeEnv (origEnv : Option (List α)) (envChanges : List α) : Option (Outcome α) :=
  if envChanges.length = 0 then some .orig
  else
    let orig := origEnv.getD []
    let size := (orig.length + envChanges.length) % 2 ^ 64
    if size < orig.length ∨ size < envChanges.length ∨ (size + 1) % 2 ^ 64 < size then some .died
    else do
      let env := orig.map .ptr ++ List.replicate (size + 1 - orig.length) .unset
      let (env, count) ← envChanges.foldlM (updateEnv text) (env, orig.length)
      return .new (← store env count .null)

/-! ## Names -/

/-- What stands before the first `=`. -/
def key (entry : List Char) : List Char := entry.takeWhile (· ≠ '=')

theorem sameVar_iff {entry var : List Char} {len : Nat} (name : var.take len = key var)
    (long : len ≤ var.length) : sameVar entry var len = true ↔ key entry = key var := by
  have size : len = (key var).length := by
    rw [← name, length_take, Nat.min_eq_left long]
  have split : key entry ++ entry.dropWhile (· ≠ '=') = entry := takeWhile_append_dropWhile
  simp only [sameVar, Bool.and_eq_true, decide_eq_true_eq, name]
  constructor
  · rintro ⟨same, ends⟩
    have others : ∀ c ∈ key var, decide (c ≠ '=') = true := by
      intro c mem
      simpa using mem_takeWhile_imp mem
    have rest : (entry.drop len).takeWhile (· ≠ '=') = [] := by
      rw [← head?_drop] at ends
      revert ends
      cases entry.drop len with
      | nil => exact fun _ => rfl
      | cons c rest => simp +contextual
    rw [← take_append_drop len entry, same, key, takeWhile_append_of_pos others, rest,
      append_nil]
  · intro same
    have size' := size.trans (congrArg _ same.symm)
    refine ⟨?_, ?_⟩
    · rw [← split, size', take_left, same]
    · have first := head?_dropWhile_not (· ≠ '=') entry
      rw [← split, size', getElem?_append_right (Nat.le_refl _), Nat.sub_self,
        ← head?_eq_getElem?]
      revert first
      cases (entry.dropWhile (· ≠ '=')).head? <;> simp

theorem sameVar_name {name : List Char} (plain : '=' ∉ name) (entry : List Char) :
    sameVar entry name name.length = true ↔ key entry = name := by
  have whole : key name = name := takeWhile_eq_self_iff.mpr fun c mem =>
    decide_eq_true fun eq => plain (eq ▸ mem)
  rw [sameVar_iff (by rw [take_length, whole]) (Nat.le_refl _), whole]

/-! ## Lists of entries -/

def put (var : α) : List α → List α
  | [] => [var]
  | entry :: env =>
    if key (text entry) = key (text var) then var :: env else entry :: put var env

/-- The effect of a change on the entries. -/
def changed (env : List α) (var : α) : List α :=
  if '=' ∈ text var then put text var env
  else env.filter fun entry => key (text entry) ≠ key (text var)

def found (name : List Char) (before : Option α) (var : α) : Option α :=
  if key (text var) = name then if '=' ∈ text var then some var else none else before

/-- The entries of a name. -/
abbrev named (name : List Char) (entry : α) : Bool := key (text entry) = name

theorem find?_put (name : List Char) (var : α) (env : List α) :
    (put text var env).find? (named text name) =
      if key (text var) = name then some var else env.find? (named text name) := by
  induction env with
  | nil => by_cases here : key (text var) = name <;> simp [put]
  | cons entry env ih =>
    rw [put]
    split
    · next same => by_cases here : key (text var) = name <;> simp [here, same]
    · grind

theorem find?_changed (name : List Char) (env : List α) (var : α) :
    (changed text env var).find? (named text name) =
      found text name (env.find? (named text name)) var := by
  by_cases value : '=' ∈ text var
  · simp only [changed, found, value, if_true, find?_put]
  · by_cases here : key (text var) = name
    · simp [changed, found, value, here]
    · simp only [changed, found, value, here, if_false, find?_filter]
      refine congrArg (env.find? ·) (funext fun entry => ?_)
      by_cases same : key (text entry) = name <;> simp [same, Ne.symm here]

theorem find?_changes (name : List Char) (changes env : List α) :
    (changes.foldl (changed text) env).find? (named text name) =
      changes.foldl (found text name) (env.find? (named text name)) := by
  induction changes generalizing env with
  | nil => rfl
  | cons var changes ih => rw [foldl_cons, ih, find?_changed, foldl_cons]

theorem filter_changed_sublist {old : α → Bool} {var : α} (new : old var = false) (env : List α) :
    ((changed text env var).filter old).Sublist (env.filter old) := by
  unfold changed
  split
  · induction env with
    | nil => simp [put, new]
    | cons entry env ih =>
      rw [put]
      split
      · grind
      · grind
  · exact filter_sublist.filter old

theorem filter_changes_sublist {old : α → Bool} {changes : List α}
    (new : ∀ var ∈ changes, old var = false) (env : List α) :
    ((changes.foldl (changed text) env).filter old).Sublist (env.filter old) := by
  induction changes generalizing env with
  | nil => exact List.Sublist.refl _
  | cons var changes ih =>
    rw [forall_mem_cons] at new
    exact (ih new.2 _).trans (filter_changed_sublist text new.1 env)

theorem put_eq (var : α) (env : List α) :
    put text var env = if env.findIdx (named text (key (text var))) < env.length then
      env.set (env.findIdx (named text (key (text var)))) var else env ++ [var] := by
  induction env with
  | nil => simp [put]
  | cons entry env ih =>
    by_cases same : key (text entry) = key (text var)
    · simp [put, findIdx_cons, named, same]
    · simp only [put, findIdx_cons, named, same, if_false, ih, decide_false, cond_false,
        length_cons, Nat.add_lt_add_iff_right]
      split <;> rfl

theorem length_changed_le (env : List α) (var : α) :
    (changed text env var).length ≤ env.length + 1 := by
  unfold changed
  split
  · rw [put_eq]
    split <;> simp
  · exact Nat.le_succ_of_le (length_filter_le _ _)

theorem length_changes_le (changes env : List α) :
    (changes.foldl (changed text) env).length ≤ env.length + changes.length := by
  induction changes generalizing env with
  | nil => exact Nat.le_refl _
  | cons var changes ih =>
    have one := length_changed_le text env var
    have later := ih (changed text env var)
    simp only [foldl_cons, length_cons]
    omega

/-! ## The array -/

/-- An array starts with the entries. -/
def Holds (env : List (Slot α)) (entries : List α) : Prop := entries.map .ptr <+: env

def Gives (env : List (Slot α)) (result : Option (List (Slot α) × Nat)) (entries : List α) : Prop :=
  ∃ env', result = some (env', entries.length) ∧ Holds env' entries ∧ env'.length = env.length

section
variable {env : List (Slot α)} {entries done todo : List α} {entry : α} {r : Nat}

theorem Holds.set (holds : Holds env entries) (inside : r < entries.length) (var : α) :
    Holds (env.set r (.ptr var)) (entries.set r var) := by
  obtain ⟨rest, rfl⟩ := holds
  refine ⟨rest, ?_⟩
  rw [set_append_left _ _ (by simpa using inside), map_set]

theorem Holds.append (holds : Holds env entries) (inside : entries.length < env.length)
    (slot : Slot α) : entries.map .ptr ++ [slot] <+: env.set entries.length slot := by
  obtain ⟨rest, rfl⟩ := holds
  cases rest with
  | nil => simp at inside
  | cons _ rest => exact ⟨rest, by simp⟩

theorem Holds.push (holds : Holds env entries) (inside : entries.length < env.length) (var : α) :
    Holds (env.set entries.length (.ptr var)) (entries ++ [var]) := by
  simpa [Holds] using holds.append inside (.ptr var)

theorem entryAt_of_drop {rest : List (Slot α)} (ahead : env.drop r = .ptr entry :: rest) :
    env[r]? = some (.ptr entry) ∧ entryAt env r = some entry := by
  have here : env[r]? = some (.ptr entry) := by
    rw [← head?_drop, ahead, head?_cons]
  simp [entryAt, here]

theorem position_spec {var : List Char} {len : Nat} (name : var.take len = key var)
    (long : len ≤ var.length) (done : List α) (holds : Holds env (done ++ todo)) :
    position text env var len todo.length done.length =
      some (done.length + todo.findIdx (named text (key var))) := by
  induction todo generalizing done with
  | nil => rfl
  | cons entry todo ih =>
    obtain ⟨rest, rfl⟩ := holds
    have ahead : ((done ++ entry :: todo).map Slot.ptr ++ rest).drop done.length =
        .ptr entry :: (todo.map .ptr ++ rest) := by
      simp
    simp only [length_cons, position, (entryAt_of_drop ahead).2, bind_eq_bind,
      sameVar_iff name long, findIdx_cons]
    by_cases same : key (text entry) = key var
    · simp [named, same]
    · have later := ih (done ++ [entry]) ⟨rest, by simp⟩
      simpa [named, same, Nat.add_assoc, Nat.add_comm 1] using later

theorem addToEnv_gives {var : α} {len : Nat} (name : (text var).take len = key (text var))
    (long : len ≤ (text var).length) (holds : Holds env entries)
    (space : entries.length < env.length) :
    Gives env (addToEnv text env entries.length var len) (put text var entries) := by
  have at_r := position_spec text name long [] holds
  have inside : entries.findIdx (named text (key (text var))) ≤ entries.length :=
    findIdx_le_length
  simp only [length_nil, Nat.zero_add] at at_r
  simp only [addToEnv, at_r, store, bind_eq_bind, bind_some,
    Nat.lt_of_le_of_lt inside space, if_true]
  rw [put_eq]
  split
  · next old => exact ⟨_, by simp, holds.set old var, length_set⟩
  · next absent =>
    have last := Nat.le_antisymm inside (Nat.not_lt.mp absent)
    rw [last]
    exact ⟨_, by simp, holds.push space var, length_set⟩

theorem compact_gives {var : List Char} {rest : List (Slot α)} (plain : '=' ∉ var)
    (holds : Holds env done) (behind : done.length ≤ r)
    (ahead : env.drop r = todo.map .ptr ++ rest) :
    Gives env (compact text var todo.length r done.length env)
      (done ++ todo.filter fun entry => key (text entry) ≠ var) := by
  induction todo generalizing done r env with
  | nil => exact ⟨env, by simp [compact], by simpa using holds, rfl⟩
  | cons entry todo ih =>
    obtain ⟨here, read⟩ := entryAt_of_drop ahead
    have inside := (List.getElem?_eq_some_iff.mp here).1
    have next : env.drop (r + 1) = todo.map .ptr ++ rest := by
      rw [← List.tail_drop, ahead, List.map_cons, List.cons_append, List.tail_cons]
    simp only [List.length_cons, compact, read, Option.bind_eq_bind,
      sameVar_name plain]
    by_cases same : key (text entry) = var
    · simpa [same] using ih holds (Nat.le_succ_of_le behind) next
    · have moved :
          copyEntry env r done.length entry = some (env.set done.length (.ptr entry)) := by
        unfold copyEntry
        split
        · rw [store, if_pos (Nat.lt_of_le_of_lt behind inside)]
        · next last =>
          obtain rfl := Nat.le_antisymm behind (Nat.not_lt.mp last)
          rw [List.getElem?_eq_getElem inside, Option.some_inj] at here
          rw [← here, List.set_getElem_self]
      have after := ih (holds.push (Nat.lt_of_le_of_lt behind inside) entry)
        (by simpa using behind) ((List.drop_set_of_lt (Nat.lt_succ_of_le behind)).trans next)
      simp only [same, moved, Option.bind_some]
      simpa [same, Gives] using after

theorem removeFromEnv_gives {var : List Char} (plain : '=' ∉ var) (holds : Holds env entries) :
    Gives env (removeFromEnv text env entries.length var)
      (entries.filter fun entry => key (text entry) ≠ var) := by
  obtain ⟨rest, shape⟩ := holds
  have start : Holds env [] := nil_prefix
  obtain ⟨env', ran, holds', size⟩ :=
    compact_gives text plain start (Nat.le_refl 0) shape.symm
  refine ⟨env', ?_, holds', size⟩
  have fewer := length_filter_le (fun entry => decide (key (text entry) ≠ var)) entries
  rw [length_nil] at ran
  simp only [removeFromEnv, ran, bind_eq_bind, bind_some]
  split
  · rfl
  · next all => rw [Nat.le_antisymm fewer (Nat.not_lt.mp all)]; rfl

theorem updateEnv_gives (holds : Holds env entries) (space : entries.length < env.length)
    (var : α) :
      Gives env (updateEnv text (env, entries.length) var) (changed text entries var) := by
  have name : key (text var) = (text var).take ((text var).findIdx (· = '=')) := by
    simp [key, takeWhile_eq_take_findIdx_not]
  cases search : (text var).findIdx? (· = '=') with
  | none =>
    have plain : '=' ∉ text var := fun mem => by
      simpa using findIdx?_eq_none_iff.mp search _ mem
    have whole : key (text var) = text var := takeWhile_eq_self_iff.mpr fun c mem => by
      simpa using findIdx?_eq_none_iff.mp search c mem
    simpa [updateEnv, search, changed, plain, whole] using removeFromEnv_gives text plain holds
  | some len =>
    obtain ⟨inside, rfl⟩ := findIdx?_eq_some_iff_findIdx_eq.mp search
    have value : '=' ∈ text var := by simpa using findIdx_lt_length.mp inside
    simp only [updateEnv, search, changed, value]
    exact addToEnv_gives text name.symm (Nat.le_of_lt inside) holds space

theorem updates_give (changes : List α) (holds : Holds env entries)
    (space : entries.length + changes.length < env.length) :
    Gives env (changes.foldlM (updateEnv text) (env, entries.length))
      (changes.foldl (changed text) entries) := by
  induction changes generalizing env entries with
  | nil => exact ⟨env, rfl, holds, rfl⟩
  | cons var changes ih =>
    rw [length_cons] at space
    obtain ⟨env', ran, holds', size⟩ := updateEnv_gives text holds (by omega) var
    have longer := length_changed_le text entries var
    obtain ⟨last, runs, holds'', size'⟩ := ih holds' (by omega)
    refine ⟨last, ?_, holds'', size'.trans size⟩
    rw [foldlM_cons, ran]
    exact runs

end

/-- The new environment has what the changes, in their order, make of the old one for every name,
with the entries that stay in their order, and ends within its allocation. -/
theorem make_env_applies (text : α → List Char) (origEnv : Option (List α)) (envChanges : List α) :
    ∃ outcome, makeEnv text origEnv envChanges = some outcome ∧
      (outcome = .orig ↔ envChanges = []) ∧
      (outcome = .died → 2 ^ 64 ≤ (origEnv.getD []).length + envChanges.length + 1) ∧
      ∀ env, outcome = .new env → ∃ entries : List α,
        env.length = (origEnv.getD []).length + envChanges.length + 1 ∧
        entries.map .ptr ++ [.null] <+: env ∧
        (∀ name, '=' ∉ name →
          entries.find? (fun entry => sameVar (text entry) name name.length) =
            envChanges.foldl (found text name)
              ((origEnv.getD []).find? fun entry => sameVar (text entry) name name.length)) ∧
        ∀ old : α → Bool, (∀ var ∈ envChanges, old var = false) →
          (entries.filter old).Sublist (origEnv.getD []) := by
  by_cases none : envChanges = []
  · exact ⟨.orig, by simp [makeEnv, none], by simp [none], nofun, nofun⟩
  have some : envChanges.length ≠ 0 := by simpa using none
  simp only [makeEnv, some, if_false, none, iff_false]
  split
  · exact ⟨.died, rfl, nofun, fun _ => by omega, nofun⟩
  next fits =>
  generalize origEnv.getD [] = orig at fits ⊢
  have size : (orig.length + envChanges.length) % 2 ^ 64 = orig.length + envChanges.length := by
    omega
  rw [size]
  have holds := List.prefix_append (orig.map Slot.ptr)
    (List.replicate (orig.length + envChanges.length + 1 - orig.length) Slot.unset)
  generalize shape : orig.map Slot.ptr ++ _ = start at holds ⊢
  have long : start.length = orig.length + envChanges.length + 1 := by
    simp [← shape]
    omega
  have short := length_changes_le text envChanges orig
  obtain ⟨env, ran, holds', same⟩ := updates_give text envChanges holds (by omega)
  have inside : (envChanges.foldl (changed text) orig).length < env.length := by omega
  refine ⟨.new (env.set (envChanges.foldl (changed text) orig).length .null), ?_, nofun, nofun, ?_⟩
  · simp [ran, store, inside]
  · rintro _ ⟨⟩
    refine ⟨envChanges.foldl (changed text) orig, ?_, holds'.append inside .null, ?_, ?_⟩
    · rw [List.length_set, same, long]
    · intro name plain
      have names : (fun entry => sameVar (text entry) name name.length) = named text name :=
        funext fun entry => Bool.eq_iff_iff.mpr (by simp [sameVar_name plain, named])
      rw [names, find?_changes]
    · exact fun old new => (filter_changes_sublist text new orig).trans List.filter_sublist

end Strace.Env
