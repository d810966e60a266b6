import Mathlib.Data.List.TakeWhile
import Strace.Pidns.StracePid

/-! PID namespaces as the kernel has them, what `/proc` shows of them, and what
`get_strace_pid` is for. -/
namespace Strace.Pidns
open List Option Runs

/-- A namespace and an id in it. -/
structure Level where
  ns : UInt32
  id : Nat
  deriving DecidableEq, Repr

abbrev Task := List Level

def Task.idIn (t : Task) (ns : UInt32) : Option Nat := (t.find? fun l => l.ns = ns).map Level.id

structure Namespaces where
  tasks : List Task
  procNs : UInt32
  ourNs : UInt32
  self : Task
  running : self ∈ tasks
  /-- the innermost namespace of strace -/
  inside : ∃ above id, self = above ++ [⟨ourNs, id⟩]
  valid : ∀ t ∈ tasks, ∀ l ∈ t, l.ns ≠ 0 ∧ l.id ≠ 0
  /-- namespaces are a tree -/
  distinct : ∀ t ∈ tasks, (t.map Level.ns).Nodup
  nested : ∀ t ∈ tasks, ∀ t' ∈ tasks, ∀ ns ∈ t.map Level.ns, ns ∈ t'.map Level.ns →
    (t.map Level.ns).takeWhile (· ≠ ns) = (t'.map Level.ns).takeWhile (· ≠ ns)
  /-- an id of a namespace belongs to one task -/
  unique : ∀ t ∈ tasks, ∀ t' ∈ tasks, ∀ l ∈ t, l ∈ t' → t = t'

namespace Namespaces

variable (k : Namespaces)

def shown (t : Task) : List Level := t.dropWhile fun l => l.ns ≠ k.procNs

def taskAt (procPid : Nat) : Option Task := k.tasks.find? fun t => t.idIn k.procNs = some procPid

end Namespaces

def nsFileOf (ourNs : UInt32) : List UInt32 → NsFile
  | [] => .top none .other
  | [ns] => .top (some ns) .eperm
  | ns :: parent :: above =>
    if ourNs ∈ parent :: above then .inner (some ns) (nsFileOf ourNs (parent :: above))
    else .top (some ns) .eperm

/-- `/proc/PID/ns/pid` of a task. -/
def Namespaces.nsFile (k : Namespaces) (t : Task) : NsFile :=
  nsFileOf k.ourNs (t.map Level.ns).reverse

structure Shows (k : Namespaces) (readable : Nat → Bool) (w : Proc) : Prop where
  ownIds : getIdList w 0 .tid = (k.shown k.self).map Level.id
  ownNs : w.nsPid 0 = if k.shown k.self = [] then none else some (k.nsFile k.self)
  ids : ∀ procPid ≠ 0, getIdList w procPid .tid =
    ((k.taskAt procPid).map fun t => (k.shown t).map Level.id).getD []
  ns : ∀ procPid ≠ 0, w.nsPid procPid =
    (k.taskAt procPid).bind fun t => if readable procPid then some (k.nsFile t) else none
  listed : ∀ procPid, k.taskAt procPid ≠ none → procPid ∈ scanned w

/-! ## Chains of namespaces -/

section
variable {ourNs : UInt32} {above : List UInt32}

theorem nsFileOf_elsewhere (outside : ourNs ∉ above) (ns : UInt32) :
    nsFileOf ourNs (ns :: above) = .top (some ns) .eperm := by
  cases above with
  | nil => rfl
  | cons parent above => rw [nsFileOf, if_neg outside]

theorem nsFileOf_below (inside : ourNs ∈ above) (ns : UInt32) :
    nsFileOf ourNs (ns :: above) = .inner (some ns) (nsFileOf ourNs above) := by
  cases above with
  | nil => cases inside
  | cons parent above => rw [nsFileOf, if_pos inside]

theorem nsHierarchyOf_below {below : List UInt32} (outside : ourNs ∉ above) {size : Nat}
    (fits : below.length < size) :
    (nsHierarchyOf false (nsFileOf ourNs (below ++ ourNs :: above)) size).1 = below ++ [ourNs] := by
  induction below generalizing size with
  | nil =>
    obtain ⟨size, rfl⟩ := Nat.exists_eq_add_of_lt fits
    rw [nil_append, nsFileOf_elsewhere outside]
    rfl
  | cons ns below ih =>
    obtain ⟨size, rfl⟩ : ∃ n, size = n + 1 := ⟨size - 1, by omega⟩
    rw [length_cons] at fits
    rw [cons_append, nsFileOf_below (by simp), nsHierarchyOf, if_neg (by simp; omega)]
    dsimp only
    rw [ih (by omega), cons_append]

theorem searchLevels_skip {q : Query} {ids : List Nat} {ourId i : Nat} {below : List UInt32}
    (outside : q.fromNs ∉ below) (rest : List UInt32) :
    searchLevels q ids ourId i (below ++ rest) =
      searchLevels q ids ourId (i + below.length) rest := by
  induction below generalizing i with
  | nil => rfl
  | cons ns below ih =>
    rw [mem_cons, not_or] at outside
    rw [cons_append, searchLevels, if_pos (Ne.symm outside.1), ih outside.2, length_cons]
    congr 1
    omega

end

theorem takeWhile_before {ns : UInt32} {above : List UInt32} (outside : ns ∉ above)
    (below : List UInt32) : (above ++ ns :: below).takeWhile (· ≠ ns) = above := by
  rw [takeWhile_append_of_pos]
  · simp
  · grind

/-! ## Tasks of strace's namespace -/

namespace Namespaces

variable {k : Namespaces} {t : Task}

variable (k) in
theorem self_eq : ∃ above id, k.self = above ++ [⟨k.ourNs, id⟩] ∧ k.ourNs ∉ above.map Level.ns := by
  obtain ⟨above, id, own⟩ := k.inside
  have nodup := k.distinct _ k.running
  rw [own, map_append] at nodup
  exact ⟨above, id, own, fun mem => (nodup_append.mp nodup).2.2 _ mem _ mem_cons_self rfl⟩

theorem split (mem : t ∈ k.tasks) {id : Nat} (has : t.idIn k.ourNs = some id) :
    ∃ above below, t = above ++ ⟨k.ourNs, id⟩ :: below ∧
      k.ourNs ∉ above.map Level.ns ∧ k.ourNs ∉ below.map Level.ns ∧
      ∃ ownAbove ownId, k.self = ownAbove ++ [⟨k.ourNs, ownId⟩] ∧
        above.map Level.ns = ownAbove.map Level.ns := by
  obtain ⟨l, found, rfl⟩ := map_eq_some_iff.mp has
  have ns : l.ns = k.ourNs := by simpa using find?_some found
  obtain ⟨above, below, rfl⟩ := append_of_mem (mem_of_find?_eq_some found)
  obtain ⟨ownAbove, ownId, own, outside'⟩ := k.self_eq
  have nodup := k.distinct _ mem
  rw [map_append, map_cons, ns] at nodup
  have apart := nodup_append.mp nodup
  have outside : k.ourNs ∉ above.map Level.ns :=
    fun mem => apart.2.2 _ mem _ mem_cons_self rfl
  have same := k.nested _ mem _ k.running k.ourNs (by simp [ns]) (by simp [own])
  refine ⟨above, below, by rw [← ns], outside, (nodup_cons.mp apart.2.1).1, ownAbove,
    ownId, own, ?_⟩
  rwa [own, map_append, map_append, map_cons, ns, takeWhile_before outside,
    map_singleton, takeWhile_before outside'] at same

theorem shown_split (l : Level) (below : List Level) {above ownAbove : List Level} {ownId : Nat}
    (own : k.self = ownAbove ++ [⟨k.ourNs, ownId⟩]) (ns : l.ns = k.ourNs)
    (same : above.map Level.ns = ownAbove.map Level.ns) (visible : k.shown k.self ≠ []) :
    ∃ top, k.shown (above ++ l :: below) = top ++ l :: below ∧
      top.length + 1 = (k.shown k.self).length := by
  have tops (levels : List Level) : (levels.dropWhile fun l => l.ns ≠ k.procNs).map Level.ns =
      (levels.map Level.ns).dropWhile fun ns => ns ≠ k.procNs := by
    rw [dropWhile_map]
    rfl
  have lengths : (above.dropWhile fun l => l.ns ≠ k.procNs).length =
      (ownAbove.dropWhile fun l => l.ns ≠ k.procNs).length := by
    rw [← length_map Level.ns, tops, same, ← tops, length_map]
  unfold shown at visible ⊢
  rw [own, dropWhile_append] at visible ⊢
  rw [dropWhile_append]
  by_cases none : (above.dropWhile fun l => l.ns ≠ k.procNs) = []
  · have none' : (ownAbove.dropWhile fun l => l.ns ≠ k.procNs) = [] := by
      rw [← length_eq_zero_iff, ← lengths, none]
      rfl
    simp only [none, none'] at visible ⊢
    have here : k.ourNs = k.procNs := by
      by_contra other
      simp [other] at visible
    refine ⟨[], ?_, ?_⟩
    · simp [ns, here]
    · simp [here]
  · have some' : (ownAbove.dropWhile fun l => l.ns ≠ k.procNs) ≠ [] := by
      intro none'
      rw [none', length_nil, length_eq_zero_iff] at lengths
      exact none lengths
    refine ⟨above.dropWhile fun l => l.ns ≠ k.procNs, ?_, ?_⟩
    · rw [if_neg (by simpa using none)]
    · rw [if_neg (by simpa using some'), length_append, lengths]
      rfl

end Namespaces

section
variable {k : Namespaces} {readable : Nat → Bool} {w : Proc} {procPid : Nat} {t : Task}

theorem Namespaces.taskAt_spec (task : k.taskAt procPid = some t) :
    t ∈ k.tasks ∧ t.idIn k.procNs = some procPid ∧ procPid ≠ 0 := by
  have mem := mem_of_find?_eq_some task
  have has : t.idIn k.procNs = some procPid := by simpa using find?_some task
  refine ⟨mem, has, ?_⟩
  obtain ⟨l, found, rfl⟩ := map_eq_some_iff.mp has
  exact (k.valid t mem l (mem_of_find?_eq_some found)).2

variable {id : Nat}

theorem Namespaces.taskAt_unique {procPid' : Nat} {t' : Task} (task : k.taskAt procPid = some t)
    (task' : k.taskAt procPid' = some t') {ns : UInt32} (has : t.idIn ns = some id)
    (has' : t'.idIn ns = some id) : procPid = procPid' := by
  obtain ⟨mem, own, -⟩ := k.taskAt_spec task
  obtain ⟨mem', own', -⟩ := k.taskAt_spec task'
  obtain ⟨l, found, id⟩ := map_eq_some_iff.mp has
  obtain ⟨l', found', id'⟩ := map_eq_some_iff.mp has'
  have level : l = l' := by
    have here : l.ns = ns := by simpa using find?_some found
    have here' : l'.ns = ns := by simpa using find?_some found'
    cases l
    cases l'
    simp_all
  subst level
  obtain rfl := k.unique t mem t' mem' l (mem_of_find?_eq_some found)
    (mem_of_find?_eq_some found')
  exact Option.some.inj (own.symm.trans own')

theorem Shows.positive (shows : Shows k readable w) : Positive w .tid := by
  intro procPid process zero
  rw [shows.ids procPid process] at zero
  cases task : k.taskAt procPid with
  | none =>
    rw [task] at zero
    cases zero
  | some t =>
    rw [task] at zero
    obtain ⟨l, mem, id⟩ := mem_map.mp zero
    exact (k.valid t (k.taskAt_spec task).1 l ((dropWhile_sublist _).mem mem)).2 id

theorem Shows.ourNsNow_eq (shows : Shows k readable w) (visible : k.shown k.self ≠ []) :
    ourNsNow w = k.ourNs := by
  obtain ⟨above, id, own, outside⟩ := k.self_eq
  unfold ourNsNow nsOf
  rw [shows.ownNs, if_neg visible, Namespaces.nsFile, own, map_append, reverse_append]
  show ((nsHierarchyOf false (nsFileOf k.ourNs (k.ourNs :: (above.map Level.ns).reverse))
    1).1).headD 0 = _
  rw [nsFileOf_elsewhere (by rwa [mem_reverse])]
  rfl

section
variable (shows : Shows k readable w) (task : k.taskAt procPid = some t)
include shows task

theorem Shows.ids_eq : getIdList w procPid .tid = (k.shown t).map Level.id := by
  simp [shows.ids procPid (k.taskAt_spec task).2.2, task]

theorem Shows.ns_eq :
    w.nsPid procPid = if readable procPid then some (k.nsFile t) else none := by
  simp [shows.ns procPid (k.taskAt_spec task).2.2, task]

theorem Shows.nsOf_eq (able : readable procPid = true) (size : Nat) :
    nsOf w procPid size = (nsHierarchyOf false (k.nsFile t) size).1 := by
  unfold nsOf
  rw [shows.ns_eq task, if_pos able]

theorem Shows.shownId_elsewhere (able : readable procPid = true) (outside : t.idIn k.ourNs = none)
    (id : Nat) :
    shownId w ⟨k.ourNs, id, .tid⟩ procPid = 0 := by
  have none : k.ourNs ∉ (t.map Level.ns).reverse := by
    rw [mem_reverse]
    intro mem
    obtain ⟨l, mem, ns⟩ := mem_map.mp mem
    rw [Task.idIn, map_eq_none_iff, find?_eq_none] at outside
    exact outside l mem (decide_eq_true ns)
  have chain : nsOf w procPid maxNsDepth = [] ∨
      ∃ ns, nsOf w procPid maxNsDepth = [ns] ∧ ns ≠ k.ourNs := by
    rw [shows.nsOf_eq task able, Namespaces.nsFile]
    cases namespaces : (t.map Level.ns).reverse with
    | nil => exact .inl rfl
    | cons ns above =>
      rw [namespaces, mem_cons, not_or] at none
      rw [nsFileOf_elsewhere none.2]
      exact .inr ⟨ns, rfl, Ne.symm none.1⟩
  unfold shownId
  rcases chain with empty | ⟨ns, single, other⟩
  · rw [if_pos (.inl empty)]
  · split
    · rfl
    · rw [translateFrom]
      split
      · rfl
      · grind [searchLevels]

theorem Shows.shownId_inside (visible : k.shown k.self ≠ []) (able : readable procPid = true)
    {own : Nat}
    (has : t.idIn k.ourNs = some own) (id : Nat) :
    shownId w ⟨k.ourNs, id, .tid⟩ procPid = if own = id then own else 0 := by
  obtain ⟨above, below, rfl, outside, outside', ownAbove, ownId, self, same⟩ :=
    k.split (k.taskAt_spec task).1 has
  obtain ⟨top, levels, -⟩ := k.shown_split ⟨k.ourNs, own⟩ below self rfl same visible
  have ids : getIdList w procPid .tid = top.map Level.id ++ own :: below.map Level.id := by
    rw [shows.ids_eq task, levels, map_append, map_cons]
  have few : top.length + (below.length + 1) ≤ maxNsDepth := by
    have := (w.status .tid procPid).depth
    rw [← getIdList, ids] at this
    simpa using this
  have namespaces : nsOf w procPid maxNsDepth = (below.map Level.ns).reverse ++ [k.ourNs] := by
    rw [shows.nsOf_eq task able, Namespaces.nsFile, map_append, map_cons,
      reverse_append, reverse_cons, append_assoc]
    refine nsHierarchyOf_below (by simpa using outside) ?_
    rw [length_reverse, length_map]
    omega
  have index (n : Nat) (last : n = top.length) :
      (top.map Level.id ++ own :: below.map Level.id).getD n 0 = own := by
    subst last
    simp
  have deep : ¬ ((below.map Level.ns).reverse ++ [k.ourNs] = [] ∨
      (top.map Level.id ++ own :: below.map Level.id).length <
        ((below.map Level.ns).reverse ++ [k.ourNs]).length) := by
    rintro (empty | short)
    · exact append_ne_nil_of_right_ne_nil _ (cons_ne_nil _ _) empty
    · simp only [length_append, length_map, length_cons, length_reverse,
        length_nil] at short
      omega
  unfold shownId
  rw [namespaces, ids, if_neg (by simp), translateFrom, if_neg deep,
    searchLevels_skip (by simpa using outside'), searchLevels, if_neg (by simp)]
  simp only [length_append, length_map, length_cons, length_reverse,
    length_nil]
  rw [index _ (by omega), index _ (by omega)]
  by_cases eq : own = id
  · rw [if_neg (not_not.mpr eq), if_pos eq]
  · rw [if_pos eq, if_neg eq]

theorem Shows.shownId_eq (visible : k.shown k.self ≠ []) {id : Nat} (valid : id ≠ 0) :
    shownId w ⟨k.ourNs, id, .tid⟩ procPid ≠ 0 ↔
      readable procPid = true ∧ t.idIn k.ourNs = some id := by
  by_cases able : readable procPid = true
  · cases has : t.idIn k.ourNs with
    | none =>
      simp [shows.shownId_elsewhere task able has]
    | some own =>
      rw [shows.shownId_inside task visible able has]
      by_cases eq : own = id
      · simp [eq, valid, able]
      · simp [eq]
  · simp [shows.ns_eq task, shownId, able, nsOf]

end

theorem Shows.shownId_none (shows : Shows k readable w) (process : procPid ≠ 0)
    (absent : k.taskAt procPid = none) (q : Query) : shownId w q procPid = 0 := by
  simp [shows.ns procPid process, absent, shownId, nsOf]

theorem Namespaces.shown_self_length (visible : k.shown k.self ≠ []) :
    (k.shown k.self).length ≤ 1 ↔ k.procNs = k.ourNs := by
  obtain ⟨above, id, own, outside⟩ := k.self_eq
  unfold Namespaces.shown at visible ⊢
  rw [own, dropWhile_append] at visible ⊢
  by_cases none : (above.dropWhile fun l => l.ns ≠ k.procNs) = []
  · simp only [none] at visible ⊢
    have here : k.ourNs = k.procNs := by
      by_contra other
      simp [other] at visible
    simp [here]
  · rw [if_neg (by simpa using none), length_append, length_singleton]
    have some := length_pos_iff.mpr none
    refine iff_of_false (by omega) fun same => none ?_
    rw [dropWhile_eq_nil_iff]
    intro l mem
    have other : l.ns ≠ k.ourNs := fun eq => outside (eq ▸ mem_map_of_mem mem)
    simpa [same] using other

theorem Shows.deep (shows : Shows k readable w) (visible : k.shown k.self ≠ [])
    (nested : k.procNs ≠ k.ourNs) : 1 < (getIdList w 0 .tid).length := by
  rw [shows.ownIds, length_map]
  exact Nat.not_le.mp ((k.shown_self_length visible).not.mpr nested)

variable {s : State}

theorem Shows.getProcPid_iff (shows : Shows k readable w) (kernel : Kernel w) (ready : Ready w s)
    (known : OursKnown w s) (visible : k.shown k.self ≠ []) (nested : k.procNs ≠ k.ourNs)
    (task : k.taskAt procPid = some t) (valid : id ≠ 0) :
    (getProcPid w id s).1 = procPid ↔ readable procPid = true ∧ t.idIn k.ourNs = some id := by
  have process := (k.taskAt_spec task).2.2
  have deep := shows.deep visible nested
  have ourNs := shows.ourNsNow_eq visible
  have inNs : ourNsNow w ≠ 0 := by
    obtain ⟨above, id, own⟩ := k.inside
    rw [ourNs]
    exact (k.valid _ k.running ⟨k.ourNs, id⟩ (by rw [own]; simp)).1
  have some := ne_nil_of_mem (shows.listed procPid (by rw [task]; simp))
  have query : ownQuery w id = ⟨k.ourNs, id, .tid⟩ := by
    rw [ownQuery, ourNs, Int.toNat_natCast]
  have found := getProcPid_shows kernel shows.positive ready known deep inNs some
    (show 0 < (id : Int) by omega)
  rw [query] at found
  constructor
  · intro result
    rcases found with ⟨zero, -⟩ | ⟨-, answers⟩
    · exact absurd (result.symm.trans zero) process
    · rw [result] at answers
      exact (shows.shownId_eq task visible valid).mp answers
  · rintro ⟨able, has⟩
    rcases found with ⟨-, silent⟩ | ⟨process', answers⟩
    · exact absurd (silent procPid process) ((shows.shownId_eq task visible valid).mpr ⟨able, has⟩)
    · cases task' : k.taskAt (getProcPid w id s).1 with
      | none => exact absurd (shows.shownId_none process' task' _) answers
      | some t' =>
        exact k.taskAt_unique task' task ((shows.shownId_eq task' visible valid).mp answers).2 has

end

structure Inverts (k : Namespaces) (w : Proc) (s : State) (procPid : Nat) (t : Task) : Prop where
  id : ∀ id ≠ 0, (getStracePid w procPid s).1 = id ↔ t.idIn k.ourNs = some id
  back : (getStracePid w procPid s).1 ≠ 0 →
    (getProcPid w (getStracePid w procPid s).1 (getStracePid w procPid s).2).1 = procPid
  elsewhere : t.idIn k.ourNs = none → (getStracePid w procPid s).1 = 0

section
variable {k : Namespaces} {readable : Nat → Bool} {w : Proc} {s : State} {procPid : Nat} {t : Task}

theorem inverts_ours (kernel : Kernel w) (ready : Ready w s) (known : OursKnown w s)
    (ours : (getIdList w 0 .tid).length ≤ 1) (process : procPid ≠ 0) :
    Inverts k w s procPid t ↔ t.idIn k.ourNs = some procPid := by
  have after := (getStracePid_keeps kernel ready known procPid).2
  have result : (getStracePid w procPid s).1 = procPid := by
    have tested := known.isProcOurs.1.trans (decide_eq_true ours)
    unfold getStracePid
    rw [if_neg (by omega)]
    simp only [tested, if_true, Int.toNat_natCast]
  constructor
  · intro inverts
    exact (inverts.id procPid process).mp result
  · intro has
    refine ⟨fun id _ => ?_, fun _ => ?_, fun none => ?_⟩
    · rw [result, has, Option.some.injEq]
    · rw [result, getProcPid_ours after ours (by omega), Int.toNat_natCast]
    · cases none.symm.trans has

theorem getStracePid_nested (known : OursKnown w s) (deep : 1 < (getIdList w 0 .tid).length)
    (process : procPid ≠ 0) :
    (getStracePid w procPid s).1 =
      if (getIdList w procPid .tid).length < (getIdList w 0 .tid).length then 0
      else
        let id := (getIdList w procPid .tid).getD ((getIdList w 0 .tid).length - 1) 0
        if (getProcPid w id (isProcOurs w s).2).1 = procPid then id else 0 := by
  have tested := known.isProcOurs.1.trans (decide_eq_false (show ¬ _ ≤ 1 by omega))
  have few := (w.status .tid 0).depth
  have few' := (w.status .tid procPid).depth
  rw [← getIdList] at few few'
  unfold getStracePid
  rw [if_neg (by omega)]
  simp only [tested, Int.toNat_natCast]
  rw [if_neg Bool.false_ne_true, if_neg (by omega)]
  by_cases shallow : (getIdList w procPid .tid).length < (getIdList w 0 .tid).length
  · rw [if_pos (.inl shallow), if_pos shallow]
  · rw [if_neg (not_or.mpr ⟨shallow, by omega⟩), if_neg shallow]

theorem inverts_nested (shows : Shows k readable w) (kernel : Kernel w) (ready : Ready w s)
    (known : OursKnown w s) (visible : k.shown k.self ≠ []) (nested : k.procNs ≠ k.ourNs)
    (task : k.taskAt procPid = some t) :
    Inverts k w s procPid t ↔ t.idIn k.ourNs = none ∨ readable procPid = true := by
  have process := (k.taskAt_spec task).2.2
  have length : (getIdList w 0 .tid).length = (k.shown k.self).length := by
    rw [shows.ownIds, length_map]
  have deep := shows.deep visible nested
  have tested : Ready w (isProcOurs w s).2 ∧ OursKnown w (isProcOurs w s).2 :=
    ⟨ready.isProcOurs, known.isProcOurs.2⟩
  have after := getStracePid_keeps kernel ready known procPid
  have found {s : State} (state : Ready w s ∧ OursKnown w s) {id : Nat} (valid : id ≠ 0) :=
    shows.getProcPid_iff kernel state.1 state.2 visible nested task valid
  have result := getStracePid_nested known deep process
  cases has : t.idIn k.ourNs with
  | none =>
    have zero : (getStracePid w procPid s).1 = 0 := by
      rw [result]
      split
      · rfl
      · rw [if_neg]
        intro back
        have valid : (getIdList w procPid .tid).getD ((getIdList w 0 .tid).length - 1) 0 ≠ 0 := by
          rw [getD_eq_getElem _ _ (by omega)]
          exact fun zero => shows.positive procPid process (zero ▸ getElem_mem _)
        have := ((found tested valid).mp back).2
        rw [has] at this
        cases this
    refine iff_of_true ⟨fun id valid => ?_, fun some => absurd zero some, fun _ => zero⟩ (.inl rfl)
    rw [zero, has]
    exact iff_of_false (Ne.symm valid) nofun
  | some own =>
    obtain ⟨above, below, rfl, -, -, ownAbove, ownId, self, same⟩ :=
      k.split (k.taskAt_spec task).1 has
    obtain ⟨top, levels, depth⟩ := k.shown_split ⟨k.ourNs, own⟩ below self rfl same visible
    have ids : getIdList w procPid .tid = top.map Level.id ++ own :: below.map Level.id := by
      rw [shows.ids_eq task, levels, map_append, map_cons]
    have valid := (k.valid _ (k.taskAt_spec task).1 ⟨k.ourNs, own⟩ (by simp)).2
    have tried : (getStracePid w procPid s).1 =
        if (getProcPid w own (isProcOurs w s).2).1 = procPid then own else 0 := by
      have index : (getIdList w procPid .tid).getD ((getIdList w 0 .tid).length - 1) 0 = own := by
        simp [ids, length, ← depth]
      rw [result, if_neg (by rw [ids, length, ← depth]; simp)]
      rw [index]
    by_cases able : readable procPid = true
    · rw [if_pos ((found tested valid).mpr ⟨able, has⟩)] at tried
      refine iff_of_true ⟨fun id _ => ?_, fun _ => ?_, fun none => ?_⟩ (.inr able)
      · rw [tried, has, Option.some.injEq]
      · grind
      · cases none.symm.trans has
    · rw [if_neg fun back => able ((found tested valid).mp back).1] at tried
      refine iff_of_false (fun inverts => ?_) (by simp [able])
      exact valid (((inverts.id own valid).mpr has).symm.trans tried)

end

/-- In every run, if `/proc` shows strace itself, this is so for every task whose
namespaces strace can read if it needs to; otherwise only for a task that happens to
have the same number in strace's namespace. -/
theorem get_strace_pid_inverts_iff {u : World}
    (run : Run Start (fun u x u' => u' = u.next x) Steady u) {k : Namespaces}
    {readable : Nat → Bool} (shows : Shows k readable u.proc) {procPid : Nat} {t : Task}
    (task : k.taskAt procPid = some t) :
    Inverts k u.proc u.state procPid t ↔
      if k.shown k.self = [] then t.idIn k.ourNs = some procPid
      else k.procNs = k.ourNs ∨ t.idIn k.ourNs = none ∨ readable procPid = true := by
  obtain ⟨kernel, ready, known⟩ := steady_run run
  obtain ⟨mem, own, process⟩ := k.taskAt_spec task
  have length : (getIdList u.proc 0 .tid).length = (k.shown k.self).length := by
    rw [shows.ownIds, List.length_map]
  split
  · next hidden =>
    exact inverts_ours kernel ready known (by rw [length, hidden]; exact Nat.zero_le _) process
  · next visible =>
    by_cases same : k.procNs = k.ourNs
    · have ours := (k.shown_self_length visible).mpr same
      rw [inverts_ours kernel ready known (length ▸ ours) process, ← same]
      simp [own]
    · rw [inverts_nested shows kernel ready known visible same task]
      simp [same]

def Namespaces.proc (k : Namespaces) (readable : Nat → Bool) : Proc where
  root := some (k.tasks.filterMap fun t => (t.idIn k.procNs).map fun (id : Nat) =>
    { number := some id })
  task _ := none
  nsPid procPid :=
    if procPid = 0 then if k.shown k.self = [] then none else some (k.nsFile k.self)
    else (k.taskAt procPid).bind fun t => if readable procPid then some (k.nsFile t) else none
  status _ procPid :=
    { ids := List.take maxNsDepth <|
        if procPid = 0 then (k.shown k.self).map Level.id
        else ((k.taskAt procPid).map fun t => (k.shown t).map Level.id).getD []
      depth := List.length_take_le _ _ }

section
variable {k : Namespaces} {readable : Nat → Bool}

theorem nsFileOf_supported (ourNs : UInt32) (chain : List UInt32) :
    (nsFileOf ourNs chain).Supported := by
  induction chain with
  | nil => exact ParentErrno.noConfusion
  | cons ns above ih =>
    by_cases inside : ourNs ∈ above
    · rw [nsFileOf_below inside]
      exact ih
    · rw [nsFileOf_elsewhere inside]
      exact ParentErrno.noConfusion

variable (small : ∀ t ∈ k.tasks, ∀ l ∈ t, l.id ≤ intMax)
include small

theorem mem_scanned_proc {procPid : Nat} (shown : k.taskAt procPid ≠ none) :
    procPid ∈ scanned (k.proc readable) := by
  obtain ⟨t, task⟩ := ne_none_iff_exists'.mp shown
  obtain ⟨mem, own, process⟩ := k.taskAt_spec task
  have limit : procPid ≤ intMax := by
    obtain ⟨l, found, rfl⟩ := map_eq_some_iff.mp own
    exact small t mem l (mem_of_find?_eq_some found)
  refine mem_flatMap.mpr ⟨procPid, mem_filterMap.mpr
    ⟨_, ?_, DirEntry.procPid_number process limit⟩, ?_⟩
  · refine mem_filterMap.mpr ⟨t, mem, ?_⟩
    rw [own]
    rfl
  · exact mem_append_right _ mem_cons_self

theorem kernel_proc
    (consistent : ∀ q procPid procPid', 0 < q.fromId → procPid ≠ 0 → procPid' ≠ 0 →
      shownId (k.proc readable) q procPid ≠ 0 → shownId (k.proc readable) q procPid' ≠ 0 →
      shownId (k.proc readable) q procPid = shownId (k.proc readable) q procPid') :
    Kernel (k.proc readable) := by
  refine ⟨fun procPid file shown => ?_, consistent, fun procPid type process read _ => ?_⟩
  · have made : ∃ t, file = k.nsFile t := by
      simp only [Namespaces.proc] at shown
      split at shown
      · grind
      · obtain ⟨t, _, file⟩ := bind_eq_some_iff.mp shown
        split at file
        · exact ⟨t, (Option.some.inj file).symm⟩
        · cases file
    obtain ⟨t, rfl⟩ := made
    exact nsFileOf_supported _ _
  · apply mem_scanned_proc small
    intro absent
    have unread : (k.proc readable).nsPid procPid = none := by
      simp only [Namespaces.proc, if_neg process, absent]
      rfl
    rw [nsOf, unread] at read
    exact read rfl

theorem shows_proc (few : ∀ t ∈ k.tasks, t.length ≤ maxNsDepth) :
    Shows k readable (k.proc readable) := by
  have fits {t : Task} (mem : t ∈ k.tasks) : ((k.shown t).map Level.id).length ≤ maxNsDepth := by
    rw [length_map]
    exact ((dropWhile_sublist _).length_le).trans (few t mem)
  constructor
  · exact take_of_length_le (fits k.running)
  · rfl
  · intro procPid process
    unfold getIdList Namespaces.proc
    simp only [if_neg process]
    apply take_of_length_le
    cases task : k.taskAt procPid with
    | none => exact Nat.zero_le _
    | some t => exact fits (k.taskAt_spec task).1
  · intro procPid process
    exact if_neg process
  · grind [mem_scanned_proc]

end

theorem shownId_single {w : Proc} {q : Query} {procPid : Nat} (ns : UInt32)
    (single : nsOf w procPid maxNsDepth = [ns]) (shown : shownId w q procPid ≠ 0) :
    shownId w q procPid = q.fromId := by
  revert shown
  rw [shownId, single, translateFrom]
  split
  · exact fun shown => absurd rfl shown
  · split
    · exact fun shown => absurd rfl shown
    · split
      · exact fun shown => absurd rfl shown
      · next found =>
        rw [searchLevels] at found
        split at found
        · cases found
        · grind

-- a quantifier over the levels can be decided, one over all words cannot
theorem nested_of_levels {tasks : List Task}
    (levels : ∀ t ∈ tasks, ∀ t' ∈ tasks, ∀ l ∈ t, l.ns ∈ t'.map Level.ns →
      (t.map Level.ns).takeWhile (· ≠ l.ns) = (t'.map Level.ns).takeWhile (· ≠ l.ns))
    (t : Task) (task : t ∈ tasks) (t' : Task) (task' : t' ∈ tasks) (ns : UInt32)
    (inside : ns ∈ t.map Level.ns) (inside' : ns ∈ t'.map Level.ns) :
    (t.map Level.ns).takeWhile (· ≠ ns) = (t'.map Level.ns).takeWhile (· ≠ ns) := by
  obtain ⟨l, mem, rfl⟩ := mem_map.mp inside
  exact levels t task t' task' l mem inside'

def besides : Namespaces where
  tasks := [[⟨2, 7⟩, ⟨3, 1⟩], [⟨2, 8⟩, ⟨3, 5⟩], [⟨2, 9⟩, ⟨4, 5⟩]]
  procNs := 2
  ourNs := 3
  self := [⟨2, 7⟩, ⟨3, 1⟩]
  running := by decide
  inside := ⟨[⟨2, 7⟩], 1, rfl⟩
  valid := by decide
  distinct := by decide
  nested := nested_of_levels (by decide)
  unique := by decide

theorem shows_besides : Shows besides (fun _ => true) (besides.proc fun _ => true) :=
  shows_proc (by decide) (by decide)

theorem kernel_besides : Kernel (besides.proc fun _ => true) := by
  apply kernel_proc (by decide)
  have own (q : Query) (procPid : Nat) (process : procPid ≠ 0)
      (shown : shownId (besides.proc fun _ => true) q procPid ≠ 0) :
      shownId (besides.proc fun _ => true) q procPid = q.fromId := by
    cases task : besides.taskAt procPid with
    | none => exact absurd (shows_besides.shownId_none process task q) shown
    | some t =>
      obtain ⟨mem, has, -⟩ := besides.taskAt_spec task
      simp only [besides, mem_cons, not_mem_nil, or_false] at mem
      rcases mem with rfl | rfl | rfl
      · obtain rfl := Option.some.inj has
        exact shownId_single 3 (by decide) shown
      · obtain rfl := Option.some.inj has
        exact shownId_single 3 (by decide) shown
      · obtain rfl := Option.some.inj has
        exact shownId_single 4 (by decide) shown
  intro q procPid procPid' _ process process' shown shown'
  rw [own q procPid process shown, own q procPid' process' shown']

/-- The process beside strace has id 5, and so would the other one by its depth. -/
theorem get_strace_pid_inverts_besides :
    (getStracePid (besides.proc fun _ => true) 8 { pidMax := 16 }).1 = 5 ∧
      (getStracePid (besides.proc fun _ => true) 9 { pidMax := 16 }).1 = 0 := by
  have start : Run Start (fun u x u' => u' = u.next x) Steady
      ⟨besides.proc fun _ => true, { pidMax := 16 }⟩ := .start ⟨kernel_besides, 16, rfl⟩
  have task : besides.taskAt 8 = some [⟨2, 8⟩, ⟨3, 5⟩] := by decide
  have task' : besides.taskAt 9 = some [⟨2, 9⟩, ⟨4, 5⟩] := by decide
  have inverts := (get_strace_pid_inverts_iff start shows_besides task).mpr (by decide)
  have inverts' := (get_strace_pid_inverts_iff start shows_besides task').mpr (by decide)
  exact ⟨(inverts.id 5 (by decide)).mpr (by decide), inverts'.elsewhere (by decide)⟩

def below : Namespaces where
  tasks := [[⟨2, 7⟩], [⟨2, 8⟩, ⟨3, 5⟩]]
  procNs := 3
  ourNs := 2
  self := [⟨2, 7⟩]
  running := by decide
  inside := ⟨[], 7, rfl⟩
  valid := by decide
  distinct := by decide
  nested := nested_of_levels (by decide)
  unique := by decide

theorem shows_below : Shows below (fun _ => true) (below.proc fun _ => true) :=
  shows_proc (by decide) (by decide)

theorem kernel_below : Kernel (below.proc fun _ => true) := by
  apply kernel_proc (by decide)
  intro q procPid procPid' _ process process' shown shown'
  have only (procPid : Nat) (process : procPid ≠ 0)
      (shown : shownId (below.proc fun _ => true) q procPid ≠ 0) : procPid = 5 := by
    cases task : below.taskAt procPid with
    | none => exact absurd (shows_below.shownId_none process task q) shown
    | some t =>
      obtain ⟨mem, has, -⟩ := below.taskAt_spec task
      simp only [below, mem_cons, not_mem_nil, or_false] at mem
      rcases mem with rfl | rfl
      · cases has
      · exact (Option.some.inj has).symm
  rw [only procPid process shown, only procPid' process' shown']

/-- The process has id 8 in strace's namespace, and is given its number in `/proc`. -/
theorem get_strace_pid_keeps_foreign_number :
    Kernel (below.proc fun _ => true) ∧ Shows below (fun _ => true) (below.proc fun _ => true) ∧
      below.taskAt 5 = some [⟨2, 8⟩, ⟨3, 5⟩] ∧
      ¬ Inverts below (below.proc fun _ => true) { pidMax := 16 } 5 [⟨2, 8⟩, ⟨3, 5⟩] := by
  refine ⟨kernel_below, shows_below, by decide, fun inverts => ?_⟩
  have number : (getStracePid (below.proc fun _ => true) 5 { pidMax := 16 }).1 = 5 := by decide
  have id := (inverts.id 5 (by decide)).mp number
  revert id
  decide

end Strace.Pidns
