import Mathlib.Data.List.Perm.Subperm
import Strace.Decode.Records

/-! Whatever the records hold, the decoders fetch headers further and further into the
buffer, hand on parts of it only, and end what they begin. -/
namespace Strace.Records
open List UInt32 UInt64

namespace Event

/-- Neither begins nor ends anything. -/
def isPlain : Event → Bool
  | arrayBegin | arrayEnd | structBegin | structEnd => false
  | _ => true

def isHeader : Event → Bool
  | header _ => true
  | _ => false

def offset (base addr : UInt64) : Nat := (addr - base).toNat

/-- The offset of a header that is fetched. -/
def headerOffset (base : UInt64) : Event → Option Nat
  | header addr => some (offset base addr)
  | _ => none

/-- What is handed on is part of the buffer. -/
def Inside (base : UInt64) (size : Nat) : Event → Prop
  | tail addr len => offset base addr + len.toNat ≤ size
  | _ => True

end Event

open Event

inductive Nested : List Event → Prop
  | nil : Nested []
  | plain {e : Event} (plain : e.isPlain = true) : Nested [e]
  | append {es es' : List Event} (first : Nested es) (second : Nested es') : Nested (es ++ es')
  | array {es : List Event} (inner : Nested es) : Nested ([arrayBegin] ++ es ++ [arrayEnd])
  | struct {es : List Event} (inner : Nested es) : Nested ([structBegin] ++ es ++ [structEnd])

structure Walks (base : UInt64) (size headerSize low : Nat) (events : List Event) : Prop where
  sorted : (events.filterMap (headerOffset base)).Pairwise (· < ·)
  headers : ∀ o ∈ events.filterMap (headerOffset base), low ≤ o ∧ o + headerSize ≤ size
  tails : ∀ e ∈ events, e.Inside base size

/-- A decoder is safe on a buffer. -/
structure Safe (base : UInt64) (size headerSize : Nat) (events : List Event) : Prop extends
    Walks base size headerSize 0 events where
  /-- no counter of the records wraps around -/
  counted : (events.filterMap (headerOffset base)).length ≤ size
  nested : Nested events

theorem Nested.plains {es : List Event} (plain : ∀ e ∈ es, e.isPlain = true) : Nested es := by
  induction es with
  | nil => exact .nil
  | cons e es ih =>
    rw [forall_mem_cons] at plain
    exact (Nested.plain plain.1).append (ih plain.2)

section
variable {base addr : UInt64} {size headerSize low low' : Nat} {es later : List Event}

theorem offset_self : offset base base = 0 := by
  rw [offset, UInt64.sub_self]
  rfl

theorem offset_add {n : UInt64} (small : offset base addr + n.toNat < 2 ^ 64) :
    offset base (addr + n) = offset base addr + n.toNat := by
  rw [offset, UInt64.toNat_sub] at small
  rw [offset, offset, UInt64.toNat_sub, UInt64.toNat_sub, UInt64.toNat_add]
  omega

theorem Walks.length_le (walks : Walks base size headerSize low es) (positive : 0 < headerSize) :
    (es.filterMap (headerOffset base)).length ≤ size := by
  have distinct := walks.sorted.imp fun lt => Nat.ne_of_lt lt
  have below : es.filterMap (headerOffset base) ⊆ List.range size := fun o mem =>
    mem_range.mpr (by have := walks.headers o mem; omega)
  have few := (List.Nodup.subperm distinct below).length_le
  rwa [length_range] at few

theorem Walks.safe (walks : Walks base size headerSize 0 es) (positive : 0 < headerSize)
    (nested : Nested es) : Safe base size headerSize es :=
  ⟨walks, walks.length_le positive, nested⟩

def Quiet (base : UInt64) (size : Nat) (es : List Event) : Prop :=
  ∀ e ∈ es, e.isHeader = false ∧ e.Inside base size

variable {e : Event} {es' : List Event} {len headerLen : UInt32}

theorem Quiet.one (fetches : e.isHeader = false) (inside : e.Inside base size) :
    Quiet base size [e] := forall_mem_singleton.mpr ⟨fetches, inside⟩

theorem Quiet.append (first : Quiet base size es) (second : Quiet base size es') :
    Quiet base size (es ++ es') :=
  forall_mem_append.mpr ⟨first, second⟩

theorem Quiet.filterMap (quiet : Quiet base size es) : es.filterMap (headerOffset base) = [] := by
  rw [filterMap_eq_nil_iff]
  intro e mem
  have none := (quiet e mem).1
  cases e with
  | header addr => cases none
  | _ => rfl

theorem Walks.quiet (quiet : Quiet base size es) (walks : Walks base size headerSize low later) :
    Walks base size headerSize low (es ++ later) := by
  have none := quiet.filterMap
  refine ⟨?_, ?_, forall_mem_append.mpr ⟨fun e mem => (quiet e mem).2, walks.tails⟩⟩
  · simp [none, walks.sorted]
  · rw [filterMap_append, none]
    exact walks.headers

theorem Walks.nil : Walks base size headerSize low [] :=
  ⟨List.Pairwise.nil, nofun, nofun⟩

theorem Walks.of_quiet (quiet : Quiet base size es) : Walks base size headerSize low es := by
  have walks : Walks base size headerSize low (es ++ []) := .quiet quiet .nil
  rw [append_nil] at walks
  exact walks

theorem Walks.visit (here : offset base addr = low) (fits : low + headerSize ≤ size)
    (further : low < low') (walks : Walks base size headerSize low' later) :
    Walks base size headerSize low ([header addr] ++ later) := by
  have cons : ([header addr] ++ later).filterMap (headerOffset base) =
      low :: later.filterMap (headerOffset base) := by
    rw [← here]
    rfl
  refine ⟨?_, ?_, forall_mem_append.mpr ⟨?_, walks.tails⟩⟩
  · rw [cons, pairwise_cons]
    refine ⟨fun o mem => ?_, walks.sorted⟩
    exact Nat.lt_of_lt_of_le further (walks.headers o mem).1
  · rw [cons, forall_mem_cons]
    refine ⟨⟨Nat.le_refl low, fits⟩, fun o mem => ?_⟩
    have := walks.headers o mem
    omega
  · exact forall_mem_singleton.mpr trivial

theorem Walks.last (rest : offset base addr + len.toNat ≤ size) (long : ¬ len < headerLen)
    (quiet : Quiet base size es) :
    Walks base size headerLen.toNat (offset base addr) ([header addr] ++ es) := by
  have enough := UInt32.le_iff_toNat_le.mp (UInt32.not_lt.mp long)
  exact .visit rfl (by omega) (Nat.lt_succ_self _) (.of_quiet quiet)

theorem Walks.next (rest : offset base addr + len.toNat ≤ size) (long : ¬ len < headerLen)
    (further : offset base addr < low') (walks : Walks base size headerLen.toNat low' later) :
    Walks base size headerLen.toNat (offset base addr) ([header addr] ++ later) := by
  have enough := UInt32.le_iff_toNat_le.mp (UInt32.not_lt.mp long)
  exact .visit rfl (by omega) further walks

theorem Walks.append (walks : Walks base size headerSize low es) (quiet : Quiet base size later) :
    Walks base size headerSize low (es ++ later) := by
  have same : (es ++ later).filterMap (headerOffset base) = es.filterMap (headerOffset base) := by
    rw [filterMap_append, quiet.filterMap, append_nil]
  refine ⟨?_, ?_, forall_mem_append.mpr ⟨walks.tails, fun e mem => (quiet e mem).2⟩⟩
  · simp [same, walks.sorted]
  · rw [same]
    exact walks.headers

theorem Walks.mono (walks : Walks base size headerSize low' es) (le : low ≤ low') :
    Walks base size headerSize low es :=
  ⟨walks.sorted, fun o mem => ⟨Nat.le_trans le (walks.headers o mem).1, (walks.headers o mem).2⟩,
    walks.tails⟩

/-- Nothing begins or ends either. -/
def Fields (base : UInt64) (size : Nat) (es : List Event) : Prop :=
  ∀ e ∈ es, e.isPlain = true ∧ e.isHeader = false ∧ e.Inside base size

theorem Fields.nil : Fields base size [] := nofun

theorem Fields.one (plain : e.isPlain = true) (fetches : e.isHeader = false)
    (inside : e.Inside base size) : Fields base size [e] :=
  forall_mem_singleton.mpr ⟨plain, fetches, inside⟩

theorem Fields.append (first : Fields base size es) (second : Fields base size es') :
    Fields base size (es ++ es') :=
  forall_mem_append.mpr ⟨first, second⟩

theorem Fields.quiet (fields : Fields base size es) : Quiet base size es :=
  fun e mem => (fields e mem).2

theorem Fields.nested (fields : Fields base size es) : Nested es :=
  .plains fun e mem => (fields e mem).1

/-- Nothing is fetched, and what begins ends. -/
structure Prints (base : UInt64) (size : Nat) (es : List Event) : Prop where
  quiet : Quiet base size es
  nested : Nested es

theorem Fields.prints (fields : Fields base size es) : Prints base size es :=
  ⟨fields.quiet, fields.nested⟩

theorem Fields.struct (fields : Fields base size es) :
    Prints base size ([structBegin] ++ es ++ [structEnd]) :=
  ⟨.append (.append (.one rfl trivial) fields.quiet) (.one rfl trivial), fields.nested.struct⟩

end

def Opens (events : List Event) (begun : Prop) : Prop :=
  (¬ begun ∧ Nested events) ∨
    (begun ∧ ∃ before inside, events = before ++ ([arrayBegin] ++ inside) ∧ Nested before ∧
      Nested inside)

theorem Opens.close {events : List Event} {begun : Prop} [Decidable begun]
    (opens : Opens events begun) : Nested (events ++ if begun then [arrayEnd] else []) := by
  rcases opens with ⟨none, nested⟩ | ⟨some, before, inside, rfl, first, second⟩
  · grind
  · rw [if_pos some, append_assoc]
    exact first.append second.array

/-! ## Directory entries -/

section
variable {c : Tracee} {format : DirentFormat} {base addr : UInt64} {size : Nat} {len : UInt32}

theorem comment_fields (text : String) : Fields base size [comment text] := .one rfl rfl trivial

theorem dentStep_spec (c : Tracee) (base addr : UInt64) (size : Nat) {headerSize : UInt32}
    (dReclen : UInt32) (enough : headerSize ≤ len) :
    let step := dentStep c headerSize addr len dReclen
    headerSize ≤ step.dReclen ∧ step.dReclen ≤ len ∧
      Fields base size step.comments ∧
      (step.nextAddr ≠ 0 → step.nextAddr = addr + step.dReclen.toUInt64 ∧ step.nextLen ≠ 0 ∧
        step.dReclen.toNat + step.nextLen.toNat = len.toNat) := by
  unfold dentStep
  dsimp only
  split
  · exact ⟨enough, UInt32.le_refl _, comment_fields _, fun on => absurd rfl on⟩
  · next inside =>
    rw [UInt32.not_lt] at inside
    split
    · exact ⟨UInt32.le_refl _, enough, comment_fields _, fun on => absurd rfl on⟩
    · next long =>
      rw [UInt32.not_lt] at long
      split
      · next more =>
        split
        · refine ⟨long, inside, nofun, fun _ => ⟨rfl, more, ?_⟩⟩
          rw [UInt32.toNat_sub_of_le _ _ inside]
          exact Nat.add_sub_cancel' (UInt32.le_iff_toNat_le.mp inside)
        · exact ⟨long, inside, comment_fields _, fun on => absurd rfl on⟩
      · exact ⟨long, inside, nofun, fun on => absurd rfl on⟩

theorem printDName_fields (inside : offset base addr + len.toNat ≤ size) :
    Fields base size (printDName c addr len).1 := by
  have shorter : (if len > dNameLenMax then dNameLenMax else len).toNat ≤ len.toNat := by
    split
    · next long => exact Nat.le_of_lt (lt_iff_toNat_lt.mp long)
    · exact Nat.le_refl _
  intro e mem
  simp only [printDName, mem_cons, not_mem_nil, or_false] at mem
  rcases mem with rfl | rfl | rfl
  · exact ⟨rfl, rfl, trivial⟩
  · exact ⟨rfl, rfl, trivial⟩
  · exact ⟨rfl, rfl, Nat.le_trans (Nat.add_le_add_left shorter _) inside⟩

theorem dName_fields {p : Prop} [Decidable p] (inside : offset base addr + len.toNat ≤ size) :
    Fields base size (if p then printDName c addr len else ([], 0)).1 := by
  split
  · exact printDName_fields inside
  · exact .nil

theorem dirent64Tail_fields (inside : offset base addr + len.toNat ≤ size) :
    ∃ inner, (dirent64Tail c addr len).1 = inner ++ [structEnd] ∧ Fields base size inner := by
  refine ⟨_, rfl, Fields.append ?_ (dName_fields inside)⟩
  simp [Fields, isPlain, isHeader, Inside]

theorem direntTail_fields (inside : offset base addr + len.toNat ≤ size) :
    ∃ inner, (direntTail c addr len).1 = inner ++ [structEnd] ∧ Fields base size inner := by
  unfold direntTail
  split
  · next some =>
    have shorter : offset base addr + (len - 1).toNat ≤ size := by
      have : len.toNat ≠ 0 := fun zero => some (UInt32.toNat_inj.mp zero)
      have one : (1 : UInt32) ≤ len := UInt32.le_iff_toNat_le.mpr (Nat.one_le_iff_ne_zero.mpr this)
      rw [UInt32.toNat_sub_of_le _ _ one]
      omega
    dsimp only
    split
    · refine ⟨_, rfl, (dName_fields shorter).append ?_⟩
      simp [Fields, isPlain, isHeader, Inside]
    · refine ⟨_, rfl, (dName_fields shorter).append ?_⟩
      simp [Fields, isPlain, isHeader, Inside]
  · exact ⟨[], rfl, .nil⟩

theorem decodeDentryTail_fields (c : Tracee) (format : DirentFormat)
    (inside : offset base addr + len.toNat ≤ size) :
    ∃ inner, (decodeDentryTail c format addr len).1 = inner ++ [structEnd] ∧
      Fields base size inner := by
  cases format with
  | dirent => exact direntTail_fields inside
  | compatDirent => exact direntTail_fields inside
  | dirent64 => exact dirent64Tail_fields inside

theorem decodeDent_prints {step : DentStep} (comments : Fields base size step.comments)
    (enough : format.headerSize ≤ step.dReclen)
    (inside : offset base addr + step.dReclen.toNat ≤ size) (small : size < 2 ^ 64) :
    Prints base size (decodeDent c format addr step).1 := by
  unfold decodeDent decodeDentryHead
  cases c.abbreviated with
  | true => exact comments.prints
  | false =>
    have long := UInt32.le_iff_toNat_le.mp enough
    have place : offset base (addr + format.headerSize.toUInt64) =
        offset base addr + format.headerSize.toNat := by
      rw [offset_add, UInt32.toNat_toUInt64]
      rw [UInt32.toNat_toUInt64]
      omega
    have rest : offset base (addr + format.headerSize.toUInt64) +
        (step.dReclen - format.headerSize).toNat ≤ size := by
      rw [UInt32.toNat_sub_of_le _ _ enough]
      omega
    obtain ⟨inner, eq, fields⟩ := decodeDentryTail_fields c format rest
    have handed : Fields base size [tail (addr + format.headerSize.toUInt64)
        (step.dReclen - format.headerSize)] := .one rfl rfl rest
    have head : Fields base size [field "d_ino", structNext, field "d_off", structNext,
        field "d_reclen"] := by
      simp [Fields, isPlain, isHeader, Inside]
    have struct := (((head.append comments).append handed).append fields).struct
    simp only [eq]
    simp only [List.append_assoc] at struct ⊢
    exact struct

theorem dentsBegin_quiet (count : Nat) : Quiet base size (dentsBegin c count) := by
  unfold dentsBegin
  split
  · exact nofun
  · split
    · exact .one rfl trivial
    · exact nofun

theorem dentsNext_fields (base : UInt64) (size : Nat) : Fields base size (dentsNext c) := by
  unfold dentsNext
  split
  · exact .nil
  · exact .one rfl rfl trivial

theorem decodeDentsUnread_fields (base : UInt64) (size count : Nat) :
    Fields base size (decodeDentsUnread c count addr) := by
  unfold decodeDentsUnread
  split
  · exact .nil
  · split <;> simp [Fields, isPlain, isHeader, Inside]

theorem decodeDentsRest_quiet (count : Nat) (inside : offset base addr + len.toNat ≤ size) :
    Quiet base size (decodeDentsRest c count addr len).1 := by
  unfold decodeDentsRest
  split
  · exact nofun
  · split
    · exact .one rfl trivial
    · exact .one rfl inside

variable {count : Nat}

theorem dentsBegin_nil (begun : c.abbreviated = true ∨ count ≠ 0) : dentsBegin c count = [] := by
  unfold dentsBegin
  split
  · rfl
  · next full => exact if_neg (begun.resolve_left full)

theorem decodeDentsRest_nested (begun : c.abbreviated = true ∨ count ≠ 0)
    (some : count ≠ 0 → len ≠ 0) :
    Nested (decodeDentsRest c count addr len).1 ∧ count ≤ (decodeDentsRest c count addr len).2 := by
  unfold decodeDentsRest
  split
  · exact ⟨.nil, Nat.le_refl _⟩
  · next full =>
    rw [if_neg (some (begun.resolve_left full))]
    exact ⟨.plain rfl, Nat.le_refl _⟩

section
variable (rest : offset base addr + len.toNat ≤ size) (small : size < 2 ^ 64)
include rest small

theorem dent_spec (c : Tracee) (dReclen : UInt32) (long : ¬ len < format.headerSize) :
    let step := dentStep c format.headerSize addr len dReclen
    Prints base size (decodeDent c format addr step).1 ∧
      (step.nextAddr ≠ 0 → offset base addr < offset base step.nextAddr ∧ step.nextLen ≠ 0 ∧
        offset base step.nextAddr + step.nextLen.toNat ≤ size) := by
  obtain ⟨long, inside, comments, on⟩ := dentStep_spec c base addr size dReclen
    (UInt32.not_lt.mp long)
  have inside := UInt32.le_iff_toNat_le.mp inside
  refine ⟨decodeDent_prints comments long (by omega) small, fun more => ?_⟩
  obtain ⟨next, some, left⟩ := on more
  have long := UInt32.le_iff_toNat_le.mp long
  have positive := UInt32.lt_iff_toNat_lt.mp format.headerSize_pos
  rw [next, offset_add (by rw [UInt32.toNat_toUInt64]; omega), UInt32.toNat_toUInt64]
  exact ⟨by omega, some, by omega⟩

variable (dent : UInt64 → Option UInt16)
include dent

theorem decodeDentsLoop_walks (count : Nat) :
    Walks base size format.headerSize.toNat (offset base addr)
      (decodeDentsLoop c format dent count addr len).1 := by
  fun_induction decodeDentsLoop c format dent count addr len with
  | case1 count addr len short => exact .of_quiet (decodeDentsRest_quiet count rest)
  | case2 count addr len long unread =>
    exact .last rest long (decodeDentsUnread_fields base size count).quiet
  | case3 count addr len long dReclen read step entry here last =>
    obtain ⟨prints, -⟩ := dent_spec rest small c dReclen.toUInt32 long
    exact .last rest long ((dentsBegin_quiet count).append prints.quiet)
  | case4 count addr len long dReclen read step entry here more failed =>
    obtain ⟨prints, -⟩ := dent_spec rest small c dReclen.toUInt32 long
    rw [append_assoc]
    refine .last rest long ((dentsBegin_quiet count).append (prints.quiet.append ?_))
    simp [Quiet, isHeader, Inside]
  | case5 count addr len long dReclen read step entry here more done later ih =>
    obtain ⟨prints, on⟩ := dent_spec rest small c dReclen.toUInt32 long
    obtain ⟨further, -, left⟩ := on more
    rw [append_assoc, append_assoc]
    refine .next rest long further (.quiet (dentsBegin_quiet count)
      (.quiet prints.quiet (.quiet (dentsNext_fields base size).quiet (ih left))))

theorem decodeDentsLoop_nested {count : Nat}
    (begun : c.abbreviated = true ∨ count ≠ 0) (some : count ≠ 0 → len ≠ 0) :
    Nested (decodeDentsLoop c format dent count addr len).1 ∧
      count ≤ (decodeDentsLoop c format dent count addr len).2.1 := by
  fun_induction decodeDentsLoop c format dent count addr len with
  | case1 count addr len short => exact decodeDentsRest_nested begun some
  | case2 count addr len long unread =>
    refine ⟨(Nested.plain rfl).append ?_, Nat.le_refl _⟩
    exact (decodeDentsUnread_fields base size count).nested
  | case3 count addr len long dReclen read step entry here last =>
    obtain ⟨prints, -⟩ := dent_spec rest small c dReclen.toUInt32 long
    dsimp only [here]
    rw [dentsBegin_nil begun]
    exact ⟨(Nested.plain rfl).append prints.nested, Nat.le_succ _⟩
  | case4 count addr len long dReclen read step entry here more failed =>
    obtain ⟨prints, -⟩ := dent_spec rest small c dReclen.toUInt32 long
    dsimp only [here]
    rw [dentsBegin_nil begun]
    refine ⟨((Nested.plain rfl).append prints.nested).append ?_, Nat.le_succ _⟩
    exact (Nested.plain rfl).append (.plain rfl)
  | case5 count addr len long dReclen read step entry here more done later ih =>
    obtain ⟨prints, on⟩ := dent_spec rest small c dReclen.toUInt32 long
    obtain ⟨-, some', left⟩ := on more
    obtain ⟨nested, counted⟩ := ih left (.inr (Nat.succ_ne_zero count)) fun _ => some'
    dsimp only [here]
    rw [dentsBegin_nil begun]
    refine ⟨(((Nested.plain rfl).append prints.nested).append ?_).append nested,
      Nat.le_of_succ_le counted⟩
    exact (dentsNext_fields base size).nested

theorem decodeDentsLoop_opens (full : ¬ c.abbreviated = true) :
    Opens (decodeDentsLoop c format dent 0 addr len).1
      ((decodeDentsLoop c format dent 0 addr len).2.1 ≠ 0) := by
  have opening : dentsBegin c 0 = [arrayBegin] := (if_neg full).trans (if_pos rfl)
  rw [decodeDentsLoop]
  split
  · rw [decodeDentsRest, if_neg full]
    split
    · exact .inr ⟨Nat.one_ne_zero, [], [], rfl, .nil, .nil⟩
    · exact .inl ⟨not_not.mpr rfl, .plain rfl⟩
  · next long =>
    split
    · refine .inl ⟨not_not.mpr rfl, (Nested.plain rfl).append ?_⟩
      exact (decodeDentsUnread_fields base size 0).nested
    · next dReclen read =>
      obtain ⟨prints, on⟩ := dent_spec rest small c dReclen.toUInt32 long
      dsimp only
      rw [opening]
      split
      · refine .inr ⟨Nat.one_ne_zero, [header addr], _, ?_, .plain rfl, prints.nested⟩
        rw [append_assoc]
      · next more =>
        split
        · have stop : Nested [arrayNext, moreDataFollows] := (Nested.plain rfl).append (.plain rfl)
          refine .inr ⟨Nat.one_ne_zero, [header addr], _, ?_, .plain rfl, prints.nested.append stop⟩
          simp only [append_assoc]
        · obtain ⟨-, some, left⟩ := on more
          obtain ⟨nested, counted⟩ :=
            decodeDentsLoop_nested left small dent (.inr (Nat.succ_ne_zero 0)) fun _ => some
          have next : Nested (dentsNext c) := (dentsNext_fields base size).nested
          refine .inr ⟨Nat.ne_of_gt counted, [header addr], _, ?_, .plain rfl,
            (prints.nested.append next).append nested⟩
          simp only [append_assoc]

end

theorem rest_self (addr : UInt64) (len : UInt32) :
    offset addr addr + len.toNat ≤ len.toNat ∧ len.toNat < 2 ^ 64 := by
  rw [offset_self, Nat.zero_add]
  exact ⟨Nat.le_refl _, Nat.lt_trans len.toNat_lt (by decide)⟩

theorem decodeDents_safe (dent : UInt64 → Option UInt16) :
    Safe addr len.toNat format.headerSize.toNat (decodeDents c format dent addr len) := by
  obtain ⟨rest, small⟩ := rest_self addr len
  have walks : Walks addr len.toNat _ _ (decodeDentsLoop c format dent 0 addr len).1 :=
    decodeDentsLoop_walks rest small dent 0
  rw [offset_self] at walks
  have positive : 0 < format.headerSize.toNat := by cases format <;> decide
  unfold decodeDents
  dsimp only
  by_cases short : c.abbreviated = true
  · have nested : Nested (decodeDentsLoop c format dent 0 addr len).1 :=
      (decodeDentsLoop_nested rest small dent (.inl short) fun some => absurd rfl some).1
    rw [if_pos short, if_pos short]
    have start : Fields addr len.toNat [printaddr addr] := .one rfl rfl trivial
    exact ((walks.quiet start.quiet).append (comment_fields _).quiet).safe positive
      ((start.nested.append nested).append (.plain rfl))
  · rw [if_neg short, if_neg short]
    refine (walks.append ?_).safe positive (decodeDentsLoop_opens rest small dent short).close
    split
    · exact .one rfl trivial
    · exact nofun

end

/-! ## Security contexts -/

section
variable {c : Tracee} {base addr : UInt64} {size : Nat} {len : UInt32} {ctx : LsmCtx}

theorem minLen_le (a : UInt64) (b : UInt32) : (minLen a b).toNat ≤ b.toNat := by
  unfold minLen
  split
  · next less =>
    rw [UInt64.lt_iff_toNat_lt, UInt32.toNat_toUInt64] at less
    rw [UInt64.toNat_toUInt32]
    omega
  · exact Nat.le_refl _

theorem msgCtxLen_le (msgLen : UInt32) (some : (msgCtxLen msgLen).toNat ≠ 0) :
    32 + (msgCtxLen msgLen).toNat ≤ msgLen.toNat := by
  revert some
  unfold msgCtxLen
  split
  · next long =>
    have size_eq : lsmCtxSize.toNat = 32 := rfl
    have longer := UInt32.lt_iff_toNat_lt.mp long
    rw [UInt32.toNat_sub_of_le _ _ (UInt32.le_of_lt long)]
    omega
  · exact fun some => absurd rfl some

theorem lsmCtxLen_le (some : lsmCtxLen ctx len > 0) :
    32 + (lsmCtxLen ctx len).toNat ≤ len.toNat := by
  have positive := lt_iff_toNat_lt.mp some
  have context := minLen_le ctx.ctxLen (msgCtxLen (minLen ctx.len len))
  have message := minLen_le ctx.len len
  rw [lsmCtxLen] at positive ⊢
  have rest := msgCtxLen_le (minLen ctx.len len) (by omega)
  omega

theorem lsmUnfetched_fields (base : UInt64) (size : Nat) (isSequence : Bool) :
    Fields base size (lsmUnfetched isSequence addr) := by
  unfold lsmUnfetched
  split <;> simp [Fields, isPlain, isHeader, Inside]

theorem lsmBegin_quiet (isSequence : Bool) : Quiet base size (lsmBegin isSequence) := by
  cases isSequence with
  | true => exact nofun
  | false => exact .one rfl trivial

section
variable (rest : offset base addr + len.toNat ≤ size) (small : size < 2 ^ 64)
include rest small

theorem decodeLsmCtx_prints (ctx : LsmCtx) :
    Prints base size (decodeLsmCtx ctx addr len) := by
  apply Fields.struct
  apply Fields.append
  · simp [Fields, isPlain, isHeader, Inside]
  · split
    · next some =>
      have inside := lsmCtxLen_le some
      have size_eq : lsmCtxSize.toNat = 32 := rfl
      have place : offset base (addr + lsmCtxSize.toUInt64) = offset base addr + 32 := by
        grind [offset_add, toNat_toUInt64]
      have handed : Inside base size (tail (addr + lsmCtxSize.toUInt64) (lsmCtxLen ctx len)) := by
        rw [Inside]
        omega
      simp [Fields, isPlain, isHeader, handed]
      simp [Inside]
    · exact .nil

theorem lsmNext_further {next : UInt64} {left : UInt32}
    (on : lsmNext ctx addr len = some (next, left)) :
    offset base addr < offset base next ∧ offset base next + left.toNat ≤ size := by
  obtain ⟨rfl, long, parts⟩ := lsmNext_some on
  rw [offset_add (by omega)]
  omega

variable (lsmCtx : UInt64 → Option LsmCtx)
include lsmCtx

theorem decodeLsmCtxLoop_walks (elt : UInt32) (isSequence : Bool) :
    Walks base size lsmCtxSize.toNat (offset base addr)
      (decodeLsmCtxLoop c lsmCtx elt isSequence addr len).1 := by
  fun_induction decodeLsmCtxLoop c lsmCtx elt isSequence addr len with
  | case1 elt isSequence addr len short =>
    exact .of_quiet (lsmUnfetched_fields base size isSequence).quiet
  | case2 elt isSequence addr len long unread =>
    exact .last rest long (lsmUnfetched_fields base size isSequence).quiet
  | case3 elt isSequence addr len long ctx read truncated =>
    exact .last rest long (.one rfl trivial)
  | case4 elt isSequence addr len long ctx read whole element last =>
    have prints := decodeLsmCtx_prints rest small ctx
    exact .last rest long ((lsmBegin_quiet isSequence).append prints.quiet)
  | case5 elt isSequence addr len long ctx read whole element next left on later ih =>
    have prints := decodeLsmCtx_prints rest small ctx
    obtain ⟨further, fits⟩ := lsmNext_further rest small on
    rw [append_assoc, append_assoc]
    exact .next rest long further (.quiet (lsmBegin_quiet isSequence)
      (.quiet prints.quiet (.quiet (.one rfl trivial) (ih fits))))

theorem decodeLsmCtxLoop_nested (elt : UInt32) :
    Nested (decodeLsmCtxLoop c lsmCtx elt true addr len).1 ∧
      (decodeLsmCtxLoop c lsmCtx elt true addr len).2 = true := by
  generalize begun : true = isSequence
  fun_induction decodeLsmCtxLoop c lsmCtx elt isSequence addr len with
  | case1 elt isSequence addr len short =>
    exact ⟨(lsmUnfetched_fields base size isSequence).nested, rfl⟩
  | case2 elt isSequence addr len long unread =>
    refine ⟨(Nested.plain rfl).append ?_, rfl⟩
    exact (lsmUnfetched_fields base size isSequence).nested
  | case3 elt isSequence addr len long ctx read truncated =>
    exact ⟨(Nested.plain rfl).append (.plain rfl), rfl⟩
  | case4 elt isSequence addr len long ctx read whole element last =>
    have prints := decodeLsmCtx_prints rest small ctx
    subst begun
    exact ⟨(Nested.plain rfl).append prints.nested, rfl⟩
  | case5 elt isSequence addr len long ctx read whole element next left on later ih =>
    have prints := decodeLsmCtx_prints rest small ctx
    obtain ⟨nested, ended⟩ := ih (lsmNext_further rest small on).2 rfl
    subst begun
    exact ⟨(((Nested.plain rfl).append prints.nested).append (.plain rfl)).append nested, ended⟩

theorem decodeLsmCtxLoop_opens (elt : UInt32) :
    Opens (decodeLsmCtxLoop c lsmCtx elt false addr len).1
      ((decodeLsmCtxLoop c lsmCtx elt false addr len).2 = true) := by
  rw [decodeLsmCtxLoop]
  split
  · exact .inl ⟨Bool.false_ne_true, (lsmUnfetched_fields base size false).nested⟩
  · split
    · refine .inl ⟨Bool.false_ne_true, (Nested.plain rfl).append ?_⟩
      exact (lsmUnfetched_fields base size false).nested
    · next ctx read =>
      have prints := decodeLsmCtx_prints rest small ctx
      split
      · exact .inl ⟨Bool.false_ne_true, (Nested.plain rfl).append (.plain rfl)⟩
      · split
        · exact .inr ⟨rfl, [header addr], decodeLsmCtx ctx addr len, rfl, .plain rfl, prints.nested⟩
        · next next left on =>
          obtain ⟨nested, ended⟩ := decodeLsmCtxLoop_nested
            (lsmNext_further rest small on).2 small lsmCtx (elt + 1)
          refine .inr ⟨ended, [header addr], _, ?_, .plain rfl,
            (prints.nested.append (Nested.plain (e := arrayNext) rfl)).append nested⟩
          rfl

end

theorem decodeLsmCtxSequence_safe (lsmCtx : UInt64 → Option LsmCtx) :
    Safe addr len.toNat lsmCtxSize.toNat (decodeLsmCtxSequence c lsmCtx addr len) := by
  obtain ⟨rest, small⟩ := rest_self addr len
  have walks := decodeLsmCtxLoop_walks (c := c) rest small lsmCtx 0 false
  rw [offset_self] at walks
  refine (walks.append ?_).safe (by decide) (decodeLsmCtxLoop_opens rest small lsmCtx 0).close
  split
  · exact .one rfl trivial
  · exact nofun

end

/-! ## Lists of the device mapper -/

section
variable {c : Tracee} {addr : UInt64} {size : Nat} {dataSize : UInt32} {l : DmList}

def Lists (l : DmList) (addr : UInt64) (dataSize : UInt32) : Prop :=
  ∀ next offset offsetEnd, offsetEnd ≤ dataSize →
    Prints addr dataSize.toNat (l.element next offset offsetEnd)

theorem offset_place (n : UInt32) : offset addr (addr + n.toUInt64) = n.toNat := by
  have small : n.toNat < 2 ^ 64 := Nat.lt_trans n.toNat_lt (by decide)
  rw [offset_add, offset_self, toNat_toUInt64, Nat.zero_add]
  rw [offset_self, toNat_toUInt64]
  omega

theorem misplaced_fields : Fields addr size ([arrayNext] ++ misplaced l) := by
  simp [misplaced, Fields, isPlain, isHeader, Inside]

variable {pos : UInt32} {i low : Nat} {base : UInt64} {ioc : DmIoctl}

theorem header_end {headerSize : UInt32} (further : ¬ pos + headerSize ≤ pos) :
    (pos + headerSize).toNat = pos.toNat + headerSize.toNat ∧ 0 < headerSize.toNat := by
  rw [UInt32.not_le, UInt32.lt_iff_toNat_lt, UInt32.toNat_add] at further
  rw [UInt32.toNat_add]
  have := headerSize.toNat_lt
  omega

theorem low_le {posEnd : UInt32} (further : ¬ (i ≠ 0 ∧ pos ≤ posEnd)) (start : i = 0 → low = 0)
    (past : i ≠ 0 → low ≤ posEnd.toNat + 1) : low ≤ pos.toNat := by
  by_cases first : i = 0
  · simp [start first]
  · have beyond : ¬ pos ≤ posEnd := fun le => further ⟨first, le⟩
    rw [UInt32.not_le] at beyond
    exact Nat.le_trans (past first) beyond

theorem dmListLoop_safe (fetch : UInt64 → Option UInt32) (lists : Lists l addr dataSize)
    (pos posEnd : UInt32) (start : i = 0 → low = 0) (past : i ≠ 0 → low ≤ posEnd.toNat + 1) :
    Walks addr dataSize.toNat l.headerSize.toNat low
        (dmListLoop c l fetch addr dataSize i pos posEnd) ∧
      Nested (dmListLoop c l fetch addr dataSize i pos posEnd) := by
  have astray : Fields addr dataSize.toNat ([arrayNext] ++ misplaced l) := misplaced_fields
  have comma : Fields addr dataSize.toNat [arrayNext] := .one rfl rfl trivial
  fun_induction dmListLoop c l fetch addr dataSize i pos posEnd generalizing low with
  | case1 => exact ⟨.of_quiet astray.quiet, astray.nested⟩
  | case2 => exact ⟨.of_quiet astray.quiet, astray.nested⟩
  | case3 =>
    have more : Fields addr dataSize.toNat [moreDataFollows] := .one rfl rfl trivial
    exact ⟨.of_quiet (comma.append more).quiet, (comma.append more).nested⟩
  | case4 i pos posEnd more further inside full place =>
    rw [not_or, UInt32.not_lt] at inside
    have ends := header_end inside.1
    have fits := UInt32.le_iff_toNat_le.mp inside.2
    have unread : Fields addr dataSize.toNat [printaddr place] := .one rfl rfl trivial
    refine ⟨.quiet comma.quiet (.mono ?_ (low_le further start past)), ?_⟩
    · exact .visit (offset_place pos) (by omega) (Nat.lt_succ_self _) (.of_quiet unread.quiet)
    · exact comma.nested.append ((Nested.plain rfl).append unread.nested)
  | case5 i pos posEnd more further inside full place next =>
    rename_i ih
    rw [not_or, UInt32.not_lt] at inside
    have ends := header_end inside.1
    have fits := UInt32.le_iff_toNat_le.mp inside.2
    have prints := lists next pos _ inside.2
    have visit {es : List Event} (later : Walks addr dataSize.toNat l.headerSize.toNat
        (pos.toNat + 1) es ∧ Nested es) :
        Walks addr dataSize.toNat l.headerSize.toNat low ([arrayNext] ++ [header place] ++
            l.element next pos (pos + l.headerSize) ++ es) ∧
          Nested ([arrayNext] ++
            [header place] ++ l.element next pos (pos + l.headerSize) ++ es) := by
      rw [List.append_assoc, List.append_assoc]
      refine ⟨.quiet comma.quiet (.mono ?_ (low_le further start past)), ?_⟩
      · exact .visit (offset_place pos) (by omega) (Nat.lt_succ_self _)
          (.quiet prints.quiet later.1)
      · exact comma.nested.append ((Nested.plain rfl).append (prints.nested.append later.2))
    split
    · exact visit ⟨.nil, .nil⟩
    · next pos' _ =>
      exact visit (ih pos' (fun zero => absurd zero (Nat.succ_ne_zero i)) (fun _ => by omega))
  | case6 => exact ⟨.nil, .nil⟩

theorem dmListLoop_start {fetch : UInt64 → Option UInt32} (lists : Lists l addr dataSize)
    (positive : 0 < l.headerSize.toNat) :
    Safe addr dataSize.toNat l.headerSize.toNat (dmListLoop c l fetch addr dataSize 0 pos 0) := by
  obtain ⟨walks, nested⟩ := dmListLoop_safe fetch lists pos 0
    (fun _ => rfl) (fun more => absurd rfl more)
  exact walks.safe positive nested

theorem Fields.safe {headerSize : Nat} {es : List Event} (fields : Fields base size es) :
    Safe base size headerSize es := by
  refine ⟨.of_quiet fields.quiet, ?_, fields.nested⟩
  rw [fields.quiet.filterMap]
  exact Nat.zero_le _

theorem left_out_fields : Fields base size [arrayNext, moreDataFollows] := by
  simp [Fields, isPlain, isHeader, Inside]

theorem dmString_fields {offsetEnd : UInt32} (inside : offsetEnd ≤ ioc.dataSize) :
    Fields addr ioc.dataSize.toNat [dmString addr ioc offsetEnd] := by
  refine .one rfl rfl ?_
  have le := UInt32.le_iff_toNat_le.mp inside
  rw [dmString, Inside, offset_place, UInt32.toNat_sub_of_le _ _ inside]
  omega

theorem targetSpecList_lists : Lists (targetSpecList c addr ioc) addr ioc.dataSize := by
  intro next pos posEnd inside
  apply Fields.struct
  have names : Fields addr ioc.dataSize.toNat [structNext, field "target_type", structNext,
      field "string"] := by
    simp [Fields, isPlain, isHeader, Inside]
  refine (Fields.append ?_ ?_).append (names.append (dmString_fields inside))
  · simp [Fields, isPlain, isHeader, Inside]
  · split
    · simp [Fields, isPlain, isHeader, Inside]
    · exact .nil

theorem nameList_lists : Lists (nameList c addr ioc) addr ioc.dataSize := by
  intro next pos posEnd inside
  apply Fields.struct
  have names : Fields addr ioc.dataSize.toNat [field "dev", structNext, field "name"] := by
    simp [Fields, isPlain, isHeader, Inside]
  refine (names.append (dmString_fields inside)).append ?_
  unfold dmEventNr
  dsimp only
  split
  · split
    · simp [Fields, isPlain, isHeader, Inside]
    · exact .nil
  · exact .nil

theorem targetVersionsList_lists : Lists (targetVersionsList addr ioc) addr ioc.dataSize := by
  intro next pos posEnd inside
  apply Fields.struct
  have name : Fields addr ioc.dataSize.toNat [field "name"] := by
    simp [Fields, isPlain, isHeader, Inside]
  have version : Fields addr ioc.dataSize.toNat [structNext, field "version"] := by
    simp [Fields, isPlain, isHeader, Inside]
  exact (name.append (dmString_fields inside)).append version

variable (fetch : UInt64 → Option UInt32)
include fetch

theorem dmDecodeDmTargetSpec_safe (ioc : DmIoctl) :
    Safe addr ioc.dataSize.toNat 40 (dmDecodeDmTargetSpec c fetch addr ioc) := by
  unfold dmDecodeDmTargetSpec
  split
  · grind [left_out_fields.safe, Fields.nil.safe]
  · exact dmListLoop_start targetSpecList_lists (by decide : 0 < 40)

theorem dmDecodeDmNameList_safe (ioc : DmIoctl) :
    Safe addr ioc.dataSize.toNat 12 (dmDecodeDmNameList c fetch addr ioc) := by
  unfold dmDecodeDmNameList
  split
  · exact Fields.nil.safe
  · split
    · exact left_out_fields.safe
    · exact dmListLoop_start nameList_lists (by decide : 0 < 12)

theorem dmDecodeDmTargetVersions_safe (ioc : DmIoctl) :
    Safe addr ioc.dataSize.toNat 16 (dmDecodeDmTargetVersions c fetch addr ioc) := by
  unfold dmDecodeDmTargetVersions
  split
  · exact Fields.nil.safe
  · split
    · exact left_out_fields.safe
    · exact dmListLoop_start targetVersionsList_lists (by decide : 0 < 16)

end

/-- For every memory and every length the decoders end, having fetched headers at
increasing offsets of their buffer, handed on parts of it and ended what they began. -/
theorem record_walkers_safe (c : Tracee) (addr : UInt64) :
    (∀ format dent (len : UInt32),
      Safe addr len.toNat format.headerSize.toNat (decodeDents c format dent addr len)) ∧
    (∀ lsmCtx (len : UInt32),
      Safe addr len.toNat lsmCtxSize.toNat (decodeLsmCtxSequence c lsmCtx addr len)) ∧
    (∀ fetch ioc, Safe addr ioc.dataSize.toNat 40 (dmDecodeDmTargetSpec c fetch addr ioc)) ∧
    (∀ fetch ioc, Safe addr ioc.dataSize.toNat 12 (dmDecodeDmNameList c fetch addr ioc)) ∧
    (∀ fetch ioc, Safe addr ioc.dataSize.toNat 16 (dmDecodeDmTargetVersions c fetch addr ioc)) :=
  ⟨fun _ dent _ => decodeDents_safe dent, fun lsmCtx _ => decodeLsmCtxSequence_safe lsmCtx,
    dmDecodeDmTargetSpec_safe, dmDecodeDmNameList_safe, dmDecodeDmTargetVersions_safe⟩

end Strace.Records
