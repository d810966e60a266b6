import Mathlib.Algebra.Group.Nat.Defs
import Mathlib.Data.List.Basic
import Strace.Common

/-! `print_array_ex` of `util.c`: the elements of an array of the tracee. -/
namespace Strace.PrintArray
open List

inductive Event where
  | null
  | unavailable
  | printaddr (addr : UInt64)
  | printaddrComment (addr : UInt64)
  | moreDataFollows
  | arrayBegin
  | arrayNext
  | arrayEnd
  | indexBegin
  | indexEqual
  | indexEnd
  /-- `print_xlat_ex` of an index -/
  | printXlatEx (idx : Nat)
  /-- `printxval_ex` of an index -/
  | printxvalEx (idx : Nat)
  /-- a call of `tfetch_mem_func`, and whether it succeeds -/
  | fetch (addr : UInt64) (ok : Bool)
  /-- a call of `print_func` -/
  | printElem (addr : UInt64)
  deriving DecidableEq

open Event

structure Call where
  startAddr : UInt64
  nmemb : UInt64
  elemSize : UInt64
  /-- may be missing -/
  tfetchMemFunc : Option (Nat → Bool)
  printFunc : Nat → Bool
  /-- `PAF_ARRAY_TRUNCATED` -/
  arrayTruncated : Bool := false
  /-- `PAF_PRINT_INDICES` -/
  printIndices : Bool := false
  /-- whether there is an `index_xlat` -/
  indexXlat : Bool := false
  /-- `abbrev(tcp)` -/
  abbreviated : Bool
  maxStrlen : UInt32

namespace Call

variable (c : Call)

def size : UInt64 := c.nmemb * c.elemSize

def endAddr : UInt64 := c.startAddr + c.size

def sequenceTruncationNeeded : UInt32 → Bool :=
  Strace.sequenceTruncationNeeded c.abbreviated c.maxStrlen

def abbrevEnd : UInt64 :=
  if c.sequenceTruncationNeeded c.nmemb.toUInt32 then
    c.startAddr + c.elemSize * c.maxStrlen.toUInt64
  else c.endAddr

/-- The array does not wrap around. -/
structure Checked : Prop where
  elemSize_pos : 0 < c.elemSize.toNat
  inside : c.startAddr.toNat + c.nmemb.toNat * c.elemSize.toNat < 2 ^ 64
  nonempty : 0 < c.nmemb.toNat

variable {c}

theorem Checked.endAddr (checked : c.Checked) :
    c.endAddr.toNat = c.startAddr.toNat + c.nmemb.toNat * c.elemSize.toNat := by
  have inside := checked.inside
  rw [Call.endAddr, size, UInt64.toNat_add, UInt64.toNat_mul]
  omega

theorem checked_of_guard (nonzero : c.nmemb ≠ 0)
    (guard : ¬ (c.endAddr ≤ c.startAddr ∨ c.size / c.elemSize ≠ c.nmemb)) : c.Checked := by
  rw [not_or, not_not] at guard
  obtain ⟨ascending, exact_size⟩ := guard
  have nonempty := Nat.pos_of_ne_zero fun zero => nonzero (UInt64.toNat_inj.mp zero)
  have quotient := congrArg UInt64.toNat exact_size
  rw [UInt64.toNat_div, size, UInt64.toNat_mul] at quotient
  have elemSize_pos : 0 < c.elemSize.toNat := by
    rcases Nat.eq_zero_or_pos c.elemSize.toNat with zero | pos
    · rw [zero] at quotient
      omega
    · exact pos
  have fits : c.nmemb.toNat * c.elemSize.toNat < 2 ^ 64 := by
    have whole := Nat.div_mul_le_self (c.nmemb.toNat * c.elemSize.toNat % 2 ^ 64) c.elemSize.toNat
    rw [quotient] at whole
    omega
  have above : c.startAddr.toNat < c.endAddr.toNat := Nat.lt_of_not_le ascending
  rw [Call.endAddr, size, UInt64.toNat_add, UInt64.toNat_mul] at above
  exact ⟨elemSize_pos, by omega, nonempty⟩

end Call

/-- The variables of the loop. -/
structure Loop (c : Call) where
  cur : UInt64
  idx : Nat
  place : cur.toNat = c.startAddr.toNat + idx * c.elemSize.toNat

namespace Loop

variable {c : Call}

def start (c : Call) : Loop c := ⟨c.startAddr, 0, by simp⟩

theorem more_iff (checked : c.Checked) (l : Loop c) :
    l.cur < c.endAddr ↔ l.idx < c.nmemb.toNat := by
  rw [UInt64.lt_iff_toNat_lt, checked.endAddr, l.place, Nat.add_lt_add_iff_left]
  exact Nat.mul_lt_mul_right checked.elemSize_pos

theorem cur_add (checked : c.Checked) (l : Loop c) (more : l.cur < c.endAddr) :
    (l.cur + c.elemSize).toNat = l.cur.toNat + c.elemSize.toNat := by
  have inside := checked.inside
  have next : (l.idx + 1) * c.elemSize.toNat ≤ c.nmemb.toNat * c.elemSize.toNat :=
    Nat.mul_le_mul_right _ ((l.more_iff checked).mp more)
  rw [Nat.succ_mul] at next
  rw [UInt64.toNat_add, l.place]
  omega

/-- `cur += elem_size, idx++` -/
def next (checked : c.Checked) (l : Loop c) (more : l.cur < c.endAddr) : Loop c where
  cur := l.cur + c.elemSize
  idx := l.idx + 1
  place := by
    rw [l.cur_add checked more, l.place, Nat.succ_mul]
    omega

end Loop

structure Printed where
  events : List Event
  cur : UInt64
  truncated : Bool

def Printed.after (events : List Event) (p : Printed) : Printed :=
  { p with events := events ++ p.events }

namespace Call

variable (c : Call)

def fetched (idx : Nat) : Bool :=
  match c.tfetchMemFunc with
  | none => true
  | some tfetchMemFunc => tfetchMemFunc idx

/-- What an iteration does first. -/
def visit (l : Loop c) : List Event :=
  (if l.cur ≠ c.startAddr then [arrayNext] else []) ++
    match c.tfetchMemFunc with
    | none => []
    | some tfetchMemFunc => [fetch l.cur (tfetchMemFunc l.idx)]

def arrayBegin (l : Loop c) : List Event :=
  if l.cur = c.startAddr then [Event.arrayBegin] else []

/-- An element with its index. -/
def element (l : Loop c) : List Event :=
  if c.printIndices then
    [indexBegin, if c.indexXlat then printxvalEx l.idx else printXlatEx l.idx, indexEqual,
      printElem l.cur, indexEnd]
  else [printElem l.cur]

def elements (checked : c.Checked) (l : Loop c) : Printed :=
  if more : l.cur < c.endAddr then
    if !c.fetched l.idx then
      if l.cur = c.startAddr then ⟨c.visit l ++ [printaddr l.cur], l.cur, false⟩
      else ⟨c.visit l ++ [moreDataFollows, printaddrComment l.cur], l.cur, true⟩
    else if c.abbrevEnd ≤ l.cur then
      ⟨c.visit l ++ c.arrayBegin l ++ [moreDataFollows], c.endAddr, true⟩
    else if c.printFunc l.idx then
      (elements checked (l.next checked more)).after (c.visit l ++ c.arrayBegin l ++ c.element l)
    else ⟨c.visit l ++ c.arrayBegin l ++ c.element l, c.endAddr, false⟩
  else ⟨[], l.cur, false⟩
termination_by c.endAddr.toNat - l.cur.toNat
decreasing_by
  have after := l.cur_add checked more
  have pos := checked.elemSize_pos
  rw [UInt64.lt_iff_toNat_lt] at more
  simp only [Loop.next]
  omega

/-- What follows the loop. -/
def close (p : Printed) : List Event :=
  if p.cur ≠ c.startAddr ∨ c.tfetchMemFunc.isNone then
    (if c.arrayTruncated && !p.truncated then
      (if p.cur ≠ c.startAddr then [arrayNext] else []) ++ [moreDataFollows]
    else []) ++ [arrayEnd]
  else []

def printArrayEx : List Event × Bool :=
  if c.startAddr = 0 then ([null], false)
  else if zero : c.nmemb = 0 then
    ([Event.arrayBegin] ++ (if c.arrayTruncated then [moreDataFollows] else []) ++
      [arrayEnd], false)
  else if wraps : c.endAddr ≤ c.startAddr ∨ c.size / c.elemSize ≠ c.nmemb then
    ([if c.tfetchMemFunc.isSome then printaddr c.startAddr else unavailable], false)
  else
    let p := c.elements (checked_of_guard zero wraps) (Loop.start c)
    (p.events ++ c.close p, c.endAddr ≤ p.cur)

end Call

/-! ## The calls of `print_func` -/

def printCalls (events : List Event) : Nat :=
  events.countP fun | printElem _ => true | _ => false

@[simp] theorem printCalls_append (events more : List Event) :
    printCalls (events ++ more) = printCalls events + printCalls more :=
  countP_append ..

section
variable {c : Call}

@[simp] theorem printCalls_visit (l : Loop c) : printCalls (c.visit l) = 0 := by
  unfold Call.visit
  cases c.tfetchMemFunc <;> split <;> rfl

@[simp] theorem printCalls_arrayBegin (l : Loop c) : printCalls (c.arrayBegin l) = 0 := by
  unfold Call.arrayBegin
  split <;> rfl

@[simp] theorem printCalls_element (l : Loop c) : printCalls (c.element l) = 1 := by
  unfold Call.element
  split
  · split <;> rfl
  · rfl

def limit (c : Call) : Nat :=
  if c.sequenceTruncationNeeded c.nmemb.toUInt32 then c.maxStrlen.toNat else c.nmemb.toNat

theorem limit_le (c : Call) : limit c ≤ c.nmemb.toNat := by
  unfold limit
  split
  · next needed =>
    simp only [Call.sequenceTruncationNeeded, Strace.sequenceTruncationNeeded, Bool.and_eq_true,
      decide_eq_true_eq, UInt32.lt_iff_toNat_lt, UInt64.toNat_toUInt32] at needed
    omega
  · exact Nat.le_refl _

theorem abbrevEnd_eq (checked : c.Checked) :
    c.abbrevEnd.toNat = c.startAddr.toNat + limit c * c.elemSize.toNat := by
  have few := Nat.mul_le_mul_right c.elemSize.toNat (limit_le c)
  have inside := checked.inside
  unfold Call.abbrevEnd
  unfold limit at few ⊢
  split
  · next needed =>
    rw [if_pos needed] at few
    rw [UInt64.toNat_add, UInt64.toNat_mul, UInt32.toNat_toUInt64, Nat.mul_comm]
    omega
  · exact checked.endAddr

theorem abbrevEnd_le_iff (checked : c.Checked) (l : Loop c) :
    c.abbrevEnd ≤ l.cur ↔ limit c ≤ l.idx := by
  rw [UInt64.le_iff_toNat_le, abbrevEnd_eq checked, l.place, Nat.add_le_add_iff_left]
  exact Nat.mul_le_mul_right_iff checked.elemSize_pos

variable {P : Nat → Prop} {i m : Nat}

theorem forall_from (lt : i < m) :
    (∀ k, i ≤ k → k < m → P k) ↔ P i ∧ ∀ k, i + 1 ≤ k → k < m → P k := by
  constructor
  · grind
  · rintro ⟨first, rest⟩ k low high
    rcases Nat.eq_or_lt_of_le low with rfl | later
    · exact first
    · exact rest k later high

theorem forall_from_self : ∀ k, i ≤ k → k < i → P k :=
  fun _ low high => absurd low (Nat.not_le.mpr high)

theorem lt_printCalls_iff (checked : c.Checked) (l : Loop c) (le : l.idx ≤ m) :
    m < l.idx + printCalls (c.elements checked l).events ↔
      m < limit c ∧ (∀ k, l.idx ≤ k → k < m + 1 → c.fetched k = true) ∧
        (∀ k, l.idx ≤ k → k < m → c.printFunc k = true) := by
  have few := limit_le c
  fun_induction Call.elements c checked l with
  | case1 l more unfetched start =>
    have none : printCalls [printaddr l.cur] = 0 := rfl
    have fails : c.fetched l.idx = false := by simpa using unfetched
    simp only [printCalls_append, printCalls_visit, forall_from (Nat.lt_succ_of_le le), fails,
      Bool.false_eq_true, false_and, and_false, iff_false]
    omega
  | case2 l more unfetched start =>
    have none : printCalls [moreDataFollows, printaddrComment l.cur] = 0 := rfl
    have fails : c.fetched l.idx = false := by simpa using unfetched
    simp only [printCalls_append, printCalls_visit, forall_from (Nat.lt_succ_of_le le), fails,
      Bool.false_eq_true, false_and, and_false, iff_false]
    omega
  | case3 l more fetched short =>
    have none : printCalls [moreDataFollows] = 0 := rfl
    have short' := (abbrevEnd_le_iff checked l).mp short
    simp only [printCalls_append, printCalls_visit, printCalls_arrayBegin]
    omega
  | case4 l more fetched long goes ih =>
    have long' := mt (abbrevEnd_le_iff checked l).mpr long
    have here : c.fetched l.idx = true := by simpa using fetched
    simp only [Printed.after, printCalls_append, printCalls_visit, printCalls_arrayBegin,
      printCalls_element, forall_from (Nat.lt_succ_of_le le), here, true_and]
    rcases Nat.eq_or_lt_of_le le with rfl | later
    · exact ⟨fun _ => ⟨by omega, forall_from_self, forall_from_self⟩, fun _ => by omega⟩
    · rw [forall_from later, and_iff_right goes]
      refine Iff.trans ?_ (ih later)
      simp only [Loop.next]
      omega
  | case5 l more fetched long stops =>
    have long' := mt (abbrevEnd_le_iff checked l).mpr long
    have here : c.fetched l.idx = true := by simpa using fetched
    simp only [printCalls_append, printCalls_visit, printCalls_arrayBegin, printCalls_element,
      forall_from (Nat.lt_succ_of_le le), here, true_and]
    rcases Nat.eq_or_lt_of_le le with rfl | later
    · exact ⟨fun _ => ⟨by omega, forall_from_self, forall_from_self⟩, fun _ => by omega⟩
    · grind
  | case6 l last =>
    have last' := mt (l.more_iff checked).mpr last
    have none : printCalls [] = 0 := rfl
    simp only [none]
    omega

/-! ## Begin and end -/

def Event.isPlain : Event → Bool
  | .arrayBegin | arrayEnd | indexBegin | indexEnd => false
  | _ => true

/-- Each begin has its end. -/
inductive Nested : List Event → Prop
  | nil : Nested []
  | plain {e : Event} (plain : e.isPlain = true) : Nested [e]
  | append {es es' : List Event} : Nested es → Nested es' → Nested (es ++ es')
  | array {es : List Event} : Nested es → Nested ([Event.arrayBegin] ++ es ++ [arrayEnd])
  | index {es : List Event} : Nested es → Nested ([indexBegin] ++ es ++ [indexEnd])

theorem Nested.plains {es : List Event} (plain : ∀ e ∈ es, e.isPlain = true) : Nested es := by
  induction es with
  | nil => exact .nil
  | cons e es ih =>
    rw [forall_mem_cons] at plain
    exact (Nested.plain plain.1).append (ih plain.2)

theorem nested_visit (l : Loop c) : Nested (c.visit l) := by
  unfold Call.visit
  apply Nested.plains
  cases c.tfetchMemFunc <;> split <;> simp [Event.isPlain]

theorem nested_element (l : Loop c) : Nested (c.element l) := by
  unfold Call.element
  split
  · have inner : Nested [if c.indexXlat then printxvalEx l.idx else printXlatEx l.idx, indexEqual,
        printElem l.cur] := by
      apply Nested.plains
      split <;> simp [Event.isPlain]
    exact inner.index
  · exact .plain rfl

variable (checked : c.Checked)
include checked

theorem startAddr_lt : c.startAddr < c.endAddr := by
  have size := Nat.mul_pos checked.nonempty checked.elemSize_pos
  rw [UInt64.lt_iff_toNat_lt, checked.endAddr]
  omega

theorem endAddr_ne : c.endAddr ≠ c.startAddr :=
  (UInt64.ne_of_lt (startAddr_lt checked)).symm

theorem Loop.cur_ne (l : Loop c) (later : 0 < l.idx) :
    l.cur ≠ c.startAddr := by
  intro same
  have place := l.place
  have step := Nat.mul_pos later checked.elemSize_pos
  rw [same] at place
  omega

theorem nested_elements (l : Loop c) (later : 0 < l.idx) :
    Nested (c.elements checked l).events ∧ (c.elements checked l).cur ≠ c.startAddr := by
  have started := l.cur_ne checked later
  fun_induction Call.elements c checked l with
  | case1 l more unfetched start => exact absurd start started
  | case2 l more unfetched start =>
    exact ⟨(nested_visit l).append (.plains (by simp [Event.isPlain])), started⟩
  | case3 l more fetched short =>
    simp only [Call.arrayBegin, if_neg started, append_nil]
    exact ⟨(nested_visit l).append (.plain rfl), endAddr_ne checked⟩
  | case4 l more fetched long goes ih =>
    simp only [Call.arrayBegin, if_neg started, append_nil]
    have next : 0 < (l.next checked more).idx := Nat.succ_pos _
    obtain ⟨nested, cur⟩ := ih next ((l.next checked more).cur_ne checked next)
    exact ⟨((nested_visit l).append (nested_element l)).append nested, cur⟩
  | case5 l more fetched long stops =>
    simp only [Call.arrayBegin, if_neg started, append_nil]
    exact ⟨(nested_visit l).append (nested_element l), endAddr_ne checked⟩
  | case6 l last => exact ⟨.nil, started⟩

theorem elements_start :
    let p := c.elements checked (Loop.start c)
    (p.cur = c.startAddr ∧ c.fetched 0 = false ∧ Nested p.events) ∨
      (p.cur ≠ c.startAddr ∧ c.fetched 0 = true ∧
        ∃ inner, p.events = c.visit (Loop.start c) ++ [Event.arrayBegin] ++ inner ∧
          Nested inner) := by
  have more : (Loop.start c).cur < c.endAddr := startAddr_lt checked
  have first : (Loop.start c).cur = c.startAddr := rfl
  rw [Call.elements, dif_pos more]
  cases fetched : c.fetched (Loop.start c).idx with
  | false =>
    simp only [if_pos first]
    exact .inl ⟨first, fetched, (nested_visit _).append (.plain rfl)⟩
  | true =>
    right
    simp only [Bool.not_true, Bool.false_eq_true, if_false, Call.arrayBegin]
    split
    · exact ⟨endAddr_ne checked, fetched, _, rfl, .plain rfl⟩
    · split
      · obtain ⟨nested, cur⟩ :=
          nested_elements checked ((Loop.start c).next checked more) (Nat.succ_pos _)
        exact ⟨cur, fetched, _, append_assoc .., (nested_element _).append nested⟩
      · exact ⟨endAddr_ne checked, fetched, _, rfl, nested_element _⟩

theorem nested_array :
    Nested ((c.elements checked (Loop.start c)).events ++
      c.close (c.elements checked (Loop.start c))) := by
  rcases elements_start checked with ⟨cur, fails, nested⟩ | ⟨cur, -, inner, events, nested⟩
  · have given : c.tfetchMemFunc.isNone = false := by
      cases fetcher : c.tfetchMemFunc with
      | none => simp [Call.fetched, fetcher] at fails
      | some _ => rfl
    simpa [Call.close, cur, given] using nested
  · have more : Nested (if c.arrayTruncated && !(c.elements checked (Loop.start c)).truncated then
        [arrayNext] ++ [moreDataFollows] else []) := by
      split
      · exact (Nested.plain rfl).append (.plain rfl)
      · exact .nil
    rw [Call.close, if_pos (.inl cur), if_pos cur, events]
    have whole := (nested_visit (Loop.start c)).append (nested.append more).array
    simpa only [append_assoc] using whole

end

/-! ## The whole function -/

theorem checked_iff_guard {c : Call} (nonzero : c.nmemb ≠ 0) :
    c.Checked ↔ ¬ (c.endAddr ≤ c.startAddr ∨ c.size / c.elemSize ≠ c.nmemb) := by
  refine ⟨fun checked => ?_, Call.checked_of_guard nonzero⟩
  rintro (le | inexact)
  · exact UInt64.not_lt.mpr le (startAddr_lt checked)
  · have inside := checked.inside
    apply inexact
    rw [← UInt64.toNat_inj, UInt64.toNat_div, Call.size, UInt64.toNat_mul,
      Nat.mod_eq_of_lt (by omega), Nat.mul_div_cancel _ checked.elemSize_pos]

structure Sound (c : Call) : Prop where
  nested : Nested c.printArrayEx.1
  few : c.abbreviated = true → printCalls c.printArrayEx.1 ≤ c.maxStrlen.toNat
  fetched : c.printArrayEx.2 = true → c.tfetchMemFunc.isSome = true →
    ∃ addr, fetch addr true ∈ c.printArrayEx.1

structure Overlong (c : Call) : Prop where
  abbreviated : c.abbreviated = true
  start : c.startAddr ≠ 0
  elemSize_pos : 0 < c.elemSize.toNat
  inside : c.startAddr.toNat + c.nmemb.toNat * c.elemSize.toNat < 2 ^ 64
  long : c.maxStrlen.toNat < c.nmemb.toNat
  short : c.nmemb.toNat % 2 ^ 32 ≤ c.maxStrlen.toNat
  fetched : ∀ k < c.maxStrlen.toNat + 1, c.fetched k = true
  printed : ∀ k < c.maxStrlen.toNat, c.printFunc k = true

section
variable {c : Call}

theorem limit_gt_iff (abbreviated : c.abbreviated = true) : c.maxStrlen.toNat < limit c ↔
    c.maxStrlen.toNat < c.nmemb.toNat ∧ c.nmemb.toNat % 2 ^ 32 ≤ c.maxStrlen.toNat := by
  unfold limit
  simp only [Call.sequenceTruncationNeeded, Strace.sequenceTruncationNeeded, abbreviated,
    Bool.true_and, decide_eq_true_eq, UInt32.lt_iff_toNat_lt, UInt64.toNat_toUInt32]
  split <;> omega

theorem printCalls_close (p : Printed) : printCalls (c.close p) = 0 := by
  unfold Call.close
  split
  · split
    · split <;> rfl
    · rfl
  · rfl

theorem Sound.of_plain {events : List Event} (shape : c.printArrayEx = (events, false))
    (nested : Nested events) (none : printCalls events = 0) : Sound c := by
  constructor
  · rwa [shape]
  · simp [shape, none]
  · simp [shape]

theorem Overlong.checked (overlong : Overlong c) : c.Checked :=
  ⟨overlong.elemSize_pos, overlong.inside, Nat.lt_of_le_of_lt (Nat.zero_le _) overlong.long⟩

theorem printArrayEx_loop (start : c.startAddr ≠ 0) (checked : c.Checked) :
    c.printArrayEx = ((c.elements checked (Loop.start c)).events ++
      c.close (c.elements checked (Loop.start c)),
      decide (c.endAddr ≤ (c.elements checked (Loop.start c)).cur)) := by
  have nonzero : c.nmemb ≠ 0 := by
    intro zero
    have nonempty := checked.nonempty
    rw [zero] at nonempty
    cases nonempty
  rw [Call.printArrayEx, if_neg start, dif_neg nonzero,
    dif_neg ((checked_iff_guard nonzero).mp checked)]

theorem fetched_of_end (checked : c.Checked) (given : c.tfetchMemFunc.isSome = true)
    (success : c.endAddr ≤ (c.elements checked (Loop.start c)).cur) :
    fetch c.startAddr true ∈ (c.elements checked (Loop.start c)).events := by
  rcases elements_start checked with ⟨cur, -, -⟩ | ⟨-, fetched, inner, events, -⟩
  · rw [cur] at success
    exact absurd (startAddr_lt checked) (UInt64.not_lt.mpr success)
  · obtain ⟨tfetchMemFunc, fetcher⟩ := Option.isSome_iff_exists.mp given
    have first : tfetchMemFunc 0 = true := by simpa [Call.fetched, fetcher] using fetched
    rw [events]
    simp [Call.visit, fetcher, Loop.start, first]

theorem sound_iff_few (start : c.startAddr ≠ 0) (checked : c.Checked) : Sound c ↔
    (c.abbreviated = true →
      printCalls (c.elements checked (Loop.start c)).events ≤ c.maxStrlen.toNat) := by
  have loop := printArrayEx_loop start checked
  constructor
  · intro sound abbreviated
    have few := sound.few abbreviated
    rwa [loop, printCalls_append, printCalls_close] at few
  · intro few
    constructor
    · rw [loop]
      exact nested_array checked
    · rwa [loop, printCalls_append, printCalls_close]
    · rw [loop]
      intro success given
      have first := fetched_of_end checked given (of_decide_eq_true success)
      exact ⟨c.startAddr, mem_append_left _ first⟩

end

/-- `print_array_ex` does what it says of every array but those that are too long by 2^32
elements or more. -/
theorem print_array_ex_sound_iff (c : Call) : Sound c ↔ ¬ Overlong c := by
  by_cases start : c.startAddr = 0
  · refine iff_of_true (.of_plain (by rw [Call.printArrayEx, if_pos start]) (.plain rfl) rfl) ?_
    exact fun overlong => overlong.start start
  by_cases zero : c.nmemb = 0
  · refine iff_of_true (.of_plain (by rw [Call.printArrayEx, if_neg start, dif_pos zero]) ?_ ?_) ?_
    · apply Nested.array
      apply Nested.plains
      split <;> simp [Event.isPlain]
    · cases c.arrayTruncated <;> rfl
    · intro overlong
      have nonempty := overlong.checked.nonempty
      rw [zero] at nonempty
      cases nonempty
  by_cases guard : c.endAddr ≤ c.startAddr ∨ c.size / c.elemSize ≠ c.nmemb
  · refine iff_of_true (.of_plain
      (by rw [Call.printArrayEx, if_neg start, dif_neg zero, dif_pos guard]) ?_ ?_) ?_
    · cases c.tfetchMemFunc <;> exact .plain rfl
    · cases c.tfetchMemFunc <;> rfl
    · exact fun overlong => (checked_iff_guard zero).mp overlong.checked guard
  have checked := (checked_iff_guard zero).mpr guard
  rw [sound_iff_few start checked]
  have calls := lt_printCalls_iff checked (Loop.start c) (Nat.zero_le c.maxStrlen.toNat)
  simp only [Loop.start, Nat.zero_add, Nat.zero_le, true_imp_iff] at calls
  constructor
  · intro few overlong
    have many := calls.mpr ⟨(limit_gt_iff overlong.abbreviated).mpr ⟨overlong.long, overlong.short⟩,
      overlong.fetched, overlong.printed⟩
    exact Nat.not_le.mpr many (few overlong.abbreviated)
  · intro fine abbreviated
    apply Nat.le_of_not_lt
    intro many
    obtain ⟨above, fetched, printed⟩ := calls.mp many
    obtain ⟨long, short⟩ := (limit_gt_iff abbreviated).mp above
    exact fine ⟨abbreviated, start, checked.elemSize_pos, checked.inside, long, short, fetched,
      printed⟩

def hugeWritev : Call where
  startAddr := 0x1000
  nmemb := 0x100000001
  elemSize := 16
  tfetchMemFunc := some (· < 33)
  printFunc _ := true
  abbreviated := true
  maxStrlen := 32

/-- All 33 are printed, while an abbreviated list has 32. -/
theorem print_array_ex_exceeds_max_strlen :
    hugeWritev.abbreviated = true ∧ hugeWritev.maxStrlen = 32 ∧
      32 < printCalls hugeWritev.printArrayEx.1 := by
  have checked : hugeWritev.Checked := ⟨by decide, by decide, by decide⟩
  have many := (lt_printCalls_iff checked (Loop.start hugeWritev) (Nat.zero_le 32)).mpr
    ⟨by decide, fun k _ readable => decide_eq_true readable, fun _ _ _ => rfl⟩
  refine ⟨rfl, rfl, ?_⟩
  rw [printArrayEx_loop (by decide) checked, printCalls_append, printCalls_close]
  simpa [Loop.start] using many

end Strace.PrintArray
