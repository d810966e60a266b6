import Strace.Decode.Netlink

/-! What the decoders of netlink messages read, hand on and print, whatever the
tracee's memory holds. -/
namespace Strace.Netlink
open List Option Words

namespace NlEvent

/-- Neither begins nor ends anything. -/
def isPlain : NlEvent → Bool
  | arrayBegin | arrayEnd | structBegin | structEnd | enterError | leaveError => false
  | _ => true

/-- Nothing but text. -/
def isText : NlEvent → Bool
  | arrayNext | structNext | moreDataFollows | printaddr _ | printaddrComment _ | printstr _
  | printVal => true
  | _ => false

/-- The address of a structure that is read. -/
def fetched (kind : NlKind) : NlEvent → Option Nat
  | fetch kind' addr => if kind' = kind then some addr else none
  | _ => none

def isElement (kind : NlKind) : NlEvent → Bool
  | element kind' _ => kind' = kind
  | _ => false

def Fits (bits : Nat) (kinds : List NlKind) (whole : Range) : NlEvent → Prop
  | fetch kind addr => kind ∈ kinds ∧ Range.Inside bits ⟨addr, kind.size⟩ whole
  | element kind _ => kind ∈ kinds
  | payload elem buffer handed =>
    handed.Inside bits elem ∧ handed.Inside bits buffer ∧ handed.Inside bits whole
  | _ => True

variable {bits : Nat} {kinds kinds' : List NlKind} {part whole : Range} {e : NlEvent}

theorem Fits.mono (fits : e.Fits bits kinds part) (more : kinds ⊆ kinds')
    (inside : part.Inside bits whole) : e.Fits bits kinds' whole := by
  cases e with
  | fetch kind addr => exact ⟨more fits.1, fits.2.trans inside⟩
  | element kind addr => exact more fits
  | payload elem buffer handed => exact ⟨fits.1, fits.2.1, fits.2.2.trans inside⟩
  | _ => trivial

theorem Fits.of_isText (text : e.isText = true) : e.Fits bits kinds whole := by
  cases e with
  | fetch kind addr => cases text
  | element kind addr => cases text
  | payload elem buffer handed => cases text
  | _ => trivial

theorem Fits.quiet {kind : NlKind} (fits : e.Fits bits kinds whole) (absent : kind ∉ kinds) :
    e.fetched kind = none ∧ e.isElement kind = false := by
  cases e with
  | fetch kind' addr =>
    have other : kind' ≠ kind := fun eq => absent (eq ▸ fits.1)
    exact ⟨if_neg other, rfl⟩
  | element kind' addr =>
    have other : kind' ≠ kind := fun eq => absent (eq ▸ fits)
    exact ⟨rfl, decide_eq_false other⟩
  | _ => exact ⟨rfl, rfl⟩

end NlEvent

inductive Nested : Nat → List NlEvent → Prop
  | nil {depth : Nat} : Nested depth []
  | plain {depth : Nat} {e : NlEvent} (plain : e.isPlain = true) : Nested depth [e]
  | append {depth : Nat} {es es' : List NlEvent} (first : Nested depth es)
      (second : Nested depth es') : Nested depth (es ++ es')
  | array {depth : Nat} {es : List NlEvent} (inner : Nested depth es) :
      Nested depth ([.arrayBegin] ++ es ++ [.arrayEnd])
  | struct {depth : Nat} {es : List NlEvent} (inner : Nested depth es) :
      Nested depth ([.structBegin] ++ es ++ [.structEnd])
  | error {depth : Nat} {es : List NlEvent} (inner : Nested depth es) :
      Nested (depth + 1) ([.enterError] ++ es ++ [.leaveError])

structure Decodes (bits depth : Nat) (kinds : List NlKind) (whole : Range) (events : List NlEvent) :
    Prop where
  nested : Nested depth events
  fits : ∀ e ∈ events, e.Fits bits kinds whole

namespace Decodes

variable {bits depth : Nat} {kinds kinds' : List NlKind} {part whole : Range}
  {es es' : List NlEvent} {e : NlEvent}

theorem nil : Decodes bits depth kinds whole [] := ⟨.nil, nofun⟩

theorem append (first : Decodes bits depth kinds whole es)
    (second : Decodes bits depth kinds whole es') : Decodes bits depth kinds whole (es ++ es') :=
  ⟨first.nested.append second.nested, forall_mem_append.mpr ⟨first.fits, second.fits⟩⟩

theorem single (plain : e.isPlain = true) (fits : e.Fits bits kinds whole) :
    Decodes bits depth kinds whole [e] :=
  ⟨.plain plain, forall_mem_singleton.mpr fits⟩

theorem text (text : e.isText = true) : Decodes bits depth kinds whole [e] := by
  refine single ?_ (.of_isText text)
  cases e <;> first | rfl | cases text

theorem payload {elem buffer handed : Range} (inElem : handed.Inside bits elem)
    (inBuffer : handed.Inside bits buffer) (inWhole : handed.Inside bits whole) :
    Decodes bits depth kinds whole [.payload elem buffer handed] :=
  single rfl ⟨inElem, inBuffer, inWhole⟩

theorem texts (texts : ∀ e ∈ es, e.isText = true) : Decodes bits depth kinds whole es := by
  induction es with
  | nil => exact nil
  | cons e es ih =>
    exact (text (texts e mem_cons_self)).append
      (ih fun e mem => texts e (mem_cons_of_mem _ mem))

theorem mono (decodes : Decodes bits depth kinds part es) (more : kinds ⊆ kinds')
    (inside : part.Inside bits whole) : Decodes bits depth kinds' whole es :=
  ⟨decodes.nested, fun e mem => (decodes.fits e mem).mono more inside⟩

section
variable (inner : Decodes bits depth kinds whole es)
include inner

theorem fits_between {opening closing : NlEvent}
    (first : opening.Fits bits kinds whole) (last : closing.Fits bits kinds whole) :
    ∀ e ∈ [opening] ++ es ++ [closing], e.Fits bits kinds whole := by
  rw [forall_mem_append, forall_mem_append]
  exact ⟨⟨forall_mem_singleton.mpr first, inner.fits⟩, forall_mem_singleton.mpr last⟩

theorem array :
    Decodes bits depth kinds whole ([.arrayBegin] ++ es ++ [.arrayEnd]) :=
  ⟨inner.nested.array, inner.fits_between trivial trivial⟩

theorem struct :
    Decodes bits depth kinds whole ([.structBegin] ++ es ++ [.structEnd]) :=
  ⟨inner.nested.struct, inner.fits_between trivial trivial⟩

theorem error :
    Decodes bits (depth + 1) kinds whole ([.enterError] ++ es ++ [.leaveError]) :=
  ⟨inner.nested.error, inner.fits_between trivial trivial⟩

end

variable {kind : NlKind}

theorem filterMap_fetched (decodes : Decodes bits depth kinds whole es) (absent : kind ∉ kinds) :
    es.filterMap (·.fetched kind) = [] :=
  filterMap_eq_nil_iff.mpr fun e mem => ((decodes.fits e mem).quiet absent).1

theorem countP_isElement (decodes : Decodes bits depth kinds whole es) (absent : kind ∉ kinds) :
    es.countP (·.isElement kind) = 0 :=
  countP_eq_zero.mpr fun e mem => by
    simp [((decodes.fits e mem).quiet absent).2]

end Decodes

/-! ## The loop over a list -/

structure ListSafe (c : Env) (kind : NlKind) (depth : Nat) (kinds : List NlKind) (whole : Range)
    (events : List NlEvent) : Prop extends Decodes c.bits depth (kind :: kinds) whole events where
  sorted : (events.filterMap (·.fetched kind)).Pairwise (· < ·)
  inside : ∀ addr ∈ events.filterMap (·.fetched kind),
    whole.addr ≤ addr ∧ addr + kind.size ≤ whole.addr + whole.len
  bounded : c.abbreviated = true → events.countP (·.isElement kind) ≤ c.maxStrlen.toNat

def OpenNested (depth : Nat) : Bool → List NlEvent → Prop
  | false, out => Nested depth out
  | true, out => ∃ before inside, out = before ++ ([.arrayBegin] ++ inside) ∧
      Nested depth before ∧ Nested depth inside

structure Progress (c : Env) (kind : NlKind) (depth : Nat) (kinds : List NlKind) (whole : Range)
    (bound n : Nat) (s : ListState) : Prop where
  nested : OpenNested depth s.isArray s.out
  fits : ∀ e ∈ s.out, e.Fits c.bits (kind :: kinds) whole
  sorted : (s.out.filterMap (·.fetched kind)).Pairwise (· < ·)
  inside : ∀ addr ∈ s.out.filterMap (·.fetched kind),
    whole.addr ≤ addr ∧ addr + kind.size ≤ whole.addr + whole.len
  below : ∀ addr ∈ s.out.filterMap (·.fetched kind), addr < bound
  count : s.out.countP (·.isElement kind) = n

/-- Where a loop is in the buffer. -/
structure At (c : Env) (whole : Range) (s : ListState) : Prop where
  low : whole.addr ≤ s.addr
  ends : s.addr + s.len = whole.addr + whole.len
  small : s.addr < 2 ^ c.bits

section
variable {c : Env} {kind : NlKind} {depth : Nat} {kinds : List NlKind} {whole : Range}
  {bound n : Nat} {isArray : Bool} {out es : List NlEvent} {s : ListState}

theorem OpenNested.append (isOpen : OpenNested depth isArray out) (nested : Nested depth es) :
    OpenNested depth isArray (out ++ es) := by
  cases isArray with
  | false => exact Nested.append isOpen nested
  | true =>
    obtain ⟨before, inside, rfl, first, second⟩ := isOpen
    exact ⟨before, inside ++ es, by simp, first, second.append nested⟩

theorem OpenNested.close (isOpen : OpenNested depth isArray out) :
    Nested depth (out ++ if isArray then [.arrayEnd] else []) := by
  cases isArray with
  | false => exact Nested.append isOpen .nil
  | true =>
    obtain ⟨before, inside, rfl, first, second⟩ := isOpen
    rw [append_assoc]
    exact first.append second.array

theorem At.inside (place : At c whole s) {len : Nat} (fits : len ≤ s.len) :
    Range.Inside c.bits ⟨s.addr, len⟩ whole := by
  obtain ⟨low, ends, small⟩ := place
  refine ⟨s.addr - whole.addr, ?_, ?_⟩
  · rw [Nat.add_sub_cancel' low, Nat.mod_eq_of_lt small]
  · grind

namespace Progress

theorem start {addr len : Nat} : Progress c kind depth kinds whole bound 0 { addr, len } :=
  ⟨.nil, nofun, .nil, nofun, nofun, rfl⟩

section
variable (progress : Progress c kind depth kinds whole bound n s)
include progress

theorem put {m : Nat}
    (decodes : Decodes c.bits depth (kind :: kinds) whole es)
    (unread : es.filterMap (·.fetched kind) = []) (decoded : es.countP (·.isElement kind) = m) :
    Progress c kind depth kinds whole bound (n + m) (s.put es) := by
  have same : (s.put es).out.filterMap (·.fetched kind) = s.out.filterMap (·.fetched kind) := by
    rw [ListState.put, filterMap_append, unread, append_nil]
  constructor
  · exact progress.nested.append decodes.nested
  · exact forall_mem_append.mpr ⟨progress.fits, decodes.fits⟩
  · simp [same, progress.sorted]
  · rw [same]
    exact progress.inside
  · rw [same]
    exact progress.below
  · rw [ListState.put, countP_append, progress.count, decoded]

theorem texts
    (texts : ∀ e ∈ es, e.isText = true) :
    Progress c kind depth kinds whole bound n (s.put es) := by
  have none : Decodes c.bits depth [] whole es := .texts texts
  exact progress.put (.texts texts) (none.filterMap_fetched not_mem_nil)
    (none.countP_isElement not_mem_nil)

theorem element (addr : Nat)
    (decodes : Decodes c.bits depth kinds whole es) (absent : kind ∉ kinds)
    (self : whole.Inside c.bits whole) :
    Progress c kind depth kinds whole bound (n + 1) (s.put (.element kind addr :: es)) := by
  have head : Decodes c.bits depth (kind :: kinds) whole [.element kind addr] :=
    .single rfl mem_cons_self
  refine progress.put (head.append (decodes.mono (subset_cons_self _ _) self))
    (decodes.filterMap_fetched absent) ?_
  rw [countP_cons, decodes.countP_isElement absent]
  simp [NlEvent.isElement]

end

theorem fetch (progress : Progress c kind depth kinds whole s.addr n s) (place : At c whole s)
    (room : kind.size ≤ s.len) :
    Progress c kind depth kinds whole (s.addr + 1) n (s.put [.fetch kind s.addr]) := by
  have more : (s.put [.fetch kind s.addr]).out.filterMap (·.fetched kind) =
      s.out.filterMap (·.fetched kind) ++ [s.addr] := by
    rw [ListState.put]
    simp [NlEvent.fetched]
  constructor
  · exact progress.nested.append (.plain rfl)
  · exact forall_mem_append.mpr ⟨progress.fits,
      forall_mem_singleton.mpr ⟨mem_cons_self, place.inside room⟩⟩
  · rw [more]
    refine pairwise_append.mpr ⟨progress.sorted, pairwise_singleton _ _, ?_⟩
    intro before mem after mem'
    obtain rfl := mem_singleton.mp mem'
    exact progress.below before mem
  · rw [more, forall_mem_append]
    refine ⟨progress.inside, forall_mem_singleton.mpr ⟨place.low, ?_⟩⟩
    rw [← place.ends]
    omega
  · rw [more, forall_mem_append]
    exact ⟨fun before mem => Nat.lt_succ_of_lt (progress.below before mem),
      forall_mem_singleton.mpr (Nat.lt_succ_self _)⟩
  · exact (countP_append ..).trans progress.count

theorem openArray (progress : Progress c kind depth kinds whole bound n s) (more : Bool) :
    Progress c kind depth kinds whole bound n (s.openArray more) := by
  unfold ListState.openArray
  split
  · next opens =>
    have closed : s.isArray = false := by simpa using (Bool.and_eq_true_iff.mp opens).1
    have nested := progress.nested
    rw [closed] at nested
    have same : (s.put [.arrayBegin]).out.filterMap (·.fetched kind) =
        s.out.filterMap (·.fetched kind) := (filterMap_append ..).trans (append_nil _)
    refine ⟨⟨s.out, [], rfl, nested, .nil⟩, ?_, ?_, ?_, ?_, ?_⟩
    · exact forall_mem_append.mpr ⟨progress.fits, forall_mem_singleton.mpr trivial⟩
    · exact same ▸ progress.sorted
    · exact same ▸ progress.inside
    · exact same ▸ progress.below
    · exact (countP_append ..).trans progress.count
  · exact progress

theorem finish (progress : Progress c kind depth kinds whole bound n s)
    (bounded : c.abbreviated = true → n ≤ c.maxStrlen.toNat) :
    ListSafe c kind depth kinds whole s.finish := by
  have same : s.finish.filterMap (·.fetched kind) = s.out.filterMap (·.fetched kind) := by
    rw [ListState.finish, filterMap_append]
    cases s.isArray <;> exact append_nil _
  refine ⟨⟨progress.nested.close, ?_⟩, ?_, ?_, fun abbreviated => ?_⟩
  · rw [ListState.finish, forall_mem_append]
    refine ⟨progress.fits, ?_⟩
    split
    · exact forall_mem_singleton.mpr trivial
    · exact forall_mem_nil _
  · simp [same, progress.sorted]
  · rw [same]
    exact progress.inside
  · rw [ListState.finish, countP_append, progress.count]
    cases s.isArray <;> exact bounded abbreviated

end Progress

end

section
variable {c : Env} {η : Type} {k : ListSpec η} {depth : Nat} {kinds : List NlKind} {whole : Range}
  {s : ListState} {hdr : η} {addr len : Nat} {element : η → Nat → Nat → Option (List NlEvent)}
  {inArray : Bool} {events : List NlEvent} {fuel : Nat}

theorem fetchHeader_error (failed : fetchHeader k addr len inArray = .error events) :
    ∀ e ∈ events, e.isText = true := by
  unfold fetchHeader at failed
  split at failed
  · grind [NlEvent.isText]
  · grind [NlEvent.isText]

theorem fetchHeader_ok (fetched : fetchHeader k addr len inArray = .ok hdr) :
    k.kind.size ≤ len := by
  unfold fetchHeader at fetched
  split at fetched
  · cases fetched
  · omega

theorem nextElement_some {addr' len' : Nat} (small : addr < 2 ^ c.bits)
    (next : nextElement c k hdr addr len = some (addr', len')) :
    addr < addr' ∧ addr' + len' = addr + len ∧ addr' < 2 ^ c.bits := by
  unfold nextElement at next
  dsimp only at next
  split at next
  · next more =>
    obtain ⟨-, rest, later⟩ := more
    obtain ⟨rfl, rfl⟩ := Prod.mk.inj (Option.some.inj next)
    have aligned :=
      Nat.lt_of_lt_of_le (k.aligned_small hdr) (Nat.pow_le_pow_right (by decide) c.wide)
    have below : c.plus addr (k.alignedLen hdr) < 2 ^ c.bits := Nat.mod_lt _ (Nat.two_pow_pos _)
    have exact : c.plus addr (k.alignedLen hdr) = addr + k.alignedLen hdr := by
      unfold Env.plus at later ⊢
      by_cases wraps : addr + k.alignedLen hdr < 2 ^ c.bits
      · exact Nat.mod_eq_of_lt wraps
      · have back : addr + k.alignedLen hdr - 2 ^ c.bits < addr := by omega
        rw [Nat.mod_eq_sub_mod (Nat.le_of_not_lt wraps),
          Nat.mod_eq_of_lt (Nat.lt_trans back small)] at later
        omega
    exact ⟨later, by omega, below⟩
  · cases next

def ElementSafe (c : Env) (k : ListSpec η) (depth : Nat) (kinds : List NlKind)
    (element : η → Nat → Nat → Option (List NlEvent)) : Prop :=
  k.kind ∉ kinds ∧ ∀ hdr addr len events, element hdr addr len = some events →
    Decodes c.bits depth kinds ⟨addr, len⟩ events

theorem toNat_succ_elt {elt : UInt32} (small : elt.toNat ≤ c.maxStrlen.toNat) :
    (elt + 1).toNat = elt.toNat + 1 := by
  have limit := c.strlen_small
  have sum : (elt + 1).toNat = (elt.toNat + 1) % 2 ^ 32 := rfl
  rw [sum]
  exact Nat.mod_eq_of_lt (by omega)

structure Going (c : Env) (k : ListSpec η) (depth : Nat) (kinds : List NlKind) (whole : Range)
    (s : ListState) : Prop where
  place : At c whole s
  start : whole.addr < 2 ^ c.bits
  progress : ∃ n, Progress c k.kind depth kinds whole s.addr n s ∧
    (c.abbreviated = true → n = s.elt.toNat ∧ n ≤ c.maxStrlen.toNat)

theorem Going.begin (small : addr < 2 ^ c.bits) :
    Going c k depth kinds ⟨addr, len⟩ { addr, len } :=
  ⟨⟨Nat.le_refl _, rfl, small⟩, small, 0, .start, fun _ => ⟨rfl, Nat.zero_le _⟩⟩

theorem listRound_safe (safe : ElementSafe c k depth kinds element)
    (going : Going c k depth kinds whole s) {r : ListState ⊕ List NlEvent}
    (done : listRound c k element s = some r) :
    (∃ s', r = .inl s' ∧ Going c k depth kinds whole s' ∧ s'.len < s.len) ∨
      ∃ events, r = .inr events ∧ ListSafe c k.kind depth kinds whole events := by
  obtain ⟨place, start, n, progress, counted⟩ := going
  have bounded := fun abbreviated => (counted abbreviated).2
  unfold listRound at done
  split at done
  · next text failed =>
    obtain rfl := Option.some.inj done
    exact .inr ⟨_, rfl, (progress.texts (fetchHeader_error failed)).finish bounded⟩
  · next hdr fetched =>
    have read := progress.fetch place (fetchHeader_ok fetched)
    split at done
    · obtain rfl := Option.some.inj done
      exact .inr ⟨_, rfl, (read.texts (by simp [NlEvent.isText])).finish bounded⟩
    · next goesOn =>
      obtain ⟨inner, decoded, rfl⟩ := map_eq_some_iff.mp done
      have inside :=
        (safe.2 hdr _ _ inner decoded).mono (fun _ => id) (place.inside (Nat.le_refl _))
      have added := (read.openArray (nextElement c k hdr s.addr s.len).isSome).element s.addr inside
        safe.1 (Range.inside_self start)
      have counts : c.abbreviated = true → n + 1 = (s.elt + 1).toNat ∧
          n + 1 ≤ c.maxStrlen.toNat := by
        intro abbreviated
        obtain ⟨eq, small⟩ := counted abbreviated
        simp only [sequenceTruncationNeeded, Strace.sequenceTruncationNeeded, abbreviated,
          Bool.true_and, decide_eq_true_eq, UInt32.lt_iff_toNat_lt] at goesOn
        have succ := toNat_succ_elt (eq ▸ small)
        omega
      generalize next : nextElement c k hdr s.addr s.len = more at added
      cases more with
      | none => exact .inr ⟨_, rfl, added.finish fun abbreviated => (counts abbreviated).2⟩
      | some following =>
        obtain ⟨addr, len⟩ := following
        obtain ⟨later, same, small⟩ := nextElement_some place.small next
        obtain ⟨low, ends, -⟩ := place
        have comma : ∀ e ∈ [NlEvent.arrayNext], e.isText = true := by simp [NlEvent.isText]
        have separated := added.texts comma
        have below := fun addr' mem => Nat.lt_of_lt_of_le (separated.below addr' mem) later
        refine .inl ⟨_, rfl, ⟨⟨?_, ?_, small⟩, start, n + 1, ⟨separated.nested, separated.fits,
          separated.sorted, separated.inside, below, separated.count⟩, counts⟩, ?_⟩
        · show whole.addr ≤ addr
          omega
        · show addr + len = whole.addr + whole.len
          omega
        · show len < s.len
          omega

theorem listLoop_safe (safe : ElementSafe c k depth kinds element)
    (going : Going c k depth kinds whole s) (done : listLoop c k element fuel s = some events) :
    ListSafe c k.kind depth kinds whole events := by
  induction fuel generalizing s with
  | zero => cases done
  | succ fuel ih =>
    unfold listLoop at done
    split at done
    · cases done
    · next last round =>
      obtain rfl := Option.some.inj done
      obtain ⟨s', eq, -⟩ | ⟨events, eq, result⟩ := listRound_safe safe going round
      · cases eq
      · exact Sum.inr.inj eq ▸ result
    · next s' round =>
      obtain ⟨s'', eq, next, -⟩ | ⟨events, eq, -⟩ := listRound_safe safe going round
      · grind
      · cases eq

theorem listRound_isSome (ends : ∀ hdr, (element hdr s.addr s.len).isSome) :
    (listRound c k element s).isSome := by
  unfold listRound
  split
  · rfl
  · grind

theorem listLoop_ends (safe : ElementSafe c k depth kinds element)
    (going : Going c k depth kinds whole s)
    (ends : ∀ hdr addr len, len ≤ s.len → (element hdr addr len).isSome) (enough : s.len < fuel) :
    (listLoop c k element fuel s).isSome := by
  induction fuel generalizing s with
  | zero => omega
  | succ fuel ih =>
    have round := listRound_isSome (c := c) (k := k) fun hdr =>
      ends hdr s.addr s.len (Nat.le_refl _)
    unfold listLoop
    split
    · next none => simp [none] at round
    · rfl
    · next s' round =>
      obtain ⟨s'', eq, next, shorter⟩ | ⟨events, eq, -⟩ := listRound_safe safe going round
      · grind
      · cases eq

end

/-! ## Attributes and messages -/

section
variable {c : Env} {depth : Nat} {addr len : Nat} {events : List NlEvent}

theorem Env.plus_lt (c : Env) (addr n : Nat) : c.plus addr n < 2 ^ c.bits :=
  Nat.mod_lt _ (Nat.two_pow_pos _)

theorem Env.plus_inside {offset n : Nat} (fits : offset + n ≤ len) :
    Range.Inside c.bits ⟨c.plus addr offset, n⟩ ⟨addr, len⟩ :=
  ⟨offset, rfl, fits⟩

theorem decodeNlattrWithData_decodes (d : NlaDecoders) (nla : Nlattr) (addr len : Nat) :
    Decodes c.bits depth [] ⟨addr, len⟩ (decodeNlattrWithData c d nla addr len) := by
  have header : Decodes c.bits depth [] ⟨addr, len⟩ printNlattr := .struct (.text rfl)
  unfold decodeNlattrWithData
  dsimp only
  split
  · have data (decoded : Bool) (r : Range) :
        Decodes c.bits depth [] ⟨addr, len⟩ (if decoded then [] else [.printstr r]) := by
      cases decoded
      · exact .text rfl
      · exact .nil
    exact .array ((header.append (.text rfl)).append (.append
      (.payload (c.plus_inside (by omega)) (c.plus_inside (by omega)) (c.plus_inside (by omega)))
      (data _ _)))
  · exact header

theorem nlattrs_safe (d : NlaDecoders) : ElementSafe c (nlattrSpec c) depth []
    fun nla addr len => some (decodeNlattrWithData c d nla addr len) := by
  refine ⟨not_mem_nil, fun nla addr len events decoded => ?_⟩
  obtain rfl := Option.some.inj decoded
  exact decodeNlattrWithData_decodes d nla addr len

variable {fuel : Nat} {capped : Bool} {nlmsghdr : Nlmsghdr}

theorem decodeNlattr_safe {d : NlaDecoders} (small : addr < 2 ^ c.bits)
    (done : decodeNlattr c d fuel addr len = some events) :
    ListSafe c .nlattr depth [] ⟨addr, len⟩ events :=
  listLoop_safe (nlattrs_safe d) (.begin small) done

theorem decodeNlattr_ends (d : NlaDecoders) (small : addr < 2 ^ c.bits) (enough : len < fuel) :
    (decodeNlattr c d fuel addr len).isSome := by
  have safe : ElementSafe c (nlattrSpec c) 0 [] _ := nlattrs_safe d
  exact listLoop_ends safe (.begin small) (fun _ _ _ _ => rfl) enough

def inMessage : List NlKind := [.nlmsgerr, .nlattr]

def MessageSafe (c : Env) (depth nesting : Nat)
    (message : Nlmsghdr → Nat → Nat → Nat → Option (List NlEvent)) : Prop :=
  ∀ msg addr len events, addr < 2 ^ c.bits → message msg addr len nesting = some events →
    Decodes c.bits depth inMessage ⟨addr, len⟩ events

def AttributesSafe (c : Env) (depth : Nat) (attributes : Nat → Nat → Option (List NlEvent)) :
    Prop :=
  ∀ addr len events, addr < 2 ^ c.bits → attributes addr len = some events →
    Decodes c.bits depth [.nlattr] ⟨addr, len⟩ events

variable {message : Nlmsghdr → Nat → Nat → Nat → Option (List NlEvent)}
  {attributes : Nat → Nat → Option (List NlEvent)} {nesting : Nat}

theorem decodeNlmsgerr_decodes (messages : MessageSafe c depth (nesting + 1) message)
    (attrs : AttributesSafe c depth attributes) (small : addr < 2 ^ c.bits)
    (done : decodeNlmsgerr c message attributes addr len capped nesting = some events) :
    Decodes c.bits depth inMessage ⟨addr, len⟩ events := by
  unfold decodeNlmsgerr at done
  split at done
  · obtain rfl := Option.some.inj done
    exact .text rfl
  · next long =>
    split at done
    · obtain rfl := Option.some.inj done
      exact .text rfl
    · next msg fetched =>
      dsimp only at done
      generalize size : min (len - 4) (if capped then NlKind.nlmsghdr.size
        else max NlKind.nlmsghdr.size msg.nlmsgLen.toNat) = payload at done
      have room : 20 ≤ len := Nat.le_of_not_lt long
      have short := size ▸ Nat.min_le_left _ _
      have first : Range.Inside c.bits ⟨c.plus addr 4, payload⟩ ⟨addr, len⟩ :=
        c.plus_inside (by omega)
      split at done
      · cases done
      · next inner decoded =>
        have embedded := (messages _ _ _ inner (c.plus_lt addr 4) decoded).mono (fun _ => id) first
        have read : Decodes c.bits depth inMessage ⟨addr, len⟩ [.fetch .nlmsgerr addr] :=
          .single rfl ⟨mem_cons_self, 0, (Nat.mod_eq_of_lt small).symm,
            by simpa [NlKind.size] using room⟩
        have err := read.append (.payload first first first)
        have struct := ((Decodes.text (e := .structNext) rfl).append embedded).struct
        split at done
        · have rest : Range.Inside c.bits ⟨c.plus (c.plus addr 4) payload, len - 4 - payload⟩
              ⟨addr, len⟩ :=
            (c.plus_inside (Nat.le_of_eq (Nat.add_sub_cancel' short))).trans
              (c.plus_inside (by omega))
          split at done
          · cases done
          · next list listed =>
            obtain rfl := Option.some.inj done
            have among : [NlKind.nlattr] ⊆ inMessage := subset_cons_self _ _
            have attributes := (attrs _ _ list (c.plus_lt _ _) listed).mono among rest
            exact err.append (.array ((struct.append (.text rfl)).append
              (.append (.payload rest rest rest) attributes)))
        · obtain rfl := Option.some.inj done
          exact err.append struct

theorem decodePayload_decodes
    (messages : MessageSafe c (nlmsgErrorMaxNesting - (nesting + 1)) (nesting + 1) message)
    (attrs : ∀ depth, AttributesSafe c depth attributes) (small : addr < 2 ^ c.bits)
    (done : decodePayload c message attributes nlmsghdr addr len nesting = some events) :
    Decodes c.bits (nlmsgErrorMaxNesting - nesting) inMessage ⟨addr, len⟩ events := by
  unfold decodePayload at done
  split at done
  · split at done
    · obtain rfl := Option.some.inj done
      exact .text rfl
    · obtain ⟨inner, decoded, rfl⟩ := map_eq_some_iff.mp done
      have left :
        nlmsgErrorMaxNesting - nesting = nlmsgErrorMaxNesting - (nesting + 1) + 1 := by omega
      rw [left]
      exact (decodeNlmsgerr_decodes messages (attrs _) small decoded).error
  · split at done
    · obtain rfl := Option.some.inj done
      exact .nil
    · split at done
      · obtain rfl := Option.some.inj done
        split
        · exact .text rfl
        · exact .text rfl
      · obtain rfl := Option.some.inj done
        exact .text rfl

theorem decodeNlmsghdrWithPayload_decodes
    (done : decodeNlmsghdrWithPayload c fuel nlmsghdr addr len nesting = some events) :
    Decodes c.bits (nlmsgErrorMaxNesting - nesting) inMessage ⟨addr, len⟩ events := by
  induction fuel generalizing nlmsghdr addr len nesting events with
  | zero => cases done
  | succ fuel ih =>
    have next {depth : Nat} : Decodes c.bits depth inMessage ⟨addr, len⟩ [.structNext] := .text rfl
    have header {depth : Nat} : Decodes c.bits depth inMessage ⟨addr, len⟩ printNlmsghdr :=
      (next.append (next.append (next.append next))).struct
    unfold decodeNlmsghdrWithPayload at done
    dsimp only at done
    split at done
    · have part : Range.Inside c.bits ⟨c.plus addr NlKind.nlmsghdr.size,
          min nlmsghdr.nlmsgLen.toNat len - NlKind.nlmsghdr.size⟩ ⟨addr, len⟩ :=
        c.plus_inside (by omega)
      split at done
      · cases done
      · next inner decoded =>
        obtain rfl := Option.some.inj done
        have payload := decodePayload_decodes (fun msg addr len events _ => ih)
          (fun depth addr len events small listed => (decodeNlattr_safe small listed).toDecodes)
          (c.plus_lt addr _) decoded
        exact .array ((header.append (.text rfl)).append (.append
          (.payload (c.plus_inside (by omega)) part part) (payload.mono (fun _ => id) part)))
    · grind

theorem decodeNlmsgerr_isSome
    (messages : ∀ msg addr' len', len' ≤ len → (message msg addr' len' (nesting + 1)).isSome)
    (attrs : ∀ addr' len', addr' < 2 ^ c.bits → len' ≤ len → (attributes addr' len').isSome) :
    (decodeNlmsgerr c message attributes addr len capped nesting).isSome := by
  unfold decodeNlmsgerr
  split
  · rfl
  · split
    · rfl
    · next msg fetched =>
      dsimp only
      generalize size : min (len - 4) (if capped then NlKind.nlmsghdr.size
        else max NlKind.nlmsghdr.size msg.nlmsgLen.toNat) = payload
      obtain ⟨inner, decoded⟩ := isSome_iff_exists.mp
        (messages msg (c.plus addr 4) payload (by omega))
      obtain ⟨list, listed⟩ := isSome_iff_exists.mp
        (attrs (c.plus (c.plus addr 4) payload) (len - 4 - payload) (c.plus_lt _ _) (by omega))
      rw [decoded]
      dsimp only
      split
      · rw [listed]
        rfl
      · rfl

theorem decodePayload_isSome (messages : nesting < nlmsgErrorMaxNesting →
      ∀ msg addr' len', len' ≤ len → (message msg addr' len' (nesting + 1)).isSome)
    (attrs : ∀ addr' len', addr' < 2 ^ c.bits → len' ≤ len → (attributes addr' len').isSome) :
    (decodePayload c message attributes nlmsghdr addr len nesting).isSome := by
  unfold decodePayload
  split
  · grind [decodeNlmsgerr_isSome]
  · split
    · rfl
    · split <;> rfl

theorem decodeNlmsghdrWithPayload_ends (nlmsghdr : Nlmsghdr)
    (shallow : nesting ≤ nlmsgErrorMaxNesting)
    (enough : nlmsgErrorMaxNesting + len < fuel + nesting) :
    (decodeNlmsghdrWithPayload c fuel nlmsghdr addr len nesting).isSome := by
  induction fuel generalizing nlmsghdr addr len nesting with
  | zero => omega
  | succ fuel ih =>
    unfold decodeNlmsghdrWithPayload
    dsimp only
    split
    · have header : 0 < NlKind.nlmsghdr.size := by decide
      have ends : (decodePayload c (decodeNlmsghdrWithPayload c fuel)
          (decodeNlattr c c.nlmsgerrNlaDecoders fuel) nlmsghdr (c.plus addr NlKind.nlmsghdr.size)
          (min nlmsghdr.nlmsgLen.toNat len - NlKind.nlmsghdr.size) nesting).isSome := by
        refine decodePayload_isSome (fun deeper msg addr' len' le => ?_) fun addr' len' small le =>
          ?_
        · exact ih msg deeper (by omega)
        · exact decodeNlattr_ends _ small (by omega)
      obtain ⟨inner, decoded⟩ := isSome_iff_exists.mp ends
      rw [decoded]
      rfl
    · rfl

theorem messages_safe (fuel : Nat) : ElementSafe c (nlmsghdrSpec c) nlmsgErrorMaxNesting inMessage
    fun nlmsghdr addr len => decodeNlmsghdrWithPayload c fuel nlmsghdr addr len 0 :=
  ⟨(by decide : NlKind.nlmsghdr ∉ inMessage), fun _ _ _ _ => decodeNlmsghdrWithPayload_decodes⟩

theorem decodeNetlink_safe (small : addr < 2 ^ c.bits)
    (done : decodeNetlink c fuel addr len = some events) :
    ListSafe c .nlmsghdr nlmsgErrorMaxNesting inMessage ⟨addr, len⟩ events := by
  unfold decodeNetlink at done
  split at done
  · obtain rfl := Option.some.inj done
    have self : Range.Inside c.bits ⟨addr, len⟩ ⟨addr, len⟩ := Range.inside_self small
    exact ⟨.payload self self self, .nil, nofun, fun _ => Nat.zero_le _⟩
  · exact listLoop_safe (messages_safe fuel) (.begin small) done

theorem decodeNetlink_ends (small : addr < 2 ^ c.bits)
    (enough : nlmsgErrorMaxNesting + len < fuel) : (decodeNetlink c fuel addr len).isSome := by
  unfold decodeNetlink
  split
  · rfl
  · refine listLoop_ends (messages_safe fuel) (.begin small) (fun hdr addr' len' le => ?_) ?_
    · exact decodeNlmsghdrWithPayload_ends hdr (Nat.zero_le _) (Nat.lt_of_le_of_lt
        (Nat.add_le_add_left le _) enough)
    · show len < fuel
      omega

end

/-- Whatever the tracee's memory holds: `decode_netlink` and `decode_nlattr` end; the
headers of a list are read at increasing addresses in its buffer; what is handed on lies
in its element, in its buffer and in the whole; what begins also ends, and errors are
nested 8 levels deep at most; and an abbreviated list is cut after `max_strlen`
elements. -/
theorem netlink_decoders_safe (c : Env) (d : NlaDecoders) {addr len : Nat}
    (small : addr < 2 ^ c.bits) :
    (∀ fuel, len + 8 < fuel → (decodeNetlink c fuel addr len).isSome ∧
      (decodeNlattr c d fuel addr len).isSome) ∧
    (∀ fuel events, decodeNetlink c fuel addr len = some events →
      Nested 8 events ∧
      (events.filterMap (·.fetched .nlmsghdr)).Pairwise (· < ·) ∧
      (∀ a ∈ events.filterMap (·.fetched .nlmsghdr), addr ≤ a ∧ a + 16 ≤ addr + len) ∧
      (∀ element buffer handed, .payload element buffer handed ∈ events →
        handed.Inside c.bits element ∧ handed.Inside c.bits buffer ∧
          handed.Inside c.bits ⟨addr, len⟩) ∧
      (c.abbreviated = true → events.countP (·.isElement .nlmsghdr) ≤ c.maxStrlen.toNat)) ∧
    ∀ fuel events, decodeNlattr c d fuel addr len = some events →
      Nested 0 events ∧
      (events.filterMap (·.fetched .nlattr)).Pairwise (· < ·) ∧
      (∀ a ∈ events.filterMap (·.fetched .nlattr), addr ≤ a ∧ a + 4 ≤ addr + len) ∧
      (∀ element buffer handed, .payload element buffer handed ∈ events →
        handed.Inside c.bits element ∧ handed.Inside c.bits buffer ∧
          handed.Inside c.bits ⟨addr, len⟩) ∧
      (c.abbreviated = true → events.countP (·.isElement .nlattr) ≤ c.maxStrlen.toNat) := by
  refine ⟨fun fuel enough => ⟨?_, ?_⟩, fun fuel events done => ?_, fun fuel events done => ?_⟩
  · exact decodeNetlink_ends small (Nat.lt_of_le_of_lt (Nat.le_of_eq (Nat.add_comm _ _)) enough)
  · exact decodeNlattr_ends d small (by omega)
  · have safe := decodeNetlink_safe small done
    exact ⟨safe.nested, safe.sorted, safe.inside, fun _ _ _ mem => safe.fits _ mem, safe.bounded⟩
  · have safe : ListSafe c .nlattr 0 [] _ events := decodeNlattr_safe small done
    exact ⟨safe.nested, safe.sorted, safe.inside, fun _ _ _ mem => safe.fits _ mem, safe.bounded⟩

def errorsAllOver : Env where
  bits := 64
  abbreviated := true
  maxStrlen := 2
  nlmsghdr _ := some ⟨64, nlmsgError, 0⟩
  nlmsgerr _ := some ⟨64, nlmsgError, 0⟩
  nlattr _ := some ⟨8, 1⟩
  int _ := true
  netlinkDecoder := none
  nlmsgerrNlaDecoders := ⟨none, 4⟩
  wide := by decide
  strlen_small := by decide

/-- A third message is not decoded. -/
theorem netlink_decoders_safe_errors :
    ∃ events, decodeNetlink errorsAllOver 300 0x1000 256 = some events ∧ Nested 8 events ∧
      events.filterMap (·.fetched .nlmsghdr) = [0x1000, 0x1040, 0x1080] ∧
      events.countP (·.isElement .nlmsghdr) ≤ 2 :=
  have safe := netlink_decoders_safe errorsAllOver ⟨none, 0⟩ (by decide : 0x1000 < 2 ^ 64)
  have done : ∃ events, decodeNetlink errorsAllOver 300 0x1000 256 = some events ∧
      events.filterMap (·.fetched .nlmsghdr) = [0x1000, 0x1040, 0x1080] := ⟨_, rfl, rfl⟩
  done.elim fun events both =>
    have checked := safe.2.1 300 events both.1
    ⟨events, both.1, checked.1, both.2, checked.2.2.2.2 rfl⟩

end Strace.Netlink
