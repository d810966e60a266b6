import Strace.Output.Notices

/-! What a syscall prints is held back in a stream of its own until its status is
known, and then written to the log of its tcb or dropped. -/
namespace Strace.Staging
open List Output Runs
open Notices (Steady)

/-- The texts of a syscall. -/
def ofCall (call : Nat) (log : List Piece) : List Piece := log.filter (·.call = call)

structure Held (s : Output) (i : Nat) (data : StagedOutput) : Prop where
  outf : (s.tcbs i).outf = some (.mem data.mem)
  realOutf : data.realOutf = some (.log (s.tcbs i).log)
  mem : data.mem < s.nextMem
  text : s.mems data.mem = (s.tcbs i).text
  own : ∀ p ∈ (s.tcbs i).text, p.call = (s.tcbs i).call
  unseen : ∀ l, ofCall (s.tcbs i).call (s.logs l) = []

structure Exact (po : OutputOptions) (live : Nat → Prop) (s : Output) (c : Done) : Prop where
  begun : c.call < s.nextCall
  ended : ∀ i, live i → (s.tcbs i).call ≠ c.call
  written : ∀ l, ofCall c.call (s.logs l) =
    if publishes po c.failed = true ∧ l = c.log then c.text else []

structure Sound (po : OutputOptions) (live may : Nat → Prop) (s : Output) : Prop where
  once : s.overStaged = false
  may : ∀ i data, (s.tcbs i).stagedOutput = some data → live i ∧ may i
  free : ∀ i, ¬ live i → (s.tcbs i).outf = none
  plain : ∀ i, live i → (s.tcbs i).stagedOutput = none →
    (s.tcbs i).outf = some (.log (s.tcbs i).log)
  held : ∀ i data, (s.tcbs i).stagedOutput = some data → Held s i data
  mems : ∀ i j d e, (s.tcbs i).stagedOutput = some d → (s.tcbs j).stagedOutput = some e →
    d.mem = e.mem → i = j
  calls : ∀ i j, live i → live j → (s.tcbs i).call = (s.tcbs j).call → i = j
  begun : ∀ i, (s.tcbs i).call < s.nextCall
  logs : ∀ l, ∀ p ∈ s.logs l, p.call < s.nextCall
  done : ∀ c ∈ s.done, Exact po live s c
  distinct : s.done.Pairwise fun c d => c.call ≠ d.call

section
variable {po : OutputOptions} {x : Texts} {live may may' : Nat → Prop} {s u : Output} {i j : Nat}

theorem ofCall_append (call : Nat) (first second : List Piece) :
    ofCall call (first ++ second) = ofCall call first ++ ofCall call second :=
  filter_append ..

variable {call : Nat} {ps : List Piece} {data : StagedOutput} {t : TcbOut}

theorem ofCall_self (own : ∀ p ∈ ps, p.call = call) :
    ofCall call ps = ps := filter_eq_self.mpr fun p mem => by simp [own p mem]

theorem ofCall_other (other : ∀ p ∈ ps, p.call ≠ call) :
    ofCall call ps = [] := filter_eq_nil_iff.mpr fun p mem => by simp [other p mem]

theorem Sound.mono (sound : Sound po live may s) (allowed : ∀ i, may i → may' i) :
    Sound po live may' s :=
  { sound with may := fun i data staged => (sound.may i data staged).imp_right (allowed i) }

theorem Sound.unstaged (sound : Sound po live may s) (not : ¬ may i) :
    (s.tcbs i).stagedOutput = none := by
  by_contra staged
  obtain ⟨data, staged⟩ := Option.ne_none_iff_exists'.mp staged
  exact not (sound.may i data staged).2

theorem Sound.of_eq (sound : Sound po live may s) (tcbs : u.tcbs = s.tcbs) (logs : u.logs = s.logs)
    (mems : u.mems = s.mems) (nextMem : u.nextMem = s.nextMem) (nextCall : u.nextCall = s.nextCall)
    (done : u.done = s.done) (once : u.overStaged = s.overStaged) : Sound po live may u := by
  obtain ⟨⟩ := s
  subst tcbs logs mems nextMem nextCall done once
  exact ⟨sound.once, sound.may, sound.free, sound.plain,
    fun i data staged => { sound.held i data staged with }, sound.mems, sound.calls, sound.begun,
    sound.logs, fun c mem => { sound.done c mem with }, sound.distinct⟩

structure Change (po : OutputOptions) (live may may' : Nat → Prop) (i : Nat) (s u : Output) :
    Prop where
  other : ∀ j, j ≠ i → u.tcbs j = s.tcbs j
  allowed : ∀ j, j ≠ i → may j → may' j
  logs : ∀ l, ∃ added, u.logs l = s.logs l ++ added ∧ ∀ p ∈ added, live i ∧ p.call = (s.tcbs i).call
  mems : ∀ j data, j ≠ i → (s.tcbs j).stagedOutput = some data →
    u.mems data.mem = s.mems data.mem
  nextMem : s.nextMem ≤ u.nextMem
  nextCall : s.nextCall ≤ u.nextCall
  call : (u.tcbs i).call = (s.tcbs i).call ∨
    (u.tcbs i).call = s.nextCall ∧ s.nextCall < u.nextCall
  free : ¬ live i → (u.tcbs i).outf = none
  plain : live i → (u.tcbs i).stagedOutput = none →
    (u.tcbs i).outf = some (.log (u.tcbs i).log)
  held : ∀ data, (u.tcbs i).stagedOutput = some data → live i ∧ may' i ∧ Held u i data ∧
    (data.mem = s.nextMem ∨ (s.tcbs i).stagedOutput = some data)
  done : ∀ c ∈ u.done, c ∈ s.done ∨ Exact po live u c
  distinct : u.done.Pairwise fun c d => c.call ≠ d.call
  once : u.overStaged = false

theorem eq_of_apart {R : Nat → Nat → Prop} (left : ∀ k, k ≠ i → ¬ R i k)
    (right : ∀ j, j ≠ i → ¬ R j i) (others : ∀ j k, j ≠ i → k ≠ i → R j k → j = k) (j k : Nat)
    (related : R j k) : j = k := by
  by_cases first : j = i <;> by_cases second : k = i
  · rw [first, second]
  · grind
  · grind
  · exact others j k first second related

theorem of_others {P : Nat → TcbOut → Prop} (other : ∀ j, j ≠ i → u.tcbs j = s.tcbs j)
    (self : P i (u.tcbs i)) (others : ∀ j, j ≠ i → P j (s.tcbs j)) (j : Nat) : P j (u.tcbs j) := by
  by_cases eq : j = i
  · rw [eq]
    exact self
  · rw [other j eq]
    exact others j eq

theorem Held.congr (held : Held s j data) (tcb : u.tcbs j = s.tcbs j)
    (nextMem : s.nextMem ≤ u.nextMem) (mem : u.mems data.mem = s.mems data.mem)
    (logs : ∀ l, ofCall (s.tcbs j).call (u.logs l) = ofCall (s.tcbs j).call (s.logs l)) :
    Held u j data := by
  constructor
  case mem => exact Nat.lt_of_lt_of_le held.mem nextMem
  all_goals rw [tcb]
  · exact held.outf
  · exact held.realOutf
  · rw [mem, held.text]
  · exact held.own
  · simp [logs, held.unseen]

section
variable (change : Change po live may may' i s u) (sound : Sound po live may s)
include change

theorem Change.ofCall_log (l : Nat) {call : Nat} (different : live i → (s.tcbs i).call ≠ call) :
    ofCall call (u.logs l) = ofCall call (s.logs l) := by
  obtain ⟨added, log, own⟩ := change.logs l
  have new : ofCall call added = [] := by
    refine ofCall_other fun p mem => ?_
    rw [(own p mem).2]
    exact different (own p mem).1
  rw [log, ofCall_append, new, append_nil]

include sound

theorem Change.mem_ne {d e : StagedOutput} (different : j ≠ i)
    (staged : (u.tcbs i).stagedOutput = some d) (other : (u.tcbs j).stagedOutput = some e) :
    d.mem ≠ e.mem := by
  rw [change.other j different] at other
  rcases (change.held d staged).2.2.2 with new | old
  · rw [new]
    exact Nat.ne_of_gt (sound.held j e other).mem
  · exact fun same => different (sound.mems i j d e old other same).symm

theorem Change.call_ne (different : j ≠ i) (attached : live i) (other : live j) :
    (u.tcbs i).call ≠ (u.tcbs j).call := by
  rw [change.other j different]
  rcases change.call with same | ⟨new, -⟩
  · rw [same]
    exact fun eq => different (sound.calls i j attached other eq).symm
  · rw [new]
    exact Nat.ne_of_gt (sound.begun j)

theorem Change.begun (j : Nat) : (u.tcbs j).call < u.nextCall := by
  have begun (j : Nat) := Nat.lt_of_lt_of_le (sound.begun j) change.nextCall
  refine of_others (P := fun _ t => t.call < u.nextCall) change.other ?_ (fun j _ => begun j) j
  rcases change.call with same | ⟨new, grown⟩
  · rw [same]
    exact begun i
  · rw [new]
    exact grown

theorem Change.held_other {data : StagedOutput} (different : j ≠ i)
    (staged : (s.tcbs j).stagedOutput = some data) : Held u j data := by
  refine (sound.held j data staged).congr (change.other j different) change.nextMem
    (change.mems j data different staged) fun l => change.ofCall_log l ?_
  exact fun attached same =>
    different (sound.calls i j attached (sound.may j data staged).1 same).symm

theorem Change.exact {c : Done} (returned : c ∈ s.done) : Exact po live u c := by
  have exact := sound.done c returned
  refine ⟨Nat.lt_of_lt_of_le exact.begun change.nextCall, ?_, fun l => ?_⟩
  · refine of_others (P := fun j t => live j → t.call ≠ c.call) change.other (fun attached => ?_)
      fun j _ => exact.ended j
    rcases change.call with same | ⟨new, -⟩
    · rw [same]
      exact exact.ended i attached
    · rw [new]
      exact Nat.ne_of_gt exact.begun
  · rw [change.ofCall_log l (exact.ended i), exact.written]

end

theorem Change.sound (change : Change po live may may' i s u) (sound : Sound po live may s) :
    Sound po live may' u := by
  constructor
  case once => exact change.once
  case may =>
    intro j data staged
    by_cases eq : j = i
    · subst eq
      exact ⟨(change.held data staged).1, (change.held data staged).2.1⟩
    · rw [change.other j eq] at staged
      exact ⟨(sound.may j data staged).1, change.allowed j eq (sound.may j data staged).2⟩
  case free =>
    exact of_others (P := fun j t => ¬ live j → t.outf = none) change.other change.free
      fun j _ => sound.free j
  case plain =>
    exact of_others (P := fun j t => live j → t.stagedOutput = none → t.outf = some (.log t.log))
      change.other change.plain fun j _ => sound.plain j
  case held =>
    intro j data staged
    by_cases eq : j = i
    · subst eq
      exact (change.held data staged).2.2.1
    · rw [change.other j eq] at staged
      exact change.held_other sound eq staged
  case mems =>
    intro j k d e first second same
    refine eq_of_apart (i := i) (R := fun j k => ∃ d e, (u.tcbs j).stagedOutput = some d ∧
      (u.tcbs k).stagedOutput = some e ∧ d.mem = e.mem) ?_ ?_ ?_ j k ⟨d, e, first, second, same⟩
    · rintro k different ⟨d, e, first, second, same⟩
      exact change.mem_ne sound different first second same
    · rintro j different ⟨d, e, first, second, same⟩
      exact change.mem_ne sound different second first same.symm
    · rintro j k different different' ⟨d, e, first, second, same⟩
      rw [change.other j different] at first
      rw [change.other k different'] at second
      exact sound.mems j k d e first second same
  case calls =>
    intro j k first second same
    refine eq_of_apart (i := i) (R := fun j k => live j ∧ live k ∧
      (u.tcbs j).call = (u.tcbs k).call)
      ?_ ?_ ?_ j k ⟨first, second, same⟩
    · rintro k different ⟨first, second, same⟩
      exact change.call_ne sound different first second same
    · rintro j different ⟨first, second, same⟩
      exact change.call_ne sound different second first same.symm
    · rintro j k different different' ⟨first, second, same⟩
      rw [change.other j different, change.other k different'] at same
      exact sound.calls j k first second same
  case begun => exact change.begun sound
  case logs =>
    intro l p mem
    obtain ⟨added, log, own⟩ := change.logs l
    rw [log] at mem
    refine Nat.lt_of_lt_of_le ?_ change.nextCall
    rcases mem_append.mp mem with old | new
    · exact sound.logs l p old
    · rw [(own p new).2]
      exact sound.begun i
  case done =>
    intro c mem
    rcases change.done c mem with old | new
    · exact change.exact sound old
    · exact new
  case distinct => exact change.distinct

section
variable (sound : Sound po live may s)
include sound

theorem Sound.replace (call : t.call = (s.tcbs i).call)
    (free : ¬ live i → t.outf = none)
    (plain : live i → t.stagedOutput = none → t.outf = some (.log t.log))
    (held : ∀ data, t.stagedOutput = some data →
      (s.tcbs i).stagedOutput = some data ∧ Held (s.setTcb i t) i data) :
    Sound po live may (s.setTcb i t) := by
  have self := setTcb_tcbs_self s i t
  refine Change.sound (i := i) ?_ sound
  constructor
  case other => exact fun j different => setTcb_tcbs_other s t different
  case allowed => exact fun _ _ => id
  case logs => exact fun l => ⟨[], (append_nil _).symm, nofun⟩
  case mems => exact fun _ _ _ _ => rfl
  case nextMem | nextCall => exact Nat.le_refl _
  case call => exact .inl (by rw [self, call])
  case free =>
    rw [self]
    exact free
  case plain =>
    rw [self]
    exact plain
  case held =>
    rw [self]
    intro data staged
    obtain ⟨before, held⟩ := held data staged
    exact ⟨(sound.may i data before).1, (sound.may i data before).2, held, .inr before⟩
  case done => exact fun c mem => .inl mem
  case distinct => exact sound.distinct
  case once => exact sound.once

theorem Sound.setTcb (outf : t.outf = (s.tcbs i).outf)
    (staged : t.stagedOutput = (s.tcbs i).stagedOutput) (log : t.log = (s.tcbs i).log)
    (call : t.call = (s.tcbs i).call) (text : t.text = (s.tcbs i).text) :
    Sound po live may (s.setTcb i t) := by
  refine sound.replace call ?_ ?_ ?_
  · rw [outf]
    exact sound.free i
  · rw [outf, staged, log]
    exact sound.plain i
  · rw [staged]
    intro data held
    have before := sound.held i data held
    refine ⟨held, ?_⟩
    constructor
    case mem => exact before.mem
    all_goals rw [setTcb_tcbs_self]
    · rw [outf, before.outf]
    · rw [log, before.realOutf]
    · rw [text]
      exact before.text
    · rw [text, call]
      exact before.own
    · rw [call]
      exact before.unseen

theorem Sound.fprintf (text : String) :
    Sound po live may (s.fprintf i text) := by
  have self : (s.fprintf i text).tcbs i = { s.tcbs i with
      text := (s.tcbs i).text ++ [s.piece i text] } := setTcb_tcbs_self ..
  have mem (k : Nat) : (s.fprintf i text).mems k =
      if (s.tcbs i).outf = some (.mem k) then s.mems k ++ [s.piece i text] else s.mems k := rfl
  have log (l : Nat) : (s.fprintf i text).logs l =
      if (s.tcbs i).outf = some (.log l) then s.logs l ++ [s.piece i text] else s.logs l := rfl
  refine Change.sound (i := i) ?_ sound
  constructor
  case other => exact fun j different => setTcb_tcbs_other _ _ different
  case allowed => exact fun _ _ => id
  case logs =>
    intro l
    rw [log]
    split
    · next outf =>
      refine ⟨_, rfl, fun p new => ?_⟩
      rw [mem_singleton.mp new]
      refine ⟨?_, rfl⟩
      by_contra free
      rw [sound.free i free] at outf
      cases outf
    · exact ⟨[], (append_nil _).symm, nofun⟩
  case mems =>
    intro j data different other
    rw [mem, if_neg]
    intro outf
    by_cases attached : live i
    · cases staged : (s.tcbs i).stagedOutput with
      | none =>
        rw [sound.plain i attached staged] at outf
        cases outf
      | some d =>
        rw [(sound.held i d staged).outf] at outf
        exact different (sound.mems j i data d other staged (by simpa using outf.symm))
    · rw [sound.free i attached] at outf
      cases outf
  case nextMem | nextCall => exact Nat.le_refl _
  case call => exact .inl (by rw [self])
  case free =>
    intro free
    rw [self]
    exact sound.free i free
  case plain =>
    intro attached
    rw [self]
    exact sound.plain i attached
  case held =>
    intro data
    rw [self]
    intro staged
    have held := sound.held i data staged
    refine ⟨(sound.may i data staged).1, (sound.may i data staged).2, ?_, .inr staged⟩
    constructor
    · rw [self]
      exact held.outf
    · rw [self]
      exact held.realOutf
    · exact held.mem
    · rw [mem, self, if_pos held.outf, held.text]
    · rw [self]
      intro p mem
      rcases mem_append.mp mem with old | new
      · exact held.own p old
      · rw [mem_singleton.mp new]
        rfl
    · intro l
      rw [log, self, held.outf]
      exact held.unseen l
  case done => exact fun c mem => .inl mem
  case distinct => exact sound.distinct
  case once => exact sound.once

theorem Sound.prints (prints : s.Prints u) : Sound po live may u := by
  induction prints with
  | refl => exact sound
  | trans _ _ first second => exact second (first sound)
  | fprintf s i text => exact sound.fprintf text
  | curcol s i | reprint s i => exact sound.setTcb rfl rfl rfl rfl rfl
  | current | printing => exact sound.of_eq rfl rfl rfl rfl rfl rfl rfl
  | start s i =>
    refine Sound.setTcb ?_ rfl rfl rfl rfl rfl
    exact sound.of_eq rfl rfl rfl rfl rfl rfl rfl

end

/-! ## Opening and closing -/

theorem Sound.stage (sound : Sound po live may s) (attached : live i)
    (plain : (s.tcbs i).stagedOutput = none) :
    Sound po live (fun j => may j ∨ j = i) (s.straceOpenMemstream i) := by
  have self : (s.straceOpenMemstream i).tcbs i = { s.tcbs i with
      stagedOutput := some ⟨s.nextMem, (s.tcbs i).outf⟩
      outf := some (.mem s.nextMem)
      call := s.nextCall
      text := [] } := setTcb_tcbs_self ..
  have mem (k : Nat) : (s.straceOpenMemstream i).mems k =
      if k = s.nextMem then [] else s.mems k := rfl
  refine Change.sound (i := i) ?_ sound
  constructor
  case other => exact fun j different => setTcb_tcbs_other _ _ different
  case allowed => exact fun _ _ => .inl
  case logs => exact fun l => ⟨[], (append_nil _).symm, nofun⟩
  case mems =>
    intro j data _ staged
    rw [mem, if_neg (Nat.ne_of_lt (sound.held j data staged).mem)]
  case nextMem | nextCall => exact Nat.le_succ _
  case call => exact .inr ⟨by rw [self], Nat.lt_succ_self _⟩
  case free => exact fun free => absurd attached free
  case plain =>
    simp [self]
  case held =>
    intro data
    rw [self]
    rintro ⟨⟩
    refine ⟨attached, .inr rfl, ?_, .inl rfl⟩
    constructor
    · rw [self]
    · rw [self]
      exact sound.plain i attached plain
    · exact Nat.lt_succ_self _
    · rw [mem, if_pos rfl, self]
    · simp [self]
    · intro l
      rw [self]
      exact ofCall_other fun p mem => Nat.ne_of_lt (sound.logs l p mem)
  case done => exact fun c mem => .inl mem
  case distinct => exact sound.distinct
  case once =>
    change (s.overStaged || (s.tcbs i).stagedOutput.isSome) = false
    rw [sound.once, plain]
    rfl

structure Settled (live : Nat → Prop) (written : Bool) (i : Nat) (s : Output) : Prop where
  attached : live i
  plain : (s.tcbs i).stagedOutput = none
  own : ∀ p ∈ (s.tcbs i).text, p.call = (s.tcbs i).call
  logs : ∀ l, ofCall (s.tcbs i).call (s.logs l) =
    if written = true ∧ l = (s.tcbs i).log then (s.tcbs i).text else []

theorem close_logs (staged : (s.tcbs i).stagedOutput = some data) (held : Held s i data)
    (publish : Bool) (l : Nat) :
    (s.straceCloseMemstream i publish).logs l =
      s.logs l ++ if publish = true ∧ l = (s.tcbs i).log then (s.tcbs i).text else [] := by
  rw [Notices.straceCloseMemstream_logs]
  unfold Notices.stagedFor
  rw [staged]
  dsimp only
  rw [held.realOutf, held.text]
  cases publish with
  | false => simp
  | true => simp [eq_comm]

theorem close_tcb (staged : (s.tcbs i).stagedOutput = some data) (publish : Bool) :
    (s.straceCloseMemstream i publish).tcbs = (s.unstage i data).tcbs := by
  unfold straceCloseMemstream
  rw [staged]
  cases publish <;> rfl

theorem Sound.close (sound : Sound po live may s) (staged : (s.tcbs i).stagedOutput = some data)
    (publish : Bool) :
    Sound po live (fun j => may j ∧ j ≠ i) (s.straceCloseMemstream i publish) ∧
      Settled live publish i (s.straceCloseMemstream i publish) := by
  have held := sound.held i data staged
  have attached := (sound.may i data staged).1
  have log := close_logs staged held publish
  have self : (s.straceCloseMemstream i publish).tcbs i =
      { s.tcbs i with outf := data.realOutf, stagedOutput := none } := by
    rw [close_tcb staged]
    exact setTcb_tcbs_self ..
  have mems : (s.straceCloseMemstream i publish).mems = s.mems := by
    unfold straceCloseMemstream
    rw [staged]
    cases publish with
    | false => rfl
    | true =>
      funext k
      simp [Output.write, held.realOutf, Output.unstage, Output.setTcb]
  have same : (s.straceCloseMemstream i publish).nextMem = s.nextMem ∧
      (s.straceCloseMemstream i publish).nextCall = s.nextCall ∧
      (s.straceCloseMemstream i publish).done = s.done ∧
      (s.straceCloseMemstream i publish).overStaged = s.overStaged := by
    unfold straceCloseMemstream
    rw [staged]
    cases publish <;> exact ⟨rfl, rfl, rfl, rfl⟩
  have other (j : Nat) (different : j ≠ i) :
      (s.straceCloseMemstream i publish).tcbs j = s.tcbs j := by
    rw [close_tcb staged]
    exact setTcb_tcbs_other _ _ different
  generalize s.straceCloseMemstream i publish = u at log self mems same other
  refine ⟨Change.sound (i := i) ?_ sound, ⟨attached, by rw [self], ?_, ?_⟩⟩
  · constructor
    case other => exact other
    case allowed => exact fun j different allowed => ⟨allowed, different⟩
    case logs =>
      intro l
      refine ⟨_, log l, fun p mem => ⟨attached, ?_⟩⟩
      split at mem
      · exact held.own p mem
      · cases mem
    case mems => exact fun _ _ _ _ => congrFun mems _
    case nextMem => exact Nat.le_of_eq same.1.symm
    case nextCall => exact Nat.le_of_eq same.2.1.symm
    case call => exact .inl (by rw [self])
    case free => exact fun free => absurd attached free
    case plain =>
      intro _ _
      rw [self]
      exact held.realOutf
    case held =>
      rw [self]
      rintro _ ⟨⟩
    case done =>
      rw [same.2.2.1]
      exact fun c mem => .inl mem
    case distinct =>
      rw [same.2.2.1]
      exact sound.distinct
    case once => rw [same.2.2.2, sound.once]
  · rw [self]
    exact held.own
  · intro l
    rw [self, log, ofCall_append, held.unseen]
    split
    · exact ofCall_self held.own
    · rfl

theorem Settled.prints (settled : Settled live true i s) (sound : Sound po live may s)
    (prints : s.Prints u) : Settled live true i u := by
  have same {s u : Output} (settled : Settled live true i s) (logs : u.logs = s.logs)
      (staged : (u.tcbs i).stagedOutput = (s.tcbs i).stagedOutput)
      (call : (u.tcbs i).call = (s.tcbs i).call) (text : (u.tcbs i).text = (s.tcbs i).text)
      (log : (u.tcbs i).log = (s.tcbs i).log) : Settled live true i u := by
    refine ⟨settled.attached, staged.trans settled.plain, ?_, ?_⟩
    · rw [text, call]
      exact settled.own
    · rw [logs, call, text, log]
      exact settled.logs
  have adjusted {s : Output} (settled : Settled live true i s) {j : Nat} {t : TcbOut}
      (staged : t.stagedOutput = (s.tcbs j).stagedOutput) (call : t.call = (s.tcbs j).call)
      (text : t.text = (s.tcbs j).text) (log : t.log = (s.tcbs j).log) :
      Settled live true i (s.setTcb j t) := by
    by_cases eq : i = j
    · subst eq
      refine same settled rfl ?_ ?_ ?_ ?_ <;> rw [setTcb_tcbs_self] <;> assumption
    · refine same settled rfl ?_ ?_ ?_ ?_ <;> rw [setTcb_tcbs_other s t eq]
  induction prints with
  | refl => exact settled
  | trans first _ ih ih' => exact ih' (ih settled sound) (sound.prints first)
  | curcol | reprint => exact adjusted settled rfl rfl rfl rfl
  | current | printing => exact same settled rfl rfl rfl rfl rfl
  | start s j =>
    refine adjusted ?_ rfl rfl rfl rfl
    exact same settled rfl rfl rfl rfl rfl
  | fprintf s j text =>
    have log (l : Nat) : (s.fprintf j text).logs l =
        if (s.tcbs j).outf = some (.log l) then s.logs l ++ [s.piece j text] else s.logs l := rfl
    by_cases eq : i = j
    · subst eq
      have self : (s.fprintf i text).tcbs i = { s.tcbs i with
          text := (s.tcbs i).text ++ [s.piece i text] } := setTcb_tcbs_self ..
      refine ⟨settled.attached, by rw [self, settled.plain], ?_, ?_⟩
      · rw [self]
        intro p mem
        rcases mem_append.mp mem with old | new
        · exact settled.own p old
        · rw [mem_singleton.mp new]
          rfl
      · intro l
        have before := settled.logs l
        rw [log, self, sound.plain i settled.attached settled.plain]
        by_cases own : l = (s.tcbs i).log
        · subst own
          simp only [and_self] at before
          simp only [↓reduceIte, ofCall_append]
          congr 1
          exact ofCall_self fun p mem => by rw [mem_singleton.mp mem]; rfl
        · have different : ¬ (some (Stream.log (s.tcbs i).log) = some (.log l)) := by
            simpa [eq_comm] using own
          simp only [different, own, and_false, ↓reduceIte, before]
    · have self : (s.fprintf j text).tcbs i = s.tcbs i := setTcb_tcbs_other _ _ eq
      refine ⟨settled.attached, by rw [self, settled.plain], by rw [self]; exact settled.own, ?_⟩
      intro l
      rw [self, ← settled.logs l, log]
      split
      · next outf =>
        have attached : live j := by
          by_contra free
          rw [sound.free j free] at outf
          cases outf
        have other : ofCall (s.tcbs i).call [s.piece j text] = [] := by
          refine ofCall_other fun p mem call => ?_
          rw [mem_singleton.mp mem] at call
          exact eq (sound.calls i j settled.attached attached call.symm)
        rw [ofCall_append, other, append_nil]
      · rfl

theorem Sound.finish (sound : Sound po live may s) {failed : Bool}
    (settled : Settled live (publishes po failed) i s) :
    Sound po live may (s.finishCall i failed) := by
  have attached := settled.attached
  have self : (s.finishCall i failed).tcbs i = { s.tcbs i with
      call := s.nextCall
      text := [] } := setTcb_tcbs_self ..
  have other (j : Nat) (different : j ≠ i) : (s.finishCall i failed).tcbs j = s.tcbs j :=
    setTcb_tcbs_other _ _ different
  have done : (s.finishCall i failed).done =
      s.done ++ [⟨(s.tcbs i).call, (s.tcbs i).log, failed, (s.tcbs i).text⟩] := rfl
  refine Change.sound (i := i) ?_ sound
  constructor
  case other => exact other
  case allowed => exact fun _ _ => id
  case logs => exact fun l => ⟨[], (append_nil _).symm, nofun⟩
  case mems => exact fun _ _ _ _ => rfl
  case nextMem => exact Nat.le_refl _
  case nextCall => exact Nat.le_succ _
  case call => exact .inr ⟨by rw [self], Nat.lt_succ_self _⟩
  case free => exact fun free => absurd attached free
  case plain =>
    intro _ _
    rw [self]
    exact sound.plain i attached settled.plain
  case held =>
    simp [self, settled.plain]
  case done =>
    intro c mem
    rcases mem_append.mp mem with old | new
    · exact .inl old
    · rw [mem_singleton.mp new]
      refine .inr ⟨Nat.lt_succ_of_lt (sound.begun i), fun j live => ?_, settled.logs⟩
      by_cases eq : j = i
      · simpa [eq, self] using Nat.ne_of_gt (sound.begun i)
      · rw [other j eq]
        exact fun same => eq (sound.calls j i live attached same)
  case distinct =>
    rw [done, pairwise_append]
    refine ⟨sound.distinct, pairwise_singleton _ _, ?_⟩
    intro c mem d new
    rw [mem_singleton.mp new]
    exact ((sound.done c mem).ended i attached).symm
  case once => exact sound.once

/-! ## Tcbs that come and go -/

structure StartsOver (live live' : Nat → Prop) (i : Nat) (s u : Output) : Prop where
  other : ∀ j, j ≠ i → u.tcbs j = s.tcbs j
  attached : ∀ j, j ≠ i → (live' j ↔ live j)
  unstaged : (u.tcbs i).stagedOutput = none
  free : ¬ live' i → (u.tcbs i).outf = none
  plain : live' i → (u.tcbs i).outf = some (.log (u.tcbs i).log)
  fresh : live' i → (u.tcbs i).call = s.nextCall
  begun : (u.tcbs i).call < u.nextCall
  nextCall : s.nextCall ≤ u.nextCall
  logs : u.logs = s.logs
  mems : u.mems = s.mems
  nextMem : u.nextMem = s.nextMem
  done : u.done = s.done
  once : u.overStaged = s.overStaged

section
variable {live' : Nat → Prop} (new : StartsOver live live' i s u)
include new

variable {data : StagedOutput}

theorem StartsOver.staged (staged : (u.tcbs j).stagedOutput = some data) :
    j ≠ i ∧ (s.tcbs j).stagedOutput = some data := by
  have different : j ≠ i := by
    intro eq
    rw [eq, new.unstaged] at staged
    cases staged
  rw [new.other j different] at staged
  exact ⟨different, staged⟩

theorem StartsOver.held (different : j ≠ i) (before : Held s j data) : Held u j data :=
  before.congr (new.other j different) (Nat.le_of_eq new.nextMem.symm) (by rw [new.mems])
    fun l => by rw [new.logs]

theorem StartsOver.exact {c : Done} (exact : Exact po live s c) : Exact po live' u c := by
  refine ⟨Nat.lt_of_lt_of_le exact.begun new.nextCall, ?_, ?_⟩
  · refine of_others (P := fun j t => live' j → t.call ≠ c.call) new.other (fun attached => ?_)
      fun j eq attached => exact.ended j ((new.attached j eq).mp attached)
    rw [new.fresh attached]
    exact Nat.ne_of_gt exact.begun
  · simp [new.logs, exact.written]

theorem StartsOver.sound (sound : Sound po live may s) :
    Sound po live' (fun j => may j ∧ j ≠ i) u := by
  have fresh {j : Nat} (attached : live' i) (different : j ≠ i) :
      (u.tcbs i).call ≠ (u.tcbs j).call := by
    rw [new.fresh attached, new.other j different]
    exact Nat.ne_of_gt (sound.begun j)
  constructor
  case once => rw [new.once, sound.once]
  case may =>
    intro j data held
    obtain ⟨different, held⟩ := new.staged held
    obtain ⟨attached, allowed⟩ := sound.may j data held
    exact ⟨(new.attached j different).mpr attached, allowed, different⟩
  case free =>
    exact of_others (P := fun j t => ¬ live' j → t.outf = none) new.other new.free
      fun j eq free => sound.free j (mt (new.attached j eq).mpr free)
  case plain =>
    exact of_others (P := fun j t => live' j → t.stagedOutput = none → t.outf = some (.log t.log))
      new.other (fun attached _ => new.plain attached)
      fun j eq attached => sound.plain j ((new.attached j eq).mp attached)
  case held =>
    intro j data held
    obtain ⟨different, held⟩ := new.staged held
    exact new.held different (sound.held j data held)
  case mems =>
    intro j k d e first second
    exact sound.mems j k d e (new.staged first).2 (new.staged second).2
  case calls =>
    intro j k first second same
    refine eq_of_apart (i := i) (R := fun j k => live' j ∧ live' k ∧
      (u.tcbs j).call = (u.tcbs k).call)
      ?_ ?_ ?_ j k ⟨first, second, same⟩
    · rintro k different ⟨first, -, same⟩
      exact fresh first different same
    · rintro j different ⟨-, second, same⟩
      exact fresh second different same.symm
    · rintro j k different different' ⟨first, second, same⟩
      rw [new.other j different, new.other k different'] at same
      exact sound.calls j k ((new.attached j different).mp first)
        ((new.attached k different').mp second) same
  case begun =>
    exact of_others (P := fun _ t => t.call < u.nextCall) new.other new.begun
      fun j _ => Nat.lt_of_lt_of_le (sound.begun j) new.nextCall
  case logs =>
    intro l p mem
    rw [new.logs] at mem
    exact Nat.lt_of_lt_of_le (sound.logs l p mem) new.nextCall
  case done =>
    intro c mem
    rw [new.done] at mem
    exact new.exact (sound.done c mem)
  case distinct =>
    rw [new.done]
    exact sound.distinct

end

section
variable (sound : Sound po live may s)
include sound

theorem Sound.forget :
    Sound po (fun j => live j ∧ j ≠ i) (fun j => may j ∧ j ≠ i) (s.forget i) := by
  have self : (s.forget i).tcbs i = {} := setTcb_tcbs_self ..
  refine StartsOver.sound ?_ sound
  constructor
  case other => exact fun j different => setTcb_tcbs_other _ _ different
  case attached => exact fun j different => and_iff_left different
  case unstaged => rw [self]
  case free =>
    intro _
    rw [self]
  case plain | fresh => exact fun attached => absurd rfl attached.2
  case begun =>
    rw [self]
    exact Nat.lt_of_le_of_lt (Nat.zero_le _) (sound.begun i)
  case nextCall => exact Nat.le_refl _
  case logs | mems | nextMem | done | once => rfl

theorem Sound.attach (separately : Bool) :
    Sound po (fun j => live j ∨ j = i) (fun j => may j ∧ j ≠ i) (s.attach i separately) := by
  have self : (s.attach i separately).tcbs i = {
      outf := some (.log (if separately then s.nextLog else 0))
      log := if separately then s.nextLog else 0
      tracee := s.nextTracee
      line := s.nextLine
      call := s.nextCall } := setTcb_tcbs_self ..
  refine StartsOver.sound ?_ sound
  constructor
  case other => exact fun j different => setTcb_tcbs_other _ _ different
  case attached => exact fun j different => or_iff_left different
  case unstaged => rw [self]
  case free => exact fun away => absurd (.inr rfl) away
  case plain | fresh =>
    intro _
    rw [self]
  case begun =>
    rw [self]
    exact Nat.lt_succ_self _
  case nextCall => exact Nat.le_succ _
  case logs | mems | nextMem | done | once => rfl

theorem Sound.closeStaged (filters : po.filtersStatus = true)
    (publish : Bool) : Sound po live (fun j => may j ∧ j ≠ i) (s.closeStaged po i publish) := by
  unfold Output.closeStaged
  rw [if_pos filters]
  cases staged : (s.tcbs i).stagedOutput with
  | none =>
    have same : s.straceCloseMemstream i publish = s := by
      simp [staged, straceCloseMemstream]
    rw [same]
    refine { sound with may := fun j data held => ?_ }
    refine (sound.may j data held).imp_right fun allowed => ⟨allowed, ?_⟩
    rintro rfl
    rw [staged] at held
    cases held
  | some data => exact (sound.close staged publish).1

theorem Sound.droptcb (filters : po.filtersStatus = true) :
    Sound po (fun j => live j ∧ j ≠ i) (fun j => may j ∧ j ≠ i) (s.droptcb po i) := by
  unfold Output.droptcb closeOutput
  split
  · exact sound.forget
  · dsimp only
    have closed := sound.closeStaged (i := i) filters (!po.filtersStatus || po.hasStatus .detached)
    have forgets {u : Output} (closed : Sound po live (fun j => may j ∧ j ≠ i) u) :
        Sound po (fun j => live j ∧ j ≠ i) (fun j => may j ∧ j ≠ i) (u.forget i) :=
      closed.forget.mono fun _ => And.left
    split
    · exact forgets (closed.fprintf _)
    · exact forgets closed

theorem Sound.relog (attached : live i)
    (staged : t.stagedOutput = none) (outf : t.outf = some (.log t.log))
    (call : t.call = (s.tcbs i).call) : Sound po live may (s.setTcb i t) := by
  refine sound.replace call (fun free => absurd attached free) (fun _ _ => outf) ?_
  rw [staged]
  exact nofun

end

theorem swapped_droptcb (filters : po.filtersStatus = true) (different : j ≠ i) {stream : Stream}
    (outf : (s.tcbs j).outf = some stream) : (s.swapOutput i j).droptcb po i =
      ((s.straceCloseMemstream j (po.hasStatus .detached)).forget i).setTcb j { s.tcbs j with
        outf := (s.tcbs i).outf
        stagedOutput := (s.tcbs i).stagedOutput
        curcol := (s.tcbs i).curcol
        log := (s.tcbs i).log } := by
  have leader : (s.swapOutput i j).tcbs i = { s.tcbs i with
      outf := (s.tcbs j).outf
      stagedOutput := (s.tcbs j).stagedOutput
      curcol := 0
      log := (s.tcbs j).log } := setTcb_tcbs_self ..
  have closed : (s.swapOutput i j).closeOutput po i =
      (s.swapOutput i j).straceCloseMemstream i (po.hasStatus .detached) := by
    unfold closeOutput Output.closeStaged
    simp only [leader, outf, filters, ↓reduceIte, Bool.not_true, Bool.false_or,
      Notices.straceCloseMemstream_curcol, ne_eq, not_true_eq_false, false_and, and_false]
  have tcbs (u : Output) (k : Nat) (others : ∀ k, k ≠ i → u.tcbs k = (s.swapOutput i j).tcbs k)
      (v : Output) (same : ∀ k, k ≠ j → v.tcbs k = s.tcbs k) :
      (u.forget i).tcbs k = ((v.forget i).setTcb j { s.tcbs j with
        outf := (s.tcbs i).outf
        stagedOutput := (s.tcbs i).stagedOutput
        curcol := (s.tcbs i).curcol
        log := (s.tcbs i).log }).tcbs k := by
    by_cases eq : k = j
    · subst eq
      rw [setTcb_tcbs_self]
      refine (setTcb_tcbs_other _ _ different).trans ((others k different).trans ?_)
      unfold Output.swapOutput
      rw [setTcb_tcbs_other _ _ different, setTcb_tcbs_self]
    · rw [setTcb_tcbs_other _ _ eq]
      unfold Output.forget
      by_cases eq' : k = i
      · subst eq'
        rw [setTcb_tcbs_self, setTcb_tcbs_self]
      · rw [setTcb_tcbs_other _ _ eq', setTcb_tcbs_other _ _ eq']
        refine (others k eq').trans (Eq.trans ?_ (same k eq).symm)
        unfold Output.swapOutput
        rw [setTcb_tcbs_other _ _ eq', setTcb_tcbs_other _ _ eq]
  unfold Output.droptcb
  rw [closed]
  unfold straceCloseMemstream
  rw [leader]
  cases staged : (s.tcbs j).stagedOutput with
  | none =>
    exact Output.ext (funext fun k => tcbs _ k (fun _ _ => rfl) s fun _ _ => rfl) rfl rfl
      rfl rfl rfl
      rfl rfl rfl rfl rfl rfl
  | some data =>
    dsimp only
    split
    all_goals
      refine Output.ext (funext fun k => tcbs _ k ?_ _ ?_) rfl rfl rfl rfl rfl rfl rfl rfl
        rfl rfl rfl
      · exact fun k other => setTcb_tcbs_other _ _ other
      · exact fun k other => setTcb_tcbs_other _ _ other

theorem Sound.streaming (sound : Sound po live may s) (attached : live i) :
    ∃ stream, (s.tcbs i).outf = some stream := by
  cases staged : (s.tcbs i).stagedOutput with
  | none => exact ⟨_, sound.plain i attached staged⟩
  | some data => exact ⟨_, (sound.held i data staged).outf⟩

theorem Sound.maybeSwitchTcbs (sound : Sound po live may s) (filters : po.filtersStatus = true)
    (stats : po.onlyStats = false) (leader : live i) (attached : live j) (different : j ≠ i)
    (plain : (s.tcbs i).stagedOutput = none) (allowed : may j) (pid oldPid : Nat) :
    Sound po (fun k => live k ∧ k ≠ i) (fun k => may k ∧ k ≠ i)
      (s.maybeSwitchTcbs po x i j pid oldPid) := by
  have changed := pidChanged_prints s j pid
  have plain := (Steady.of_prints changed i).stagedOutput.trans plain
  have sound := sound.prints changed
  obtain ⟨stream, outf⟩ := sound.streaming attached
  have closed := sound.closeStaged (i := j) filters (po.hasStatus .detached)
  unfold Output.closeStaged at closed
  rw [if_pos filters] at closed
  have dropped := closed.forget (i := i)
  have call : (((s.pidChanged j pid).straceCloseMemstream j (po.hasStatus .detached)).forget i
      |>.tcbs j).call = ((s.pidChanged j pid).tcbs j).call := by
    refine (congrArg TcbOut.call (setTcb_tcbs_other _ _ different)).trans ?_
    unfold straceCloseMemstream
    cases (s.pidChanged j pid |>.tcbs j).stagedOutput with
    | none => rfl
    | some data =>
      have unstaged : (((s.pidChanged j pid).unstage j data).tcbs j).call =
          ((s.pidChanged j pid).tcbs j).call := by
        unfold Output.unstage
        rw [setTcb_tcbs_self]
      dsimp only
      split <;> exact unstaged
  have switched := dropped.relog ⟨attached, different⟩ (t := {
    (s.pidChanged j pid).tcbs j with
    outf := ((s.pidChanged j pid).tcbs i).outf
    stagedOutput := ((s.pidChanged j pid).tcbs i).stagedOutput
    curcol := ((s.pidChanged j pid).tcbs i).curcol
    log := ((s.pidChanged j pid).tcbs i).log }) plain (sound.plain i leader plain) call.symm
  rw [← swapped_droptcb filters different outf] at switched
  unfold Output.maybeSwitchTcbs
  simp only [stats]
  have noticed : ((((s.pidChanged j pid).swapOutput i j).droptcb po i)).Prints
      (if po.quiet quietThreadExecve then ((s.pidChanged j pid).swapOutput i j).droptcb po i
      else (((s.pidChanged j pid).swapOutput i j).droptcb po i).printNotice po x j
        ("+++ superseded by execve in pid " ++ toString oldPid ++ " +++")) := by
    split
    · exact .refl _
    · exact (printNotice_speaks po x _ j _).prints
  have printed := switched.prints noticed
  have unstaged := printed.unstaged fun allowed => allowed.1.2 rfl
  unfold Output.openStaged
  rw [if_pos filters]
  have staged := (printed.stage ⟨attached, different⟩ unstaged).prints (.reprint _ j true)
  refine staged.mono fun k => ?_
  rintro (before | rfl)
  · exact ⟨before.1.1, before.2⟩
  · exact ⟨allowed, different⟩

end

end Strace.Staging
