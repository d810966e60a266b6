import Strace.Qualify.When
import Strace.Runs
import Strace.Tracer.Injection

/-! The counters of an injection count the invocations of a syscall by one
tracee, for runs of any length. -/
namespace Strace.WhenExpr
open Runs

def counted (e : WhenExpr) (n : Nat) : Nat := min n (e.last.getD n)

def waiting (e : WhenExpr) (n : Nat) : Nat :=
  if e.counted n < e.first then e.first - e.counted n
  else if e.step = 0 then 0
  else e.step - (e.counted n - e.first) % e.step

/-- The counter `last` after `n` invocations. -/
def remaining (e : WhenExpr) (n : Nat) : Nat :=
  match e.last with
  | none => 0xffff
  | some l => l - n

structure Counts (e : WhenExpr) (n : Nat) (opts : InjectOpts) : Prop where
  first : opts.first.toNat = e.waiting n
  last : opts.last.toNat = e.remaining n
  step : opts.step.toNat = e.step

section
variable {e : WhenExpr} {opts : InjectOpts} {n : Nat}

theorem step_le (e : WhenExpr) : e.step ≤ 0xffff := by
  unfold step Stride.step
  split
  · split <;> omega
  · omega
  · next m stride => exact (e.stride_bounds m stride).2

theorem last_of_step_zero (zero : e.step = 0) : e.last = none := by
  cases last : e.last with
  | none => rfl
  | some l =>
    unfold step at zero
    cases stride : e.stride with
    | plain => simp [Stride.step, stride, last] at zero
    | every => simp [Stride.step, stride] at zero
    | steps m =>
      have bounds := e.stride_bounds m stride
      simp only [Stride.step, stride] at zero
      omega

theorem counters_counts (e : WhenExpr) (fopts : InjectOpts) : e.Counts 0 (e.counters fopts) := by
  have bounds := e.first_bounds
  refine ⟨(toNat_toUInt16 bounds.2).trans ?_, ?_, toNat_toUInt16 e.step_le⟩
  · grind [waiting, counted]
  · unfold counters remaining
    cases last : e.last with
    | none => rfl
    | some l => exact toNat_toUInt16 (Nat.le_of_lt (e.last_bounds l last).2)

theorem toNat_sub_one {x : UInt16} (positive : x ≠ 0) : (x - 1).toNat = x.toNat - 1 := by
  have bound : (1 : UInt16) ≤ x := by
    have : x.toNat ≠ 0 := fun zero => positive (UInt16.toNat_inj.mp zero)
    exact Nat.one_le_iff_ne_zero.mpr this
  exact UInt16.toNat_sub_of_le x 1 bound

theorem countInvocation_spent (spent : opts.first.toNat = 0 ∨ opts.last.toNat = 0) :
    countInvocation opts = (opts, false) := by
  have zero : opts.first = 0 ∨ opts.last = 0 :=
    spent.imp (fun h => UInt16.toNat_inj.mp h) (fun h => UInt16.toNat_inj.mp h)
  unfold countInvocation
  rw [if_pos zero]

theorem countInvocation_live (first : opts.first ≠ 0) (last : opts.last ≠ 0) :
    countInvocation opts = ({ opts with
      last := if opts.last = injectLastInf then opts.last else opts.last - 1
      first := if opts.first - 1 = 0 then opts.step else opts.first - 1 },
      decide (opts.first - 1 = 0)) := by
  unfold countInvocation
  rw [if_neg (not_or.mpr ⟨first, last⟩)]
  by_cases unbounded : opts.last = injectLastInf <;> by_cases chosen : opts.first - 1 = 0 <;>
    simp [unbounded, chosen]

theorem countInvocation_keeps (opts : InjectOpts) :
    (countInvocation opts).1.step = opts.step ∧ (countInvocation opts).1.data = opts.data := by
  unfold countInvocation
  dsimp only
  repeat' split
  all_goals exact ⟨rfl, rfl⟩

theorem counted_live (live : ∀ l ∈ e.last, n ≤ l) : e.counted n = n := by
  unfold counted
  cases last : e.last with
  | none => exact Nat.min_self n
  | some l => exact Nat.min_eq_left (live l last)

theorem remaining_live (live : ∀ l ∈ e.last, n + 1 ≤ l) : e.remaining n ≠ 0 ∧
    e.remaining (n + 1) = if e.remaining n = 0xffff then 0xffff else e.remaining n - 1 := by
  unfold remaining
  cases last : e.last with
  | none => simp
  | some l =>
    have bounds := e.last_bounds l last
    have := live l last
    dsimp only
    rw [if_neg (by omega)]
    omega

theorem succ_mod (k : Nat) {d : Nat} (positive : 0 < d) :
    (k + 1) % d = if k % d + 1 = d then 0 else k % d + 1 := by
  have below := Nat.mod_lt k positive
  rw [← Nat.mod_add_mod]
  split
  · next last => rw [last, Nat.mod_self]
  · exact Nat.mod_eq_of_lt (by omega)

theorem waiting_early (early : n < e.first) : e.waiting n = e.first - n := by
  have live (l : Nat) (mem : l ∈ e.last) : n ≤ l := by
    have := e.last_bounds l mem
    omega
  unfold waiting
  rw [counted_live live, if_pos early]

theorem waiting_late (live : ∀ l ∈ e.last, n ≤ l) (late : e.first ≤ n) (some : e.step ≠ 0) :
    e.waiting n = e.step - (n - e.first) % e.step := by
  unfold waiting
  rw [counted_live live, if_neg (by omega), if_neg some]

theorem waiting_zero (live : ∀ l ∈ e.last, n ≤ l) :
    e.waiting n = 0 ↔ e.first ≤ n ∧ e.step = 0 := by
  by_cases early : n < e.first
  · rw [waiting_early early]
    omega
  · by_cases zero : e.step = 0
    · grind [waiting, counted_live]
    · rw [waiting_late live (by omega) zero]
      have below := Nat.mod_lt (n - e.first) (Nat.pos_of_ne_zero zero)
      omega

theorem waiting_live (live : ∀ l ∈ e.last, n + 1 ≤ l) (some : e.waiting n ≠ 0) :
    (e.waiting (n + 1) = if e.waiting n = 1 then e.step else e.waiting n - 1) ∧
      (e.waiting n = 1 ↔ e.Selects (n + 1)) := by
  have before (l : Nat) (mem : l ∈ e.last) : n ≤ l := Nat.le_of_succ_le (live l mem)
  unfold Selects
  rcases Nat.lt_trichotomy (n + 1) e.first with early | now | late
  · grind [waiting_early]
  · have one : e.waiting n = 1 := by rw [waiting_early (by omega)]; omega
    refine ⟨?_, fun _ => ⟨by omega, live, .inl now⟩, fun _ => one⟩
    rw [if_pos one]
    by_cases zero : e.step = 0
    · rw [zero]
      exact (waiting_zero live).mpr ⟨by omega, zero⟩
    · rw [waiting_late live (by omega) zero, now, Nat.sub_self, Nat.zero_mod, Nat.sub_zero]
  · have nonzero : e.step ≠ 0 := fun zero => some ((waiting_zero before).mpr ⟨by omega, zero⟩)
    have positive := Nat.pos_of_ne_zero nonzero
    have shift : n + 1 - e.first = (n - e.first) + 1 := by omega
    rw [waiting_late live (by omega) nonzero, waiting_late before (by omega) nonzero, shift,
      Nat.dvd_iff_mod_eq_zero, succ_mod _ positive]
    by_cases last : (n - e.first) % e.step + 1 = e.step
    · rw [if_pos last, if_pos (by omega)]
      exact ⟨Nat.sub_zero _, fun _ => ⟨by omega, live, .inr ⟨nonzero, rfl⟩⟩, fun _ => by omega⟩
    · rw [if_neg last, if_neg (by omega)]
      exact ⟨by omega, fun h => by omega, fun h => by omega⟩

variable (counts : e.Counts n opts)
include counts

theorem countInvocation_past {l : Nat} (last : e.last = some l)
    (past : l ≤ n) : e.Counts (n + 1) (countInvocation opts).1 ∧
      ((countInvocation opts).2 = true ↔ e.Selects (n + 1)) := by
  have still (k : Nat) (past : l ≤ k) : e.remaining k = 0 ∧ e.counted k = l := by
    unfold remaining counted
    rw [last]
    exact ⟨Nat.sub_eq_zero_of_le past, Nat.min_eq_right past⟩
  obtain ⟨zero, here⟩ := still n past
  obtain ⟨zero', there⟩ := still (n + 1) (by omega)
  rw [countInvocation_spent (.inr (counts.last.trans zero))]
  refine ⟨⟨?_, ?_, counts.step⟩, nofun, ?_⟩
  · simp [counts.first, here, there, waiting]
  · rw [counts.last, zero, zero']
  · intro selects
    have bound := selects.2.1 l last
    omega

theorem countInvocation_done (late : e.first ≤ n) (zero : e.step = 0) :
    e.Counts (n + 1) (countInvocation opts).1 ∧
      ((countInvocation opts).2 = true ↔ e.Selects (n + 1)) := by
  have unbounded := last_of_step_zero zero
  have none := (waiting_zero (by simp [unbounded])).mpr ⟨late, zero⟩
  have none' := (waiting_zero (n := n + 1) (by simp [unbounded])).mpr ⟨by omega, zero⟩
  rw [countInvocation_spent (.inl (counts.first.trans none))]
  refine ⟨⟨by rw [counts.first, none, none'], ?_, counts.step⟩, nofun, ?_⟩
  · simp [counts.last, remaining, unbounded]
  · intro selects
    rcases selects.2.2 with first | nonzero
    · omega
    · exact absurd zero nonzero.1

theorem countInvocation_counted (live : ∀ l ∈ e.last, n + 1 ≤ l)
    (some : e.waiting n ≠ 0) : e.Counts (n + 1) (countInvocation opts).1 ∧
      ((countInvocation opts).2 = true ↔ e.Selects (n + 1)) := by
  obtain ⟨remains, less⟩ := remaining_live live
  obtain ⟨next, chosen⟩ := waiting_live live some
  have first : opts.first ≠ 0 := fun zero => some (by rw [← counts.first, zero]; rfl)
  have last : opts.last ≠ 0 := fun zero => remains (by rw [← counts.last, zero]; rfl)
  have one : opts.first - 1 = 0 ↔ e.waiting n = 1 := by
    rw [← UInt16.toNat_inj, toNat_sub_one first, counts.first]
    change e.waiting n - 1 = 0 ↔ _
    omega
  have inf : opts.last = injectLastInf ↔ e.remaining n = 0xffff := by
    rw [← counts.last]
    exact UInt16.toNat_inj.symm
  rw [countInvocation_live first last]
  refine ⟨⟨?_, ?_, counts.step⟩, ?_⟩
  · rw [next, apply_ite UInt16.toNat, toNat_sub_one first, counts.first, counts.step]
    exact if_congr one rfl rfl
  · rw [less, apply_ite UInt16.toNat, toNat_sub_one last, counts.last]
    by_cases unbounded : opts.last = injectLastInf
    · rw [if_pos unbounded, if_pos (inf.mp unbounded), inf.mp unbounded]
    · rw [if_neg unbounded, if_neg fun full => unbounded (inf.mpr full)]
  · rw [decide_eq_true_iff, one, chosen]

theorem countInvocation_counts :
    e.Counts (n + 1) (countInvocation opts).1 ∧
      ((countInvocation opts).2 = true ↔ e.Selects (n + 1)) := by
  by_cases live : ∀ l ∈ e.last, n + 1 ≤ l
  · by_cases none : e.waiting n = 0
    · obtain ⟨late, zero⟩ := (waiting_zero fun l mem => Nat.le_of_succ_le (live l mem)).mp none
      exact countInvocation_done counts late zero
    · exact countInvocation_counted counts live none
  · push Not at live
    obtain ⟨l, last, past⟩ := live
    exact countInvocation_past counts last (by omega)

end

/-! ## The options of a tracee -/

theorem injectEntering_injectVec (o : Options) (a : Answers) (data : InjectData) (s : Stop) :
    (injectEntering o a data s).tcb.injectVec = s.tcb.injectVec := by
  have signal (s : Stop) : (injectSignal data s).tcb.injectVec = s.tcb.injectVec := by
    unfold injectSignal
    split <;> rfl
  have scno (s : Stop) : (injectScno o a data s).tcb.injectVec = s.tcb.injectVec := by
    grind [injectScno]
  have pokeEnter (s : Stop) : (injectPokeEnter a data s).tcb.injectVec = s.tcb.injectVec := by
    unfold injectPokeEnter
    split <;> rfl
  have pokeExit (s : Stop) : (injectPokeExit data s).tcb.injectVec = s.tcb.injectVec := by
    unfold injectPokeExit
    split <;> rfl
  have delayEnter (s : Stop) : (injectDelayEnter o a data s).tcb.injectVec = s.tcb.injectVec := by
    unfold injectDelayEnter
    split <;> rfl
  have delayExit (s : Stop) : (injectDelayExit data s).tcb.injectVec = s.tcb.injectVec := by
    unfold injectDelayExit
    split <;> rfl
  unfold injectEntering
  rw [delayExit, delayEnter, pokeExit, pokeEnter, scno, signal]

theorem tamperWithSyscallEntering_injectVec (o : Options) (a : Answers) (s : Stop) :
    (tamperWithSyscallEntering o a s).tcb.injectVec = (countedStop o s).tcb.injectVec := by
  rw [tamperWithSyscallEntering_eq]
  cases selection o s with
  | none => rfl
  | some data => exact injectEntering_injectVec o a data _

def optsOf (o : Options) (vec : Nat → Option (Nat → InjectOpts)) (p n : Nat) : InjectOpts :=
  (vec p).getD (o.injectVec p) n

section
variable {o : Options} {s : Stop} {p n : Nat}

theorem copyInjectVec_self : (copyInjectVec o s).tcb.injectVec s.personality =
    some ((s.tcb.injectVec s.personality).getD (o.injectVec s.personality)) := if_pos rfl

theorem copyInjectVec_optsOf :
    optsOf o (copyInjectVec o s).tcb.injectVec p n = optsOf o s.tcb.injectVec p n := by
  unfold optsOf
  by_cases here : p = s.personality
  · simp [here, copyInjectVec_self]
  · have other : (copyInjectVec o s).tcb.injectVec p = s.tcb.injectVec p := if_neg here
    rw [other]

theorem setInjectOpts_optsOf (opts : InjectOpts) :
    optsOf o (setInjectOpts opts (copyInjectVec o s)).tcb.injectVec p n =
      if p = s.personality ∧ n = s.tcb.scno then opts else optsOf o s.tcb.injectVec p n := by
  by_cases here : p = s.personality
  · have self : (setInjectOpts opts (copyInjectVec o s)).tcb.injectVec s.personality =
        ((copyInjectVec o s).tcb.injectVec s.personality).map
          fun vec n => if n = s.tcb.scno then opts else vec n := if_pos rfl
    rw [copyInjectVec_self] at self
    unfold optsOf
    rw [here, self]
    simp
  · have other : (setInjectOpts opts (copyInjectVec o s)).tcb.injectVec p =
        (copyInjectVec o s).tcb.injectVec p := if_neg here
    rw [if_neg fun both => here both.1, ← copyInjectVec_optsOf (s := s)]
    unfold optsOf
    rw [other]

theorem tcbInjectOpts_optsOf : tcbInjectOpts o (copyInjectVec o s) =
    if scnoInRange o s.tcb.scno s.personality then
      some (optsOf o s.tcb.injectVec s.personality s.tcb.scno)
    else none := by
  have found : ((copyInjectVec o s).tcb.injectVec (copyInjectVec o s).personality).map
      (· (copyInjectVec o s).tcb.scno) =
        some (optsOf o s.tcb.injectVec s.personality s.tcb.scno) :=
    congrArg (Option.map (· s.tcb.scno)) copyInjectVec_self
  unfold tcbInjectOpts
  rw [found]
  rfl

theorem countedStop_optsOf (range : scnoInRange o n p) :
    optsOf o (countedStop o s).tcb.injectVec p n =
      if p = s.personality ∧ n = s.tcb.scno then
        (countInvocation (optsOf o s.tcb.injectVec p n)).1
      else optsOf o s.tcb.injectVec p n := by
  unfold countedStop
  rw [tcbInjectOpts_optsOf]
  by_cases found : scnoInRange o s.tcb.scno s.personality = true
  · rw [if_pos found]
    rw [setInjectOpts_optsOf]
    split
    · next both => rw [both.1, both.2]
    · rfl
  · grind [copyInjectVec_optsOf]

end

/-! ## Runs -/

structure Tracee where
  injectVec : Nat → Option (Nat → InjectOpts) := fun _ => none
  calls : Nat → Nat → Nat := fun _ _ => 0

inductive Step (o : Options) : Tracee → Answers × Stop → Tracee → Prop
  | call (m : Tracee) (a : Answers) (s : Stop) (own : s.tcb.injectVec = m.injectVec) :
      Step o m (a, s) {
        injectVec := (tamperWithSyscallEntering o a s).tcb.injectVec
        calls := fun p n =>
          if p = s.personality ∧ n = s.tcb.scno then m.calls p n + 1 else m.calls p n }

/-- A tracee that has made no syscall yet. -/
def Fresh (m : Tracee) : Prop := m = {}

section
variable {e : WhenExpr} {o : Options} {p n : Nat} {data : InjectData}

structure Valid (e : WhenExpr) (o : Options) (p n : Nat) (data : InjectData) (m : Tracee) :
    Prop where
  counts : e.Counts (m.calls p n) (optsOf o m.injectVec p n)
  data : (optsOf o m.injectVec p n).data = data

theorem step_valid {m m' : Tracee} {x : Answers × Stop} (range : scnoInRange o n p)
    (valid : Valid e o p n data m) (moved : Step o m x m') : Valid e o p n data m' := by
  cases moved with
  | call a s own =>
    have after :=
      (congrArg (optsOf o · p n) (tamperWithSyscallEntering_injectVec o a s)).trans
        (countedStop_optsOf range)
    rw [own] at after
    by_cases here : p = s.personality ∧ n = s.tcb.scno
    · rw [if_pos here] at after
      constructor
      · simp only [after, if_pos here]
        exact (countInvocation_counts valid.counts).1
      · simpa [after] using (countInvocation_keeps _).2.trans valid.data
    · rw [if_neg here] at after
      constructor
      · simp only [after, if_neg here]
        exact valid.counts
      · simpa [after] using valid.data

theorem Valid.selection {m : Tracee} {s : Stop} (range : scnoInRange o n p)
    (valid : Valid e o p n data m) (own : s.tcb.injectVec = m.injectVec) (here : s.personality = p)
    (this : s.tcb.scno = n) (normal : s.tcb.recovering = false) :
    selection o s = if e.Selects (m.calls p n + 1) then some data else none := by
  subst here this
  have selected := (countInvocation_counts valid.counts).2
  unfold Strace.selection
  rw [tcbInjectOpts_optsOf, if_pos range, own]
  dsimp only
  rw [valid.data, normal, Bool.not_false, Bool.and_true]
  exact if_congr selected rfl rfl

end

/-- For every accepted `when=` token, and in every run: the counters of a tracee
are the numbers that its invocations leave, without wrapping around, and
`tamper_with_syscall_entering` injects into an invocation exactly if the
expression asks for it. -/
theorem injects_iff_selects (o : Options) (p n : Nat) (range : n < (o.nsyscallVec p).toNat)
    (text : List Char) (fopts opts : InjectOpts) (data : InjectData)
    (accepted : parseWhen text fopts = some opts)
    (installed : o.injectVec p n = { opts with data := data }) :
    ∃ e : WhenExpr, e.Spells text ∧ ∀ m, Run Fresh (Step o) (fun _ _ => True) m →
      e.Counts (m.calls p n) (optsOf o m.injectVec p n) ∧
      ∀ (a : Answers) (s : Stop), s.tcb.injectVec = m.injectVec → s.personality = p →
        s.tcb.scno = n → s.tcb.recovering = false →
        tamperWithSyscallEntering o a s =
          if e.Selects (m.calls p n + 1) then injectEntering o a data (countedStop o s)
          else countedStop o s := by
  obtain ⟨e, spells, rfl⟩ := parseWhen_spelled accepted
  have inRange := decide_eq_true range
  refine ⟨e, spells, ?_⟩
  intro m run
  have valid : Valid e o p n data m := by
    refine run.invariant ?_ fun _ _ _ valid _ moved => step_valid inRange valid moved
    rintro _ rfl
    have start : optsOf o (fun _ => none) p n = { e.counters fopts with data := data } := installed
    have counts := counters_counts e fopts
    exact ⟨start ▸ ⟨counts.first, counts.last, counts.step⟩, start ▸ rfl⟩
  refine ⟨valid.counts, ?_⟩
  intro a s own here this normal
  rw [tamperWithSyscallEntering_eq, valid.selection inRange own here this normal]
  by_cases selects : e.Selects (m.calls p n + 1)
  · simp only [if_pos selects]
  · simp only [if_neg selects]

def everyThird : Options where
  supportedPersonalities := 1
  auditArchVec _ := ⟨0xc000003e, 0⟩
  nsyscallVec _ := 3
  sysentVec _ _ := {}
  injectVec _ n := if n = 1 then ⟨2, injectLastInf, 3, { error := true }⟩ else {}

theorem injects_iff_selects_everyThird :
    parseWhen ['2', '+', '3'] {} = some ⟨2, injectLastInf, 3, {}⟩ ∧
    ∃ e : WhenExpr, e.Spells ['2', '+', '3'] ∧
      ∀ m, Run Fresh (Step everyThird) (fun _ _ => True) m →
        e.Counts (m.calls 0 1) (optsOf everyThird m.injectVec 0 1) ∧
        ∀ (a : Answers) (s : Stop), s.tcb.injectVec = m.injectVec → s.personality = 0 →
          s.tcb.scno = 1 → s.tcb.recovering = false →
          tamperWithSyscallEntering everyThird a s =
            if e.Selects (m.calls 0 1 + 1) then
              injectEntering everyThird a { error := true } (countedStop everyThird s)
            else countedStop everyThird s :=
  ⟨by decide, injects_iff_selects everyThird 0 1 (by decide) ['2', '+', '3'] {}
    ⟨2, injectLastInf, 3, {}⟩ { error := true } (by decide) rfl⟩

end Strace.WhenExpr
