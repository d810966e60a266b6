import Strace.Output.Dispatched
import Strace.Output.Staging

/-! A filter for the status of syscalls is exact: what a syscall prints is written
to the log of its tcb once or not at all. -/
namespace Strace.Staging
open Output Runs
open Notices (Steady)

section
variable {po : OutputOptions} {o : Options} {a : Answers} {x : Texts} {live may may' : Nat → Prop}
  {s u : Output} {i j : Nat}

/-! ## What an event does -/

section
variable (sound : Sound po live may s) (filters : po.filtersStatus = true)
include sound filters

theorem Sound.syscallEnteringTrace (attached : live i) (plain : (s.tcbs i).stagedOutput = none)
    (filtered : Bool) :
    Sound po live (fun j => may j ∨ j = i ∧ filtered = false)
      (s.syscallEnteringTrace po x filtered i) := by
  unfold Output.syscallEnteringTrace Output.openStaged
  split
  · exact sound.mono fun _ => .inl
  · next shown =>
    have staged := (sound.stage attached plain).prints
      ((syscallEnteringFailed_speaks po x _ i).prints.trans (tprintsString_prints _ x.args))
    exact staged.mono fun j => .imp_right fun eq =>
      ⟨eq, by simpa using (Bool.or_eq_false_iff.mp (Bool.eq_false_iff.mpr shown)).1⟩

omit sound filters in
theorem lineEnded_tcb (s : Output) (i : Nat) : s.lineEnded.logs = s.logs ∧
    ∃ curcol, s.lineEnded.tcbs i = { s.tcbs i with curcol } := by
  have ended (u : Output) (j : Nat) : ∃ curcol, (u.setCurcol j 0).tcbs i =
      { u.tcbs i with curcol } := by
    unfold setCurcol
    by_cases eq : i = j
    · rw [eq, setTcb_tcbs_self]
      exact ⟨0, rfl⟩
    · rw [setTcb_tcbs_other _ _ eq]
      exact ⟨_, rfl⟩
  have current : s.endCurrent.logs = s.logs ∧
      ∃ curcol, s.endCurrent.tcbs i = { s.tcbs i with curcol } := by
    unfold endCurrent
    split
    · exact ⟨rfl, _, rfl⟩
    · exact ⟨rfl, ended s _⟩
  obtain ⟨logs, curcol, tcb⟩ := current
  unfold lineEnded endPrinting
  split
  · exact ⟨logs, curcol, tcb⟩
  · next p _ =>
    obtain ⟨curcol', tcb'⟩ := ended s.endCurrent p
    exact ⟨logs, curcol', tcb'.trans (by rw [tcb])⟩

omit sound filters in
theorem Settled.lineEnded {written : Bool} (settled : Settled live written i s) :
    Settled live written i s.lineEnded := by
  obtain ⟨logs, curcol, tcb⟩ := lineEnded_tcb s i
  refine ⟨settled.attached, ?_, ?_, ?_⟩ <;> rw [tcb]
  · exact settled.plain
  · exact settled.own
  · rw [logs]
    exact settled.logs

theorem Sound.syscallExitingTrace (stats : po.onlyStats = false) (res : Int) (t : Tcb)
    (staged : res = 1 → (s.tcbs i).stagedOutput ≠ none) :
    Sound po live (fun j => may j ∧ j ≠ i) (s.syscallExitingTrace po x res t i) := by
  have resumed := (printSyscallResume_speaks po x s i).prints
  unfold Output.syscallExitingTrace
  rw [stats]
  dsimp only
  split
  · next contra => exact absurd contra (by decide)
  · split
    · have result := resumed.trans (printResult_speaks po _ i " ? <unavailable>").prints
      exact ((sound.prints result).closeStaged filters _).prints
        (lineEnded_prints _)
    · next read =>
      have printed := resumed.trans (tprintsString_prints _ x.exitArgs)
      have steady := Steady.of_prints printed i
      obtain ⟨data, held⟩ := Option.ne_none_iff_exists'.mp (staged (not_not.mp read))
      obtain ⟨closed, settled⟩ := (sound.prints printed).close (steady.stagedOutput.trans held)
        (publishes po (decide (t.uError ≠ 0)))
      unfold Output.closeStaged
      rw [filters]
      cases published : publishes po (decide (t.uError ≠ 0)) with
      | false =>
        rw [published] at closed settled
        exact (closed.prints (lineEnded_prints _)).finish (published ▸ settled.lineEnded)
      | true =>
        rw [published] at closed settled
        have returned := (printReturned_speaks po x
          (((s.printSyscallResume po x i).tprintsString x.exitArgs).straceCloseMemstream i true)
            i).prints
        exact (closed.prints returned).finish (published ▸ settled.prints closed returned)

theorem Sound.printEventExit (t : Tcb) : Sound po live may (s.printEventExit po x t i) := by
  unfold Output.printEventExit
  split
  · exact sound
  · have closed {u : Output} (prints : s.Prints u) :
        Sound po live may ((u.closeStaged po i (po.hasStatus .unfinished)).lineEnded) :=
      (((sound.prints prints).closeStaged filters _).prints (lineEnded_prints _)).mono
        fun _ => And.left
    refine closed ((interruptOther_speaks po s i).prints.trans
      ((printSyscallResume_speaks po x _ i).prints.trans ?_))
    refine .trans ?_ (printResult_speaks po _ i _).prints
    split
    · exact (tprintsString_prints _ _).trans (tprintsString_prints _ _)
    · exact .refl _

theorem Sound.traceSyscall (stats : po.onlyStats = false) (attached : live i) {r : Stop}
    (before : may i → r.tcb.insyscall = true ∧ r.tcb.filtered = false)
    (staged : r.tcb.insyscall = true → r.tcb.filtered = false → a.regsRead = true →
      (s.tcbs i).stagedOutput ≠ none)
    (others : ∀ j, j ≠ i → may j → may' j)
    (after : (Strace.traceSyscall o a r).1.tcb.insyscall = true →
      (Strace.traceSyscall o a r).1.tcb.filtered = false → may' i) :
    Sound po live may' (s.traceSyscall po o a x r i) := by
  have noted := (notePersonality_speaks po a x s i r.tcb).prints
  have elsewhere (outside : ¬ may i) (j : Nat) (allowed : may j) : may' j :=
    others j (fun eq => outside (eq ▸ allowed)) allowed
  have still {u : Output} (prints : s.Prints u) (outside : ¬ may i) : Sound po live may' u :=
    (sound.prints prints).mono (elsewhere outside)
  unfold Output.traceSyscall
  cases inside : r.tcb.insyscall with
  | false =>
    have outside : ¬ may i := fun allowed => absurd (before allowed).1 (by simp [inside])
    have entering : r.tcb.entering = true := by simp [Tcb.entering, inside]
    rw [if_pos entering]
    dsimp only
    split
    · exact still noted outside
    · split
      · next res =>
        have entered : (Strace.traceSyscall o a r).1 = syscallEnteringFinish
            (Strace.syscallEnteringTrace o a (syscallEnteringDecode o a r).1).2
            (Strace.syscallEnteringTrace o a (syscallEnteringDecode o a r).1).1 := by
          unfold Strace.traceSyscall
          simp [entering, res]
        have traced := (sound.prints noted).syscallEnteringTrace (x := x) filters attached
          ((sound.prints noted).unstaged outside)
          (Strace.syscallEnteringTrace o a (syscallEnteringDecode o a r).1).1.tcb.filtered
        refine traced.mono fun j => ?_
        rintro (allowed | ⟨rfl, shown⟩)
        · exact elsewhere outside j allowed
        · exact after (by rw [entered]; rfl) (by rw [entered]; exact shown)
      · exact still (noted.trans (syscallEnteringFailed_speaks po x _ i).prints) outside
  | true =>
    have exiting : ¬ r.tcb.entering = true := by simp [Tcb.entering, inside]
    rw [if_neg exiting]
    cases filtered : r.tcb.filtered with
    | true => exact still (.refl s) fun allowed => absurd (before allowed).2 (by simp [filtered])
    | false =>
      have read (res : (syscallExitingDecode a r).2 = 1) : a.regsRead = true := by
        rw [syscallExitingDecode_res, filtered] at res
        by_contra unread
        simp [unread] at res
      have traced := (sound.prints noted).syscallExitingTrace (x := x) filters stats
        (syscallExitingDecode a r).2
        (Strace.syscallExitingTrace o a (syscallExitingDecode a r).2
          (syscallExitingDecode a r).1).1.tcb
        fun res => by
          rw [(Steady.of_prints noted i).stagedOutput]
          exact staged inside filtered (read res)
      exact traced.mono fun j allowed => others j allowed.2 allowed.1

end

end

/-! ## Runs -/

/-- What keeps the stages matched. The condition is only sufficient: it also excludes a result that
is read without a staged output (its entry could not be read, or an exit event closed the stream)
although its text, which then went to the log directly, is right there if its status is in
`status_set`. -/
def Matched (o : Options) (m : System) : SystemEvent → Prop
  | .dispatch a _ wd i =>
    (wd.te = .stopBeforeExecve → ∀ thread, m.tracer.execveThread o i = some thread →
      (m.out.tcbs i).stagedOutput = none ∧ m.tracer.busy thread) ∧
    (Tracer.IsSyscallStop o m.tracer wd i → m.tracer.busy i → a.regsRead = true →
      (m.out.tcbs i).stagedOutput ≠ none)
  | .attach _ | .startup _ _ _ | .other => True

section
variable {po : OutputOptions} {o : Options} {a : Answers} {x : Texts} {tracer : Tracer}
  {s : Output} {i : Nat} {wd : WaitData} {m m' : System} {event : SystemEvent}

theorem Sound.congr {live live' may may' : Nat → Prop} (sound : Sound po live may s)
    (same : ∀ j, live' j ↔ live j) (allowed : ∀ j, may j → may' j) : Sound po live' may' s := by
  obtain rfl : live' = live := funext fun j => propext (same j)
  exact sound.mono allowed

theorem Sound.shown {tracer' : Tracer} (sound : Sound po tracer.live tracer.busy s)
    (shown : tracer.Shown tracer') : Sound po tracer'.live tracer'.busy s :=
  sound.congr shown.live fun j => (shown.busy j).mpr

theorem Sound.dropped (sound : Sound po tracer.live tracer.busy s)
    (filters : po.filtersStatus = true) (attached : tracer.live i) :
    Sound po (tracer.droptcb i).live (tracer.droptcb i).busy (s.droptcb po i) :=
  (sound.droptcb filters).congr (Tracer.droptcb_live attached)
    fun j => (Tracer.droptcb_busy attached j).mpr

theorem Sound.kept (filters : po.filtersStatus = true) :
    Kept po fun tracer s => Sound po tracer.live tracer.busy s where
  shown := Sound.shown
  speaks sound speaks := sound.prints speaks.prints
  dropped sound attached := sound.dropped filters attached

theorem Sound.traced (sound : Sound po tracer.live tracer.busy s)
    (filters : po.filtersStatus = true) (stats : po.onlyStats = false) (attached : tracer.live i)
    (staged : tracer.busy i → a.regsRead = true → (s.tcbs i).stagedOutput ≠ none) :
    Sound po (tracer.traceSyscallOf o a i 0).1.live (tracer.traceSyscallOf o a i 0).1.busy
      (s.traceSyscall po o a x (tracer.stopOf i 0) i) := by
  suffices traced : Sound po tracer.live (tracer.traceSyscallOf o a i 0).1.busy
      (s.traceSyscall po o a x (tracer.stopOf i 0) i) from
    traced.congr (Tracer.traceSyscallOf_live 0) fun _ => id
  refine sound.traceSyscall filters stats attached id
    (fun inside shown => staged ⟨inside, shown⟩) ?_ ?_
  · intro j different busy
    unfold Tracer.busy
    rw [Tracer.traceSyscallOf_other different]
    exact busy
  · intro inside shown
    unfold Tracer.busy
    rw [Tracer.traceSyscallOf_self]
    exact ⟨inside, shown⟩

theorem Sound.dispatchCurrent (sound : Sound po tracer.live tracer.busy s)
    (filters : po.filtersStatus = true) (stats : po.onlyStats = false) (attached : tracer.live i)
    (replaced : wd.te = .stopBeforeExecve → ∀ thread, tracer.execveThread o i = some thread →
      (s.tcbs i).stagedOutput = none ∧ tracer.busy thread)
    (staged : Tracer.IsSyscallStop o tracer wd i → tracer.busy i → a.regsRead = true →
      (s.tcbs i).stagedOutput ≠ none) :
    Sound po (tracer.dispatchCurrent o a wd i).1.live (tracer.dispatchCurrent o a wd i).1.busy
      (s.dispatchCurrent po o a x tracer wd i) := by
  refine (Sound.kept filters).dispatchCurrent sound attached
    (fun stop => sound.traced filters stats attached (staged stop)) (sound.printEventExit filters _)
    (fun u shown outside sound => ?_) ?_
  · exact sound.traced filters stats ((shown.live i).mpr attached) fun busy => absurd busy outside
  · intro te u j shown found leader thread different sound pid oldPid
    obtain ⟨plain, busy⟩ := replaced te j found
    exact (sound.maybeSwitchTcbs filters stats leader thread different plain
      ((shown.busy j).mpr busy) pid oldPid).congr (Tracer.switchTcbs_live leader thread different)
      fun k => (Tracer.switchTcbs_busy leader different k).mpr

theorem step_sound (filters : po.filtersStatus = true) (stats : po.onlyStats = false)
    (sound : Sound po m.tracer.live m.tracer.busy m.out) (matched : Matched o m event)
    (moved : SystemStep po o m event m') : Sound po m'.tracer.live m'.tracer.busy m'.out := by
  cases moved with
  | dispatch a x wd i live =>
    have current : Sound po (m.tracer.setCurrentTcp (some i)).live
        (m.tracer.setCurrentTcp (some i)).busy (m.out.setCurrentTcp (some i)) :=
      sound.prints (.current _ _)
    exact current.dispatchCurrent filters stats live matched.1 matched.2
  | attach i t free pid outside =>
    refine (sound.attach po.outputSeparately).congr (Tracer.setTcb_live pid) ?_
    rintro j ⟨busy, different⟩
    unfold Tracer.busy System.attach
    rw [Tracer.setTcb_tcbtab_other _ _ different]
    exact busy
  | startup a x i live =>
    refine Sound.shown ?_ Tracer.startupTcb_shown
    unfold System.startup
    split
    · exact sound.prints (notePersonality_speaks po a x _ i _).prints
    · exact sound
  | other tracer shown => exact sound.shown shown

theorem sound_initial (initial : m.Initial) : Sound po m.tracer.live m.tracer.busy m.out := by
  rw [initial.out]
  constructor
  case once => rfl
  case may | held | mems | logs | done => exact nofun
  case free => exact fun _ _ => rfl
  case plain => exact fun i attached => absurd (initial.free i) attached
  case calls => exact fun i _ attached => absurd (initial.free i) attached
  case begun => exact fun _ => Nat.zero_lt_one
  case distinct => exact .nil

end

/-- With a filter for the status, in every state that is reached by matched steps: what
a syscall that has returned has printed is in the log of its tcb and nowhere else if
its status is in the set, and in no log otherwise; no stream is staged twice, and what
is staged for a tcb is for its log. -/
theorem filter_exact (po : OutputOptions) (o : Options) (filters : po.filtersStatus = true)
    (stats : po.onlyStats = false) (m : System)
    (run : Run System.Initial (SystemStep po o) (Matched o) m) :
    (∀ c ∈ m.out.done, ∀ l, ofCall c.call (m.out.logs l) =
      if publishes po c.failed = true ∧ l = c.log then c.text else []) ∧
      (m.out.done.Pairwise fun c d => c.call ≠ d.call) ∧ m.out.overStaged = false ∧
      ∀ i data, (m.out.tcbs i).stagedOutput = some data →
        data.realOutf = some (.log (m.out.tcbs i).log) := by
  have sound :=
    run.invariant (P := fun m => Sound po m.tracer.live m.tracer.busy m.out) (fun _ initial =>
      sound_initial initial) fun _ _ _ sound matched moved => step_sound filters stats sound matched
      moved
  refine ⟨fun c mem => (sound.done c mem).written, sound.distinct, sound.once, ?_⟩
  exact fun i data staged => (sound.held i data staged).realOutf

/-! ## An execve that is not traced -/

/-- A tracee that has made a syscall. -/
def oneReturned : System :=
  ((System.attach successful {} 0 { pid := 7 }).dispatch successful oneCall {} {} 0
    { te := .syscallStop }).dispatch successful oneCall {} {} 0 { te := .syscallStop }

/-- The syscall has succeeded, so its text is in the log. -/
theorem filter_exact_returned : oneReturned.out.done.length = 1 ∧
    ∀ c ∈ oneReturned.out.done, ∀ l, ofCall c.call (oneReturned.out.logs l) =
      if publishes successful c.failed = true ∧ l = c.log then c.text else [] := by
  refine ⟨by decide, (filter_exact successful oneCall (by decide) rfl _ ?_).1⟩
  refine .next (.next (.next (.start System.initial_default) ?_
    (.attach {} 0 { pid := 7 } rfl (by decide) rfl)) ?_
    (.dispatch _ {} {} { te := .syscallStop } 0 (by decide))) ?_
    (.dispatch _ {} {} { te := .syscallStop } 0 (by decide))
  · trivial
  · exact ⟨nofun, fun _ busy => absurd busy.1 (by decide)⟩
  · exact ⟨nofun, fun _ _ _ => by decide⟩

def untracedExecve : Options where
  supportedPersonalities := 1
  auditArchVec _ := ⟨0xc000003e, 0⟩
  nsyscallVec _ := 2
  sysentVec _ n := if n = 1 then { sen := .execve } else {}
  traceSet := some fun _ => ⟨[1], false⟩

def twoTcbs : Tracer where
  tcbtabsize := 2
  tcbWaitTab _ := { te := .stopBeforeExecve, msg := 8 }

def dispatched (scno : Nat) (te : TraceEvent) (i : Nat) (m : System) : System :=
  m.dispatch successful untracedExecve { scno := .number scno } {} i { te }

def replacedLeader : System :=
  dispatched 1 .stopBeforeExecve 0 <| dispatched 1 .syscallStop 1 <|
    ((System.mk twoTcbs {}).attach successful 0 { pid := 7 }).attach successful 1 { pid := 8 }

def afterExecve : System :=
  dispatched 0 .syscallStop 1 <| dispatched 0 .syscallStop 1 <| dispatched 1 .syscallStop 1
    replacedLeader

theorem afterExecve_run :
    Run System.Initial (SystemStep successful untracedExecve) (fun _ _ => True) afterExecve := by
  have started : Run System.Initial (SystemStep successful untracedExecve) (fun _ _ => True)
      (((System.mk twoTcbs {}).attach successful 0 { pid := 7 }).attach successful 1
        { pid := 8 }) :=
    .next (.next (.start ⟨fun _ => rfl, rfl⟩) trivial (.attach _ 0 _ rfl (by decide) rfl)) trivial
      (.attach _ 1 _ rfl (by decide) rfl)
  have replaced : Run System.Initial (SystemStep successful untracedExecve) (fun _ _ => True)
      replacedLeader :=
    .next (.next started trivial (.dispatch _ _ {} { te := .syscallStop } 1 (by decide))) trivial
      (.dispatch _ _ {} { te := .stopBeforeExecve } 0 (by decide))
  exact .next (.next (.next replaced trivial
    (.dispatch _ _ {} { te := .syscallStop } 1 (by decide))) trivial
    (.dispatch _ _ {} { te := .syscallStop } 1 (by decide))) trivial
    (.dispatch _ _ {} { te := .syscallStop } 1 (by decide))

/-- After an execve of a thread that is not traced, a syscall that succeeds is
not in the log. -/
theorem execve_diverts_output : ¬ ∀ (po : OutputOptions) (o : Options) (m : System),
    po.filtersStatus = true → po.onlyStats = false →
    Run System.Initial (SystemStep po o) (fun _ _ => True) m →
    ∀ c ∈ m.out.done, ∀ l, ofCall c.call (m.out.logs l) =
      if publishes po c.failed = true ∧ l = c.log then c.text else [] := by
  intro stated
  have exact := stated successful untracedExecve afterExecve (by decide) rfl afterExecve_run
  have lost : ¬ ∀ c ∈ afterExecve.out.done, ofCall c.call (afterExecve.out.logs 0) =
      if publishes successful c.failed = true ∧ 0 = c.log then c.text else [] := by decide
  exact lost fun c mem => exact c mem 0

end Strace.Staging
