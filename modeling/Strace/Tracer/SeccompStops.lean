import Strace.Runs
import Strace.Seccomp.Agreement
import Strace.Tracer.Dispatch
import Strace.Tracer.Injection

/-! One tracee under a seccomp filter. The kernel reports the stops of each
syscall in the order that `dispatch_event` describes, depending on the verdict
of the filter and on how the tracee was restarted last; the tracer answers each
stop with `dispatch_event`. -/
namespace Strace.SeccompStops
open List Tracer Runs
open Seccomp

structure Syscall where
  number : Nat
  trace : Bool
  deriving DecidableEq, Repr

inductive Stage where
  | outside
  | first
  | second
  | body
  | gone
  deriving DecidableEq, Repr

structure Machine where
  tracer : Tracer
  stage : Stage := .outside
  syscall : Option Syscall := none
  last : RestartOp
  calls : List Action := []

namespace Machine

def due (o : Options) (m : Machine) (c : Syscall) : Option TraceEvent :=
  let seccompStop := if c.trace then some .seccomp else none
  let syscallStop := if m.last = .syscall then some .syscallStop else none
  match m.stage with
  | .first => if o.seccompBeforeSysentry then seccompStop else syscallStop
  | .second => if o.seccompBeforeSysentry then syscallStop else seccompStop
  | .body => syscallStop
  | .outside | .gone => none

/-- The stage after this one. -/
def next (m : Machine) : Stage :=
  match m.stage with
  | .first => .second
  | .second => .body
  | .body => .outside
  | .outside => .outside
  | .gone => .gone

def isCall : Action → Bool
  | .entering _ | .exiting _ => true
  | .restart .. => false

def restartedBy (i : Nat) (actions : List Action) : Option RestartOp :=
  actions.findSome? fun
    | .restart op j _ => if j = i then some op else none
    | _ => none

def report (o : Options) (i : Nat) (a : Answers) (wd : WaitData) (stage : Stage) (m : Machine) :
    Machine :=
  let tracer := (dispatchEvent o a (m.tracer.setCurrentTcp (some i)) (some wd)).1
  let actions := tracer.log.drop m.tracer.log.length
  match restartedBy i actions with
  | some last => { m with tracer, stage, last, calls := m.calls ++ actions.filter isCall }
  | none => { m with tracer, stage := .gone, calls := m.calls ++ actions.filter isCall }

end Machine

structure Plain (a : Answers) (personality : Nat) (c : Syscall) : Prop where
  shows : a.Shows c.number
  personality : a.newPers.getD personality = personality
  subcall : a.subcall = none

inductive Move where
  /-- a stop between syscalls -/
  | between (a : Answers) (wd : WaitData)
  | begin (c : Syscall)
  /-- a stage ends without a stop -/
  | pass
  /-- a stage ends with a stop -/
  | stop (a : Answers) (wd : WaitData)
  /-- a PTRACE_EVENT stop inside a syscall -/
  | event (a : Answers) (wd : WaitData)

def betweenStops : List TraceEvent := [.signalDeliveryStop, .restart, .groupStop]

def eventStops : List TraceEvent := [.restart, .stopBeforeExecve, .stopBeforeExit, .groupStop]

inductive Step (o : Options) (i : Nat) : Machine → Move → Machine → Prop
  | between (m : Machine) (a : Answers) (wd : WaitData) (outside : m.stage = .outside)
      (reported : wd.te ∈ betweenStops) :
      Step o i m (.between a wd) (m.report o i a wd .outside)
  | begin (m : Machine) (c : Syscall) (outside : m.stage = .outside) (running : m.last ≠ .listen) :
      Step o i m (.begin c) { m with stage := .first, syscall := some c, calls := [] }
  | pass (m : Machine) (c : Syscall) (current : m.syscall = some c) (running : m.last ≠ .listen)
      (quiet : m.due o c = none) : Step o i m .pass { m with stage := m.next }
  | stop (m : Machine) (c : Syscall) (a : Answers) (wd : WaitData) (current : m.syscall = some c)
      (running : m.last ≠ .listen) (reported : m.due o c = some wd.te)
      (plain : Plain a (m.tracer.tcbtab i).currpers c) :
      Step o i m (.stop a wd) (m.report o i a wd m.next)
  | event (m : Machine) (c : Syscall) (a : Answers) (wd : WaitData) (current : m.syscall = some c)
      (body : m.stage = .body) (reported : wd.te ∈ eventStops)
      (seized : wd.te = .groupStop → o.useSeize = true)
      (own : wd.te = .stopBeforeExecve → m.tracer.execveThread o i = none)
      (plain : Plain a (m.tracer.tcbtab i).currpers c) :
      Step o i m (.event a wd)
        (m.report o i a wd (if wd.te = .stopBeforeExit then .gone else .body))

structure Initial (i : Nat) (m : Machine) : Prop where
  stage : m.stage = .outside
  syscall : m.syscall = none
  calls : m.calls = []
  uninterrupted : m.tracer.interrupted = false
  entering : (m.tracer.tcbtab i).insyscall = false
  prompt : (m.tracer.tcbtab i).Prompt
  last : m.last = if (m.tracer.tcbtab i).seccompFilter then .cont else .syscall

/-- Entries and exits are in step. -/
structure InStep (i : Nat) (m : Machine) : Prop where
  order : m.calls <+: [.entering i, .exiting i]
  between : m.stage ≠ .gone → ((m.tracer.tcbtab i).insyscall = true ↔ m.calls = [.entering i])
  traced : ∀ c ∈ m.syscall, c.trace = true → m.stage = .outside →
    m.calls = [.entering i, .exiting i]
  allowed : ∀ c ∈ m.syscall, c.trace = false → (m.tracer.tcbtab i).seccompFilter = true →
    m.calls = []

def Known (o : Options) (personality number : Nat) : Prop :=
  InTable o (o.shuffleScno personality number) personality

def Tracked (o : Options) (i : Nat) (m : Machine) : Move → Prop
  | .event _ wd => ∀ c ∈ m.syscall,
      (c.trace = true → wd.te = .restart ∨ wd.te = .stopBeforeExecve →
        Known o (m.tracer.tcbtab i).currpers c.number) ∧
      (wd.te = .stopBeforeExecve → c.trace = true ∨ (m.tracer.tcbtab i).seccompFilter = false)
  | _ => True

/-! ## How the tracer handles one stop -/

structure Handled (i : Nat) (calls : List Action) (op : RestartOp) (s s' : Tracer) : Prop where
  log : ∃ sig, s'.log = s.log ++ (calls ++ [.restart op i sig])
  interrupted : s'.interrupted = s.interrupted

section
variable {o : Options} {i : Nat} {a : Answers} {wd : WaitData} {s : Tracer}

structure Reported (calls : List Action) (op : RestartOp) (stage : Stage) (m m' : Machine) :
    Prop where
  stage : m'.stage = stage
  syscall : m'.syscall = m.syscall
  last : m'.last = op
  calls : m'.calls = m.calls ++ calls
  interrupted : m'.tracer.interrupted = m.tracer.interrupted

theorem report_tracer (m : Machine) (stage : Stage) : (m.report o i a wd stage).tracer =
    ((m.tracer.setCurrentTcp (some i)).dispatchCurrent o a wd i).1 := by
  unfold Machine.report
  dsimp only
  split <;> rfl

theorem Handled.reported {m : Machine} {calls : List Action} {op : RestartOp}
    (handled : Handled i calls op (m.tracer.setCurrentTcp (some i))
      ((m.tracer.setCurrentTcp (some i)).dispatchCurrent o a wd i).1)
    (only : ∀ c ∈ calls, Machine.isCall c = true) (stage : Stage) :
    Reported calls op stage m (m.report o i a wd stage) := by
  obtain ⟨sig, log⟩ : ∃ sig, (dispatchEvent o a (m.tracer.setCurrentTcp (some i)) (some wd)).1.log =
    m.tracer.log ++ (calls ++ [.restart op i sig]) := handled.log
  have none : Machine.restartedBy i calls = none := by
    unfold Machine.restartedBy
    rw [findSome?_eq_none_iff]
    intro c listed
    cases c with
    | restart => exact absurd (only _ listed) (by simp [Machine.isCall])
    | entering => rfl
    | exiting => rfl
  have found : Machine.restartedBy i (calls ++ [.restart op i sig]) = some op := by
    unfold Machine.restartedBy at none ⊢
    rw [findSome?_append, none]
    simp
  have kept : (calls ++ [Action.restart op i sig]).filter Machine.isCall = calls := by
    simp [filter_eq_self.mpr only, Machine.isCall]
  have interrupted := handled.interrupted
  unfold Machine.report
  simp only [log, drop_left, found, kept]
  exact ⟨rfl, rfl, rfl, rfl, interrupted⟩

theorem restartCurrent_handled (a : Answers) (wd : WaitData) (op : RestartOp) (sig : Nat)
    (u : Tracer) (log : u.log = s.log) (uninterrupted : u.interrupted = s.interrupted)
    (running : s.interrupted = false) (prompt : (u.tcbtab i).delayed = false) :
    Handled i [] op s (u.restartCurrent a wd i op sig).1 ∧
      (u.restartCurrent a wd i op sig).1.tcbtab i = u.tcbtab i := by
  rw [restartCurrent_prompt a wd op sig (uninterrupted.trans running) prompt]
  exact ⟨⟨⟨sig, by rw [record_log, log]; rfl⟩, uninterrupted⟩, rfl⟩

structure Toggled (o : Options) (c : Syscall) (t t' : Tcb) : Prop where
  insyscall : t'.insyscall = !t.insyscall
  filter : t'.seccompFilter = t.seccompFilter
  prompt : t'.Prompt
  known : t.insyscall = false →
    t'.scno = o.shuffleScno t.currpers c.number ∧ t'.currpers = t.currpers

variable {c : Syscall} {t : Tcb}

theorem shownScno_plain {p : Nat} (plain : Plain a p c) :
    shownScno o a p c.number = o.shuffleScno p c.number := by
  simp [plain.subcall, shownScno]

theorem traceSyscall_toggled (timer : DelayTimer) (noInject : o.injectSet = none)
    (prompt : t.Prompt) (plain : Plain a t.currpers c) :
    Toggled o c t (traceSyscall o a ⟨t, t.currpers, timer, 0⟩).1.tcb ∧
      0 ≤ (traceSyscall o a ⟨t, t.currpers, timer, 0⟩).2 := by
  have traced := traceSyscall_traced o a ⟨t, t.currpers, timer, 0⟩
  have kept := traced.kept
  have prompt := traceSyscall_prompt (a := a) (s := ⟨t, t.currpers, timer, 0⟩) noInject prompt
  cases inside : t.insyscall with
  | false =>
    obtain ⟨entered, res⟩ :=
      traceSyscall_entered (s := ⟨t, t.currpers, timer, 0⟩) inside plain.shows
    refine ⟨⟨by rw [entered.insyscall, inside]; rfl, kept.filter, prompt, ?_⟩, res⟩
    intro _
    have scno := entered.scno
    have currpers := entered.currpers
    simp only [plain.personality, shownScno_plain plain] at scno currpers
    exact ⟨scno, currpers⟩
  | true =>
    obtain ⟨outside, res⟩ :=
      traceSyscall_exited (s := ⟨t, t.currpers, timer, 0⟩) inside
    refine ⟨⟨by rw [outside, inside]; rfl, kept.filter, prompt, ?_⟩, ?_⟩
    · simp [inside]
    · grind [plain.shows.regs]

theorem dispatchSyscallStop_handled (wd : WaitData) (noInject : o.injectSet = none)
    (running : s.interrupted = false) (prompt : (s.tcbtab i).Prompt)
    (personality : s.currentPersonality = (s.tcbtab i).currpers)
    (plain : Plain a (s.tcbtab i).currpers c) :
    Handled i [if (s.tcbtab i).insyscall then .exiting i else .entering i]
        (if (s.tcbtab i).seccompFilter && (s.tcbtab i).insyscall then .cont else .syscall) s
        (s.dispatchSyscallStop o a wd i).1 ∧
      Toggled o c (s.tcbtab i) ((s.dispatchSyscallStop o a wd i).1.tcbtab i) := by
  obtain ⟨toggled, res⟩ := traceSyscall_toggled s.timer noInject prompt plain
  unfold dispatchSyscallStop traceSyscallOf
  rw [personality]
  dsimp only
  generalize traceSyscall o a ⟨s.tcbtab i, (s.tcbtab i).currpers, s.timer, 0⟩ = r at toggled res
  rw [if_neg (Int.not_lt.mpr res), restartCurrent_prompt]
  · refine ⟨⟨⟨r.1.sig, ?_⟩, rfl⟩, by simpa using toggled⟩
    cases inside : (s.tcbtab i).insyscall <;> cases filter : (s.tcbtab i).seccompFilter <;>
      simp [Tcb.entering, toggled.insyscall, toggled.filter, restartOp, inside, filter]
  · exact running
  · simpa using toggled.prompt.1

def restartStops : List TraceEvent := [.restart, .stopBeforeExit, .signalDeliveryStop, .groupStop]

theorem dispatchCurrent_event (running : s.interrupted = false)
    (prompt : (s.tcbtab i).delayed = false) (event : wd.te ∈ restartStops) :
    Handled i [] (if wd.te = .groupStop ∧ o.useSeize then .listen else s.restartOp o i) s
        (s.dispatchCurrent o a wd i).1 ∧
      (s.dispatchCurrent o a wd i).1.tcbtab i = s.tcbtab i := by
  have restarted (op : RestartOp) (sig : Nat) :=
    restartCurrent_handled a wd op sig s rfl rfl running prompt
  simp only [restartStops, mem_cons, not_mem_nil, or_false] at event
  rcases event with te | te | te | te
  · simpa [dispatchCurrent, te] using restarted _ _
  · simpa [dispatchCurrent, te] using restarted _ _
  · simpa [dispatchCurrent, te] using restarted _ _
  · cases seize : o.useSeize with
    | true => simpa [dispatchCurrent, te, seize] using restarted _ _
    | false => simpa [dispatchCurrent, te, seize] using restarted _ _

structure Agrees (t t' : Tcb) : Prop where
  insyscall : t'.insyscall = t.insyscall
  filter : t'.seccompFilter = t.seccompFilter
  scno : t'.scno = t.scno
  currpers : t'.currpers = t.currpers
  delayed : t'.delayed = t.delayed
  delayExit : t'.injectDelayExit = t.injectDelayExit

theorem Agrees.refl (t : Tcb) : Agrees t t := ⟨rfl, rfl, rfl, rfl, rfl, rfl⟩

theorem Agrees.prompt {t' : Tcb} (agrees : Agrees t t') (prompt : t.Prompt) : t'.Prompt :=
  ⟨agrees.delayed.trans prompt.1, agrees.delayExit.trans prompt.2⟩

/-- The tracer has let the tracee go. -/
structure Detached (i : Nat) (s s' : Tracer) : Prop where
  log : s'.log = s.log
  interrupted : s'.interrupted = s.interrupted
  filter : (s'.tcbtab i).seccompFilter = true → (s.tcbtab i).seccompFilter = true

theorem dispatchExecve_inside (wd : WaitData) (running : s.interrupted = false)
    (prompt : (s.tcbtab i).delayed = false) (own : s.execveThread o i = none)
    (inside : (s.tcbtab i).insyscall = true) :
    Detached i s (s.dispatchExecve o a wd i).1 ∨
      Handled i [] (s.restartOp o i) s (s.dispatchExecve o a wd i).1 ∧
        Agrees (s.tcbtab i) ((s.dispatchExecve o a wd i).1.tcbtab i) := by
  have own : (s.setTcb i (s.tcbtab i).execSucceeded).execveThread o i = none := by
    rw [execveThread_execSucceeded, own]
  have exiting : ((s.setTcb i (s.tcbtab i).execSucceeded).tcbtab i).entering = false := by
    simp [Tcb.entering, Tcb.execSucceeded, inside]
  unfold dispatchExecve
  simp only [own, exiting, Bool.false_eq_true, ↓reduceIte]
  have restarted (t : Tcb) (agrees : Agrees (s.tcbtab i) t) (u : Tracer) (log : u.log = s.log)
      (uninterrupted : u.interrupted = s.interrupted) (now : u.tcbtab i = t) :
      Handled i [] (s.restartOp o i) s (u.restartCurrent a wd i (s.restartOp o i) 0).1 ∧
        Agrees (s.tcbtab i) ((u.restartCurrent a wd i (s.restartOp o i) 0).1.tcbtab i) := by
    have handled := restartCurrent_handled a wd (s.restartOp o i) 0 u log
      uninterrupted running (by rw [now, agrees.delayed, prompt])
    rw [handled.2, now]
    exact ⟨handled.1, agrees⟩
  unfold detachOrRestart
  split
  · split
    · exact .inr
        (restarted (s.tcbtab i).execSucceeded.firstExecSkipped ⟨rfl, rfl, rfl, rfl, rfl, rfl⟩
        _ rfl rfl (by simp only [setTcb_tcbtab_self]))
    · refine .inl ⟨(droptcb_log _ i).1, (droptcb_log _ i).2, ?_⟩
      intro filter
      rcases droptcb_tcbtab_self (s.setTcb i (s.tcbtab i).execSucceeded) i with same | cleared
      · rw [same, setTcb_tcbtab_self] at filter
        exact filter
      · grind
  · exact .inr (restarted (s.tcbtab i).execSucceeded ⟨rfl, rfl, rfl, rfl, rfl, rfl⟩
      _ rfl rfl (setTcb_tcbtab_self ..))

theorem dispatchCurrent_seccomp_skipped (running : s.interrupted = false)
    (prompt : (s.tcbtab i).Prompt) (te : wd.te = .seccomp)
    (skipped : (s.tcbtab i).seccompFilter = false ∨ o.seccompBeforeSysentry = true) :
    Handled i [] .syscall s (s.dispatchCurrent o a wd i).1 ∧
      Agrees (s.tcbtab i).setSeccompFilter ((s.dispatchCurrent o a wd i).1.tcbtab i) := by
  cases filter : (s.tcbtab i).seccompFilter with
  | false =>
    have handled := restartCurrent_handled (s := s) a wd .syscall 0
      (s.setTcb i (s.tcbtab i).setSeccompFilter) rfl rfl running
      (by rw [setTcb_tcbtab_self]; exact prompt.1)
    rw [setTcb_tcbtab_self] at handled
    simp only [dispatchCurrent, te, filter, Bool.not_false, ↓reduceIte]
    rw [handled.2]
    exact ⟨handled.1, .refl _⟩
  | true =>
    have before : o.seccompBeforeSysentry = true := by simpa [filter] using skipped
    have handled := restartCurrent_handled a wd .syscall 0 s rfl rfl running prompt.1
    simp only [dispatchCurrent, te, filter, before, Bool.not_true, Bool.false_eq_true, ↓reduceIte]
    rw [handled.2]
    exact ⟨handled.1, rfl, filter, rfl, rfl, rfl, rfl⟩

end

/-! ## The invariant -/

def idle (t : Tcb) : RestartOp := if t.seccompFilter then .cont else .syscall

structure Seen (o : Options) (i : Nat) (c : Syscall) (m : Machine) : Prop where
  insyscall : (m.tracer.tcbtab i).insyscall = true
  calls : m.calls = [.entering i]
  scno : (m.tracer.tcbtab i).scno =
    o.shuffleScno (m.tracer.tcbtab i).currpers c.number

/-- The tracer has not seen the syscall. -/
structure Unseen (i : Nat) (m : Machine) : Prop where
  entering : (m.tracer.tcbtab i).insyscall = false
  calls : m.calls = []

def Progress (o : Options) (i : Nat) (m : Machine) : Prop :=
  let t := m.tracer.tcbtab i
  match m.stage, m.syscall with
  | .outside, none => Unseen i m ∧ (m.last = idle t ∨ m.last = .listen)
  | .outside, some c => t.insyscall = false ∧ (m.last = idle t ∨ m.last = .listen) ∧
      (m.calls = [.entering i, .exiting i] ∧ c.trace = t.seccompFilter ∨
        m.calls = [] ∧ c.trace = false ∧ t.seccompFilter = true)
  | .first, some _ => Unseen i m ∧ m.last = idle t
  | .second, some c =>
      if o.seccompBeforeSysentry then Unseen i m ∧
        (c.trace = true ∧ t.seccompFilter = true ∧ m.last = .syscall ∨
          c.trace = false ∧ m.last = idle t)
      else t.seccompFilter = true ∧ Unseen i m ∧ m.last = .cont ∨
        t.seccompFilter = false ∧ Seen o i c m ∧ m.last = .syscall
  | .body, some c =>
      Seen o i c m ∧ c.trace = t.seccompFilter ∧ (m.last = .syscall ∨ m.last = .listen) ∨
        Unseen i m ∧ c.trace = false ∧ t.seccompFilter = true ∧
          (m.last = .cont ∨ m.last = .listen)
  | .gone, some c => (m.calls = [.entering i] ∨ m.calls = []) ∧
      (c.trace = false → t.seccompFilter = true → m.calls = [])
  | _, none => False

/-- The invariant of the protocol. -/
structure Synced (o : Options) (i : Nat) (m : Machine) : Prop where
  running : m.tracer.interrupted = false
  prompt : m.stage ≠ .gone → (m.tracer.tcbtab i).Prompt
  progress : Progress o i m

variable {o : Options} {i : Nat} {m : Machine}

theorem Initial.synced (initial : Initial i m) : Synced o i m := by
  refine ⟨initial.uninterrupted, fun _ => initial.prompt, ?_⟩
  unfold Progress
  rw [initial.stage, initial.syscall]
  exact ⟨⟨initial.entering, initial.calls⟩, .inl initial.last⟩

theorem Synced.inStep (synced : Synced o i m) : InStep i m := by
  have progress := synced.progress
  have unseen (unseen : Unseen i m) (entered : m.stage ≠ .outside) : InStep i m := by
    obtain ⟨entering, calls⟩ := unseen
    exact ⟨by simp [calls], by simp [entering, calls], by simp [entered], by simp [calls]⟩
  unfold Progress at progress
  cases stage : m.stage <;> cases current : m.syscall <;> simp only [stage, current] at progress
  case outside.none =>
    obtain ⟨⟨entering, calls⟩, -⟩ := progress
    exact ⟨by simp [calls], by simp [entering, calls], by simp [current], by simp [current]⟩
  case outside.some c =>
    obtain ⟨entering, -, ⟨calls, agree⟩ | ⟨calls, allow, filter⟩⟩ := progress
    · exact ⟨by simp [calls], by simp [entering, calls], by simp [calls],
        by simp +contextual [current, ← agree]⟩
    · exact ⟨by simp [calls], by simp [entering, calls], by simp [current, allow], by simp [calls]⟩
  case first.some c => exact unseen progress.1 (by simp [stage])
  case second.some c =>
    split at progress
    · exact unseen progress.1 (by simp [stage])
    · rcases progress with ⟨-, missed, -⟩ | ⟨plain, ⟨inside, calls, -⟩, -⟩
      · exact unseen missed (by simp [stage])
      · exact ⟨by simp [calls], by simp [inside, calls], by simp [stage], by simp [plain]⟩
  case body.some c =>
    rcases progress with ⟨⟨inside, calls, -⟩, agree, -⟩ | ⟨missed, -⟩
    · exact ⟨by simp [calls], by simp [inside, calls], by simp [stage],
        by simp +contextual [current, ← agree]⟩
    · exact unseen missed (by simp [stage])
  case gone.some c =>
    obtain ⟨calls, allowed⟩ := progress
    refine ⟨?_, by simp [stage], by simp [stage], by simpa [current] using allowed⟩
    rcases calls with calls | calls <;> simp [calls]

/-! ## One step -/

section
variable {o : Options} {i : Nat} {a : Answers} {wd : WaitData} {m : Machine} {c : Syscall}

theorem restartOp_entering {s : Tracer} (entering : (s.tcbtab i).insyscall = false) :
    s.restartOp o i = idle (s.tcbtab i) := by
  simp [entering, restartOp, seccompFilterRestartOperator, idle]

theorem between_synced (synced : Synced o i m) (outside : m.stage = .outside)
    (reported : wd.te ∈ betweenStops) : Synced o i (m.report o i a wd .outside) := by
  have prompt := synced.prompt (by simp [outside])
  have progress := synced.progress
  have entering : (m.tracer.tcbtab i).insyscall = false := by
    unfold Progress at progress
    cases current : m.syscall <;> simp only [outside, current] at progress
    · exact progress.1.entering
    · exact progress.1
  have event : wd.te ∈ restartStops := by
    simp only [betweenStops, restartStops, mem_cons] at reported ⊢
    tauto
  obtain ⟨handled, same⟩ := dispatchCurrent_event (o := o) (a := a)
    (s := m.tracer.setCurrentTcp (some i)) synced.running prompt.1 event
  rw [← report_tracer m .outside] at same
  have reported := handled.reported (by simp) .outside
  generalize m.report o i a wd .outside = m' at same reported
  have last : m'.last = idle (m.tracer.tcbtab i) ∨ m'.last = .listen := by
    rw [reported.last]
    split
    · exact .inr rfl
    · exact .inl (restartOp_entering entering)
  have calls := reported.calls.trans (append_nil _)
  refine ⟨reported.interrupted.trans synced.running, fun _ => by rw [same]; exact prompt, ?_⟩
  unfold Progress at progress ⊢
  rw [reported.stage, reported.syscall]
  cases current : m.syscall <;> simp only [outside, current, same] at progress ⊢
  · exact ⟨⟨by rw [same]; exact entering, by rw [calls]; exact progress.1.calls⟩, last⟩
  · rw [calls]
    exact ⟨entering, last, progress.2.2⟩

theorem begin_synced (synced : Synced o i m) (outside : m.stage = .outside)
    (running : m.last ≠ .listen) :
    Synced o i { m with stage := .first, syscall := some c, calls := [] } := by
  have progress := synced.progress
  refine ⟨synced.running, fun _ => synced.prompt (by simp [outside]), ?_⟩
  unfold Progress at progress
  cases current : m.syscall <;> simp only [outside, current] at progress
  · exact ⟨⟨progress.1.entering, rfl⟩, progress.2.resolve_right running⟩
  · exact ⟨⟨progress.1, rfl⟩, progress.2.1.resolve_right running⟩

variable {t : Tcb}

theorem idle_eq_syscall (h : idle t = .syscall) : t.seccompFilter = false := by
  unfold idle at h
  cases filter : t.seccompFilter with
  | false => rfl
  | true => simp [filter] at h

theorem idle_of_ne (h : idle t ≠ .syscall) : t.seccompFilter = true ∧ idle t = .cont := by
  unfold idle at h ⊢
  cases filter : t.seccompFilter with
  | true => simp
  | false => simp [filter] at h

theorem pass_synced (synced : Synced o i m) (current : m.syscall = some c)
    (running : m.last ≠ .listen) (quiet : m.due o c = none) :
      Synced o i { m with stage := m.next } := by
  have progress := synced.progress
  cases stage : m.stage with
  | outside | gone =>
    have same : m.next = m.stage := by simp [Machine.next, stage]
    rw [same]
    exact synced
  | first =>
    refine ⟨synced.running, fun _ => synced.prompt (by simp [stage]), ?_⟩
    simp only [Progress, stage, current] at progress
    simp only [Progress, Machine.next, stage, current]
    obtain ⟨unseen, last⟩ := progress
    cases before : o.seccompBeforeSysentry with
    | true =>
      have allow : c.trace = false := by simpa [Machine.due, stage, before] using quiet
      exact ⟨⟨unseen.entering, unseen.calls⟩, .inr ⟨allow, last⟩⟩
    | false =>
      have skipped : m.last ≠ .syscall := by simpa [Machine.due, stage, before] using quiet
      rw [last] at skipped
      obtain ⟨filter, cont⟩ := idle_of_ne skipped
      exact .inl ⟨filter, ⟨unseen.entering, unseen.calls⟩, last.trans cont⟩
  | second =>
    refine ⟨synced.running, fun _ => synced.prompt (by simp [stage]), ?_⟩
    simp only [Progress, stage, current] at progress
    simp only [Machine.next, stage, current]
    cases before : o.seccompBeforeSysentry with
    | true =>
      have skipped : m.last ≠ .syscall := by simpa [Machine.due, stage, before] using quiet
      simp only [before] at progress
      obtain ⟨unseen, ⟨-, -, last⟩ | ⟨allow, last⟩⟩ := progress
      · exact absurd last skipped
      · rw [last] at skipped
        obtain ⟨filter, cont⟩ := idle_of_ne skipped
        exact .inr ⟨⟨unseen.entering, unseen.calls⟩, allow, filter, .inl (last.trans cont)⟩
    | false =>
      have allow : c.trace = false := by simpa [Machine.due, stage, before] using quiet
      simp only [before] at progress
      rcases progress with ⟨filter, unseen, last⟩ | ⟨plain, seen, last⟩
      · exact .inr ⟨⟨unseen.entering, unseen.calls⟩, allow, filter, .inl last⟩
      · exact .inl ⟨⟨seen.insyscall, seen.calls, seen.scno⟩, allow.trans plain.symm, .inl last⟩
  | body =>
    have skipped : m.last ≠ .syscall := by simpa [Machine.due, stage] using quiet
    refine ⟨synced.running, fun _ => synced.prompt (by simp [stage]), ?_⟩
    simp only [Progress, stage, current] at progress
    simp only [Machine.next, stage, current]
    rcases progress with ⟨-, -, last⟩ | ⟨unseen, allow, filter, last⟩
    · exact absurd last (by simp [skipped, running])
    · refine ⟨unseen.entering, .inl ?_, .inr ⟨unseen.calls, allow, filter⟩⟩
      rw [last.resolve_right running, idle, filter]
      rfl

/-- The stop goes to `trace_syscall`. -/
def Traces (o : Options) (t : Tcb) (te : TraceEvent) : Prop :=
  te = .syscallStop ∨ te = .seccomp ∧ t.seccompFilter = true ∧ o.seccompBeforeSysentry = false

section
variable (synced : Synced o i m) (alive : m.stage ≠ .gone) (stage : Stage)
  (noInject : o.injectSet = none) (plain : Plain a (m.tracer.tcbtab i).currpers c)
  (traces : Traces o (m.tracer.tcbtab i) wd.te)

include synced alive

theorem skipped_reported (te : wd.te = .seccomp)
    (skipped : (m.tracer.tcbtab i).seccompFilter = false ∨ o.seccompBeforeSysentry = true) :
    Reported [] .syscall stage m (m.report o i a wd stage) ∧
      Agrees (m.tracer.tcbtab i).setSeccompFilter ((m.report o i a wd stage).tracer.tcbtab i) := by
  obtain ⟨handled, agrees⟩ := dispatchCurrent_seccomp_skipped
    (s := m.tracer.setCurrentTcp (some i)) synced.running (synced.prompt alive) te skipped
  rw [← report_tracer m stage] at agrees
  exact ⟨handled.reported (by simp) stage, agrees⟩

include noInject plain traces

theorem traced_reported :
    Reported [if (m.tracer.tcbtab i).insyscall then .exiting i else .entering i]
        (if (m.tracer.tcbtab i).seccompFilter && (m.tracer.tcbtab i).insyscall then .cont
          else .syscall)
        stage m (m.report o i a wd stage) ∧
      Toggled o c (m.tracer.tcbtab i) ((m.report o i a wd stage).tracer.tcbtab i) := by
  obtain ⟨handled, toggled⟩ := dispatchSyscallStop_handled (s := m.tracer.setCurrentTcp (some i))
    wd noInject synced.running (synced.prompt alive) rfl plain
  have eq : (m.tracer.setCurrentTcp (some i)).dispatchCurrent o a wd i =
      (m.tracer.setCurrentTcp (some i)).dispatchSyscallStop o a wd i := by
    rcases traces with te | ⟨te, filter, before⟩
    · simp [dispatchCurrent, te]
    · have filter : ((m.tracer.setCurrentTcp (some i)).tcbtab i).seccompFilter = true := filter
      simp [dispatchCurrent, te, filter, before]
  rw [← eq] at handled toggled
  rw [← report_tracer m stage] at toggled
  refine ⟨handled.reported ?_ stage, toggled⟩
  simp only [mem_singleton, forall_eq]
  split <;> rfl

theorem entered_reported (unseen : Unseen i m) :
    Reported [.entering i] .syscall stage m (m.report o i a wd stage) ∧
      Seen o i c (m.report o i a wd stage) ∧
      ((m.report o i a wd stage).tracer.tcbtab i).Prompt ∧
      ((m.report o i a wd stage).tracer.tcbtab i).seccompFilter =
        (m.tracer.tcbtab i).seccompFilter := by
  obtain ⟨reported, toggled⟩ := traced_reported synced alive stage noInject plain traces
  rw [unseen.entering, Bool.and_false] at reported
  obtain ⟨scno, currpers⟩ := toggled.known unseen.entering
  refine ⟨reported, ⟨?_, ?_, by rw [scno, currpers]⟩, toggled.prompt, toggled.filter⟩
  · simp [toggled.insyscall, unseen.entering]
  · simp [reported.calls, unseen.calls]

end

section
variable (noInject : o.injectSet = none) (synced : Synced o i m) (current : m.syscall = some c)
  (reported : m.due o c = some wd.te) (plain : Plain a (m.tracer.tcbtab i).currpers c)

include noInject synced current reported plain

theorem first_stop (first : m.stage = .first) : Synced o i (m.report o i a wd .second) := by
  have alive : m.stage ≠ .gone := by simp [first]
  have progress := synced.progress
  simp only [Progress, first, current] at progress
  obtain ⟨unseen, last⟩ := progress
  cases before : o.seccompBeforeSysentry with
  | true =>
    obtain ⟨trace, te⟩ : c.trace = true ∧ TraceEvent.seccomp = wd.te := by
      simpa [Machine.due, first, before] using reported
    obtain ⟨after, agrees⟩ :=
      skipped_reported synced alive .second te.symm (.inr before)
    refine ⟨after.interrupted.trans synced.running, fun _ =>
      agrees.prompt (synced.prompt alive), ?_⟩
    simp only [Progress, after.stage, after.syscall, current, before]
    refine ⟨⟨agrees.insyscall.trans unseen.entering, ?_⟩, .inl ⟨trace, agrees.filter, after.last⟩⟩
    rw [after.calls, unseen.calls]
    rfl
  | false =>
    obtain ⟨restarted, te⟩ : m.last = .syscall ∧ TraceEvent.syscallStop = wd.te := by
      simpa [Machine.due, first, before] using reported
    have unfiltered := idle_eq_syscall (last.symm.trans restarted)
    obtain ⟨after, seen, prompt, filter⟩ :=
      entered_reported synced alive .second noInject plain (.inl te.symm) unseen
    refine ⟨after.interrupted.trans synced.running, fun _ => prompt, ?_⟩
    simp only [Progress, after.stage, after.syscall, current, before]
    exact .inr ⟨filter.trans unfiltered, seen, after.last⟩

theorem second_stop (second : m.stage = .second) : Synced o i (m.report o i a wd .body) := by
  have alive : m.stage ≠ .gone := by simp [second]
  have progress := synced.progress
  simp only [Progress, second, current] at progress
  have entered (traces : Traces o (m.tracer.tcbtab i) wd.te) (unseen : Unseen i m)
      (agree : c.trace = (m.tracer.tcbtab i).seccompFilter) :
      Synced o i (m.report o i a wd .body) := by
    obtain ⟨after, seen, prompt, filter⟩ :=
      entered_reported synced alive .body noInject plain traces unseen
    refine ⟨after.interrupted.trans synced.running, fun _ => prompt, ?_⟩
    simp only [Progress, after.stage, after.syscall, current]
    exact .inl ⟨seen, agree.trans filter.symm, .inl after.last⟩
  cases before : o.seccompBeforeSysentry with
  | true =>
    obtain ⟨restarted, te⟩ : m.last = .syscall ∧ TraceEvent.syscallStop = wd.te := by
      simpa [Machine.due, second, before] using reported
    simp only [before] at progress
    obtain ⟨unseen, ⟨trace, filter, -⟩ | ⟨allow, last⟩⟩ := progress
    · exact entered (.inl te.symm) unseen (trace.trans filter.symm)
    · have unfiltered := idle_eq_syscall (last.symm.trans restarted)
      exact entered (.inl te.symm) unseen (allow.trans unfiltered.symm)
  | false =>
    obtain ⟨trace, te⟩ : c.trace = true ∧ TraceEvent.seccomp = wd.te := by
      simpa [Machine.due, second, before] using reported
    simp only [before] at progress
    rcases progress with ⟨filter, unseen, -⟩ | ⟨unfiltered, seen, -⟩
    · exact entered (.inr ⟨te.symm, filter, before⟩) unseen (trace.trans filter.symm)
    · obtain ⟨after, agrees⟩ :=
        skipped_reported synced alive .body te.symm (.inl unfiltered)
      refine ⟨after.interrupted.trans synced.running, fun _ =>
        agrees.prompt (synced.prompt alive), ?_⟩
      simp only [Progress, after.stage, after.syscall, current]
      refine .inl ⟨⟨agrees.insyscall.trans seen.insyscall, ?_, ?_⟩,
        trace.trans agrees.filter.symm, .inl after.last⟩
      · simp [after.calls, seen.calls]
      · rw [agrees.scno, agrees.currpers]
        exact seen.scno

theorem body_stop (body : m.stage = .body) : Synced o i (m.report o i a wd .outside) := by
  have alive : m.stage ≠ .gone := by simp [body]
  have progress := synced.progress
  simp only [Progress, body, current] at progress
  obtain ⟨restarted, te⟩ : m.last = .syscall ∧ TraceEvent.syscallStop = wd.te := by
    simpa [Machine.due, body] using reported
  rcases progress with ⟨seen, agree, -⟩ | ⟨-, -, -, last⟩
  · obtain ⟨after, toggled⟩ :=
      traced_reported synced alive .outside noInject plain (.inl te.symm)
    rw [seen.insyscall, Bool.and_true] at after
    refine ⟨after.interrupted.trans synced.running, fun _ => toggled.prompt, ?_⟩
    simp only [Progress, after.stage, after.syscall, current]
    refine ⟨?_, .inl ?_, .inl ⟨?_, agree.trans toggled.filter.symm⟩⟩
    · simp [toggled.insyscall, seen.insyscall]
    · rw [after.last, idle, toggled.filter]
    · simp [after.calls, seen.calls]
  · rw [restarted] at last
    simp at last

theorem stop_synced : Synced o i (m.report o i a wd m.next) := by
  cases stage : m.stage with
  | outside | gone => simp [Machine.due, stage] at reported
  | first =>
    rw [Machine.next, stage]
    exact first_stop noInject synced current reported plain stage
  | second =>
    rw [Machine.next, stage]
    exact second_stop noInject synced current reported plain stage
  | body =>
    rw [Machine.next, stage]
    exact body_stop noInject synced current reported plain stage

end

theorem report_unlogged (stage : Stage)
    (log : ((m.tracer.setCurrentTcp (some i)).dispatchCurrent o a wd i).1.log = m.tracer.log) :
    (m.report o i a wd stage).stage = .gone ∧ (m.report o i a wd stage).syscall = m.syscall ∧
      (m.report o i a wd stage).calls = m.calls := by
  have log : (dispatchEvent o a (m.tracer.setCurrentTcp (some i)) (some wd)).1.log = m.tracer.log :=
    log
  unfold Machine.report
  simp [log, Machine.restartedBy]

theorem seen_restartOp (seen : Seen o i c m) (agree : c.trace = (m.tracer.tcbtab i).seccompFilter)
    (known : c.trace = true → Known o (m.tracer.tcbtab i).currpers c.number) :
    (m.tracer.setCurrentTcp (some i)).restartOp o i = .syscall := by
  refine restartOp_eq_syscall.mpr fun filter => ⟨seen.insyscall, ?_⟩
  have traced : InTable o (o.shuffleScno (m.tracer.tcbtab i).currpers c.number)
    (m.tracer.tcbtab i).currpers := known (agree.trans filter)
  rw [← seen.scno] at traced
  exact traced

theorem unseen_restartOp (unseen : Unseen i m) (filter : (m.tracer.tcbtab i).seccompFilter = true) :
    (m.tracer.setCurrentTcp (some i)).restartOp o i = .cont := by
  have op := restartOp_entering (o := o) (s := m.tracer.setCurrentTcp (some i)) unseen.entering
  have eq : idle (m.tracer.tcbtab i) = .cont := by
    rw [idle, filter]
    rfl
  exact op.trans eq

section
variable (synced : Synced o i m) (body : m.stage = .body) (current : m.syscall = some c)

include synced body current

variable {m' : Machine}

theorem event_body {op : RestartOp} (after : Reported [] op .body m m')
    (agrees : Agrees (m.tracer.tcbtab i) (m'.tracer.tcbtab i))
    (seen_op : Seen o i c m → c.trace = (m.tracer.tcbtab i).seccompFilter →
      op = .syscall ∨ op = .listen)
    (unseen_op : Unseen i m → (m.tracer.tcbtab i).seccompFilter = true → c.trace = false →
      op = .cont ∨ op = .listen) : Synced o i m' := by
  have prompt := synced.prompt (by simp [body])
  have progress := synced.progress
  have calls := after.calls.trans (append_nil _)
  refine ⟨after.interrupted.trans synced.running, fun _ => agrees.prompt prompt, ?_⟩
  simp only [Progress, body, current] at progress
  simp only [Progress, after.stage, after.syscall, current, after.last]
  rcases progress with ⟨seen, agree, -⟩ | ⟨unseen, allow, filter, -⟩
  · refine .inl ⟨⟨agrees.insyscall.trans seen.insyscall, calls.trans seen.calls, ?_⟩,
      agree.trans agrees.filter.symm, seen_op seen agree⟩
    rw [agrees.scno, agrees.currpers]
    exact seen.scno
  · exact .inr ⟨⟨agrees.insyscall.trans unseen.entering, calls.trans unseen.calls⟩, allow,
      agrees.filter.trans filter, unseen_op unseen filter allow⟩

theorem gone_synced (gone : m'.stage = .gone) (same : m'.syscall = m.syscall)
    (calls : m'.calls = m.calls) (interrupted : m'.tracer.interrupted = false)
    (filter : (m'.tracer.tcbtab i).seccompFilter = true →
      (m.tracer.tcbtab i).seccompFilter = true) : Synced o i m' := by
  have progress := synced.progress
  refine ⟨interrupted, fun alive => absurd gone alive, ?_⟩
  simp only [Progress, body, current] at progress
  simp only [Progress, gone, same, current, calls]
  rcases progress with ⟨seen, agree, -⟩ | ⟨unseen, -⟩
  · refine ⟨.inl seen.calls, ?_⟩
    intro allow filtered
    rw [filter filtered, allow] at agree
    cases agree
  · exact ⟨.inr unseen.calls, fun _ _ => unseen.calls⟩

theorem execve_synced (te : wd.te = .stopBeforeExecve) (own : m.tracer.execveThread o i = none)
    (tracked : Tracked o i m (.event a wd)) : Synced o i (m.report o i a wd .body) := by
  have prompt := synced.prompt (by simp [body])
  obtain ⟨known, exec⟩ := tracked c (by simp [current])
  have progress := synced.progress
  simp only [Progress, body, current] at progress
  rcases progress with ⟨seen, agree, -⟩ | ⟨-, allow, filter, -⟩
  · have eq : (m.tracer.setCurrentTcp (some i)).dispatchCurrent o a wd i =
        (m.tracer.setCurrentTcp (some i)).dispatchExecve o a wd i := by
      simp [dispatchCurrent, te]
    have outcome := dispatchExecve_inside (a := a) (s := m.tracer.setCurrentTcp (some i)) wd
      synced.running prompt.1 own seen.insyscall
    rw [← eq] at outcome
    rcases outcome with detached | ⟨handled, agrees⟩
    · obtain ⟨gone, same, calls⟩ := report_unlogged .body detached.log
      rw [← report_tracer m .body] at detached
      exact gone_synced synced body current gone same calls
        (detached.interrupted.trans synced.running) detached.filter
    · rw [← report_tracer m .body] at agrees
      refine event_body synced body current (handled.reported (by simp) .body) agrees ?_ ?_
      · intro seen agree
        exact .inl (seen_restartOp seen agree fun trace => known trace (.inr te))
      · intro unseen filter _
        exact .inl (unseen_restartOp unseen filter)
  · have := exec te
    simp [allow, filter] at this

theorem event_synced (reported : wd.te ∈ eventStops) (seized : wd.te = .groupStop →
    o.useSeize = true)
    (own : wd.te = .stopBeforeExecve → m.tracer.execveThread o i = none)
    (tracked : Tracked o i m (.event a wd)) :
    Synced o i (m.report o i a wd (if wd.te = .stopBeforeExit then .gone else .body)) := by
  have prompt := synced.prompt (by simp [body])
  have outcome (event : wd.te ∈ restartStops) := dispatchCurrent_event (o := o) (a := a)
    (s := m.tracer.setCurrentTcp (some i)) synced.running prompt.1 event
  simp only [eventStops, mem_cons, not_mem_nil, or_false] at reported
  rcases reported with te | te | te | te
  · obtain ⟨handled, same⟩ := outcome (by simp [restartStops, te])
    rw [← report_tracer m .body] at same
    rw [if_neg (by simp [te])] at handled ⊢
    refine event_body synced body current (handled.reported (by simp) .body)
      (by rw [same]; exact .refl _) ?_ ?_
    · intro seen agree
      have known := (tracked c (by simp [current])).1
      exact .inl (seen_restartOp seen agree fun trace => known trace (.inl te))
    · intro unseen filter _
      exact .inl (unseen_restartOp unseen filter)
  · simpa [te] using execve_synced synced body current te (own te) tracked
  · obtain ⟨handled, same⟩ := outcome (by simp [restartStops, te])
    rw [← report_tracer m .gone] at same
    rw [if_pos te]
    have after := handled.reported (by simp) .gone
    exact gone_synced synced body current after.stage after.syscall
      (after.calls.trans (append_nil _)) (after.interrupted.trans synced.running)
      (by rw [same]; exact id)
  · obtain ⟨handled, same⟩ := outcome (by simp [restartStops, te])
    rw [← report_tracer m .body] at same
    rw [if_pos ⟨te, seized te⟩] at handled
    rw [if_neg (by simp [te])]
    exact event_body synced body current (handled.reported (by simp) .body)
      (by rw [same]; exact .refl _) (fun _ _ => .inr rfl)
      (fun _ _ _ => .inr rfl)

end

end

/-! ## Whole runs -/

theorem step_synced {m' : Machine} {move : Move} (noInject : o.injectSet = none)
    (synced : Synced o i m) (tracked : Tracked o i m move) (step : Step o i m move m') :
    Synced o i m' := by
  cases step with
  | between a wd outside reported => exact between_synced synced outside reported
  | begin c outside running => exact begin_synced synced outside running
  | pass c current running quiet => exact pass_synced synced current running quiet
  | stop c a wd current _ reported plain => exact stop_synced noInject synced current reported plain
  | event c a wd current body reported seized own _ =>
    exact event_synced synced body current reported seized own tracked

/-- In every run whose PTRACE_EVENT stops are all in syscalls the tracer knows
to be traced, entries and exits stay in step. -/
theorem calls_in_step (o : Options) (i : Nat) (noInject : o.injectSet = none) (m : Machine)
    (run : Run (Initial i) (Step o i) (Tracked o i) m) : InStep i m := by
  refine Synced.inStep (o := o) (run.invariant (fun m initial => initial.synced) ?_)
  intro m move m' synced tracked step
  exact step_synced noInject synced tracked step

def amd64Options : Options := { toConfig := amd64Build }

def amd64Start : Machine where
  tracer := { tcbtab := fun _ => { pid := 7, seccompFilter := true }, tcbtabsize := 1, nprocs := 1 }
  last := .cont

def shown (c : Syscall) : Answers := { scno := .number c.number }

def stopped (c : Syscall) : Machine :=
  Machine.report amd64Options 0 (shown c) { te := .seccomp } .body
    { amd64Start with stage := .second, syscall := some c }

def resumed (c : Syscall) : Machine :=
  (stopped c).report amd64Options 0 (shown c) { te := .restart } .body

theorem resumed_run (ok : Machine → Move → Prop) (c : Syscall) (one : c = ⟨1, true⟩ ∨ c = ⟨3, true⟩)
    (calm : ∀ m move, (∀ a wd, move ≠ .event a wd) → ok m move)
    (event : ok (stopped c) (.event (shown c) { te := .restart })) :
    Run (Initial 0) (Step amd64Options 0) ok (resumed c) := by
  have start : Run (Initial 0) (Step amd64Options 0) ok amd64Start :=
    .start ⟨rfl, rfl, rfl, rfl, rfl, ⟨rfl, rfl⟩, rfl⟩
  have begun := start.next (calm _ _ (by simp)) (.begin _ c rfl (by decide))
  have passed := begun.next (calm _ _ (by simp)) (.pass _ c rfl (by simp [amd64Start]) rfl)
  rcases one with rfl | rfl
  all_goals
    have stop := passed.next (calm _ _ (by simp)) (.stop _ _ (shown _) { te := .seccomp } rfl
      (by decide) rfl ⟨⟨rfl, rfl, rfl⟩, rfl, rfl⟩)
    exact stop.next event (.event _ _ _ _ rfl rfl (by decide) (by decide) (by decide)
      ⟨⟨rfl, rfl, rfl⟩, rfl, rfl⟩)

/-- A traced syscall with an event inside it, up to its exit. -/
theorem calls_in_step_amd64 : ∃ m, m.calls = [.entering 0, .exiting 0] ∧ InStep 0 m := by
  have inside := resumed_run (Tracked amd64Options 0) ⟨1, true⟩ (.inl rfl)
    (fun m move other => by cases move <;> simp_all [Tracked])
    (fun c current => by
      obtain rfl := Option.some.inj current
      exact ⟨fun _ _ => ⟨by decide, by decide⟩, fun h => by cases h⟩)
  have calm : Tracked amd64Options 0 (resumed ⟨1, true⟩)
    (.stop (shown ⟨1, true⟩) { te := .syscallStop }) := trivial
  have exited := inside.next calm (.stop _ ⟨1, true⟩ _ _ rfl (by decide) rfl
    ⟨⟨rfl, rfl, rfl⟩, rfl, rfl⟩)
  exact ⟨_, rfl, calls_in_step amd64Options 0 rfl _ exited⟩

/-- The linear filter traces the first number outside the table. An event inside
such a syscall is answered with PTRACE_CONT, and the tracer misses the exit. -/
theorem exit_missed_outside_table :
    ClassicBpf.exec (SeccompData.load ⟨3, 0xc000003e⟩) amd64Linear = some seccompRetTrace ∧
      ¬ ∀ (o : Options) (i : Nat) (m : Machine), o.injectSet = none →
        Run (Initial i) (Step o i) (fun _ _ => True) m → InStep i m := by
  refine ⟨by decide, ?_⟩
  intro stated
  have inside := resumed_run (fun _ _ => True) ⟨3, true⟩ (.inr rfl) (fun _ _ _ => trivial) trivial
  have passed := inside.next trivial (.pass _ ⟨3, true⟩ rfl (by decide) rfl)
  have inStep := stated amd64Options 0 _ rfl passed
  exact absurd (inStep.traced ⟨3, true⟩ rfl rfl rfl) (by decide)

end Strace.SeccompStops
