import Strace.Seccomp.Generator
import Strace.Tracer.Traced

/-! `strace.c`: the table of tcbs and `dispatch_event`. A tcb is known by its
place in the table, which stands for the pointer to it. -/
namespace Strace
open Seccomp (tracedBySeccomp)

/-- The requests that restart a tracee. -/
inductive RestartOp where
  | syscall
  | cont
  | listen
  deriving DecidableEq, Repr

/-- What the tracer does that can be seen from outside. -/
inductive Action where
  | restart (op : RestartOp) (tcb : Nat) (sig : Nat)
  | entering (tcb : Nat)
  | exiting (tcb : Nat)
  deriving DecidableEq, Repr

/-- The state of the event loop. `log` is the list of actions so far. -/
structure Tracer where
  tcbtab : Nat → Tcb := fun _ => {}
  tcbtabsize : Nat := 0
  nprocs : Nat := 0
  currentTcp : Option Nat := none
  currentPersonality : Nat := 0
  pendingTcps : List Nat := []
  extraTcp : Option Nat := none
  waitExtraDataIdx : Nat := 0
  tcbWaitTab : Nat → WaitData := fun _ => { te := .brk }
  timer : DelayTimer := {}
  interrupted : Bool := false
  restartFailed : Bool := false
  log : List Action := []

namespace Tracer

def setTcb (s : Tracer) (i : Nat) (t : Tcb) : Tracer :=
  { s with tcbtab := fun j => if j = i then t else s.tcbtab j }

@[simp] theorem setTcb_tcbtab_self (s : Tracer) (i : Nat) (t : Tcb) : (s.setTcb i t).tcbtab i = t :=
  if_pos rfl

variable {i j : Nat} {s : Tracer} {t : Tcb} {o : Options}

theorem setTcb_tcbtab_other (s : Tracer) (t : Tcb) (other : j ≠ i) :
    (s.setTcb i t).tcbtab j = s.tcbtab j := if_neg other

@[simp] theorem setTcb_log (s : Tracer) (i : Nat) (t : Tcb) : (s.setTcb i t).log = s.log := rfl

/-- One more action. -/
def record (s : Tracer) (action : Action) : Tracer := { s with log := s.log ++ [action] }

@[simp] theorem record_tcbtab (s : Tracer) (x : Action) : (s.record x).tcbtab = s.tcbtab := rfl

@[simp] theorem record_log (s : Tracer) (x : Action) : (s.record x).log = s.log ++ [x] := rfl

/-- Take over what a syscall stop of tcb `i` has worked on. -/
def withStop (s : Tracer) (i : Nat) (r : Stop) : Tracer :=
  { s.setTcb i r.tcb with currentPersonality := r.personality, timer := r.timer }

@[simp] theorem withStop_tcbtab (s : Tracer) (i : Nat) (r : Stop) :
    (s.withStop i r).tcbtab = (s.setTcb i r.tcb).tcbtab := rfl

@[simp] theorem withStop_log (s : Tracer) (i : Nat) (r : Stop) : (s.withStop i r).log = s.log := rfl

/-- `set_current_tcp`, with the personality brought in line. -/
def setCurrentTcp (s : Tracer) : Option Nat → Tracer
  | none => { s with currentTcp := none }
  | some i => { s with currentTcp := some i, currentPersonality := (s.tcbtab i).currpers }

def pid2tcb (s : Tracer) (pid : Nat) : Option Nat :=
  if pid = 0 ∨ 2 ^ 31 ≤ pid then none
  else (List.range s.tcbtabsize).find? fun i => (s.tcbtab i).pid = pid

def droptcb (s : Tracer) (i : Nat) : Tracer :=
  if (s.tcbtab i).pid = 0 then s
  else
    let s := { s with nprocs := s.nprocs - 1 }
    let s := if s.currentTcp = some i then s.setCurrentTcp none else s
    let s := { s with pendingTcps := s.pendingTcps.filter (· ≠ i) }
    s.setTcb i {}

/-- `maybe_switch_tcbs`: the tcb of the thread that called execve, when it is
not the leader. -/
def execveThread (o : Options) (s : Tracer) (i : Nat) : Option Nat :=
  let oldPid := (s.tcbWaitTab (s.tcbtab i).waitDataIdx).msg
  if o.oldKernel then none
  else if oldPid = 0 ∨ oldPid = (s.tcbtab i).pid ∨ 2 ^ 32 ≤ oldPid then none
  else s.pid2tcb oldPid

theorem pid2tcb_setTcb (same : t.pid = (s.tcbtab i).pid) (pid : Nat) :
    (s.setTcb i t).pid2tcb pid = s.pid2tcb pid := by
  have pids (j : Nat) : ((s.setTcb i t).tcbtab j).pid = (s.tcbtab j).pid := by
    by_cases self : j = i
    · rw [self, setTcb_tcbtab_self, same]
    · rw [setTcb_tcbtab_other s t self]
  unfold pid2tcb
  simp only [pids]
  rfl

theorem pid2tcb_some {pid : Nat} (found : s.pid2tcb pid = some j) :
    j < s.tcbtabsize ∧ (s.tcbtab j).pid = pid := by
  unfold pid2tcb at found
  split at found
  · cases found
  · have pred := List.find?_some found
    have mem := List.mem_of_find?_eq_some found
    exact ⟨List.mem_range.mp mem, by simpa using pred⟩

theorem execveThread_ne (found : s.execveThread o i = some j) : j ≠ i := by
  unfold execveThread at found
  dsimp only at found
  split at found
  · cases found
  · split at found
    · cases found
    · next other =>
      rintro rfl
      exact other (.inr (.inl (pid2tcb_some found).2.symm))

theorem execveThread_setTcb (o : Options) (pid : t.pid = (s.tcbtab i).pid)
    (idx : t.waitDataIdx = (s.tcbtab i).waitDataIdx) :
    (s.setTcb i t).execveThread o i = s.execveThread o i := by
  unfold execveThread
  simp only [setTcb_tcbtab_self, pid2tcb_setTcb pid, pid, idx]
  rfl

theorem execveThread_execSucceeded (o : Options) (s : Tracer) (i : Nat) :
    (s.setTcb i (s.tcbtab i).execSucceeded).execveThread o i = s.execveThread o i :=
  execveThread_setTcb o rfl rfl

/-- `maybe_switch_tcbs` from the leader `i` to the thread: drop the leader and
let the thread go on under its pid. -/
def switchTcbs (s : Tracer) (i thread : Nat) : Tracer :=
  let dropped := s.droptcb i
  (dropped.setTcb thread ((dropped.tcbtab thread).setPid (s.tcbtab i).pid)).setCurrentTcp
    (some thread)

theorem droptcb_log (s : Tracer) (i : Nat) :
    (s.droptcb i).log = s.log ∧ (s.droptcb i).interrupted = s.interrupted := by
  unfold droptcb
  split
  · exact ⟨rfl, rfl⟩
  · dsimp only
    split <;> exact ⟨rfl, rfl⟩

theorem droptcb_tcbtab_self (s : Tracer) (i : Nat) :
    (s.droptcb i).tcbtab i = s.tcbtab i ∨ (s.droptcb i).tcbtab i = {} := by
  unfold droptcb
  split
  · exact .inl rfl
  · exact .inr (setTcb_tcbtab_self ..)

theorem droptcb_tcbtab_other (s : Tracer) (other : j ≠ i) :
    (s.droptcb i).tcbtab j = s.tcbtab j := by
  unfold droptcb
  split
  · rfl
  · rw [setTcb_tcbtab_other _ _ other]
    split <;> rfl

theorem switchTcbs_tcbtab (s : Tracer) (other : j ≠ i) :
    (s.switchTcbs i j).tcbtab j = (s.tcbtab j).setPid (s.tcbtab i).pid := by
  simp [setCurrentTcp, droptcb_tcbtab_other s other, switchTcbs]

theorem switchTcbs_log (s : Tracer) (i j : Nat) : (s.switchTcbs i j).log = s.log ∧
    (s.switchTcbs i j).interrupted = s.interrupted := droptcb_log s i

/-- `seccomp_filter_restart_operator`. -/
def seccompFilterRestartOperator (o : Options) (s : Tracer) (t : Tcb) : RestartOp :=
  if t.insyscall ∧ t.scno < (o.nsyscallVec s.currentPersonality).toNat ∧
      tracedBySeccomp o.toConfig t.scno s.currentPersonality then .syscall
  else .cont

/-- Run `trace_syscall` on tcb `i`; the signal is the one to restart with. -/
def traceSyscallOf (o : Options) (a : Answers) (s : Tracer) (i : Nat) (sig : Nat) :
    Tracer × Nat × Int :=
  let (r, res) := traceSyscall o a ⟨s.tcbtab i, s.currentPersonality, s.timer, sig⟩
  let call := if (s.tcbtab i).entering then .entering i else .exiting i
  ((s.withStop i r).record call, r.sig, res)

/-- The end of `dispatch_event`: restart the current tcb `i`, unless strace is
interrupted or the tcb is delayed. -/
def restartCurrent (a : Answers) (wd : WaitData) (s : Tracer) (i : Nat) (op : RestartOp)
    (sig : Nat) : Tracer × Bool :=
  if s.interrupted then (s, false)
  else if (s.tcbtab i).delayed then
    (s.setTcb i ((s.tcbtab i).setDelayedWaitData (some wd)), true)
  else (s.record (.restart op i sig), !a.restartFails)

theorem restartCurrent_prompt (a : Answers) (wd : WaitData) (op : RestartOp) (sig : Nat)
    (running : s.interrupted = false) (prompt : (s.tcbtab i).delayed = false) :
    s.restartCurrent a wd i op sig = (s.record (.restart op i sig), !a.restartFails) := by
  simp [running, prompt, restartCurrent]

/-- The operation computed at the top of `dispatch_event`. -/
def restartOp (o : Options) (s : Tracer) (i : Nat) : RestartOp :=
  if (s.tcbtab i).seccompFilter then s.seccompFilterRestartOperator o (s.tcbtab i) else .syscall

/-- The number is in the table of the personality, and traced there. -/
def InTable (o : Options) (scno personality : Nat) : Prop :=
  scno < (o.nsyscallVec personality).toNat ∧
    tracedBySeccomp o.toConfig scno personality = true

/-- The operation computed at the top of `dispatch_event` for `t` is
`PTRACE_SYSCALL`. -/
def TopOpStops (o : Options) (s : Tracer) (t : Tcb) : Prop :=
  t.seccompFilter = true → t.insyscall = true ∧ InTable o t.scno s.currentPersonality

theorem restartOp_eq_syscall : s.restartOp o i = .syscall ↔ TopOpStops o s (s.tcbtab i) := by
  simp [restartOp, seccompFilterRestartOperator, TopOpStops, InTable]

/-- The `TE_SYSCALL_STOP` case, also reached from `TE_SECCOMP`. -/
def dispatchSyscallStop (o : Options) (a : Answers) (wd : WaitData) (s : Tracer) (i : Nat) :
    Tracer × Bool :=
  let op := s.restartOp o i
  let (s, sig, res) := s.traceSyscallOf o a i 0
  if res < 0 then (s, true)
  else
    let t := s.tcbtab i
    let op := if t.seccompFilter then (if t.insyscall then .syscall else .cont) else op
    s.restartCurrent a wd i op sig

/-- The recovery from a stray `PTRACE_EVENT_EXEC` of tcb `i`. -/
def recoverExecve (o : Options) (a : Answers) (s : Tracer) (i : Nat) : Tracer × Nat × Int :=
  let s := s.setTcb i ((s.tcbtab i).setRecovering true)
  let (s, sig, res) := s.traceSyscallOf o a i 0
  (s.setTcb i ((s.tcbtab i).setRecovering false), sig, res)

/-- The end of the `TE_STOP_BEFORE_EXECVE` case: detach on execve, or restart. -/
def detachOrRestart (o : Options) (a : Answers) (wd : WaitData) (s : Tracer) (i : Nat)
    (op : RestartOp) (sig : Nat) : Tracer × Bool :=
  if o.detachOnExecve then
    if (s.tcbtab i).skipDetachOnFirstExec then
      (s.setTcb i (s.tcbtab i).firstExecSkipped).restartCurrent a wd i op sig
    else (s.droptcb i, true)
  else s.restartCurrent a wd i op sig

/-- The `TE_STOP_BEFORE_EXECVE` case. -/
def dispatchExecve (o : Options) (a : Answers) (wd : WaitData) (s : Tracer) (i : Nat) :
    Tracer × Bool :=
  let op := s.restartOp o i
  let s := s.setTcb i (s.tcbtab i).execSucceeded
  match s.execveThread o i with
  | some thread => (s.switchTcbs i thread).detachOrRestart o a wd thread op 0
  | none =>
    if (s.tcbtab i).entering then
      let (s, sig, res) := s.recoverExecve o a i
      if res < 0 then (s, true) else s.detachOrRestart o a wd i op sig
    else s.detachOrRestart o a wd i op 0

/-- `dispatch_event` with current tcb `i`. -/
def dispatchCurrent (o : Options) (a : Answers) (wd : WaitData) (s : Tracer) (i : Nat) :
    Tracer × Bool :=
  let op := s.restartOp o i
  let sig := wstopsig wd.status
  match wd.te with
  | .brk => (s, false)
  | .next => (s, true)
  | .restart | .stopBeforeExit => s.restartCurrent a wd i op 0
  | .seccomp =>
    if !(s.tcbtab i).seccompFilter then
      (s.setTcb i (s.tcbtab i).setSeccompFilter).restartCurrent a wd i .syscall 0
    else if o.seccompBeforeSysentry then s.restartCurrent a wd i .syscall 0
    else s.dispatchSyscallStop o a wd i
  | .syscallStop => s.dispatchSyscallStop o a wd i
  | .signalDeliveryStop => s.restartCurrent a wd i op sig
  | .groupStop =>
    if o.useSeize then s.restartCurrent a wd i .listen 0 else s.restartCurrent a wd i op sig
  | .signalled | .exited => (s.droptcb i, true)
  | .stopBeforeExecve => s.dispatchExecve o a wd i

/-- `dispatch_event`. Every event but `TE_BREAK` and `TE_NEXT` comes with a
current tcb. -/
def dispatchEvent (o : Options) (a : Answers) (s : Tracer) (wd : Option WaitData) : Tracer × Bool :=
  match wd, s.currentTcp with
  | none, _ => (s, false)
  | some wd, some i => s.dispatchCurrent o a wd i
  | some wd, none => (s, wd.te != .brk)

/-- Assign `current_tcp` and nothing else. -/
def withCurrent (s : Tracer) (current : Option Nat) : Tracer := { s with currentTcp := current }

/-- `restart_delayed_tcb`. -/
def restartDelayedTcb (o : Options) (a : Answers) (s : Tracer) (i : Nat) : Tracer × Bool :=
  let wd := ((s.tcbtab i).delayedWaitData).getD { te := .brk }
  let prevTcp := s.currentTcp
  let s := s.setTcb i (s.tcbtab i).undelay
  let (s, ret) := dispatchEvent o a (s.withCurrent (some i)) (some { wd with te := .restart })
  let s := s.withCurrent prevTcp
  (s.setTcb i ((s.tcbtab i).setDelayedWaitData none), ret)

theorem setTcb_setTcb (s : Tracer) (i : Nat) (t t' : Tcb) :
    (s.setTcb i t).setTcb i t' = s.setTcb i t' := by
  unfold setTcb
  congr 1
  funext j
  by_cases self : j = i
  · simp [self]
  · simp [self]

theorem restartDelayedTcb_eq (o : Options) (a : Answers) (s : Tracer) (i : Nat) :
    s.restartDelayedTcb o a i =
      let u := s.setTcb i ((s.tcbtab i).undelay.setDelayedWaitData none)
      if s.interrupted then (u, false)
      else (u.record (.restart (s.restartOp o i) i 0), !a.restartFails) := by
  have op : ((s.setTcb i (s.tcbtab i).undelay).withCurrent (some i)).restartOp o i =
      s.restartOp o i := by
    unfold restartOp seccompFilterRestartOperator withCurrent
    simp only [setTcb_tcbtab_self]
    rfl
  have prompt : (((s.setTcb i (s.tcbtab i).undelay).withCurrent (some i)).tcbtab i).delayed =
      false := by
    unfold withCurrent
    simp only [setTcb_tcbtab_self]
    rfl
  have again : (s.setTcb i (s.tcbtab i).undelay).setTcb i
      ((s.tcbtab i).undelay.setDelayedWaitData none) =
      s.setTcb i ((s.tcbtab i).undelay.setDelayedWaitData none) := setTcb_setTcb ..
  have dispatched (wd : WaitData) : dispatchEvent o a
      ((s.setTcb i (s.tcbtab i).undelay).withCurrent (some i)) (some { wd with te := .restart }) =
      ((s.setTcb i (s.tcbtab i).undelay).withCurrent (some i)).restartCurrent a
        { wd with te := .restart } i (s.restartOp o i) 0 := by
    rw [← op]
    rfl
  unfold restartDelayedTcb
  dsimp only
  rw [dispatched, ← again]
  cases interrupted : s.interrupted with
  | true =>
    have stopped : ((s.setTcb i (s.tcbtab i).undelay).withCurrent (some i)).interrupted = true :=
      interrupted
    unfold restartCurrent
    simp only [stopped, ↓reduceIte]
    refine Prod.ext ?_ rfl
    unfold withCurrent
    simp only [setTcb_tcbtab_self]
    rfl
  | false =>
    have running : ((s.setTcb i (s.tcbtab i).undelay).withCurrent (some i)).interrupted = false :=
      interrupted
    rw [restartCurrent_prompt _ _ _ _ running prompt]
    refine Prod.ext ?_ rfl
    unfold withCurrent
    simp only [record_tcbtab, setTcb_tcbtab_self]
    rfl

/-- The earlier of the next tcb found so far and tcb `i`. -/
def earlier (s : Tracer) (next : Option Nat) (i : Nat) : Nat :=
  match next with
  | none => i
  | some n => if (s.tcbtab n).delayExpirationTime > (s.tcbtab i).delayExpirationTime then i else n

/-- The loop of `restart_delayed_tcbs` over the tcbs in `indices`. It returns
the tcb to arm the timer for, and whether the loop was completed. -/
def restartExpired (o : Options) (answers : Nat → Answers) (now : Nat) :
    List Nat → Option Nat → Tracer → Tracer × Option Nat × Bool
  | [], next, s => (s, next, true)
  | i :: rest, next, s =>
    let t := s.tcbtab i
    if t.pid ≠ 0 ∧ t.delayed then
      if now > t.delayExpirationTime then
        let (s, ok) := s.restartDelayedTcb o (answers i) i
        if ok then restartExpired o answers now rest next s else (s, next, false)
      else restartExpired o answers now rest (some (s.earlier next i)) s
    else restartExpired o answers now rest next s

def restartDelayedTcbs (o : Options) (answers : Nat → Answers) (now : Nat) (s : Tracer) :
    Tracer × Bool :=
  let (s, next, completed) := restartExpired o answers now (List.range s.tcbtabsize) none s
  if !completed then (s, false)
  else
    match next with
    | none => (s, true)
    | some i => ({ s with timer := armDelayTimer (s.tcbtab i) s.timer }, true)

/-- `timer_sighandler`, which consumes the pending signal. -/
def timerSighandler (o : Options) (answers : Nat → Answers) (now : Nat) (s : Tracer) : Tracer :=
  let s := { s with timer := { delayTimerExpired s.timer with alarm := false } }
  if s.restartFailed then s
  else
    let (s, ok) := s.restartDelayedTcbs o answers now
    if ok then s else { s with restartFailed := true }

end Tracer

end Strace
