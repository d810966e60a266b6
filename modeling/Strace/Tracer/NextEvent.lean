import Strace.Tracer.Dispatch

/-! `strace.c`: `next_event`, which collects wait statuses in batches and hands
them out one by one, and the main loop around it. -/
namespace Strace

def wifstopped (status : UInt32) : Bool := status &&& 0xff == 0x7f
def wifexited (status : UInt32) : Bool := status &&& 0x7f == 0
def wifsignaled (status : UInt32) : Bool := status &&& 0x7f != 0 && status &&& 0x7f != 0x7f

def sigstop : Nat := 19
def sigtstp : Nat := 20
def sigttin : Nat := 21
def sigttou : Nat := 22

def ptraceEventExec : UInt32 := 4
def ptraceEventExit : UInt32 := 6
def ptraceEventSeccomp : UInt32 := 7
def ptraceEventStop : UInt32 := 128

structure Waited where
  pid : Nat
  status : UInt32
  /-- `PTRACE_GETSIGINFO` succeeds -/
  siginfo : Bool := true
  /-- the answer to `PTRACE_GETEVENTMSG`, 0 when it fails -/
  msg : Nat := 0
  positive : 0 < pid
  small : pid < 2 ^ 31
  deriving DecidableEq, Repr

variable (o : Options)

def signalStopEvent (t : Tcb) (w : Waited) : TraceEvent :=
  if wstopsig w.status = sigstop ∧ t.ignoreOneSigstop then .restart
  else if wstopsig w.status = o.syscallTrapSig then .syscallStop
  else if w.siginfo then .signalDeliveryStop
  else .groupStop

/-- The event of a stop. -/
def stopEvent (t : Tcb) (w : Waited) : TraceEvent :=
  let event := w.status >>> 16
  if event = 0 then signalStopEvent o t w
  else if event = ptraceEventStop then
    if wstopsig w.status ∈ [sigstop, sigtstp, sigttin, sigttou] then .groupStop else .restart
  else if event = ptraceEventExec then .stopBeforeExecve
  else if event = ptraceEventExit then .stopBeforeExit
  else if event = ptraceEventSeccomp then .seccomp
  else .restart

def traceEvent (t : Tcb) (w : Waited) : TraceEvent :=
  if wifsignaled w.status then .signalled
  else if wifexited w.status then .exited
  else stopEvent o t w

/-- The wait data of a status. -/
def waitData (t : Tcb) (w : Waited) : WaitData :=
  { te := traceEvent o t w
    status := w.status
    msg := if traceEvent o t w = .stopBeforeExecve then w.msg else 0 }

/-- The post-attach SIGSTOP is ignored once. -/
def noteSigstop (w : Waited) (t : Tcb) : Tcb :=
  if !wifsignaled w.status && !wifexited w.status && w.status >>> 16 == 0 &&
      wstopsig w.status == sigstop then { t with ignoreOneSigstop := false }
  else t

namespace Tracer

variable (s : Tracer)

def expandTcbtab : Tracer :=
  { s with tcbtabsize := if s.tcbtabsize = 0 then 16 else s.tcbtabsize + (s.tcbtabsize / 2 + 1) }

/-- `alloctcb`; `none` when it gives up. -/
def alloctcb (pid : Nat) : Option (Tracer × Nat) :=
  let s := if s.nprocs = s.tcbtabsize then s.expandTcbtab else s
  ((List.range s.tcbtabsize).find? fun i => (s.tcbtab i).pid = 0).map fun i =>
    ({ s.setTcb i { pid, currpers := s.currentPersonality } with nprocs := s.nprocs + 1 }, i)

theorem alloctcb_some {s s' : Tracer} {pid i : Nat} (allocated : s.alloctcb pid = some (s', i)) :
    ∃ u, (u = s ∨ u = s.expandTcbtab) ∧ (u.tcbtab i).pid = 0 ∧ i < u.tcbtabsize ∧
      s' = { u.setTcb i { pid, currpers := u.currentPersonality } with nprocs :=
        u.nprocs + 1 } := by
  unfold alloctcb at allocated
  generalize eq : (if s.nprocs = s.tcbtabsize then s.expandTcbtab else s) = u at allocated
  obtain ⟨j, found, put⟩ := Option.map_eq_some_iff.mp allocated
  obtain ⟨rfl, rfl⟩ := Prod.mk.inj put
  refine ⟨u, ?_, ?_, List.mem_range.mp (List.mem_of_find?_eq_some found), rfl⟩
  · grind
  · simpa using List.find?_some found

def attachChild (t : Tcb) : Tcb :=
  { t with
    attached := true
    startup := true
    ignoreOneSigstop := t.ignoreOneSigstop || o.postAttachSigstop }

def tcbOf (w : Waited) : Option (Tracer × Option Nat) :=
  match s.pid2tcb w.pid with
  | some i => some (s, some i)
  | none =>
    if wifstopped w.status && o.followfork then
      (s.alloctcb w.pid).map fun (s, i) => (s.setTcb i (attachChild o (s.tcbtab i)), some i)
    else some (s, none)

def storeWaitData (pos : Nat) (wd : WaitData) : Tracer :=
  { s with tcbWaitTab := fun k => if k = pos then wd else s.tcbWaitTab k }

def queuePending (i pos : Nat) : Tracer :=
  { s.setTcb i ((s.tcbtab i).setWaitDataIdx pos) with pendingTcps := s.pendingTcps ++ [i] }

def queueExtra (i pos : Nat) : Tracer :=
  { s with extraTcp := some i, waitExtraDataIdx := pos }

def queueTcb (i : Nat) (w : Waited) (pos : Nat) : Tracer :=
  let s := s.storeWaitData pos (waitData o (s.tcbtab i) w)
  let s := s.setTcb i (noteSigstop w (s.tcbtab i))
  if i ∈ s.pendingTcps then s.queueExtra i pos else s.queuePending i pos

def collect (o : Options) : List Waited → Nat → Tracer → Option (Tracer × List Waited)
  | [], _, s => some (s, [])
  | w :: rest, pos, s =>
    match s.tcbOf o w with
    | none => none
    | some (s, none) => collect o rest pos s
    | some (s, some i) =>
      let s := s.queueTcb o i w pos
      if s.extraTcp.isSome then some (s, [w])
      else (collect o rest (pos + 1) s).map fun (s, ws) => (s, w :: ws)

variable (a : Answers)

def startupTcb (s : Tracer) (i : Nat) : Tracer :=
  let t := s.tcbtab i
  if t.startup then
    let t := { t with startup := false }
    if t.grabbed then s.withStop i (getScno o a ⟨t, s.currentPersonality, s.timer, 0⟩).1
    else s.setTcb i t
  else s

def deliver (s : Tracer) (i : Nat) : Tracer × WaitData :=
  let s := (s.startupTcb o a i).setCurrentTcp (some i)
  (s, s.tcbWaitTab (s.tcbtab i).waitDataIdx)

def takePending (rest : List Nat) : Tracer := { s with pendingTcps := rest }

def takeExtra (i : Nat) : Tracer :=
  { s with extraTcp := none }.setTcb i ((s.tcbtab i).setWaitDataIdx s.waitExtraDataIdx)

def nextQueued (s : Tracer) : Option (Tracer × WaitData) :=
  match s.pendingTcps, s.extraTcp with
  | i :: rest, _ => some ((s.takePending rest).deliver o a i)
  | [], some i => some ((s.takeExtra i).deliver o a i)
  | [], none => none

def afterWait (results : List Waited) (s : Tracer) :
    Option (Tracer × WaitData × List Waited) :=
  (s.collect o results 0).map fun (s, batch) =>
    match s.pendingTcps with
    | i :: rest =>
      let (s, wd) := (s.takePending rest).deliver o a i
      (s, wd, batch)
    | [] => (s.storeWaitData 0 { te := .next }, { te := .next }, batch)

end Tracer

/-! ## The main loop -/

inductive Control where
  | top
  | waiting (unblocked : Bool)
  | ready (wd : WaitData)
  | stopped

structure Returned where
  tcb : Nat
  pid : Nat
  wd : WaitData
  status : Option Waited

structure Loop where
  tracer : Tracer
  control : Control := .top
  batch : List Waited := []
  collected : List Waited := []
  returned : List Returned := []

/-- What happens next. -/
inductive Move where
  | next (a : Answers)
  | waited (a : Answers) (results : List Waited)
  | dispatch (a : Answers)
  /-- the delay timer runs out -/
  | expire (now : Nat)
  /-- its signal is delivered -/
  | alarm (answers : Nat → Answers) (now : Nat)
  /-- strace itself is told to stop -/
  | interrupt

namespace Loop

/-- `next_event` returns `wd`. -/
def returning (m : Loop) (s : Tracer) (wd : WaitData) : Loop :=
  let returned := s.currentTcp.toList.map fun i =>
    { tcb := i
      pid := (s.tcbtab i).pid
      wd
      status := m.batch[(s.tcbtab i).waitDataIdx]? }
  { m with tracer := s, control := .ready wd, returned := m.returned ++ returned }

def callNext (a : Answers) (m : Loop) : Loop :=
  if m.tracer.interrupted then { m with control := .stopped }
  else
    match m.tracer.nextQueued o a with
    | some (s, wd) => m.returning s wd
    | none => { m with control := .waiting m.tracer.timer.armed }

def callWaited (a : Answers) (unblocked : Bool) (results : List Waited) (m : Loop) :
    Loop :=
  if unblocked && m.tracer.restartFailed then { m with control := .stopped }
  else
    match m.tracer.afterWait o a results with
    | none => { m with control := .stopped }
    | some (s, wd, batch) =>
      let m := { m with batch, collected := m.collected ++ batch }
      if wd.te = .next then { m with tracer := s, control := .ready wd } else m.returning s wd

def callDispatch (a : Answers) (wd : WaitData) (m : Loop) : Loop :=
  let (tracer, go) := Tracer.dispatchEvent o a m.tracer (some wd)
  { m with tracer, control := if go then .top else .stopped }

def expireTimer (timer : DelayTimer) : DelayTimer := { timer with expiry := none, alarm := true }

def step (m : Loop) : Move → Option Loop
  | .next a => match m.control with
    | .top => some (m.callNext o a)
    | _ => none
  | .waited a results => match m.control with
    | .waiting unblocked => some (m.callWaited o a unblocked results)
    | _ => none
  | .dispatch a => match m.control with
    | .ready wd => some (m.callDispatch o a wd)
    | _ => none
  | .expire now => match m.tracer.timer.expiry with
    | some e =>
      if e ≤ now then
        some { m with tracer := { m.tracer with timer := expireTimer m.tracer.timer } }
      else none
    | none => none
  | .alarm answers now => match m.control with
    | .waiting true =>
      if m.tracer.timer.alarm then
        some { m with tracer := m.tracer.timerSighandler o answers now }
      else none
    | _ => none
  | .interrupt => some { m with tracer := { m.tracer with interrupted := true } }

/-- The steps of the main loop. -/
inductive Moved (o : Options) (m : Loop) : Move → Loop → Prop
  | next (a : Answers) (top : m.control = .top) : Moved o m (.next a) (m.callNext o a)
  | waited (a : Answers) (results : List Waited) (unblocked : Bool)
      (waiting : m.control = .waiting unblocked) :
      Moved o m (.waited a results) (m.callWaited o a unblocked results)
  | dispatch (a : Answers) (wd : WaitData) (ready : m.control = .ready wd) :
      Moved o m (.dispatch a) (m.callDispatch o a wd)
  | expire (now : Nat) : Moved o m (.expire now)
      { m with tracer := { m.tracer with timer := expireTimer m.tracer.timer } }
  | alarm (answers : Nat → Answers) (now : Nat) (waiting : m.control = .waiting true) :
      Moved o m (.alarm answers now) { m with tracer := m.tracer.timerSighandler o answers now }
  | interrupt : Moved o m .interrupt { m with tracer := { m.tracer with interrupted := true } }

theorem step_moved {o : Options} {m m' : Loop} {x : Move} (moved : m.step o x = some m') :
    Moved o m x m' := by
  unfold step at moved
  split at moved
  · split at moved
    · next top =>
      obtain rfl := Option.some.inj moved
      exact .next _ top
    · cases moved
  · split at moved
    · next waiting =>
      obtain rfl := Option.some.inj moved
      exact .waited _ _ _ waiting
    · cases moved
  · split at moved
    · next ready =>
      obtain rfl := Option.some.inj moved
      exact .dispatch _ _ ready
    · cases moved
  · split at moved
    · split at moved
      · obtain rfl := Option.some.inj moved
        exact .expire _
      · cases moved
    · cases moved
  · split at moved
    · next waiting =>
      split at moved
      · obtain rfl := Option.some.inj moved
        exact .alarm _ _ waiting
      · cases moved
    · cases moved
  · obtain rfl := Option.some.inj moved
    exact .interrupt

/-- Before the first event nothing is queued. -/
structure Initial (m : Loop) : Prop where
  control : m.control = .top
  pending : m.tracer.pendingTcps = []
  extra : m.tracer.extraTcp = none
  batch : m.batch = []
  collected : m.collected = []
  returned : m.returned = []

end Loop

end Strace
