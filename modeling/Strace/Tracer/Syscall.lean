import Strace.Tracer.Delay

/-! `syscall.c`: what is done at a syscall stop. The tracee's answers to
ptrace requests are inputs; printing is left out. -/
namespace Strace

inductive ScnoAnswer where
  | failed
  | ignored
  | number (n : Nat)
  deriving DecidableEq, Repr

structure Answers where
  /-- `clock_gettime(CLOCK_MONOTONIC)` -/
  now : Nat := 0
  /-- the registers of the tracee can be read -/
  regsRead : Bool := true
  /-- the personality they show, when they show one -/
  newPers : Option Nat := none
  scno : ScnoAnswer := .number 0
  argsRead : Bool := true
  /-- the subcall that the arguments of a multiplexing syscall select -/
  subcall : Option Nat := none
  /-- `pathtrace_match` -/
  pathMatch : Bool := true
  /-- what `set_scno` returns -/
  setScno : Int := 0
  /-- some memory has been poked -/
  poked : Bool := true
  /-- what the decoder of the syscall returns -/
  sysFunc : Nat := 0
  /-- `ptrace_syscall_info_is_exit` -/
  infoExit : Bool := true
  /-- the error number in the result, 0 for none -/
  error : Nat := 0
  /-- the result can be changed -/
  resultWritten : Bool := true
  /-- `ptrace_restart` fails -/
  restartFails : Bool := false
  deriving DecidableEq, Repr

structure Stop where
  tcb : Tcb
  personality : Nat
  timer : DelayTimer := {}
  sig : Nat := 0

def updatePersonality (personality : Nat) (s : Stop) : Stop :=
  { s with personality, tcb := { s.tcb with currpers := personality } }

def getSyscallRegs (a : Answers) (s : Stop) : Option Stop :=
  if a.regsRead then
    some (match a.newPers with
      | some p => updatePersonality p s
      | none => s)
  else none

variable (o : Options)

def scnoInRange (scno personality : Nat) : Bool :=
  decide (scno < (o.nsyscallVec personality).toNat)

def scnoIsValid (scno personality : Nat) : Bool :=
  scnoInRange o scno personality && (o.sysentVec personality scno).sysFunc &&
    ((o.sysentVec personality scno).sysFlags &&& traceIndirectSubcall == 0)

def setScnoEntry (scno personality : Nat) (t : Tcb) : Tcb :=
  { t with
    scno
    sEnt := some (o.sysentVec personality scno)
    qualTrace := isNumberInSetArray scno o.traceSet personality
    qualInject := isNumberInSetArray scno o.injectSet personality }

def getScno (a : Answers) (s : Stop) : Stop × Int :=
  let s := { s with tcb := { s.tcb with
    scno := noScno, sEnt := none, qualTrace := true, qualInject := false } }
  match getSyscallRegs a s with
  | none => (s, -1)
  | some s =>
    match a.scno with
    | .failed => (s, -1)
    | .ignored => (s, 0)
    | .number n =>
      let scno := o.shuffleScno s.personality n
      if scnoIsValid o scno s.personality then
        ({ s with tcb := setScnoEntry o scno s.personality s.tcb }, 1)
      else
        ({ s with tcb := { s.tcb with scno, sEnt := some stubSysent } }, 1)

def decodeSubcall (a : Answers) (s : Stop) : Stop :=
  match (tcpSysent s.tcb).sen, a.subcall with
  | .syscall, some n | .ipc, some n | .socketcall, some n =>
    { s with tcb := setScnoEntry o n s.personality s.tcb }
  | _, _ => s

def syscallEnteringDecode (a : Answers) (s : Stop) : Stop × Int :=
  let (s, res) := getScno o a s
  if res ≠ 1 then (s, res)
  else if !a.argsRead then (s, -1)
  else (decodeSubcall o a s, 1)

variable (s : Stop)

def tcbInjectOpts : Option InjectOpts :=
  if scnoInRange o s.tcb.scno s.personality then
    (s.tcb.injectVec s.personality).map (· s.tcb.scno)
  else none

def setInjectOpts (opts : InjectOpts) (s : Stop) : Stop :=
  let table (vec : Nat → InjectOpts) (n : Nat) := if n = s.tcb.scno then opts else vec n
  let injectVec (p : Nat) :=
    if p = s.personality then (s.tcb.injectVec p).map table else s.tcb.injectVec p
  { s with tcb := { s.tcb with injectVec } }

def copyInjectVec : Stop :=
  let injectVec (p : Nat) :=
    if p = s.personality then some ((s.tcb.injectVec p).getD (o.injectVec p)) else s.tcb.injectVec p
  { s with tcb := { s.tcb with injectVec } }

def injectSignal (data : InjectData) (s : Stop) : Stop :=
  if data.signal then { s with sig := data.signo.toNat } else s

def injectScno (a : Answers) (data : InjectData) (s : Stop) : Stop :=
  let scno : Int := if data.syscall then o.shuffleScno s.personality data.scno.toNat else -1
  if (data.error || data.retval) ∧ a.setScno ≥ 0 then
    { s with tcb := { s.tcb with
      tampered := true
      tamperedNoFail := s.tcb.tamperedNoFail || decide (scno ≠ -1) } }
  else s

def injectPokeEnter (a : Answers) (data : InjectData) (s : Stop) : Stop :=
  if data.pokeEnter ∧ a.poked then { s with tcb := { s.tcb with tamperedPoked := true } } else s

def injectPokeExit (data : InjectData) (s : Stop) : Stop :=
  if data.pokeExit then { s with tcb := { s.tcb with injectPokeExit := true } } else s

def delayStop (now : Nat) (idx : UInt16) (isenter : Bool) (s : Stop) : Stop :=
  { s with
    tcb := (delayTcb o now idx isenter s.tcb s.timer).1
    timer := (delayTcb o now idx isenter s.tcb s.timer).2 }

def injectDelayEnter (a : Answers) (data : InjectData) (s : Stop) : Stop :=
  if data.delayEnter then delayStop o a.now data.delayIdx true s else s

def injectDelayExit (data : InjectData) (s : Stop) : Stop :=
  if data.delayExit then { s with tcb := { s.tcb with injectDelayExit := true } } else s

def injectEntering (a : Answers) (data : InjectData) (s : Stop) : Stop :=
  let s := injectSignal data s
  let s := injectScno o a data s
  let s := injectPokeEnter a data s
  let s := injectPokeExit data s
  let s := injectDelayEnter o a data s
  injectDelayExit data s

def countInvocation (opts : InjectOpts) : InjectOpts × Bool :=
  if opts.first = 0 ∨ opts.last = 0 then (opts, false)
  else
    let opts := if opts.last ≠ injectLastInf then { opts with last := opts.last - 1 } else opts
    let opts := { opts with first := opts.first - 1 }
    if opts.first ≠ 0 then (opts, false)
    else ({ opts with first := opts.step }, true)

def tamperWithSyscallEntering (a : Answers) (s : Stop) : Stop :=
  let s := copyInjectVec o s
  match tcbInjectOpts o s with
  | none => s
  | some opts =>
    let (counted, selected) := countInvocation opts
    let s := setInjectOpts counted s
    if selected && !s.tcb.recovering then injectEntering o a opts.data s else s

def isExec : Sen → Bool
  | .execve | .execveat | .execv => true
  | _ => false

def checkHideLog : Stop :=
  if s.tcb.hideLog then
    let exec := isExec (tcpSysent s.tcb).sen
    { s with tcb := { s.tcb with
      qualInject := false
      hideLog := !exec
      checkExecSyscall := s.tcb.checkExecSyscall || exec } }
  else s

def syscallEnteringTrace (a : Answers) (s : Stop) : Stop × Int :=
  let s := checkHideLog s
  if s.tcb.hideLog || !s.tcb.qualTrace || (o.tracingPaths && !a.pathMatch) then
    ({ s with tcb := { s.tcb with filtered := true } }, 0)
  else
    let s := { s with tcb := { s.tcb with filtered := false } }
    let s := if s.tcb.qualInject then tamperWithSyscallEntering o a s else s
    (s, a.sysFunc)

def syscallEnteringFinish (res : Int) (s : Stop) : Stop :=
  { s with tcb := { s.tcb with insyscall := true, sysFuncRval := res.toNat } }

def checkErrno (t : Tcb) : Bool :=
  ((tcpSysent t).sysFlags &&& syscallNeverFails == 0 || t.tampered) && !t.tamperedNoFail

def getError (a : Answers) (check : Bool) (s : Stop) : Stop :=
  { s with tcb := { s.tcb with uError := if a.infoExit || check then a.error else 0 } }

def getSyscallResult (a : Answers) (s : Stop) : Stop × Int :=
  match getSyscallRegs a s with
  | none => (s, -1)
  | some s => (getError a (checkErrno s.tcb) s, 1)

def syscallExitingDecode (a : Answers) (s : Stop) : Stop × Int :=
  if s.tcb.filtered then (s, 0)
  else
    let s :=
      if s.tcb.checkExecSyscall then { s with tcb := { s.tcb with hideLog := true } } else s
    getSyscallResult a (updatePersonality s.tcb.currpers s)

def tamperUnexpected (t : Tcb) : Bool := decide (t.uError = 0) ^^ t.tamperedNoFail

def setError (a : Answers) (newError : Nat) (s : Stop) : Stop :=
  if newError = s.tcb.uError ∨ newError > maxErrnoValue ∨ !a.resultWritten then s
  else { s with tcb := { s.tcb with uError := newError } }

def setSuccess (a : Answers) (s : Stop) : Stop :=
  if a.resultWritten then { s with tcb := { s.tcb with uError := 0 } } else s

def pokeOnExit (a : Answers) (s : Stop) : Stop :=
  if s.tcb.injectPokeExit ∧
    a.poked then { s with tcb := { s.tcb with tamperedPoked := true } } else s

def delayOnExit (a : Answers) (data : InjectData) (s : Stop) : Stop :=
  if s.tcb.injectDelayExit then delayStop o a.now data.delayIdx false s else s

def tamperResult (a : Answers) (data : InjectData) (s : Stop) : Stop × Int :=
  if !s.tcb.tampered then (s, 0)
  else if tamperUnexpected s.tcb then (s, 1)
  else if data.retval then (setSuccess a s, 0)
  else (setError a (o.retvalVec data.rvalIdx) s, 0)

def tamperWithSyscallExiting (a : Answers) (s : Stop) : Stop × Int :=
  match tcbInjectOpts o s with
  | none => (s, 0)
  | some opts => tamperResult o a opts.data (delayOnExit o a opts.data (pokeOnExit a s))

def syscallExitingTrace (a : Answers) (res : Int) (s : Stop) : Stop × Int :=
  let s :=
    if s.tcb.tampered || s.tcb.injectDelayExit || s.tcb.injectPokeExit then
      (tamperWithSyscallExiting o a s).1
    else s
  (s, if res ≠ 1 then res else 0)

def syscallExitingFinish : Stop :=
  { s with tcb := { s.tcb with
    insyscall := false
    tampered := false
    injectDelayExit := false
    injectPokeExit := false
    tamperedDelayed := false
    tamperedPoked := false
    sysFuncRval := 0 } }

def traceSyscall (a : Answers) (s : Stop) : Stop × Int :=
  if s.tcb.entering then
    let (s, res) := syscallEnteringDecode o a s
    if res = 0 then (s, 0)
    else
      let (s, res) := if res = 1 then syscallEnteringTrace o a s else (s, res)
      (syscallEnteringFinish res s, res)
  else
    let (s, res) := syscallExitingDecode a s
    let (s, res) := if res ≠ 0 then syscallExitingTrace o a res s else (s, res)
    (syscallExitingFinish s, res)

/-! ## What a stop leaves alone -/

def Tcb.Injected (t t' : Tcb) : Prop :=
  t' = { t with
    tampered := t'.tampered
    tamperedNoFail := t'.tamperedNoFail
    tamperedPoked := t'.tamperedPoked
    tamperedDelayed := t'.tamperedDelayed
    injectPokeExit := t'.injectPokeExit
    injectDelayExit := t'.injectDelayExit
    delayed := t'.delayed
    delayExpirationTime := t'.delayExpirationTime
    injectVec := t'.injectVec
    uError := t'.uError }

structure Stop.Tamper (s s' : Stop) : Prop where
  tcb : s.tcb.Injected s'.tcb
  personality : s'.personality = s.personality

theorem Tcb.Injected.trans {t u v : Tcb} (h : t.Injected u) (h' : u.Injected v) : t.Injected v := by
  rw [h] at h'
  exact h'

theorem Stop.Tamper.refl : s.Tamper s := ⟨rfl, rfl⟩

theorem Stop.Tamper.trans {s u v : Stop} (h : s.Tamper u) (h' : u.Tamper v) : s.Tamper v :=
  ⟨h.tcb.trans h'.tcb, h'.personality.trans h.personality⟩

structure Tcb.Same (t t' : Tcb) : Prop where
  pid : t'.pid = t.pid
  insyscall : t'.insyscall = t.insyscall
  filter : t'.seccompFilter = t.seccompFilter
  scno : t'.scno = t.scno
  sEnt : t'.sEnt = t.sEnt
  currpers : t'.currpers = t.currpers
  recovering : t'.recovering = t.recovering
  skipDetach : t'.skipDetachOnFirstExec = t.skipDetachOnFirstExec
  waitDataIdx : t'.waitDataIdx = t.waitDataIdx
  delayedWaitData : t'.delayedWaitData = t.delayedWaitData

structure Stop.Same (s s' : Stop) : Prop where
  tcb : s.tcb.Same s'.tcb
  personality : s'.personality = s.personality

theorem Tcb.Same.trans {t u v : Tcb} (h : t.Same u) (h' : u.Same v) : t.Same v :=
  ⟨h'.pid.trans h.pid, h'.insyscall.trans h.insyscall, h'.filter.trans h.filter,
    h'.scno.trans h.scno, h'.sEnt.trans h.sEnt, h'.currpers.trans h.currpers,
    h'.recovering.trans h.recovering, h'.skipDetach.trans h.skipDetach,
    h'.waitDataIdx.trans h.waitDataIdx, h'.delayedWaitData.trans h.delayedWaitData⟩

theorem Stop.Same.trans {s u v : Stop} (h : s.Same u) (h' : u.Same v) : s.Same v :=
  ⟨h.tcb.trans h'.tcb, h'.personality.trans h.personality⟩

theorem Stop.Tamper.same {s s' : Stop} (h : s.Tamper s') : s.Same s' := by
  have tcb := h.tcb
  refine ⟨?_, h.personality⟩
  rw [tcb]
  exact ⟨rfl, rfl, rfl, rfl, rfl, rfl, rfl, rfl, rfl, rfl⟩

section
variable (o : Options) (a : Answers) (data : InjectData) (s : Stop)

theorem injectSignal_tamper : s.Tamper (injectSignal data s) := by
  unfold injectSignal
  split <;> exact ⟨rfl, rfl⟩

theorem injectScno_tamper : s.Tamper (injectScno o a data s) := by
  unfold injectScno
  dsimp only
  split <;> exact ⟨rfl, rfl⟩

theorem injectPokeEnter_tamper : s.Tamper (injectPokeEnter a data s) := by
  unfold injectPokeEnter
  split <;> exact ⟨rfl, rfl⟩

theorem injectPokeExit_tamper : s.Tamper (injectPokeExit data s) := by
  unfold injectPokeExit
  split <;> exact ⟨rfl, rfl⟩

theorem injectDelayEnter_tamper : s.Tamper (injectDelayEnter o a data s) := by
  unfold injectDelayEnter
  split <;> exact ⟨rfl, rfl⟩

theorem injectDelayExit_tamper : s.Tamper (injectDelayExit data s) := by
  unfold injectDelayExit
  split <;> exact ⟨rfl, rfl⟩

theorem injectEntering_tamper : s.Tamper (injectEntering o a data s) :=
  (injectSignal_tamper data s).trans <| (injectScno_tamper o a data _).trans <|
    (injectPokeEnter_tamper a data _).trans <| (injectPokeExit_tamper data _).trans <|
      (injectDelayEnter_tamper o a data _).trans (injectDelayExit_tamper data _)

theorem tamperWithSyscallEntering_tamper : s.Tamper (tamperWithSyscallEntering o a s) := by
  have copied : s.Tamper (copyInjectVec o s) := ⟨rfl, rfl⟩
  refine copied.trans ?_
  unfold tamperWithSyscallEntering
  dsimp only
  split
  · exact .refl _
  · next opts _ =>
    have counted : (copyInjectVec o s).Tamper
        (setInjectOpts (countInvocation opts).1 (copyInjectVec o s)) := ⟨rfl, rfl⟩
    refine counted.trans ?_
    split
    · exact injectEntering_tamper o a opts.data _
    · exact .refl _

theorem checkHideLog_same : s.Same (checkHideLog s) := by
  unfold checkHideLog
  split <;> exact ⟨⟨rfl, rfl, rfl, rfl, rfl, rfl, rfl, rfl, rfl, rfl⟩, rfl⟩

theorem syscallEnteringTrace_same : s.Same (syscallEnteringTrace o a s).1 := by
  refine (checkHideLog_same s).trans ?_
  unfold syscallEnteringTrace
  dsimp only
  split
  · exact ⟨⟨rfl, rfl, rfl, rfl, rfl, rfl, rfl, rfl, rfl, rfl⟩, rfl⟩
  · have visible : (checkHideLog s).Same
        { checkHideLog s with tcb := { (checkHideLog s).tcb with filtered := false } } :=
      ⟨⟨rfl, rfl, rfl, rfl, rfl, rfl, rfl, rfl, rfl, rfl⟩, rfl⟩
    refine visible.trans ?_
    split
    · exact (tamperWithSyscallEntering_tamper o a _).same
    · exact (Stop.Tamper.refl _).same

theorem syscallEnteringTrace_nonneg : 0 ≤ (syscallEnteringTrace o a s).2 := by
  unfold syscallEnteringTrace
  dsimp only
  split
  · exact Int.le_refl 0
  · exact Int.natCast_nonneg a.sysFunc

theorem pokeOnExit_tamper : s.Tamper (pokeOnExit a s) := by
  unfold pokeOnExit
  split <;> exact ⟨rfl, rfl⟩

theorem delayOnExit_tamper : s.Tamper (delayOnExit o a data s) := by
  unfold delayOnExit
  split <;> exact ⟨rfl, rfl⟩

theorem setError_tamper (newError : Nat) : s.Tamper (setError a newError s) := by
  unfold setError
  split <;> exact ⟨rfl, rfl⟩

theorem setSuccess_tamper : s.Tamper (setSuccess a s) := by
  unfold setSuccess
  split <;> exact ⟨rfl, rfl⟩

theorem tamperResult_tamper : s.Tamper (tamperResult o a data s).1 := by
  unfold tamperResult
  split
  · exact .refl s
  · split
    · exact .refl s
    · grind [setSuccess_tamper, setError_tamper]

theorem tamperWithSyscallExiting_tamper : s.Tamper (tamperWithSyscallExiting o a s).1 := by
  unfold tamperWithSyscallExiting
  split
  · exact .refl s
  · next opts _ =>
    exact (pokeOnExit_tamper a s).trans <| (delayOnExit_tamper o a opts.data _).trans
      (tamperResult_tamper o a opts.data _)

theorem syscallExitingTrace_tamper (res : Int) : s.Tamper (syscallExitingTrace o a res s).1 := by
  unfold syscallExitingTrace
  split
  · exact tamperWithSyscallExiting_tamper o a s
  · exact .refl s

end

end Strace
