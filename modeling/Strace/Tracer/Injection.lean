import Strace.Tracer.Traced

/-! The injection that a syscall stop makes, and what it leaves in the tcb. -/
namespace Strace

structure InjectFlags where
  tampered : Bool := false
  injectDelayExit : Bool := false
  injectPokeExit : Bool := false
  tamperedDelayed : Bool := false
  tamperedPoked : Bool := false
  tamperedNoFail : Bool := false
  deriving DecidableEq, Repr

def Tcb.injectFlags (t : Tcb) : InjectFlags where
  tampered := t.tampered
  injectDelayExit := t.injectDelayExit
  injectPokeExit := t.injectPokeExit
  tamperedDelayed := t.tamperedDelayed
  tamperedPoked := t.tamperedPoked
  tamperedNoFail := t.tamperedNoFail

/-- Nothing is injected between `s` and `s'`. -/
structure Stop.Calm (s s' : Stop) : Prop where
  flags : s'.tcb.injectFlags = s.tcb.injectFlags
  delayed : s'.tcb.delayed = s.tcb.delayed
  expiration : s'.tcb.delayExpirationTime = s.tcb.delayExpirationTime
  timer : s'.timer = s.timer
  sig : s'.sig = s.sig

theorem Stop.Calm.refl (s : Stop) : s.Calm s := ⟨rfl, rfl, rfl, rfl, rfl⟩

theorem Stop.Calm.trans {s u v : Stop} (h : s.Calm u) (h' : u.Calm v) : s.Calm v :=
  ⟨h'.flags.trans h.flags, h'.delayed.trans h.delayed, h'.expiration.trans h.expiration,
    h'.timer.trans h.timer, h'.sig.trans h.sig⟩

variable (o : Options)

def selection (s : Stop) : Option InjectData :=
  match tcbInjectOpts o (copyInjectVec o s) with
  | none => none
  | some opts => if (countInvocation opts).2 && !s.tcb.recovering then some opts.data else none

def countedStop (s : Stop) : Stop :=
  match tcbInjectOpts o (copyInjectVec o s) with
  | none => copyInjectVec o s
  | some opts => setInjectOpts (countInvocation opts).1 (copyInjectVec o s)

def tracedInjection (a : Answers) (s : Stop) : Option InjectData :=
  let s := checkHideLog s
  if s.tcb.hideLog || !s.tcb.qualTrace || (o.tracingPaths && !a.pathMatch) then none
  else if s.tcb.qualInject then selection o s
  else none

def injection (a : Answers) (s : Stop) : Option InjectData :=
  let (s, res) := syscallEnteringDecode o a s
  if res = 1 then tracedInjection o a s else none

def Stop.Injected (a : Answers) (s : Stop) : Option InjectData → Stop → Prop
  | some data, s' => ∃ u, s.Calm u ∧ (injectEntering o a data u).Calm s'
  | none, s' => s.Calm s'

section
variable {o : Options} {a : Answers} {s : Stop} {t t' : Tcb} {u v : Stop} {data : Option InjectData}
  {now : Nat} {asked : Option Nat}

theorem Tcb.Decoded.calm (h : t.Decoded t') : t'.injectFlags = t.injectFlags ∧
    t'.delayed = t.delayed ∧ t'.delayExpirationTime = t.delayExpirationTime := by
  rw [h]
  exact ⟨rfl, rfl, rfl⟩

theorem Tcb.Resulted.calm (h : t.Resulted t') : t'.injectFlags = t.injectFlags ∧
    t'.delayed = t.delayed ∧ t'.delayExpirationTime = t.delayExpirationTime := by
  rw [h]
  exact ⟨rfl, rfl, rfl⟩

theorem syscallEnteringDecode_calm (s : Stop) : s.Calm (syscallEnteringDecode o a s).1 := by
  obtain ⟨decoded, timer, sig⟩ := syscallEnteringDecode_decoded s
  obtain ⟨flags, delayed, expiration⟩ := decoded.calm
  exact ⟨flags, delayed, expiration, timer, sig⟩

theorem syscallExitingDecode_calm (s : Stop) : s.Calm (syscallExitingDecode a s).1 := by
  obtain ⟨resulted, timer, sig⟩ := syscallExitingDecode_resulted s
  obtain ⟨flags, delayed, expiration⟩ := resulted.calm
  exact ⟨flags, delayed, expiration, timer, sig⟩

theorem checkHideLog_calm (s : Stop) : s.Calm (checkHideLog s) := by
  unfold checkHideLog
  split
  · exact ⟨rfl, rfl, rfl, rfl, rfl⟩
  · exact Stop.Calm.refl s

theorem syscallEnteringFinish_calm (res : Int) (s : Stop) : s.Calm (syscallEnteringFinish res s) :=
  ⟨rfl, rfl, rfl, rfl, rfl⟩

theorem Stop.Injected.calm (h : s.Injected o a data u) (h' : u.Calm v) : s.Injected o a data v := by
  cases data with
  | none => exact h.trans h'
  | some data =>
    obtain ⟨w, first, last⟩ := h
    exact ⟨w, first, last.trans h'⟩

theorem Stop.Calm.injected (h : s.Calm u) (h' : u.Injected o a data v) : s.Injected o a data v := by
  cases data with
  | none => exact h.trans h'
  | some data =>
    obtain ⟨w, first, last⟩ := h'
    exact ⟨w, h.trans first, last⟩

theorem countedStop_recovering (s : Stop) :
    (countedStop o s).tcb.recovering = s.tcb.recovering := by
  unfold countedStop
  split <;> rfl

theorem tamperWithSyscallEntering_eq (s : Stop) : tamperWithSyscallEntering o a s =
    match selection o s with
    | some data => injectEntering o a data (countedStop o s)
    | none => countedStop o s := by
  have recovering := countedStop_recovering (o := o) s
  unfold tamperWithSyscallEntering selection
  unfold countedStop at recovering ⊢
  dsimp only
  cases found : tcbInjectOpts o (copyInjectVec o s) with
  | none => rfl
  | some opts =>
    grind

theorem countedStop_calm (s : Stop) : s.Calm (countedStop o s) := by
  unfold countedStop
  split <;> exact ⟨rfl, rfl, rfl, rfl, rfl⟩

theorem tamperWithSyscallEntering_selection (s : Stop) :
    s.Injected o a (selection o s) (tamperWithSyscallEntering o a s) := by
  have counted := countedStop_calm (o := o) s
  rw [tamperWithSyscallEntering_eq]
  cases selection o s with
  | none => exact counted
  | some data => exact ⟨_, counted, Stop.Calm.refl _⟩

theorem syscallEnteringTrace_injection (s : Stop) :
    s.Injected o a (tracedInjection o a s) (syscallEnteringTrace o a s).1 := by
  refine (checkHideLog_calm s).injected ?_
  unfold syscallEnteringTrace tracedInjection
  dsimp only
  split
  · exact ⟨rfl, rfl, rfl, rfl, rfl⟩
  · have visible : (checkHideLog s).Calm
        { checkHideLog s with tcb := { (checkHideLog s).tcb with filtered := false } } :=
      ⟨rfl, rfl, rfl, rfl, rfl⟩
    split
    · exact visible.injected (tamperWithSyscallEntering_selection _)
    · exact visible

theorem traceSyscall_injection (entering : s.tcb.insyscall = false) :
    s.Injected o a (injection o a s) (traceSyscall o a s).1 := by
  have traced := traceSyscall_traced o a s
  have decoded := syscallEnteringDecode_calm (o := o) (a := a) s
  unfold injection
  dsimp only
  generalize traceSyscall o a s = r at traced
  cases traced with
  | entered n _ shows =>
    rw [if_pos (syscallEnteringDecode_shows shows).1]
    exact decoded.injected <| (syscallEnteringTrace_injection _).calm
      (syscallEnteringFinish_calm _ _)
  | ignored _ read ignored =>
    rw [syscallEnteringDecode_ignored read ignored]
    exact decoded
  | unread _ failed hidden =>
    rw [syscallEnteringDecode_failed failed hidden]
    exact decoded.trans (syscallEnteringFinish_calm _ _)
  | passed inside | exited inside => rw [entering] at inside; cases inside

theorem injection_some {data : InjectData} (entering : s.tcb.insyscall = false)
    (made : injection o a s = some data) :
    0 ≤ (traceSyscall o a s).2 ∧ (traceSyscall o a s).1.tcb.insyscall = true := by
  have shown : ∃ n, a.Shows n := by
    by_contra hidden
    unfold injection at made
    dsimp only at made
    by_cases failed : a.regsRead = false ∨ a.scno ≠ .ignored
    · rw [syscallEnteringDecode_failed failed hidden] at made
      cases made
    · have found : a.regsRead = true ∧ a.scno = .ignored := by simpa using failed
      rw [syscallEnteringDecode_ignored found.1 found.2] at made
      cases made
  obtain ⟨n, shows⟩ := shown
  obtain ⟨entered, found⟩ := traceSyscall_entered entering shows
  exact ⟨found, entered.insyscall⟩

/-! ## The flags of an injection -/

def tampers (a : Answers) (data : InjectData) : Bool :=
  (data.error || data.retval) && decide (0 ≤ a.setScno)

theorem injectScno_flags (data : InjectData) (s : Stop) :
    (injectScno o a data s).tcb.tampered = (s.tcb.tampered || tampers a data) ∧
      (injectScno o a data s).tcb.tamperedNoFail =
        (s.tcb.tamperedNoFail || tampers a data && data.syscall) := by
  unfold injectScno tampers
  by_cases asked : (data.error || data.retval) = true
  · grind
  · simp [asked]

theorem injectEntering_flags (data : InjectData) (s : Stop) :
    (injectEntering o a data s).tcb.tampered = (s.tcb.tampered || tampers a data) ∧
      (injectEntering o a data s).tcb.tamperedNoFail =
        (s.tcb.tamperedNoFail || tampers a data && data.syscall) := by
  have signal : (injectSignal data s).tcb = s.tcb := by
    unfold injectSignal
    split <;> rfl
  have scno := injectScno_flags (o := o) (a := a) data (injectSignal data s)
  rw [signal] at scno
  have rest (u : Stop) :
      (injectDelayExit data (injectDelayEnter o a data (injectPokeExit data
        (injectPokeEnter a data u)))).tcb.tampered = u.tcb.tampered ∧
      (injectDelayExit data (injectDelayEnter o a data (injectPokeExit data
        (injectPokeEnter a data u)))).tcb.tamperedNoFail = u.tcb.tamperedNoFail := by
    unfold injectDelayExit injectDelayEnter injectPokeExit injectPokeEnter
    repeat' split
    all_goals exact ⟨rfl, rfl⟩
  exact ⟨(rest _).1.trans scno.1, (rest _).2.trans scno.2⟩

/-! ## The delay and the signal of an injection -/

structure Stop.Paced (s s' : Stop) : Prop where
  delayed : s'.tcb.delayed = s.tcb.delayed
  expiration : s'.tcb.delayExpirationTime = s.tcb.delayExpirationTime
  timer : s'.timer = s.timer

theorem Stop.Paced.refl (s : Stop) : s.Paced s := ⟨rfl, rfl, rfl⟩

theorem Stop.Paced.trans (h : s.Paced u) (h' : u.Paced v) : s.Paced v :=
  ⟨h'.delayed.trans h.delayed, h'.expiration.trans h.expiration, h'.timer.trans h.timer⟩

theorem Stop.Calm.paced (h : s.Calm u) : s.Paced u :=
  ⟨h.delayed, h.expiration, h.timer⟩

def delayedTimer (now diff : Nat) (timer : DelayTimer) : DelayTimer :=
  if timer.created ∧ timer.gettime now ≠ 0 ∧ diff > timer.gettime now then timer
  else { timer with created := true, expiry := some (now + diff), armed := true }

def Stop.Delay (now : Nat) (s : Stop) : Option Nat → Stop → Prop
  | none, s' => s.Paced s'
  | some diff, s' => s'.tcb.delayed = true ∧ s'.tcb.delayExpirationTime = now + diff ∧
      s'.timer = delayedTimer now diff s.timer

theorem Stop.Paced.trans_delay (h : s.Paced u) (h' : u.Delay now asked v) :
    s.Delay now asked v := by
  cases asked with
  | none => exact h.trans h'
  | some diff =>
    obtain ⟨delayed, expiration, timer⟩ := h'
    exact ⟨delayed, expiration, timer.trans (by rw [h.timer])⟩

theorem Stop.Delay.paced (h : s.Delay now asked u) (h' : u.Paced v) : s.Delay now asked v := by
  cases asked with
  | none => exact h.trans h'
  | some diff =>
    obtain ⟨delayed, expiration, timer⟩ := h
    exact ⟨h'.delayed.trans delayed, h'.expiration.trans expiration, h'.timer.trans timer⟩

theorem delayStop_delay (now : Nat) (idx : UInt16) (isenter : Bool) (s : Stop) :
    s.Delay now (some (tsDiff o idx isenter)) (delayStop o now idx isenter s) :=
  ⟨rfl, rfl, rfl⟩

theorem injectSignal_paced (data : InjectData) (s : Stop) : s.Paced (injectSignal data s) ∧
    (injectSignal data s).sig = if data.signal then data.signo.toNat else s.sig := by
  unfold injectSignal
  split <;> exact ⟨⟨rfl, rfl, rfl⟩, rfl⟩

theorem injectPoke_paced (data : InjectData) (s : Stop) :
    s.Paced (injectPokeExit data (injectPokeEnter a data (injectScno o a data s))) ∧
      (injectPokeExit data (injectPokeEnter a data (injectScno o a data s))).sig = s.sig := by
  unfold injectPokeExit injectPokeEnter injectScno
  repeat' split
  all_goals exact ⟨⟨rfl, rfl, rfl⟩, rfl⟩

theorem injectDelayExit_paced (data : InjectData) (s : Stop) : s.Paced (injectDelayExit data s) ∧
    (injectDelayExit data s).sig = s.sig := by
  unfold injectDelayExit
  split <;> exact ⟨⟨rfl, rfl, rfl⟩, rfl⟩

def enterDelay (o : Options) (data : InjectData) : Option Nat :=
  if data.delayEnter then some (tsDiff o data.delayIdx true) else none

theorem injectDelayEnter_delay (data : InjectData) (s : Stop) :
    s.Delay a.now (enterDelay o data) (injectDelayEnter o a data s) ∧
      (injectDelayEnter o a data s).tcb.delayed = (s.tcb.delayed || data.delayEnter) ∧
      (injectDelayEnter o a data s).sig = s.sig := by
  unfold injectDelayEnter enterDelay
  cases data.delayEnter with
  | true => exact ⟨delayStop_delay a.now data.delayIdx true s, (Bool.or_true _).symm, rfl⟩
  | false => exact ⟨.refl s, (Bool.or_false _).symm, rfl⟩

theorem injectEntering_delay (data : InjectData) (s : Stop) :
    s.Delay a.now (enterDelay o data) (injectEntering o a data s) ∧
      (injectEntering o a data s).tcb.delayed = (s.tcb.delayed || data.delayEnter) ∧
      (injectEntering o a data s).sig = if data.signal then data.signo.toNat else s.sig := by
  obtain ⟨signal, sig⟩ := injectSignal_paced data s
  obtain ⟨poke, sig₁⟩ := injectPoke_paced data (injectSignal data s)
  obtain ⟨delay, delayed, sig₂⟩ := injectDelayEnter_delay data
    (injectPokeExit data (injectPokeEnter a data (injectScno o a data (injectSignal data s))))
  obtain ⟨last, sig₃⟩ := injectDelayExit_paced data (injectDelayEnter o a data
    (injectPokeExit data (injectPokeEnter a data (injectScno o a data (injectSignal data s)))))
  have before := signal.trans poke
  refine ⟨(before.trans_delay delay).paced last, last.delayed.trans (delayed.trans ?_), ?_⟩
  · rw [before.delayed]
  · exact sig₃.trans <| sig₂.trans <| sig₁.trans sig

structure Stop.Still (s s' : Stop) : Prop where
  noFail : s'.tcb.tamperedNoFail = s.tcb.tamperedNoFail
  sig : s'.sig = s.sig
  paced : s.Paced s'

theorem Stop.Calm.still (h : s.Calm u) : s.Still u :=
  ⟨congrArg InjectFlags.tamperedNoFail h.flags, h.sig, h.paced⟩

/-- What an injection on exiting may change. -/
structure Stop.Exiting (now : Nat) (asked : Option Nat) (s s' : Stop) : Prop where
  noFail : s'.tcb.tamperedNoFail = s.tcb.tamperedNoFail
  sig : s'.sig = s.sig
  delay : s.Delay now asked s'

section
variable {now : Nat} {asked : Option Nat} {u v : Stop}

theorem Stop.Still.exiting (h : s.Still u) : s.Exiting now none u :=
  ⟨h.noFail, h.sig, h.paced⟩

theorem Stop.Exiting.still (h : s.Exiting now asked u) (h' : u.Still v) : s.Exiting now asked v :=
  ⟨h'.noFail.trans h.noFail, h'.sig.trans h.sig, h.delay.paced h'.paced⟩

theorem Stop.Still.trans_exiting (h : s.Still u) (h' : u.Exiting now asked v) :
    s.Exiting now asked v :=
  ⟨h'.noFail.trans h.noFail, h'.sig.trans h.sig, h.paced.trans_delay h'.delay⟩

end

theorem pokeOnExit_still (s : Stop) : s.Still (pokeOnExit a s) ∧
    (pokeOnExit a s).tcb.injectDelayExit = s.tcb.injectDelayExit := by
  unfold pokeOnExit
  split <;> exact ⟨⟨rfl, rfl, rfl, rfl, rfl⟩, rfl⟩

def exitDelay (o : Options) (s : Stop) : Option Nat :=
  if s.tcb.injectDelayExit then
    (tcbInjectOpts o s).map fun opts => tsDiff o opts.data.delayIdx false
  else none

theorem delayOnExit_exiting (data : InjectData) (s : Stop) :
    s.Exiting a.now (if s.tcb.injectDelayExit then some (tsDiff o data.delayIdx false) else none)
      (delayOnExit o a data s) := by
  unfold delayOnExit
  split
  · exact ⟨rfl, rfl, delayStop_delay a.now data.delayIdx false s⟩
  · exact (Stop.Calm.refl s).still.exiting

theorem tamperResult_still (data : InjectData) (s : Stop) :
    s.Still (tamperResult o a data s).1 := by
  unfold tamperResult setSuccess setError
  repeat' split
  all_goals exact ⟨rfl, rfl, rfl, rfl, rfl⟩

theorem tamperWithSyscallExiting_exiting (s : Stop) :
    s.Exiting a.now (exitDelay o s) (tamperWithSyscallExiting o a s).1 := by
  unfold tamperWithSyscallExiting exitDelay
  cases tcbInjectOpts o s with
  | none =>
    simpa using (Stop.Calm.refl s).still.exiting
  | some opts =>
    obtain ⟨poked, same⟩ := pokeOnExit_still s
    rw [← same]
    exact poked.trans_exiting ((delayOnExit_exiting _ _).still (tamperResult_still _ _))

theorem syscallExitingTrace_exiting (res : Int) (s : Stop) :
    s.Exiting a.now (exitDelay o s) (syscallExitingTrace o a res s).1 := by
  unfold syscallExitingTrace
  split
  · exact tamperWithSyscallExiting_exiting s
  · have off : s.tcb.injectDelayExit = false := by
      grind
    unfold exitDelay
    rw [off]
    exact (Stop.Calm.refl s).still.exiting

/-- The delay that a syscall stop asks for. -/
def delayAsked (o : Options) (a : Answers) (s : Stop) : Option Nat :=
  if s.tcb.insyscall then
    if s.tcb.filtered then none else exitDelay o (syscallExitingDecode a s).1
  else (injection o a s).bind (enterDelay o)

theorem traceSyscall_exiting (inside : s.tcb.insyscall = true) :
    (traceSyscall o a s).1.tcb.injectFlags = { tamperedNoFail := s.tcb.tamperedNoFail } ∧
      s.Exiting a.now (delayAsked o a s) (traceSyscall o a s).1 := by
  have finish {asked : Option Nat} {u : Stop} (h : s.Exiting a.now asked u) :
      (syscallExitingFinish u).tcb.injectFlags = { tamperedNoFail := s.tcb.tamperedNoFail } ∧
        s.Exiting a.now asked (syscallExitingFinish u) := by
    refine ⟨?_, h.still ⟨rfl, rfl, rfl, rfl, rfl⟩⟩
    rw [← h.noFail]
    rfl
  have traced := traceSyscall_traced o a s
  have decoded := (syscallExitingDecode_calm (a := a) s).still
  unfold delayAsked
  rw [inside]
  generalize traceSyscall o a s = r at traced
  cases traced with
  | entered _ entering => rw [inside] at entering; cases entering
  | ignored entering | unread entering => rw [inside] at entering; cases entering
  | passed _ filtered =>
    rw [filtered]
    exact finish decoded.exiting
  | exited _ visible res =>
    rw [visible]
    exact finish (decoded.trans_exiting (syscallExitingTrace_exiting res _))

theorem traceSyscall_delay (s : Stop) :
    s.Delay a.now (delayAsked o a s) (traceSyscall o a s).1 := by
  cases inside : s.tcb.insyscall with
  | true => exact (traceSyscall_exiting inside).2.delay
  | false =>
    have injected := traceSyscall_injection (o := o) (a := a) inside
    unfold delayAsked
    rw [inside]
    cases made : injection o a s with
    | none =>
      rw [made] at injected
      have calm := injected
      exact calm.paced
    | some data =>
      rw [made] at injected
      obtain ⟨u, first, last⟩ := injected
      obtain ⟨delay, -, -⟩ := injectEntering_delay data u
      exact (first.paced.trans_delay delay).paced last.paced

/-! ## Stops that ask for nothing -/

theorem injection_recovering (recovering : s.tcb.recovering = true) : injection o a s = none := by
  have decoded : (syscallEnteringDecode o a s).1.tcb.recovering = true :=
    (syscallEnteringDecode_decoded s).1.kept.recovering.trans recovering
  have hidden := (checkHideLog_same _).tcb.recovering.trans decoded
  unfold injection tracedInjection selection
  dsimp only
  split
  · grind
  · rfl

theorem traceSyscall_recovering (outside : s.tcb.insyscall = false)
    (recovering : s.tcb.recovering = true) :
    (traceSyscall o a s).1.tcb.delayed = s.tcb.delayed := by
  have injected := traceSyscall_injection (o := o) (a := a) outside
  rw [injection_recovering recovering] at injected
  have calm := injected
  exact calm.delayed

section
variable (plain : o.injectSet = none)
include plain

theorem setScnoEntry_qualInject (scno p : Nat) (t : Tcb) :
    (setScnoEntry o scno p t).qualInject = false := by
  simp only [setScnoEntry, plain]
  rfl

theorem getScno_qualInject :
    (getScno o a s).1.tcb.qualInject = false := by
  unfold getScno
  cases read : a.regsRead with
  | false => simp only [getSyscallRegs, read, Bool.false_eq_true, ↓reduceIte]
  | true =>
    simp only [getSyscallRegs_read read]
    cases a.scno with
    | failed | ignored => rfl
    | number n =>
      grind [setScnoEntry_qualInject]

theorem syscallEnteringDecode_qualInject :
    (syscallEnteringDecode o a s).1.tcb.qualInject = false := by
  have first := getScno_qualInject (a := a) (s := s) plain
  unfold syscallEnteringDecode
  dsimp only
  split
  · exact first
  · split
    · exact first
    · unfold decodeSubcall
      split
      case h_4 => exact first
      all_goals exact setScnoEntry_qualInject plain _ _ _

theorem injection_plain : injection o a s = none := by
  have off : (checkHideLog (syscallEnteringDecode o a s).1).tcb.qualInject = false := by
    have decoded := syscallEnteringDecode_qualInject (a := a) (s := s) plain
    unfold checkHideLog
    split
    · rfl
    · exact decoded
  unfold injection tracedInjection
  simp only [off, Bool.false_eq_true, ↓reduceIte, ite_self]

end

def Tcb.Prompt (t : Tcb) : Prop := t.delayed = false ∧ t.injectDelayExit = false

theorem traceSyscall_prompt (plain : o.injectSet = none) (prompt : s.tcb.Prompt) :
    (traceSyscall o a s).1.tcb.Prompt := by
  cases inside : s.tcb.insyscall with
  | false =>
    have injected := traceSyscall_injection (o := o) (a := a) inside
    rw [injection_plain plain] at injected
    have calm := injected
    exact ⟨calm.delayed.trans prompt.1,
      (congrArg InjectFlags.injectDelayExit calm.flags).trans prompt.2⟩
  | true =>
    obtain ⟨flags, exiting⟩ := traceSyscall_exiting inside
    have decoded := (syscallExitingDecode_calm (a := a) s).flags
    have off : (syscallExitingDecode a s).1.tcb.injectDelayExit = false :=
      (congrArg InjectFlags.injectDelayExit decoded).trans prompt.2
    have asked : delayAsked o a s = none := by
      simp [inside, off, delayAsked, exitDelay]
    rw [asked] at exiting
    have paced := exiting.delay
    exact ⟨paced.delayed.trans prompt.1, congrArg InjectFlags.injectDelayExit flags⟩

end

end Strace
