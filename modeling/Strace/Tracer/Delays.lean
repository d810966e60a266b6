import Strace.Runs
import Strace.Tracer.Acts
import Strace.Tracer.Admits

/-! One timer serves all delayed tracees. Whenever strace waits while a tracee
is delayed, the timer is marked as armed and its signal will come, unless a
tracee was delayed while the timer was running without being marked so. -/
namespace Strace.Delays
open Tracer Runs

def Waits (s : Tracer) (j : Nat) : Prop := (s.tcbtab j).pid ≠ 0 ∧ (s.tcbtab j).delayed = true

/-- Some live tracee is delayed. -/
def Delayed (s : Tracer) : Prop := ∃ j, Waits s j

/-- All live tcbs are in the table. -/
def InTable (s : Tracer) : Prop := ∀ j, (s.tcbtab j).pid ≠ 0 → j < s.tcbtabsize

def Armed (timer : DelayTimer) : Prop :=
  timer.armed = true ∧ (timer.running = true ∨ timer.alarm = true)

structure Remembered (m : Loop) : Prop where
  blocking : m.control = .top → m.tracer.pendingTcps = [] → m.tracer.extraTcp = none →
    Delayed m.tracer → Armed m.tracer.timer
  waiting : ∀ unblocked, m.control = .waiting unblocked → m.tracer.restartFailed = false →
    Delayed m.tracer → unblocked = true ∧ Armed m.tracer.timer

def Drifted (timer : DelayTimer) : Prop := timer.running = true ∧ timer.armed = false

def Timely (o : Options) (a : Answers) (s : Stop) : Prop :=
  ∀ diff ∈ delayAsked o a s, Drifted s.timer → diff ≤ s.timer.gettime a.now

def Punctual (o : Options) (m : Loop) : Move → Prop
  | .dispatch a => ∀ wd, m.control = .ready wd → ∀ i ∈ m.tracer.currentTcp,
      IsSyscallStop o m.tracer wd i → Timely o a (m.tracer.stopOf i 0)
  | _ => True

/-- A loop that has delayed no tracee yet. -/
structure Initial (m : Loop) : Prop extends Loop.Initial m where
  inTable : InTable m.tracer
  prompt : ∀ j, (m.tracer.tcbtab j).delayed = false
  restarts : m.tracer.restartFailed = false

/-! ## The timer and the tcbs -/

structure Quiet (s s' : Tracer) : Prop where
  waits : ∀ j, Waits s' j → Waits s j
  inTable : InTable s → InTable s'
  timer : s'.timer = s.timer
  failed : s'.restartFailed = s.restartFailed

structure Watched (s : Tracer) : Prop where
  inTable : InTable s
  armed : Delayed s → Armed s.timer

section
variable {o : Options} {a : Answers} {gone : List Nat} {s s' u : Tracer} {i : Nat} {t : Tcb}

theorem Quiet.refl (s : Tracer) : Quiet s s := ⟨fun _ => id, id, rfl, rfl⟩

theorem Quiet.trans (h : Quiet s u) (h' : Quiet u s') : Quiet s s' :=
  ⟨fun j waits => h.waits j (h'.waits j waits), fun inTable => h'.inTable (h.inTable inTable),
    h'.timer.trans h.timer, h'.failed.trans h.failed⟩

theorem Quiet.of_eq (tcbtab : s'.tcbtab = s.tcbtab) (size : s'.tcbtabsize = s.tcbtabsize)
    (timer : s'.timer = s.timer) (failed : s'.restartFailed = s.restartFailed) : Quiet s s' := by
  refine ⟨?_, ?_, timer, failed⟩
  · simp [tcbtab, Waits]
  · intro inTable j live
    rw [tcbtab] at live
    rw [size]
    exact inTable j live

theorem Quiet.delays (h : Quiet s s') (delayed : Delayed s') : Delayed s := by
  obtain ⟨j, waits⟩ := delayed
  exact ⟨j, h.waits j waits⟩

theorem Quiet.watched (h : Quiet s s') (watched : Watched s) : Watched s' := by
  refine ⟨h.inTable watched.inTable, ?_⟩
  intro delayed
  rw [h.timer]
  exact watched.armed (h.delays delayed)

theorem setTcb_quiet (live : t.pid ≠ 0 → (s.tcbtab i).pid ≠ 0)
    (delayed : t.delayed = true → (s.tcbtab i).delayed = true) : Quiet s (s.setTcb i t) := by
  refine ⟨?_, ?_, rfl, rfl⟩
  · intro j waits
    by_cases self : j = i
    · unfold Waits at waits
      rw [self, setTcb_tcbtab_self] at waits
      exact self ▸ ⟨live waits.1, delayed waits.2⟩
    · simpa [setTcb_tcbtab_other s t self, Waits] using waits
  · intro known j nonzero
    by_cases self : j = i
    · rw [self, setTcb_tcbtab_self] at nonzero
      exact self ▸ known i (live nonzero)
    · rw [setTcb_tcbtab_other s t self] at nonzero
      exact known j nonzero

theorem droptcb_quiet (s : Tracer) (i : Nat) : Quiet s (s.droptcb i) := by
  unfold droptcb
  split
  · exact .refl s
  · refine Quiet.trans (.of_eq ?_ ?_ ?_ ?_) (setTcb_quiet (fun live => absurd rfl live) nofun) <;>
      split <;> rfl

theorem setCurrentTcp_quiet (s : Tracer) (i : Option Nat) : Quiet s (s.setCurrentTcp i) := by
  cases i <;> exact .of_eq rfl rfl rfl rfl

theorem delayedTimer_armed {now diff : Nat} {timer : DelayTimer}
    (timely : Drifted timer → diff ≤ timer.gettime now) : Armed (delayedTimer now diff timer) := by
  unfold delayedTimer
  split
  · next later =>
    have running : timer.running = true := by
      unfold DelayTimer.running
      cases expiry : timer.expiry with
      | none => simp [DelayTimer.gettime, expiry] at later
      | some e => rfl
    refine ⟨?_, .inl running⟩
    cases armed : timer.armed with
    | true => rfl
    | false =>
      have := timely ⟨running, armed⟩
      omega
  · exact ⟨rfl, .inl rfl⟩

theorem traceSyscallOf_watched {sig : Nat} (watched : Watched s)
    (timely : Timely o a (s.stopOf i sig)) : Watched (s.traceSyscallOf o a i sig).1 := by
  have kept := (traceSyscall_traced o a (s.stopOf i sig)).kept
  have delay := traceSyscall_delay (o := o) (a := a) (s.stopOf i sig)
  have self : (s.traceSyscallOf o a i sig).1.tcbtab i = (traceSyscall o a (s.stopOf i sig)).1.tcb :=
    setTcb_tcbtab_self ..
  have other (j : Nat) (ne : j ≠ i) : (s.traceSyscallOf o a i sig).1.tcbtab j = s.tcbtab j :=
    setTcb_tcbtab_other _ _ ne
  have timer : (s.traceSyscallOf o a i sig).1.timer = (traceSyscall o a (s.stopOf i sig)).1.timer :=
    rfl
  refine ⟨fun j live => watched.inTable j ?_, ?_⟩
  · by_cases eq : j = i
    · rw [eq, self, kept.pid] at live
      rw [eq]
      exact live
    · simpa [other j eq] using live
  · intro delayed
    rw [timer]
    cases asked : delayAsked o a (s.stopOf i sig) with
    | some diff =>
      rw [asked] at delay
      obtain ⟨-, -, set⟩ := delay
      rw [set]
      exact delayedTimer_armed (timely diff asked)
    | none =>
      rw [asked] at delay
      have paced := delay
      rw [paced.timer]
      refine watched.armed ?_
      obtain ⟨j, live, delayed⟩ := delayed
      by_cases eq : j = i
      · rw [eq, self, kept.pid] at live
        rw [eq, self, paced.delayed] at delayed
        exact ⟨i, live, delayed⟩
      · rw [other j eq] at live delayed
        exact ⟨j, live, delayed⟩

variable {ok : Answers → Stop → Prop}

theorem acts_keep {P : Tracer → Prop} (quiet : ∀ s s', Quiet s s' → P s → P s')
    (stop : ∀ s a i sig, ok a (s.stopOf i sig) → P s → P (s.traceSyscallOf o a i sig).1)
    (acts : Acts o ok gone s s') (holds : P s) : P s' := by
  induction acts with
  | refl s => exact holds
  | trans _ _ first second => exact second (first holds)
  | tcb s i t kept => exact quiet _ _ (setTcb_quiet (kept.pid ▸ id) kept.delayed) holds
  | stop s a i sig allowed => exact stop s a i sig allowed holds
  | drop s i => exact quiet _ _ (droptcb_quiet s i) holds
  | rename s i pid _ live =>
    have renamed : Quiet s (s.setTcb i ((s.tcbtab i).setPid pid)) :=
      setTcb_quiet (fun _ => live) id
    exact quiet _ _ renamed holds
  | current s i => exact quiet _ _ (setCurrentTcp_quiet s i) holds
  | record s x => exact quiet s (s.record x) (.of_eq rfl rfl rfl rfl) holds

theorem acts_watched (acts : Acts o (Timely o) gone s s') : Watched s → Watched s' :=
  acts_keep (fun _ _ quiet => quiet.watched)
    (fun _ _ _ _ timely watched => traceSyscallOf_watched watched timely) acts

theorem acts_failed (acts : Acts o ok gone s s') : s'.restartFailed = s.restartFailed :=
  acts_keep (P := fun u => u.restartFailed = s.restartFailed)
    (fun _ _ quiet same => quiet.failed.trans same) (fun _ _ _ _ _ same => same) acts rfl

theorem acts_quiet (acts : Acts o (fun _ _ => False) gone s s') : Quiet s s' :=
  acts_keep (P := Quiet s) (fun _ _ quiet before => before.trans quiet)
    (fun _ _ _ _ stop => stop.elim) acts (.refl s)

/-! ## The handler -/

theorem restartExpired_quiet (answers : Nat → Answers) (now : Nat) (indices : List Nat)
    (next : Option Nat) (s : Tracer) : Quiet s (s.restartExpired o answers now indices next).1 := by
  have acts : Acts o (fun _ _ => False) [] s _ := restartExpired_acts answers now indices next s
  exact acts_quiet acts

theorem restartDelayedTcb_delayed : ((s.restartDelayedTcb o a i).1.tcbtab i).delayed = false := by
  rw [restartDelayedTcb_eq]
  split
  · rw [setTcb_tcbtab_self]
    rfl
  · rw [record_tcbtab, setTcb_tcbtab_self]
    rfl

theorem restartExpired_next (answers : Nat → Answers) (now : Nat) (indices : List Nat)
    (next : Option Nat) (s : Tracer)
    (completed : (s.restartExpired o answers now indices next).2.2 = true)
    (found : next.isSome ∨
      ∃ j ∈ indices, Waits (s.restartExpired o answers now indices next).1 j) :
    (s.restartExpired o answers now indices next).2.1.isSome := by
  induction indices generalizing next s with
  | nil => simpa [restartExpired] using found
  | cons i rest ih =>
    have quiet := restartExpired_quiet (o := o) answers now rest
    unfold restartExpired at completed found ⊢
    by_cases waits : (s.tcbtab i).pid ≠ 0 ∧ (s.tcbtab i).delayed = true
    · rw [if_pos waits] at completed found ⊢
      by_cases expired : now > (s.tcbtab i).delayExpirationTime
      · rw [if_pos expired] at completed found ⊢
        cases ok : (s.restartDelayedTcb o (answers i) i).2 with
        | false => simp [ok] at completed
        | true =>
          simp only [ok] at completed found ⊢
          refine ih _ _ completed (found.imp_right ?_)
          rintro ⟨j, mem, waits⟩
          rcases List.mem_cons.mp mem with rfl | mem
          · have before := (quiet _ _).waits j waits
            exact absurd (restartDelayedTcb_delayed.symm.trans before.2) (by decide)
          · exact ⟨j, mem, waits⟩
      · rw [if_neg expired] at completed found ⊢
        exact ih _ _ completed (.inl rfl)
    · rw [if_neg waits] at completed found ⊢
      refine ih _ _ completed (found.imp_right ?_)
      rintro ⟨j, mem, waits'⟩
      rcases List.mem_cons.mp mem with rfl | mem
      · exact absurd ((quiet _ _).waits j waits') waits
      · exact ⟨j, mem, waits'⟩

theorem restartDelayedTcbs_watched (answers : Nat → Answers) (now : Nat) (inTable : InTable s)
    (restarted : (s.restartDelayedTcbs o answers now).2 = true) :
    Watched (s.restartDelayedTcbs o answers now).1 ∧
      (Delayed (s.restartDelayedTcbs o answers now).1 → Delayed s) := by
  have quiet := restartExpired_quiet (o := o) answers now (List.range s.tcbtabsize) none s
  have next := restartExpired_next (o := o) answers now (List.range s.tcbtabsize) none s
  have known := quiet.inTable inTable
  unfold restartDelayedTcbs at restarted ⊢
  dsimp only at restarted ⊢
  cases completed : (s.restartExpired o answers now (List.range s.tcbtabsize) none).2.2 with
  | false => simp [completed] at restarted
  | true =>
    cases last : (s.restartExpired o answers now (List.range s.tcbtabsize) none).2.1 with
    | some i => exact ⟨⟨known, fun _ => ⟨rfl, .inl rfl⟩⟩, quiet.delays⟩
    | none =>
      refine ⟨⟨known, ?_⟩, quiet.delays⟩
      intro delayed
      obtain ⟨j, waits⟩ := delayed
      have mem := List.mem_range.mpr (inTable j (quiet.waits j waits).1)
      have found := next completed (.inr ⟨j, mem, waits⟩)
      rw [last] at found
      cases found

theorem timerSighandler_watched (answers : Nat → Answers) (now : Nat) (inTable : InTable s)
    (restarts : (s.timerSighandler o answers now).restartFailed = false) :
    Watched (s.timerSighandler o answers now) ∧
      (Delayed (s.timerSighandler o answers now) → Delayed s) := by
  unfold timerSighandler at restarts ⊢
  dsimp only at restarts ⊢
  split at restarts
  · next failed => exact absurd (failed.symm.trans restarts) (by decide)
  · next running =>
    rw [if_neg running]
    split at restarts
    · next restarted =>
      rw [if_pos restarted]
      exact restartDelayedTcbs_watched answers now inTable restarted
    · cases restarts

theorem Quiet.of_admits (h : Admits s s') : Quiet s s' := by
  refine ⟨?_, ?_, h.timer, h.failed⟩
  · intro j waits
    rcases h.tcb j with noted | ⟨-, new, -⟩
    · exact ⟨fun pid => waits.1 (noted.pid.trans pid), noted.delayed.symm.trans waits.2⟩
    · exact absurd (new.delayed.symm.trans waits.2) (by decide)
  · intro known j live
    rcases h.tcb j with noted | ⟨-, -, inTable⟩
    · exact Nat.lt_of_lt_of_le (known j fun pid => live (noted.pid.trans pid)) h.size
    · exact inTable

end

/-! ## The main loop -/

inductive Valid (m : Loop) : Prop
  | failed (failed : m.tracer.restartFailed = true)
      (stopping : m.control = .waiting true ∨ m.control = .stopped)
  | watched (restarts : m.tracer.restartFailed = false) (watched : Watched m.tracer)
      (unblocked : ∀ u, m.control = .waiting u → Delayed m.tracer → u = true)

section
variable {o : Options} {a : Answers} {m m' : Loop} {s : Tracer}

theorem Valid.remembered (valid : Valid m) : Remembered m := by
  cases valid with
  | failed failed stopping =>
    constructor
    · intro top
      rw [top] at stopping
      rcases stopping with eq | eq <;> cases eq
    · grind
  | watched _ watched unblocked =>
    exact ⟨fun _ _ _ => watched.armed,
      fun u waiting _ delayed => ⟨unblocked u waiting delayed, watched.armed delayed⟩⟩

theorem Valid.quiet {control : Control} (batch collected : List Waited) (returned : List Returned)
    (restarts : m.tracer.restartFailed = false) (watched : Watched m.tracer)
    (quiet : Quiet m.tracer s) (ready : ∀ u, control ≠ .waiting u) :
    Valid ⟨s, control, batch, collected, returned⟩ :=
  .watched (quiet.failed.trans restarts) (quiet.watched watched)
    fun u waiting => absurd waiting (ready u)

theorem callNext_valid (valid : Valid m) (top : m.control = .top) : Valid (m.callNext o a) := by
  cases valid with
  | failed _ stopping =>
    rw [top] at stopping
    rcases stopping with eq | eq <;> cases eq
  | watched restarts watched _ =>
    unfold Loop.callNext
    split
    · exact .quiet _ _ _ restarts watched (.refl _) nofun
    · split
      · next taken =>
          exact .quiet _ _ _ restarts watched (.of_admits (nextQueued_admits taken)) nofun
      · refine .watched restarts watched ?_
        intro u waiting delayed
        have armed : m.tracer.timer.armed = u := by simpa using waiting
        exact armed.symm.trans (watched.armed delayed).1

theorem callWaited_valid {unblocked : Bool} {results : List Waited} (valid : Valid m)
    (waiting : m.control = .waiting unblocked) : Valid (m.callWaited o a unblocked results) := by
  unfold Loop.callWaited
  cases valid with
  | failed failed stopping =>
    have unblocked : unblocked = true := by
      rcases stopping with eq | eq
      · simpa [waiting] using eq
      · rw [waiting] at eq
        cases eq
    rw [unblocked, failed]
    exact .failed failed (.inr rfl)
  | watched restarts watched _ =>
    have stopped : Valid { m with control := .stopped } :=
      .quiet _ _ _ restarts watched (.refl _) nofun
    split
    · exact stopped
    · split
      · exact stopped
      · next waited =>
        have quiet := Quiet.of_admits (afterWait_admits waited)
        split
        · exact .quiet _ _ _ restarts watched quiet nofun
        · exact .quiet _ _ _ restarts watched quiet nofun

theorem timely_recovering (s : Stop) (outside : s.tcb.insyscall = false)
    (recovering : s.tcb.recovering = true) : Timely o a s := by
  intro diff asked
  unfold delayAsked at asked
  rw [outside, injection_recovering recovering] at asked
  cases asked

theorem callDispatch_valid {wd : WaitData} (valid : Valid m) (ready : m.control = .ready wd)
    (punctual : Punctual o m (.dispatch a)) : Valid (m.callDispatch o a wd) := by
  cases valid with
  | failed _ stopping =>
    rw [ready] at stopping
    rcases stopping with eq | eq <;> cases eq
  | watched restarts watched _ =>
    have idle (go : Bool) (u : Bool) : (if go then Control.top else .stopped) ≠ .waiting u := by
      cases go <;> simp
    unfold Loop.callDispatch dispatchEvent
    cases current : m.tracer.currentTcp with
    | none => exact .quiet _ _ _ restarts watched (.refl _) (idle _)
    | some i =>
      have acts := dispatchCurrent_acts timely_recovering (punctual wd ready i current)
      exact .watched ((acts_failed acts).trans restarts) (acts_watched acts watched)
        fun u waiting => absurd waiting (idle _ u)

theorem expire_valid (valid : Valid m) :
    Valid { m with tracer := { m.tracer with timer := Loop.expireTimer m.tracer.timer } } := by
  cases valid with
  | failed failed stopping => exact .failed failed stopping
  | watched restarts watched unblocked =>
    exact .watched restarts
      ⟨watched.inTable, fun delayed => ⟨(watched.armed delayed).1, .inr rfl⟩⟩ unblocked

theorem interrupt_valid (valid : Valid m) :
    Valid { m with tracer := { m.tracer with interrupted := true } } := by
  cases valid with
  | failed failed stopping => exact .failed failed stopping
  | watched restarts watched unblocked =>
    exact .watched restarts ⟨watched.inTable, watched.armed⟩ unblocked

theorem alarm_valid (answers : Nat → Answers) (now : Nat) (valid : Valid m)
    (waiting : m.control = .waiting true) :
    Valid { m with tracer := m.tracer.timerSighandler o answers now } := by
  cases failed : (m.tracer.timerSighandler o answers now).restartFailed with
  | true => exact .failed failed (.inl waiting)
  | false =>
    cases valid with
    | failed before _ =>
      unfold timerSighandler at failed
      simp [before] at failed
    | watched _ watched unblocked =>
      obtain ⟨watched, delays⟩ := timerSighandler_watched answers now watched.inTable failed
      exact .watched failed watched fun u waiting delayed => unblocked u waiting (delays delayed)

theorem step_valid {x : Move} (valid : Valid m) (punctual : Punctual o m x)
    (moved : m.step o x = some m') : Valid m' := by
  cases Loop.step_moved moved with
  | next a top => exact callNext_valid valid top
  | waited a results unblocked waiting => exact callWaited_valid valid waiting
  | dispatch a wd ready => exact callDispatch_valid valid ready punctual
  | expire now => exact expire_valid valid
  | alarm answers now waiting => exact alarm_valid answers now valid waiting
  | interrupt => exact interrupt_valid valid

theorem initial_valid (initial : Initial m) : Valid m := by
  have prompt : ¬ Delayed m.tracer := by
    rintro ⟨j, -, delayed⟩
    exact absurd ((initial.prompt j).symm.trans delayed) (by decide)
  exact .watched initial.restarts ⟨initial.inTable, fun delayed => absurd delayed prompt⟩
    fun _ _ delayed => absurd delayed prompt

end

/-- Over every interleaving of delays, expirations of the timer, runs of its
handler and exits of tracees, no delayed tracee is forgotten, if none is delayed
beyond a timer that has drifted. -/
theorem delayed_remembered (o : Options) (m : Loop)
    (run : Run Initial (fun m x m' => m.step o x = some m') (Punctual o) m) : Remembered m :=
  (run.invariant (P := Valid) (fun _ => initial_valid)
    fun _ _ _ valid punctual moved => step_valid valid punctual moved).remembered

/-! ## A timer that drifts -/

def delayOptions : Options where
  supportedPersonalities := 1
  auditArchVec _ := ⟨0xc000003e, 0⟩
  nsyscallVec _ := 3
  sysentVec _ _ := {}
  traceSet := some fun _ => ⟨[], true⟩
  injectSet := some fun _ => ⟨[0b10], false⟩
  injectVec _ n := if n = 1 then
    { first := 1, last := injectLastInf, step := 1, data := { delayEnter := true } }
    else {}
  delayDataVec _ := (10, 0)

/-- Strace with tracees 7, 8 and 9. -/
def threeTracees : Loop where
  tracer :=
    { tcbtab := fun i => if i < 3 then { pid := 7 + i } else {}
      tcbtabsize := 3
      nprocs := 3 }

def waitedOf (i : Fin 3) (status : UInt32) : Waited where
  pid := 7 + i
  status
  positive := by omega
  small := by omega

def stops (i : Fin 3) : Waited := waitedOf i 0x857f

/-- Syscall 1 is called at time `now`. -/
def calls (now : Nat) : Answers := { scno := .number 1, now }

theorem threeTracees_initial : Initial threeTracees where
  control := rfl
  pending := rfl
  extra := rfl
  batch := rfl
  collected := rfl
  returned := rfl
  inTable j live := by
    by_cases bound : j < 3
    · exact bound
    · simp [threeTracees, bound] at live
  prompt j := by
    grind [threeTracees]
  restarts := rfl

/-- The first delay arms the timer. -/
theorem delayed_remembered_first : ∃ m : Loop, m.control = .top ∧ Delayed m.tracer ∧
    Remembered m := by
  have start : Run Initial (fun m x m' => m.step delayOptions x = some m') (Punctual delayOptions)
      threeTracees := .start threeTracees_initial
  have next (m : Loop) : Punctual delayOptions m (.next {}) := trivial
  have waited (m : Loop) : Punctual delayOptions m (.waited {} [stops 0]) := trivial
  have collected := (start.next (next _) rfl).next (waited _) rfl
  have delayed := collected.next (show Punctual delayOptions _ (.dispatch (calls 0)) from
    fun _ _ _ _ _ _ _ drifted => absurd drifted.1 Bool.false_ne_true) rfl
  exact ⟨_, rfl, ⟨0, by decide, by decide⟩, delayed_remembered delayOptions _ delayed⟩

/-- Tracees 7 and 8 are delayed, the timer runs out in between and is armed again
for 8, which is killed. The handler restarts 7 and leaves the timer running, but
not marked as armed, so that the delay of 9 does not arm it. -/
theorem delayed_forgotten :
    ¬ ∀ (o : Options) (m : Loop),
      Run Initial (fun m x m' => m.step o x = some m') (fun _ _ => True) m → Remembered m := by
  intro stated
  have start : Run Initial (fun m x m' => m.step delayOptions x = some m') (fun _ _ => True)
      threeTracees := .start threeTracees_initial
  have waiting := start.next (x := .next {}) trivial rfl
  have collected := waiting.next (x := .waited {} [stops 0, stops 1, waitedOf 1 9]) trivial rfl
  have first := collected.next (x := .dispatch (calls 0)) trivial rfl
  have expired := first.next (x := .expire 10) trivial rfl
  have second := (expired.next (x := .next {}) trivial rfl).next
    (x := .dispatch (calls 11)) trivial rfl
  have killed := (second.next (x := .next {}) trivial rfl).next (x := .dispatch {}) trivial rfl
  have blocked := killed.next (x := .next {}) trivial rfl
  have handled := blocked.next (x := .alarm (fun _ => {}) 12) trivial rfl
  have last := (handled.next (x := .waited {} [stops 2]) trivial rfl).next
    (x := .dispatch (calls 13)) trivial rfl
  have armed := (stated delayOptions _ last).blocking rfl rfl rfl ⟨2, by decide, by decide⟩
  exact absurd armed.1 (by decide)

end Strace.Delays
