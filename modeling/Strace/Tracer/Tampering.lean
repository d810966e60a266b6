import Strace.Runs
import Strace.Tracer.Acts
import Strace.Tracer.Admits

/-! The flags of an injection over the syscalls of one tracee. A syscall that is
replaced with `syscall=` leaves a flag behind, and every later syscall of the
tracee is taken for one that is replaced, too. -/
namespace Strace.Tampering
open Tracer Runs

structure Own where
  tampered : Bool := false
  replaced : Bool := false
  deriving DecidableEq, Repr

def Own.of (a : Answers) : Option InjectData → Own
  | none => {}
  | some data => ⟨tampers a data, tampers a data && data.syscall⟩

structure Tracee where
  tcb : Tcb
  own : Own := {}
  earlier : Bool := false

inductive Event where
  | stop (a : Answers) (personality : Nat) (timer : DelayTimer) (sig : Nat)
  | other (t : Tcb)

inductive Step (o : Options) : Tracee → Event → Tracee → Prop
  | enter (m : Tracee) (a : Answers) (personality : Nat) (timer : DelayTimer) (sig : Nat)
      (outside : m.tcb.insyscall = false) :
      Step o m (.stop a personality timer sig) { m with
        tcb := (traceSyscall o a ⟨m.tcb, personality, timer, sig⟩).1.tcb
        own := Own.of a (injection o a ⟨m.tcb, personality, timer, sig⟩) }
  | exit (m : Tracee) (a : Answers) (personality : Nat) (timer : DelayTimer) (sig : Nat)
      (inside : m.tcb.insyscall = true) :
      Step o m (.stop a personality timer sig) {
        tcb := (traceSyscall o a ⟨m.tcb, personality, timer, sig⟩).1.tcb
        own := {}
        earlier := m.earlier || m.own.replaced }
  | other (m : Tracee) (t : Tcb) (flags : t.injectFlags = m.tcb.injectFlags)
      (insyscall : t.insyscall = m.tcb.insyscall) : Step o m (.other t) { m with tcb := t }

/-- A tracee that has made no syscall yet. -/
structure Initial (m : Tracee) : Prop where
  flags : m.tcb.injectFlags = {}
  outside : m.tcb.insyscall = false
  own : m.own = {}
  earlier : m.earlier = false

structure PerSyscall (m : Tracee) : Prop where
  clear : m.tcb.insyscall = false → m.tcb.injectFlags = {}
  checkErrno : m.tcb.insyscall = true → checkErrno m.tcb =
    (((tcpSysent m.tcb).sysFlags &&& syscallNeverFails == 0 || m.own.tampered) && !m.own.replaced)
  unexpected : m.tcb.insyscall = true →
    tamperUnexpected m.tcb = (decide (m.tcb.uError = 0) ^^ m.own.replaced)

/-- What the flags are in every run. -/
structure Valid (m : Tracee) : Prop where
  noFail : m.tcb.tamperedNoFail = (m.earlier || m.own.replaced)
  tampered : m.tcb.tampered = m.own.tampered
  outside : m.tcb.insyscall = false → m.own = {} ∧
    m.tcb.injectFlags = { tamperedNoFail := m.tcb.tamperedNoFail }

variable {m : Tracee}

theorem initial_valid (initial : Initial m) : Valid m := by
  have noFail : m.tcb.tamperedNoFail = false := congrArg InjectFlags.tamperedNoFail initial.flags
  refine ⟨?_, ?_, fun _ => ⟨initial.own, ?_⟩⟩
  · simp [noFail, initial.earlier, initial.own]
  · rw [initial.own]
    exact congrArg InjectFlags.tampered initial.flags
  · simp [noFail, initial.flags]

section
variable {o : Options} {m m' : Tracee} {x : Event} {a : Answers} {s : Stop}

theorem enter_flags (outside : s.tcb.insyscall = false) (clear : s.tcb.tampered = false) :
    (traceSyscall o a s).1.tcb.tamperedNoFail =
        (s.tcb.tamperedNoFail || (Own.of a (injection o a s)).replaced) ∧
      (traceSyscall o a s).1.tcb.tampered = (Own.of a (injection o a s)).tampered := by
  have injected := traceSyscall_injection (o := o) (a := a) outside
  cases made : injection o a s with
  | none =>
    rw [made] at injected
    have flags := injected
    refine ⟨?_, (congrArg InjectFlags.tampered flags.flags).trans clear⟩
    rw [flags.still.noFail]
    exact (Bool.or_false _).symm
  | some data =>
    rw [made] at injected
    obtain ⟨u, first, last⟩ := injected
    obtain ⟨tampered, noFail⟩ := injectEntering_flags data u
    have before : u.tcb.tampered = false := (congrArg InjectFlags.tampered first.flags).trans clear
    constructor
    · rw [last.still.noFail, noFail, first.still.noFail]
      rfl
    · have after : (traceSyscall o a s).1.tcb.tampered = _ :=
        congrArg InjectFlags.tampered last.flags
      rw [after]
      exact tampered.trans (by rw [before]; rfl)

theorem enter_outside (outside : s.tcb.insyscall = false)
    (after : (traceSyscall o a s).1.tcb.insyscall = false) :
    injection o a s = none ∧ s.Calm (traceSyscall o a s).1 := by
  have injected := traceSyscall_injection (o := o) (a := a) outside
  cases made : injection o a s with
  | some data => exact absurd ((injection_some outside made).2.symm.trans after) (by decide)
  | none =>
    rw [made] at injected
    exact ⟨rfl, injected⟩

theorem step_valid (valid : Valid m) (moved : Step o m x m') : Valid m' := by
  cases moved with
  | enter a personality timer sig outside =>
    obtain ⟨own, flags⟩ := valid.outside outside
    have clear := congrArg InjectFlags.tampered flags
    have noFail := valid.noFail
    rw [own, Bool.or_false] at noFail
    obtain ⟨after, tampered⟩ := enter_flags
      (s := ⟨m.tcb, personality, timer, sig⟩) outside clear
    refine ⟨after.trans (by rw [noFail]), tampered, ?_⟩
    intro outside'
    obtain ⟨none, calm⟩ := enter_outside outside outside'
    refine ⟨by rw [none]; rfl, calm.flags.trans (flags.trans ?_)⟩
    rw [← calm.still.noFail]
  | exit a personality timer sig inside =>
    obtain ⟨flags, exiting⟩ := traceSyscall_exiting
      (s := ⟨m.tcb, personality, timer, sig⟩) inside
    refine ⟨?_, congrArg InjectFlags.tampered flags, fun _ => ⟨rfl, ?_⟩⟩
    · rw [exiting.noFail]
      exact valid.noFail.trans (Bool.or_false _).symm
    · simp [exiting.noFail, flags]
  | other t flags insyscall =>
    have noFail : t.tamperedNoFail = m.tcb.tamperedNoFail :=
      congrArg InjectFlags.tamperedNoFail flags
    refine ⟨noFail.trans valid.noFail,
      (congrArg InjectFlags.tampered flags).trans valid.tampered, ?_⟩
    intro outside
    obtain ⟨own, clear⟩ := valid.outside (insyscall.symm.trans outside)
    exact ⟨own, flags.trans (clear.trans (by rw [← noFail]))⟩

end

theorem Valid.perSyscall (valid : Valid m) : PerSyscall m ↔
    m.earlier = false ∨ m.tcb.insyscall = true ∧ m.own.replaced = true := by
  have noFail := valid.noFail
  cases inside : m.tcb.insyscall with
  | false =>
    obtain ⟨own, flags⟩ := valid.outside inside
    have same : m.tcb.tamperedNoFail = m.earlier := by simpa [own] using noFail
    refine ⟨fun per => .inl ?_, fun cond => ⟨?_, ?_, ?_⟩⟩
    · rw [← same]
      exact congrArg InjectFlags.tamperedNoFail (per.clear inside)
    · intro _
      have clear : m.earlier = false := by simpa using cond
      rw [flags, same, clear]
    · simp [inside]
    · simp [inside]
  | true =>
    have unexpected : tamperUnexpected m.tcb = (decide (m.tcb.uError = 0) ^^ m.own.replaced) ↔
        m.tcb.tamperedNoFail = m.own.replaced := by
      exact Bool.xor_right_inj
    constructor
    · intro per
      have same := unexpected.mp (per.unexpected inside)
      cases earlier : m.earlier with
      | false => exact .inl rfl
      | true => exact .inr ⟨rfl, by simpa [same, earlier] using noFail⟩
    · intro cond
      have same : m.tcb.tamperedNoFail = m.own.replaced := by
        rcases cond with clear | ⟨-, replaced⟩
        · rw [noFail, clear, Bool.false_or]
        · rw [noFail, replaced, Bool.or_true]
      refine ⟨by simp [inside], ?_, fun _ => unexpected.mpr same⟩
      intro _
      unfold Strace.checkErrno
      rw [same, valid.tampered]

/-- Over every sequence of syscalls of a tracee, its injection state is per
syscall exactly if no earlier syscall of it has been replaced with `syscall=`,
or the current one is, too. -/
theorem perSyscall_iff (o : Options) (m : Tracee)
    (run : Run Initial (Step o) (fun _ _ => True) m) : PerSyscall m ↔
      m.earlier = false ∨ m.tcb.insyscall = true ∧ m.own.replaced = true :=
  (run.invariant (P := Valid) (fun _ => initial_valid)
    fun _ _ _ valid _ moved => step_valid valid moved).perSyscall

/-! ## The tcbs of the main loop -/

/-- The tcb of some tracee in some run. -/
def Follows (o : Options) (t : Tcb) : Prop :=
  ∃ m, Run Initial (Step o) (fun _ _ => True) m ∧ m.tcb = t

section
variable {o : Options} {a : Answers} {s s' : Tracer} {t t' : Tcb} {i : Nat}

theorem Follows.start (flags : t.injectFlags = {}) (outside : t.insyscall = false) : Follows o t :=
  ⟨⟨t, {}, false⟩, .start ⟨flags, outside, rfl, rfl⟩, rfl⟩

theorem Follows.other (h : Follows o t) (flags : t'.injectFlags = t.injectFlags)
    (insyscall : t'.insyscall = t.insyscall) : Follows o t' := by
  obtain ⟨m, run, rfl⟩ := h
  exact ⟨_, run.next trivial (.other m t' flags insyscall), rfl⟩

theorem Follows.stop {s : Stop} (h : Follows o s.tcb) : Follows o (traceSyscall o a s).1.tcb := by
  obtain ⟨m, run, eq⟩ := h
  obtain ⟨t, personality, timer, sig⟩ := s
  obtain rfl := eq
  cases inside : m.tcb.insyscall with
  | false => exact ⟨_, run.next trivial (.enter m a personality timer sig inside), rfl⟩
  | true => exact ⟨_, run.next trivial (.exit m a personality timer sig inside), rfl⟩

def Followed (o : Options) (s : Tracer) : Prop := ∀ i, Follows o (s.tcbtab i)

theorem Followed.setTcb (followed : Followed o s) (follows : Follows o t) :
    Followed o (s.setTcb i t) := by
  intro j
  by_cases self : j = i
  · simp [self, follows]
  · rw [setTcb_tcbtab_other s t self]
    exact followed j

theorem Followed.of_eq (followed : Followed o s) (tcbtab : s'.tcbtab = s.tcbtab) :
    Followed o s' := by
  intro j
  rw [tcbtab]
  exact followed j

theorem droptcb_followed (followed : Followed o s) : Followed o (s.droptcb i) := by
  intro j
  by_cases self : j = i
  · rw [self]
    rcases droptcb_tcbtab_self s i with same | dropped
    · rw [same]
      exact followed i
    · rw [dropped]
      exact .start rfl rfl
  · rw [droptcb_tcbtab_other s self]
    exact followed j

theorem acts_followed {ok : Answers → Stop → Prop} {gone : List Nat}
    (acts : Acts o ok gone s s') (followed : Followed o s) : Followed o s' := by
  induction acts with
  | refl s => exact followed
  | trans _ _ first second => exact second (first followed)
  | tcb s i t kept => exact followed.setTcb ((followed i).other kept.flags kept.insyscall)
  | stop s a i sig => exact followed.setTcb (Follows.stop (followed i))
  | drop s i => exact droptcb_followed followed
  | rename s i pid => exact followed.setTcb ((followed i).other rfl rfl)
  | current s i => cases i <;> exact followed.of_eq rfl
  | record s x => exact followed.of_eq rfl

theorem admits_followed (admits : Admits s s') (followed : Followed o s) :
    Followed o s' := by
  intro j
  rcases admits.tcb j with noted | ⟨-, new, -⟩
  · exact (followed j).other noted.flags noted.insyscall
  · exact .start new.flags new.insyscall

theorem timerSighandler_followed (answers : Nat → Answers) (now : Nat) (followed : Followed o s) :
    Followed o (s.timerSighandler o answers now) :=
  timerSighandler_keep answers now (fun _ _ => acts_followed)
    (fun _ _ followed => followed.of_eq rfl) (fun _ followed => followed.of_eq rfl) followed

variable {m : Loop}

theorem step_followed {m' : Loop} {x : Move} (followed : Followed o m.tracer)
    (moved : m.step o x = some m') : Followed o m'.tracer := by
  cases Loop.step_moved moved with
  | next a =>
    unfold Loop.callNext
    split
    · exact followed
    · split
      · next taken => exact admits_followed (nextQueued_admits taken) followed
      · exact followed
  | waited a results unblocked =>
    unfold Loop.callWaited
    split
    · exact followed
    · split
      · exact followed
      · next waited =>
        have after := admits_followed (afterWait_admits waited) followed
        split <;> exact after
  | dispatch a wd =>
    unfold Loop.callDispatch dispatchEvent
    cases m.tracer.currentTcp with
    | none => exact followed
    | some i =>
      have acts : Acts o (fun _ _ => True) _ m.tracer (m.tracer.dispatchCurrent o a wd i).1 :=
        dispatchCurrent_acts (fun _ _ _ => trivial) fun _ => trivial
      exact acts_followed acts followed
  | expire now => exact followed.of_eq rfl
  | alarm answers now => exact timerSighandler_followed answers now followed
  | interrupt => exact followed.of_eq rfl

/-- Over every run of the main loop, a tcb outside a syscall has no injection
flag set but possibly the one of `syscall=`. -/
theorem between_syscalls {init : Loop → Prop} {ok : Loop → Move → Prop}
    (new : ∀ m, init m → ∀ i, (m.tracer.tcbtab i).New)
    (run : Run init (fun m x m' => m.step o x = some m') ok m)
    (outside : (m.tracer.tcbtab i).insyscall = false) :
    (m.tracer.tcbtab i).injectFlags =
      { tamperedNoFail := (m.tracer.tcbtab i).tamperedNoFail } := by
  have followed : Followed o m.tracer := by
    refine run.invariant (P := fun m => Followed o m.tracer) ?_
      fun _ _ _ followed _ moved => step_followed followed moved
    intro m initial j
    exact .start (new m initial j).flags (new m initial j).insyscall
  obtain ⟨tracee, run, eq⟩ := followed i
  have valid :=
    run.invariant (fun _ => initial_valid) fun _ _ _ valid _ moved => step_valid valid moved
  rw [← eq] at outside ⊢
  exact (valid.outside outside).2

end

/-! ## A syscall that is replaced -/

def replaceOptions : Options where
  supportedPersonalities := 1
  auditArchVec _ := ⟨0xc000003e, 0⟩
  nsyscallVec _ := 3
  sysentVec _ _ := {}
  traceSet := some fun _ => ⟨[], true⟩
  injectSet := some fun _ => ⟨[0b10], false⟩
  injectVec _ n := if n = 1 then
    { first := 1, last := injectLastInf, step := 0
      data := { retval := true, syscall := true, scno := 2 } }
    else {}

/-- The tracee at syscall 1. -/
def callsOne : Answers := { scno := .number 1 }

def inside : Tracee where
  tcb := (traceSyscall replaceOptions callsOne ⟨{ pid := 7 }, 0, {}, 0⟩).1.tcb
  own := ⟨true, true⟩

theorem inside_run : Run Initial (Step replaceOptions) (fun _ _ => True) inside := by
  have start : Run Initial (Step replaceOptions) (fun _ _ => True) ⟨{ pid := 7 }, {}, false⟩ :=
    .start ⟨rfl, rfl, rfl, rfl⟩
  exact start.next trivial (.enter _ callsOne 0 {} 0 rfl)

/-- Within the first syscall that is replaced, the two tests are still right. -/
theorem perSyscall_replaced : inside.own.replaced = true ∧ PerSyscall inside :=
  ⟨rfl, (perSyscall_iff replaceOptions inside inside_run).mpr (.inl rfl)⟩

def tracing : Loop where
  tracer := { tcbtab := fun j => if j = 0 then { pid := 5 } else {}, tcbtabsize := 1, nprocs := 1 }

def syscallStop : Waited where
  pid := 5
  status := 0x857f
  positive := by decide
  small := by decide

/-- One syscall through the main loop, replaced on entry. -/
theorem between_syscalls_replaced : ∃ m : Loop, (m.tracer.tcbtab 0).pid = 5 ∧
    (m.tracer.tcbtab 0).injectFlags = { tamperedNoFail := true } := by
  have start : Run (· = tracing) (fun m x m' => m.step replaceOptions x = some m')
      (fun _ _ => True) tracing := .start rfl
  have entering := (start.next (x := .next {}) trivial rfl).next
    (x := .waited {} [syscallStop]) trivial rfl
  have inside := entering.next (x := .dispatch callsOne) trivial rfl
  have exiting := (inside.next (x := .next {}) trivial rfl).next
    (x := .waited {} [syscallStop]) trivial rfl
  have outside := exiting.next (x := .dispatch callsOne) trivial rfl
  refine ⟨_, rfl, between_syscalls (i := 0) ?_ outside rfl⟩
  rintro _ rfl j
  unfold tracing
  dsimp only
  split <;> exact ⟨rfl, rfl, rfl⟩

/-- The flag of `syscall=` is still set after the exit of the syscall. -/
theorem replaced_flag_stays : ¬ ∀ (o : Options) (m : Tracee),
    Run Initial (Step o) (fun _ _ => True) m → PerSyscall m := by
  intro stated
  have exited := inside_run.next trivial (.exit _ callsOne 0 {} 0 rfl)
  have clear := (stated replaceOptions _ exited).clear rfl
  exact absurd (congrArg InjectFlags.tamperedNoFail clear) (by decide)

end Strace.Tampering
