import Strace.Output.Printing
import Strace.Tracer.NextEvent

/-! The tracer together with what it prints, and what an event changes in the
flags that decide what is printed. -/
namespace Strace

structure Tcb.Shown (t t' : Tcb) : Prop where
  pid : t'.pid = t.pid
  insyscall : t'.insyscall = t.insyscall
  filtered : t'.filtered = t.filtered

theorem Tcb.Shown.refl (t : Tcb) : t.Shown t := ⟨rfl, rfl, rfl⟩

theorem Tcb.Shown.trans {t u v : Tcb} (h : t.Shown u) (h' : u.Shown v) : t.Shown v :=
  ⟨h'.pid.trans h.pid, h'.insyscall.trans h.insyscall, h'.filtered.trans h.filtered⟩

theorem Tcb.Decoded.shown {t t' : Tcb} (decoded : t.Decoded t') : t.Shown t' := by
  rw [decoded]
  exact ⟨rfl, rfl, rfl⟩

namespace Tracer

/-- The tcb belongs to a tracee. -/
def live (s : Tracer) (i : Nat) : Prop := (s.tcbtab i).pid ≠ 0

def busy (s : Tracer) (i : Nat) : Prop :=
  (s.tcbtab i).insyscall = true ∧ (s.tcbtab i).filtered = false

def Shown (s s' : Tracer) : Prop := ∀ i, (s.tcbtab i).Shown (s'.tcbtab i)

section
variable {o : Options} {a : Answers} {wd : WaitData} {s s' : Tracer} {i j : Nat} {t : Tcb}

theorem Shown.live (shown : Shown s s') (i : Nat) : s'.live i ↔ s.live i := by
  simp [(shown i).pid, Tracer.live]

theorem Shown.busy (shown : Shown s s') (i : Nat) : s'.busy i ↔ s.busy i := by
  simp [(shown i).insyscall, (shown i).filtered, Tracer.busy]

theorem setTcb_shown (shown : (s.tcbtab i).Shown t) : Shown s (s.setTcb i t) := by
  intro j
  by_cases eq : j = i
  · simp [eq, shown]
  · rw [setTcb_tcbtab_other s t eq]
    exact .refl _

theorem restartCurrent_shown (op : RestartOp) (sig : Nat) :
    Shown s (s.restartCurrent a wd i op sig).1 := by
  unfold restartCurrent
  split
  · exact fun _ => .refl _
  · split
    · exact setTcb_shown ⟨rfl, rfl, rfl⟩
    · exact fun _ => .refl _

theorem droptcb_tcbtab (live : s.live i) (j : Nat) :
    (s.droptcb i).tcbtab j = if j = i then {} else s.tcbtab j := by
  by_cases eq : j = i
  · rw [eq, if_pos rfl]
    unfold droptcb
    rw [if_neg live, setTcb_tcbtab_self]
  · rw [if_neg eq, droptcb_tcbtab_other s eq]

theorem droptcb_live (live : s.live i) (j : Nat) :
    (s.droptcb i).live j ↔ s.live j ∧ j ≠ i := by
  unfold Tracer.live
  rw [droptcb_tcbtab live]
  by_cases eq : j = i
  · simp [eq]
  · simp [eq]

theorem droptcb_busy (live : s.live i) (j : Nat) :
    (s.droptcb i).busy j ↔ s.busy j ∧ j ≠ i := by
  unfold Tracer.busy
  rw [droptcb_tcbtab live]
  by_cases eq : j = i
  · simp [eq]
  · simp [eq]

theorem traceSyscallOf_other (other : j ≠ i) (sig : Nat) :
    (s.traceSyscallOf o a i sig).1.tcbtab j = s.tcbtab j := by
  exact setTcb_tcbtab_other s _ other

theorem traceSyscallOf_self (sig : Nat) :
    (s.traceSyscallOf o a i sig).1.tcbtab i = (traceSyscall o a (s.stopOf i sig)).1.tcb := by
  unfold traceSyscallOf
  simp only [record_tcbtab, withStop_tcbtab, setTcb_tcbtab_self]
  rfl

theorem traceSyscallOf_live (sig : Nat) (j : Nat) :
    (s.traceSyscallOf o a i sig).1.live j ↔ s.live j := by
  unfold Tracer.live
  by_cases eq : j = i
  · rw [eq, traceSyscallOf_self, (traceSyscall_traced o a (s.stopOf i sig)).kept.pid]
    rfl
  · rw [traceSyscallOf_other eq]

theorem recoverExecve_live (j : Nat) : (s.recoverExecve o a i).1.live j ↔ s.live j := by
  have started : s.Shown (s.setTcb i ((s.tcbtab i).setRecovering true)) :=
    setTcb_shown ⟨rfl, rfl, rfl⟩
  have traced := (traceSyscallOf_live (o := o) (a := a) (i := i)
    0 j).trans (started.live j)
  have ended (u : Tracer) : u.Shown (u.setTcb i ((u.tcbtab i).setRecovering false)) :=
    setTcb_shown ⟨rfl, rfl, rfl⟩
  exact ((ended _).live j).trans traced

theorem startupTcb_shown : s.Shown (s.startupTcb o a i) := by
  unfold startupTcb
  dsimp only
  split
  · split
    · obtain ⟨decoded, -⟩ := getScno_decoded
        ⟨{ s.tcbtab i with startup := false }, s.currentPersonality, s.timer, 0⟩
      have shown : (s.tcbtab i).Shown { s.tcbtab i with startup := false } := ⟨rfl, rfl, rfl⟩
      have set := setTcb_shown (shown.trans decoded.shown)
      exact set
    · exact setTcb_shown ⟨rfl, rfl, rfl⟩
  · exact fun _ => .refl _

theorem setTcb_live (pid : t.pid ≠ 0) (j : Nat) : (s.setTcb i t).live j ↔ s.live j ∨ j = i := by
  unfold Tracer.live
  by_cases eq : j = i
  · rw [eq, setTcb_tcbtab_self]
    exact ⟨fun _ => .inr rfl, fun _ => pid⟩
  · rw [setTcb_tcbtab_other s t eq]
    exact ⟨.inl, fun either => either.resolve_right eq⟩

theorem switchTcbs_live (leader : s.live i) (thread : s.live j) (other : j ≠ i) (k : Nat) :
    (s.switchTcbs i j).live k ↔ s.live k ∧ k ≠ i := by
  by_cases eq : k = j
  · rw [eq]
    unfold Tracer.live
    rw [switchTcbs_tcbtab s other]
    exact ⟨fun _ => ⟨thread, other⟩, fun _ => leader⟩
  · rw [← droptcb_live leader k]
    unfold Tracer.live switchTcbs
    dsimp only [setCurrentTcp]
    rw [setTcb_tcbtab_other _ _ eq]

theorem switchTcbs_busy (leader : s.live i) (other : j ≠ i) (k : Nat) :
    (s.switchTcbs i j).busy k ↔ s.busy k ∧ k ≠ i := by
  by_cases eq : k = j
  · rw [eq]
    unfold Tracer.busy
    rw [switchTcbs_tcbtab s other]
    exact ⟨fun busy => ⟨busy, other⟩, And.left⟩
  · rw [← droptcb_busy leader k]
    unfold Tracer.busy switchTcbs
    dsimp only [setCurrentTcp]
    rw [setTcb_tcbtab_other _ _ eq]

end

end Tracer

/-! ## The tracer and its output -/

structure System where
  tracer : Tracer := {}
  out : Output := {}

namespace System
variable (po : OutputOptions) (o : Options) (a : Answers) (x : Texts) (m : System) (i : Nat)

/-- `dispatch_event` for an event of tcb `i`. -/
def dispatch (wd : WaitData) : System where
  tracer := ((m.tracer.setCurrentTcp (some i)).dispatchCurrent o a wd i).1
  out := (m.out.setCurrentTcp (some i)).dispatchCurrent po o a x
    (m.tracer.setCurrentTcp (some i)) wd i

def attach (t : Tcb) : System where
  tracer := m.tracer.setTcb i t
  out := m.out.attach i po.outputSeparately

/-- `startup_tcb`. -/
def startup : System where
  tracer := m.tracer.startupTcb o a i
  out :=
    if (m.tracer.tcbtab i).startup && (m.tracer.tcbtab i).grabbed then
      m.out.notePersonality po a x (m.tracer.tcbtab i) i
    else m.out

structure Initial (m : System) : Prop where
  free : ∀ i, (m.tracer.tcbtab i).pid = 0
  out : m.out = {}

theorem initial_default : Initial {} := ⟨fun _ => rfl, rfl⟩

end System

inductive SystemEvent where
  | dispatch (a : Answers) (x : Texts) (wd : WaitData) (i : Nat)
  | attach (i : Nat)
  | startup (a : Answers) (x : Texts) (i : Nat)
  | other

inductive SystemStep (po : OutputOptions) (o : Options) : System → SystemEvent → System → Prop
  | dispatch (m : System) (a : Answers) (x : Texts) (wd : WaitData) (i : Nat)
      (live : (m.tracer.tcbtab i).pid ≠ 0) :
      SystemStep po o m (.dispatch a x wd i) (m.dispatch po o a x i wd)
  | attach (m : System) (i : Nat) (t : Tcb) (free : (m.tracer.tcbtab i).pid = 0)
      (pid : t.pid ≠ 0) (outside : t.insyscall = false) :
      SystemStep po o m (.attach i) (m.attach po i t)
  | startup (m : System) (a : Answers) (x : Texts) (i : Nat)
      (live : (m.tracer.tcbtab i).pid ≠ 0) :
      SystemStep po o m (.startup a x i) (m.startup po o a x i)
  | other (m : System) (tracer : Tracer)
      (shown : m.tracer.Shown tracer) :
      SystemStep po o m .other { m with tracer }

/-- `-e status=successful`. -/
def successful : OutputOptions := { statusSet := ⟨[0b1], false⟩ }

def oneCall : Options where
  supportedPersonalities := 1
  auditArchVec _ := ⟨0xc000003e, 0⟩
  nsyscallVec _ := 1
  sysentVec _ _ := {}
  traceSet := some fun _ => ⟨[1], false⟩

end Strace
