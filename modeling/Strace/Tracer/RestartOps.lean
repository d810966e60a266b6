import Strace.Tracer.Dispatch
import Strace.Tracer.Injection

/-! Which request `dispatch_event` restarts a tracee with. A tracee inside a
traced syscall has to be restarted with `PTRACE_SYSCALL`, or its syscall-exit
stop is skipped. -/
namespace Strace.Tracer
open List

structure MustStop (o : Options) (t : Tcb) : Prop where
  filter : t.seccompFilter = true
  insyscall : t.insyscall = true
  traced : InTable o t.scno t.currpers

def RestartsStop (o : Options) (s s' : Tracer) : Prop :=
  ∀ op j sig, .restart op j sig ∈ s'.log.drop s.log.length → MustStop o (s'.tcbtab j) →
    op = .syscall

def Goes (s : Tracer) (t : Tcb) : Prop := s.interrupted = false ∧ t.delayed = false

/-- The tcb is not detached at an execve. -/
def Stays (o : Options) (t : Tcb) : Prop :=
  o.detachOnExecve = true → t.skipDetachOnFirstExec = true

def RestartSafe (o : Options) (a : Answers) (s : Tracer) (wd : WaitData) (i : Nat) : Prop :=
  let t := s.tcbtab i
  match wd.te with
  | .restart | .stopBeforeExit | .signalDeliveryStop => Goes s t → MustStop o t → TopOpStops o s t
  | .stopBeforeExecve =>
    match s.execveThread o i with
    | some thread =>
      Goes s (s.tcbtab thread) → Stays o (s.tcbtab thread) → MustStop o (s.tcbtab thread) →
        TopOpStops o s t
    | none =>
      if t.insyscall then Goes s t → Stays o t → MustStop o t → TopOpStops o s t
      else ∀ n, a.Shows n → Goes s t → Stays o t → t.seccompFilter = true →
        ¬ InTable o (shownScno o a (a.newPers.getD s.currentPersonality) n)
          (a.newPers.getD t.currpers)
  | _ => True

section
variable {o : Options} {a : Answers} {wd : WaitData} {s : Tracer} {i : Nat}

theorem restartsStop_of_unlogged {s' : Tracer} (calls : List Action) (log : s'.log = s.log ++ calls)
    (only : ∀ op j sig, Action.restart op j sig ∉ calls) : RestartsStop o s s' := by
  intro op j sig logged _
  rw [log, drop_left] at logged
  exact absurd logged (only op j sig)

theorem restartCurrent_stops_iff (u : Tracer) (calls : List Action) (op : RestartOp) (sig : Nat)
    (log : u.log = s.log ++ calls) (only : ∀ op j sig, Action.restart op j sig ∉ calls) :
    RestartsStop o s (u.restartCurrent a wd i op sig).1 ↔
      (Goes u (u.tcbtab i) → MustStop o (u.tcbtab i) → op = .syscall) := by
  by_cases goes : Goes u (u.tcbtab i)
  · rw [restartCurrent_prompt a wd op sig goes.1 goes.2]
    simp only [goes, true_implies]
    constructor
    · intro stops must
      refine stops op i sig ?_ must
      rw [record_log, log]
      simp
    · intro fits op' j sig' logged must
      rw [record_log, log, append_assoc, drop_left] at logged
      rcases mem_append.mp logged with earlier | last
      · exact absurd earlier (only op' j sig')
      · obtain ⟨rfl, rfl, rfl⟩ := Action.restart.inj (mem_singleton.mp last)
        exact fits must
  · have unlogged : (u.restartCurrent a wd i op sig).1.log = s.log ++ calls := by
      unfold restartCurrent
      split
      · exact log
      · next running =>
        rw [if_pos]
        · exact log
        · simpa [Goes, running] using goes
    simp only [goes, false_implies, iff_true]
    exact restartsStop_of_unlogged calls unlogged only

theorem event_stops_iff (op : RestartOp) (sig : Nat) :
    RestartsStop o s (s.restartCurrent a wd i op sig).1 ↔
      (Goes s (s.tcbtab i) → MustStop o (s.tcbtab i) → op = .syscall) :=
  restartCurrent_stops_iff s [] op sig (append_nil _).symm (by simp)

theorem syscallStop_stops : RestartsStop o s (s.dispatchSyscallStop o a wd i).1 := by
  unfold dispatchSyscallStop
  dsimp only
  split
  · refine restartsStop_of_unlogged [_] rfl ?_
    split <;> simp
  · rw [restartCurrent_stops_iff _ [_] _ _ rfl]
    · intro _ must
      rw [if_pos must.filter, if_pos must.insyscall]
    · split <;> simp

theorem mustStop_congr {t t' : Tcb} (filter : t'.seccompFilter = t.seccompFilter)
    (insyscall : t'.insyscall = t.insyscall) (scno : t'.scno = t.scno)
    (currpers : t'.currpers = t.currpers) : MustStop o t' ↔ MustStop o t := by
  constructor
  · rintro ⟨h, h', h''⟩
    exact ⟨filter ▸ h, insyscall ▸ h', scno ▸ currpers ▸ h''⟩
  · rintro ⟨h, h', h''⟩
    exact ⟨filter.symm ▸ h, insyscall.symm ▸ h', scno.symm ▸ currpers.symm ▸ h''⟩

@[simp] theorem mustStop_firstExecSkipped (t : Tcb) : MustStop o t.firstExecSkipped ↔
    MustStop o t :=
  mustStop_congr rfl rfl rfl rfl

@[simp] theorem mustStop_execSucceeded (t : Tcb) : MustStop o t.execSucceeded ↔ MustStop o t :=
  mustStop_congr rfl rfl rfl rfl

@[simp] theorem mustStop_setPid (t : Tcb) (pid : Nat) : MustStop o (t.setPid pid) ↔ MustStop o t :=
  mustStop_congr rfl rfl rfl rfl

theorem detachOrRestart_stops_iff (u : Tracer) (calls : List Action) (op : RestartOp) (sig : Nat)
    (log : u.log = s.log ++ calls) (only : ∀ op j sig, Action.restart op j sig ∉ calls) :
    RestartsStop o s (u.detachOrRestart o a wd i op sig).1 ↔
      (Goes u (u.tcbtab i) → Stays o (u.tcbtab i) → MustStop o (u.tcbtab i) → op = .syscall) := by
  unfold detachOrRestart Stays
  split
  · next detach =>
    split
    · next skip =>
      rw [restartCurrent_stops_iff (u.setTcb i (u.tcbtab i).firstExecSkipped) calls op sig log only,
        setTcb_tcbtab_self]
      simp only [detach, skip, true_implies]
      rw [mustStop_firstExecSkipped]
      exact Iff.rfl
    · next leave =>
      simp only [detach, leave, Bool.false_eq_true, imp_false, not_true_eq_false, false_implies,
        implies_true, iff_true]
      exact restartsStop_of_unlogged calls ((droptcb_log u i).1.trans log) only
  · next stay =>
    rw [restartCurrent_stops_iff u calls op sig log only]
    simp only [stay, Bool.false_eq_true, false_implies, true_implies]

theorem switched_stops_iff {j : Nat} (other : j ≠ i) :
    RestartsStop o s (((s.setTcb i (s.tcbtab i).execSucceeded).switchTcbs i j).detachOrRestart
        o a wd j (s.restartOp o i) 0).1 ↔
      (Goes s (s.tcbtab j) → Stays o (s.tcbtab j) → MustStop o (s.tcbtab j) →
        TopOpStops o s (s.tcbtab i)) := by
  have log := switchTcbs_log (s.setTcb i (s.tcbtab i).execSucceeded) i j
  rw [detachOrRestart_stops_iff (s := s) _ [] _ _ (log.1.trans (append_nil _).symm) (by simp),
    restartOp_eq_syscall, switchTcbs_tcbtab _ other, setTcb_tcbtab_other _ _ other, mustStop_setPid]
  unfold Goes
  rw [log.2]
  exact Iff.rfl

theorem exiting_stops_iff :
    RestartsStop o s ((s.setTcb i (s.tcbtab i).execSucceeded).detachOrRestart
        o a wd i (s.restartOp o i) 0).1 ↔
      (Goes s (s.tcbtab i) → Stays o (s.tcbtab i) → MustStop o (s.tcbtab i) →
        TopOpStops o s (s.tcbtab i)) := by
  rw [detachOrRestart_stops_iff (s := s) (s.setTcb i (s.tcbtab i).execSucceeded) [] _ _
    (append_nil _).symm (by simp), restartOp_eq_syscall, setTcb_tcbtab_self,
    mustStop_execSucceeded]
  exact Iff.rfl

def strayStop (s : Tracer) (i : Nat) : Stop :=
  ⟨(s.tcbtab i).execSucceeded.setRecovering true, s.currentPersonality, s.timer, 0⟩

theorem recoverExecve_spec (entering : (s.tcbtab i).insyscall = false) :
    ∃ u, (s.setTcb i (s.tcbtab i).execSucceeded).recoverExecve o a i =
        (u, (traceSyscall o a (strayStop s i)).1.sig, (traceSyscall o a (strayStop s i)).2) ∧
      u.log = s.log ++ [.entering i] ∧ u.interrupted = s.interrupted ∧
      u.tcbtab i = (traceSyscall o a (strayStop s i)).1.tcb.setRecovering false := by
  have call : ((s.tcbtab i).execSucceeded.setRecovering true).entering = true := by
    simp [Tcb.entering, Tcb.execSucceeded, Tcb.setRecovering, entering]
  unfold recoverExecve traceSyscallOf
  simp only [setTcb_tcbtab_self, call, record_tcbtab, withStop_tcbtab]
  exact ⟨_, rfl, rfl, rfl, setTcb_tcbtab_self ..⟩

theorem stray_stops_iff (entering : (s.tcbtab i).insyscall = false) (u : Tracer) (sig : Nat)
    (log : u.log = s.log ++ [.entering i]) (interrupted : u.interrupted = s.interrupted)
    (now : u.tcbtab i = (traceSyscall o a (strayStop s i)).1.tcb.setRecovering false)
    (found : 0 ≤ (traceSyscall o a (strayStop s i)).2) :
    RestartsStop o s (u.detachOrRestart o a wd i (s.restartOp o i) sig).1 ↔
      ∀ n, a.Shows n → Goes s (s.tcbtab i) → Stays o (s.tcbtab i) →
        (s.tcbtab i).seccompFilter = true →
        ¬ InTable o (shownScno o a (a.newPers.getD s.currentPersonality) n)
          (a.newPers.getD (s.tcbtab i).currpers) := by
  have kept := (traceSyscall_traced o a (strayStop s i)).kept
  have delayed := traceSyscall_recovering (o := o) (a := a) (s := strayStop s i) entering rfl
  have top : s.restartOp o i = .syscall ↔ (s.tcbtab i).seccompFilter = false := by
    simp [restartOp_eq_syscall, TopOpStops, entering]
  have goes : Goes u (u.tcbtab i) ↔ Goes s (s.tcbtab i) := by
    unfold Goes
    rw [interrupted, now]
    refine and_congr_right fun _ => ?_
    rw [← show _ = (s.tcbtab i).delayed from delayed]
    exact Iff.rfl
  have stays : Stays o (u.tcbtab i) ↔ Stays o (s.tcbtab i) := by
    unfold Stays
    rw [now, ← show _ = (s.tcbtab i).skipDetachOnFirstExec from kept.skipDetach]
    exact Iff.rfl
  rw [detachOrRestart_stops_iff u [.entering i] _ _ log (by simp), goes, stays, top]
  by_cases shown : ∃ n, a.Shows n
  · obtain ⟨n, shows⟩ := shown
    obtain ⟨entered, -⟩ := traceSyscall_entered (s := strayStop s i) entering shows
    have must : MustStop o (u.tcbtab i) ↔ (s.tcbtab i).seccompFilter = true ∧
        InTable o (shownScno o a (a.newPers.getD s.currentPersonality) n)
          (a.newPers.getD (s.tcbtab i).currpers) := by
      rw [now, ← show _ = (s.tcbtab i).seccompFilter from kept.filter,
        ← show _ = shownScno o a (a.newPers.getD s.currentPersonality) n from entered.scno,
        ← show _ = a.newPers.getD (s.tcbtab i).currpers from entered.currpers]
      exact ⟨fun h => ⟨h.filter, h.traced⟩, fun h => ⟨h.1, entered.insyscall, h.2⟩⟩
    rw [must]
    constructor
    · intro stops m shows' goes stays filter traced
      obtain rfl := shows'.unique shows
      have := stops goes stays ⟨filter, traced⟩
      rw [filter] at this
      cases this
    · intro safe goes stays must
      exact absurd must.2 (safe n shows goes stays must.1)
  · have idle : ¬ MustStop o (u.tcbtab i) := by
      intro must
      have inside : (traceSyscall o a (strayStop s i)).1.tcb.insyscall = true := by
        have := must.insyscall
        rw [now] at this
        exact this
      exact absurd (traceSyscall_unshown entering shown found) (by simp [inside])
    exact ⟨fun _ n shows => absurd ⟨n, shows⟩ shown, fun _ _ _ must => absurd must idle⟩

theorem execve_stops_iff (te : wd.te = .stopBeforeExecve) :
    RestartsStop o s (s.dispatchExecve o a wd i).1 ↔ RestartSafe o a s wd i := by
  unfold dispatchExecve RestartSafe
  simp only [te, execveThread_execSucceeded]
  cases thread : s.execveThread o i with
  | some j => exact switched_stops_iff (execveThread_ne thread)
  | none =>
    have same : ((s.setTcb i (s.tcbtab i).execSucceeded).tcbtab i).entering =
        !(s.tcbtab i).insyscall := by
      rw [setTcb_tcbtab_self]
      rfl
    simp only [same]
    cases inside : (s.tcbtab i).insyscall with
    | true =>
      exact exiting_stops_iff
    | false =>
      obtain ⟨u, eq, log, interrupted, now⟩ := recoverExecve_spec (o := o) (a := a) inside
      simp only [Bool.not_false, ↓reduceIte, eq]
      split
      · next failed =>
        refine iff_of_true (restartsStop_of_unlogged [.entering i] log (by simp)) ?_
        intro n shows
        have found := (traceSyscall_entered (o := o) (s := strayStop s i) inside shows).2
        exact absurd failed (Int.not_lt.mpr found)
      · next found => exact stray_stops_iff inside _ _ log interrupted now (Int.not_lt.mp found)

theorem seccomp_stops (te : wd.te = .seccomp) :
    RestartsStop o s (s.dispatchCurrent o a wd i).1 := by
  simp only [dispatchCurrent, te]
  split
  · simp [restartCurrent_stops_iff (s := s) (s.setTcb i (s.tcbtab i).setSeccompFilter) [] _ _
      (append_nil _).symm (by simp)]
  · grind [event_stops_iff, syscallStop_stops]

theorem dispatchCurrent_stops_iff :
    (wd.te ≠ .groupStop → RestartsStop o s (s.dispatchCurrent o a wd i).1) ↔
      RestartSafe o a s wd i := by
  have unlogged : RestartsStop o s s :=
    restartsStop_of_unlogged [] (append_nil _).symm (by simp)
  have dropped : RestartsStop o s (s.droptcb i) :=
    restartsStop_of_unlogged [] ((droptcb_log s i).1.trans (append_nil _).symm) (by simp)
  have event (sig : Nat) : RestartsStop o s (s.restartCurrent a wd i (s.restartOp o i) sig).1 ↔
      (Goes s (s.tcbtab i) → MustStop o (s.tcbtab i) → TopOpStops o s (s.tcbtab i)) := by
    rw [event_stops_iff, restartOp_eq_syscall]
  cases te : wd.te
  case stopBeforeExecve =>
    simp [← execve_stops_iff te, dispatchCurrent, te]
  case seccomp => simpa [RestartSafe, te] using seccomp_stops te
  case syscallStop => simpa [RestartSafe, dispatchCurrent, te] using syscallStop_stops
  all_goals simp [RestartSafe, dispatchCurrent, te, event, unlogged, dropped]

end

/-- `dispatch_event` restarts every tracee that must stop with
`PTRACE_SYSCALL` exactly when the event is safe for its current tcb. -/
theorem restarts_stop_iff (o : Options) (a : Answers) (s : Tracer) (wd : WaitData) :
    (wd.te ≠ .groupStop → RestartsStop o s (dispatchEvent o a s (some wd)).1) ↔
      ∀ i ∈ s.currentTcp, RestartSafe o a s wd i := by
  cases current : s.currentTcp with
  | none =>
    have same : (dispatchEvent o a s (some wd)).1 = s := by
      unfold dispatchEvent
      rw [current]
    rw [same]
    refine iff_of_true (fun _ => restartsStop_of_unlogged [] (List.append_nil _).symm (by simp)) ?_
    simp
  | some i =>
    have same : dispatchEvent o a s (some wd) = s.dispatchCurrent o a wd i := by
      unfold dispatchEvent
      rw [current]
    simp only [same, Option.mem_def, Option.some.injEq, forall_eq']
    exact dispatchCurrent_stops_iff

def mixedOptions : Options where
  supportedPersonalities := 2
  auditArchVec p := if p = 0 then ⟨0xc000003e, 0⟩ else ⟨0x40000003, 0⟩
  nsyscallVec _ := 3
  sysentVec _ _ := {}
  traceSet := some fun p => ⟨[if p = 0 then 0b10 else 0], false⟩

def delayedRestart : Tracer where
  tcbtab i := if i = 0 then { pid := 7, seccompFilter := true, insyscall := true, scno := 1 }
    else { pid := 8, currpers := 1 }
  tcbtabsize := 2
  nprocs := 2
  currentTcp := some 0
  currentPersonality := 1

/-- The delayed tracee is restarted with `PTRACE_CONT`, since the number is
looked up in the personality of the other tracee. -/
theorem delayed_restart_skips_exit :
    ¬ ∀ (o : Options) (a : Answers) (s : Tracer) (wd : WaitData), wd.te ≠ .groupStop →
      RestartsStop o s (dispatchEvent o a s (some wd)).1 := by
  intro stated
  have stops := stated mixedOptions {} delayedRestart { te := .restart } (by decide)
  exact absurd (stops .cont 0 0 (by decide) ⟨rfl, rfl, by decide, by decide⟩) (by decide)

end Strace.Tracer
