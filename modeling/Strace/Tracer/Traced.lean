import Strace.Tracer.Syscall

/-! What a syscall stop does: the five ways `trace_syscall` can go, and what
each of them keeps. -/
namespace Strace

/-! ## Determining the syscall -/

def Tcb.Decoded (t t' : Tcb) : Prop :=
  t' = { t with
    scno := t'.scno
    sEnt := t'.sEnt
    qualTrace := t'.qualTrace
    qualInject := t'.qualInject
    currpers := t'.currpers }

theorem Tcb.Decoded.trans {t u v : Tcb} (h : t.Decoded u) (h' : u.Decoded v) : t.Decoded v := by
  rw [h] at h'
  exact h'

def sysentOf (o : Options) (scno personality : Nat) : Sysent :=
  if scnoIsValid o scno personality then o.sysentVec personality scno else stubSysent

def shownScno (o : Options) (a : Answers) (p n : Nat) : Nat :=
  match (sysentOf o (o.shuffleScno p n) p).sen, a.subcall with
  | .syscall, some m | .ipc, some m | .socketcall, some m => m
  | _, _ => o.shuffleScno p n

section
variable {o : Options} {a : Answers} {s : Stop} {n : Nat}

structure Stop.Decoded (a : Answers) (s s' : Stop) : Prop where
  tcb : s.tcb.Decoded s'.tcb
  currpers : s'.tcb.currpers = a.newPers.getD s.tcb.currpers
  personality : s'.personality = a.newPers.getD s.personality
  timer : s'.timer = s.timer
  sig : s'.sig = s.sig

theorem getSyscallRegs_read (read : a.regsRead = true) :
    getSyscallRegs a s = some { s with
      personality := a.newPers.getD s.personality
      tcb := { s.tcb with currpers := a.newPers.getD s.tcb.currpers } } := by
  unfold getSyscallRegs
  rw [if_pos read]
  cases a.newPers with
  | none => rfl
  | some p => rfl

theorem getScno_number (read : a.regsRead = true) (number : a.scno = .number n) :
    (getScno o a s).2 = 1 ∧ s.Decoded a (getScno o a s).1 ∧
      (getScno o a s).1.tcb.scno = o.shuffleScno (a.newPers.getD s.personality) n ∧
      tcpSysent (getScno o a s).1.tcb = sysentOf o
        (o.shuffleScno (a.newPers.getD s.personality) n) (a.newPers.getD s.personality) := by
  unfold getScno sysentOf
  simp only [getSyscallRegs_read read, number]
  split <;> exact ⟨rfl, ⟨rfl, rfl, rfl, rfl, rfl⟩, rfl, rfl⟩

theorem getScno_res : (getScno o a s).2 =
    if a.regsRead then
      match a.scno with
      | .failed => -1
      | .ignored => 0
      | .number _ => 1
    else -1 := by
  unfold getScno
  cases read : a.regsRead with
  | false => simp only [getSyscallRegs, read, Bool.false_eq_true, ↓reduceIte]
  | true =>
    simp only [getSyscallRegs_read read]
    cases a.scno with
    | failed | ignored => rfl
    | number n => exact (apply_ite Prod.snd _ _ _).trans (ite_self _)

structure Answers.Shows (a : Answers) (n : Nat) : Prop where
  regs : a.regsRead = true
  number : a.scno = .number n
  args : a.argsRead = true

theorem decodeSubcall_decoded (s : Stop) : s.tcb.Decoded (decodeSubcall o a s).tcb ∧
    (decodeSubcall o a s).tcb.currpers = s.tcb.currpers ∧
    (decodeSubcall o a s).personality = s.personality ∧
    (decodeSubcall o a s).timer = s.timer ∧ (decodeSubcall o a s).sig = s.sig := by
  unfold decodeSubcall
  split <;> exact ⟨rfl, rfl, rfl, rfl, rfl⟩

theorem decodeSubcall_scno {scno p : Nat} (number : s.tcb.scno = o.shuffleScno p scno)
    (entry : tcpSysent s.tcb = sysentOf o (o.shuffleScno p scno) p) :
    (decodeSubcall o a s).tcb.scno = shownScno o a p scno := by
  unfold decodeSubcall shownScno
  rw [entry]
  cases (sysentOf o (o.shuffleScno p scno) p).sen <;> cases a.subcall <;>
    first | exact number | rfl

theorem Stop.Decoded.subcall {s' : Stop} (h : s.Decoded a s') :
    s.Decoded a (decodeSubcall o a s') := by
  obtain ⟨tcb, currpers, personality, timer, sig⟩ := decodeSubcall_decoded s'
  exact ⟨h.tcb.trans tcb, currpers.trans h.currpers, personality.trans h.personality,
    timer.trans h.timer, sig.trans h.sig⟩

theorem syscallEnteringDecode_shows (shows : a.Shows n) :
    (syscallEnteringDecode o a s).2 = 1 ∧ s.Decoded a (syscallEnteringDecode o a s).1 ∧
      (syscallEnteringDecode o a s).1.tcb.scno =
        shownScno o a (a.newPers.getD s.personality) n := by
  obtain ⟨res, decoded, scno, entry⟩ := getScno_number (o := o) (s := s) shows.regs shows.number
  have eq : syscallEnteringDecode o a s = (decodeSubcall o a (getScno o a s).1, 1) := by
    unfold syscallEnteringDecode
    simp only [res, shows.args, ne_eq, not_true_eq_false, ↓reduceIte, Bool.not_true,
      Bool.false_eq_true]
  rw [eq]
  exact ⟨rfl, decoded.subcall, decodeSubcall_scno scno entry⟩

theorem syscallEnteringDecode_res : (syscallEnteringDecode o a s).2 =
    if (getScno o a s).2 ≠ 1 then (getScno o a s).2 else if a.argsRead then 1 else -1 := by
  unfold syscallEnteringDecode
  dsimp only
  split
  · rfl
  · cases a.argsRead <;> rfl

theorem syscallEnteringDecode_ignored (read : a.regsRead = true) (ignored : a.scno = .ignored) :
    (syscallEnteringDecode o a s).2 = 0 := by
  simp [syscallEnteringDecode_res, getScno_res, read, ignored]

theorem syscallEnteringDecode_failed (failed : a.regsRead = false ∨ a.scno ≠ .ignored)
    (hidden : ¬ ∃ n, a.Shows n) : (syscallEnteringDecode o a s).2 = -1 := by
  rw [syscallEnteringDecode_res, getScno_res]
  cases read : a.regsRead with
  | false => rfl
  | true =>
    cases number : a.scno with
    | failed => rfl
    | ignored => simp [number, read] at failed
    | number n => exact if_neg fun args => hidden ⟨n, read, number, args⟩

theorem getScno_decoded (s : Stop) : s.tcb.Decoded (getScno o a s).1.tcb ∧
    (getScno o a s).1.timer = s.timer ∧ (getScno o a s).1.sig = s.sig := by
  unfold getScno
  cases read : a.regsRead with
  | false =>
    simp only [getSyscallRegs, read, Bool.false_eq_true, ↓reduceIte, and_true]
    rfl
  | true =>
    simp only [getSyscallRegs_read read]
    cases a.scno with
    | failed | ignored => exact ⟨rfl, rfl, rfl⟩
    | number n =>
      dsimp only
      split <;> exact ⟨rfl, rfl, rfl⟩

theorem syscallEnteringDecode_decoded (s : Stop) :
    s.tcb.Decoded (syscallEnteringDecode o a s).1.tcb ∧
      (syscallEnteringDecode o a s).1.timer = s.timer ∧
      (syscallEnteringDecode o a s).1.sig = s.sig := by
  have first := getScno_decoded (o := o) (a := a) s
  unfold syscallEnteringDecode
  dsimp only
  split
  · exact first
  · split
    · exact first
    · obtain ⟨tcb, -, -, timer, sig⟩ := decodeSubcall_decoded (getScno o a s).1
      exact ⟨first.1.trans tcb, timer.trans first.2.1, sig.trans first.2.2⟩

/-! ## Reading the result -/

def Tcb.Resulted (t t' : Tcb) : Prop :=
  t' = { t with hideLog := t'.hideLog, currpers := t'.currpers, uError := t'.uError }

theorem syscallExitingDecode_resulted (s : Stop) :
    s.tcb.Resulted (syscallExitingDecode a s).1.tcb ∧
      (syscallExitingDecode a s).1.timer = s.timer ∧ (syscallExitingDecode a s).1.sig = s.sig := by
  unfold syscallExitingDecode
  split
  · exact ⟨rfl, rfl, rfl⟩
  · unfold getSyscallResult
    cases read : a.regsRead with
    | false =>
      simp only [getSyscallRegs, read, Bool.false_eq_true, ↓reduceIte]
      split <;> exact ⟨rfl, rfl, rfl⟩
    | true =>
      simp only [getSyscallRegs_read read]
      split <;> exact ⟨rfl, rfl, rfl⟩

theorem syscallExitingDecode_res : (syscallExitingDecode a s).2 =
    if s.tcb.filtered then 0 else if a.regsRead then 1 else -1 := by
  unfold syscallExitingDecode
  split
  · rfl
  · unfold getSyscallResult
    cases read : a.regsRead with
    | false => simp only [getSyscallRegs, read, Bool.false_eq_true, ↓reduceIte]
    | true => simp only [getSyscallRegs_read read, ↓reduceIte]

/-! ## The ways a syscall stop can go -/

inductive Traced (o : Options) (a : Answers) (s : Stop) : Stop × Int → Prop
  | entered (n : Nat) (entering : s.tcb.insyscall = false) (shows : a.Shows n) :
      Traced o a s
        (syscallEnteringFinish (syscallEnteringTrace o a (syscallEnteringDecode o a s).1).2
          (syscallEnteringTrace o a (syscallEnteringDecode o a s).1).1,
          (syscallEnteringTrace o a (syscallEnteringDecode o a s).1).2)
  | ignored (entering : s.tcb.insyscall = false) (read : a.regsRead = true)
      (ignored : a.scno = .ignored) :
      Traced o a s ((syscallEnteringDecode o a s).1, 0)
  | unread (entering : s.tcb.insyscall = false) (failed : a.regsRead = false ∨ a.scno ≠ .ignored)
      (hidden : ¬ ∃ n, a.Shows n) :
      Traced o a s (syscallEnteringFinish (-1) (syscallEnteringDecode o a s).1, -1)
  | passed (inside : s.tcb.insyscall = true) (filtered : s.tcb.filtered = true) :
      Traced o a s (syscallExitingFinish (syscallExitingDecode a s).1, 0)
  | exited (inside : s.tcb.insyscall = true) (visible : s.tcb.filtered = false) (res : Int) :
      Traced o a s
        (syscallExitingFinish (syscallExitingTrace o a res (syscallExitingDecode a s).1).1,
        if a.regsRead then 0 else -1)

theorem traceSyscall_traced (o : Options) (a : Answers) (s : Stop) :
    Traced o a s (traceSyscall o a s) := by
  cases inside : s.tcb.insyscall with
  | true =>
    have res := syscallExitingDecode_res (a := a) (s := s)
    cases filtered : s.tcb.filtered with
    | true =>
      simpa [traceSyscall, Tcb.entering, inside, res, filtered] using
        Traced.passed inside filtered
    | false =>
      have exited := Traced.exited (o := o) (a := a) inside filtered (syscallExitingDecode a s).2
      cases read : a.regsRead <;>
        simpa [traceSyscall, Tcb.entering, inside, res, filtered, read, syscallExitingTrace]
          using exited
  | false =>
    by_cases shown : ∃ n, a.Shows n
    · obtain ⟨n, shows⟩ := shown
      have res := (syscallEnteringDecode_shows (o := o) (s := s) shows).1
      simpa [traceSyscall, Tcb.entering, inside, res] using Traced.entered n inside shows
    · by_cases failed : a.regsRead = false ∨ a.scno ≠ .ignored
      · have res := syscallEnteringDecode_failed (o := o) (s := s) failed shown
        simpa [traceSyscall, Tcb.entering, inside, res] using
          Traced.unread inside failed shown
      · have found : a.regsRead = true ∧ a.scno = .ignored := by simpa using failed
        have res := syscallEnteringDecode_ignored (o := o) (s := s) found.1 found.2
        simpa [traceSyscall, Tcb.entering, inside, res] using
          Traced.ignored inside found.1 found.2

/-! ## What every syscall stop keeps -/

/-- What no syscall stop changes in a tcb. -/
structure Tcb.Kept (t t' : Tcb) : Prop where
  pid : t'.pid = t.pid
  filter : t'.seccompFilter = t.seccompFilter
  recovering : t'.recovering = t.recovering
  skipDetach : t'.skipDetachOnFirstExec = t.skipDetachOnFirstExec
  waitDataIdx : t'.waitDataIdx = t.waitDataIdx
  delayedWaitData : t'.delayedWaitData = t.delayedWaitData

variable {t t' : Tcb}

theorem Tcb.Kept.trans {u v : Tcb} (h : t.Kept u) (h' : u.Kept v) : t.Kept v :=
  ⟨h'.pid.trans h.pid, h'.filter.trans h.filter, h'.recovering.trans h.recovering,
    h'.skipDetach.trans h.skipDetach, h'.waitDataIdx.trans h.waitDataIdx,
    h'.delayedWaitData.trans h.delayedWaitData⟩

theorem Tcb.Same.kept (h : t.Same t') : t.Kept t' :=
  ⟨h.pid, h.filter, h.recovering, h.skipDetach, h.waitDataIdx, h.delayedWaitData⟩

theorem Tcb.Decoded.kept (h : t.Decoded t') : t.Kept t' := by
  rw [h]
  exact ⟨rfl, rfl, rfl, rfl, rfl, rfl⟩

theorem Tcb.Resulted.kept (h : t.Resulted t') : t.Kept t' := by
  rw [h]
  exact ⟨rfl, rfl, rfl, rfl, rfl, rfl⟩

theorem syscallEnteringFinish_kept (res : Int) (s : Stop) :
    s.tcb.Kept (syscallEnteringFinish res s).tcb := ⟨rfl, rfl, rfl, rfl, rfl, rfl⟩

theorem syscallExitingFinish_kept (s : Stop) : s.tcb.Kept (syscallExitingFinish s).tcb :=
  ⟨rfl, rfl, rfl, rfl, rfl, rfl⟩

theorem Traced.kept {r : Stop × Int} (h : Traced o a s r) : s.tcb.Kept r.1.tcb := by
  have entering := (syscallEnteringDecode_decoded (o := o) (a := a) s).1.kept
  have exiting := (syscallExitingDecode_resulted (a := a) s).1.kept
  cases h with
  | entered n _ shows =>
    exact entering.trans <| (syscallEnteringTrace_same o a _).tcb.kept.trans
      (syscallEnteringFinish_kept _ _)
  | ignored => exact entering
  | unread => exact entering.trans (syscallEnteringFinish_kept _ _)
  | passed => exact exiting.trans (syscallExitingFinish_kept _)
  | exited _ _ res =>
    exact exiting.trans <| (syscallExitingTrace_tamper o a _ res).same.tcb.kept.trans
      (syscallExitingFinish_kept _)

/-! ## Entered and exited -/

structure Stop.Entered (o : Options) (a : Answers) (n : Nat) (s s' : Stop) : Prop where
  insyscall : s'.tcb.insyscall = true
  scno : s'.tcb.scno = shownScno o a (a.newPers.getD s.personality) n
  currpers : s'.tcb.currpers = a.newPers.getD s.tcb.currpers
  personality : s'.personality = a.newPers.getD s.personality

theorem Answers.Shows.unique {m : Nat} (h : a.Shows m) (h' : a.Shows n) : m = n := by
  have eq := h.number.symm.trans h'.number
  exact ScnoAnswer.number.inj eq

theorem traceSyscall_entered (entering : s.tcb.insyscall = false) (shows : a.Shows n) :
    s.Entered o a n (traceSyscall o a s).1 ∧ 0 ≤ (traceSyscall o a s).2 := by
  have traced := traceSyscall_traced o a s
  generalize traceSyscall o a s = r at traced
  cases traced with
  | entered m _ shown =>
    obtain ⟨-, decoded, scno⟩ := syscallEnteringDecode_shows shows
    have same := syscallEnteringTrace_same o a (syscallEnteringDecode o a s).1
    exact ⟨⟨rfl, same.tcb.scno.trans scno, same.tcb.currpers.trans decoded.currpers,
      same.personality.trans decoded.personality⟩, syscallEnteringTrace_nonneg o a _⟩
  | ignored _ _ ignored => exact absurd (ignored.symm.trans shows.number) (by simp)
  | unread _ _ hidden => exact absurd ⟨n, shows⟩ hidden
  | passed inside | exited inside => rw [entering] at inside; cases inside

theorem traceSyscall_unshown (entering : s.tcb.insyscall = false) (hidden : ¬ ∃ n, a.Shows n)
    (found : 0 ≤ (traceSyscall o a s).2) : (traceSyscall o a s).1.tcb.insyscall = false := by
  have traced := traceSyscall_traced o a s
  generalize traceSyscall o a s = r at traced found
  cases traced with
  | entered m _ shows => exact absurd ⟨m, shows⟩ hidden
  | ignored =>
    have decoded := (syscallEnteringDecode_decoded (o := o) (a := a) s).1
    rw [decoded]
    exact entering
  | unread => simp at found
  | passed inside | exited inside => rw [entering] at inside; cases inside

theorem traceSyscall_exited (inside : s.tcb.insyscall = true) :
    (traceSyscall o a s).1.tcb.insyscall = false ∧
      ((traceSyscall o a s).2 < 0 ↔ s.tcb.filtered = false ∧ a.regsRead = false) := by
  have traced := traceSyscall_traced o a s
  generalize traceSyscall o a s = r at traced
  cases traced with
  | entered _ entering => rw [inside] at entering; cases entering
  | ignored entering | unread entering => rw [inside] at entering; cases entering
  | passed _ filtered => exact ⟨rfl, by simp [filtered]⟩
  | exited _ visible res =>
    refine ⟨rfl, ?_⟩
    cases read : a.regsRead with
    | true => simp
    | false => simp [visible]

end

end Strace
