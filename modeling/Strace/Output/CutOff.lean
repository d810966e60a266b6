import Strace.Output.Notices
import Strace.Output.Ownership

/-! What cuts off the line of a syscall's entry from the text of its exit. -/
namespace Strace.Output

section
variable {s u : Output} {i : Nat}

theorem setTcb_reprint {t : TcbOut} (same : t.reprint = (s.tcbs i).reprint) (j : Nat) :
    ((s.setTcb i t).tcbs j).reprint = (s.tcbs j).reprint := by
  by_cases eq : j = i
  · rw [eq, setTcb_tcbs_self, same]
  · rw [setTcb_tcbs_other _ _ eq]

theorem Writes.same (writes : s.Writes u) :
    (∀ j, (u.tcbs j).reprint = (s.tcbs j).reprint) ∧ u.printingTcp = s.printingTcp := by
  induction writes with
  | refl | current => exact ⟨fun _ => rfl, rfl⟩
  | trans _ _ first second =>
    exact ⟨fun j => (second.1 j).trans (first.1 j), second.2.trans first.2⟩
  | fprintf s k text => exact ⟨setTcb_reprint (by rfl), rfl⟩
  | curcol s k => exact ⟨setTcb_reprint (by rfl), rfl⟩

theorem Speaks.reprint (speaks : s.Speaks i u) (j : Nat) :
    (u.tcbs j).reprint = (s.tcbs j).reprint ∨ j = i ∧ (u.tcbs j).reprint = false := by
  induction speaks with
  | refl | ended | printing => exact .inl rfl
  | aside writes => exact .inl (writes.same.1 j)
  | trans _ _ first second =>
    rcases second with same | taken
    · simp [same, first]
    · exact .inr taken
  | fprintf s k text =>
    refine .inl (setTcb_reprint ?_ j)
    rfl
  | curcol s k =>
    refine .inl (setTcb_reprint ?_ j)
    rfl
  | start s =>
    refine .inl (setTcb_reprint ?_ j)
    rfl
  | resumed s =>
    by_cases eq : j = i
    · exact .inr ⟨eq, by rw [eq, setReprint, setTcb_tcbs_self]⟩
    · exact .inl (by rw [setReprint, setTcb_tcbs_other _ _ eq])

theorem Speaks.unset (speaks : s.Speaks i u) {j : Nat} (unset : (s.tcbs j).reprint = false) :
    (u.tcbs j).reprint = false := by
  rcases speaks.reprint j with same | ⟨-, taken⟩
  · exact same.trans unset
  · exact taken

theorem Speaks.printingTcp (speaks : s.Speaks i u) :
    u.printingTcp = s.printingTcp ∨ u.printingTcp = none ∨ u.printingTcp = some i := by
  induction speaks with
  | refl | fprintf | curcol | resumed => exact .inl rfl
  | aside writes => exact .inl writes.same.2
  | ended => exact .inr (.inl rfl)
  | printing | start => exact .inr (.inr rfl)
  | trans _ _ first second =>
    rcases second with same | moved
    · simp [same, first]
    · exact .inr moved

theorem lineEnded_printing : s.lineEnded.printingTcp = none := by
  unfold lineEnded endPrinting
  split
  · next ended => exact ended
  · rfl

theorem unwindTcbPrint_printing (x : Texts) (ended : s.printingTcp = none) :
    (s.unwindTcbPrint x).printingTcp = none := by
  unfold unwindTcbPrint
  generalize x.stack = lines
  induction lines generalizing s with
  | nil => exact ended
  | cons line rest ih => exact ih lineEnded_printing

variable (po : OutputOptions) (x : Texts)

theorem printSyscallResume_reprint : ((s.printSyscallResume po x i).tcbs i).reprint = false := by
  unfold printSyscallResume
  split
  · have printed : (s.setReprint i false).Speaks i ((((s.setReprint i false).printleader po x
        i).tprintsString "<... ").tprintsString x.sysName |>.tprintsString " resumed>") :=
      (printleader_speaks po x _ i).trans <| (tprintsString_speaks _ i _).trans <|
        (tprintsString_speaks _ i _).trans (tprintsString_speaks _ i _)
    exact printed.unset (by rw [setReprint, setTcb_tcbs_self])
  · next cond => exact Bool.eq_false_iff.mpr (not_or.mp cond).2

end

end Strace.Output

namespace Strace.Resumption
open List Output Runs
open Notices (Valid Steady)
open Ownership (Mode closeStaged_complete openStaged_complete tprintsString_printing)

/-! ## Texts that cut off a line -/

def PidNote (p : Piece) : Prop :=
  ∃ pid : Nat, p.text = " <pid changed to " ++ toString pid ++ " ...>\n"

def CutsOff (line : Nat) (p : Piece) : Prop :=
  p.line ≠ line ∧ ¬ PidNote p ∨ p.line = line ∧ PidNote p

def CutOff (line : Nat) (s u : Output) : Prop :=
  ∃ added, u.logs 0 = s.logs 0 ++ added ∧ ∃ p ∈ added, CutsOff line p

section
variable {s u v : Output} {line j : Nat} {p : Piece}

theorem not_pidNote (short : p.text.length < 10) : ¬ PidNote p := by
  rintro ⟨pid, text⟩
  have long : (" <pid changed to " ++ toString pid ++ " ...>\n").length =
      17 + (toString pid).length + 6 := by
    rw [String.length_append, String.length_append]
    rfl
  rw [text] at short
  omega

theorem not_cutOff (same : u.logs 0 = s.logs 0) : ¬ CutOff line s u := by
  rintro ⟨added, log, p, mem, -⟩
  rw [same] at log
  rw [self_eq_append_right.mp log] at mem
  cases mem

theorem CutOff.grows (cut : CutOff line s u) (grows : u.logs 0 <+: v.logs 0) :
    CutOff line s v := by
  obtain ⟨added, eq, p, mem, cuts⟩ := cut
  obtain ⟨more, eq'⟩ := grows
  refine ⟨added ++ more, ?_, p, mem_append_left _ mem, cuts⟩
  rw [← eq', eq, append_assoc]

theorem CutOff.before (cut : CutOff line u v) (grows : s.logs 0 <+: u.logs 0) :
    CutOff line s v := by
  obtain ⟨added, eq, p, mem, cuts⟩ := cut
  obtain ⟨more, eq'⟩ := grows
  refine ⟨more ++ added, ?_, p, mem_append_right _ mem, cuts⟩
  rw [eq, ← eq', append_assoc]

theorem CutOff.prefix_ (cut : CutOff line s u) : s.logs 0 <+: u.logs 0 := by
  obtain ⟨added, eq, -⟩ := cut
  exact ⟨added, eq.symm⟩

theorem cutOff_append (grows : s.logs 0 <+: u.logs 0) (log : v.logs 0 = u.logs 0 ++ [p]) :
    CutOff line s v ↔ CutOff line s u ∨ CutsOff line p := by
  constructor
  · rintro ⟨added, eq, q, mem, cuts⟩
    obtain ⟨before, eq'⟩ := grows
    rw [log, ← eq', append_assoc] at eq
    obtain rfl := append_cancel_left eq
    rcases mem_append.mp mem with old | new
    · exact .inl ⟨before, eq'.symm, q, old, cuts⟩
    · exact .inr (mem_singleton.mp new ▸ cuts)
  · rintro (cut | cuts)
    · exact cut.grows ⟨[p], log.symm⟩
    · exact CutOff.before ⟨[p], log, p, mem_singleton_self p, cuts⟩ grows

structure Elsewhere (line j : Nat) (s : Output) : Prop where
  current : s.currentTcp = some j
  outf : (s.tcbs j).outf = some (.log 0)
  line : (s.tcbs j).line ≠ line

theorem Elsewhere.tprintsString (away : Elsewhere line j s) (text : String) :
    Elsewhere line j (s.tprintsString text) := by
  rw [tprintsString_current away.current]
  refine ⟨away.current, ?_, ?_⟩
  · simp [say_tcbs_self, away.outf]
  · simp [say_tcbs_self, away.line]

theorem Elsewhere.cutOff (away : Elsewhere line j s) (text : String) (short : text.length < 10) :
    CutOff line s (s.tprintsString text) := by
  rw [tprintsString_current away.current]
  refine ⟨[s.piece j text], ?_, _, mem_singleton_self _, .inl ⟨away.line, ?_⟩⟩
  · rw [say_logs, if_pos away.outf]
  · exact not_pidNote short

variable {po : OutputOptions} {x : Texts}

theorem printleader_elsewhere (mode : Mode po) (outf : (s.tcbs j).outf = some (.log 0))
    (begun : line < s.nextLine) : Elsewhere line j (s.printleader po x j) ∧
      (s.printleader po x j).printingTcp = some j := by
  unfold Output.printleader
  rw [mode.together]
  have nextLine : (s.interruptPrinting po j).nextLine = s.nextLine :=
    Notices.interruptPrinting_nextLine
  have steady := Steady.of_prints (interruptPrinting_writes po s j).prints j
  refine ⟨Elsewhere.tprintsString ⟨rfl, ?_, ?_⟩ _, tprintsString_printing _ _⟩
  · simpa [startLine] using steady.outf.trans outf
  · grind [setTcb_tcbs_self, startLine]

end

/-! ## The line of an entry -/

structure Apart (i line : Nat) (s : Output) : Prop where
  positive : line ≠ 0
  begun : line < s.nextLine
  others : ∀ j, j ≠ i → (s.tcbs j).line ≠ line

structure Watched (i line : Nat) (s₀ s : Output) : Prop where
  apart : Apart i line s
  grows : s₀.logs 0 <+: s.logs 0
  cut : CutOff line s₀ s ↔ s.printingTcp ≠ some i ∨ (s.tcbs i).reprint = true
  inside : ¬ CutOff line s₀ s → (s.tcbs i).curcol ≠ 0 ∧ (s.tcbs i).line = line

structure Logged (j : Nat) (s : Output) : Prop where
  outf : (s.tcbs j).outf = some (.log 0)
  unstaged : (s.tcbs j).stagedOutput = none

section
variable {po : OutputOptions} {x : Texts} {s u : Output} {line i j : Nat}

section
variable (apart : Apart i line s)
include apart

theorem Apart.setTcb {t : TcbOut} (away : j ≠ i → t.line ≠ line) :
    Apart i line (s.setTcb j t) := by
  refine ⟨apart.positive, apart.begun, fun k other => ?_⟩
  by_cases eq : k = j
  · rw [eq, setTcb_tcbs_self]
    exact away (eq ▸ other)
  · rw [setTcb_tcbs_other _ _ eq]
    exact apart.others k other

theorem Apart.grow (tcbs : u.tcbs = s.tcbs)
    (next : s.nextLine ≤ u.nextLine) : Apart i line u :=
  ⟨apart.positive, Nat.lt_of_lt_of_le apart.begun next, tcbs ▸ apart.others⟩

theorem Apart.prints (prints : s.Prints u) : Apart i line u := by
  induction prints with
  | refl => exact apart
  | trans _ _ first second => exact second (first apart)
  | fprintf s j text =>
    have written : Apart i line (s.write [s.piece j text] (s.tcbs j).outf) :=
      apart.grow rfl (Nat.le_refl _)
    exact written.setTcb (apart.others j)
  | curcol s j | reprint s j => exact apart.setTcb (apart.others j)
  | current | printing => exact apart.grow rfl (Nat.le_refl _)
  | start s j =>
    refine Apart.setTcb ?_ fun _ => ?_
    · exact apart.grow rfl (Nat.le_succ _)
    · exact (Nat.ne_of_lt apart.begun).symm

theorem Apart.emits (emits : s.Emits u) : Apart i line u := by
  induction emits with
  | trans _ _ first second => exact second (first apart)
  | prints prints => exact apart.prints prints
  | stage s j =>
    refine Apart.setTcb ?_ ?_
    · exact apart.grow rfl (Nat.le_refl _)
    · exact apart.others j
  | unstage s j => exact apart.setTcb (apart.others j)
  | publish s j data =>
    have unstaged : Apart i line (s.unstage j data) := apart.setTcb (apart.others j)
    exact unstaged.grow rfl (Nat.le_refl _)
  | swap s j k =>
    refine Apart.setTcb (Apart.setTcb apart ?_) ?_
    · exact apart.others k
    · exact apart.others j
  | drop s j =>
    refine Apart.setTcb ?_ fun _ => ?_
    · exact apart.grow rfl (Nat.le_refl _)
    · exact apart.positive.symm
  | finish s j failed =>
    refine Apart.setTcb ?_ ?_
    · exact apart.grow rfl (Nat.le_refl _)
    · exact apart.others j

end

theorem Logged.prints (logged : Logged j s) (prints : s.Prints u) : Logged j u := by
  have steady := Steady.of_prints prints j
  exact ⟨steady.outf.trans logged.outf, steady.stagedOutput.trans logged.unstaged⟩

theorem Logged.speaks (logged : Logged j s) (speaks : s.Speaks i u) : Logged j u :=
  logged.prints speaks.prints

theorem Logged.finishCall {k : Nat} (logged : Logged k s) (failed : Bool) :
    Logged k (s.finishCall i failed) := by
  unfold Output.finishCall
  by_cases eq : k = i
  · rw [eq] at logged ⊢
    constructor <;> rw [setTcb_tcbs_self]
    · exact logged.outf
    · exact logged.unstaged
  · constructor <;> rw [setTcb_tcbs_other _ _ eq]
    · exact logged.outf
    · exact logged.unstaged

theorem Logged.fprintf_logs (logged : Logged j s) (text : String) :
    (s.fprintf j text).logs 0 = s.logs 0 ++ [s.piece j text] := if_pos logged.outf

theorem printNotice_cutOff (mode : Mode po) (outf : (s.tcbs j).outf = some (.log 0))
    (begun : line < s.nextLine) (text : String) :
    CutOff line s (s.printNotice po x j text) ∧ (s.printNotice po x j text).printingTcp = none := by
  obtain ⟨away, -⟩ := printleader_elsewhere mode outf begun
  have ended := (away.tprintsString text).cutOff "\n" (by decide)
  have begins := (printleader_speaks po x s j).trans (tprintsString_speaks _ j text)
  refine ⟨(ended.before (begins.emits.grows 0)).grows ?_, lineEnded_printing⟩
  exact (lineEnded_speaks _ j).emits.grows 0

theorem syscallEnteringFailed_cutOff (mode : Mode po) (outf : (s.tcbs j).outf = some (.log 0))
    (begun : line < s.nextLine) : CutOff line s (s.syscallEnteringFailed po x j) ∧
      (s.syscallEnteringFailed po x j).printingTcp = some j := by
  obtain ⟨away, printing⟩ := printleader_elsewhere mode outf begun
  have named := (away.tprintsString x.sysName).cutOff "(" (by decide)
  have begins := (printleader_speaks po x s j).trans (tprintsString_speaks _ j x.sysName)
  refine ⟨named.before (begins.emits.grows 0), ?_⟩
  unfold Output.syscallEnteringFailed
  rw [tprintsString_printing, tprintsString_printing, printing]

theorem printSyscallResume_cutOff (mode : Mode po) (logged : Logged j s)
    (begun : line < s.nextLine) (last : s.printingTcp ≠ some j) :
    CutOff line s (s.printSyscallResume po x j) := by
  have outf : ((s.setReprint j false).tcbs j).outf = some (.log 0) := by
    simp [setReprint, logged.outf]
  have away := (printleader_elsewhere (x := x) mode outf begun).1
  have cut := (away.cutOff "<... " (by decide)).before
    ((printleader_speaks po x _ j).emits.grows 0)
  have resumes := (tprintsString_speaks (((s.setReprint j false).printleader po x j).tprintsString
    "<... ") j x.sysName).trans (tprintsString_speaks _ j " resumed>")
  unfold Output.printSyscallResume
  rw [if_pos (.inl ⟨mode.together, last, logged.unstaged⟩)]
  exact cut.grows (resumes.emits.grows 0)

theorem interruptOther_same (po : OutputOptions) (s : Output) (j : Nat) :
    (s.interruptOther po j).printingTcp = s.printingTcp ∧
    (s.interruptOther po j).nextLine = s.nextLine := by
  unfold Output.interruptOther
  split
  · exact ⟨rfl, rfl⟩
  · split
    · exact ⟨rfl, rfl⟩
    · exact ⟨rfl, rfl⟩

end

/-! ## What another tcb prints -/

section
variable {po : OutputOptions} {o : Options} {a : Answers} {x : Texts} {s₀ s u : Output}
  {line i j : Nat} (watched : Watched i line s₀ s)

include watched

theorem Watched.cutOff (emits : s.Emits u) (cut : CutOff line s₀ u)
    (resumes : u.printingTcp ≠ some i ∨ (u.tcbs i).reprint = true) : Watched i line s₀ u :=
  ⟨watched.apart.emits emits, cut.prefix_, iff_of_true cut resumes, fun not => absurd cut not⟩

theorem Watched.broken (emits : s.Emits u) (cut : CutOff line s u)
    (away : u.printingTcp ≠ some i) : Watched i line s₀ u :=
  watched.cutOff emits (cut.before watched.grows) (.inl away)

theorem Watched.same (apart : Apart i line u) (grows : s₀.logs 0 <+: u.logs 0)
    (cut : CutOff line s₀ u ↔ CutOff line s₀ s)
    (printing : u.printingTcp ≠ some i ↔ s.printingTcp ≠ some i) (tcb : u.tcbs i = s.tcbs i) :
    Watched i line s₀ u := by
  refine ⟨apart, grows, ?_, ?_⟩
  · simp [cut, printing, tcb, watched.cut]
  · rw [cut, tcb]
    exact watched.inside

theorem Watched.kept (emits : s.Emits u) (log : u.logs 0 = s.logs 0)
    (printing : u.printingTcp = s.printingTcp) (tcb : u.tcbs i = s.tcbs i) :
    Watched i line s₀ u := by
  refine watched.same (watched.apart.emits emits) ?_ ?_ (by rw [printing]) tcb
  · simp [log, watched.grows]
  · simp [log, CutOff]

theorem Watched.speaks (cut : CutOff line s₀ s) (other : j ≠ i) (speaks : s.Speaks j u) :
    Watched i line s₀ u := by
  refine watched.cutOff speaks.emits (cut.grows (speaks.emits.grows 0)) ?_
  rcases watched.cut.mp cut with away | reprint
  · rcases speaks.printingTcp with same | ended | own
    · simp [same, away]
    · simp [ended]
    · grind
  · right
    rcases speaks.reprint i with same | ⟨eq, -⟩
    · exact same.trans reprint
    · exact absurd eq.symm other

variable (other : j ≠ i)
include other

theorem Watched.after (last : s.printingTcp = some j) (speaks : s.Speaks j u) :
    Watched i line s₀ u := by
  refine watched.speaks (watched.cut.mpr (.inl ?_)) other speaks
  rw [last]
  exact mt Option.some.inj other

theorem Watched.finishCall (failed : Bool) : Watched i line s₀ (s.finishCall j failed) := by
  refine watched.kept (.finish s j failed) rfl rfl ?_
  unfold Output.finishCall
  rw [setTcb_tcbs_other _ _ other.symm]

theorem Watched.forget : Watched i line s₀ (s.forget j) := by
  have printing :
    (s.forget j).printingTcp = if s.printingTcp = some j then none else s.printingTcp :=
    rfl
  refine watched.same (watched.apart.emits (.drop s j)) watched.grows .rfl ?_
    (setTcb_tcbs_other _ _ other.symm)
  rw [printing]
  split
  · grind
  · rfl

omit other
variable (mode : Mode po) (logged : Logged j s)
include mode logged

theorem Watched.printNotice (text : String) : Watched i line s₀ (s.printNotice po x j text) := by
  obtain ⟨cut, ended⟩ := printNotice_cutOff mode logged.outf watched.apart.begun text
  refine watched.broken (printNotice_speaks po x s j text).emits cut ?_
  exact nofun

theorem Watched.notePersonality (t : Tcb) : Watched i line s₀ (s.notePersonality po a x t j) := by
  unfold Output.notePersonality
  split
  · split
    · exact watched.printNotice mode logged _
    · exact watched
  · exact watched

theorem Watched.printSignalled (status : UInt32) :
    Watched i line s₀ (s.printSignalled po x j status) := by
  unfold Output.printSignalled
  split
  · exact watched.printNotice mode logged _
  · exact watched

theorem Watched.printExited (status : UInt32) :
    Watched i line s₀ (s.printExited po x j status) := by
  unfold Output.printExited
  split
  · exact watched.printNotice mode logged _
  · exact watched

theorem Watched.printStopped (t : Tcb) (sig : Nat) (text : String) :
    Watched i line s₀ (s.printStopped po x t j sig text) := by
  have speaks := printStopped_speaks po x s j t sig text
  unfold Output.printStopped at speaks ⊢
  split at speaks
  · next shown =>
    rw [if_pos shown]
    obtain ⟨cut, ended⟩ := printNotice_cutOff mode logged.outf watched.apart.begun text
    refine watched.broken speaks.emits (cut.grows ((unwindTcbPrint_speaks x _ j).emits.grows 0)) ?_
    rw [unwindTcbPrint_printing x ended]
    exact nofun
  · grind

/-! ## Syscalls of other tcbs -/

include other

theorem Watched.syscallEnteringFailed : Watched i line s₀ (s.syscallEnteringFailed po x j) := by
  obtain ⟨cut, printing⟩ :=
    syscallEnteringFailed_cutOff mode logged.outf watched.apart.begun
  refine watched.broken (syscallEnteringFailed_speaks po x s j).emits cut ?_
  exact mt Option.some.inj other

theorem Watched.syscallEnteringTrace (filtered : Bool) :
    Watched i line s₀ (s.syscallEnteringTrace po x filtered j) := by
  unfold Output.syscallEnteringTrace
  split
  · exact watched
  · rw [openStaged_complete mode]
    have printing := (syscallEnteringFailed_cutOff (x := x) mode logged.outf watched.apart.begun).2
    exact (watched.syscallEnteringFailed other mode logged).after other printing
      (tprintsString_speaks _ j x.args)

theorem Watched.resume (ends : s.Speaks j u) (printing : u.printingTcp = s.printingTcp)
    (nextLine : u.nextLine = s.nextLine) :
    Watched i line s₀ (u.printSyscallResume po x j) ∧
      CutOff line s₀ (u.printSyscallResume po x j) := by
  have resumes := printSyscallResume_speaks po x u j
  have away := mt Option.some.inj other
  suffices resumed : Watched i line s₀ (u.printSyscallResume po x j) from
    ⟨resumed, resumed.cut.mpr (.inl away)⟩
  by_cases last : s.printingTcp = some j
  · exact watched.after other last (ends.trans resumes)
  · have cut := printSyscallResume_cutOff (x := x) mode (logged.speaks ends)
      (nextLine ▸ watched.apart.begun) (printing ▸ last)
    exact watched.broken (ends.trans resumes).emits (cut.before (ends.emits.grows 0)) away

theorem Watched.syscallExitingTrace (res : Int) (t : Tcb) :
    Watched i line s₀ (s.syscallExitingTrace po x res t j) := by
  unfold Output.syscallExitingTrace
  split
  · exact watched
  · obtain ⟨resumed, cut⟩ := watched.resume other mode logged (.refl s) rfl rfl
    dsimp only
    rw [closeStaged_complete mode, closeStaged_complete mode]
    split
    · exact resumed.speaks cut other ((printResult_speaks po _ j _).trans (lineEnded_speaks _ j))
    · rw [mode.complete]
      have returned := (tprintsString_speaks (s.printSyscallResume po x j) j x.exitArgs).trans
        (printReturned_speaks po x _ j)
      exact (resumed.speaks cut other returned).finishCall other _

theorem Watched.traceSyscall (r : Stop) : Watched i line s₀ (s.traceSyscall po o a x r j) := by
  have noted := watched.notePersonality (a := a) (x := x) mode logged r.tcb
  have logged' := logged.speaks (notePersonality_speaks po a x s j r.tcb)
  unfold Output.traceSyscall
  split
  · dsimp only
    split
    · exact noted
    · split
      · exact noted.syscallEnteringTrace other mode logged' _
      · exact noted.syscallEnteringFailed other mode logged'
  · split
    · exact watched
    · exact noted.syscallExitingTrace other mode logged' _ _

theorem Watched.printEventExit (t : Tcb) : Watched i line s₀ (s.printEventExit po x t j) := by
  unfold Output.printEventExit
  split
  · exact watched
  · obtain ⟨printing, nextLine⟩ := interruptOther_same po s j
    obtain ⟨resumed, cut⟩ := watched.resume other mode logged (interruptOther_speaks po s j)
      printing nextLine
    dsimp only
    rw [closeStaged_complete mode]
    refine resumed.speaks cut other (.trans ?_ (lineEnded_speaks _ j))
    refine .trans ?_ (printResult_speaks po _ j _)
    split
    · exact (tprintsString_speaks _ j _).trans (tprintsString_speaks _ j _)
    · exact .refl _

/-! ## Restarting and dropping other tcbs -/

theorem Watched.droptcb : Watched i line s₀ (s.droptcb po j) := by
  unfold Output.droptcb
  rw [Ownership.closeOutput_complete mode logged.outf]
  split
  · next last => exact (watched.after other last.1 (.fprintf s j _)).forget other
  · exact watched.forget other

omit mode

theorem Watched.fprintf (text : String) (still : ¬ CutsOff line (s.piece j text)) :
    Watched i line s₀ (s.fprintf j text) := by
  have speaks : s.Speaks j (s.fprintf j text) := .fprintf s j text
  refine watched.same (watched.apart.emits speaks.emits)
    (watched.grows.trans (speaks.emits.grows 0)) ?_ .rfl (setTcb_tcbs_other _ _ other.symm)
  rw [cutOff_append watched.grows (logged.fprintf_logs text)]
  exact or_iff_left still

variable (current : s.currentTcp = some j)
include current

theorem Watched.ptraceRestartError : Watched i line s₀ (s.ptraceRestartError x) := by
  have speaks := ptraceRestartError_speaks x s j
  have away : Elsewhere line j s := ⟨current, logged.outf, watched.apart.others j other⟩
  have ended := ((away.tprintsString " ").tprintsString x.restartError).cutOff "\n"
    (by decide)
  have begins := (tprintsString_speaks s j " ").trans (tprintsString_speaks _ j x.restartError)
  unfold Output.ptraceRestartError at speaks ⊢
  rw [current] at speaks ⊢
  dsimp only at speaks ⊢
  split at speaks
  · next moved =>
    rw [if_pos moved]
    refine watched.broken speaks.emits ((ended.before (begins.emits.grows 0)).grows ?_) ?_
    · exact (lineEnded_speaks _ j).emits.grows 0
    · simp [lineEnded_printing]
  · grind

theorem Watched.restartCurrent (tracer : Tracer) :
    Watched i line s₀ (s.restartCurrent a x tracer j) := by
  unfold Output.restartCurrent
  split
  · exact watched
  · split
    · exact watched.ptraceRestartError other logged current
    · exact watched

include mode

theorem Watched.detachOrRestart (tracer : Tracer) :
    Watched i line s₀ (s.detachOrRestart po o a x tracer j) := by
  unfold Output.detachOrRestart
  split
  · unfold Output.detach
    split
    · exact (watched.ptraceRestartError other logged current).droptcb other mode
        (logged.speaks (ptraceRestartError_speaks x s j))
    · exact watched.droptcb other mode logged
  · exact watched.restartCurrent other logged current tracer

end

/-! ## A thread that takes the place of its leader -/

section
variable {po : OutputOptions} {x : Texts} {s₀ s : Output} {line i j k : Nat}

theorem Watched.pidChanged (watched : Watched i line s₀ s) (other : j ≠ i) (logged : Logged j s)
    (pid : Nat) : Watched i line s₀ (s.pidChanged j pid) := by
  unfold Output.pidChanged
  split
  · refine watched.fprintf other logged _ ?_
    rintro (⟨-, noted⟩ | ⟨own, -⟩)
    · exact noted ⟨pid, rfl⟩
    · exact watched.apart.others j other own
  · exact watched

theorem Watched.pidChanged_self (watched : Watched i line s₀ s) (logged : Logged i s) (pid : Nat) :
    CutOff line s₀ (s.pidChanged i pid) := by
  unfold Output.pidChanged
  split
  · rw [cutOff_append watched.grows (logged.fprintf_logs _)]
    by_cases cut : CutOff line s₀ s
    · exact .inl cut
    · exact .inr (.inr ⟨(watched.inside cut).2, pid, rfl⟩)
  · next ended =>
    by_contra open_
    exact ended (watched.inside open_).1

theorem droptcb_tcbs (mode : Mode po) (logged : Logged i s) (k : Nat) :
    (s.droptcb po i).tcbs k = if k = i then {} else s.tcbs k := by
  unfold Output.droptcb
  rw [Ownership.closeOutput_complete mode logged.outf]
  by_cases eq : k = i
  · rw [if_pos eq, eq]
    exact setTcb_tcbs_self ..
  · refine (setTcb_tcbs_other _ _ eq).trans ?_
    split
    · exact setTcb_tcbs_other _ _ eq
    · rfl

theorem Logged.droptcb (logged : Logged j s) (mode : Mode po) (leader : Logged i s)
    (different : j ≠ i) : Logged j (s.droptcb po i) := by
  have tcb := droptcb_tcbs mode leader j
  rw [if_neg different] at tcb
  exact ⟨tcb ▸ logged.outf, tcb ▸ logged.unstaged⟩

theorem swapOutput_logged (leader : Logged i s) (thread : Logged j s)
    (logged : Logged k s) : Logged k (s.swapOutput i j) := by
  unfold Output.swapOutput
  by_cases eq : k = i
  · constructor <;> rw [eq, setTcb_tcbs_self]
    · exact thread.outf
    · exact thread.unstaged
  · by_cases eq' : k = j
    · constructor <;> rw [setTcb_tcbs_other _ _ eq, eq', setTcb_tcbs_self]
      · exact leader.outf
      · exact leader.unstaged
    · constructor <;> rw [setTcb_tcbs_other _ _ eq, setTcb_tcbs_other _ _ eq']
      · exact logged.outf
      · exact logged.unstaged

theorem swapOutput_reprint (k : Nat) :
    ((s.swapOutput i j).tcbs k).reprint = (s.tcbs k).reprint := by
  unfold Output.swapOutput
  by_cases eq : k = i
  · rw [eq, setTcb_tcbs_self]
  · rw [setTcb_tcbs_other _ _ eq]
    exact setTcb_reprint (by rfl) k

theorem Watched.maybeSwitchTcbs (watched : Watched i line s₀ s) (mode : Mode po)
    (leader : Logged k s) (thread : Logged j s) (different : j ≠ k) (others : k ≠ i ∧ j ≠ i)
    (pid oldPid : Nat) : Watched i line s₀ (s.maybeSwitchTcbs po x k j pid oldPid) := by
  have changed := watched.pidChanged others.2 thread pid
  have noted := pidChanged_prints s j pid
  have leader := leader.prints noted
  have thread := thread.prints noted
  have swapped : Watched i line s₀ ((s.pidChanged j pid).swapOutput k j) := by
    refine changed.kept (.swap _ k j) rfl rfl ?_
    unfold Output.swapOutput
    rw [setTcb_tcbs_other _ _ others.1.symm, setTcb_tcbs_other _ _ others.2.symm]
  have former := swapOutput_logged leader thread leader
  have dropped := swapped.droptcb others.1 mode former
  have logged := (swapOutput_logged leader thread thread).droptcb mode former different
  unfold Output.maybeSwitchTcbs
  dsimp only
  split
  · exact dropped
  · rw [openStaged_complete mode]
    refine Watched.kept ?_ (.prints (.reprint _ j true)) rfl rfl
      (setTcb_tcbs_other _ _ others.2.symm)
    split
    · exact dropped
    · exact dropped.printNotice mode logged _

theorem Watched.maybeSwitchTcbs_self (watched : Watched i line s₀ s) (logged : Logged i s)
    (shown : po.onlyStats = false) (pid oldPid : Nat) :
    Watched i line s₀ (s.maybeSwitchTcbs po x k i pid oldPid) := by
  have cut := watched.pidChanged_self logged pid
  have noted := Emits.prints (pidChanged_prints s i pid)
  have switched := switchedTcbs_emits po x s k i pid oldPid
  refine watched.cutOff (noted.trans switched) (cut.grows (switched.grows 0)) (.inr ?_)
  unfold Output.maybeSwitchTcbs
  rw [shown, if_neg Bool.false_ne_true, setReprint, setTcb_tcbs_self]

end

end Strace.Resumption
