import Strace.Runs
import Strace.Output.Emits
import Strace.Output.System

/-! What a status filter does to the line that tells of the end of a tracee. -/
namespace Strace.Notices
open List Output Runs

structure Valid (s : Output) : Prop where
  staged : ∀ i data, (s.tcbs i).stagedOutput = some data → (s.tcbs i).outf = some (.mem data.mem)
  line : ∀ i, (s.tcbs i).line < s.nextLine
  logs : ∀ l, ∀ p ∈ s.logs l, p.line < s.nextLine
  mems : ∀ k, ∀ p ∈ s.mems k, p.line < s.nextLine

/-- What printing leaves alone in a tcb. -/
structure Steady (t t' : TcbOut) : Prop where
  outf : t'.outf = t.outf
  stagedOutput : t'.stagedOutput = t.stagedOutput
  log : t'.log = t.log
  tracee : t'.tracee = t.tracee
  call : t'.call = t.call

section
variable {po : OutputOptions} {a : Answers} {x : Texts} {s u : Output} {i j : Nat} {t : TcbOut}

section
variable (valid : Valid s)
include valid

theorem Valid.setTcb
    (staged : ∀ data, t.stagedOutput = some data → t.outf = some (.mem data.mem))
    (line : t.line < s.nextLine) : Valid (s.setTcb i t) := by
  refine ⟨?_, ?_, valid.logs, valid.mems⟩ <;> intro j <;> by_cases eq : j = i
  · rw [eq, setTcb_tcbs_self]
    exact staged
  · rw [setTcb_tcbs_other s t eq]
    exact valid.staged j
  · rw [eq, setTcb_tcbs_self]
    exact line
  · rw [setTcb_tcbs_other s t eq]
    exact valid.line j

theorem Valid.write {ps : List Piece} (lines : ∀ p ∈ ps, p.line < s.nextLine)
    (stream : Option Stream) : Valid (s.write ps stream) := by
  have added {before : List Piece} (valid : ∀ p ∈ before, p.line < s.nextLine) :
      ∀ p ∈ before ++ ps, p.line < s.nextLine := by
    intro p mem
    rcases mem_append.mp mem with mem | mem
    · exact valid p mem
    · exact lines p mem
  refine ⟨valid.staged, valid.line, ?_, ?_⟩
  · intro l
    dsimp only [Output.write]
    split
    · exact added (valid.logs l)
    · exact valid.logs l
  · intro k
    dsimp only [Output.write]
    split
    · exact added (valid.mems k)
    · exact valid.mems k

theorem Valid.grow (u : Output) (tcbs : u.tcbs = s.tcbs) (logs : u.logs = s.logs)
    (mems : u.mems = s.mems) (next : s.nextLine ≤ u.nextLine) : Valid u := by
  refine ⟨tcbs ▸ valid.staged, fun j => ?_, fun l p mem => ?_, fun k p mem => ?_⟩
  · exact Nat.lt_of_lt_of_le (tcbs ▸ valid.line j) next
  · exact Nat.lt_of_lt_of_le (valid.logs l p (logs ▸ mem)) next
  · exact Nat.lt_of_lt_of_le (valid.mems k p (mems ▸ mem)) next

theorem Valid.prints (prints : s.Prints u) : Valid u := by
  induction prints with
  | refl => exact valid
  | trans _ _ first second => exact second (first valid)
  | fprintf s i text =>
    refine Valid.setTcb (valid.write ?_ _) (valid.staged i) (valid.line i)
    intro p mem
    rw [mem_singleton.mp mem]
    exact valid.line i
  | curcol s i | reprint s i => exact valid.setTcb (valid.staged i) (valid.line i)
  | current | printing => exact ⟨valid.staged, valid.line, valid.logs, valid.mems⟩
  | start s i =>
    refine Valid.setTcb ?_ (valid.staged i) (Nat.lt_succ_self _)
    exact valid.grow _ rfl rfl rfl (Nat.le_succ _)

theorem Valid.emits (emits : s.Emits u) : Valid u := by
  induction emits with
  | trans _ _ first second => exact second (first valid)
  | prints prints => exact valid.prints prints
  | stage s i =>
    refine Valid.setTcb ?_ ?_ (valid.line i)
    · refine ⟨valid.staged, valid.line, valid.logs, ?_⟩
      intro k p mem
      dsimp only at mem
      split at mem
      · cases mem
      · exact valid.mems k p mem
    · rintro _ ⟨⟩
      rfl
  | unstage s i data => exact valid.setTcb nofun (valid.line i)
  | publish s i data =>
    have unstaged : Valid (s.unstage i data) := valid.setTcb nofun (valid.line i)
    exact unstaged.write (valid.mems data.mem) _
  | swap s i j =>
    refine Valid.setTcb (Valid.setTcb valid ?_ ?_) ?_ ?_
    · exact valid.staged i
    · exact valid.line j
    · exact valid.staged j
    · exact valid.line i
  | drop s i =>
    refine Valid.setTcb ?_ nofun (Nat.lt_of_le_of_lt (Nat.zero_le _) (valid.line i))
    exact valid.grow _ rfl rfl rfl (Nat.le_refl _)
  | finish s i failed =>
    refine Valid.setTcb ?_ (valid.staged i) (valid.line i)
    exact valid.grow _ rfl rfl rfl (Nat.le_refl _)

end

theorem Steady.refl (t : TcbOut) : Steady t t := ⟨rfl, rfl, rfl, rfl, rfl⟩

theorem steady_setTcb (steady : Steady (s.tcbs i) t) (j : Nat) :
    Steady (s.tcbs j) ((s.setTcb i t).tcbs j) := by
  by_cases eq : j = i
  · simp [eq, steady]
  · rw [setTcb_tcbs_other s t eq]
    exact .refl _

theorem Steady.of_prints (prints : s.Prints u) (j : Nat) : Steady (s.tcbs j) (u.tcbs j) := by
  induction prints with
  | refl | current | printing => exact .refl _
  | trans _ _ first second =>
    exact ⟨second.outf.trans first.outf, second.stagedOutput.trans first.stagedOutput,
      second.log.trans first.log, second.tracee.trans first.tracee, second.call.trans first.call⟩
  | fprintf s i text =>
    refine steady_setTcb ?_ j
    exact ⟨rfl, rfl, rfl, rfl, rfl⟩
  | curcol s i | reprint s i =>
    refine steady_setTcb ?_ j
    exact ⟨rfl, rfl, rfl, rfl, rfl⟩
  | start s i =>
    refine steady_setTcb ?_ j
    exact ⟨rfl, rfl, rfl, rfl, rfl⟩

/-! ## The texts of a notice -/

/-- What has been written to a stream. -/
def contents (s : Output) : Stream → List Piece
  | .log l => s.logs l
  | .mem k => s.mems k

theorem write_contents (s : Output) (ps : List Piece) (dest : Option Stream) (stream : Stream) :
    contents (s.write ps dest) stream =
      contents s stream ++ if dest = some stream then ps else [] := by
  cases stream with
  | log l =>
    grind [contents, Output.write]
  | mem k =>
    grind [contents, Output.write]

theorem say_contents (s : Output) (i : Nat) (text : String) (stream : Stream) :
    contents (s.say i text) stream =
      contents s stream ++ if (s.tcbs i).outf = some stream then [s.piece i text] else [] := by
  rw [← write_contents]
  cases stream <;> rfl

theorem lineEnded_contents (s : Output) (stream : Stream) :
    contents s.lineEnded stream = contents s stream := by
  have current : s.endCurrent.logs = s.logs ∧ s.endCurrent.mems = s.mems := by
    unfold endCurrent
    split <;> exact ⟨rfl, rfl⟩
  have printing (u : Output) : u.endPrinting.logs = u.logs ∧ u.endPrinting.mems = u.mems := by
    unfold endPrinting
    split <;> exact ⟨rfl, rfl⟩
  cases stream with
  | log l => exact congrFun ((printing _).1.trans current.1) l
  | mem k => exact congrFun ((printing _).2.trans current.2) k

theorem lineEnded_curcol (current : s.currentTcp = some i) :
    (s.lineEnded.tcbs i).curcol = 0 := by
  have ended : (s.endCurrent.tcbs i).curcol = 0 := by
    simp [current, setCurcol, endCurrent]
  unfold lineEnded endPrinting
  split
  · exact ended
  · next p printing =>
    change ((s.endCurrent.setCurcol p 0).tcbs i).curcol = 0
    unfold setCurcol
    by_cases eq : i = p
    · rw [eq, setTcb_tcbs_self]
    · simp [setTcb_tcbs_other _ _ eq, ended]

theorem interruptPrinting_nextLine : (s.interruptPrinting po i).nextLine = s.nextLine := by
  unfold interruptPrinting
  split
  · rfl
  · split
    · rfl
    · rfl

def notice (x : Texts) (s : Output) (i : Nat) (text : String) : List Piece :=
  [x.leader s.nextLine, text, "\n"].map fun text =>
    ⟨(s.tcbs i).tracee, s.nextLine, (s.tcbs i).call, text⟩

theorem printNotice_contents (po : OutputOptions) (x : Texts) (s : Output) (i : Nat)
    (text : String) : ∃ v, s.Prints v ∧ v.nextLine = s.nextLine ∧
      ∀ stream, contents (s.printNotice po x i text) stream =
        contents v stream ++ if (s.tcbs i).outf = some stream then notice x s i text else [] := by
  have claimed : ∃ u, s.Prints u ∧ u.nextLine = s.nextLine ∧
      (if po.outputSeparately then s.setPrintingTcp (some i) else s) = u := by
    split
    · exact ⟨_, .printing s (some i), rfl, rfl⟩
    · exact ⟨s, .refl s, rfl, rfl⟩
  obtain ⟨u, claimed, sameLine, eq⟩ := claimed
  have prints := claimed.trans (interruptPrinting_writes po u i).prints
  have nextLine : (u.interruptPrinting po i).nextLine = s.nextLine :=
    interruptPrinting_nextLine.trans sameLine
  refine ⟨u.interruptPrinting po i, prints, nextLine, fun stream => ?_⟩
  unfold printNotice printleader
  rw [eq]
  generalize u.interruptPrinting po i = v at prints nextLine ⊢
  have steady := (Steady.of_prints prints i)
  have outf : ((v.startLine i).tcbs i).outf = (s.tcbs i).outf := by
    unfold startLine
    rw [setTcb_tcbs_self]
    exact steady.outf
  have piece (text : String) : (v.startLine i).piece i text =
      ⟨(s.tcbs i).tracee, s.nextLine, (s.tcbs i).call, text⟩ := by
    unfold Output.piece startLine
    rw [setTcb_tcbs_self]
    rw [steady.tracee, steady.call, nextLine]
  have start : contents (v.startLine i) stream = contents v stream := by cases stream <;> rfl
  rw [tprintsString_current rfl, tprintsString_current rfl,
    tprintsString_current rfl, lineEnded_contents]
  simp only [say_contents, say_tcbs_self, say_piece, piece, outf, start, nextLine]
  split
  · simp [notice]
  · simp

/-! ## Dropping a tcb -/

def stagedFor (s : Output) (i l : Nat) : List Piece :=
  match (s.tcbs i).stagedOutput with
  | none => []
  | some data => if data.realOutf = some (.log l) then s.mems data.mem else []

theorem straceCloseMemstream_logs (publish : Bool) (l : Nat) :
    (s.straceCloseMemstream i publish).logs l =
      s.logs l ++ if publish then stagedFor s i l else [] := by
  unfold straceCloseMemstream stagedFor
  cases staged : (s.tcbs i).stagedOutput with
  | none => simp
  | some data =>
    cases publish with
    | false => simp [Output.unstage, Output.setTcb]
    | true => exact write_contents (s.unstage i data) (s.mems data.mem) data.realOutf (.log l)

theorem straceCloseMemstream_curcol (publish : Bool) :
    ((s.straceCloseMemstream i publish).tcbs i).curcol = (s.tcbs i).curcol := by
  unfold straceCloseMemstream
  cases (s.tcbs i).stagedOutput with
  | none => rfl
  | some data =>
    have unstaged : ((s.unstage i data).tcbs i).curcol = (s.tcbs i).curcol := by
      simp [Output.unstage]
    cases publish <;> exact unstaged

theorem droptcb_logs (valid : Valid s) (ended : (s.tcbs i).curcol = 0) (l : Nat) :
    (s.droptcb po i).logs l =
      s.logs l ++ if po.filtersStatus ∧ po.hasStatus .detached then stagedFor s i l else [] := by
  change (s.closeOutput po i).logs l = _
  unfold closeOutput closeStaged
  cases outf : (s.tcbs i).outf with
  | none =>
    have unstaged : (s.tcbs i).stagedOutput = none := by
      by_contra staged
      obtain ⟨data, staged⟩ := Option.ne_none_iff_exists'.mp staged
      exact absurd (outf.symm.trans (valid.staged i data staged)) (by simp)
    simp [stagedFor, unstaged]
  | some stream =>
    cases filters : po.filtersStatus with
    | false => simp [ended]
    | true =>
      simp only [↓reduceIte, Bool.not_true, Bool.false_or, straceCloseMemstream_curcol, ended,
        ne_eq, not_true_eq_false, false_and, and_false, straceCloseMemstream_logs, true_and]

end

/-! ## The end of a tracee -/

variable (po : OutputOptions)

def endOf (wd : WaitData) : Option String :=
  if po.onlyStats then none
  else
    match wd.te with
    | .signalled =>
      if isNumberInSet (wtermsig wd.status) (some po.signalSet) then some (killedText po wd.status)
      else none
    | .exited => if po.quiet quietExit then none else some (exitedText wd.status)
    | _ => none

def Unheld (t : TcbOut) : Prop :=
  t.stagedOutput = none ∧ t.outf = some (.log t.log) ∨
    ∃ data, t.stagedOutput = some data ∧ data.realOutf = some (.log t.log) ∧
      po.filtersStatus ∧ po.hasStatus .detached

section
variable {po : OutputOptions} {x : Texts} {s : Output} {i : Nat} {text : String}

theorem notice_line {p : Piece} (mem : p ∈ notice x s i text) : p.line = s.nextLine := by
  obtain ⟨text, -, rfl⟩ := mem_map.mp mem
  rfl

theorem notice_not_inside {before : List Piece} (old : ∀ p ∈ before, p ∉ notice x s i text) :
    ¬ notice x s i text <:+: before := by
  intro logged
  have mem : _ ∈ notice x s i text := mem_cons_self
  exact old _ (logged.subset mem) mem

theorem printNotice_curcol (text : String) :
    ((s.printNotice po x i text).tcbs i).curcol = 0 := by
  refine lineEnded_curcol ?_
  rfl

theorem notice_logged (valid : Valid s) (text : String) :
    notice x s i text <:+: ((s.printNotice po x i text).droptcb po i).logs (s.tcbs i).log ↔
      Unheld po (s.tcbs i) := by
  obtain ⟨v, prints, nextLine, printed⟩ := printNotice_contents po x s i text
  have noticed := (printNotice_speaks po x s i text).prints
  have old (stream : Stream) : ∀ p ∈ contents v stream, p ∉ notice x s i text := by
    intro p mem new
    have before : p.line < v.nextLine := by
      cases stream with
      | log l => exact (valid.prints prints).logs l p mem
      | mem k => exact (valid.prints prints).mems k p mem
    rw [notice_line new, nextLine] at before
    exact Nat.lt_irrefl _ before
  rw [droptcb_logs (valid.prints noticed) (printNotice_curcol text)]
  unfold stagedFor Unheld
  rw [(Steady.of_prints noticed i).stagedOutput]
  have log := printed (.log (s.tcbs i).log)
  cases staged : (s.tcbs i).stagedOutput with
  | none =>
    simp only [contents] at log
    simp only [ite_self, append_nil, log, true_and, reduceCtorEq, false_and, exists_false,
      or_false]
    split
    · next outf => exact ⟨fun _ => outf, fun _ => (suffix_append _ _).isInfix⟩
    · next outf =>
      rw [append_nil]
      exact ⟨fun logged => absurd logged (notice_not_inside (old (.log _))), fun own =>
        absurd own outf⟩
  | some data =>
    have outf := valid.staged i data staged
    have mem := printed (.mem data.mem)
    rw [outf] at log mem
    simp only [contents, reduceCtorEq, ↓reduceIte, Option.some.injEq, append_nil] at log mem
    simp only [log, reduceCtorEq, false_and, Option.some.injEq, exists_eq_left', false_or]
    split
    · next published =>
      split
      · next own =>
        rw [mem]
        refine ⟨fun _ => ⟨own, published⟩, fun _ => ?_⟩
        exact ((suffix_append _ _).trans (suffix_append _ _)).isInfix
      · next own =>
        rw [append_nil]
        exact ⟨fun logged => absurd logged (notice_not_inside (old (.log _))),
          fun held => absurd held.1 own⟩
    · next dropped =>
      rw [append_nil]
      exact ⟨fun logged => absurd logged (notice_not_inside (old (.log _))),
        fun held => absurd held.2 dropped⟩

end

theorem run_valid {po : OutputOptions} {o : Options} {ok : System → SystemEvent → Prop} {m : System}
    (run : Run System.Initial (SystemStep po o) ok m) : Valid m.out := by
  refine run.invariant (P := fun m => Valid m.out) ?_ ?_
  · intro m initial
    rw [initial.out]
    exact ⟨nofun, fun _ => Nat.zero_lt_one, nofun, nofun⟩
  · intro m event m' valid _ moved
    cases moved with
    | dispatch a x wd i live =>
      exact valid.emits (.trans (.prints (.current _ (some i)))
        (dispatchCurrent_emits po o a x _ i _ wd))
    | attach i t free pid outside =>
      refine Valid.setTcb ?_ nofun (Nat.lt_succ_self _)
      exact valid.grow _ rfl rfl rfl (Nat.le_succ _)
    | startup a x i live =>
      unfold System.startup
      split
      · exact valid.prints (notePersonality_speaks po a x _ i _).prints
      · exact valid
    | other tracer shown => exact valid

/-- In every state that is reached, the line that tells of the end of a tracee is
written to the log of its tcb exactly when nothing holds it back. -/
theorem end_logged_iff (po : OutputOptions) (o : Options) (m m' : System) (a : Answers) (x : Texts)
    (wd : WaitData) (i : Nat) (text : String)
    (run : Run System.Initial (SystemStep po o) (fun _ _ => True) m)
    (moved : SystemStep po o m (.dispatch a x wd i) m') (shown : endOf po wd = some text) :
    notice x m.out i text <:+: m'.out.logs (m.out.tcbs i).log ↔ Unheld po (m.out.tcbs i) := by
  have valid : Valid (m.out.setCurrentTcp (some i)) := (run_valid run).prints (.current _ _)
  have dispatched :
      m'.out = ((m.out.setCurrentTcp (some i)).printNotice po x i text).droptcb po i := by
    cases moved with
    | dispatch =>
      unfold endOf at shown
      split at shown
      · cases shown
      · next stats =>
        unfold System.dispatch Output.dispatchCurrent
        cases te : wd.te <;> simp only [te, reduceCtorEq] at shown
        case signalled =>
          split at shown
          · next chosen =>
            obtain rfl := Option.some.inj shown
            dsimp only
            unfold Output.printSignalled
            rw [if_pos (by simp [stats, chosen])]
          · cases shown
        case exited =>
          split at shown
          · cases shown
          · next loud =>
            obtain rfl := Option.some.inj shown
            dsimp only
            unfold Output.printExited
            rw [if_pos (by simp [stats, loud])]
  rw [dispatched]
  exact notice_logged valid text

/-! ## A status filter -/

/-- `-e status=successful,detached`. -/
def successfulOrDetached : OutputOptions := { statusSet := ⟨[0b10001], false⟩ }

/-- A tracee inside a syscall. -/
def insideCall : System :=
  (System.attach po {} 0 { pid := 7 }).dispatch po oneCall {} {} 0 { te := .syscallStop }

theorem insideCall_run :
    Run System.Initial (SystemStep po oneCall) (fun _ _ => True) (insideCall po) :=
  .next (.next (.start System.initial_default) trivial
    (.attach {} 0 { pid := 7 } rfl (by decide) rfl)) trivial
    (.dispatch _ {} {} { te := .syscallStop } 0 (by simp [System.attach]))

/-- If the filter lets detached tracees through, the death of a tracee inside a
syscall is told. -/
theorem end_logged_iff_detached :
    notice {} (insideCall successfulOrDetached).out 0 "+++ killed by SIG_9 +++" <:+:
      ((insideCall successfulOrDetached).dispatch successfulOrDetached oneCall {} {} 0
        { te := .signalled, status := 9 }).out.logs 0 :=
  (end_logged_iff _ _ _ _ _ _ _ 0 _ (insideCall_run successfulOrDetached)
    (.dispatch _ {} {} { te := .signalled, status := 9 } 0 (by decide)) (by decide)).mpr
    (.inr ⟨⟨0, some (.log 0)⟩, by decide, rfl, by decide, by decide⟩)

/-- With a filter for successful syscalls, the death of a tracee inside a syscall is
not told. -/
theorem end_held_back : ¬ ∀ (po : OutputOptions) (o : Options) (m m' : System) (a : Answers)
    (x : Texts) (wd : WaitData) (i : Nat) (text : String),
    Run System.Initial (SystemStep po o) (fun _ _ => True) m →
    SystemStep po o m (.dispatch a x wd i) m' → endOf po wd = some text →
    notice x m.out i text <:+: m'.out.logs (m.out.tcbs i).log := by
  intro stated
  have logged := stated successful oneCall _ _ {} {} { te := .signalled, status := 9 } 0
    "+++ killed by SIG_9 +++" (insideCall_run successful) (.dispatch _ {} {} _ 0 (by decide))
    (by decide)
  exact absurd logged (by decide)

end Strace.Notices
