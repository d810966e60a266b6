import Mathlib.Data.List.GetD
import Strace.Pidns.Coherence

/-! `get_proc_pid` and `get_strace_pid` of `pidns.c`: which process a translation finds,
and the runs in which these functions are called. -/
namespace Strace.Pidns
open Packed Tries Runs

def getProcPid (w : Proc) (pid : Int) (s : State) : Nat × State :=
  let (answer, s) := translatePid w none pid (some .tid) true s
  (answer.procPid.getD 0, s)

def getStracePid (w : Proc) (procPid : Int) (s : State) : Nat × State :=
  if procPid ≤ 0 then (0, s)
  else
    let (ours, s) := isProcOurs w s
    if ours then (procPid.toNat, s)
    else
      let ourCount := (getIdList w 0 .tid).length
      if ourCount = 0 ∨ ourCount > maxNsDepth then (0, s)
      else
        let ids := getIdList w procPid.toNat .tid
        if ids.length < ourCount ∨ ids.length > maxNsDepth then (0, s)
        else
          let stracePid := ids.getD (ourCount - 1) 0
          let (found, s) := getProcPid w stracePid s
          (if found = procPid.toNat then stracePid else 0, s)

/-! ## The process that is found -/

section
variable {w : Proc} {q : Query} {s : State}

/-- And no process comes without a result. -/
structure Names (w : Proc) (q : Query) (found : Found) : Prop where
  shown : Shown w q found
  silent : found.resultId = 0 → found.pd = none

theorem Shown.names {found : Found} (shown : Shown w q found) (answers : found.resultId ≠ 0) :
    Names w q found := ⟨shown, fun silent => absurd silent answers⟩

/-- No id of this type is zero. -/
def Positive (w : Proc) (type : PidType) : Prop :=
  ∀ procPid, procPid ≠ 0 → 0 ∉ getIdList w procPid type

variable {ids : List Nat} {ns : List UInt32} {procPid : Nat} {x : Found × State}

theorem searchLevels_some {ourId result i : Nat}
    (found : searchLevels q ids ourId i ns = some result) : result = ourId := by
  induction ns generalizing i with
  | nil => cases found
  | cons n above ih =>
    grind [searchLevels]

theorem translateFrom_silent (positive : 0 ∉ ids)
    (silent : (translateFrom q procPid ns ids).resultId = 0) :
    (translateFrom q procPid ns ids).pd = none := by
  unfold translateFrom at silent ⊢
  split
  · rfl
  · next deep =>
    obtain ⟨some, enough⟩ := not_or.mp deep
    have levels := List.length_pos_iff.mpr some
    rw [if_neg deep] at silent
    split
    · rfl
    · next ourId found =>
      rw [found, searchLevels_some found, List.getD_eq_getElem _ _ (by omega)] at silent
      exact absurd (silent ▸ List.getElem_mem _) positive

theorem translateIdProcPid_names (kernel : Kernel w) (positive : Positive w q.type)
    (ready : Ready w s) (process : procPid ≠ 0) :
    Names w q (translateIdProcPid w q procPid s).1 ∧
      Ready w (translateIdProcPid w q procPid s).2 := by
  obtain ⟨shown, after⟩ := ready.translateIdProcPid_shown kernel process
  refine ⟨⟨shown, ?_⟩, after⟩
  unfold translateIdProcPid updateProcData
  rw [ready.getNsHierarchy kernel]
  by_cases unread : nsOf w procPid maxNsDepth = [] ∨ getIdList w procPid q.type = []
  · simp only [if_pos unread, implies_true]
  · simp only [if_neg unread, Function.update_self]
    exact translateFrom_silent (positive procPid process)

theorem readDir_establishes {visit : Nat → Found × State → Found × State} {P : Found → Prop}
    (visited : ∀ procPid x, procPid ≠ 0 → Ready w x.2 → x.1.resultId = 0 →
      P (visit procPid x).1 ∧ Ready w (visit procPid x).2) {entries : List DirEntry}
    (ready : Ready w x.2) (empty : x.1.resultId = 0)
    (start : P x.1 ∨ entries.filterMap DirEntry.procPid ≠ []) :
    P (readDir visit entries x).1 ∧ Ready w (readDir visit entries x).2 := by
  induction entries generalizing x with
  | nil => exact ⟨start.resolve_right fun some => some rfl, ready⟩
  | cons entry rest ih =>
    rw [readDir, if_neg (not_not.mpr empty)]
    cases named : entry.procPid with
    | none =>
      grind
    | some procPid =>
      obtain ⟨holds, after⟩ := visited procPid x (DirEntry.procPid_ne_zero named) ready empty
      by_cases silent : (visit procPid x).1.resultId = 0
      · exact ih after silent (.inl holds)
      · simp only [readDir_done rest silent]
        exact ⟨holds, after⟩

theorem translateTaskDir_shown (kernel : Kernel w) (procPid : Nat) (ready : Ready w x.2)
    (empty : x.1.resultId = 0) :
    Shown w q (translateTaskDir w q procPid x).1 ∧
      Ready w (translateTaskDir w q procPid x).2 := by
  unfold translateTaskDir
  cases w.task procPid with
  | none => exact ⟨shown_of_silent empty, ready⟩
  | some entries =>
    exact readDir_establishes
      (fun task x process ready _ => ready.translateIdProcPid_shown kernel process) ready empty
      (.inl (shown_of_silent empty))

section
variable (kernel : Kernel w) (positive : Positive w q.type)
include kernel positive

variable {x : Found × State}

theorem translateProcess_names {procPid : Nat} (process : procPid ≠ 0) (ready : Ready w x.2)
    (empty : x.1.resultId = 0) :
    Names w q (translateProcess w q procPid x).1 ∧
      Ready w (translateProcess w q procPid x).2 := by
  obtain ⟨shown, after⟩ := translateTaskDir_shown kernel procPid ready empty
  unfold translateProcess
  dsimp only
  split
  · next answers => exact ⟨shown.names answers, after⟩
  · exact translateIdProcPid_names kernel positive after process

theorem translateIdDir_names (ready : Ready w x.2) (empty : x.1.resultId = 0)
    (some : scanned w ≠ []) :
    Names w q (translateIdDir w q x).1 := by
  unfold translateIdDir
  unfold scanned at some
  cases root : w.root with
  | none =>
    rw [root] at some
    exact absurd rfl some
  | some entries =>
    refine (readDir_establishes (fun procPid x process ready empty => ?_) ready empty (.inr ?_)).1
    · exact translateProcess_names kernel positive process ready empty
    · intro none
      rw [root] at some
      exact some (by rw [pidsIn, Option.getD_some, none, List.flatMap_nil])

theorem tryCachedProcPid_names (ready : Ready w s) :
    Names w q (tryCachedProcPid w q s).1 ∧ Ready w (tryCachedProcPid w q s).2 := by
  unfold tryCachedProcPid
  dsimp only
  split
  · next process => exact translateIdProcPid_names kernel positive ready process
  · exact ⟨⟨shown_of_silent rfl, fun _ => rfl⟩, ready⟩

theorem lookUp_names (ready : Ready w s) (some : scanned w ≠ []) :
    Names w q (lookUp w q s).1 := by
  obtain ⟨first, after⟩ := tryCachedProcPid_names kernel positive ready
  unfold lookUp
  dsimp only
  split
  · exact first
  · obtain ⟨second, after⟩ := after.iterate kernel (List.range s.pidMax) first.shown
    split
    · next answers => exact second.names answers
    · next silent => exact translateIdDir_names kernel positive after (not_not.mp silent) some

end

end

/-! ## Whether `/proc` is strace's -/

section
variable (w : Proc) (q : Query)

theorem getNsHierarchy_procOurs (procPid size : Nat) (s : State) :
    (getNsHierarchy w procPid size s).2.procOurs = s.procOurs := by
  unfold getNsHierarchy
  split <;> rfl

theorem updateProcData_procOurs (procPid : Nat) (type : PidType) (pd : ProcData) (s : State) :
    (updateProcData w procPid type pd s).2.procOurs = s.procOurs := by
  unfold updateProcData
  dsimp only
  split <;> exact getNsHierarchy_procOurs w procPid maxNsDepth s

theorem translateIdProcPid_procOurs (procPid : Nat) (s : State) :
    (translateIdProcPid w q procPid s).2.procOurs = s.procOurs := by
  have update := updateProcData_procOurs w procPid q.type ((s.procDataCache procPid).getD {}) s
  unfold translateIdProcPid
  split
  · next updated => rwa [updated] at update
  · next updated => rwa [updated] at update

theorem readDir_procOurs {visit : Nat → Found × State → Found × State}
    (visited : ∀ procPid x, (visit procPid x).2.procOurs = x.2.procOurs) (entries : List DirEntry)
    (x : Found × State) : (readDir visit entries x).2.procOurs = x.2.procOurs := by
  induction entries generalizing x with
  | nil => rfl
  | cons entry rest ih =>
    grind [readDir]

theorem translateProcess_procOurs (procPid : Nat) (x : Found × State) :
    (translateProcess w q procPid x).2.procOurs = x.2.procOurs := by
  have tasks : (translateTaskDir w q procPid x).2.procOurs = x.2.procOurs := by
    unfold translateTaskDir
    split
    · rfl
    · exact readDir_procOurs (fun task x => translateIdProcPid_procOurs w q task x.2) _ x
  unfold translateProcess
  dsimp only
  split
  · exact tasks
  · exact (translateIdProcPid_procOurs w q procPid _).trans tasks

theorem translateIdDir_procOurs (x : Found × State) :
    (translateIdDir w q x).2.procOurs = x.2.procOurs := by
  unfold translateIdDir
  split
  · rfl
  · exact readDir_procOurs (translateProcess_procOurs w q) _ x

theorem iterate_procOurs (keys : List Nat) (x : Found × State) :
    (keys.foldl (procDataCacheIteratorFn w q) x).2.procOurs = x.2.procOurs := by
  induction keys generalizing x with
  | nil => rfl
  | cons key rest ih =>
    refine (ih _).trans ?_
    unfold procDataCacheIteratorFn
    split
    · rfl
    · split
      · rfl
      · dsimp only
        split
        · rfl
        · exact translateIdProcPid_procOurs w q key x.2

theorem lookUp_procOurs (s : State) : (lookUp w q s).2.procOurs = s.procOurs := by
  have first : (tryCachedProcPid w q s).2.procOurs = s.procOurs := by
    grind [tryCachedProcPid, translateIdProcPid_procOurs]
  have second := (iterate_procOurs w q (List.range s.pidMax) _).trans first
  unfold lookUp
  dsimp only
  split
  · exact first
  · grind [translateIdDir_procOurs]

theorem getOurNs_procOurs (s : State) : (getOurNs w s).2.procOurs = s.procOurs := by
  unfold getOurNs
  split
  · rfl
  · exact getNsHierarchy_procOurs w 0 1 s

theorem translateFromNs_procOurs (wantsProcPid : Bool) (s : State) :
    (translateFromNs w q wantsProcPid s).2.procOurs = s.procOurs := by
  have looked := lookUp_procOurs w q s
  unfold translateFromNs
  split
  · rfl
  · dsimp only
    split
    · exact looked
    · dsimp only
      split <;> exact looked

end

def OursKnown (w : Proc) (s : State) : Prop :=
  ∀ ours, s.procOurs = some ours → ours = decide ((getIdList w 0 .tid).length ≤ 1)

section
variable {w : Proc} {s : State}

theorem OursKnown.congr (known : OursKnown w s) {s' : State} (same : s'.procOurs = s.procOurs) :
    OursKnown w s' := by
  intro ours cached
  exact known ours (same.symm.trans cached)

theorem OursKnown.isProcOurs (known : OursKnown w s) :
    (isProcOurs w s).1 = decide ((getIdList w 0 .tid).length ≤ 1) ∧
      OursKnown w (isProcOurs w s).2 := by
  unfold Pidns.isProcOurs
  split
  · next ours cached => exact ⟨known ours cached, known⟩
  · refine ⟨rfl, ?_⟩
    rintro _ ⟨⟩
    rfl

def KeepsOurs (w : Proc) (tcbNs : TcbNs) : Prop :=
  ∀ getNs ∈ tcbNs, ∀ s, OursKnown w s → OursKnown w (getNs s).2

variable {tcbNs : TcbNs} {pid : Int}

section
variable (known : OursKnown w s)
include known

theorem OursKnown.isTrivial (keeps : KeepsOurs w tcbNs)
    (wantsProcPid : Bool) : OursKnown w (isTrivial w tcbNs wantsProcPid s).2 := by
  have test (same : Bool) {s : State} (known : OursKnown w s) :
      OursKnown w (if !same then (false, s) else if !wantsProcPid then (true, s)
        else Pidns.isProcOurs w s).2 := by
    split
    · exact known
    · split
      · exact known
      · exact known.isProcOurs.2
  cases tcbNs with
  | none => exact test true known
  | some getNs => exact test _ ((keeps getNs rfl s known).congr (getOurNs_procOurs w _))

theorem OursKnown.translatePidWith (keeps : KeepsOurs w tcbNs)
    (fromId : Int) (type : Option PidType) (wantsProcPid : Bool) :
    OursKnown w (translatePidWith w tcbNs fromId type wantsProcPid s).2 := by
  have tested := known.isTrivial keeps wantsProcPid
  have started : OursKnown w
      (fromNamespace w tcbNs (Pidns.isTrivial w tcbNs wantsProcPid s).2).2 := by
    cases tcbNs with
    | none => exact tested.congr (getOurNs_procOurs w _)
    | some getNs => exact keeps getNs rfl _ tested
  unfold Pidns.translatePidWith
  split
  · exact known
  · split
    · exact known
    · dsimp only
      split
      · exact tested
      · exact started.congr (translateFromNs_procOurs w _ wantsProcPid _)

theorem OursKnown.getNs (i : Nat) : OursKnown w (getNs w i s).2 := by
  unfold Pidns.getNs
  split
  · exact known
  · have none : KeepsOurs w none := fun _ mem => by cases mem
    have asked := known.translatePidWith none (s.pid i) (some .tid) true
    dsimp only
    split
    · exact asked
    · exact asked.congr (getNsHierarchy_procOurs w _ 1 _)

theorem OursKnown.translatePid (tcb : Option Nat) (fromId : Int)
    (type : Option PidType) (wantsProcPid : Bool) :
    OursKnown w (translatePid w tcb fromId type wantsProcPid s).2 := by
  apply known.translatePidWith
  intro get mem s known
  obtain ⟨i, _, rfl⟩ := Option.map_eq_some_iff.mp mem
  exact known.getNs i

end

/-! ## The process with an id of strace's namespace -/

theorem getProcPid_ours (known : OursKnown w s) (ours : (getIdList w 0 .tid).length ≤ 1)
    (valid : 0 < pid) : (getProcPid w pid s).1 = pid.toNat := by
  have trivially : (Pidns.isTrivial w none true s).1 = true :=
    known.isProcOurs.1.trans (decide_eq_true ours)
  unfold getProcPid Pidns.translatePid Pidns.translatePidWith
  simp only [Option.map_none, if_neg (Int.not_le.mpr valid), trivially]
  rfl

/-- The query of `get_proc_pid`. -/
def ownQuery (w : Proc) (pid : Int) : Query := ⟨ourNsNow w, pid.toNat, .tid⟩

theorem getProcPid_shows (kernel : Kernel w) (positive : Positive w .tid) (ready : Ready w s)
    (known : OursKnown w s) (nested : 1 < (getIdList w 0 .tid).length) (inNs : ourNsNow w ≠ 0)
    (some : scanned w ≠ []) (valid : 0 < pid) :
    (getProcPid w pid s).1 = 0 ∧ (∀ procPid ≠ 0, shownId w (ownQuery w pid) procPid = 0) ∨
      (getProcPid w pid s).1 ≠ 0 ∧ shownId w (ownQuery w pid) (getProcPid w pid s).1 ≠ 0 := by
  have keeps : Keeps w none := fun _ mem => by cases mem
  have nontrivial : (Pidns.isTrivial w none true s).1 = false :=
    known.isProcOurs.1.trans (decide_eq_false (by omega))
  have tested := ready.isTrivial kernel keeps true
  have ourNs : fromNamespace w none (Pidns.isTrivial w none true s).2 =
      (ourNsNow w, (getOurNs w (Pidns.isTrivial w none true s).2).2) :=
    Prod.ext (tested.getOurNs kernel).1 rfl
  have started := (tested.getOurNs kernel).2
  generalize (getOurNs w (Pidns.isTrivial w none true s).2).2 = s' at ourNs started
  have goes : ¬ (ourNsNow w = 0 ∨ s'.nsGetParentEnotty = true) := by
    grind [started.supported]
  have result : (getProcPid w pid s).1 = (lookUp w (ownQuery w pid) s').1.pd.getD 0 := by
    unfold getProcPid Pidns.translatePid Pidns.translatePidWith translateFromNs ownQuery
    simp only [Option.map_none, if_neg (Int.not_le.mpr valid), nontrivial, ourNs, if_neg goes,
      Bool.false_eq_true, if_false]
    split
    · next silent => rw [silent]
    · next procPid found => rw [found, if_pos True.intro]
  have asked : 0 < (ownQuery w pid).fromId := Int.pos_iff_toNat_pos.mp valid
  have names := lookUp_names (q := ownQuery w pid) kernel positive started some
  have first := (started.lookUp kernel asked).1
  rw [result]
  by_cases silent : (lookUp w (ownQuery w pid) s').1.resultId = 0
  · refine .inl ⟨by rw [names.silent silent]; rfl, fun procPid process => ?_⟩
    by_contra answers
    rw [kernel.scan_eq asked process answers] at first
    exact answers (first.symm.trans silent)
  · obtain ⟨procPid, process, found, shown⟩ := names.shown silent
    rw [found]
    exact .inr ⟨process, shown ▸ silent⟩

/-! ## Runs -/

theorem getProcPid_keeps (kernel : Kernel w) (ready : Ready w s) (known : OursKnown w s)
    (pid : Int) :
    Ready w (getProcPid w pid s).2 ∧ OursKnown w (getProcPid w pid s).2 :=
  ⟨ready.translatePidWith kernel (keeps_getNs kernel none) pid (some .tid) true,
    known.translatePid none pid (some .tid) true⟩

theorem getStracePid_keeps (kernel : Kernel w) (ready : Ready w s) (known : OursKnown w s)
    (procPid : Int) :
    Ready w (getStracePid w procPid s).2 ∧ OursKnown w (getStracePid w procPid s).2 := by
  have tested : Ready w (Pidns.isProcOurs w s).2 ∧ OursKnown w (Pidns.isProcOurs w s).2 :=
    ⟨ready.isProcOurs, known.isProcOurs.2⟩
  unfold getStracePid
  split
  · exact ⟨ready, known⟩
  · dsimp only
    split
    · exact tested
    · grind [getProcPid_keeps]

end

inductive Happening where
  | event (event : Event)
  | getsStracePid (procPid : Int)

def World.next (u : World) : Happening → World
  | .event event => u.after event
  | .getsStracePid procPid => { u with state := (getStracePid u.proc procPid u.state).2 }

def Steady (u : World) : Happening → Prop
  | .event event => Lawful u event ∧
      ∀ proc, event = .changes proc → getIdList proc 0 .tid = getIdList u.proc 0 .tid
  | .getsStracePid _ => True

theorem steady_run {u : World} (run : Run Start (fun u x u' => u' = u.next x) Steady u) :
    Kernel u.proc ∧ Ready u.proc u.state ∧ OursKnown u.proc u.state := by
  apply run.invariant (P := fun u => Kernel u.proc ∧ Ready u.proc u.state ∧
    OursKnown u.proc u.state)
  · rintro u ⟨kernel, pidMax, start⟩
    rw [start]
    exact ⟨kernel, ⟨rfl, rfl, fun ns known => by cases known⟩, fun ours known => by cases known⟩
  · rintro u happening _ ⟨kernel, ready, known⟩ steady rfl
    cases happening with
    | event event =>
      obtain ⟨after, still⟩ := ready.step kernel steady.1 rfl
      refine ⟨after, still, ?_⟩
      cases event with
      | changes proc =>
        intro ours cached
        rw [World.next, World.after, steady.2 proc rfl]
        exact known ours cached
      | attaches i pid => exact known
      | translates tcb fromId type wantsProcPid =>
        exact known.translatePid tcb fromId type wantsProcPid
    | getsStracePid procPid =>
      exact ⟨kernel, getStracePid_keeps kernel ready known procPid⟩

end Strace.Pidns
