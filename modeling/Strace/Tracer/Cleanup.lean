import Strace.Tracer.TcbTable

/-! `strace.c`: `cleanup` lets go of every tracee. A tracee has to be stopped for
that, so those that are not are stopped and waited for. -/
namespace Strace
open List

def sigterm : Nat := 15
def sigcont : Nat := 18

inductive CallError where
  | esrch
  | other
  deriving DecidableEq, Repr

inductive CleanupOp where
  | detach
  | interrupt
  | cont
  deriving DecidableEq, Repr

inductive CleanupEvent where
  | kill (p sig : Nat)
  /-- A request, the signal that it delivers, the signal of the stop that it answers,
  and how it fails -/
  | ptrace (p : Nat) (op : CleanupOp) (sig : Nat) (reported : Option Nat) (error : Option CallError)
  | droptcb (p : Nat)
  deriving DecidableEq, Repr

structure DetachErrors where
  detach : Option CallError := none
  /-- `tkill` with signal 0 -/
  probe : Option CallError := none
  interrupt : Option CallError := none
  sigstop : Option CallError := none

inductive WaitResult where
  | interrupted
  | failed
  | reaped (pid : Nat) (status : UInt32) (error : Option CallError)

structure CleanupOptions extends Options where
  /-- `PTRACE_O_EXITKILL` is one of `ptrace_setoptions`. -/
  exitkill : Bool := false
  straceChild : Nat := 0

variable (o : CleanupOptions)

/-- Whether the tracee has to be waited for. -/
def detachOrInterruptOrStop (e : DetachErrors) (p : Nat) (tcp : Tcb) : List CleanupEvent × Bool :=
  if !tcp.attached then ([], false)
  else if tcp.ignoreOneSigstop then ([], true)
  else
    let detach := .ptrace p .detach 0 none e.detach
    match e.detach with
    | none | some .other => ([detach], false)
    | some .esrch =>
      let probe := .kill p 0
      if e.probe.isSome then ([detach, probe], false)
      else if o.useSeize then
        ([detach, probe, .ptrace p .interrupt 0 none e.interrupt], e.interrupt.isNone)
      else ([detach, probe, .kill p sigstop], e.sigstop.isNone)

def ptraceRestartFails (error : Option CallError) : Bool := error = some .other

/-- Whether the tcb can be dropped. -/
def detachInterruptedOrStopped (error : Option CallError) (p : Nat) (status : UInt32) :
    List CleanupEvent × Bool :=
  if !wifstopped status then ([], true)
  else
    let reported := wstopsig status
    if o.useSeize then
      let sig := if status >>> 16 = ptraceEventStop then 0 else reported
      let sig := if sig = o.syscallTrapSig then 0 else sig
      ([.ptrace p .detach sig reported error], true)
    else if reported = sigstop then ([.ptrace p .detach 0 reported error], true)
    else
      let sig := if reported = o.syscallTrapSig then 0 else reported
      ([.ptrace p .cont sig reported error], ptraceRestartFails error)

structure Cleanup where
  table : TcbTable
  popenPid : Nat
  numToWait : Nat := 0
  /-- The waiting loop was left because `waitpid` failed. -/
  waitFailed : Bool := false
  log : List CleanupEvent := []

namespace Cleanup

def add (s : Cleanup) (events : List CleanupEvent) : Cleanup := { s with log := s.log ++ events }

def droptcbVerbose (s : Cleanup) (p : Nat) : Cleanup :=
  { s.add [.droptcb p] with table := s.table.droptcb p }

def killChild (fatalSig p : Nat) (tcp : Tcb) : List CleanupEvent :=
  if tcp.pid = o.straceChild then [.kill p sigcont, .kill p fatalSig] else []

/-- One round of the first loop. -/
def lookAt (fatalSig : Nat) (errors : Nat → DetachErrors) (s : Cleanup) (p : Nat) : Cleanup :=
  let tcp := s.table.heap p
  if tcp.pid = 0 then s
  else
    let (events, wait) := detachOrInterruptOrStop o (errors p) p tcp
    let s := s.add (killChild o fatalSig p tcp ++ events)
    if wait then { s with numToWait := s.numToWait + 1 } else s.droptcbVerbose p

/-- One round of the waiting loop. -/
def waitRound (s : Cleanup) (w : WaitResult) : Cleanup :=
  if s.waitFailed || s.numToWait = 0 then s
  else
    match w with
    | .interrupted => s
    | .failed => { s with waitFailed := true }
    | .reaped pid status error =>
      if pid = s.popenPid then if wifstopped status then s else { s with popenPid := 0 }
      else
        match s.table.pid2tcb pid with
        | (table, none) => { s with table }
        | (table, some p) =>
          let (events, done) := detachInterruptedOrStopped o error p status
          let s := { s with table }.add events
          if done then { s.droptcbVerbose p with numToWait := s.numToWait - 1 } else s

end Cleanup

/-- The first loop of `cleanup`. -/
def cleanupLooked (fatalSig : Nat) (errors : Nat → DetachErrors) (t : TcbTable) (popenPid : Nat) :
    Cleanup :=
  let fatalSig := if fatalSig = 0 then sigterm else fatalSig
  t.tcbtab.foldl (Cleanup.lookAt o fatalSig errors) { table := t, popenPid }

def cleanup (fatalSig : Nat) (errors : Nat → DetachErrors) (t : TcbTable) (popenPid : Nat)
    (waits : List WaitResult) : Cleanup :=
  if o.exitkill then { table := t, popenPid }
  else waits.foldl (Cleanup.waitRound o) (cleanupLooked o fatalSig errors t popenPid)

/-! ## What is over once it is done -/

namespace CleanupEvent

/-- The tcb that an event is about. -/
def tcb : CleanupEvent → Nat
  | kill p _ | ptrace p _ _ _ _ | droptcb p => p

def isRequest : CleanupEvent → Bool
  | ptrace _ _ _ _ _ => true
  | _ => false

def isDrop : CleanupEvent → Bool
  | droptcb _ => true
  | _ => false

/-- A `PTRACE_DETACH` that succeeds. -/
def detaches : CleanupEvent → Bool
  | ptrace _ .detach _ _ none => true
  | _ => false

def suppresses : CleanupEvent → Bool
  | ptrace _ _ sig reported _ => reported = some sigstop && sig ≠ sigstop
  | _ => false

structure Allows (useSeize : Bool) (e e' : CleanupEvent) : Prop where
  drop : e.tcb = e'.tcb → e.isDrop = false
  detach : e.tcb = e'.tcb → e.detaches = true → e'.isRequest = false
  suppress : e.tcb = e'.tcb → useSeize = false → e.suppresses = true → e'.suppresses = false

/-- An event that leaves room for any other. -/
def IsOpen (useSeize : Bool) (e : CleanupEvent) : Prop :=
  e.isDrop = false ∧ e.detaches = false ∧ (useSeize = false → e.suppresses = false)

variable {useSeize : Bool} {e : CleanupEvent}

theorem IsOpen.allows (isOpen : e.IsOpen useSeize) (e' : CleanupEvent) : e.Allows useSeize e' := by
  obtain ⟨drop, detach, suppress⟩ := isOpen
  constructor
  · exact fun _ => drop
  · simp [detach]
  · intro _ unseized suppresses
    rw [suppress unseized] at suppresses
    cases suppresses

theorem Allows.of_ne {e' : CleanupEvent} (different : e.tcb ≠ e'.tcb) : e.Allows useSeize e' :=
  ⟨fun eq => absurd eq different, fun eq => absurd eq different, fun eq => absurd eq different⟩

theorem Allows.droptcb {p : Nat} (kept : e.isDrop = false) : e.Allows useSeize (.droptcb p) :=
  ⟨fun _ => kept, fun _ _ => rfl, fun _ _ _ => rfl⟩

end CleanupEvent

structure CleanupRound (useSeize : Bool) (p : Nat) (events : List CleanupEvent) (stays : Bool) :
    Prop where
  tcb : ∀ e ∈ events, e.tcb = p
  kept : ∀ e ∈ events, e.isDrop = false
  ordered : events.Pairwise (CleanupEvent.Allows useSeize)
  isOpen : stays = true → ∀ e ∈ events, e.IsOpen useSeize

section
variable {o : CleanupOptions} {p : Nat} {events : List CleanupEvent} {stays : Bool}

theorem CleanupRound.nil : CleanupRound o.useSeize p [] stays :=
  ⟨nofun, nofun, .nil, fun _ => nofun⟩

variable {e : CleanupEvent}

theorem CleanupRound.cons (round : CleanupRound o.useSeize p events stays) (tcb : e.tcb = p)
    (isOpen : e.IsOpen o.useSeize) :
    CleanupRound o.useSeize p (e :: events) stays := by
  constructor
  · exact forall_mem_cons.mpr ⟨tcb, round.tcb⟩
  · exact forall_mem_cons.mpr ⟨isOpen.1, round.kept⟩
  · exact pairwise_cons.mpr ⟨fun e' _ => isOpen.allows e', round.ordered⟩
  · exact fun stays => forall_mem_cons.mpr ⟨isOpen, round.isOpen stays⟩

theorem CleanupRound.single (tcb : e.tcb = p) (kept : e.isDrop = false)
    (isOpen : stays = true → e.IsOpen o.useSeize) : CleanupRound o.useSeize p [e] stays := by
  refine ⟨?_, ?_, pairwise_singleton _ _, ?_⟩
  · simpa using tcb
  · simpa using kept
  · simpa using isOpen

theorem detachOrInterruptOrStop_round (e : DetachErrors) (p : Nat) (tcp : Tcb) :
    CleanupRound o.useSeize p (detachOrInterruptOrStop o e p tcp).1
      (detachOrInterruptOrStop o e p tcp).2 := by
  unfold detachOrInterruptOrStop
  split
  · exact .nil
  · split
    · exact .nil
    · split
      · exact .single rfl rfl nofun
      · exact .single rfl rfl nofun
      · next gone =>
        rw [gone]
        have tried {events : List CleanupEvent} {stays : Bool}
            (rest : CleanupRound o.useSeize p events stays) : CleanupRound o.useSeize p
              (.ptrace p .detach 0 none (some .esrch) :: .kill p 0 :: events) stays :=
          (rest.cons rfl ⟨rfl, rfl, fun _ => rfl⟩).cons rfl ⟨rfl, rfl, fun _ => rfl⟩
        split
        · exact tried .nil
        · split
          · exact tried (.single rfl rfl fun _ => ⟨rfl, rfl, fun _ => rfl⟩)
          · exact tried (.single rfl rfl fun _ => ⟨rfl, rfl, fun _ => rfl⟩)

theorem detachInterruptedOrStopped_round (error : Option CallError) (p : Nat) (status : UInt32) :
    CleanupRound o.useSeize p (detachInterruptedOrStopped o error p status).1
      !(detachInterruptedOrStopped o error p status).2 := by
  unfold detachInterruptedOrStopped
  split
  · exact .nil
  · dsimp only
    split
    · exact .single rfl rfl nofun
    · split
      · exact .single rfl rfl nofun
      · next other =>
        refine .single rfl rfl fun _ => ⟨rfl, rfl, fun _ => ?_⟩
        simp [CleanupEvent.suppresses, other]

end

/-! ## Every state of the waiting loop -/

structure Cleanup.Sound (useSeize : Bool) (s : Cleanup) : Prop where
  valid : s.table.Valid
  ordered : s.log.Pairwise (CleanupEvent.Allows useSeize)
  isOpen : ∀ e ∈ s.log, (s.table.heap e.tcb).pid ≠ 0 → e.IsOpen useSeize

namespace TcbTable
variable {t : TcbTable} {p : Nat}

/-- The tcbs in use among some entries. -/
def usedAmong (t : TcbTable) (ps : List Nat) : Nat := ps.countP fun p => (t.heap p).pid ≠ 0

variable {ps : List Nat}

theorem usedAmong_cons_free (free : (t.heap p).pid = 0) :
    t.usedAmong (p :: ps) = t.usedAmong ps := by
  simp [usedAmong, free]

theorem usedAmong_cons_live (live : (t.heap p).pid ≠ 0) :
    t.usedAmong (p :: ps) = t.usedAmong ps + 1 := by
  simp [usedAmong, live]

theorem pid2tcb_positive {pid : Nat} (found : (t.pid2tcb pid).2 = some p) : pid ≠ 0 := by
  rintro rfl
  cases found

theorem droptcb_heap_self (t : TcbTable) (p : Nat) : ((t.droptcb p).heap p).pid = 0 := by
  unfold droptcb
  split
  · assumption
  · exact congrArg Tcb.pid (set_heap_self t p {})

theorem droptcb_heap_other {q : Nat} (other : q ≠ p) : (t.droptcb p).heap q = t.heap q := by
  unfold droptcb
  split
  · rfl
  · exact set_heap_other t {} other

theorem usedAmong_droptcb (absent : p ∉ ps) : (t.droptcb p).usedAmong ps = t.usedAmong ps := by
  refine countP_congr fun q mem => ?_
  have other : q ≠ p := fun eq => absent (eq ▸ mem)
  rw [droptcb_heap_other other]

theorem droptcb_inUse (valid : t.Valid) (entry : p ∈ t.tcbtab) (live : (t.heap p).pid ≠ 0) :
    (t.droptcb p).inUse + 1 = t.inUse := by
  have change := set_inUse valid entry {}
  simp only [live, ne_eq] at change
  unfold droptcb
  rw [if_neg live]
  exact change

end TcbTable

namespace Cleanup

variable {o : CleanupOptions} {s : Cleanup} {p : Nat} {events : List CleanupEvent} {useSeize : Bool}

theorem Sound.allows (sound : s.Sound useSeize) (live : (s.table.heap p).pid ≠ 0)
    {e e' : CleanupEvent} (mem : e ∈ s.log) (tcb : e'.tcb = p) : e.Allows useSeize e' := by
  by_cases same : e.tcb = p
  · refine (sound.isOpen e mem ?_).allows e'
    rwa [same]
  · exact .of_ne fun eq => same (eq.trans tcb)

variable {stays : Bool}

theorem Sound.add (sound : s.Sound useSeize) (live : (s.table.heap p).pid ≠ 0)
    (round : CleanupRound useSeize p events stays) (kept : stays = true) :
    (s.add events).Sound useSeize := by
  refine ⟨sound.valid, ?_, fun e mem alive => ?_⟩
  · refine pairwise_append.mpr ⟨sound.ordered, round.ordered, fun e mem e' mem' => ?_⟩
    exact sound.allows live mem (round.tcb e' mem')
  · exact (mem_append.mp mem).elim (sound.isOpen e · alive) (round.isOpen kept e)

theorem Sound.drop (sound : s.Sound useSeize) (live : (s.table.heap p).pid ≠ 0)
    (entry : p ∈ s.table.tcbtab) (round : CleanupRound useSeize p events stays) :
    ((s.add events).droptcbVerbose p).Sound useSeize := by
  refine ⟨TcbTable.droptcb_valid sound.valid entry, ?_, fun e mem alive => ?_⟩
  · refine pairwise_append.mpr ⟨?_, pairwise_singleton _ _, fun e mem e' mem' => ?_⟩
    · refine pairwise_append.mpr ⟨sound.ordered, round.ordered, fun e mem e' mem' => ?_⟩
      exact sound.allows live mem (round.tcb e' mem')
    · obtain rfl := mem_singleton.mp mem'
      obtain old | new := mem_append.mp mem
      · exact sound.allows live old rfl
      · exact .droptcb (round.kept e new)
  · have other : e.tcb ≠ p := by
      intro eq
      rw [eq] at alive
      exact alive (TcbTable.droptcb_heap_self s.table p)
    have before : (s.table.heap e.tcb).pid ≠ 0 := by
      rw [← TcbTable.droptcb_heap_other other]
      exact alive
    have old : e ∈ s.log := by
      obtain mem | last := mem_append.mp mem
      · exact (mem_append.mp mem).resolve_right fun new => other (round.tcb e new)
      · obtain rfl := mem_singleton.mp last
        exact absurd rfl other
    exact sound.isOpen e old before

theorem killChild_round (round : CleanupRound o.useSeize p events stays) (fatalSig : Nat)
    (tcp : Tcb) :
    CleanupRound o.useSeize p (killChild o fatalSig p tcp ++ events) stays := by
  unfold killChild
  split
  · exact (round.cons rfl ⟨rfl, rfl, fun _ => rfl⟩).cons rfl ⟨rfl, rfl, fun _ => rfl⟩
  · exact round

theorem lookAt_cases (fatalSig : Nat) (errors : Nat → DetachErrors) (s : Cleanup) (p : Nat) :
    (s.table.heap p).pid = 0 ∧ lookAt o fatalSig errors s p = s ∨
    (s.table.heap p).pid ≠ 0 ∧ ∃ events wait, CleanupRound o.useSeize p events wait ∧
      lookAt o fatalSig errors s p =
        if wait then { s.add events with numToWait := s.numToWait + 1 }
        else (s.add events).droptcbVerbose p := by
  by_cases free : (s.table.heap p).pid = 0
  · exact .inl ⟨free, if_pos free⟩
  · have round : CleanupRound o.useSeize p _ _ :=
      detachOrInterruptOrStop_round (errors p) p (s.table.heap p)
    exact .inr ⟨free, _, _, killChild_round round fatalSig (s.table.heap p), if_neg free⟩

theorem waitRound_cases (sound : s.Sound o.useSeize) (w : WaitResult) :
    ∃ table, table.Valid ∧ table.heap = s.table.heap ∧ table.tcbtab = s.table.tcbtab ∧
      ((∃ popenPid waitFailed, waitRound o s w = { s with table, popenPid, waitFailed }) ∨
        ∃ p ∈ table.tcbtab, (table.heap p).pid ≠ 0 ∧ ∃ events stays,
          CleanupRound o.useSeize p events stays ∧
          waitRound o s w =
            if stays then { s with table }.add events
            else { ({ s with table }.add events).droptcbVerbose p with
              numToWait := s.numToWait - 1 }) := by
  unfold waitRound
  split
  · exact ⟨s.table, sound.valid, rfl, rfl, .inl ⟨s.popenPid, s.waitFailed, rfl⟩⟩
  · split
    · exact ⟨s.table, sound.valid, rfl, rfl, .inl ⟨s.popenPid, s.waitFailed, rfl⟩⟩
    · exact ⟨s.table, sound.valid, rfl, rfl, .inl ⟨s.popenPid, true, rfl⟩⟩
    · next pid status error =>
      split
      · split
        · exact ⟨s.table, sound.valid, rfl, rfl, .inl ⟨s.popenPid, s.waitFailed, rfl⟩⟩
        · exact ⟨s.table, sound.valid, rfl, rfl, .inl ⟨0, s.waitFailed, rfl⟩⟩
      · have valid := TcbTable.pid2tcb_valid sound.valid pid
        obtain ⟨heap, tcbtab, -⟩ := TcbTable.pid2tcb_table s.table pid
        split
        · next table lookup =>
          rw [lookup] at valid heap tcbtab
          exact ⟨table, valid, heap, tcbtab, .inl ⟨s.popenPid, s.waitFailed, rfl⟩⟩
        · next table p lookup =>
          have found := TcbTable.pid2tcb_some sound.valid (congrArg Prod.snd lookup)
          have positive := TcbTable.pid2tcb_positive (congrArg Prod.snd lookup)
          rw [lookup] at valid heap tcbtab
          refine ⟨table, valid, heap, tcbtab, .inr ⟨p, ?_, ?_, _, _,
            detachInterruptedOrStopped_round error p status, ?_⟩⟩
          · rw [tcbtab]
            exact found.1
          · rw [heap, found.2]
            exact positive
          · dsimp only
            cases (detachInterruptedOrStopped o error p status).2 <;> rfl

section
variable {fatalSig : Nat} {errors : Nat → DetachErrors}

theorem looked_sound {todo : List Nat} (sound : s.Sound o.useSeize)
    (entries : ∀ p ∈ todo, p ∈ s.table.tcbtab) (nodup : todo.Nodup)
    (count : s.numToWait + s.table.usedAmong todo = s.table.inUse) :
    (todo.foldl (lookAt o fatalSig errors) s).Sound o.useSeize ∧
      (todo.foldl (lookAt o fatalSig errors) s).numToWait =
        (todo.foldl (lookAt o fatalSig errors) s).table.inUse := by
  induction todo generalizing s with
  | nil => exact ⟨sound, count⟩
  | cons p todo ih =>
    obtain ⟨absent, nodup⟩ := nodup_cons.mp nodup
    have entry := entries p mem_cons_self
    have later : ∀ q ∈ todo, q ∈ s.table.tcbtab := fun q mem => entries q (mem_cons_of_mem p mem)
    rw [foldl_cons]
    obtain ⟨free, eq⟩ | ⟨live, events, wait, round, eq⟩ := lookAt_cases fatalSig errors s p
    · rw [TcbTable.usedAmong_cons_free free] at count
      rw [eq]
      exact ih sound later nodup count
    · rw [TcbTable.usedAmong_cons_live live] at count
      rw [eq]
      cases wait with
      | true =>
        have kept := sound.add live round rfl
        refine ih ⟨kept.valid, kept.ordered, kept.isOpen⟩ later nodup ?_
        show s.numToWait + 1 + s.table.usedAmong todo = s.table.inUse
        omega
      | false =>
        refine ih (sound.drop live entry round) ?_ nodup ?_
        · intro q mem
          show q ∈ (s.table.droptcb p).tcbtab
          rw [TcbTable.droptcb_tcbtab]
          exact later q mem
        · have fewer := TcbTable.droptcb_inUse sound.valid entry live
          show s.numToWait + (s.table.droptcb p).usedAmong todo = (s.table.droptcb p).inUse
          rw [TcbTable.usedAmong_droptcb absent]
          omega

end

structure Waiting (useSeize : Bool) (s : Cleanup) : Prop where
  sound : s.Sound useSeize
  count : s.numToWait = s.table.inUse

theorem Waiting.waitRound (waiting : s.Waiting o.useSeize) (w : WaitResult) :
    (s.waitRound o w).Waiting o.useSeize := by
  obtain ⟨sound, count⟩ := waiting
  obtain ⟨table, valid, heap, tcbtab, cases⟩ := waitRound_cases sound w
  have inUse : table.inUse = s.table.inUse := by
    simp [heap, tcbtab, TcbTable.inUse]
  have same : { s with table }.Sound o.useSeize :=
    ⟨valid, sound.ordered, by rw [heap]; exact sound.isOpen⟩
  obtain ⟨popenPid, waitFailed, eq⟩ | ⟨p, entry, live, events, stays, round, eq⟩ := cases
  · rw [eq]
    exact ⟨⟨same.valid, same.ordered, same.isOpen⟩, count.trans inUse.symm⟩
  · rw [eq]
    cases stays with
    | true => exact ⟨same.add live round rfl, count.trans inUse.symm⟩
    | false =>
      have dropped := same.drop live entry round
      refine ⟨⟨dropped.valid, dropped.ordered, dropped.isOpen⟩, ?_⟩
      have fewer := TcbTable.droptcb_inUse valid entry live
      show s.numToWait - 1 = (table.droptcb p).inUse
      omega

end Cleanup

section
variable {o : CleanupOptions} {t : TcbTable}

theorem cleanup_waiting (valid : t.Valid) (waits : o.exitkill = false) (fatalSig : Nat)
    (errors : Nat → DetachErrors) (popenPid : Nat) (results : List WaitResult) :
    (cleanup o fatalSig errors t popenPid results).Waiting o.useSeize := by
  unfold cleanup
  rw [waits]
  refine List.foldlRecOn (motive := Cleanup.Waiting o.useSeize) results _ ?_ ?_
  · have start : Cleanup.Sound o.useSeize { table := t, popenPid } := ⟨valid, .nil, nofun⟩
    obtain ⟨sound, count⟩ := Cleanup.looked_sound start (fun _ => id) valid.nodup (Nat.zero_add _)
    exact ⟨sound, count⟩
  · exact fun s waiting w _ => waiting.waitRound w

theorem countP_le_one {α : Type} {R : α → α → Prop} {P : α → Bool} {l : List α}
    (ordered : l.Pairwise R)
    (excludes : ∀ a b, R a b → P a = true → P b = false) : l.countP P ≤ 1 := by
  induction ordered with
  | nil => exact Nat.zero_le 1
  | @cons a l before _ ih =>
    rw [countP_cons]
    split
    · next holds =>
      have none : l.countP P = 0 := by
        refine countP_eq_zero.mpr fun b mem => ?_
        rw [excludes a b (before b mem) holds]
        exact Bool.false_ne_true
      omega
    · exact ih

/-- However the calls fail and whatever `waitpid` returns: the tcbs in use are counted,
each is dropped once at most, none is left when the loop has nothing to wait for, no
request follows a detach, and a tracee that is not seized has one `SIGSTOP` suppressed
at most. -/
theorem cleanup_lets_go (valid : t.Valid) (waits : o.exitkill = false) (fatalSig : Nat)
    (errors : Nat → DetachErrors) (popenPid : Nat) (results : List WaitResult) :
    let s := cleanup o fatalSig errors t popenPid results
    s.numToWait = s.table.inUse ∧
    (∀ p, s.log.countP (fun e => e.isDrop && e.tcb == p) ≤ 1) ∧
    (s.numToWait = 0 → ∀ p ∈ s.table.tcbtab, (s.table.heap p).pid = 0) ∧
    (∀ before e after, s.log = before ++ e :: after → e.detaches = true →
      ∀ e' ∈ after, e'.tcb = e.tcb → e'.isRequest = false) ∧
    (o.useSeize = false → ∀ p, s.log.countP (fun e => e.suppresses && e.tcb == p) ≤ 1) := by
  obtain ⟨sound, count⟩ := cleanup_waiting valid waits fatalSig errors popenPid results
  refine ⟨count, fun p => ?_, fun none p entry => ?_, ?_, fun unseized p => ?_⟩
  · refine countP_le_one sound.ordered fun e e' allows first => ?_
    obtain ⟨drop, tcb⟩ : e.isDrop = true ∧ e.tcb = p := by simpa using first
    by_cases same : e'.tcb = p
    · rw [allows.drop (tcb.trans same.symm)] at drop
      cases drop
    · simp [same]
  · rw [count] at none
    simpa using List.countP_eq_zero.mp none p entry
  · intro before e after eq detaches e' mem tcb
    have ordered := sound.ordered
    rw [eq] at ordered
    have allows := List.rel_of_pairwise_cons (List.pairwise_append.mp ordered).2.1 mem
    exact allows.detach tcb.symm detaches
  · refine countP_le_one sound.ordered fun e e' allows first => ?_
    obtain ⟨suppresses, tcb⟩ : e.suppresses = true ∧ e.tcb = p := by simpa using first
    by_cases same : e'.tcb = p
    · rw [allows.suppress (tcb.trans same.symm) unseized suppresses]
      rfl
    · simp [same]

end

def twoTracees : TcbTable where
  heap
    | 1 => { pid := 100, attached := true }
    | 2 => { pid := 200, attached := true, ignoreOneSigstop := true }
    | _ => {}
  tcbtab := [1, 2]
  nprocs := 2

theorem twoTracees_valid : twoTracees.Valid := ⟨by decide, rfl, nofun⟩

def unseizedOptions : CleanupOptions where
  supportedPersonalities := 1
  auditArchVec _ := ⟨0, 0⟩
  nsyscallVec _ := 0
  sysentVec _ _ := {}
  useSeize := false

/-- The first one is running, so it is stopped, and both then report a `SIGSTOP`. -/
theorem cleanup_lets_go_two :
    let s := cleanup unseizedOptions 0 (fun _ => { detach := some .esrch }) twoTracees 0
      [.reaped 100 0x137f none, .interrupted, .reaped 200 0x137f none]
    s.numToWait = 0 ∧ (∀ p ∈ s.table.tcbtab, (s.table.heap p).pid = 0) ∧
      ∀ p, s.log.countP (fun e => e.suppresses && e.tcb == p) ≤ 1 :=
  have lets := cleanup_lets_go twoTracees_valid rfl 0 (fun _ => { detach := some .esrch }) 0
    [.reaped 100 0x137f none, .interrupted, .reaped 200 0x137f none]
  ⟨rfl, lets.2.2.1 rfl, lets.2.2.2.2 rfl⟩

end Strace
