import Strace.Output.Printing

/-! What the output of an event is made of. What each of these steps keeps is kept
by every dispatch. -/
namespace Strace
namespace Output

inductive Prints : Output → Output → Prop
  | refl (s : Output) : Prints s s
  | trans {s u v : Output} : Prints s u → Prints u v → Prints s v
  | fprintf (s : Output) (i : Nat) (text : String) : Prints s (s.fprintf i text)
  | curcol (s : Output) (i curcol : Nat) : Prints s (s.setCurcol i curcol)
  | reprint (s : Output) (i : Nat) (reprint : Bool) : Prints s (s.setReprint i reprint)
  | current (s : Output) (current : Option Nat) : Prints s (s.setCurrentTcp current)
  | printing (s : Output) (printing : Option Nat) : Prints s (s.setPrintingTcp printing)
  | start (s : Output) (i : Nat) : Prints s (s.startLine i)

/-- Texts are written, for whatever tcbs. -/
inductive Writes : Output → Output → Prop
  | refl (s : Output) : Writes s s
  | trans {s u v : Output} : Writes s u → Writes u v → Writes s v
  | fprintf (s : Output) (j : Nat) (text : String) : Writes s (s.fprintf j text)
  | curcol (s : Output) (j curcol : Nat) : Writes s (s.setCurcol j curcol)
  | current (s : Output) (current : Option Nat) : Writes s (s.setCurrentTcp current)

/-- What is printed for tcb `i`. Where other texts come first, it is then the current tcb again. -/
inductive Speaks (i : Nat) : Output → Output → Prop
  | refl (s : Output) : Speaks i s s
  | trans {s u v : Output} : Speaks i s u → Speaks i u v → Speaks i s v
  | fprintf (s : Output) (j : Nat) (text : String) : Speaks i s (s.fprintf j text)
  | curcol (s : Output) (j curcol : Nat) : Speaks i s (s.setCurcol j curcol)
  | aside {s u : Output} (writes : Writes s u) : Speaks i s (u.setCurrentTcp (some i))
  | ended (s : Output) : Speaks i s (s.setPrintingTcp none)
  | printing (s : Output) : Speaks i s (s.setPrintingTcp (some i))
  | start (s : Output) : Speaks i s (s.startLine i)
  | resumed (s : Output) : Speaks i s (s.setReprint i false)

inductive Emits : Output → Output → Prop
  | trans {s u v : Output} : Emits s u → Emits u v → Emits s v
  | prints {s u : Output} : Prints s u → Emits s u
  | stage (s : Output) (i : Nat) : Emits s (s.straceOpenMemstream i)
  | unstage (s : Output) (i : Nat) (data : StagedOutput)
      (staged : (s.tcbs i).stagedOutput = some data) : Emits s (s.unstage i data)
  | publish (s : Output) (i : Nat) (data : StagedOutput)
      (staged : (s.tcbs i).stagedOutput = some data) :
      Emits s ((s.unstage i data).write (s.mems data.mem) data.realOutf)
  | swap (s : Output) (i j : Nat) : Emits s (s.swapOutput i j)
  | drop (s : Output) (i : Nat) : Emits s (s.forget i)
  | finish (s : Output) (i : Nat) (failed : Bool) : Emits s (s.finishCall i failed)

theorem Emits.refl (s : Output) : s.Emits s := .prints (.refl s)

variable {s u s' : Output} {i : Nat}

theorem Writes.prints (writes : s.Writes u) : s.Prints u := by
  induction writes with
  | refl s => exact .refl s
  | trans _ _ first second => exact first.trans second
  | fprintf s j text => exact .fprintf s j text
  | curcol s j curcol => exact .curcol s j curcol
  | current s current => exact .current s current

theorem Speaks.prints (speaks : s.Speaks i u) : s.Prints u := by
  induction speaks with
  | refl s => exact .refl s
  | trans _ _ first second => exact first.trans second
  | fprintf s j text => exact .fprintf s j text
  | curcol s j curcol => exact .curcol s j curcol
  | aside writes => exact writes.prints.trans (.current _ _)
  | ended s => exact .printing s none
  | printing s => exact .printing s (some _)
  | start s => exact .start s _
  | resumed s => exact .reprint s _ false

theorem Speaks.emits (speaks : s.Speaks i u) : s.Emits u :=
  .prints speaks.prints

theorem Speaks.currentTcp (speaks : s.Speaks i u) (current : s.currentTcp = some i) :
    u.currentTcp = some i := by
  induction speaks with
  | refl | fprintf | curcol | ended | printing | resumed => exact current
  | aside | start => rfl
  | trans _ _ first second => exact second (first current)

theorem Speaks.ite {p : Prop} [Decidable p] (speaks : s.Speaks i u) :
    s.Speaks i (if p then u else s) := by
  split
  · exact speaks
  · exact .refl s

section
variable (po : OutputOptions) (o : Options) (a : Answers) (x : Texts) (s : Output) (i : Nat)

theorem tprintsString_writes (text : String) : s.Writes (s.tprintsString text) := by
  unfold tprintsString
  split
  · exact .refl s
  · exact .trans (.fprintf s _ text) (.curcol _ _ _)

theorem tprintsString_speaks (text : String) : s.Speaks i (s.tprintsString text) := by
  unfold tprintsString
  split
  · exact .refl s
  · exact .trans (.fprintf s _ text) (.curcol _ _ _)

theorem lineEnded_speaks : s.Speaks i s.lineEnded := by
  have current : s.Speaks i s.endCurrent := by
    unfold endCurrent
    split
    · exact .refl s
    · exact .curcol s _ 0
  refine current.trans ?_
  unfold lineEnded endPrinting
  split
  · exact .refl _
  · exact .trans (.curcol _ _ 0) (.ended _)

theorem tprintsString_prints (text : String) : s.Prints (s.tprintsString text) :=
  (tprintsString_speaks s 0 text).prints

theorem lineEnded_prints : s.Prints s.lineEnded := (lineEnded_speaks s 0).prints

theorem unfinished_writes (p : Nat) :
    s.Writes ((s.setCurrentTcp (some p)).unfinished.setCurcol p 0) :=
  .trans (.current s _) <| (tprintsString_writes _ " ").trans <| (tprintsString_writes _ _).trans <|
    (tprintsString_writes _ _).trans (.curcol _ _ 0)

theorem interruptPrinting_writes : s.Writes (s.interruptPrinting po i) := by
  unfold interruptPrinting
  split
  · exact .refl s
  · split
    · exact unfinished_writes s _
    · exact .refl s

theorem printleader_speaks : s.Speaks i (s.printleader po x i) := by
  have separate : s.Speaks i (if po.outputSeparately then s.setPrintingTcp (some i) else s) :=
    .ite (.printing s)
  exact separate.trans <| .trans (.aside (interruptPrinting_writes po _ i)) <|
    .trans (.start _) (tprintsString_speaks _ i _)

theorem printNotice_speaks (text : String) : s.Speaks i (s.printNotice po x i text) :=
  (printleader_speaks po x s i).trans <| (tprintsString_speaks _ i text).trans <|
    (tprintsString_speaks _ i "\n").trans (lineEnded_speaks _ i)

theorem printLines_speaks (lines : List String) : s.Speaks i (s.printLines lines) := by
  induction lines generalizing s with
  | nil => exact .refl s
  | cons line rest ih =>
    exact (tprintsString_speaks s i line).trans <| (tprintsString_speaks _ i "\n").trans (ih _)

theorem unwindTcbPrint_speaks : s.Speaks i (s.unwindTcbPrint x) := by
  unfold unwindTcbPrint
  generalize x.stack = lines
  induction lines generalizing s with
  | nil => exact .refl s
  | cons line rest ih =>
    exact (tprintsString_speaks s i line).trans <| (tprintsString_speaks _ i "\n").trans <|
      (lineEnded_speaks _ i).trans (ih _)

theorem pidChanged_prints (thread pid : Nat) : s.Prints (s.pidChanged thread pid) := by
  unfold pidChanged
  split
  · exact .fprintf s thread _
  · exact .refl s

theorem printSignalled_speaks (status : UInt32) : s.Speaks i (s.printSignalled po x i status) :=
  .ite (printNotice_speaks po x s i _)

theorem printExited_speaks (status : UInt32) : s.Speaks i (s.printExited po x i status) :=
  .ite (printNotice_speaks po x s i _)

theorem printStopped_speaks (t : Tcb) (sig : Nat) (text : String) :
    s.Speaks i (s.printStopped po x t i sig text) :=
  .ite ((printNotice_speaks po x s i text).trans (unwindTcbPrint_speaks x _ i))

theorem printSyscallResume_speaks : s.Speaks i (s.printSyscallResume po x i) := by
  refine .trans (.ite ?_) (.printing _)
  exact .trans (.resumed s) <| (printleader_speaks po x _ i).trans <|
    (tprintsString_speaks _ i _).trans <| (tprintsString_speaks _ i _).trans
      (tprintsString_speaks _ i _)

theorem tabto_speaks : s.Speaks i (s.tabto po) := by
  unfold tabto
  split
  · exact .refl s
  · exact .ite (tprintsString_speaks s i _)

theorem printResult_speaks (result : String) : s.Speaks i (s.printResult po result) :=
  (tprintsString_speaks s i _).trans <| (tprintsString_speaks _ i _).trans <|
    (tabto_speaks po _ i).trans <| (tprintsString_speaks _ i _).trans <|
      (tprintsString_speaks _ i _).trans (tprintsString_speaks _ i _)

theorem interruptOther_speaks : s.Speaks i (s.interruptOther po i) := by
  unfold interruptOther
  split
  · exact .refl s
  · exact .ite (.aside (unfinished_writes s _))

theorem syscallEnteringFailed_speaks : s.Speaks i (s.syscallEnteringFailed po x i) :=
  (printleader_speaks po x s i).trans <| (tprintsString_speaks _ i _).trans
    (tprintsString_speaks _ i _)

theorem printReturned_speaks : s.Speaks i (s.printReturned po x) :=
  (printResult_speaks po s i _).trans <| (printLines_speaks _ i _).trans <|
    (lineEnded_speaks _ i).trans <| (unwindTcbPrint_speaks x _ i).trans (printLines_speaks _ i _)

theorem notePersonality_speaks (t : Tcb) : s.Speaks i (s.notePersonality po a x t i) := by
  unfold notePersonality
  split
  · exact .ite (printNotice_speaks po x s i _)
  · exact .refl s

theorem ptraceRestartError_speaks : s.Speaks i (s.ptraceRestartError x) := by
  unfold ptraceRestartError
  split
  · exact .refl s
  · exact .ite <| (tprintsString_speaks s i _).trans <| (tprintsString_speaks _ i _).trans <|
      (tprintsString_speaks _ i _).trans (lineEnded_speaks _ i)

theorem restartCurrent_speaks (tracer : Tracer) : s.Speaks i (s.restartCurrent a x tracer i) := by
  unfold restartCurrent
  split
  · exact .refl s
  · exact .ite (ptraceRestartError_speaks x s i)

/-! ## Streams that are staged -/

theorem straceCloseMemstream_emits (publish : Bool) :
    s.Emits (s.straceCloseMemstream i publish) := by
  unfold straceCloseMemstream
  split
  · exact .refl s
  · next data staged =>
    split
    · exact .publish s i data staged
    · exact .unstage s i data staged

theorem closeStaged_emits (publish : Bool) : s.Emits (s.closeStaged po i publish) := by
  unfold closeStaged
  split
  · exact straceCloseMemstream_emits s i publish
  · exact .refl s

theorem openStaged_emits : s.Emits (s.openStaged po i) := by
  unfold openStaged
  split
  · exact .stage s i
  · exact .refl s

theorem droptcb_emits : s.Emits (s.droptcb po i) := by
  refine .trans ?_ (.drop (s.closeOutput po i) i)
  unfold closeOutput
  split
  · exact .refl s
  · dsimp only
    split
    · exact (closeStaged_emits po s i _).trans (.prints (.fprintf _ i _))
    · exact closeStaged_emits po s i _

theorem switchedTcbs_emits (thread pid oldPid : Nat) :
    (s.pidChanged thread pid).Emits (s.maybeSwitchTcbs po x i thread pid oldPid) := by
  have dropped := (Emits.swap (s.pidChanged thread pid) i thread).trans (droptcb_emits po _ i)
  unfold maybeSwitchTcbs
  split
  · exact dropped
  · refine dropped.trans (.trans ?_
      ((openStaged_emits po _ thread).trans (.prints (.reprint _ thread true))))
    split
    · exact .refl _
    · exact (printNotice_speaks po x _ thread _).emits

theorem printUnfinished_emits {t : Tcb}
    (shown : ¬ (t.entering || t.filtered || t.hideLog || po.onlyStats)) :
    (s.interruptOther po i).Emits (s.printEventExit po x t i) := by
  unfold printEventExit
  rw [if_neg shown]
  refine .trans (.prints ?_) ((closeStaged_emits po _ i _).trans (.prints (lineEnded_prints _)))
  refine (printSyscallResume_speaks po x _ i).prints.trans
    (.trans ?_ (printResult_speaks po _ i _).prints)
  split
  · exact (tprintsString_prints _ _).trans (tprintsString_prints _ _)
  · exact .refl _

theorem printEventExit_emits (t : Tcb) : s.Emits (s.printEventExit po x t i) := by
  by_cases hidden : t.entering || t.filtered || t.hideLog || po.onlyStats
  · unfold printEventExit
    rw [if_pos hidden]
    exact .refl s
  · exact .trans (interruptOther_speaks po s i).emits (printUnfinished_emits po x s i hidden)

theorem syscallEnteringTrace_emits (filtered : Bool) :
    s.Emits (s.syscallEnteringTrace po x filtered i) := by
  unfold syscallEnteringTrace
  split
  · exact .refl s
  · exact (openStaged_emits po s i).trans <| .prints <|
      (syscallEnteringFailed_speaks po x _ i).prints.trans (tprintsString_prints _ _)

theorem printExiting_emits (shown : ¬ po.onlyStats) (res : Int) (t : Tcb) :
    (s.printSyscallResume po x i).Emits (s.syscallExitingTrace po x res t i) := by
  unfold syscallExitingTrace
  rw [if_neg shown]
  split
  · exact .trans (printResult_speaks po _ i _).emits <| (closeStaged_emits po _ i _).trans
      (.prints (lineEnded_prints _))
  · refine .trans (.prints (tprintsString_prints _ x.exitArgs))
      ((closeStaged_emits po _ i (publishes po (decide (t.uError ≠ 0)))).trans ?_)
    refine .trans (.prints ?_) (.finish _ i _)
    split
    · exact lineEnded_prints _
    · exact (printReturned_speaks po x _ i).prints

theorem syscallExitingTrace_emits (res : Int) (t : Tcb) :
    s.Emits (s.syscallExitingTrace po x res t i) := by
  by_cases hidden : po.onlyStats
  · unfold syscallExitingTrace
    rw [if_pos hidden]
    exact .refl s
  · exact .trans (printSyscallResume_speaks po x s i).emits
      (printExiting_emits po x s i hidden res t)

theorem traceSyscall_emits (r : Stop) : s.Emits (s.traceSyscall po o a x r i) := by
  have noted := (notePersonality_speaks po a x s i r.tcb).prints
  unfold traceSyscall
  split
  · dsimp only
    split
    · exact .prints noted
    · split
      · exact .trans (.prints noted) (syscallEnteringTrace_emits po x _ i _)
      · exact .prints (noted.trans (syscallEnteringFailed_speaks po x _ i).prints)
  · split
    · exact .refl s
    · exact .trans (.prints noted) (syscallExitingTrace_emits po x _ i _ _)

theorem detachOrRestart_emits (tracer : Tracer) :
    s.Emits (s.detachOrRestart po o a x tracer i) := by
  unfold detachOrRestart
  split
  · exact .trans (Speaks.ite (ptraceRestartError_speaks x s i)).emits (droptcb_emits po _ i)
  · exact (restartCurrent_speaks a x s i tracer).emits

theorem dispatchSyscallStop_emits (tracer : Tracer) :
    s.Emits (s.dispatchSyscallStop po o a x tracer i) := by
  refine (traceSyscall_emits po o a x s i (tracer.stopOf i 0)).trans ?_
  unfold dispatchSyscallStop
  dsimp only
  split
  · exact .refl _
  · exact (restartCurrent_speaks a x _ i _).emits

theorem dispatchExecve_emits (tracer : Tracer) : s.Emits (s.dispatchExecve po o a x tracer i) := by
  unfold dispatchExecve
  dsimp only
  split
  · exact .trans (.prints (pidChanged_prints s _ _)) <| (switchedTcbs_emits po x s i _ _ _).trans <|
      .trans (.prints (.current _ _)) (detachOrRestart_emits po o a x _ _ _)
  · split
    · split
      · exact traceSyscall_emits po o a x s i _
      · exact (traceSyscall_emits po o a x s i _).trans (detachOrRestart_emits po o a x _ i _)
    · exact detachOrRestart_emits po o a x s i _

theorem dispatchCurrent_emits (tracer : Tracer) (wd : WaitData) :
    s.Emits (s.dispatchCurrent po o a x tracer wd i) := by
  have restarted (u : Output) : u.Emits (u.restartCurrent a x tracer i) :=
    (restartCurrent_speaks a x u i tracer).emits
  unfold dispatchCurrent
  split
  · exact .refl s
  · exact .refl s
  · exact restarted s
  · grind [dispatchSyscallStop_emits]
  · exact dispatchSyscallStop_emits po o a x s i tracer
  · exact .trans (printStopped_speaks po x s i _ _ _).emits (restarted _)
  · exact .trans (printStopped_speaks po x s i _ _ _).emits (restarted _)
  · exact .trans (printSignalled_speaks po x s i _).emits (droptcb_emits po _ i)
  · exact .trans (printExited_speaks po x s i _).emits (droptcb_emits po _ i)
  · exact dispatchExecve_emits po o a x s i tracer
  · exact (printEventExit_emits po x s i _).trans (restarted _)

end

theorem write_grows (s : Output) (ps : List Piece) (stream : Option Stream) (l : Nat) :
    s.logs l <+: (s.write ps stream).logs l := by
  dsimp only [write]
  split
  · exact ⟨ps, rfl⟩
  · exact List.prefix_refl _

theorem Prints.grows (prints : s.Prints s') (l : Nat) : s.logs l <+: s'.logs l := by
  induction prints with
  | trans _ _ first second => exact first.trans second
  | fprintf s i text => exact write_grows s [s.piece i text] (s.tcbs i).outf l
  | _ => exact List.prefix_refl _

theorem Emits.grows (emits : s.Emits s') (l : Nat) : s.logs l <+: s'.logs l := by
  induction emits with
  | trans _ _ first second => exact first.trans second
  | prints prints => exact prints.grows l
  | publish s i data => exact write_grows (s.unstage i data) (s.mems data.mem) data.realOutf l
  | _ => exact List.prefix_refl _

end Output

end Strace
