import ThePipe.OsServices.ProcMgmt.Ownership

/-!
# The child of a failed spawn

What becomes of the child when `spawn` throws.  The clean-up after the pidfd has been opened ends
with the child waited for, unless the wait itself fails.  When `pidfd_open` fails there is no such
clean-up: the call `kill(fork_res, SIGKILL)` is the one for pidfds, and does not reach the child.
-/

set_option autoImplicit false

namespace ThePipe.OsServices.ProcMgmt

open ErrorHandling Lib

/-! ## The phases of a run -/

/-- The parent loses its means to end the child: the pidfd is not opened, or the deleter fails to
wait for the child. -/
def Label.AbandonsChild : Label → Prop
  | .parent (.pidfdOpen (.error _)) | .parent (.unwindWait (some _)) => True
  | _ => False

instance : DecidablePred Label.AbandonsChild := fun l => by
  unfold Label.AbandonsChild; split <;> infer_instance

/-- What is true of the child when an exception leaves `spawn`. -/
def CausePhase (abandoned forked reaped : Prop) (signalled : List Process) : Cause → Prop
  | .pipe _ | .fcntl _ | .eventfd _ | .fork _ =>
    ¬ abandoned ∧ ¬ forked ∧ ¬ reaped ∧ signalled = []
  | .kill _ => abandoned ∧ forked ∧ ¬ reaped ∧ signalled = []
  | .pidfdOpen _ => abandoned ∧ forked ∧ ∃ pid, signalled = [.other pid]
  | .read _ | .wait _ => forked ∧ (reaped ↔ ¬ abandoned) ∧ signalled = [.child]
  | .launch _ => ¬ abandoned ∧ forked ∧ reaped ∧ signalled = []

def Cause.IsLaunch : Cause → Prop
  | .launch _ => True
  | _ => False

/-- What is true of the child, by what the parent does next. -/
def Phase (abandoned forked reaped : Prop) (signalled : List Process) : Parent → Prop
  | .pipe | .fcntl | .eventfd | .fork => ¬ abandoned ∧ ¬ forked ∧ ¬ reaped ∧ signalled = []
  | .closeWriteEnd | .pidfdOpen | .signal | .read | .closeReadEnd _ | .wait _ =>
    ¬ abandoned ∧ forked ∧ ¬ reaped ∧ signalled = []
  | .kill _ => abandoned ∧ forked ∧ ¬ reaped ∧ signalled = []
  | .waitpid _ => abandoned ∧ forked ∧ ¬ reaped ∧ ∃ pid, signalled = [.other pid]
  | .unwind cause =>
    ¬ abandoned ∧ forked ∧ cause.Unwinds ∧ (reaped ↔ cause.IsLaunch) ∧ signalled = []
  | .unwindWait cause =>
    ¬ abandoned ∧ forked ∧ cause.Unwinds ∧ ¬ cause.IsLaunch ∧ ¬ reaped ∧ signalled = [.child]
  | .leave .returned | .left .returned => ¬ abandoned ∧ forked ∧ ¬ reaped ∧ signalled = []
  | .leave (.thrown cause) | .left (.thrown cause) =>
    CausePhase abandoned forked reaped signalled cause

/-- The phase of a state that is reached by the steps `ls`. -/
def State.InPhase (s : State) (ls : List Label) : Prop :=
  Phase (∃ l ∈ ls, l.AbandonsChild) (s.child ≠ .none) (s.child = .reaped) s.signalled s.parent

theorem abandons_append {ls : List Label} {l : Label} :
    (∃ l' ∈ ls ++ [l], l'.AbandonsChild) ↔ (∃ l' ∈ ls, l'.AbandonsChild) ∨ l.AbandonsChild := by
  simp [or_and_right, exists_or]

theorem inPhase_of_childStep {call : Call} {s s' : State} {l : ChildLabel} {ls : List Label}
    (hstep : ChildStep call s l s') (h : s.InPhase ls) : s'.InPhase (ls ++ [.child l]) := by
  obtain ⟨hparent, -, -, hsignalled⟩ := hstep.frame
  have hbefore := hstep.alive
  have hforked := hstep.ne_none
  have hreaped := hstep.ne_reaped
  have habandons : ¬ (Label.child l).AbandonsChild := id
  unfold State.InPhase at h ⊢
  rw [hparent, hsignalled]
  simp only [abandons_append, habandons, or_false, hforked, hreaped, hbefore.1, hbefore.2.2, ne_eq,
    not_false_eq_true] at h ⊢
  exact h

/-- While there is no pidfd of the child, `kill` can only reach another process. -/
theorem killTarget_other {call : Call} {s : State} {err : Errno} {process : Process}
    (h : Ownership call s) (hp : s.parent = .kill err)
    (htarget : s.killTarget = some (.pidfd process)) : ∃ pid, process = .other pid := by
  obtain ⟨entry, hlookup, hfile⟩ := Option.map_eq_some_iff.1 htarget
  have hnull : s.locals.pidfd = -1 := by
    have howners := h.owners
    rw [hp] at howners
    exact howners
  rcases h.frame.lookup_cases hlookup with hmem | hbase
  · rcases mem_own.1 hmem with ⟨hne, -⟩ | ⟨-, -, rfl⟩ | ⟨-, -, rfl⟩ | ⟨-, -, rfl⟩ | ⟨-, -, rfl⟩
    · exact absurd hnull hne
    all_goals cases hfile
  · have houtside := call.lookup_outside hbase
    rw [hfile] at houtside
    cases process with
    | child => exact houtside.elim
    | other pid => exact ⟨pid, rfl⟩

theorem inPhase_of_parentStep {call : Call} {s s' : State} {l : ParentLabel} {ls : List Label}
    (howns : Ownership call s) (hstep : ParentStep s l s') (h : s.InPhase ls) :
    s'.InPhase (ls ++ [.parent l]) := by
  unfold State.InPhase at h ⊢
  rw [abandons_append]
  generalize (∃ l' ∈ ls, l'.AbandonsChild) = abandoned at h ⊢
  cases hstep with
  | kill hp htarget =>
    obtain ⟨pid, rfl⟩ := killTarget_other howns hp htarget
    rw [hp] at h
    obtain ⟨habandoned, hforked, hreaped, hsignalled⟩ := h
    exact ⟨.inl habandoned, hforked, hreaped, pid, by rw [hsignalled]; rfl⟩
  | @unwindReaped cause hp hchild =>
    rw [hp] at h
    obtain ⟨habandoned, hforked, hunwinds, hlaunch, hsignalled⟩ := h
    cases cause with
    | launch => simp_all [Phase, CausePhase, Label.AbandonsChild]
    | _ => exact absurd (hlaunch.1 hchild) id
  | @unwindWait cause hp _ | @unwindWaitFails cause _ hp =>
    rw [hp] at h
    obtain ⟨habandoned, hforked, hunwinds, hlaunch, hreaped, hsignalled⟩ := h
    cases cause with
    | read | wait => simp_all [Phase, CausePhase, Label.AbandonsChild]
    | launch => exact absurd trivial hlaunch
    | _ => exact hunwinds.elim
  | @leave outcome hp =>
    rw [hp] at h
    cases outcome <;> simpa [Phase, Label.AbandonsChild, State.leave] using h
  | interrupted => simpa [Label.AbandonsChild] using h
  | _ => simp_all [Phase, CausePhase, Label.AbandonsChild, Cause.Unwinds, Cause.IsLaunch]

variable {call : Call} {ok : State → Label → Prop} {ls : List Label} {s : State}

theorem Reach.inPhase (h : (spawn call).Reach ok ls s) : s.InPhase ls := by
  refine Reach.spawn_invariant (I := fun ls s => s.InPhase ls) ?_ ?_ ?_ h
  · simp [State.InPhase, State.initial, Phase]
  · intro ls s l s' hreach hphase _ hstep
    exact inPhase_of_parentStep (Reach.ownership hreach) hstep hphase
  · intro ls s l s' _ hphase _ hstep
    exact inPhase_of_childStep hstep hphase

/-! ## Failed spawns -/

theorem Reach.forked (h : (spawn call).Reach ok ls s) :
    (∃ pid, .parent (.fork (.ok pid)) ∈ ls) → s.child ≠ .none := by
  refine Reach.spawn_invariant
    (I := fun ls s => (∃ pid, .parent (.fork (.ok pid)) ∈ ls) → s.child ≠ .none) ?_ ?_ ?_ h
  · rintro ⟨pid, hpid⟩
    cases hpid
  · rintro ls s l s' - ih - hstep ⟨pid, hpid⟩
    rcases hstep.child with hsame | ⟨-, hchild⟩ | hchild
    · rw [hsame]
      rcases List.mem_append.1 hpid with hbefore | hnow
      · exact ih ⟨pid, hbefore⟩
      · obtain rfl : l = .fork (.ok pid) := by simpa [eq_comm] using hnow
        cases hstep
        simp [← hsame]
    · simp [hchild]
    · simp [hchild]
  · rintro ls s l s' - - - hstep -
    exact hstep.ne_none

/-- **A child outlives a failed spawn exactly when the parent has abandoned it.**  When an exception
leaves `spawn` after the fork, the child has been waited for and no other process has been
signalled, if and only if `pidfd_open` has not failed, and neither has the wait of the deleter. -/
theorem childDisposed_iff {cause : Cause} (h : (spawn call).Reach ok ls s)
    (hfork : ∃ pid, .parent (.fork (.ok pid)) ∈ ls) (hleft : s.parent = .left (.thrown cause)) :
    (s.child = .reaped ∧ ∀ process ∈ s.signalled, process = .child) ↔
      ∀ l ∈ ls, ¬ l.AbandonsChild := by
  have hforked := Reach.forked h hfork
  have hphase := Reach.inPhase h
  unfold State.InPhase at hphase
  rw [hleft] at hphase
  simp only [Phase] at hphase
  rw [show (∀ l ∈ ls, ¬ l.AbandonsChild) ↔ ¬ ∃ l ∈ ls, l.AbandonsChild by simp]
  cases cause with
  | pipe | fcntl | eventfd | fork => exact absurd hforked hphase.2.1
  | kill =>
    obtain ⟨habandoned, -, hreaped, -⟩ := hphase
    exact iff_of_false (fun hdisposed => hreaped hdisposed.1) (not_not.2 habandoned)
  | pidfdOpen =>
    obtain ⟨habandoned, -, pid, hsignalled⟩ := hphase
    refine iff_of_false (fun hdisposed => ?_) (not_not.2 habandoned)
    have hother := hdisposed.2 (.other pid) (by simp [hsignalled])
    cases hother
  | read | wait =>
    obtain ⟨-, hreaped, hsignalled⟩ := hphase
    rw [← hreaped, hsignalled]
    simp
  | launch =>
    obtain ⟨habandoned, -, hreaped, hsignalled⟩ := hphase
    exact iff_of_true ⟨hreaped, by simp [hsignalled]⟩ habandoned

/-- The program does not exist: its child is gone. -/
theorem childDisposed_iff_failure :
    ∃ s, (spawn exampleCall).Reach (fun _ _ => True) exampleFailure s ∧
      s.parent = .left (.thrown (.launch ENOENT)) ∧
        s.child = .reaped ∧ ∀ process ∈ s.signalled, process = .child := by
  have hrun : ((spawn exampleCall).run (fun _ _ => True) (.initial exampleCall) exampleFailure).map
      (·.parent) = some (.left (.thrown (.launch ENOENT))) := by decide
  obtain ⟨s, hs, hleft⟩ := Lts.Reach.exists_of_map_run rfl hrun
  exact ⟨s, hs, hleft, (childDisposed_iff hs ⟨100, by decide⟩ hleft).2 (by decide)⟩

def EMFILE : Errno := 24

/-- `pidfd_open` fails: the exception that leaves `spawn` says that a process could not be killed,
and the child still waits for the eventfd, which nobody is left to signal. -/
theorem failed_pidfdOpen_leaves_child :
    ∃ s, (spawn exampleCall).Reach (fun _ _ => True)
        (exampleFork ++ [.parent (.pidfdOpen (.error EMFILE)), .parent (.kill (some EBADF)),
          .parent .leave]) s ∧
      s.parent = .left (.thrown (.kill EBADF)) ∧ s.child = .readEvent ∧ s.event = 0 := by
  have hrun : ((spawn exampleCall).run (fun _ _ => True) (.initial exampleCall)
      (exampleFork ++ [.parent (.pidfdOpen (.error EMFILE)), .parent (.kill (some EBADF)),
        .parent .leave])).map (fun s => (s.parent, s.child, s.event)) =
          some (.left (.thrown (.kill EBADF)), .readEvent, 0) := by decide
  obtain ⟨s, hs, hlast⟩ := Lts.Reach.exists_of_map_run rfl hrun
  simp only [Prod.mk.injEq] at hlast
  exact ⟨s, hs, hlast⟩

end ThePipe.OsServices.ProcMgmt
