import ThePipe.OsServices.ProcMgmt.Cleanup

/-!
# The descriptors of the caller

Whether the caller of `spawn` is left with the descriptors it had.  Two descriptors get lost: the
read end of the error pipe, which only the code after a successful read closes, and the pidfd of a
child that has been waited for, which the deleter does not close because the child cannot be
signalled any more.
-/

set_option autoImplicit false

namespace ThePipe.OsServices.ProcMgmt

open ErrorHandling Lib

/-! ## What makes a run lose a descriptor -/

/-- The call has an outcome after which `spawn` throws without closing all it has opened. -/
def Label.LosesDescriptor : Label → Prop
  | .parent (.eventfd (.error _)) | .parent (.fork (.error _)) | .parent (.pidfdOpen (.error _))
  | .parent (.readFails _) | .parent (.wait none) => True
  | _ => False

instance : DecidablePred Label.LosesDescriptor
  | .parent (.eventfd (.error _)) | .parent (.fork (.error _)) | .parent (.pidfdOpen (.error _))
  | .parent (.readFails _) | .parent (.wait none) => isTrue trivial
  | .child _ | .parent (.pipe _) | .parent (.fcntl _) | .parent (.eventfd (.ok _))
  | .parent (.fork (.ok _)) | .parent .closeWriteEnd | .parent (.pidfdOpen (.ok _))
  | .parent (.kill _) | .parent (.waitpid _) | .parent (.signal _) | .parent .interrupted
  | .parent .readErrno | .parent .readEof | .parent .closeReadEnd | .parent (.wait (some _))
  | .parent .unwind | .parent (.unwindWait _) | .parent .leave => isFalse id

/-- What remains open when the exception leaves `spawn`. -/
def Cause.LosesDescriptor (cause : Cause) : Prop := cause.KeepsReadEnd ∨ cause.IsLaunch

/-- The run is bound to lose a descriptor. -/
def Parent.LosesDescriptor : Parent → Prop
  | .kill _ | .waitpid _ => True
  | .unwind cause | .unwindWait cause | .leave (.thrown cause) | .left (.thrown cause) =>
    cause.LosesDescriptor
  | _ => False

theorem losesDescriptor_append {ls : List Label} {l : Label} :
    (∃ l' ∈ ls ++ [l], l'.LosesDescriptor) ↔
      (∃ l' ∈ ls, l'.LosesDescriptor) ∨ l.LosesDescriptor := by
  simp [or_and_right, exists_or]

theorem ParentStep.losesDescriptor {s s' : State} {l : ParentLabel} (hstep : ParentStep s l s') :
    s'.parent.LosesDescriptor ↔
      s.parent.LosesDescriptor ∨ (Label.parent l).LosesDescriptor := by
  cases hstep with
  | @leave outcome hp =>
    rw [hp]
    cases outcome <;> simp [State.leave, Parent.LosesDescriptor, Label.LosesDescriptor]
  | interrupted => simp [Label.LosesDescriptor]
  | _ =>
    simp_all [Parent.LosesDescriptor, Label.LosesDescriptor, Cause.LosesDescriptor,
      Cause.KeepsReadEnd, Cause.IsLaunch]

variable {call : Call} {ok : State → Label → Prop} {ls : List Label} {s : State}

/-- A run is bound to lose a descriptor from the step on that is to blame. -/
theorem Reach.losesDescriptor (h : (spawn call).Reach ok ls s) :
    s.parent.LosesDescriptor ↔ ∃ l ∈ ls, l.LosesDescriptor := by
  refine Reach.spawn_invariant
    (I := fun ls s => s.parent.LosesDescriptor ↔ ∃ l ∈ ls, l.LosesDescriptor) ?_ ?_ ?_ h
  · simp [State.initial, Parent.LosesDescriptor]
  · intro ls s l s' _ ih _ hstep
    rw [losesDescriptor_append, ← ih]
    exact hstep.losesDescriptor
  · intro ls s l s' _ ih _ hstep
    rw [losesDescriptor_append, ← ih, hstep.frame.1]
    simp [Label.LosesDescriptor]

/-! ## The pidfd -/

/-- Of the exceptions thrown while the owner of the pidfd exists, only the launch failure leaves
the pidfd open. -/
def PidfdAt (l : Locals) : Parent → Prop
  | .leave (.thrown cause) | .left (.thrown cause) =>
    cause.Unwinds → (l.pidfd ≠ -1 ↔ cause.IsLaunch)
  | _ => True

theorem Reach.pidfdAt (h : (spawn call).Reach ok ls s) : PidfdAt s.locals s.parent := by
  refine Reach.spawn_invariant (I := fun _ s => PidfdAt s.locals s.parent) trivial ?_ ?_ h
  · intro ls s l s' hreach ih _ hstep
    have hphase := Reach.inPhase hreach
    have howners := (Reach.ownership hreach).owners
    unfold State.InPhase at hphase
    cases hstep with
    | unwindReaped hp hchild =>
      rw [hp] at hphase howners
      exact fun _ => iff_of_true howners.2 (hphase.2.2.2.1.1 hchild)
    | unwindWait hp | unwindWaitFails hp =>
      rw [hp] at hphase
      exact fun _ => iff_of_false (not_not.2 rfl) hphase.2.2.2.1
    | @leave outcome hp =>
      rw [hp] at ih
      cases outcome with
      | returned => trivial
      | thrown cause => exact ih
    | interrupted => exact ih
    | _ => first | trivial | exact fun hunwinds => hunwinds.elim
  · intro ls s l s' _ ih _ hstep
    obtain ⟨hparent, -, hlocals, -⟩ := hstep.frame
    rwa [hparent, hlocals]

/-! ## The descriptors at the end -/

/-- What `spawn` is to leave behind: the descriptors that were there before, and the pidfd when it
returns one. -/
def State.Conserves (s : State) (call : Call) : Prop :=
  ∀ fd, fd ∈ s.table ↔ fd ∈ call.table ∨ s.parent = .left .returned ∧ fd = s.locals.pidfd

/-- When all owners but that of the pidfd are null, the only descriptors added are the pidfd and the
released read end. -/
theorem Ownership.mem_table (h : Ownership call s) {outcome : Outcome}
    (hleft : s.parent = .left outcome) (fd : NativeHandle) :
    fd ∈ s.table ↔ fd ∈ call.table ∨ (s.locals.pidfd ≠ -1 ∧ fd = s.locals.pidfd) ∨
      s.parent.HoldsReadEnd ∧ fd = s.locals.execErrPipeReadEnd := by
  have howners := h.owners
  rw [hleft] at howners
  obtain ⟨hwrite, hread, hevent, -⟩ := howners
  have hkeys : fd ∈ s.own.map Prod.fst ↔ ∃ entry, (fd, entry) ∈ s.own := by simp
  rw [h.frame.mem_iff, hkeys]
  refine or_congr_right ?_
  simp only [mem_own, hwrite, hread, hevent, ne_eq, not_true_eq_false, false_and, false_or,
    exists_or, exists_and_left, exists_eq, and_true]

theorem Ownership.notMem_table (h : Ownership call s) {fd : NativeHandle} {entry : Entry}
    (hmem : (fd, entry) ∈ s.own) : fd ∉ call.table := by
  rw [← AList.lookup_eq_none]
  exact h.frame.fresh _ hmem

theorem State.not_conserves {cause : Cause} {fd : NativeHandle}
    (hleft : s.parent = .left (.thrown cause)) (hopen : fd ∈ s.table) (hnew : fd ∉ call.table) :
    ¬ s.Conserves call := by
  intro hconserves
  rcases (hconserves fd).1 hopen with hbefore | ⟨hreturned, -⟩
  · exact hnew hbefore
  · rw [hleft] at hreturned
    cases hreturned

/-- **`spawn` conserves the descriptors of its caller exactly when no step is to blame**: when it
returns or throws, the open descriptors are those from before and the returned pidfd, if and only
if the eventfd could be made, the fork and `pidfd_open` have succeeded, reading the error pipe has
not failed, and no child that reported an error has been waited for. -/
theorem conserves_iff {outcome : Outcome} (h : (spawn call).Reach ok ls s)
    (hleft : s.parent = .left outcome) :
    s.Conserves call ↔ ∀ l ∈ ls, ¬ l.LosesDescriptor := by
  have howns := Reach.ownership h
  have howners := howns.owners
  have hpidfd := Reach.pidfdAt h
  have hloses := Reach.losesDescriptor h
  have hblame : (∀ l ∈ ls, ¬ l.LosesDescriptor) ↔ ¬ ∃ l ∈ ls, l.LosesDescriptor := by simp
  have hmem := howns.mem_table hleft
  rw [hblame, ← hloses]
  rw [hleft] at howners hpidfd hmem
  obtain ⟨-, -, -, houtcome⟩ := howners
  cases outcome with
  | returned =>
    have hnull : s.locals.pidfd ≠ -1 := houtcome
    rw [hleft]
    refine iff_of_true (fun fd => ?_) id
    simp [hmem, hnull, hleft, Parent.HoldsReadEnd]
  | thrown cause =>
    constructor
    · intro hconserves hlost
      rw [hleft] at hlost
      rcases hlost with hkeeps | hlaunch
      · -- the read end is open, and was not before
        have hown : (s.locals.execErrPipeReadEnd, (⟨.pipeRead, true⟩ : Entry)) ∈ s.own :=
          mem_own.2 (.inr (.inr (.inr (.inr ⟨by rw [hleft]; exact hkeeps, rfl, rfl⟩))))
        have hopen := (hmem s.locals.execErrPipeReadEnd).2 (.inr (.inr ⟨hkeeps, rfl⟩))
        exact State.not_conserves hleft hopen (howns.notMem_table hown) hconserves
      · -- the pidfd is open, and was not before
        have hunwinds : cause.Unwinds := by
          cases cause with
          | launch => trivial
          | _ => exact hlaunch.elim
        have hnull := (hpidfd hunwinds).2 hlaunch
        have hown : (s.locals.pidfd, (⟨.pidfd .child, true⟩ : Entry)) ∈ s.own :=
          mem_own.2 (.inl ⟨hnull, rfl, rfl⟩)
        have hopen := (hmem s.locals.pidfd).2 (.inr (.inl ⟨hnull, rfl⟩))
        exact State.not_conserves hleft hopen (howns.notMem_table hown) hconserves
    · intro hnone fd
      rw [hleft] at hnone
      obtain ⟨hkeeps, hlaunch⟩ := not_or.1 hnone
      have hnull : s.locals.pidfd = -1 := by
        by_cases hunwinds : cause.Unwinds
        · exact not_not.1 (mt (hpidfd hunwinds).1 hlaunch)
        · exact houtcome hunwinds
      have hread : ¬ (Parent.left (.thrown cause)).HoldsReadEnd := hkeeps
      simp [hmem, hnull, hread, hleft]

/-- The program is executed: the caller has one descriptor more, the pidfd. -/
theorem conserves_iff_success :
    ∃ s, (spawn exampleCall).Reach (fun _ _ => True) exampleSuccess s ∧
      s.parent = .left .returned ∧ s.Conserves exampleCall := by
  have hrun : ((spawn exampleCall).run (fun _ _ => True) (.initial exampleCall) exampleSuccess).map
      (·.parent) = some (.left .returned) := by decide
  obtain ⟨s, hs, hleft⟩ := Lts.Reach.exists_of_map_run rfl hrun
  exact ⟨s, hs, hleft, (conserves_iff hs hleft).2 (by decide)⟩

/-- The program does not exist: the pidfd 4 of its child stays open.  The eventfd cannot be made:
the read end 3 of the error pipe stays open. -/
theorem failed_spawn_loses_descriptor :
    (∃ s, (spawn exampleCall).Reach (fun _ _ => True) exampleFailure s ∧
        s.parent = .left (.thrown (.launch ENOENT)) ∧ ¬ s.Conserves exampleCall) ∧
      ∃ s, (spawn exampleCall).Reach (fun _ _ => True)
          [.parent (.pipe (.ok (3, 4))), .parent (.fcntl none),
            .parent (.eventfd (.error EMFILE)), .parent .leave] s ∧
        s.parent = .left (.thrown (.eventfd EMFILE)) ∧ ¬ s.Conserves exampleCall := by
  constructor
  · have hrun : ((spawn exampleCall).run (fun _ _ => True) (.initial exampleCall)
        exampleFailure).map (fun s => (s.parent, decide (4 ∈ s.table))) =
          some (.left (.thrown (.launch ENOENT)), true) := by decide
    obtain ⟨s, hs, hlast⟩ := Lts.Reach.exists_of_map_run rfl hrun
    simp only [Prod.mk.injEq, decide_eq_true_eq] at hlast
    exact ⟨s, hs, hlast.1, State.not_conserves hlast.1 hlast.2 (by decide)⟩
  · have hrun : ((spawn exampleCall).run (fun _ _ => True) (.initial exampleCall)
        [.parent (.pipe (.ok (3, 4))), .parent (.fcntl none),
          .parent (.eventfd (.error EMFILE)), .parent .leave]).map
          (fun s => (s.parent, decide (3 ∈ s.table))) =
            some (.left (.thrown (.eventfd EMFILE)), true) := by decide
    obtain ⟨s, hs, hlast⟩ := Lts.Reach.exists_of_map_run rfl hrun
    simp only [Prod.mk.injEq, decide_eq_true_eq] at hlast
    exact ⟨s, hs, hlast.1, State.not_conserves hlast.1 hlast.2 (by decide)⟩

end ThePipe.OsServices.ProcMgmt
