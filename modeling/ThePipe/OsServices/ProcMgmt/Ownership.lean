import ThePipe.OsServices.ProcMgmt.Spawn

/-!
# What the parent adds to its descriptors

At every point of a run the descriptor table of the parent is the table of the caller with some
descriptors added: those that the owners among the locals hold, and the read end of the error pipe,
which has no owner once `close_read_end_on_exec` has released it.
-/

set_option autoImplicit false

namespace ThePipe.OsServices.ProcMgmt

open ErrorHandling Lib

/-! ## Owners -/

/-- The entry that an owner stands for, if it is not null. -/
def ownerPart (fd : NativeHandle) (entry : Entry) : List (NativeHandle × Entry) :=
  if fd = -1 then [] else [(fd, entry)]

@[simp] theorem ownerPart_null (entry : Entry) : ownerPart (-1) entry = [] := rfl

theorem ownerPart_of_ne {fd : NativeHandle} (h : fd ≠ -1) (entry : Entry) :
    ownerPart fd entry = [(fd, entry)] :=
  if_neg h

theorem mem_ownerPart {fd : NativeHandle} {entry : Entry} {d : NativeHandle × Entry} :
    d ∈ ownerPart fd entry ↔ fd ≠ -1 ∧ d = (fd, entry) := by
  unfold ownerPart
  split
  · next h => simp [h]
  · next h => simp [h]

section Frame

variable {base t : DescriptorTable} {l₂ : List (NativeHandle × Entry)} {fd : NativeHandle}
  {entry : Entry}

theorem frame_insert_owner (l₁ : List (NativeHandle × Entry)) (h : Frame base (l₁ ++ l₂) t)
    (hfd : t.Fresh fd) :
    Frame base (l₁ ++ (ownerPart fd entry ++ l₂)) (t.insert fd entry) := by
  rw [ownerPart_of_ne hfd.ne_null]
  exact h.insert hfd.1

theorem frame_reset_owner (l₁ : List (NativeHandle × Entry))
    (h : Frame base (l₁ ++ (ownerPart fd entry ++ l₂)) t) :
    Frame base (l₁ ++ l₂) (t.reset fd) := by
  unfold DescriptorTable.reset
  by_cases hfd : fd = -1
  · subst hfd
    simpa using h
  · rw [ownerPart_of_ne hfd] at h
    rw [if_pos hfd]
    exact h.erase

end Frame

/-! ## The descriptors that `spawn` has open -/

/-- The exception leaves the read end of the error pipe open. -/
def Cause.KeepsReadEnd : Cause → Prop
  | .eventfd _ | .fork _ | .kill _ | .pidfdOpen _ | .read _ => True
  | _ => False

instance : DecidablePred Cause.KeepsReadEnd := fun c => by
  unfold Cause.KeepsReadEnd; split <;> infer_instance

/-- The number `exec_err_pipe_read_end` is that of an open descriptor. -/
def Parent.HoldsReadEnd : Parent → Prop
  | .eventfd | .fork | .closeWriteEnd | .pidfdOpen | .kill _ | .waitpid _ | .signal | .read
  | .closeReadEnd _ => True
  | .unwind cause | .unwindWait cause | .leave (.thrown cause) | .left (.thrown cause) =>
    cause.KeepsReadEnd
  | _ => False

instance : DecidablePred Parent.HoldsReadEnd := fun p => by
  unfold Parent.HoldsReadEnd; split <;> infer_instance

/-- The entry of the released read end. -/
def State.releasedReadEnd (s : State) : List (NativeHandle × Entry) :=
  if s.parent.HoldsReadEnd then [(s.locals.execErrPipeReadEnd, ⟨.pipeRead, true⟩)] else []

/-- The entries that `spawn` has added to the table. -/
def State.own (s : State) : List (NativeHandle × Entry) :=
  ownerPart s.locals.pidfd ⟨.pidfd .child, true⟩ ++
    (ownerPart s.locals.parentReadyFd ⟨.event, false⟩ ++
      (ownerPart s.locals.writeEnd ⟨.pipeWrite, false⟩ ++
        (ownerPart s.locals.readEnd ⟨.pipeRead, false⟩ ++ s.releasedReadEnd)))

/-- The exception is thrown when the owner of the pidfd exists. -/
def Cause.Unwinds : Cause → Prop
  | .read _ | .wait _ | .launch _ => True
  | _ => False

theorem mem_own {s : State} {fd : NativeHandle} {entry : Entry} :
    (fd, entry) ∈ s.own ↔
      (s.locals.pidfd ≠ -1 ∧ fd = s.locals.pidfd ∧ entry = ⟨.pidfd .child, true⟩) ∨
        (s.locals.parentReadyFd ≠ -1 ∧ fd = s.locals.parentReadyFd ∧ entry = ⟨.event, false⟩) ∨
          (s.locals.writeEnd ≠ -1 ∧ fd = s.locals.writeEnd ∧ entry = ⟨.pipeWrite, false⟩) ∨
            (s.locals.readEnd ≠ -1 ∧ fd = s.locals.readEnd ∧ entry = ⟨.pipeRead, false⟩) ∨
              (s.parent.HoldsReadEnd ∧ fd = s.locals.execErrPipeReadEnd ∧
                entry = ⟨.pipeRead, true⟩) := by
  have hreleased : (fd, entry) ∈ s.releasedReadEnd ↔ s.parent.HoldsReadEnd ∧
      fd = s.locals.execErrPipeReadEnd ∧ entry = ⟨.pipeRead, true⟩ := by
    unfold State.releasedReadEnd
    split <;> simp_all
  simp only [State.own, List.mem_append, mem_ownerPart, hreleased, Prod.mk.injEq]

/-- The owner of the pidfd when the other locals are destroyed. -/
def OutcomeOwner (l : Locals) : Outcome → Prop
  | .returned => l.pidfd ≠ -1
  | .thrown cause => ¬ cause.Unwinds → l.pidfd = -1

/-- Which owners are null, by what the parent does next. -/
def OwnersAt (l : Locals) : Parent → Prop
  | .pipe => l.writeEnd = -1 ∧ l.readEnd = -1 ∧ l.parentReadyFd = -1 ∧ l.pidfd = -1
  | .fcntl => IsDescriptor l.writeEnd ∧ l.readEnd ≠ -1 ∧ l.parentReadyFd = -1 ∧ l.pidfd = -1
  | .eventfd => IsDescriptor l.writeEnd ∧ l.readEnd = -1 ∧ l.parentReadyFd = -1 ∧ l.pidfd = -1
  | .fork => IsDescriptor l.writeEnd ∧ l.readEnd = -1 ∧ l.parentReadyFd ≠ -1 ∧ l.pidfd = -1
  | .closeWriteEnd | .pidfdOpen | .kill _ | .waitpid _ => l.pidfd = -1
  | .signal | .read | .closeReadEnd _ | .wait _ => l.pidfd ≠ -1
  | .unwind cause | .unwindWait cause => cause.Unwinds ∧ l.pidfd ≠ -1
  | .leave outcome => OutcomeOwner l outcome
  | .left outcome =>
    l.writeEnd = -1 ∧ l.readEnd = -1 ∧ l.parentReadyFd = -1 ∧ OutcomeOwner l outcome

/-- The table of the parent is that of the caller and what the locals hold. -/
structure Ownership (call : Call) (s : State) : Prop where
  frame : Frame call.table s.own s.table
  owners : OwnersAt s.locals s.parent

theorem ownership_initial (call : Call) : Ownership call (.initial call) :=
  ⟨Frame.refl call.table, rfl, rfl, rfl, rfl⟩

theorem Ownership.childStep {call : Call} {s s' : State} {l : ChildLabel} (h : Ownership call s)
    (hstep : ChildStep call s l s') : Ownership call s' := by
  obtain ⟨hparent, htable, hlocals, -⟩ := hstep.frame
  have hown : s'.own = s.own := by
    unfold State.own State.releasedReadEnd
    rw [hparent, hlocals]
  refine ⟨?_, ?_⟩
  · rw [hown, htable]
    exact h.frame
  · rw [hparent, hlocals]
    exact h.owners

theorem OwnersAt.parentStep {s s' : State} {l : ParentLabel} (h : OwnersAt s.locals s.parent)
    (hstep : ParentStep s l s') : OwnersAt s'.locals s'.parent := by
  cases hstep with
  | pipe hp hread hwrite =>
    rw [hp] at h
    exact ⟨hwrite.2, hread.ne_null, h.2.2⟩
  | fcntl hp =>
    rw [hp] at h
    exact ⟨h.1, rfl, h.2.2⟩
  | eventfd hp hfd =>
    rw [hp] at h
    exact ⟨h.1, h.2.1, hfd.ne_null, h.2.2.2⟩
  | fork hp =>
    rw [hp] at h
    exact h.2.2.2
  | pidfdOpen hp hfd => exact hfd.ne_null
  | unwindWait | unwindWaitFails => exact fun _ => rfl
  | leave hp =>
    rw [hp] at h
    exact ⟨rfl, rfl, rfl, h⟩
  | interrupted => exact h
  | _ => simp_all [OwnersAt, OutcomeOwner, Cause.Unwinds]

theorem frame_of_eq {call : Call} {s s' : State} (h : Frame call.table s.own s.table)
    (htable : s'.table = s.table) (hlocals : s'.locals = s.locals)
    (hread : s'.parent.HoldsReadEnd ↔ s.parent.HoldsReadEnd) :
    Frame call.table s'.own s'.table := by
  have hown : s'.own = s.own := by
    unfold State.own State.releasedReadEnd
    simp only [hlocals, hread]
  rw [hown, htable]
  exact h

/-- The release of the read end: it is marked, and has no owner any more. -/
theorem frame_setCloexec {base t : DescriptorTable} {l : List (NativeHandle × Entry)}
    {fd : NativeHandle} (h : Frame base (l ++ [(fd, ⟨.pipeRead, false⟩)]) t) :
    Frame base (l ++ [(fd, ⟨.pipeRead, true⟩)]) (t.setCloexec fd) := by
  have hlookup : t.lookup fd = some ⟨.pipeRead, false⟩ := h.lookup_own (by simp)
  unfold DescriptorTable.setCloexec
  rw [hlookup]
  exact h.replace

theorem Ownership.parentStep {call : Call} {s s' : State} {l : ParentLabel} (h : Ownership call s)
    (hstep : ParentStep s l s') : Ownership call s' := by
  refine ⟨?_, h.owners.parentStep hstep⟩
  have hframe := h.frame
  have howners := h.owners
  have hsame : s'.table = s.table → s'.locals = s.locals →
      (s'.parent.HoldsReadEnd ↔ s.parent.HoldsReadEnd) → Frame call.table s'.own s'.table :=
    frame_of_eq hframe
  unfold State.own State.releasedReadEnd at hframe ⊢
  cases hstep with
  | pipe hp hread hwrite =>
    rw [hp] at howners
    obtain ⟨hw, hr, -, -⟩ := howners
    simp only [hp, hw, hr, Parent.HoldsReadEnd, if_false, ownerPart_null, List.nil_append]
      at hframe ⊢
    rw [← List.append_assoc] at hframe ⊢
    exact frame_insert_owner _ (frame_insert_owner _ hframe hread) hwrite
  | fcntl hp =>
    rw [hp] at howners
    simp only [hp, Parent.HoldsReadEnd, if_false, ownerPart_of_ne howners.2.1, ownerPart_null,
      List.nil_append, List.append_nil] at hframe ⊢
    simp only [← List.append_assoc] at hframe ⊢
    -- the read end is released: its entry goes from the owner to the number
    exact frame_setCloexec hframe
  | eventfd hp hfd =>
    rw [hp] at howners
    simp only [hp, howners.2.2.1, Parent.HoldsReadEnd, ownerPart_null, List.nil_append] at hframe ⊢
    exact frame_insert_owner _ hframe hfd
  | closeWriteEnd hp =>
    simp only [hp, Parent.HoldsReadEnd, ownerPart_null, List.nil_append] at hframe ⊢
    rw [← List.append_assoc] at hframe ⊢
    exact frame_reset_owner _ hframe
  | pidfdOpen hp hfd =>
    rw [hp] at howners
    have hnull : s.locals.pidfd = -1 := howners
    simp only [hp, hnull, Parent.HoldsReadEnd, ownerPart_null] at hframe ⊢
    exact frame_insert_owner [] hframe hfd
  | closeReadEndErrno hp | closeReadEndEof hp =>
    simp only [hp, Parent.HoldsReadEnd, if_true] at hframe ⊢
    simp only [← List.append_assoc] at hframe ⊢
    exact hframe.erase
  | unwindWait hp | unwindWaitFails hp =>
    simp only [hp, Parent.HoldsReadEnd, ownerPart_null, List.nil_append] at hframe ⊢
    exact frame_reset_owner [] hframe
  | leave hp =>
    -- the destructors, of the last local first
    have hread : ∀ outcome,
        (Parent.left outcome).HoldsReadEnd = (Parent.leave outcome).HoldsReadEnd := by
      rintro (_ | _) <;> rfl
    simp only [State.leave, hp, hread, ownerPart_null, List.nil_append] at hframe ⊢
    exact frame_reset_owner _ (frame_reset_owner _ (frame_reset_owner _ hframe))
  | interrupted => exact hframe
  | fork hp =>
    simp only [hp, Parent.HoldsReadEnd] at hframe ⊢
    exact hframe
  | _ =>
    refine hsame rfl rfl ?_
    simp_all [Parent.HoldsReadEnd, Cause.KeepsReadEnd]

variable {call : Call} {ok : State → Label → Prop} {ls : List Label} {s : State}

theorem Reach.ownership (h : (spawn call).Reach ok ls s) : Ownership call s := by
  refine Reach.spawn_invariant (I := fun _ s => Ownership call s) ?_ ?_ ?_ h
  · exact ownership_initial call
  · intro ls s l s' _ howns _ hstep
    exact howns.parentStep hstep
  · intro ls s l s' _ howns _ hstep
    exact howns.childStep hstep

theorem Call.lookup_outside {fd : NativeHandle} {entry : Entry}
    (h : call.table.lookup fd = some entry) : entry.file.Outside :=
  call.outside ⟨fd, entry⟩ (AList.mem_lookup_iff.1 h)

end ThePipe.OsServices.ProcMgmt
