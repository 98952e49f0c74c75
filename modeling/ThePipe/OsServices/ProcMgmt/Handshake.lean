import ThePipe.OsServices.ProcMgmt.Cleanup
import ThePipe.OsServices.ProcMgmt.Inherit

/-!
# The handshake

The parent and the child of a spawn, in any order of their steps.  The child does nothing to its
descriptors before the parent has a pidfd and has signalled the eventfd; the parent takes the end of
the error pipe for success only when the program is executed, and reports the error number of the
call that has failed otherwise.

The argument is about who can write to the pipe.  Until the child has written its error number it
has the write end, so that there is no end of the file; `execve` closes the write end, so that the
program cannot write to the pipe.
-/

set_option autoImplicit false

namespace ThePipe.OsServices.ProcMgmt

open ErrorHandling Lib Utils

/-! ## Errors of the child -/

/-- The error number of a failed `dup2` or `execve`. -/
def Label.launchError : Label → Option Errno
  | .child (.dup2 failure) => failure
  | .child (.execve failure) => failure
  | _ => none

/-- The error number of the first call that has failed in the child. -/
def launchError (ls : List Label) : Option Errno := ls.findSome? Label.launchError

theorem launchError_append (ls : List Label) (l : Label) :
    launchError (ls ++ [l]) = (launchError ls).or l.launchError := by
  simp [launchError, List.findSome?_append]

def Executed (ls : List Label) : Prop := Label.child (.execve none) ∈ ls

/-- The calls of the child that must wait for the parent. -/
def ChildLabel.IsLaunch : ChildLabel → Prop
  | .dup2 _ | .execve _ => True
  | _ => False

/-! ## Where the two processes are -/

/-- The child is on its way to `execve`, or there is none yet. -/
def Child.Working : Child → Prop
  | .none | .readEvent | .closeEvent | .closeReadEnd | .dup2 _ | .closeRange _ | .execve => True
  | _ => False

def Child.Released : Child → Prop
  | .closeEvent | .closeReadEnd | .dup2 _ | .closeRange _ | .execve => True
  | _ => False

/-- The child has written its error number, or has ended. -/
def Child.Done : Child → Prop
  | .closeWriteEnd | .exit | .zombie => True
  | _ => False

theorem Child.atCloseRange_working (todo : List (InclusiveIntegralRange 32)) :
    (Child.atCloseRange todo).Working ∧ (Child.atCloseRange todo).Released := by
  cases todo <;> exact ⟨trivial, trivial⟩

theorem Child.atDup2_working (call : Call) (todo : List (NativeHandle × NativeHandle)) :
    (Child.atDup2 call todo).Working ∧ (Child.atDup2 call todo).Released := by
  cases todo with
  | nil => exact Child.atCloseRange_working _
  | cons => exact ⟨trivial, trivial⟩

def Parent.HasPidfd : Parent → Prop
  | .signal | .read | .closeReadEnd _ | .wait _ | .unwind _ | .unwindWait _ => True
  | .leave .returned | .left .returned => True
  | .leave (.thrown cause) | .left (.thrown cause) => cause.Unwinds
  | _ => False

/-- The parent has not learnt yet how the child fares. -/
def Parent.AwaitsReport : Parent → Prop
  | .closeWriteEnd | .pidfdOpen | .signal | .read => True
  | _ => False

/-- The error number that the parent has read. -/
def Cause.report : Cause → Option Errno
  | .launch err => some err
  | _ => none

def Parent.report : Parent → Option Errno
  | .closeReadEnd childErrno => childErrno
  | .wait childErrno => some childErrno
  | .unwind cause | .unwindWait cause | .leave (.thrown cause) | .left (.thrown cause) =>
    cause.report
  | _ => none

/-- The parent has read the end of the file. -/
def Parent.SawEof : Parent → Prop
  | .closeReadEnd none | .leave .returned | .left .returned => True
  | _ => False

/-! ## What the steps of the child do -/

section ChildSteps

variable {call : Call} {s s' : State} {l : ChildLabel}

theorem ChildStep.released (h : ChildStep call s l s') (hreleased : s'.child.Released) :
    s.child.Released ∨ 0 < s.event := by
  cases h with
  | readEvent hc hevent => exact .inr hevent
  | interrupted => exact .inl hreleased
  | act hc =>
    simp only [hc] at hreleased
    exact hreleased.elim
  | closeEvent hc | closeReadEnd hc | dup2 hc | closeRange hc | closeRangeFails hc =>
    left
    rw [hc]
    trivial
  | _ => exact hreleased.elim

theorem ChildStep.event (h : ChildStep call s l s') : s'.event ≤ s.event := by
  cases h with
  | readEvent => exact Nat.zero_le _
  | _ => exact le_rfl

theorem ChildStep.working (h : ChildStep call s l s') (hworking : s'.child.Working) :
    s.child.Working ∧ (Label.child l).launchError = none := by
  cases h with
  | interrupted => exact ⟨hworking, rfl⟩
  | act hc =>
    simp only [hc] at hworking
    exact hworking.elim
  | readEvent hc | closeEvent hc | closeReadEnd hc | dup2 hc | closeRange hc
  | closeRangeFails hc =>
    rw [hc]
    exact ⟨trivial, rfl⟩
  | _ => exact hworking.elim

theorem ChildStep.failing (h : ChildStep call s l s') {err : Errno} (hfail : s'.child = .fail err) :
    s.child = .fail err ∨ s.child.Working ∧ (Label.child l).launchError = some err := by
  have hnot : ∀ c : Child, c.Working → c ≠ .fail err := by
    rintro c hc rfl
    exact hc
  cases h with
  | interrupted => exact .inl hfail
  | act hc => exact .inl hfail
  | dup2Fails hc | execveFails hc =>
    cases hfail
    rw [hc]
    exact .inr ⟨trivial, rfl⟩
  | closeReadEnd | dup2 => exact absurd hfail (hnot _ (Child.atDup2_working _ _).1)
  | closeRange | closeRangeFails => exact absurd hfail (hnot _ (Child.atCloseRange_working _).1)
  | _ => cases hfail

theorem ChildStep.launchError (h : ChildStep call s l s') {err : Errno}
    (herr : (Label.child l).launchError = some err) : s.child.Working ∧ s'.child = .fail err := by
  cases h with
  | dup2Fails hc | execveFails hc =>
    cases herr
    rw [hc]
    exact ⟨trivial, rfl⟩
  | _ => cases herr

theorem ChildStep.executed (h : ChildStep call s (.execve none) s') :
    s.child.Working ∧ ∃ image, s'.child = .program image := by
  cases h with
  | execve hc =>
    rw [hc]
    exact ⟨trivial, _, rfl⟩

theorem ChildStep.program (h : ChildStep call s l s') {image : Image}
    (hprogram : s'.child = .program image) : s.child = .program image ∨ l = .execve none := by
  have hnot : ∀ c : Child, c.Working → c ≠ .program image := by
    rintro c hc rfl
    exact hc
  cases h with
  | execve => exact .inr rfl
  | interrupted | act => exact .inl hprogram
  | closeReadEnd | dup2 => exact absurd hprogram (hnot _ (Child.atDup2_working _ _).1)
  | closeRange | closeRangeFails =>
    exact absurd hprogram (hnot _ (Child.atCloseRange_working _).1)
  | _ => cases hprogram

theorem ChildStep.piped (h : ChildStep call s l s') (hprepared : call.Prepared)
    (htable : TableAt call s.childLocals s.childTable s.child) :
    s'.execErrPipe = s.execErrPipe ∨
      ∃ err, s.child = .fail err ∧ s'.execErrPipe = s.execErrPipe ++ [err] := by
  cases h with
  | writeErrno hc => exact .inr ⟨_, hc, rfl⟩
  | act hc _ hwritten =>
    rw [hc] at htable
    left
    rcases hwritten with rfl | hwriter
    · exact List.append_nil _
    · exact absurd hwriter (htable hprepared)
  | _ => exact .inl rfl

theorem ChildStep.done (h : ChildStep call s l s') (hprepared : call.Prepared)
    (htable : TableAt call s.childLocals s.childTable s.child) (hl : l ≠ .killed)
    (hdone : s'.child.Done) :
    s.child.Done ∨ s'.execErrPipe ≠ [] ∨ ∃ image, s.child = .program image := by
  have hnot : ∀ c : Child, c.Working → ¬ c.Done := by
    intro c hc hd
    cases c <;> trivial
  cases h with
  | interrupted => exact .inl hdone
  | act hc => exact .inr (.inr ⟨_, hc⟩)
  | writeErrno => exact .inr (.inl (by simp))
  | writeElsewhere hc hfile =>
    rw [hc] at htable
    exact absurd (htable hprepared) hfile
  | closeWriteEnd hc =>
    rw [hc]
    exact .inl trivial
  | exit hc =>
    rcases hc with hc | ⟨image, hc⟩
    · rw [hc]
      exact .inl trivial
    · exact .inr (.inr ⟨image, hc⟩)
  | killed => exact absurd rfl hl
  | closeReadEnd | dup2 => exact absurd hdone (hnot _ (Child.atDup2_working _ _).1)
  | closeRange | closeRangeFails => exact absurd hdone (hnot _ (Child.atCloseRange_working _).1)
  | _ => exact hdone.elim

end ChildSteps

/-! ## What the steps of the parent do -/

section ParentSteps

variable {call : Call} {s s' : State} {l : ParentLabel}

theorem ParentStep.hasPidfd (h : ParentStep s l s') (howns : Ownership call s)
    (hpidfd : s.parent.HasPidfd) : s'.parent.HasPidfd := by
  have howners := howns.owners
  cases h with
  | unwindReaped hp | unwindWait hp | unwindWaitFails hp =>
    rw [hp] at howners
    exact howners.1
  | @leave outcome hp =>
    rw [hp] at hpidfd
    cases outcome <;> exact hpidfd
  | interrupted => exact hpidfd
  | _ => simp_all [Parent.HasPidfd]

theorem ParentStep.opened (h : ParentStep s l s') (hpidfd : s'.parent.HasPidfd) :
    s.parent.HasPidfd ∨ ∃ fd, l = .pidfdOpen (.ok fd) := by
  cases h with
  | pidfdOpen => exact .inr ⟨_, rfl⟩
  | @leave outcome hp =>
    left
    rw [hp]
    cases outcome <;> exact hpidfd
  | interrupted => exact .inl hpidfd
  | _ => simp_all [Parent.HasPidfd, Cause.Unwinds]

theorem ParentStep.report (h : ParentStep s l s') {err : Errno}
    (hreport : s'.parent.report = some err) :
    s.parent.report = some err ∨ err ∈ s.execErrPipe := by
  cases h with
  | readErrno hp hpipe =>
    cases hreport
    exact .inr (by simp [hpipe])
  | @leave outcome hp =>
    left
    rw [hp]
    cases outcome <;> exact hreport
  | interrupted => exact .inl hreport
  | _ => simp_all [Parent.report, Cause.report]

theorem ParentStep.sawEof (h : ParentStep s l s') (heof : s'.parent.SawEof) :
    s.parent.SawEof ∨ l = .readEof := by
  cases h with
  | readEof => exact .inr rfl
  | @leave outcome hp =>
    left
    rw [hp]
    cases outcome <;> exact heof
  | interrupted => exact .inl heof
  | _ => simp_all [Parent.SawEof]

theorem ParentStep.piped (h : ParentStep s l s') {err : Errno} (herr : err ∈ s'.execErrPipe) :
    err ∈ s.execErrPipe := by
  cases h with
  | readErrno hp hpipe =>
    rw [hpipe]
    exact List.mem_cons_of_mem _ herr
  | _ => exact herr

theorem ParentStep.event (h : ParentStep s l s') (hevent : 0 < s'.event) :
    0 < s.event ∨ l = .signal none := by
  cases h with
  | signal => exact .inr rfl
  | _ => exact .inl hevent

/-- What is true of the child after a step of the parent was so before, unless it is about a child
that has just been forked or waited for. -/
theorem ParentStep.child_before (h : ParentStep s l s') {P : Child → Prop}
    (hforked : ¬ P .readEvent) (hreaped : ¬ P .reaped) (hP : P s'.child) : P s.child := by
  rcases h.child with hsame | ⟨-, hchild⟩ | hchild
  · rwa [hsame] at hP
  · rw [hchild] at hP
    exact absurd hP hforked
  · rw [hchild] at hP
    exact absurd hP hreaped

theorem ParentStep.awaits (h : ParentStep s l s') (hawaits : s'.parent.AwaitsReport) :
    s'.child = .readEvent ∨
      s.parent.AwaitsReport ∧ s'.child = s.child ∧ s'.execErrPipe = s.execErrPipe := by
  cases h with
  | fork => exact .inl rfl
  | interrupted => exact .inr ⟨hawaits, rfl, rfl⟩
  | closeWriteEnd hp | pidfdOpen hp | signal hp | signalFails hp =>
    rw [hp]
    exact .inr ⟨trivial, rfl, rfl⟩
  | _ => exact hawaits.elim

end ParentSteps

/-! ## The invariant -/

/-- What is true of a state that is reached by the steps `ls`. -/
structure Handshake (ls : List Label) (s : State) : Prop where
  /-- The child does not go on before it is signalled. -/
  released : s.child.Released → .parent (.signal none) ∈ ls
  event : 0 < s.event → .parent (.signal none) ∈ ls
  /-- The parent signals when it has the pidfd. -/
  signalled : .parent (.signal none) ∈ ls → s.parent.HasPidfd
  opened : s.parent.HasPidfd → ∃ fd, .parent (.pidfdOpen (.ok fd)) ∈ ls
  /-- An error is that of the first call that has failed. -/
  working : s.child.Working → launchError ls = none
  failing : ∀ err, s.child = .fail err → launchError ls = some err
  piped : ∀ err ∈ s.execErrPipe, launchError ls = some err
  reported : ∀ err, s.parent.report = some err → launchError ls = some err
  /-- A child that is done has left a report, unless the program has been executed. -/
  program : ∀ image, s.child = .program image → Executed ls
  executed : Executed ls → launchError ls = none ∧ ¬ s.child.Working ∧ ∀ err, s.child ≠ .fail err
  done : s.child.Done → s.parent.AwaitsReport → Executed ls ∨ s.execErrPipe ≠ []
  ended : s.parent.SawEof → Executed ls

/-- The calls of `close_range` succeed, and the child is killed by the parent only. -/
def Undisturbed (s : State) (l : Label) : Prop :=
  ClosesRanges s l ∧ (l = .child .killed → .child ∈ s.signalled)

instance (s : State) (l : Label) : Decidable (Undisturbed s l) := by
  unfold Undisturbed; infer_instance

variable {call : Call} {ls : List Label} {s s' : State}

theorem handshake_initial (call : Call) : Handshake [] (.initial call) where
  released h := h.elim
  event h := absurd h (Nat.lt_irrefl 0)
  signalled h := by cases h
  opened h := h.elim
  working _ := rfl
  failing _ h := by cases h
  piped _ h := by cases h
  reported _ h := by cases h
  program _ h := by cases h
  executed h := by cases h
  done h := h.elim
  ended h := h.elim

theorem launchError_mono {err : Errno} (h : launchError ls = some err) (l : Label) :
    launchError (ls ++ [l]) = some err := by
  rw [launchError_append, h, Option.some_or]

theorem launchError_none {l : Label} (h : launchError ls = none) (hl : l.launchError = none) :
    launchError (ls ++ [l]) = none := by
  rw [launchError_append, h, hl, Option.none_or]

theorem Executed.mono (h : Executed ls) (l : Label) : Executed (ls ++ [l]) :=
  List.mem_append_left _ h

theorem executed_append {l : Label} :
    Executed (ls ++ [l]) ↔ Executed ls ∨ l = .child (.execve none) := by
  simp [Executed, eq_comm]

theorem parent_mem_append {l : ParentLabel} {l' : ChildLabel} :
    .parent l ∈ ls ++ [.child l'] ↔ .parent l ∈ ls := by
  simp

theorem Handshake.childStep {l : ChildLabel} (h : Handshake ls s) (hprepared : call.Prepared)
    (htable : TableAt call s.childLocals s.childTable s.child) (hphase : s.InPhase ls)
    (hok : Undisturbed s (.child l)) (hstep : ChildStep call s l s') :
    Handshake (ls ++ [.child l]) s' := by
  obtain ⟨hparent, -, -, -⟩ := hstep.frame
  -- once the program is executed no call of the child can fail
  have hquiet : Executed ls → (Label.child l).launchError = none := by
    intro hexecuted
    by_contra hne
    obtain ⟨err, herr⟩ := Option.ne_none_iff_exists'.1 hne
    exact (h.executed hexecuted).2.1 (hstep.launchError herr).1
  constructor
  · intro hreleased
    rw [parent_mem_append]
    rcases hstep.released hreleased with hbefore | hevent
    · exact h.released hbefore
    · exact h.event hevent
  · intro hevent
    rw [parent_mem_append]
    exact h.event (hevent.trans_le hstep.event)
  · rw [parent_mem_append, hparent]
    exact h.signalled
  · intro hpidfd
    rw [hparent] at hpidfd
    obtain ⟨fd, hfd⟩ := h.opened hpidfd
    exact ⟨fd, parent_mem_append.2 hfd⟩
  · intro hworking
    obtain ⟨hbefore, hlabel⟩ := hstep.working hworking
    exact launchError_none (h.working hbefore) hlabel
  · intro err hfail
    rcases hstep.failing hfail with hbefore | ⟨hbefore, hlabel⟩
    · exact launchError_mono (h.failing err hbefore) _
    · rw [launchError_append, h.working hbefore, Option.none_or, hlabel]
  · intro err herr
    rcases hstep.piped hprepared htable with hpipe | ⟨err', hfail, hpipe⟩
    · rw [hpipe] at herr
      exact launchError_mono (h.piped err herr) _
    · rw [hpipe] at herr
      rcases List.mem_append.1 herr with herr | herr
      · exact launchError_mono (h.piped err herr) _
      · obtain rfl := List.mem_singleton.1 herr
        exact launchError_mono (h.failing err hfail) _
  · intro err hreport
    rw [hparent] at hreport
    exact launchError_mono (h.reported err hreport) _
  · intro image hprogram
    rcases hstep.program hprogram with hbefore | rfl
    · exact (h.program image hbefore).mono _
    · exact executed_append.2 (.inr rfl)
  · intro hexecuted
    rcases executed_append.1 hexecuted with hbefore | hnow
    · obtain ⟨hnone, hworking, hfail⟩ := h.executed hbefore
      refine ⟨launchError_none hnone (hquiet hbefore), ?_, ?_⟩
      · exact fun hafter => hworking (hstep.working hafter).1
      · intro err hafter
        rcases hstep.failing hafter with hbefore | ⟨hbefore, -⟩
        · exact hfail err hbefore
        · exact hworking hbefore
    · cases hnow
      obtain ⟨hworking, image, himage⟩ := hstep.executed
      refine ⟨launchError_none (h.working hworking) rfl, ?_, ?_⟩
      · rw [himage]
        exact id
      · rw [himage]
        exact fun err hfail => by cases hfail
  · intro hdone hawaits
    rw [hparent] at hawaits
    have hl : l ≠ .killed := by
      rintro rfl
      have hsignalled := hok.2 rfl
      have hnone : s.signalled = [] := by
        unfold State.InPhase at hphase
        cases hp : s.parent <;> rw [hp] at hawaits hphase <;> first
          | exact hphase.2.2.2
          | exact hawaits.elim
      rw [hnone] at hsignalled
      cases hsignalled
    rcases hstep.done hprepared htable hl hdone with hbefore | hpipe | ⟨image, hprogram⟩
    · rcases h.done hbefore hawaits with hexecuted | hpipe
      · exact .inl (hexecuted.mono _)
      · right
        rcases hstep.piped hprepared htable with heq | ⟨err, -, heq⟩
        · rwa [heq]
        · simp [heq]
    · exact .inr hpipe
    · exact .inl ((h.program image hprogram).mono _)
  · intro heof
    rw [hparent] at heof
    exact (h.ended heof).mono _

theorem TableAt.has_pipeWrite {l : Locals} {t : DescriptorTable} {c : Child}
    (h : TableAt call l t c) (hprepared : call.Prepared)
    (hc : c.Released ∨ c = .readEvent ∨ ∃ err, c = .fail err) : t.Has .pipeWrite := by
  rw [DescriptorTable.has_iff]
  refine ⟨l.writeEnd, ?_⟩
  cases c with
  | readEvent | closeEvent =>
    rw [h.2.lookup_own (List.mem_append_right _ List.mem_cons_self)]
    rfl
  | closeReadEnd =>
    rw [h.2.lookup_own List.mem_cons_self]
    rfl
  | dup2 todo => exact h.2.lookup_foldl hprepared []
  | closeRange todo =>
    obtain ⟨done, t₀, -, hredirected, rfl⟩ := h
    exact hredirected.lookup_foldl hprepared _
  | execve =>
    obtain ⟨t₀, hredirected, rfl⟩ := h
    exact hredirected.lookup_foldl hprepared _
  | fail err => exact h hprepared
  | _ => simp [Child.Released] at hc

/-- **The end of the file means that the program is executed.** -/
theorem Handshake.executed_of_eof (h : Handshake ls s) (hprepared : call.Prepared)
    (htable : TableAt call s.childLocals s.childTable s.child) (hphase : s.InPhase ls)
    (hread : s.parent = .read) (hpipe : s.execErrPipe = [])
    (hwriter : ¬ s.childTable.Has .pipeWrite) : Executed ls := by
  unfold State.InPhase at hphase
  rw [hread] at hphase
  obtain ⟨-, hforked, hreaped, -⟩ := hphase
  have hwrites := fun hc => hwriter (htable.has_pipeWrite hprepared hc)
  have hdone := fun hd => (h.done hd (by rw [hread]; trivial)).resolve_right (not_not.2 hpipe)
  cases hc : s.child with
  | none => exact absurd hc hforked
  | reaped => exact absurd hc hreaped
  | program image => exact h.program image hc
  | closeWriteEnd | exit | zombie => exact hdone (by rw [hc]; trivial)
  | readEvent => exact (hwrites (.inr (.inl hc))).elim
  | fail err => exact (hwrites (.inr (.inr ⟨err, hc⟩))).elim
  | _ => exact (hwrites (.inl (by rw [hc]; trivial))).elim

theorem Handshake.parentStep {l : ParentLabel} (h : Handshake ls s) (hprepared : call.Prepared)
    (howns : Ownership call s) (htable : TableAt call s.childLocals s.childTable s.child)
    (hphase : s.InPhase ls) (hstep : ParentStep s l s') :
    Handshake (ls ++ [.parent l]) s' := by
  have hexecutes : Executed (ls ++ [.parent l]) ↔ Executed ls := by simp [executed_append]
  -- the child that is forked is on its way
  have hfork : s.parent = .fork → s.child = .none := by
    intro hp
    unfold State.InPhase at hphase
    rw [hp] at hphase
    exact not_not.1 hphase.2.1
  constructor
  · intro hreleased
    have hbefore : s.child.Released := hstep.child_before id id hreleased
    exact List.mem_append_left _ (h.released hbefore)
  · intro hevent
    rcases hstep.event hevent with hbefore | rfl
    · exact List.mem_append_left _ (h.event hbefore)
    · exact List.mem_append_right _ (List.mem_singleton_self _)
  · intro hsignal
    rcases List.mem_append.1 hsignal with hbefore | hnow
    · exact hstep.hasPidfd howns (h.signalled hbefore)
    · obtain rfl : l = .signal none := by simpa [eq_comm] using hnow
      cases hstep
      trivial
  · intro hpidfd
    rcases hstep.opened hpidfd with hbefore | ⟨fd, rfl⟩
    · obtain ⟨fd, hfd⟩ := h.opened hbefore
      exact ⟨fd, List.mem_append_left _ hfd⟩
    · exact ⟨fd, List.mem_append_right _ (List.mem_singleton_self _)⟩
  · intro hworking
    refine launchError_none (h.working ?_) rfl
    rcases hstep.child with hsame | ⟨hp, -⟩ | hchild
    · rwa [hsame] at hworking
    · rw [hfork hp]
      trivial
    · rw [hchild] at hworking
      exact hworking.elim
  · intro err hfail
    have hbefore : s.child = .fail err :=
      hstep.child_before (P := (· = .fail err)) (by simp) (by simp) hfail
    exact launchError_mono (h.failing err hbefore) _
  · intro err herr
    exact launchError_mono (h.piped err (hstep.piped herr)) _
  · intro err hreport
    rcases hstep.report hreport with hbefore | hpipe
    · exact launchError_mono (h.reported err hbefore) _
    · exact launchError_mono (h.piped err hpipe) _
  · intro image hprogram
    have hbefore : s.child = .program image :=
      hstep.child_before (P := (· = .program image)) (by simp) (by simp) hprogram
    exact hexecutes.2 (h.program image hbefore)
  · intro hexecuted
    obtain ⟨hnone, hworking, hfail⟩ := h.executed (hexecutes.1 hexecuted)
    refine ⟨launchError_none hnone rfl, ?_⟩
    rcases hstep.child with hsame | ⟨hp, -⟩ | hchild
    · rw [hsame]
      exact ⟨hworking, hfail⟩
    · rw [hfork hp] at hworking
      exact absurd trivial hworking
    · rw [hchild]
      exact ⟨id, fun err hc => by cases hc⟩
  · intro hdone hawaits
    rw [hexecutes]
    rcases hstep.awaits hawaits with hchild | ⟨hbefore, hchild, hpipe⟩
    · rw [hchild] at hdone
      exact hdone.elim
    · rw [hchild] at hdone
      rw [hpipe]
      exact h.done hdone hbefore
  · intro heof
    rw [hexecutes]
    rcases hstep.sawEof heof with hbefore | rfl
    · exact h.ended hbefore
    · cases hstep with
      | readEof hp hpipe _ hwriter =>
        exact h.executed_of_eof hprepared htable hphase hp hpipe hwriter

theorem Reach.handshake (hprepared : call.Prepared) (h : (spawn call).Reach Undisturbed ls s) :
    Handshake ls s := by
  refine Reach.spawn_invariant (I := Handshake) (handshake_initial call) ?_ ?_ h
  · intro ls s l s' hreach hinv _ hstep
    have htable := Reach.tableAt (fun _ _ hok => hok.1) hreach
    exact hinv.parentStep hprepared (Reach.ownership hreach) htable (Reach.inPhase hreach) hstep
  · intro ls s l s' hreach hinv hok hstep
    have htable := Reach.tableAt (fun _ _ hok => hok.1) hreach
    exact hinv.childStep hprepared htable (Reach.inPhase hreach) hok hstep

/-! ## The handshake is correct -/

/-- **The handshake is correct under every interleaving.**  Before the child calls `dup2` or
`execve` the parent has signalled the eventfd, and has a pidfd of the child, which it keeps until
its locals are destroyed.  When `spawn` returns the program has been executed; when it throws the
launch failure, the error number is that of the first `dup2` or `execve` that has failed, and the
child has been waited for.  The end of the file is read only when the program has been executed
and nothing has failed. -/
theorem handshake_correct (hprepared : call.Prepared) (h : (spawn call).Reach Undisturbed ls s) :
    (∀ l s', l.IsLaunch → s.step call (.child l) = some s' →
      .parent (.signal none) ∈ ls ∧ (∃ fd, .parent (.pidfdOpen (.ok fd)) ∈ ls) ∧
        ((∀ outcome, s.parent ≠ .leave outcome ∧ s.parent ≠ .left outcome) →
          s.table.lookup s.locals.pidfd = some ⟨.pidfd .child, true⟩)) ∧
    (s.parent = .left .returned → Executed ls) ∧
    (∀ cause err, s.parent = .left (.thrown cause) →
      cause.systemError call.path = ⟨"Failed to launch application " ++ call.path, err⟩ →
        launchError ls = some err ∧ s.child = .reaped) ∧
    (∀ s', s.step call (.parent .readEof) = some s' → Executed ls ∧ launchError ls = none) := by
  have hinv := Reach.handshake hprepared h
  have howns := Reach.ownership h
  have hphase := Reach.inPhase h
  refine ⟨?_, ?_, ?_, ?_⟩
  · intro l s' hlaunch hstep
    -- the child is past the eventfd, so the parent has signalled it and had the pidfd before
    have hreleased : s.child.Released := by
      cases childStep_cases hstep with
      | dup2 hc | dup2Fails hc | execve hc | execveFails hc => rw [hc]; trivial
      | _ => exact hlaunch.elim
    have hsignal := hinv.released hreleased
    have hpidfd := hinv.signalled hsignal
    refine ⟨hsignal, hinv.opened hpidfd, fun hstays => ?_⟩
    have howners := howns.owners
    have hnull : s.locals.pidfd ≠ -1 := by
      cases hp : s.parent <;> rw [hp] at howners hpidfd <;> first
        | exact howners
        | exact howners.2
        | exact hpidfd.elim
        | exact absurd hp (hstays _).1
        | exact absurd hp (hstays _).2
    exact howns.frame.lookup_own (mem_own.2 (.inl ⟨hnull, rfl, rfl⟩))
  · intro hleft
    exact hinv.ended (by rw [hleft]; trivial)
  · intro cause err hleft hexception
    obtain rfl := Cause.eq_launch hexception
    refine ⟨hinv.reported err (by rw [hleft]; rfl), ?_⟩
    -- no other exception can be taken for the launch failure, and this one comes after the wait
    unfold State.InPhase at hphase
    rw [hleft] at hphase
    exact hphase.2.2.1
  · intro s' hstep
    have htable := Reach.tableAt (fun _ _ hok => hok.1) h
    cases parentStep_cases hstep with
    | readEof hp hpipe _ hwriter =>
      have hexecuted := hinv.executed_of_eof hprepared htable hphase hp hpipe hwriter
      exact ⟨hexecuted, (hinv.executed hexecuted).1⟩

/-- The program does not exist: the error that the child has seen is reported. -/
theorem handshake_correct_failure :
    ∃ s, (spawn exampleCall).Reach Undisturbed exampleFailure s ∧
      s.parent = .left (.thrown (.launch ENOENT)) ∧
        launchError exampleFailure = some ENOENT ∧ s.child = .reaped := by
  have hprepared : exampleCall.Prepared :=
    { standard := by decide
      redirected := by decide
      forwarded := by decide }
  have hrun : ((spawn exampleCall).run Undisturbed (.initial exampleCall) exampleFailure).map
      (·.parent) = some (.left (.thrown (.launch ENOENT))) := by decide
  obtain ⟨s, hs, hleft⟩ := Lts.Reach.exists_of_map_run rfl hrun
  obtain ⟨-, -, hlaunch, -⟩ := handshake_correct hprepared hs
  exact ⟨s, hs, hleft, hlaunch _ ENOENT hleft rfl⟩

end ThePipe.OsServices.ProcMgmt
