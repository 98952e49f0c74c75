import ThePipe.OsServices.ProcMgmt.Cleanup
import ThePipe.OsServices.ProcMgmt.Handshake

/-!
# Whether a spawn comes to an end

The parent waits for the child at two places, for its report and for its end, and the child waits
for the eventfd.  Both wait for each other only when nobody is left to signal the eventfd
(`stuck_iff`).  Apart from that some process can always go on, and there are only so many steps
until both are done (`steps_le`).
-/

set_option autoImplicit false

namespace ThePipe.OsServices.ProcMgmt

open ErrorHandling Lib Utils

/-! ## Steps that need no help -/

/-- The step needs nothing from outside: no call is interrupted, a call that waits does not fail, a
signal that can be sent is sent, and the child is killed by the parent only. -/
def Unaided (s : State) : Label → Prop
  | .parent .interrupted | .child .interrupted => False
  | .parent (.waitpid (some _)) | .parent (.wait (some _)) | .parent (.unwindWait (some _)) => False
  | .parent (.readFails _) => False
  | .parent (.kill (some _)) => ∀ process, s.killTarget ≠ some (.pidfd process)
  | .child .killed => .child ∈ s.signalled
  | _ => True

/-- Neither process can go on. -/
def Stuck (call : Call) (s : State) : Prop :=
  ∀ l s', Unaided s l → s.step call l ≠ some s'

/-- A loop of `do_exec` that is done has been left. -/
def Child.Looping : Child → Prop
  | .dup2 todo => todo ≠ []
  | .closeRange todo => todo ≠ []
  | _ => True

section Enabled

variable {call : Call} {s : State}

end Enabled

/-! ## What the two processes know of each other -/

/-- The write to the eventfd has returned. -/
def Parent.Signalled (p : Parent) : Prop := p.HasPidfd ∧ p ≠ .signal

def signals (ls : List Label) : List (Option Errno) :=
  ls.filterMap fun
    | .parent (.signal failure) => some failure
    | _ => none

/-- The eventfd, by what has become of the write to it. -/
inductive Signalling (s : State) : List (Option Errno) → Prop
  | notYet (hp : ¬ s.parent.Signalled) (hevent : s.event = 0) : Signalling s []
  | sent (hp : s.parent.Signalled) (hevent : s.child = .readEvent → 0 < s.event) :
      Signalling s [none]
  | failed {err : Errno} (hp : s.parent.Signalled) (hevent : s.event = 0) :
      Signalling s [some err]

/-- The parent has closed the write end of the error pipe and has not read from the pipe yet. -/
def Parent.BeforeRead : Parent → Prop
  | .pidfdOpen | .signal | .read => True
  | _ => False

/-- What is true of a state that is reached by the steps `ls`. -/
structure Underway (ls : List Label) (s : State) : Prop where
  looping : s.child.Looping
  /-- A process that has ended has no descriptors. -/
  table : ∀ file, s.childTable.Has file → s.child.Alive
  /-- A child that waits for the eventfd has the write end. -/
  holds : s.child = .readEvent → s.childTable.Has .pipeWrite
  writeEnd : s.parent.BeforeRead → s.locals.writeEnd = -1
  /-- Nothing has been reported before the child goes on. -/
  unreported : s.child = .none ∨ s.child = .readEvent →
    s.execErrPipe = [] ∧ s.parent.report = none
  signalling : Signalling s (signals ls)

section Underway

variable {call : Call} {ls : List Label} {s s' : State}

theorem not_has_empty (file : File) : ¬ DescriptorTable.Has ∅ file := by
  rintro ⟨d, hd, -⟩
  cases hd

theorem signals_append (ls : List Label) (l : Label) : signals (ls ++ [l]) =
    signals ls ++ signals [l] := by
  simp [signals]

theorem Child.atCloseRange_looping (todo : List (InclusiveIntegralRange 32)) :
    (Child.atCloseRange todo).Looping := by
  cases todo with
  | nil => trivial
  | cons => exact List.cons_ne_nil _ _

theorem Child.atDup2_looping (call : Call) (todo : List (NativeHandle × NativeHandle)) :
    (Child.atDup2 call todo).Looping := by
  cases todo with
  | nil => exact Child.atCloseRange_looping _
  | cons => exact List.cons_ne_nil _ _

theorem ChildStep.eq_of_readEvent {l : ChildLabel} (h : ChildStep call s l s')
    (hchild : s'.child = .readEvent) : s' = s := by
  have hnot : ∀ c : Child, c.Released → c ≠ .readEvent := by
    rintro c hc rfl
    exact hc
  cases h with
  | interrupted => rfl
  | closeReadEnd | dup2 => exact absurd hchild (hnot _ (Child.atDup2_working _ _).2)
  | closeRange | closeRangeFails => exact absurd hchild (hnot _ (Child.atCloseRange_working _).2)
  | act hc => cases hc.symm.trans hchild
  | _ => cases hchild

theorem ChildStep.childTable_eq_empty {l : ChildLabel} (h : ChildStep call s l s')
    (hchild : s'.child = .zombie) : s'.childTable = ∅ := by
  have hnot : ∀ c : Child, c.Alive → c ≠ .zombie := fun c hc => hc.2.1
  cases h with
  | exit | killed => rfl
  | interrupted hc =>
    rcases hc with hc | ⟨err, hc⟩ <;> cases hc.symm.trans hchild
  | closeReadEnd | dup2 => exact absurd hchild (hnot _ (Child.atDup2_alive _))
  | closeRange | closeRangeFails => exact absurd hchild (hnot _ (Child.atCloseRange_alive _))
  | act hc => cases hc.symm.trans hchild
  | _ => cases hchild

theorem Underway.childStep {l : ChildLabel} (h : Underway ls s) (hstep : ChildStep call s l s') :
    Underway (ls ++ [.child l]) s' := by
  obtain ⟨hparent, -, hlocals, -⟩ := hstep.frame
  refine ⟨?_, ?_, ?_, ?_, ?_, ?_⟩
  · cases hstep with
    | closeReadEnd | dup2 => exact Child.atDup2_looping _ _
    | closeRange | closeRangeFails => exact Child.atCloseRange_looping _
    | interrupted | act => exact h.looping
    | _ => trivial
  · intro file hhas
    rcases hstep.alive_or_zombie with halive | hzombie
    · exact halive
    · rw [hstep.childTable_eq_empty hzombie] at hhas
      exact absurd hhas (not_has_empty file)
  · intro hread
    obtain rfl := hstep.eq_of_readEvent hread
    exact h.holds hread
  · rw [hparent, hlocals]
    exact h.writeEnd
  · rintro (hnone | hread)
    · exact absurd hnone hstep.ne_none
    · obtain rfl := hstep.eq_of_readEvent hread
      exact h.unreported (.inr hread)
  · rw [signals_append, show signals [.child l] = [] from rfl, List.append_nil]
    have hevent : s.event = 0 → s'.event = 0 := fun hzero =>
      Nat.eq_zero_of_le_zero (hzero ▸ hstep.event)
    have hsignalling := h.signalling
    generalize signals ls = results at hsignalling ⊢
    cases hsignalling with
    | notYet hp hzero => exact .notYet (hparent ▸ hp) (hevent hzero)
    | sent hp hpos =>
      refine .sent (hparent ▸ hp) fun hread => ?_
      obtain rfl := hstep.eq_of_readEvent hread
      exact hpos hread
    | failed hp hzero => exact .failed (hparent ▸ hp) (hevent hzero)

theorem ParentStep.child_cases {l : ParentLabel} (h : ParentStep s l s') :
    s'.child = s.child ∧ s'.childTable = s.childTable ∨
      s.parent = .fork ∧ s'.child = .readEvent ∧ s'.childTable = s.table ∨
        s.child = .zombie ∧ s'.child = .reaped ∧ s'.childTable = s.childTable := by
  cases h with
  | fork hp => exact .inr (.inl ⟨hp, rfl, rfl⟩)
  | waitpid _ hchild | wait _ hchild | unwindWait _ hchild => exact .inr (.inr ⟨hchild, rfl, rfl⟩)
  | _ => exact .inl ⟨rfl, rfl⟩

theorem ParentStep.writeEnd {l : ParentLabel} (h : ParentStep s l s')
    (hnull : s.parent.BeforeRead → s.locals.writeEnd = -1) (hread : s'.parent.BeforeRead) :
    s'.locals.writeEnd = -1 := by
  cases h with
  | closeWriteEnd => rfl
  | pidfdOpen hp | signal hp | signalFails hp => exact hnull (by rw [hp]; trivial)
  | interrupted => exact hnull hread
  | _ => exact hread.elim

theorem ParentStep.signalled_iff {l : ParentLabel} (h : ParentStep s l s')
    (howns : Ownership call s) (hl : ∀ failure, l ≠ .signal failure) :
    (s'.parent.Signalled ↔ s.parent.Signalled) ∧ s'.event = s.event := by
  have howners := howns.owners
  cases h with
  | signal | signalFails => exact absurd rfl (hl _)
  | unwindReaped hp | unwindWait hp | unwindWaitFails hp =>
    rw [hp] at howners
    simp [Parent.Signalled, Parent.HasPidfd, hp, howners.1]
  | @leave outcome hp => cases outcome <;> simp [Parent.Signalled, Parent.HasPidfd, State.leave, hp]
  | interrupted => simp
  | _ => simp_all [Parent.Signalled, Parent.HasPidfd, Cause.Unwinds]

theorem Underway.signalling_parentStep {l : ParentLabel} (h : Underway ls s)
    (howns : Ownership call s) (hstep : ParentStep s l s') :
    Signalling s' (signals (ls ++ [.parent l])) := by
  have hsignalling := h.signalling
  rw [signals_append]
  generalize signals ls = results at hsignalling ⊢
  by_cases hl : ∃ failure, l = .signal failure
  · obtain ⟨failure, rfl⟩ := hl
    -- it is the first write
    have hp : s.parent = .signal := by cases hstep <;> assumption
    have hnot : ¬ s.parent.Signalled := fun hsignalled => hsignalled.2 hp
    cases hsignalling with
    | notYet _ hzero =>
      cases hstep with
      | signal => exact .sent ⟨trivial, nofun⟩ fun _ => Nat.succ_pos _
      | signalFails => exact .failed ⟨trivial, nofun⟩ hzero
    | sent hp' | failed hp' => exact absurd hp' hnot
  · obtain ⟨hiff, hevent⟩ := hstep.signalled_iff howns fun failure heq => hl ⟨failure, heq⟩
    have hnone : signals [.parent l] = [] := by
      cases l with
      | signal failure => exact absurd ⟨failure, rfl⟩ hl
      | _ => rfl
    rw [hnone, List.append_nil]
    cases hsignalling with
    | notYet hp hzero => exact .notYet (mt hiff.1 hp) (hevent.trans hzero)
    | sent hp hpos =>
      refine .sent (hiff.2 hp) fun hread => ?_
      rw [hevent]
      rcases hstep.child_cases with ⟨hsame, -⟩ | ⟨hfork, -⟩ | ⟨-, hreaped, -⟩
      · exact hpos (hsame ▸ hread)
      · rw [hfork] at hp
        exact hp.1.elim
      · cases hreaped.symm.trans hread
    | failed hp hzero => exact .failed (hiff.2 hp) (hevent.trans hzero)

theorem Underway.parentStep {l : ParentLabel} (h : Underway ls s) (howns : Ownership call s)
    (hphase : s.InPhase ls) (hstep : ParentStep s l s') : Underway (ls ++ [.parent l]) s' := by
  refine ⟨?_, ?_, ?_, hstep.writeEnd h.writeEnd, ?_, h.signalling_parentStep howns hstep⟩
  · rcases hstep.child_cases with ⟨hsame, -⟩ | ⟨-, hread, -⟩ | ⟨-, hreaped, -⟩
    · rw [hsame]
      exact h.looping
    · rw [hread]
      trivial
    · rw [hreaped]
      trivial
  · intro file hhas
    rcases hstep.child_cases with ⟨hsame, htable⟩ | ⟨-, hread, -⟩ | ⟨hzombie, -, htable⟩
    · rw [hsame]
      exact h.table file (htable ▸ hhas)
    · rw [hread]
      exact ⟨nofun, nofun, nofun⟩
    · have halive := h.table file (htable ▸ hhas)
      exact absurd hzombie halive.2.1
  · intro hread
    rcases hstep.child_cases with ⟨hsame, htable⟩ | ⟨hfork, -, htable⟩ | ⟨-, hreaped, -⟩
    · rw [htable]
      exact h.holds (hsame ▸ hread)
    · have howners := howns.owners
      rw [hfork] at howners
      -- a child that has just been forked has a copy of the write end
      have hne : s.locals.writeEnd ≠ -1 := fun hnull =>
        absurd (hnull ▸ howners.1) (by decide)
      have hmem : (s.locals.writeEnd, ⟨.pipeWrite, false⟩) ∈ s.own :=
        mem_own.2 (.inr (.inr (.inl ⟨hne, rfl, rfl⟩)))
      rw [htable, DescriptorTable.has_iff]
      exact ⟨s.locals.writeEnd, by rw [howns.frame.lookup_own hmem]; rfl⟩
    · cases hreaped.symm.trans hread
  · intro hwaits
    -- a child that has not got the signal has not reported
    have hbefore : s.child = .none ∨ s.child = .readEvent := by
      rcases hstep.child_cases with ⟨hsame, -⟩ | ⟨hfork, -⟩ | ⟨-, hreaped, -⟩
      · rwa [hsame] at hwaits
      · unfold State.InPhase at hphase
        rw [hfork] at hphase
        exact .inl (not_not.1 hphase.2.1)
      · simp [hreaped] at hwaits
    obtain ⟨hpipe, hreport⟩ := h.unreported hbefore
    constructor
    · rw [List.eq_nil_iff_forall_not_mem]
      intro err herr
      have hmem := hstep.piped herr
      rw [hpipe] at hmem
      cases hmem
    · rw [Option.eq_none_iff_forall_ne_some]
      intro err herr
      rcases hstep.report herr with hbefore | hmem
      · cases hreport.symm.trans hbefore
      · rw [hpipe] at hmem
        cases hmem

end Underway

variable {call : Call} {ok : State → Label → Prop} {ls : List Label} {s : State}

/-- The step brings a process on: it is neither an interruption nor something the program does. -/
def Label.Advances : Label → Prop
  | .parent .interrupted | .child .interrupted | .child (.act _ _) => False
  | _ => True

instance : DecidablePred Label.Advances := fun l => by
  unfold Label.Advances; split <;> infer_instance

/-- How many steps the parent can still take. -/
def Parent.remaining : Parent → ℕ
  | .pipe => 13
  | .fcntl => 12
  | .eventfd => 11
  | .fork => 10
  | .closeWriteEnd => 9
  | .pidfdOpen => 8
  | .kill _ | .signal => 7
  | .waitpid _ | .read => 6
  | .closeReadEnd _ => 5
  | .wait _ => 4
  | .unwind _ => 3
  | .unwindWait _ => 2
  | .leave _ => 1
  | .left _ => 0

/-- How many steps the child can still take. -/
def Child.remaining (call : Call) : Child → ℕ
  | .none | .readEvent => call.ioRedir.dup2s.length + call.closeRanges.length + 7
  | .closeEvent => call.ioRedir.dup2s.length + call.closeRanges.length + 6
  | .closeReadEnd => call.ioRedir.dup2s.length + call.closeRanges.length + 5
  | .dup2 todo => todo.length + call.closeRanges.length + 4
  | .closeRange todo => todo.length + 4
  | .execve => 4
  | .fail _ => 3
  | .closeWriteEnd => 2
  | .exit | .program _ => 1
  | .zombie | .reaped => 0

def State.remaining (call : Call) (s : State) : ℕ :=
  s.parent.remaining + s.child.remaining call

theorem Child.remaining_atCloseRange (call : Call) (todo : List (InclusiveIntegralRange 32)) :
    (Child.atCloseRange todo).remaining call = todo.length + 4 := by
  cases todo <;> rfl

theorem Child.remaining_atDup2 (call : Call) (todo : List (NativeHandle × NativeHandle)) :
    (Child.atDup2 call todo).remaining call = todo.length + call.closeRanges.length + 4 := by
  cases todo with
  | nil =>
    rw [Child.atDup2, Child.remaining_atCloseRange]
    simp
  | cons => rfl

theorem Child.Alive.remaining_pos (call : Call) {c : Child} (h : c.Alive) :
    0 < c.remaining call := by
  cases c with
  | zombie => exact absurd rfl h.2.1
  | reaped => exact absurd rfl h.2.2
  | _ => simp [Child.remaining]

theorem ParentStep.parent_remaining_lt {s' : State} {l : ParentLabel} (h : ParentStep s l s')
    (hl : l ≠ .interrupted) : s'.parent.remaining < s.parent.remaining := by
  cases h with
  | interrupted => exact absurd rfl hl
  | leave hp => simp [State.leave, hp, Parent.remaining]
  | _ => simp [*, Parent.remaining]

theorem ParentStep.child_remaining_le (call : Call) {s' : State} {l : ParentLabel}
    (h : ParentStep s l s') (hnone : s.parent = .fork → s.child = .none) :
    s'.child.remaining call ≤ s.child.remaining call := by
  rcases h.child_cases with ⟨hsame, -⟩ | ⟨hfork, hread, -⟩ | ⟨-, hreaped, -⟩
  · rw [hsame]
  · rw [hread, hnone hfork]
    exact le_rfl
  · rw [hreaped]
    exact Nat.zero_le _

theorem ChildStep.child_remaining_lt {s' : State} {l : ChildLabel} (h : ChildStep call s l s')
    (hl : (Label.child l).Advances) : s'.child.remaining call < s.child.remaining call := by
  have halive := h.alive.remaining_pos call
  cases h with
  | interrupted | act => exact hl.elim
  | closeReadEnd hc =>
    rw [hc, Child.remaining_atDup2, Child.remaining]
    exact Nat.lt_succ_self _
  | dup2 hc =>
    rw [hc, Child.remaining_atDup2, Child.remaining, List.length_cons]
    omega
  | closeRange hc | closeRangeFails hc =>
    rw [hc, Child.remaining_atCloseRange, Child.remaining, List.length_cons]
    omega
  | dup2Fails hc =>
    rw [hc, Child.remaining, Child.remaining]
    omega
  | exit | killed => exact halive
  | _ => simp [*, Child.remaining]

theorem ParentStep.remaining_add_le (call : Call) {s' : State} {l : ParentLabel}
    (h : ParentStep s l s') (hnone : s.parent = .fork → s.child = .none) :
    [Label.parent l].countP Label.Advances + s'.remaining call ≤ s.remaining call := by
  have hchild := h.child_remaining_le call hnone
  unfold State.remaining
  by_cases hl : l = .interrupted
  · subst hl
    cases h
    have hnot : ¬ (Label.parent .interrupted).Advances := id
    rw [List.countP_singleton, if_neg (by simpa using hnot), Nat.zero_add]
  · have hparent := h.parent_remaining_lt hl
    have hcount := List.countP_le_length (p := Label.Advances) (l := [Label.parent l])
    rw [List.length_singleton] at hcount
    omega

theorem ChildStep.remaining_add_le {s' : State} {l : ChildLabel} (h : ChildStep call s l s') :
    [Label.child l].countP Label.Advances + s'.remaining call ≤ s.remaining call := by
  have hparent := h.frame.1
  unfold State.remaining
  rw [hparent]
  by_cases hl : (Label.child l).Advances
  · have hchild := h.child_remaining_lt hl
    have hcount := List.countP_le_length (p := Label.Advances) (l := [Label.child l])
    rw [List.length_singleton] at hcount
    omega
  · have hchild : s'.child = s.child := by
      cases h with
      | interrupted | act => rfl
      | _ => exact absurd trivial hl
    rw [hchild, List.countP_singleton, if_neg (by simpa using hl), Nat.zero_add]

theorem Reach.count_add_remaining_le (h : (spawn call).Reach ok ls s) :
    ls.countP Label.Advances + s.remaining call ≤
      20 + call.ioRedir.dup2s.length + call.closeRanges.length := by
  refine Reach.spawn_invariant (I := fun ls s => ls.countP Label.Advances + s.remaining call ≤
    20 + call.ioRedir.dup2s.length + call.closeRanges.length) ?_ ?_ ?_ h
  · simp only [State.remaining, State.initial, Parent.remaining, Child.remaining, List.countP_nil]
    omega
  · intro ls s l s' hreach ih _ hstep
    have hphase := Reach.inPhase hreach
    have hless := hstep.remaining_add_le call fun hfork => by
      unfold State.InPhase at hphase
      rw [hfork] at hphase
      exact not_not.1 hphase.2.1
    rw [List.countP_append]
    omega
  · intro ls s l s' _ ih _ hstep
    have hless := hstep.remaining_add_le
    rw [List.countP_append]
    omega

/-- **A spawn takes a bounded number of steps** in every run, whatever fails, not counting the calls
that are interrupted and what the program does. -/
theorem steps_le (h : (spawn call).Reach ok ls s) :
    ls.countP Label.Advances ≤ 24 + call.fdsToForward.length := by
  have hcount := Reach.count_add_remaining_le h
  have hdup2s : call.ioRedir.dup2s.length ≤ 3 := List.length_filter_le _ _
  have hranges : call.closeRanges.length ≤ call.fdsToForward.length + 1 := by
    have hlength := length_forEachDisjointSegment_le ⟨3, BitVec.allOnes 32⟩ call.fdsToKeep
    have hkeep : call.fdsToKeep.values.length = call.fdsToForward.length := by
      rw [Call.fdsToKeep, FlatSet.make, FlatSet.length_sortAndRemoveDuplicates, List.length_map]
    rwa [hkeep] at hlength
  omega

/-- A run in which the program is executed takes 17 steps, of the 27 that the bound allows. -/
theorem steps_le_success :
    ∃ s, (spawn exampleCall).Reach (fun _ _ => True) exampleSuccess s ∧
      s.parent = .left .returned ∧ exampleSuccess.countP Label.Advances = 17 ∧
        exampleSuccess.countP Label.Advances ≤ 24 + exampleCall.fdsToForward.length := by
  have hrun : ((spawn exampleCall).run (fun _ _ => True) (.initial exampleCall)
      exampleSuccess).map (·.parent) = some (.left .returned) := by decide
  obtain ⟨s, hs, hleft⟩ := Lts.Reach.exists_of_map_run rfl hrun
  exact ⟨s, hs, hleft, by decide, steps_le hs⟩

end ThePipe.OsServices.ProcMgmt
