import ThePipe.Lib.Moves
import ThePipe.OsServices.ProcMgmt.Inherit

/-!
# Where the standard streams go

`do_exec` redirects the standard streams by one `dup2` after the other.  A source may be a standard
stream itself, which an earlier `dup2` has made refer to something else; when none is, the streams
are redirected as if at once (`simultaneous_iff`).  Whether `close_range` succeeds does not matter.
-/

set_option autoImplicit false

namespace ThePipe.OsServices.ProcMgmt

open ErrorHandling Lib Utils

/-! ## What descriptors refer to -/

/-- What the descriptor refers to, if it is open. -/
def DescriptorTable.fileAt (t : DescriptorTable) (fd : NativeHandle) : Option File :=
  (t.lookup fd).map Entry.file

/-- Several calls of `dup2`, with source and target. -/
def DescriptorTable.redirect (t : DescriptorTable) (moves : List (NativeHandle × NativeHandle)) :
    DescriptorTable :=
  moves.foldl (fun t d => DescriptorTable.dup2 t d.1 d.2) t

/-- The members, each with the standard stream that it is for. -/
def IoRedirection.streams (ioRedir : IoRedirection) : List (NativeHandle × NativeHandle) :=
  [(ioRedir.sysin, 0), (ioRedir.sysout, 1), (ioRedir.syserr, 2)]

/-- Every standard stream refers to the open file that its member referred to when `spawn` was
called or, where the member is null, to the one that the stream referred to itself.  Nothing is
required of a stream that was closed and is not redirected. -/
def Call.Simultaneous (call : Call) (t : DescriptorTable) : Prop :=
  ∀ d ∈ call.ioRedir.streams, ∀ file,
    call.table.fileAt (if d.1 = -1 then d.2 else d.1) = some file → t.fileAt d.2 = some file

/-- A source that is the target of an earlier redirection refers already to what that one makes it
refer to. -/
def Call.SourcesKept (call : Call) : Prop :=
  call.ioRedir.dup2s.Pairwise fun d d' =>
    d'.1 = d.2 → call.table.fileAt d.1 = call.table.fileAt d.2

instance (call : Call) : Decidable call.SourcesKept := by
  unfold Call.SourcesKept; infer_instance

section Tables

variable {t : DescriptorTable} {fd source target : NativeHandle}

theorem fileAt_isSome : (t.fileAt fd).isSome ↔ fd ∈ t := by
  rw [DescriptorTable.fileAt, Option.isSome_map, AList.lookup_isSome]

theorem fileAt_dup2 (h : source ∈ t) :
    (t.dup2 source target).fileAt = Function.update t.fileAt target (t.fileAt source) := by
  funext fd
  obtain ⟨entry, hentry⟩ := Option.isSome_iff_exists.1 (AList.lookup_isSome.2 h)
  by_cases hfd : fd = target
  · subst hfd
    rw [Function.update_self]
    unfold DescriptorTable.fileAt DescriptorTable.dup2
    simp only [hentry]
    split
    · next heq => rw [← heq, hentry]
    · rw [AList.lookup_insert]
      rfl
  · rw [Function.update_of_ne hfd]
    unfold DescriptorTable.fileAt
    rw [DescriptorTable.lookup_dup2_ne hfd]

theorem mem_dup2 (h : fd ∈ t) : fd ∈ t.dup2 source target := by
  rw [← fileAt_isSome] at h ⊢
  by_cases hsource : source ∈ t
  · rw [fileAt_dup2 hsource]
    by_cases hfd : fd = target
    · rw [hfd, Function.update_self]
      exact fileAt_isSome.2 hsource
    · rw [Function.update_of_ne hfd]
      exact h
  · have hnone : t.lookup source = none := AList.lookup_eq_none.2 hsource
    unfold DescriptorTable.dup2
    rw [hnone]
    exact h

theorem fileAt_redirect {moves : List (NativeHandle × NativeHandle)}
    (h : ∀ d ∈ moves, d.1 ∈ t) :
    (t.redirect moves).fileAt = moveAll t.fileAt moves := by
  induction moves generalizing t with
  | nil => rfl
  | cons d moves ih =>
    simp only [List.forall_mem_cons] at h
    have hopen : ∀ d' ∈ moves, d'.1 ∈ t.dup2 d.1 d.2 := by
      intro d' hd'
      exact mem_dup2 (h.2 d' hd')
    have hrest := ih hopen
    rw [fileAt_dup2 h.1] at hrest
    exact hrest

theorem redirect_concat (moves : List (NativeHandle × NativeHandle))
    (d : NativeHandle × NativeHandle) :
    t.redirect (moves ++ [d]) = (t.redirect moves).dup2 d.1 d.2 := by
  simp [DescriptorTable.redirect]

theorem fileAt_closeRange {range : InclusiveIntegralRange 32} :
    (t.closeRange range).fileAt = t.fileAt := by
  funext fd
  unfold DescriptorTable.fileAt
  rw [DescriptorTable.lookup_closeRange, Option.map_map]
  rfl

end Tables

/-! ## The child up to `execve` -/

/-- What the child's descriptors refer to, by what the child does next. -/
def StreamsAt (call : Call) (l : Locals) (t : DescriptorTable) : Child → Prop
  | .readEvent => TableAt call l t .readEvent
  | .closeEvent => TableAt call l t .closeEvent
  | .closeReadEnd => TableAt call l t .closeReadEnd
  | .dup2 todo => ∃ (done : List (NativeHandle × NativeHandle)) (t₀ : DescriptorTable),
      done ++ todo = call.ioRedir.dup2s ∧
      Frame call.table [(l.writeEnd, ⟨.pipeWrite, false⟩)] t₀ ∧
        t = t₀.redirect done
  | .closeRange _ | .execve => ∃ t₀ : DescriptorTable,
      Frame call.table [(l.writeEnd, ⟨.pipeWrite, false⟩)] t₀ ∧
        t.fileAt = (t₀.redirect call.ioRedir.dup2s).fileAt
  | _ => True

section Steps

variable {call : Call} {l : Locals} {t : DescriptorTable}

theorem streamsAt_atCloseRange (todo : List (InclusiveIntegralRange 32))
    (h : StreamsAt call l t .execve) : StreamsAt call l t (.atCloseRange todo) := by
  cases todo <;> exact h

theorem streamsAt_atDup2 {done todo : List (NativeHandle × NativeHandle)} {t₀ : DescriptorTable}
    (hdone : done ++ todo = call.ioRedir.dup2s)
    (hframe : Frame call.table [(l.writeEnd, ⟨.pipeWrite, false⟩)] t₀) :
    StreamsAt call l (t₀.redirect done) (.atDup2 call todo) := by
  cases todo with
  | nil =>
    apply streamsAt_atCloseRange
    rw [List.append_nil] at hdone
    exact ⟨t₀, hframe, by rw [hdone]⟩
  | cons d todo => exact ⟨done, t₀, hdone, hframe, rfl⟩

theorem StreamsAt.childStep {s s' : State} {l : ChildLabel}
    (h : StreamsAt call s.childLocals s.childTable s.child) (hstep : ChildStep call s l s') :
    StreamsAt call s'.childLocals s'.childTable s'.child := by
  cases hstep with
  | interrupted => exact h
  | readEvent hc =>
    rw [hc] at h
    exact h
  | closeEvent hc =>
    have htable : TableAt call s.childLocals s.childTable s.child := by
      rw [hc] at h ⊢
      exact h
    have hok : ClosesRanges s (.child .closeEvent) := trivial
    exact htable.childStep hok (.closeEvent hc)
  | closeReadEnd hc =>
    rw [hc] at h
    obtain ⟨-, hframe⟩ := h
    have hsplit : Frame call.table ([(s.childLocals.writeEnd, ⟨.pipeWrite, false⟩)] ++
        (s.childLocals.execErrPipeReadEnd, ⟨.pipeRead, true⟩) :: []) s.childTable := hframe
    exact streamsAt_atDup2 (List.nil_append _) hsplit.erase
  | @dup2 source target todo hc =>
    rw [hc] at h
    obtain ⟨done, t₀, hdone, hframe, htable⟩ := h
    have hdone' : (done ++ [(source, target)]) ++ todo = call.ioRedir.dup2s := by
      rw [List.append_assoc]
      exact hdone
    have hnext := streamsAt_atDup2 hdone' hframe
    rw [redirect_concat, ← htable] at hnext
    exact hnext
  | closeRange hc =>
    rw [hc] at h
    obtain ⟨t₀, hframe, hfiles⟩ := h
    apply streamsAt_atCloseRange
    exact ⟨t₀, hframe, by rw [fileAt_closeRange, hfiles]⟩
  | closeRangeFails hc =>
    rw [hc] at h
    exact streamsAt_atCloseRange _ h
  | act hc =>
    simp only [hc]
    trivial
  | _ => trivial

theorem StreamsAt.parentStep {s s' : State} {l : ParentLabel}
    (h : StreamsAt call s.childLocals s.childTable s.child) (howns : Ownership call s)
    (hstep : ParentStep s l s') : StreamsAt call s'.childLocals s'.childTable s'.child := by
  cases hstep with
  | fork hp => exact howns.tableAt_fork hp
  | waitpid | wait | unwindWait => trivial
  | _ => exact h

theorem Reach.streamsAt {ok : State → Label → Prop} {ls : List Label} {s : State}
    (h : (spawn call).Reach ok ls s) : StreamsAt call s.childLocals s.childTable s.child := by
  refine Reach.spawn_invariant
    (I := fun _ s => StreamsAt call s.childLocals s.childTable s.child) trivial ?_ ?_ h
  · intro ls s l s' hreach hstreams _ hstep
    exact hstreams.parentStep (Reach.ownership hreach) hstep
  · intro ls s l s' _ hstreams _ hstep
    exact hstreams.childStep hstep

end Steps

/-! ## The standard streams at `execve` -/

section Streams

variable {call : Call} {writeEnd : NativeHandle} {t₀ : DescriptorTable}

theorem fileAt_of_frame {fd : NativeHandle} {file : File}
    (h : Frame call.table [(writeEnd, ⟨.pipeWrite, false⟩)] t₀)
    (hfile : call.table.fileAt fd = some file) : t₀.fileAt fd = some file := by
  have hfresh : call.table.lookup writeEnd = none := h.fresh _ (List.mem_singleton_self _)
  have hne : fd ≠ writeEnd := by
    rintro rfl
    rw [DescriptorTable.fileAt, hfresh] at hfile
    cases hfile
  have hbeq : (fd == writeEnd) = false := beq_false_of_ne hne
  rw [DescriptorTable.fileAt, h.lookup, List.lookup_cons, hbeq]
  exact hfile

theorem IoRedirection.nodup_targets (ioRedir : IoRedirection) :
    (ioRedir.dup2s.map Prod.snd).Nodup := by
  have hall : (ioRedir.streams.map Prod.snd).Nodup := by
    simp [IoRedirection.streams]
  exact hall.sublist (List.filter_sublist.map _)

theorem IoRedirection.notMem_targets {ioRedir : IoRedirection} {d : NativeHandle × NativeHandle}
    (hd : d ∈ ioRedir.streams) (hnull : d.1 = -1) : d.2 ∉ ioRedir.dup2s.map Prod.snd := by
  intro hmem
  obtain ⟨d', hd', heq⟩ := List.mem_map.1 hmem
  obtain ⟨hstream, hne⟩ := List.mem_filter.1 hd'
  have hsame : d' = d := by
    have hinj : ∀ d ∈ ioRedir.streams, ∀ d' ∈ ioRedir.streams, d.2 = d'.2 → d = d' := by
      simp [IoRedirection.streams]
    exact hinj d' hstream d hd heq
  rw [hsame, hnull] at hne
  simp at hne

end Streams

/-- **When the streams are redirected as if at once.**  Wherever a run has got to `execve`, so that
every `dup2` has succeeded, the standard streams refer to what the members of the redirection, or
the streams themselves, referred to when `spawn` was called, if and only if no source has been
overwritten by an earlier redirection with another file. -/
theorem simultaneous_iff {call : Call} {ok : State → Label → Prop} {ls : List Label} {s : State}
    (hopen : ∀ d ∈ call.ioRedir.dup2s, d.1 ∈ call.table) (h : (spawn call).Reach ok ls s)
    (hexecve : s.child = .execve) :
    call.Simultaneous s.childTable ↔ call.SourcesKept := by
  have hstreams := Reach.streamsAt h
  rw [hexecve] at hstreams
  obtain ⟨t₀, hframe, hfiles⟩ := hstreams
  -- the sources are open in the table that the child starts with
  have hsource : ∀ d ∈ call.ioRedir.dup2s, t₀.fileAt d.1 = call.table.fileAt d.1 := by
    intro d hd
    obtain ⟨file, hfile⟩ := Option.isSome_iff_exists.1 (fileAt_isSome.2 (hopen d hd))
    rw [hfile]
    exact fileAt_of_frame hframe hfile
  have hsourceOpen : ∀ d ∈ call.ioRedir.dup2s, d.1 ∈ t₀ := by
    intro d hd
    rw [← fileAt_isSome, hsource d hd, fileAt_isSome]
    exact hopen d hd
  rw [fileAt_redirect hsourceOpen] at hfiles
  have honce : call.Simultaneous s.childTable ↔ MovedAtOnce t₀.fileAt call.ioRedir.dup2s := by
    unfold Call.Simultaneous MovedAtOnce
    rw [hfiles]
    constructor
    · intro hall d hd
      obtain ⟨hstream, hne⟩ := List.mem_filter.1 hd
      obtain ⟨file, hfile⟩ := Option.isSome_iff_exists.1 (fileAt_isSome.2 (hopen d hd))
      rw [hsource d hd, hfile]
      exact hall d hstream file (by rw [if_neg (by simpa using hne), hfile])
    · intro hall d hd file hfile
      by_cases hnull : d.1 = -1
      · rw [if_pos hnull] at hfile
        rw [moveAll_of_notMem (IoRedirection.notMem_targets hd hnull)]
        exact fileAt_of_frame hframe hfile
      · rw [if_neg hnull] at hfile
        have hmem : d ∈ call.ioRedir.dup2s := List.mem_filter.2 ⟨hd, by simpa using hnull⟩
        rw [hall d hmem, hsource d hmem, hfile]
  rw [honce, movedAtOnce_iff call.ioRedir.nodup_targets]
  refine List.Pairwise.iff_of_mem fun {d d'} hd hd' => forall_congr' fun heq => ?_
  rw [hsource d hd, ← heq, hsource d' hd']

/-- The descriptor 7 becomes the standard error of the program, and nothing else is redirected. -/
theorem simultaneous_iff_example : ∃ s,
    (spawn exampleCall).Reach (fun _ _ => True)
        (exampleHandshake ++ [.child (.closeRange none), .child (.closeRange none)]) s ∧
      exampleCall.Simultaneous s.childTable := by
  have hrun : ((spawn exampleCall).run (fun _ _ => True) (.initial exampleCall)
      (exampleHandshake ++ [.child (.closeRange none), .child (.closeRange none)])).map
        (·.child) = some .execve := by decide
  obtain ⟨s, hs, hexecve⟩ := Lts.Reach.exists_of_map_run rfl hrun
  exact ⟨s, hs, (simultaneous_iff (by decide) hs hexecve).2 (by decide)⟩

/-- The standard output and the standard error are to be swapped. -/
def swapCall : Call := { exampleCall with ioRedir := ⟨-1, 2, 1⟩, fdsToForward := [] }

def swapRun : List Label :=
  exampleFork ++ [.parent (.pidfdOpen (.ok 4)), .parent (.signal none), .child .readEvent,
    .child .closeEvent, .child .closeReadEnd, .child (.dup2 none), .child (.dup2 none),
    .child (.closeRange none)]

/-- Both streams end up where the standard error was. -/
theorem swapped_streams_merge : (∀ d ∈ swapCall.ioRedir.dup2s, d.1 ∈ swapCall.table) ∧
    ∃ s, (spawn swapCall).Reach (fun _ _ => True) swapRun s ∧ s.child = .execve ∧
      s.childTable.fileAt 1 = some (.foreign 2) ∧ s.childTable.fileAt 2 = some (.foreign 2) ∧
        ¬ swapCall.Simultaneous s.childTable := by
  have hrun : ((spawn swapCall).run (fun _ _ => True) (.initial swapCall) swapRun).map
      (fun s => (s.child, s.childTable.fileAt 1, s.childTable.fileAt 2)) =
        some (.execve, some (.foreign 2), some (.foreign 2)) := by decide
  obtain ⟨s, hs, heq⟩ := Lts.Reach.exists_of_map_run rfl hrun
  simp only [Prod.mk.injEq] at heq
  obtain ⟨hexecve, hone, htwo⟩ := heq
  refine ⟨by decide, s, hs, hexecve, hone, htwo, ?_⟩
  intro hall
  have hwrong := hall (1, 2) (by decide) (.foreign 1) (by decide)
  rw [htwo] at hwrong
  cases hwrong

end ThePipe.OsServices.ProcMgmt
