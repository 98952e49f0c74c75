import ThePipe.OsServices.ProcMgmt.Redirect

/-!
# The descriptors of a program

The whole table that a program starts with.  The standard streams are those of the caller,
redirected; above them there is what is forwarded and nothing else; and what the caller has marked
to be closed by `execve` is closed.  None of the descriptors that `spawn` has opened for itself is
left (`program_table`).
-/

set_option autoImplicit false

namespace ThePipe.OsServices.ProcMgmt

open ErrorHandling Lib Utils

/-! ## Tables that agree but for one descriptor -/

section Tables

variable {t t' : DescriptorTable} {writeEnd : NativeHandle}

theorem lookup_dup2_congr (h : ∀ fd, fd ≠ writeEnd → t.lookup fd = t'.lookup fd)
    {source target : NativeHandle} (hsource : source ≠ writeEnd) :
    ∀ fd, fd ≠ writeEnd → (t.dup2 source target).lookup fd = (t'.dup2 source target).lookup fd := by
  intro fd hfd
  unfold DescriptorTable.dup2
  rw [h source hsource]
  cases t'.lookup source with
  | none => exact h fd hfd
  | some entry =>
    dsimp only
    split
    · exact h fd hfd
    · rw [AList.lookup_insert_ite, AList.lookup_insert_ite, h fd hfd]

theorem lookup_redirect_congr (h : ∀ fd, fd ≠ writeEnd → t.lookup fd = t'.lookup fd)
    {moves : List (NativeHandle × NativeHandle)} (hmoves : ∀ d ∈ moves, d.1 ≠ writeEnd) :
    ∀ fd, fd ≠ writeEnd → (t.redirect moves).lookup fd = (t'.redirect moves).lookup fd := by
  induction moves generalizing t t' with
  | nil => exact h
  | cons d moves ih =>
    simp only [List.forall_mem_cons] at hmoves
    exact ih (lookup_dup2_congr h hmoves.1) hmoves.2

theorem lookup_redirect_of_notMem {moves : List (NativeHandle × NativeHandle)} {fd : NativeHandle}
    (h : fd ∉ moves.map Prod.snd) : (t.redirect moves).lookup fd = t.lookup fd := by
  induction moves generalizing t with
  | nil => rfl
  | cons d moves ih =>
    simp only [List.map_cons, List.mem_cons, not_or] at h
    show ((t.dup2 d.1 d.2).redirect moves).lookup fd = _
    rw [ih h.2, DescriptorTable.lookup_dup2_ne h.1]

end Tables

/-! ## The child up to `execve` -/

/-- The table that `fork` has copied, when the child has closed what is of the parent only. -/
def Forked (call : Call) (writeEnd : NativeHandle) (t : DescriptorTable) : Prop :=
  IsDescriptor writeEnd ∧ Frame call.table [(writeEnd, ⟨.pipeWrite, false⟩)] t

/-- Once the streams have been redirected, the table of the child is the one that `fork` has copied
with the redirections, and with the marks that have been made. -/
def MarkedAt (call : Call) (l : Locals) (t : DescriptorTable) : Child → Prop
  | .closeRange todo => ∃ (done : List (InclusiveIntegralRange 32)) (t₀ : DescriptorTable),
      done ++ todo = call.closeRanges ∧ Forked call l.writeEnd t₀ ∧
        t = done.foldl DescriptorTable.closeRange (t₀.redirect call.ioRedir.dup2s)
  | .execve => ∃ t₀ : DescriptorTable, Forked call l.writeEnd t₀ ∧
      t = call.closeRanges.foldl DescriptorTable.closeRange (t₀.redirect call.ioRedir.dup2s)
  | _ => True

section Steps

variable {call : Call} {l : Locals} {t t₀ : DescriptorTable}

theorem markedAt_atCloseRange {done todo : List (InclusiveIntegralRange 32)}
    (hdone : done ++ todo = call.closeRanges) (h : Forked call l.writeEnd t₀) :
    MarkedAt call l (done.foldl DescriptorTable.closeRange (t₀.redirect call.ioRedir.dup2s))
      (.atCloseRange todo) := by
  cases todo with
  | nil =>
    rw [List.append_nil] at hdone
    exact ⟨t₀, h, by rw [hdone]⟩
  | cons range todo => exact ⟨done, t₀, hdone, h, rfl⟩

theorem markedAt_atDup2 {done todo : List (NativeHandle × NativeHandle)}
    (hdone : done ++ todo = call.ioRedir.dup2s) (h : Forked call l.writeEnd t₀) :
    MarkedAt call l (t₀.redirect done) (.atDup2 call todo) := by
  cases todo with
  | nil =>
    rw [List.append_nil] at hdone
    rw [hdone]
    exact markedAt_atCloseRange (List.nil_append _) h
  | cons d todo => trivial

theorem MarkedAt.childStep {s s' : State} {l : ChildLabel}
    (h : MarkedAt call s.childLocals s.childTable s.child)
    (hstreams : StreamsAt call s.childLocals s.childTable s.child)
    (htable : TableAt call s.childLocals s.childTable s.child) (hok : ClosesRanges s (.child l))
    (hstep : ChildStep call s l s') : MarkedAt call s'.childLocals s'.childTable s'.child := by
  cases hstep with
  | interrupted => exact h
  | closeReadEnd hc =>
    rw [hc] at htable
    obtain ⟨hfd, hframe⟩ := htable
    have hsplit : Frame call.table ([(s.childLocals.writeEnd, ⟨.pipeWrite, false⟩)] ++
        (s.childLocals.execErrPipeReadEnd, ⟨.pipeRead, true⟩) :: []) s.childTable := hframe
    exact markedAt_atDup2 (List.nil_append _) ⟨hfd, hsplit.erase⟩
  | @dup2 source target todo hc =>
    rw [hc] at hstreams htable
    obtain ⟨done, t₀, hdone, hframe, heq⟩ := hstreams
    have hdone' : (done ++ [(source, target)]) ++ todo = call.ioRedir.dup2s := by
      rw [List.append_assoc]
      exact hdone
    have hnext := markedAt_atDup2 hdone' ⟨htable.2.isDescriptor, hframe⟩
    rw [redirect_concat, ← heq] at hnext
    exact hnext
  | @closeRange range todo hc =>
    rw [hc] at h
    obtain ⟨done, t₀, hdone, hforked, heq⟩ := h
    have hdone' : (done ++ [range]) ++ todo = call.closeRanges := by
      rw [List.append_assoc]
      exact hdone
    have hnext := markedAt_atCloseRange hdone' hforked
    rw [List.foldl_append, ← heq] at hnext
    exact hnext
  | closeRangeFails => exact hok.elim
  | act hc =>
    simp only [hc]
    trivial
  | _ => trivial

theorem MarkedAt.parentStep {s s' : State} {l : ParentLabel}
    (h : MarkedAt call s.childLocals s.childTable s.child) (hstep : ParentStep s l s') :
    MarkedAt call s'.childLocals s'.childTable s'.child := by
  cases hstep with
  | fork | waitpid | wait | unwindWait => trivial
  | _ => exact h

theorem Reach.markedAt {ls : List Label} {s : State} (h : (spawn call).Reach ClosesRanges ls s) :
    MarkedAt call s.childLocals s.childTable s.child := by
  refine Reach.spawn_invariant
    (I := fun _ s => MarkedAt call s.childLocals s.childTable s.child) trivial ?_ ?_ h
  · intro ls s l s' _ hmarked _ hstep
    exact hmarked.parentStep hstep
  · intro ls s l s' hreach hmarked hok hstep
    exact hmarked.childStep (Reach.streamsAt hreach) (Reach.tableAt (fun _ _ h => h) hreach) hok
      hstep

end Steps

/-! ## The table after `execve` -/

/-- What the caller means its program to have: of its own table, with the streams redirected, the
standard streams and what is forwarded, unless it is to be closed by `execve`. -/
def Call.programTable (call : Call) (fd : NativeHandle) : Option Entry :=
  if fd < 3 ∨ fd ∈ call.fdsToForward then (call.table.redirect call.ioRedir.dup2s).exec.lookup fd
  else none

section Program

variable {call : Call} {writeEnd : ℤ} {t₀ : DescriptorTable}

theorem Call.dup2s_targets {d : ℤ × ℤ} (h : d ∈ call.ioRedir.dup2s) :
    0 ≤ d.2 ∧ d.2 < 3 := by
  have hmem := (List.mem_filter.1 h).1
  simp only [List.mem_cons, List.not_mem_nil, or_false] at hmem
  rcases hmem with rfl | rfl | rfl <;> simp

theorem any_closeRanges_of_open (h : ∀ fd ∈ call.fdsToForward, IsHandle fd)
    (honce : call.ForwardsOnce) {fd : ℤ} (hfd : IsDescriptor fd) :
    call.closeRanges.any (fun r => decide (r.Contains (DescriptorTable.toUnsigned fd))) = true ↔
      3 ≤ fd ∧ fd ∉ call.fdsToForward := by
  by_cases hge : 3 ≤ fd
  · rw [any_closeRanges h honce hfd hge]
    simp [hge]
  · have hstandard : 0 ≤ fd ∧ fd < 3 := by
      obtain ⟨hnonneg, -⟩ := hfd
      omega
    refine iff_of_false ?_ (by simp [hge])
    rw [any_closeRanges_iff, covers_closeRanges h honce]
    rintro ⟨hcovered, -⟩
    exact (DescriptorTable.three_le_toUnsigned hfd.isHandle).1 hcovered hstandard

theorem Forked.isDescriptor (h : Forked call writeEnd t₀) {fd : ℤ} {entry : Entry}
    (hlookup : (t₀.redirect call.ioRedir.dup2s).lookup fd = some entry) : IsDescriptor fd := by
  by_cases htarget : fd ∈ call.ioRedir.dup2s.map Prod.snd
  · obtain ⟨d, hd, rfl⟩ := List.mem_map.1 htarget
    obtain ⟨hnonneg, hlt⟩ := Call.dup2s_targets hd
    exact ⟨hnonneg, by omega⟩
  · rw [lookup_redirect_of_notMem htarget] at hlookup
    rcases h.2.lookup_cases hlookup with hown | hbase
    · rw [List.mem_singleton] at hown
      cases hown
      exact h.1
    · exact call.inRange ⟨fd, entry⟩ (AList.mem_lookup_iff.1 hbase)

/-- But for the write end of the error pipe, the table is that of the caller. -/
theorem Forked.lookup_redirect (h : Forked call writeEnd t₀) (hprepared : call.Prepared)
    {fd : ℤ} (hfd : fd ≠ writeEnd) :
    (t₀.redirect call.ioRedir.dup2s).lookup fd =
      (call.table.redirect call.ioRedir.dup2s).lookup fd := by
  refine lookup_redirect_congr ?_ ?_ fd hfd
  · intro fd' hfd'
    have hbeq : (fd' == writeEnd) = false := beq_false_of_ne hfd'
    rw [h.2.lookup, List.lookup_cons, hbeq]
    rfl
  · intro d hd heq
    have hopen := hprepared.redirected d hd
    have hfresh := h.2.fresh _ (List.mem_singleton_self _)
    rw [← AList.lookup_isSome, heq, hfresh] at hopen
    cases hopen

theorem Forked.writeEnd_closed (h : Forked call writeEnd t₀) (hprepared : call.Prepared) :
    3 ≤ writeEnd ∧ writeEnd ∉ call.fdsToForward := by
  have hfresh := h.2.fresh _ (List.mem_singleton_self _)
  have hclosed : writeEnd ∉ call.table := AList.lookup_eq_none.1 hfresh
  obtain ⟨hnonneg, hlt⟩ := h.1
  have hne : ∀ fd ∈ ([0, 1, 2] : List ℤ), writeEnd ≠ fd := by
    rintro fd hfd rfl
    exact hclosed (hprepared.standard _ hfd)
  refine ⟨?_, ?_⟩
  · have h0 := hne 0 (by simp)
    have h1 := hne 1 (by simp)
    have h2 := hne 2 (by simp)
    omega
  · intro hmem
    rcases hprepared.forwarded _ hmem with hnull | hopen
    · rw [hnull] at hnonneg
      exact absurd hnonneg (by decide)
    · exact hclosed hopen

theorem Forked.lookup_exec (h : Forked call writeEnd t₀) (hprepared : call.Prepared)
    (honce : call.ForwardsOnce) (fd : ℤ) :
    (call.closeRanges.foldl DescriptorTable.closeRange
      (t₀.redirect call.ioRedir.dup2s)).exec.lookup fd = call.programTable fd := by
  have hany (hfd : IsDescriptor fd) := any_closeRanges_of_open hprepared.isHandle honce hfd
  ext entry
  unfold Call.programTable
  rw [DescriptorTable.lookup_exec, DescriptorTable.lookup_foldl_closeRange,
    Option.map_eq_some_iff]
  constructor
  · rintro ⟨⟨entry₀, hlookup, rfl⟩, hflag⟩
    simp only [Bool.or_eq_false_iff] at hflag
    obtain ⟨hopen, hnot⟩ := hflag
    have hleft : fd < 3 ∨ fd ∈ call.fdsToForward := by
      have hmarked := mt (hany (h.isDescriptor hlookup)).2 (by rw [hnot]; decide)
      rw [not_and_or, not_not, not_le] at hmarked
      exact hmarked
    have hne : fd ≠ writeEnd := by
      rintro rfl
      obtain ⟨hge, hnotMem⟩ := h.writeEnd_closed hprepared
      exact hleft.elim hge.not_gt hnotMem
    rw [if_pos hleft, DescriptorTable.lookup_exec, ← h.lookup_redirect hprepared hne, hlookup]
    have hentry : { entry₀ with cloexec := entry₀.cloexec || false } = entry₀ := by
      rw [Bool.or_false]
    rw [hnot, hentry]
    exact ⟨rfl, hopen⟩
  · intro hlookup
    split at hlookup
    · next hleft =>
      obtain ⟨hcaller, hopen⟩ := DescriptorTable.lookup_exec.1 hlookup
      have hne : fd ≠ writeEnd := by
        rintro rfl
        obtain ⟨hge, hnotMem⟩ := h.writeEnd_closed hprepared
        exact hleft.elim hge.not_gt hnotMem
      rw [← h.lookup_redirect hprepared hne] at hcaller
      have hnot : call.closeRanges.any
          (fun r => decide (r.Contains (DescriptorTable.toUnsigned fd))) = false := by
        rw [← Bool.not_eq_true, hany (h.isDescriptor hcaller), not_and_or, not_not, not_le]
        exact hleft
      refine ⟨⟨entry, hcaller, ?_⟩, hopen⟩
      rw [hnot, Bool.or_false]
    · cases hlookup

theorem MarkedAt.execve {s s' : State} (h : MarkedAt call s.childLocals s.childTable s.child)
    (hprepared : call.Prepared) (honce : call.ForwardsOnce)
    (hexecve : s.step call (.child (.execve none)) = some s') :
    s'.child = .program call.image ∧ ∀ fd, s'.childTable.lookup fd = call.programTable fd := by
  cases childStep_cases hexecve with
  | execve hc =>
    rw [hc] at h
    obtain ⟨t₀, hforked, htable⟩ := h
    refine ⟨rfl, ?_⟩
    intro fd
    show s.childTable.exec.lookup fd = _
    rw [htable]
    exact hforked.lookup_exec hprepared honce fd

end Program

end ThePipe.OsServices.ProcMgmt
