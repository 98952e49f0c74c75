import ThePipe.OsServices.ProcMgmt.Ownership

/-!
# What a program inherits

The descriptor table of the child, from the fork to `execve`.  From 3 on it is that of the caller
with the write end of the error pipe added, and the calls of `close_range` mark all of it but the
forwarded descriptors.
-/

set_option autoImplicit false

namespace ThePipe.OsServices.ProcMgmt

open ErrorHandling Lib Utils

/-! ## The ranges -/

section Ranges

variable {call : Call}

/-- What makes `flat_set` keep its promise where it matters: nothing is forwarded twice, or nothing
but the standard streams is forwarded. -/
def Call.ForwardsOnce (call : Call) : Prop :=
  call.fdsToForward.Nodup ∨ ∀ fd ∈ call.fdsToForward, 0 ≤ fd ∧ fd < 3

instance : DecidablePred Call.ForwardsOnce := fun call => by
  unfold Call.ForwardsOnce; infer_instance

theorem le_allOnes (n : BitVec 32) : n ≤ BitVec.allOnes 32 := by
  rw [BitVec.le_def, BitVec.toNat_allOnes]
  omega

theorem nodup_map_toUnsigned (h : ∀ fd ∈ call.fdsToForward, IsHandle fd) :
    (call.fdsToForward.map DescriptorTable.toUnsigned).Nodup ↔ call.fdsToForward.Nodup := by
  constructor
  · exact List.Nodup.of_map _
  · intro hnodup
    rw [List.nodup_map_iff_inj_on hnodup]
    intro fd hfd fd' hfd' heq
    exact (DescriptorTable.toUnsigned_inj (h fd hfd) (h fd' hfd')).1 heq

/-- The ranges do not miss a descriptor that is not forwarded. -/
theorem covers_closeRanges_of_notMem (h : ∀ fd ∈ call.fdsToForward, IsHandle fd) {fd : ℤ}
    (hfd : IsDescriptor fd) (hge : 3 ≤ fd) (hnot : fd ∉ call.fdsToForward) :
    Covers call.closeRanges (DescriptorTable.toUnsigned fd) := by
  have hnat := DescriptorTable.toUnsigned_toNat hfd
  refine covers_forEachDisjointSegment_of_notMem ⟨?_, le_allOnes _⟩ ?_ ?_
  · rw [BitVec.le_def, hnat]
    show 3 ≤ fd.toNat
    omega
  · intro heq
    have hlast := congrArg BitVec.toNat heq
    rw [hnat, BitVec.toNat_allOnes] at hlast
    have := hfd.2
    omega
  · intro hmem
    obtain ⟨fd', hfd', heq⟩ := FlatSet.mem_make.1 hmem
    rw [DescriptorTable.toUnsigned_inj (h fd' hfd') hfd.isHandle] at heq
    exact hnot (heq ▸ hfd')

theorem any_closeRanges_iff {n : BitVec 32} :
    call.closeRanges.any (fun r => decide (r.Contains n)) = true ↔ Covers call.closeRanges n := by
  simp [Covers]

theorem closeRanges_of_standard (h : ∀ fd ∈ call.fdsToForward, IsHandle fd)
    (hstandard : ∀ fd ∈ call.fdsToForward, 0 ≤ fd ∧ fd < 3) :
    call.closeRanges = [⟨3, BitVec.allOnes 32⟩] := by
  refine forEachDisjointSegment_of_eq_nil ?_
  rw [values_trim_of_le fun n _ => le_allOnes n, List.dropWhile_eq_nil_iff]
  intro n hn
  obtain ⟨fd, hfd, rfl⟩ := FlatSet.mem_make.1 hn
  have hless := mt (DescriptorTable.three_le_toUnsigned (h fd hfd)).1 (not_not.2 (hstandard fd hfd))
  simpa using hless

/-- No handle is converted to the last number but one, so that no range of one number gets lost at
the upper end. -/
theorem covers_closeRanges (h : ∀ fd ∈ call.fdsToForward, IsHandle fd) (honce : call.ForwardsOnce)
    (n : BitVec 32) : Covers call.closeRanges n ↔
      3 ≤ n ∧ ∀ fd ∈ call.fdsToForward, DescriptorTable.toUnsigned fd ≠ n := by
  rcases honce with hnodup | hstandard
  · have hs : call.fdsToKeep.Increasing :=
      FlatSet.increasing_make ((nodup_map_toUnsigned h).2 hnodup)
    have hlast : ¬ (n = BitVec.allOnes 32 ∧
        ∃ p ∈ call.fdsToKeep.values, 3 ≤ p ∧ p < n ∧ p + 1 = n) := by
      rintro ⟨rfl, p, hp, -, -, heq⟩
      obtain ⟨fd, hfd, rfl⟩ := FlatSet.mem_make.1 hp
      exact DescriptorTable.toUnsigned_add_one_ne (h fd hfd) heq
    rw [Call.closeRanges, covers_forEachDisjointSegment hs, and_iff_left hlast]
    simp only [InclusiveIntegralRange.Contains, and_true, le_allOnes, Call.fdsToKeep,
      FlatSet.mem_make]
    push Not
    rfl
  · rw [closeRanges_of_standard h hstandard, covers_singleton, InclusiveIntegralRange.Contains,
      and_iff_left (le_allOnes n), iff_self_and]
    rintro hge fd hfd rfl
    exact (DescriptorTable.three_le_toUnsigned (h fd hfd)).1 hge (hstandard fd hfd)

theorem ordered_closeRanges (h : ∀ fd ∈ call.fdsToForward, IsHandle fd)
    (honce : call.ForwardsOnce) : Ordered call.closeRanges 3 (BitVec.allOnes 32) := by
  rcases honce with hnodup | hstandard
  · exact ordered_forEachDisjointSegment
      (FlatSet.increasing_make ((nodup_map_toUnsigned h).2 hnodup)) (by decide)
  · rw [closeRanges_of_standard h hstandard]
    exact ⟨List.pairwise_singleton _ _, by decide, by decide⟩

/-- `close_range` is called for the descriptor exactly when it is not forwarded. -/
theorem any_closeRanges (h : ∀ fd ∈ call.fdsToForward, IsHandle fd) (honce : call.ForwardsOnce)
    {fd : ℤ} (hfd : IsDescriptor fd) (hge : 3 ≤ fd) :
    call.closeRanges.any (fun r => decide (r.Contains (DescriptorTable.toUnsigned fd))) = true ↔
      fd ∉ call.fdsToForward := by
  rw [any_closeRanges_iff]
  constructor
  · intro hcovers hmem
    exact ((covers_closeRanges h honce _).1 hcovers).2 fd hmem rfl
  · exact covers_closeRanges_of_notMem h hfd hge

/-- What is forwarded twice spoils the ranges, unless they start behind it. -/
theorem forwardsOnce_of_disjoint (h : ∀ fd ∈ call.fdsToForward, IsHandle fd)
    (hdisjoint : call.closeRanges.Pairwise fun r r' => ∀ n, ¬ (r.Contains n ∧ r'.Contains n))
    (hnonempty : ∀ r ∈ call.closeRanges, r.startAt ≤ r.stopAt) : call.ForwardsOnce := by
  by_contra honce
  rw [Call.ForwardsOnce, not_or, ← nodup_map_toUnsigned h] at honce
  obtain ⟨htwice, hother⟩ := honce
  obtain ⟨before, between, greatest, hle, hvalues⟩ := FlatSet.values_make_of_not_nodup htwice
  push Not at hother
  obtain ⟨fd, hfd, hstandard⟩ := hother
  have hgreatest : (3 : BitVec 32) ≤ greatest :=
    ((DescriptorTable.three_le_toUnsigned (h fd hfd)).2 fun hs => hs.2.not_ge (hstandard hs.1)).trans
      (hle fd hfd)
  have htrim : (trim ⟨3, BitVec.allOnes 32⟩ call.fdsToKeep).values =
      before.dropWhile (fun val => decide (val < 3)) ++ greatest :: (between ++ [greatest]) := by
    have hstays : (greatest :: (between ++ [greatest])).dropWhile (fun val => decide (val < 3)) =
        greatest :: (between ++ [greatest]) :=
      List.dropWhile_cons_of_neg (by simpa using hgreatest)
    rw [values_trim_of_le fun n _ => le_allOnes n, Call.fdsToKeep, hvalues, List.dropWhile_append,
      hstays]
    split
    · next hempty => rw [List.isEmpty_iff.1 hempty, List.nil_append]
    · rfl
  refine not_disjoint_of_greatest_twice htrim (by decide) rfl ?_ hnonempty hdisjoint
  intro p hp
  obtain ⟨fd', hfd', rfl⟩ := FlatSet.mem_make.1 (infix_trim.subset hp)
  exact ⟨hle fd' hfd', DescriptorTable.toUnsigned_add_one_ne (h fd' hfd')⟩

end Ranges

/-! ## The table of the child -/

/-- What the handshake asks of the caller: the standard streams are open, and what is redirected or
forwarded is open or null. -/
structure Call.Prepared (call : Call) : Prop where
  standard : ∀ fd ∈ ([0, 1, 2] : List NativeHandle), fd ∈ call.table
  redirected : ∀ d ∈ call.ioRedir.dup2s, d.1 ∈ call.table
  forwarded : ∀ fd ∈ call.fdsToForward, fd = -1 ∨ fd ∈ call.table

theorem Call.Prepared.isHandle {call : Call} (h : call.Prepared) :
    ∀ fd ∈ call.fdsToForward, IsHandle fd := by
  intro fd hfd
  rcases h.forwarded fd hfd with rfl | hopen
  · decide
  · obtain ⟨entry, hlookup⟩ := Option.isSome_iff_exists.1 (AList.lookup_isSome.2 hopen)
    exact (call.inRange ⟨fd, entry⟩ (AList.mem_lookup_iff.1 hlookup)).isHandle

/-- The table of the child while the standard streams are redirected. -/
structure Redirected (call : Call) (writeEnd : NativeHandle) (t : DescriptorTable) : Prop where
  isDescriptor : IsDescriptor writeEnd
  /-- The write end was not open before. -/
  fresh : call.table.lookup writeEnd = none
  /-- Above the standard streams there is what the caller has, and the write end. -/
  lookup : ∀ fd : ℤ, 3 ≤ fd →
    t.lookup fd = if fd = writeEnd then some ⟨.pipeWrite, false⟩ else call.table.lookup fd
  /-- Nothing else refers to the write end. -/
  writer : call.Prepared → ∀ fd, (t.lookup fd).map Entry.file = some .pipeWrite → fd = writeEnd

/-- The table of the child, by what the child does next. -/
def TableAt (call : Call) (l : Locals) (t : DescriptorTable) : Child → Prop
  | .readEvent | .closeEvent =>
    IsDescriptor l.writeEnd ∧ Frame call.table (ownerPart l.parentReadyFd ⟨.event, false⟩ ++
      [(l.writeEnd, ⟨.pipeWrite, false⟩), (l.execErrPipeReadEnd, ⟨.pipeRead, true⟩)]) t
  | .closeReadEnd =>
    IsDescriptor l.writeEnd ∧ Frame call.table
      [(l.writeEnd, ⟨.pipeWrite, false⟩), (l.execErrPipeReadEnd, ⟨.pipeRead, true⟩)] t
  | .dup2 todo => todo <:+ call.ioRedir.dup2s ∧ Redirected call l.writeEnd t
  | .closeRange todo => ∃ done t₀, done ++ todo = call.closeRanges ∧
      Redirected call l.writeEnd t₀ ∧ t = done.foldl DescriptorTable.closeRange t₀
  | .execve => ∃ t₀, Redirected call l.writeEnd t₀ ∧
      t = call.closeRanges.foldl DescriptorTable.closeRange t₀
  | .fail _ => call.Prepared → (t.lookup l.writeEnd).map Entry.file = some .pipeWrite
  | .program _ => call.Prepared → ¬ t.Has .pipeWrite
  | _ => True

namespace Redirected

variable {call : Call} {writeEnd : ℤ} {t : DescriptorTable}

theorem three_le (h : Redirected call writeEnd t) (hprepared : call.Prepared) :
    3 ≤ writeEnd := by
  obtain ⟨hnonneg, -⟩ := h.isDescriptor
  have hopen : ∀ fd ∈ ([0, 1, 2] : List ℤ), writeEnd ≠ fd := by
    rintro fd hfd rfl
    have hmem := hprepared.standard _ hfd
    rw [← AList.lookup_isSome, h.fresh] at hmem
    cases hmem
  have h0 := hopen 0 (by simp)
  have h1 := hopen 1 (by simp)
  have h2 := hopen 2 (by simp)
  omega

theorem lookup_foldl (h : Redirected call writeEnd t) (hprepared : call.Prepared)
    (ranges : List (InclusiveIntegralRange 32)) :
    ((ranges.foldl DescriptorTable.closeRange t).lookup writeEnd).map Entry.file =
      some .pipeWrite := by
  rw [DescriptorTable.lookup_foldl_closeRange, h.lookup _ (h.three_le hprepared), if_pos rfl]
  rfl

theorem of_frame (hfd : IsDescriptor writeEnd)
    (h : Frame call.table [(writeEnd, ⟨.pipeWrite, false⟩)] t) : Redirected call writeEnd t where
  isDescriptor := hfd
  fresh := h.fresh _ (List.mem_singleton_self _)
  lookup fd _ := by
    rw [h.lookup, List.lookup_cons]
    split
    · next heq => rw [if_pos (eq_of_beq heq)]; rfl
    · next heq => rw [if_neg (by simpa using heq)]; rfl
  writer _ fd hfile := by
    obtain ⟨entry, hlookup, hfile⟩ := Option.map_eq_some_iff.1 hfile
    rcases h.lookup_cases hlookup with hmem | hbase
    · exact congrArg Prod.fst (List.mem_singleton.1 hmem)
    · have houtside := call.lookup_outside hbase
      rw [hfile] at houtside
      exact houtside.elim

theorem dup2 (h : Redirected call writeEnd t) {source target : NativeHandle}
    (hmem : (source, target) ∈ call.ioRedir.dup2s) :
    Redirected call writeEnd (t.dup2 source target) where
  isDescriptor := h.isDescriptor
  fresh := h.fresh
  lookup fd hge := by
    have hne : fd ≠ target := by
      have htarget : target = 0 ∨ target = 1 ∨ target = 2 := by
        have := (List.mem_filter.1 hmem).1
        simp only [List.mem_cons, Prod.mk.injEq, List.not_mem_nil, or_false] at this
        tauto
      rintro rfl
      rcases htarget with rfl | rfl | rfl <;> omega
    rw [DescriptorTable.lookup_dup2_ne hne, h.lookup fd hge]
  writer hprepared fd hfile := by
    obtain ⟨entry, hlookup, hfile⟩ := Option.map_eq_some_iff.1 hfile
    obtain ⟨fd', entry', hlookup', hfile', hfd⟩ := DescriptorTable.lookup_dup2_file hlookup
    have heq := h.writer hprepared fd' (by rw [hlookup', Option.map_some, hfile', hfile])
    rcases hfd with rfl | rfl
    · exact heq
    · have hopen := hprepared.redirected _ hmem
      rw [← AList.lookup_isSome, heq, h.fresh] at hopen
      cases hopen

theorem not_has_exec (h : Redirected call writeEnd t) (hprepared : call.Prepared) :
    ¬ (call.closeRanges.foldl DescriptorTable.closeRange t).exec.Has .pipeWrite := by
  rw [DescriptorTable.has_iff]
  rintro ⟨fd, hfile⟩
  obtain ⟨entry, hlookup, hfile⟩ := Option.map_eq_some_iff.1 hfile
  obtain ⟨hmarked, hflag⟩ := DescriptorTable.lookup_exec.1 hlookup
  rw [DescriptorTable.lookup_foldl_closeRange] at hmarked
  obtain ⟨entry₀, hlookup₀, rfl⟩ := Option.map_eq_some_iff.1 hmarked
  obtain rfl : fd = writeEnd :=
    h.writer hprepared fd (by rw [hlookup₀, Option.map_some]; exact congrArg some hfile)
  have hnot : fd ∉ call.fdsToForward := by
    intro hmem
    rcases hprepared.forwarded fd hmem with rfl | hopen
    · exact absurd h.isDescriptor (by decide)
    · rw [← AList.lookup_isSome, h.fresh] at hopen
      cases hopen
  have hany := any_closeRanges_iff.2 (covers_closeRanges_of_notMem hprepared.isHandle
    h.isDescriptor (h.three_le hprepared) hnot)
  simp only [Bool.or_eq_false_iff] at hflag
  rw [hany] at hflag
  exact absurd hflag.2 (by decide)

end Redirected

section Steps

variable {call : Call} {l : Locals} {t : DescriptorTable}

theorem tableAt_atCloseRange {done todo : List (InclusiveIntegralRange 32)}
    (hdone : done ++ todo = call.closeRanges) (h : Redirected call l.writeEnd t) :
    TableAt call l (done.foldl DescriptorTable.closeRange t) (.atCloseRange todo) := by
  cases todo with
  | nil =>
    rw [List.append_nil] at hdone
    exact ⟨t, h, by rw [hdone]⟩
  | cons range todo => exact ⟨done, t, hdone, h, rfl⟩

theorem tableAt_atDup2 {todo : List (NativeHandle × NativeHandle)}
    (htodo : todo <:+ call.ioRedir.dup2s) (h : Redirected call l.writeEnd t) :
    TableAt call l t (.atDup2 call todo) := by
  cases todo with
  | nil => exact tableAt_atCloseRange (List.nil_append _) h
  | cons d todo => exact ⟨htodo, h⟩

/-- `close_range` does not fail. -/
def ClosesRanges (_ : State) : Label → Prop
  | .child (.closeRange (some _)) => False
  | _ => True

instance (s : State) (l : Label) : Decidable (ClosesRanges s l) := by
  unfold ClosesRanges; split <;> infer_instance

theorem TableAt.childStep {s s' : State} {l : ChildLabel}
    (h : TableAt call s.childLocals s.childTable s.child) (hok : ClosesRanges s (.child l))
    (hstep : ChildStep call s l s') : TableAt call s'.childLocals s'.childTable s'.child := by
  cases hstep with
  | interrupted => exact h
  | readEvent hc =>
    rw [hc] at h
    exact h
  | closeEvent hc =>
    rw [hc] at h
    exact ⟨h.1, frame_reset_owner [] h.2⟩
  | closeReadEnd hc =>
    rw [hc] at h
    obtain ⟨hfd, hframe⟩ := h
    have hsplit : Frame call.table ([(s.childLocals.writeEnd, ⟨.pipeWrite, false⟩)] ++
        (s.childLocals.execErrPipeReadEnd, ⟨.pipeRead, true⟩) :: []) s.childTable := hframe
    exact tableAt_atDup2 List.suffix_rfl (Redirected.of_frame hfd hsplit.erase)
  | dup2 hc =>
    rw [hc] at h
    obtain ⟨hsuffix, hredirected⟩ := h
    exact tableAt_atDup2 ((List.suffix_cons _ _).trans hsuffix)
      (hredirected.dup2 (hsuffix.subset List.mem_cons_self))
  | dup2Fails hc =>
    rw [hc] at h
    -- nothing has been marked yet
    exact fun hprepared => h.2.lookup_foldl hprepared []
  | @closeRange range todo hc =>
    rw [hc] at h
    -- `done` are the ranges that have been marked
    obtain ⟨done, t₀, hdone, hredirected, htable⟩ := h
    have hdone' : (done ++ [range]) ++ todo = call.closeRanges := by
      rw [List.append_assoc]
      exact hdone
    have hnext := tableAt_atCloseRange hdone' hredirected
    rw [List.foldl_append, ← htable] at hnext
    exact hnext
  | closeRangeFails => exact hok.elim
  | execve hc =>
    rw [hc] at h
    obtain ⟨t₀, hredirected, htable⟩ := h
    intro hprepared
    rw [htable]
    -- the write end is marked by now, and is closed
    exact hredirected.not_has_exec hprepared
  | execveFails hc =>
    rw [hc] at h
    obtain ⟨t₀, hredirected, htable⟩ := h
    intro hprepared
    rw [htable]
    exact hredirected.lookup_foldl hprepared _
  | act hc htable =>
    rw [hc] at h
    simp only [hc]
    -- a program only gets files from outside and copies of what it has
    rintro hprepared ⟨d, hd, hfile⟩
    rcases htable d hd with houtside | hhas
    · rw [hfile] at houtside
      exact houtside
    · rw [hfile] at hhas
      exact h hprepared hhas
  | _ => trivial

theorem Ownership.tableAt_fork {s : State} (h : Ownership call s) (hp : s.parent = .fork) :
    TableAt call s.locals s.table .readEvent := by
  have howners := h.owners
  have hframe := h.frame
  rw [hp] at howners
  obtain ⟨hfd, hread, -, hpidfd⟩ := howners
  have hne : s.locals.writeEnd ≠ -1 := by
    intro hnull
    rw [hnull] at hfd
    exact absurd hfd (by decide)
  unfold State.own State.releasedReadEnd at hframe
  simp only [hp, hread, hpidfd, ownerPart_null, List.nil_append, ownerPart_of_ne hne,
    Parent.HoldsReadEnd, if_true, List.singleton_append] at hframe
  exact ⟨hfd, hframe⟩

theorem TableAt.parentStep {s s' : State} {l : ParentLabel}
    (h : TableAt call s.childLocals s.childTable s.child) (howns : Ownership call s)
    (hstep : ParentStep s l s') : TableAt call s'.childLocals s'.childTable s'.child := by
  cases hstep with
  | fork hp => exact howns.tableAt_fork hp
  | waitpid | wait | unwindWait => trivial
  | _ => exact h

theorem Reach.tableAt {ok : State → Label → Prop} {ls : List Label} {s : State}
    (hok : ∀ s l, ok s l → ClosesRanges s l) (h : (spawn call).Reach ok ls s) :
    TableAt call s.childLocals s.childTable s.child := by
  refine Reach.spawn_invariant
    (I := fun _ s => TableAt call s.childLocals s.childTable s.child) trivial ?_ ?_ h
  · intro ls s l s' hreach htable _ hstep
    exact htable.parentStep (Reach.ownership hreach) hstep
  · intro ls s l s' _ htable hallowed hstep
    exact htable.childStep (hok _ _ hallowed) hstep

end Steps

/-! ## What is inherited -/

theorem Redirected.lookup_exec {call : Call} {writeEnd fd : ℤ} {t : DescriptorTable}
    {entry : Entry} (h : Redirected call writeEnd t)
    (hhandles : ∀ fd ∈ call.fdsToForward, IsHandle fd) (honce : call.ForwardsOnce)
    (hforwarded : ∀ fd ∈ call.fdsToForward,
      fd = -1 ∨ ∃ entry, call.table.lookup fd = some entry ∧ entry.cloexec = false)
    (hge : 3 ≤ fd) :
    (call.closeRanges.foldl DescriptorTable.closeRange t).exec.lookup fd = some entry ↔
      fd ∈ call.fdsToForward ∧ call.table.lookup fd = some entry := by
  -- the number of the write end was free when `spawn` was called
  have hwrite : writeEnd ∉ call.fdsToForward := by
    intro hmem
    rcases hforwarded writeEnd hmem with hnull | ⟨entry, hlookup, -⟩
    · have hfd := h.isDescriptor
      rw [hnull] at hfd
      exact absurd hfd (by decide)
    · rw [h.fresh] at hlookup
      cases hlookup
  rw [DescriptorTable.lookup_exec, DescriptorTable.lookup_foldl_closeRange, h.lookup fd hge,
    Option.map_eq_some_iff]
  constructor
  · rintro ⟨⟨entry₀, hlookup, rfl⟩, hflag⟩
    simp only [Bool.or_eq_false_iff] at hflag
    obtain ⟨hopen, hnot⟩ := hflag
    split at hlookup
    · next heq =>
      rw [heq] at hnot hge
      -- the write end has been marked
      rw [(any_closeRanges hhandles honce h.isDescriptor hge).2 hwrite] at hnot
      cases hnot
    · have hfd : IsDescriptor fd := call.inRange ⟨fd, entry₀⟩ (AList.mem_lookup_iff.1 hlookup)
      have hmem : fd ∈ call.fdsToForward := by
        by_contra hmem
        rw [(any_closeRanges hhandles honce hfd hge).2 hmem] at hnot
        cases hnot
      refine ⟨hmem, ?_⟩
      rw [hlookup, hnot, hopen]
      simp [← hopen]
  · rintro ⟨hmem, hlookup⟩
    have hne : fd ≠ writeEnd := by
      rintro rfl
      exact hwrite hmem
    have hfd : IsDescriptor fd := call.inRange ⟨fd, entry⟩ (AList.mem_lookup_iff.1 hlookup)
    have hopen : entry.cloexec = false := by
      rcases hforwarded fd hmem with hnull | ⟨entry', hlookup', hopen⟩
      · rw [hnull] at hge
        exact absurd hge (by decide)
      · rw [hlookup, Option.some_inj] at hlookup'
        rw [hlookup']
        exact hopen
    have hnot : call.closeRanges.any
        (fun r => decide (r.Contains (DescriptorTable.toUnsigned fd))) = false := by
      rw [← Bool.not_eq_true, any_closeRanges hhandles honce hfd hge, not_not]
      exact hmem
    refine ⟨⟨entry, by rw [if_neg hne, hlookup], ?_⟩, hopen⟩
    rw [hnot, Bool.or_false]

/-- What a call of `spawn` promises about descriptors.  The calls of `close_range` are for disjoint
ranges, none of them inverted, which cover the numbers from 3 on that are not forwarded.  When they
succeed, and what is forwarded is open and not marked, or null, the descriptors from 3 on that are
open after `execve` are the forwarded ones, with the files they had. -/
structure Call.InheritsForwarded (call : Call) : Prop where
  disjoint : call.closeRanges.Pairwise fun r r' => ∀ n, ¬ (r.Contains n ∧ r'.Contains n)
  nonempty : ∀ r ∈ call.closeRanges, r.startAt ≤ r.stopAt
  covers : ∀ n, Covers call.closeRanges n ↔
    3 ≤ n ∧ ∀ fd ∈ call.fdsToForward, DescriptorTable.toUnsigned fd ≠ n
  inherits : ∀ ls s s', (spawn call).Reach ClosesRanges ls s →
    (∀ fd ∈ call.fdsToForward,
      fd = -1 ∨ ∃ entry, call.table.lookup fd = some entry ∧ entry.cloexec = false) →
    s.step call (.child (.execve none)) = some s' → ∀ fd : ℤ, 3 ≤ fd → ∀ entry,
      (s'.childTable.lookup fd = some entry ↔
        fd ∈ call.fdsToForward ∧ call.table.lookup fd = some entry) ∧
      (s'.childTable.lookup fd = some entry →
        entry.file ≠ .pipeRead ∧ entry.file ≠ .pipeWrite ∧ entry.file ≠ .event)

/-- **When a program inherits exactly what is forwarded**: if and only if no handle is forwarded
twice, or all that is forwarded are standard streams. -/
theorem inheritsForwarded_iff (call : Call) (hhandles : ∀ fd ∈ call.fdsToForward, IsHandle fd) :
    call.InheritsForwarded ↔ call.ForwardsOnce := by
  refine ⟨fun h => forwardsOnce_of_disjoint hhandles h.disjoint h.nonempty, fun honce => ?_⟩
  have hordered := ordered_closeRanges hhandles honce
  refine ⟨hordered.disjoint, hordered.nonempty, covers_closeRanges hhandles honce, ?_⟩
  intro ls s s' hreach hforwarded hstep fd hge entry
  have htable := Reach.tableAt (fun _ _ hok => hok) hreach
  cases childStep_cases hstep with
  | execve hc =>
    rw [hc] at htable
    obtain ⟨t₀, hredirected, htable⟩ := htable
    have hinherits : s.childTable.exec.lookup fd = some entry ↔
        fd ∈ call.fdsToForward ∧ call.table.lookup fd = some entry := by
      rw [htable]
      exact hredirected.lookup_exec hhandles honce hforwarded hge
    refine ⟨hinherits, fun hlookup => ?_⟩
    have houtside := call.lookup_outside (hinherits.1 hlookup).2
    refine ⟨?_, ?_, ?_⟩ <;>
    · intro hfile
      rw [hfile] at houtside
      exact houtside

/-- Of the descriptors 7, -1 and 0, all of which are forwarded, the program inherits the first, and
the error pipe is closed. -/
theorem inheritsForwarded_iff_example :
    (∀ n, Covers exampleCall.closeRanges n ↔
        3 ≤ n ∧ ∀ fd ∈ exampleCall.fdsToForward, DescriptorTable.toUnsigned fd ≠ n) ∧
      ∃ s s', (spawn exampleCall).Reach ClosesRanges
          (exampleHandshake ++ [.child (.closeRange none), .child (.closeRange none)]) s ∧
        s.step exampleCall (.child (.execve none)) = some s' ∧
        s'.childTable.lookup 7 = some ⟨.foreign 3, false⟩ ∧ s'.childTable.lookup 4 = none := by
  have hinherits := (inheritsForwarded_iff exampleCall (by decide)).2 (by decide)
  refine ⟨hinherits.covers, ?_⟩
  have hrun : ((spawn exampleCall).run ClosesRanges (.initial exampleCall)
      (exampleHandshake ++ [.child (.closeRange none), .child (.closeRange none)])).map
        (·.child) = some .execve := by decide
  obtain ⟨s, hs, hexecve⟩ := Lts.Reach.exists_of_map_run rfl hrun
  obtain ⟨s', hstep⟩ : ∃ s', s.step exampleCall (.child (.execve none)) = some s' := by
    simp [State.step, childStep, hexecve]
  have hforwarded : ∀ fd ∈ exampleCall.fdsToForward, fd = -1 ∨
      ∃ entry, exampleCall.table.lookup fd = some entry ∧ entry.cloexec = false := by
    intro fd hfd
    have hcases : fd = 7 ∨ fd = -1 ∨ fd = 0 := by simpa [exampleCall] using hfd
    rcases hcases with rfl | rfl | rfl
    · exact .inr ⟨⟨.foreign 3, false⟩, by decide, rfl⟩
    · exact .inl rfl
    · exact .inr ⟨⟨.foreign 0, false⟩, by decide, rfl⟩
  have hseven := hinherits.inherits _ s s' hs hforwarded hstep 7 (by decide) ⟨.foreign 3, false⟩
  refine ⟨s, s', hs, hstep, hseven.1.2 ⟨by decide, by decide⟩, ?_⟩
  cases hfour : s'.childTable.lookup 4 with
  | none => rfl
  | some entry =>
    have hmem := ((hinherits.inherits _ s s' hs hforwarded hstep 4 (by decide) entry).1.1 hfour).1
    exact absurd hmem (by decide)

/-- The descriptor 7 is forwarded, and two null descriptors. -/
def nullsCall : Call := { exampleCall with fdsToForward := [7, -1, -1] }

/-- The last of the ranges starts at 0 and contains 7, so that the program has neither the forwarded
descriptor nor its standard streams. -/
theorem forwarded_descriptor_is_closed :
    (∀ fd ∈ nullsCall.fdsToForward, IsHandle fd) ∧ ¬ nullsCall.InheritsForwarded ∧
      ((spawn nullsCall).run ClosesRanges (.initial nullsCall) (exampleHandshake ++
        [.child (.closeRange none), .child (.closeRange none), .child (.closeRange none),
          .child (.execve none)])).map (fun s => s.childTable.entries) = some [] := by
  refine ⟨by decide, ?_, by decide⟩
  intro h
  have hranges : nullsCall.closeRanges =
      [⟨3, 6⟩, ⟨8, 0xfffffffe⟩, ⟨0, 0xfffffffe⟩] := by decide
  have hseven := (h.covers 7).1 (by rw [hranges]; exact ⟨⟨0, 0xfffffffe⟩, by decide, by decide⟩)
  exact hseven.2 7 (by decide) rfl

end ThePipe.OsServices.ProcMgmt
