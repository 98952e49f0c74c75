import ThePipe.OsServices.IoMultiplexer.ConfigTransaction

/-!
# What a call of `add` leaves behind

`add` stores the entry before the steps that can still fail.  It undoes this when `epoll_ctl` fails,
by destroying the entry and with it the owner of the descriptor, but not when the status is bad.  A
failed call leaves no trace exactly when the status is good, and the deleter closes the descriptor
without dropping a registration of another one (`add_keepsPromise_iff`).
-/

set_option autoImplicit false

namespace ThePipe.OsServices.IoMultiplexer

open ErrorHandling Fd Lib EpollInstance

/-! ## What the deleter leaves -/

section Deleter

variable (k : Kernel) (tag : FileDescriptorTag) (fd : NativeHandle) (failure : Option Errno)

theorem notMem_fileDescriptorDeleter :
    fd ∉ (fileDescriptorDeleter k tag fd failure).descriptors ↔
      (fd ∈ k.descriptors → DeleterCloses k tag fd) := by
  obtain ⟨k₀, hd, -, -, heq⟩ := fileDescriptorDeleter_cases k tag fd failure
  rw [heq]
  by_cases hcloses : DeleterCloses k tag fd
  · rw [if_pos hcloses, ← AList.lookup_eq_none, Kernel.close_lookup, if_pos rfl]
    simp [hcloses]
  · rw [if_neg hcloses, hd]
    simp [hcloses]

/-- Closing the descriptor drops no registration. -/
def DropsNothing : Prop :=
  DeleterCloses k tag fd → k.Sole fd → ∀ key, k.descriptors.lookup fd = some key.2 →
    k.interest key = none

/-- The deleter closes the descriptor, if it is open, and drops no registration. -/
def ClosesOnly : Prop := (fd ∈ k.descriptors → DeleterCloses k tag fd) ∧ DropsNothing k tag fd

theorem fileDescriptorDeleter_interest_eq_iff :
    (fileDescriptorDeleter k tag fd failure).interest = k.interest ↔ DropsNothing k tag fd := by
  have hinterest := fileDescriptorDeleter_interest k tag fd failure
  constructor
  · intro heq hcloses hsole key hkey
    rw [← heq, hinterest, if_pos ⟨⟨hcloses, hsole⟩, hkey⟩]
  · intro h
    funext key
    rw [hinterest]
    split
    · next hcond => exact (h hcond.1.1 hcond.1.2 key hcond.2).symm
    · rfl

end Deleter

/-! ## Ids -/

/-- The id has been that of a listener in the run `ls`. -/
def HasListened (ok : State → Label → Prop) (ls : List Label) (id : EventHandlerId) : Prop :=
  ∃ ls' s', ls' <+: ls ∧ eventLoop.Reach ok ls' s' ∧ id ∈ s'.monitor.listeners

theorem not_hasListened {ok : State → Label → Prop} {ls : List Label} {s : State}
    (h : eventLoop.Reach ok ls s) (hadds : adds ls < 2 ^ 64) :
    ¬ HasListened ok ls s.monitor.currentId := by
  rintro ⟨ls', s', hprefix, h', hmem⟩
  obtain ⟨hwf, hnamed, -, hnextPtr⟩ := reach_tracked h'
  obtain ⟨e, hl⟩ := Option.isSome_iff_exists.1 (AList.lookup_isSome.2 hmem)
  -- the listener has been made by an earlier call of `add`
  have hlt : e.ptr < adds ls := by
    apply (hwf.ptrLt _ e hl).trans_le
    rw [hnextPtr]
    exact hprefix.sublist.countP_le
  have hvalue := hnamed.entry _ e hl
  rw [hwf.key _ e hl, (reach_tracked h).named.current, (reach_tracked h).nextPtr] at hvalue
  have hnat := congrArg BitVec.toNat hvalue
  rw [BitVec.toNat_ofNat, BitVec.toNat_ofNat, Nat.mod_eq_of_lt hadds,
    Nat.mod_eq_of_lt (hlt.trans hadds)] at hnat
  exact hlt.ne hnat.symm

/-! ## The outcome -/

/-- What the caller of `add` can rely on after the run `ls`, when `m'` is the instance afterwards
and `r` the result. -/
structure KeepsPromise (ok : State → Label → Prop) (ls : List Label) (s : State)
    (fd : NativeHandle) (tag : FileDescriptorTag) (m' : EpollInstance)
    (r : Except Exception EventHandlerId) : Prop where
  /-- A failed call leaves no trace but the closed descriptor. -/
  throws : ∀ ex, r = .error ex → m'.listeners = s.monitor.listeners ∧
    m'.kernel.interest = s.monitor.kernel.interest ∧ fd ∉ m'.kernel.descriptors
  /-- A successful one adds an entry and a registration, under an id that has not been used. -/
  returns : ∀ id, r = .ok id → ¬ HasListened ok ls id ∧
    m'.listeners = s.monitor.listeners.insert id (s.monitor.newEntry fd tag) ∧
      Registers s.monitor.kernel m'.kernel fd (s.monitor.newEntry fd tag).ptr

/-- Destroying the entry of a failed call undoes it exactly when the deleter closes the descriptor
and drops nothing. -/
theorem keepsPromise_destroy_iff {ok : State → Label → Prop} {ls : List Label} {s : State}
    {fd : NativeHandle} {tag : FileDescriptorTag} {err : Errno} {ex : Exception} :
    KeepsPromise ok ls s fd tag (({ s.monitor.advance with
        kernel := { s.monitor.kernel with errno := err } } : EpollInstance).destroy
          (s.monitor.newEntry fd tag)) (.error ex) ↔
      ClosesOnly s.monitor.kernel tag fd := by
  have hclosed := notMem_fileDescriptorDeleter { s.monitor.kernel with errno := err } tag fd
    (s.monitor.waitidFailure s.monitor.nextPtr)
  have hinterest := fileDescriptorDeleter_interest_eq_iff { s.monitor.kernel with errno := err }
    tag fd (s.monitor.waitidFailure s.monitor.nextPtr)
  constructor
  · intro h
    obtain ⟨-, hi, hd⟩ := h.throws ex rfl
    exact ⟨hclosed.1 hd, hinterest.1 hi⟩
  · rintro ⟨hcloses, hdrops⟩
    exact ⟨fun _ _ => ⟨rfl, hinterest.2 hdrops, hclosed.2 hcloses⟩, fun id hid => nomatch hid⟩

/-- **When a call of `add` is all or nothing.**  In every state that a run with fewer than `2 ^ 64`
calls of `add` reaches, whatever the descriptor, the status and the answer of `epoll_ctl`: a failed
call leaves no trace, and a successful one adds exactly one listener under an unused id, if and only
if the status is one of the four enumerators and, when `epoll_ctl` reports an error, the deleter
closes the descriptor and does nothing else. -/
theorem add_keepsPromise_iff {ok : State → Label → Prop} {ls : List Label} {s : State}
    (h : eventLoop.Reach ok ls s) (hadds : adds ls < 2 ^ 64) (fd : NativeHandle)
    (tag : FileDescriptorTag) (status : ActivityStatus) (failure : Option Errno) :
    KeepsPromise ok ls s fd tag (s.monitor.add fd tag status failure).1
        (s.monitor.add fd tag status failure).2 ↔
      status.IsEnumerator ∧
        (EpollCtlFails s.monitor.kernel fd failure → ClosesOnly s.monitor.kernel tag fd) := by
  have hunused := not_hasListened h hadds
  have hid : s.monitor.currentId ∉ s.monitor.listeners :=
    fun hmem => hunused ⟨ls, s, List.prefix_rfl, h, hmem⟩
  by_cases hstatus : status.IsEnumerator
  · by_cases hfails : EpollCtlFails s.monitor.kernel fd failure
    · obtain ⟨err, ex, heq⟩ := add_of_epollCtlFails hid hstatus hfails tag
      rw [heq, keepsPromise_destroy_iff]
      exact ⟨fun hcloses => ⟨hstatus, fun _ => hcloses⟩, fun hcond => hcond.2 hfails⟩
    · obtain ⟨ofd, hofd, rfl, hfree⟩ := not_not.1 hfails
      obtain ⟨events, hevents⟩ := toEpollEvent_isOk.2 hstatus
      rw [add_of_registers hid hevents hofd hfree]
      refine ⟨fun _ => ⟨hstatus, fun hf => absurd hf hfails⟩, fun _ => ⟨nofun, ?_⟩⟩
      intro id hr
      obtain rfl := Except.ok.inj hr
      exact ⟨hunused, rfl, ofd, events, hofd, hfree, rfl⟩
  · -- the entry has been stored, and nothing takes it out again
    obtain ⟨ex, heq⟩ := add_of_bad_status hid hstatus fd tag failure
    rw [heq]
    refine ⟨fun hkeeps => ?_, fun hcond => absurd hcond.1 hstatus⟩
    have hlisteners : s.monitor.listeners.insert s.monitor.currentId (s.monitor.newEntry fd tag) =
        s.monitor.listeners := (hkeeps.throws ex rfl).1
    refine absurd ?_ hid
    rw [← hlisteners]
    exact (AList.mem_insert _).2 (.inl rfl)

/-- One listener has been added, and a second descriptor is open. -/
def addRun : List Label :=
  [.kernel (.openDescriptor 3 none), .call (.add 3 .generic .read none),
    .kernel (.openDescriptor 4 none)]

/-- There is no room for the second listener. -/
theorem add_keepsPromise_iff_enospc : ∃ s, eventLoop.Reach (fun _ _ => True) addRun s ∧
    (KeepsPromise (fun _ _ => True) addRun s 4 .generic
        (s.monitor.add 4 .generic .write (some 28)).1
        (s.monitor.add 4 .generic .write (some 28)).2 ↔
      ActivityStatus.write.IsEnumerator ∧
        (EpollCtlFails s.monitor.kernel 4 (some 28) → ClosesOnly s.monitor.kernel .generic 4)) := by
  have hrun : (eventLoop.run (fun _ _ => True) State.fresh addRun).isSome := by decide
  obtain ⟨s, hs⟩ := Option.isSome_iff_exists.1 hrun
  have h := Lts.Reach.of_run State.fresh_init hs
  exact ⟨s, h, add_keepsPromise_iff h (by decide) 4 .generic .write (some 28)⟩

/-- With a status that is none of the enumerators `add` throws, and the listener stays. -/
theorem add_bad_status_leaves_listener : ∃ s, eventLoop.Reach (fun _ _ => True)
    [.kernel (.openDescriptor 3 none)] s ∧
      (s.monitor.add 3 .generic ⟨4⟩ none).2 = .error (.runtimeError "Bad activity status") ∧
        s.monitor.listeners.lookup ⟨0⟩ = none ∧
          ((s.monitor.add 3 .generic ⟨4⟩ none).1.listeners.lookup ⟨0⟩).isSome ∧
            3 ∈ (s.monitor.add 3 .generic ⟨4⟩ none).1.kernel.descriptors := by
  have hrun : (eventLoop.run (fun _ _ => True) State.fresh [.kernel (.openDescriptor 3 none)]).map
      (fun s => ((s.monitor.add 3 .generic ⟨4⟩ none).2, s.monitor.listeners.lookup ⟨0⟩,
        ((s.monitor.add 3 .generic ⟨4⟩ none).1.listeners.lookup ⟨0⟩).isSome,
          decide (3 ∈ (s.monitor.add 3 .generic ⟨4⟩ none).1.kernel.descriptors))) =
            some (.error (.runtimeError "Bad activity status"), none, true, true) := by decide
  obtain ⟨s, h, heq⟩ := Lts.Reach.exists_of_map_run State.fresh_init hrun
  simp only [Prod.mk.injEq, decide_eq_true_eq] at heq
  exact ⟨s, h, heq⟩

end ThePipe.OsServices.IoMultiplexer
