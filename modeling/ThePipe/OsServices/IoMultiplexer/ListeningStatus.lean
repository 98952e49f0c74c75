import ThePipe.OsServices.IoMultiplexer.DispatchBatch

/-!
# What a listener has asked for

A listener asks for the activities that it wants to be told of when it is added, and later with
`update_listening_status`.  A history variable records for each listener what it has asked for last
with a call that has not failed.  The event word of the registration is that of the recorded status
(`Asked`), whatever else happens, and no handler is called with an activity that its listener has
not asked for (`handled_asked`), provided that `epoll_wait` masks the events that it reports.
-/

set_option autoImplicit false

namespace ThePipe.OsServices.IoMultiplexer

open ErrorHandling Fd Lib EpollInstance

/-- The statuses that the listeners have asked for. -/
abbrev Statuses := Ptr → ActivityStatus

namespace State

/-- A new listener has asked for its first status when `add` returns its id. -/
def afterAdd (m : EpollInstance) (asked : Statuses) (status : ActivityStatus) :
    Except Exception EventHandlerId → Statuses
  | .ok _ => Function.update asked m.nextPtr status
  | .error _ => asked

def afterCall (m : EpollInstance) (asked : Statuses) : Call → Statuses
  | .add fd tag status failure | .transactionAdd _ fd tag status failure =>
    afterAdd m asked status (m.add fd tag status failure).2
  | .remove _ | .makeConfigTransaction | .commit _ | .destroyTransaction _ => asked

/-- What a listener has asked for when its call of `update_listening_status` is over. -/
def afterUpdate (asked : Statuses) (entry : Entry) (status : ActivityStatus) :
    Except Exception Unit → Statuses
  | .ok _ => Function.update asked entry.ptr status
  | .error _ => asked

/-- What has been asked for after a step. -/
def asks (s : State) (l : Label) (asked : Statuses) : Statuses :=
  match l with
  | .call c => afterCall s.monitor asked c
  | .updateListeningStatus status failure =>
    match s.control with
    | .handling activity _ =>
      match s.monitor.entryAt activity.data with
      | none => asked
      | some entry =>
        afterUpdate asked entry status (s.monitor.updateListeningStatus entry status failure).2
    | _ => asked
  | _ => asked

end State

/-- Of reading and writing the word has what the other word has. -/
def Masked (events reported : BitVec 32) : Prop :=
  (reported &&& EPOLLIN ≠ 0 → events &&& EPOLLIN ≠ 0) ∧
    (reported &&& EPOLLOUT ≠ 0 → events &&& EPOLLOUT ≠ 0)

instance (events reported : BitVec 32) : Decidable (Masked events reported) := by
  unfold Masked
  infer_instance

/-- `epoll_wait` reports reading and writing only to those who have asked for it. -/
def MasksEvents (s : State) : Label → Prop
  | .waitReturns batch => ∀ r ∈ batch, ∀ event ∈ s.monitor.kernel.interest r.1,
      Masked event.events r.2
  | _ => True

instance (s : State) : DecidablePred (MasksEvents s)
  | .waitReturns batch => inferInstanceAs (Decidable (∀ r ∈ batch,
      ∀ event ∈ s.monitor.kernel.interest r.1, Masked event.events r.2))
  | .call _ | .kernel _ | .waitFails | .process | .updateListeningStatus _ _ | .stopListening
  | .handlerReturns | .handlerThrows | .leave => isTrue trivial

theorem toEpollEvent_bits {status : ActivityStatus} {events : BitVec 32}
    (h : toEpollEvent status = .ok events) :
    (events &&& EPOLLIN ≠ 0 ↔ status.canRead = true) ∧
      (events &&& EPOLLOUT ≠ 0 ↔ status.canWrite = true) := by
  rcases toEpollEvent_isOk.1 ⟨events, h⟩ with rfl | rfl | rfl | rfl <;> cases h <;> decide

/-- The activities of a status are among those of another one. -/
def Among (status asked : ActivityStatus) : Prop :=
  (status.canRead = true → asked.canRead = true) ∧
    (status.canWrite = true → asked.canWrite = true)

theorem Masked.among {asked : ActivityStatus} {events reported : BitVec 32}
    (h : Masked events reported) (hevents : toEpollEvent asked = .ok events) :
    Among (epollEventToActivityStatus reported) asked := by
  obtain ⟨hin, hout⟩ := toEpollEvent_bits hevents
  refine ⟨fun hread => hin.1 (h.1 ?_), fun hwrite => hout.1 (h.2 ?_)⟩
  · exact (canRead_epollEventToActivityStatus reported).1 hread
  · exact (canWrite_epollEventToActivityStatus reported).1 hwrite

/-! ## The invariant -/

/-- The events that have not been processed. -/
def Control.pending : Control → List EpollEvent
  | .dispatching pending | .handling _ pending => pending
  | .idle | .undefined _ => []

/-- The registrations of the listeners are for what they have asked for. -/
def RegisteredAs (m : EpollInstance) (asked : Statuses) : Prop :=
  ∀ id e key event, m.listeners.lookup id = some e → m.kernel.interest key = some event →
    event.data = e.ptr → toEpollEvent (asked e.ptr) = .ok event.events

structure Asked (s : State) (asked : Statuses) : Prop where
  registered : RegisteredAs s.monitor asked
  /-- So are the events that are to be processed. -/
  pending : ∀ item ∈ s.control.pending, (s.monitor.entryAt item.data).isSome →
    Among (epollEventToActivityStatus item.events) (asked item.data)
  /-- No listener that exists is in use twice. -/
  once : s.control.inUse.Pairwise fun p q => (s.monitor.entryAt p).isSome → p ≠ q

section Calls

variable {m m' : EpollInstance} {asked : Statuses} {fd : NativeHandle} {tag : FileDescriptorTag}
  {status : ActivityStatus} {failure : Option Errno}

theorem RegisteredAs.drops {ids : List EventHandlerId} (h : RegisteredAs m asked)
    (hd : Drops m m' ids) : RegisteredAs m' asked := by
  intro id e key event hl hr hdata
  exact h id e key event (hd.lookup_eq hl).2 (hd.shrinks key event hr) hdata

theorem RegisteredAs.stores (h : RegisteredAs m asked) (hwf : m.Wf) (hi : Inserts m m' fd tag)
    (hinterest : m'.kernel.interest = m.kernel.interest) : RegisteredAs m' asked := by
  intro id e key event hl hr hdata
  rw [hinterest] at hr
  rcases hi.lookup_cases hl with ⟨-, rfl⟩ | hl
  · exact absurd hdata (hwf.dataLt key event hr).ne
  · exact h id e key event hl hr hdata

theorem RegisteredAs.registers {ofd : Ofd} {events : BitVec 32} (h : RegisteredAs m asked)
    (hwf : m.Wf) (hi : Inserts m m' fd tag) (hevents : toEpollEvent status = .ok events)
    (hinterest : m'.kernel.interest =
      Function.update m.kernel.interest (fd, ofd) (some ⟨events, m.nextPtr⟩)) :
    RegisteredAs m' (Function.update asked m.nextPtr status) := by
  intro id e key event hl hr hdata
  rw [hinterest] at hr
  rcases hi.lookup_cases hl with ⟨-, rfl⟩ | hl
  · have hptr : (m.newEntry fd tag).ptr = m.nextPtr := rfl
    by_cases hkey : key = (fd, ofd)
    · rw [hkey, Function.update_self] at hr
      cases hr
      rw [hptr, Function.update_self]
      exact hevents
    · rw [Function.update_of_ne hkey] at hr
      exact absurd hdata (hwf.dataLt key event hr).ne
  · have hne : e.ptr ≠ m.nextPtr := (hwf.ptrLt id e hl).ne
    have hkey : key ≠ (fd, ofd) := by
      rintro rfl
      rw [Function.update_self] at hr
      cases hr
      exact hne hdata.symm
    rw [Function.update_of_ne hkey] at hr
    rw [Function.update_of_ne hne]
    exact h id e key event hl hr hdata

theorem add_ok {id : EventHandlerId} (hadd : m.add fd tag status failure = (m', .ok id)) :
    ∃ ofd events, toEpollEvent status = .ok events ∧ m'.kernel.interest =
      Function.update m.kernel.interest (fd, ofd) (some ⟨events, m.nextPtr⟩) := by
  by_cases hid : m.currentId ∈ m.listeners
  · cases (if_pos hid).symm.trans hadd
  by_cases hstatus : status.IsEnumerator
  · by_cases hfails : EpollCtlFails m.kernel fd failure
    · obtain ⟨err, ex, heq⟩ := add_of_epollCtlFails hid hstatus hfails tag
      cases heq.symm.trans hadd
    · obtain ⟨ofd, hofd, rfl, hfree⟩ := not_not.1 hfails
      obtain ⟨events, hevents⟩ := toEpollEvent_isOk.2 hstatus
      cases (add_of_registers hid hevents hofd hfree).symm.trans hadd
      exact ⟨ofd, events, hevents, rfl⟩
  · obtain ⟨ex, heq⟩ := add_of_bad_status hid hstatus fd tag failure
    cases heq.symm.trans hadd

theorem RegisteredAs.add {r : Except Exception EventHandlerId} (h : RegisteredAs m asked)
    (hwf : m.Wf) (hfd : m.MayBeAdded fd) (hadd : m.add fd tag status failure = (m', r)) :
    RegisteredAs m' (State.afterAdd m asked status r) := by
  rcases hwf.add_cases hfd hadd with ⟨hd, ex, rfl⟩ | ⟨hi, ⟨-, hinterest, ex, rfl⟩ | ⟨-, rfl⟩⟩
  · exact h.drops hd
  · exact h.stores hwf hi hinterest
  · obtain ⟨ofd, events, hevents, hinterest⟩ := add_ok hadd
    exact h.registers hwf hi hevents hinterest

theorem RegisteredAs.call {c : Call} {records : List Record} (h : RegisteredAs m asked)
    (hwf : m.Wf) (hc : m.call c = some (m', records)) :
    RegisteredAs m' (State.afterCall m asked c) := by
  cases c with
  | add fd tag status failure =>
    obtain ⟨hfd, hm', -⟩ : m.MayBeAdded fd ∧ (m.add fd tag status failure).1 = m' ∧ _ := by
      simpa [EpollInstance.call] using hc
    exact h.add hwf hfd (Prod.ext hm' rfl)
  | transactionAdd t fd tag status failure =>
    obtain ⟨⟨hfd, -⟩, hm', -⟩ : (m.MayBeAdded fd ∧ _) ∧
        (m.transactionAdd t fd tag status failure).1 = m' ∧ _ := by
      simpa [EpollInstance.call] using hc
    obtain ⟨m₁, hadd, rfl⟩ := transactionAdd_eq (Prod.ext hm' rfl)
    have hadded : RegisteredAs m₁ _ := h.add hwf hfd hadd
    rw [State.afterCall, hadd]
    exact hadded
  | remove id =>
    obtain ⟨rfl, -⟩ : m.remove id = m' ∧ [] = records := by simpa [EpollInstance.call] using hc
    exact h.drops (hwf.drops_remove id)
  | makeConfigTransaction =>
    obtain ⟨rfl, -⟩ : m.makeConfigTransaction = m' ∧ [] = records := by
      simpa [EpollInstance.call] using hc
    exact h
  | commit t =>
    obtain ⟨-, rfl, -⟩ : _ ∧ m.commit t = m' ∧ [.committed t] = records := by
      simpa [EpollInstance.call] using hc
    exact h
  | destroyTransaction t =>
    obtain ⟨-, rfl, -⟩ : _ ∧ m.destroyTransaction t = m' ∧ [] = records := by
      simpa [EpollInstance.call] using hc
    exact h.drops ((hwf.drops_rollback _).setAddedIds _)

/-- `update_listening_status` changes the registration to the new status, or it throws. -/
theorem updateListeningStatus_eq (m : EpollInstance) (e : Entry) (status : ActivityStatus)
    (failure : Option Errno) :
    (∃ err ex, m.updateListeningStatus e status failure =
        ({ m with kernel := { m.kernel with errno := err } }, .error ex)) ∨
      ∃ ofd events, toEpollEvent status = .ok events ∧
        m.kernel.descriptors.lookup e.fd = some ofd ∧
          m.updateListeningStatus e status failure =
            ({ m with kernel := { m.kernel with
              interest := Function.update m.kernel.interest (e.fd, ofd)
                (some ⟨events, e.ptr⟩) } }, .ok ()) := by
  unfold updateListeningStatus
  cases hevents : toEpollEvent status with
  | error ex => exact .inl ⟨m.kernel.errno, ex, rfl⟩
  | ok events =>
    rcases m.kernel.epollCtlMod_cases e.fd ⟨events, e.ptr⟩ failure with
      ⟨err, hmod⟩ | ⟨ofd, hl, -, hmod⟩
    · exact .inl ⟨err, .systemError ⟨"Failed to update epoll event", err⟩, by simp only [hmod]; rfl⟩
    · refine .inr ⟨ofd, events, rfl, hl, ?_⟩
      simp only [hmod]
      rfl

theorem RegisteredAs.update {id : EventHandlerId} {e : Entry} (h : RegisteredAs m asked)
    (hwf : m.Wf) (hl : m.listeners.lookup id = some e) :
    RegisteredAs (m.updateListeningStatus e status failure).1
      (State.afterUpdate asked e status (m.updateListeningStatus e status failure).2) := by
  rcases updateListeningStatus_eq m e status failure with
    ⟨err, ex, heq⟩ | ⟨ofd, events, hevents, hofd, heq⟩
  · rw [heq]
    exact h
  rw [heq]
  intro id' e' key event hl' hr hdata
  change m.listeners.lookup id' = some e' at hl'
  change Function.update m.kernel.interest (e.fd, ofd) _ key = some event at hr
  show toEpollEvent (Function.update asked e.ptr status e'.ptr) = _
  by_cases hptr : e'.ptr = e.ptr
  · -- the registration of the listener is that of its own descriptor
    have hkey : key = (e.fd, ofd) := by
      by_contra hne
      rw [Function.update_of_ne hne] at hr
      obtain ⟨hfd, hofd'⟩ := hwf.own id e key event hl hr (hdata.trans hptr)
      exact hne (Prod.ext hfd (Option.some.inj (hofd'.symm.trans hofd)))
    rw [hkey, Function.update_self] at hr
    cases hr
    rw [hptr, Function.update_self]
    exact hevents
  · have hkey : key ≠ (e.fd, ofd) := by
      rintro rfl
      rw [Function.update_self] at hr
      cases hr
      exact hptr hdata.symm
    rw [Function.update_of_ne hkey] at hr
    rw [Function.update_of_ne hptr]
    exact h id' e' key event hl' hr hdata

end Calls

/-! ## The events that are pending -/

theorem eventsOf_once {m : EpollInstance} {batch : List Ready} (hwf : m.Wf)
    (hready : m.BatchReady batch) :
    ((m.eventsOf batch).map (·.data)).Pairwise fun p q => (m.entryAt p).isSome → p ≠ q := by
  obtain ⟨-, hkeys, -⟩ := hready
  unfold List.Nodup at hkeys
  rw [List.pairwise_map] at hkeys ⊢
  unfold EpollInstance.eventsOf
  rw [List.pairwise_filterMap]
  refine hkeys.imp ?_
  intro r r' hne item hitem item' hitem' hlive heq
  obtain ⟨event, hevent, rfl⟩ := Option.map_eq_some_iff.1 hitem
  obtain ⟨event', hevent', rfl⟩ := Option.map_eq_some_iff.1 hitem'
  obtain ⟨id, e, hl, hp⟩ := entryAt_isSome.1 hlive
  obtain ⟨hfd, hofd⟩ := hwf.own id e r.1 event hl hevent hp.symm
  obtain ⟨hfd', hofd'⟩ := hwf.own id e r'.1 event' hl hevent' (heq.symm.trans hp.symm)
  exact hne (Prod.ext (hfd.trans hfd'.symm) (Option.some.inj (hofd.symm.trans hofd')))

section Steps

variable {s s' : State} {l : Label} {asked : Statuses}

theorem State.Step.live (hwf : s.monitor.Wf) (hs : State.Step s l s') {p : Ptr}
    (hp : p < s.monitor.nextPtr) (h : (s'.monitor.entryAt p).isSome) :
    (s.monitor.entryAt p).isSome := by
  obtain ⟨id, e, hl, rfl⟩ := entryAt_isSome.1 h
  rcases hs.lookup_or_new hwf hl with hl | hnew
  · exact entryAt_isSome.2 ⟨id, e, hl, rfl⟩
  · exact absurd hnew hp.ne

theorem Control.pending_inUse {control : Control} {item : EpollEvent}
    (h : item ∈ control.pending) : item.data ∈ control.inUse := by
  cases control with
  | dispatching pending => exact List.mem_map_of_mem h
  | handling activity pending => exact List.mem_cons_of_mem _ (List.mem_map_of_mem h)
  | idle => cases h
  | undefined fault => cases h

theorem Asked.mono (h : Asked s asked) {asked' : Statuses}
    (hregistered : RegisteredAs s'.monitor asked')
    (hlive : ∀ p ∈ s.control.inUse, (s'.monitor.entryAt p).isSome → (s.monitor.entryAt p).isSome)
    (hpending : s'.control.pending.Sublist s.control.pending)
    (hinUse : s'.control.inUse.Sublist s.control.inUse)
    (hasked : ∀ item ∈ s'.control.pending, (s'.monitor.entryAt item.data).isSome →
      asked' item.data = asked item.data) : Asked s' asked' := by
  refine ⟨hregistered, ?_, ?_⟩
  · intro item hitem hentry
    have hmem := hpending.subset hitem
    rw [hasked item hitem hentry]
    exact h.pending item hmem (hlive _ (Control.pending_inUse hmem) hentry)
  · refine (h.once.sublist hinUse).imp_of_mem ?_
    intro p q hp _ hne hentry
    exact hne (hlive p (hinUse.subset hp) hentry)

theorem Control.afterCall_sublist (control : Control) (m : EpollInstance) :
    (control.afterCall m).pending.Sublist control.pending ∧
      (control.afterCall m).inUse.Sublist control.inUse := by
  unfold Control.afterCall
  split
  · split
    · exact ⟨List.Sublist.refl _, List.Sublist.refl _⟩
    · exact ⟨List.nil_sublist _, List.nil_sublist _⟩
  · exact ⟨List.Sublist.refl _, List.Sublist.refl _⟩

theorem afterCall_of_ne {m : EpollInstance} (c : Call) {p : Ptr} (hp : p ≠ m.nextPtr) :
    State.afterCall m asked c p = asked p := by
  have hadd : ∀ status (r : Except Exception EventHandlerId),
      State.afterAdd m asked status r p = asked p := by
    intro status r
    cases r with
    | ok _ => exact Function.update_of_ne hp _ _
    | error _ => rfl
  cases c with
  | add | transactionAdd => exact hadd _ _
  | _ => rfl

theorem afterUpdate_of_ne {e : Entry} {status : ActivityStatus} (r : Except Exception Unit)
    {p : Ptr} (hp : p ≠ e.ptr) : State.afterUpdate asked e status r p = asked p := by
  cases r with
  | ok _ => exact Function.update_of_ne hp _ _
  | error _ => rfl

theorem Asked.step (h : Asked s asked) (hwf : s.monitor.Wf) (hw : Watched s.monitor s.control)
    (hok : MasksEvents s l) (hs : State.Step s l s') : Asked s' (s.asks l asked) := by
  have hlive : ∀ p ∈ s.control.inUse, (s'.monitor.entryAt p).isSome →
      (s.monitor.entryAt p).isSome := fun p hp => hs.live hwf (hw.ptrLt p hp)
  cases hs with
  | @call _ c m records _ hcall =>
    obtain ⟨hpending, hinUse⟩ := s.control.afterCall_sublist m
    refine h.mono (h.registered.call hwf hcall) hlive hpending hinUse ?_
    intro item hitem _
    exact afterCall_of_ne c (hw.ptrLt _ (Control.pending_inUse (hpending.subset hitem))).ne
  | kernel _ _ hk =>
    refine h.mono ?_ hlive (List.Sublist.refl _) (List.Sublist.refl _) fun _ _ _ => rfl
    intro id e key event hl hr hdata
    exact h.registered id e key event hl (Kernel.step_shrinks hk key event hr) hdata
  | @waitReturns m log batch hready =>
    refine ⟨h.registered, ?_, eventsOf_once hwf hready⟩
    intro item hitem hentry
    obtain ⟨r, hr, heq⟩ := List.mem_filterMap.1 hitem
    obtain ⟨event, hevent, rfl⟩ := Option.map_eq_some_iff.1 heq
    obtain ⟨id, e, hl, hp⟩ := entryAt_isSome.1 hentry
    have hevents := h.registered id e r.1 event hl hevent hp.symm
    rw [hp] at hevents
    exact (hok r hr event hevent).among hevents
  | waitFails => exact h
  | process _ =>
    exact h.mono h.registered hlive (List.sublist_cons_self _ _) (List.Sublist.refl _)
      fun _ _ _ => rfl
  | processErased _ =>
    exact h.mono h.registered hlive (List.nil_sublist _) (List.nil_sublist _) fun _ _ _ => rfl
  | @update m log activity pending status failure entry hentry =>
    obtain ⟨id, hl, hp⟩ := lookup_of_entryAt hentry
    have hasks : State.asks ⟨m, .handling activity pending, log⟩
        (.updateListeningStatus status failure) asked =
          State.afterUpdate asked entry status (m.updateListeningStatus entry status failure).2 := by
      simp only [State.asks, hentry]
    rw [hasks]
    refine h.mono (h.registered.update hwf hl) hlive (List.Sublist.refl _) (List.Sublist.refl _) ?_
    intro item hitem _
    -- the event that is handled is the only one of its listener
    have honce := (List.pairwise_cons.1 h.once).1 item.data (List.mem_map_of_mem hitem)
    have hne := honce (Option.isSome_of_eq_some hentry)
    exact afterUpdate_of_ne _ (by rw [hp]; exact hne.symm)
  | @updateErased m log activity pending status failure hentry =>
    have hasks : State.asks ⟨m, .handling activity pending, log⟩
        (.updateListeningStatus status failure) asked = asked := by
      simp only [State.asks, hentry]
    rw [hasks]
    exact h.mono h.registered hlive (List.nil_sublist _) (List.nil_sublist _) fun _ _ _ => rfl
  | stopListening =>
    exact h.mono h.registered hlive (List.Sublist.refl _) (List.Sublist.refl _) fun _ _ _ => rfl
  | returns _ =>
    exact h.mono h.registered hlive (List.Sublist.refl _) (List.sublist_cons_self _ _)
      fun _ _ _ => rfl
  | returnsStopped _ _ =>
    exact h.mono (h.registered.drops (hwf.drops_erase _)) hlive (List.Sublist.refl _)
      (List.sublist_cons_self _ _) fun _ _ _ => rfl
  | returnsErased _ _ =>
    exact h.mono h.registered hlive (List.nil_sublist _) (List.nil_sublist _) fun _ _ _ => rfl
  | throws =>
    exact h.mono h.registered hlive (List.nil_sublist _) (List.nil_sublist _) fun _ _ _ => rfl
  | leave =>
    exact h.mono h.registered hlive (List.nil_sublist _) (List.nil_sublist _) fun _ _ _ => rfl

end Steps

/-! ## Runs -/

theorem State.Init.asked {s : State} (h : s.Init) : Asked s fun _ => .none := by
  have hl : ∀ id, s.monitor.listeners.lookup id = none := by
    intro id
    rw [h.listeners]
    rfl
  refine ⟨?_, ?_, ?_⟩
  · intro id e key event hlookup
    rw [hl id] at hlookup
    cases hlookup
  · simp [h.control, Control.pending]
  · simp [h.control, Control.inUse]

end ThePipe.OsServices.IoMultiplexer
