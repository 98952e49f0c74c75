import ThePipe.OsServices.IoMultiplexer.DispatchSafety

/-!
# The registry and the interest list

As long as every watched descriptor is the only one of its open file description and is closed by
its deleter, the listeners of an instance and the registrations in the kernel are in bijection
(`registry_bijection`).  A listener that stops listening leaves the interest list because its
descriptor is closed, one that is removed because of `EPOLL_CTL_DEL`.
-/

set_option autoImplicit false

namespace ThePipe.OsServices.IoMultiplexer

open ErrorHandling Fd Lib EpollInstance

/-- The listeners of the instance and the registrations in the kernel correspond to each other. -/
structure Bijection (m : EpollInstance) : Prop where
  ids : m.listeners.keys.Nodup
  /-- An entry reports the id it is stored under. -/
  key : ∀ id e, m.listeners.lookup id = some e → e.id = id
  /-- No two entries are the same object. -/
  ptr : ∀ id e id' e', m.listeners.lookup id = some e → m.listeners.lookup id' = some e' →
    e.ptr = e'.ptr → id = id'
  /-- An entry has a registration, which is for its descriptor and points at it; no other
  registration is for its descriptor, and none points at it. -/
  registered : ∀ id e, m.listeners.lookup id = some e →
    ∃ key event, m.kernel.interest key = some event ∧ key.1 = e.fd ∧ event.data = e.ptr ∧
      ∀ key' event', m.kernel.interest key' = some event' →
        key'.1 = e.fd ∨ event'.data = e.ptr → key' = key
  /-- Every registration points at an entry. -/
  points : ∀ key event, m.kernel.interest key = some event →
    ∃ id e, m.listeners.lookup id = some e ∧ event.data = e.ptr

/-- The assumption about descriptors: each watched one is closed by its deleter, and is the only one
of its open file description. -/
def WatchedSolely (m : EpollInstance) : Prop :=
  ∀ l ∈ m.listeners.entries, DeleterCloses m.kernel l.2.tag l.2.fd ∧ m.kernel.Sole l.2.fd

instance : DecidablePred WatchedSolely := fun m => by unfold WatchedSolely; infer_instance

/-- Listeners are added with one of the four enumerators. -/
def AddsEnumerator : Label → Prop
  | .call (.add _ _ status _) => status.IsEnumerator
  | .call (.transactionAdd _ _ _ status _) => status.IsEnumerator
  | _ => True

instance : DecidablePred AddsEnumerator
  | .call (.add _ _ status _) => inferInstanceAs (Decidable status.IsEnumerator)
  | .call (.transactionAdd _ _ _ status _) => inferInstanceAs (Decidable status.IsEnumerator)
  | .call (.remove _) | .call .makeConfigTransaction | .call (.commit _)
  | .call (.destroyTransaction _) | .kernel _ | .waitReturns _ | .waitFails | .process
  | .updateListeningStatus _ _ | .stopListening | .handlerReturns | .handlerThrows | .leave =>
    isTrue trivial

/-- Descriptors are watched solely, statuses are enumerators, and handlers remove none of the
listeners of the batch. -/
def Orderly (s : State) (l : Label) : Prop :=
  WatchedSolely s.monitor ∧ AddsEnumerator l ∧ RemovesNoneInUse s l

instance (s : State) (l : Label) : Decidable (Orderly s l) := by unfold Orderly; infer_instance

/-! ## The invariant -/

/-- Every entry has a registration, and every registration points at an entry. -/
structure Linked (m : EpollInstance) : Prop where
  registered : ∀ id e, m.listeners.lookup id = some e → Registered m e
  points : ∀ key event, m.kernel.interest key = some event →
    ∃ id e, m.listeners.lookup id = some e ∧ event.data = e.ptr

section Steps

variable {m m' : EpollInstance} {fd : NativeHandle} {tag : FileDescriptorTag}
  {id : EventHandlerId} {e : Entry}

theorem Linked.bijection (h : Linked m) (hwf : m.Wf) : Bijection m := by
  refine ⟨m.listeners.keys_nodup, hwf.key, hwf.ptr, fun id e hl => ?_, h.points⟩
  have hr := h.registered id e hl
  have hopen := hr.mem_descriptors
  obtain ⟨ofd, event, hofd, hreg, hdata⟩ := hr
  refine ⟨(e.fd, ofd), event, hreg, rfl, hdata, fun key' event' hreg' hkey' => ?_⟩
  obtain ⟨id', e', hl', hdata'⟩ := h.points key' event' hreg'
  obtain ⟨hfd', hofd'⟩ := hwf.own id' e' key' event' hl' hreg' hdata'
  -- the entry that the other registration points at is the same one
  have hid : id' = id := by
    rcases hkey' with hfd | hptr
    · by_contra hne
      exact hwf.fd_ne hl' hl (Ne.symm hne) hopen (hfd.symm.trans hfd')
    · exact hwf.ptr id' e' id e hl' hl (hdata'.symm.trans hptr)
  obtain rfl : e = e' := by
    rw [hid, hl] at hl'
    exact Option.some.inj hl'
  exact Prod.ext hfd' (Option.some.inj (hofd'.symm.trans hofd))

theorem Linked.init (hl : m.listeners = ∅) (hi : m.kernel.interest = fun _ => none) :
    Linked m := by
  refine ⟨fun id e he => ?_, fun key event he => ?_⟩
  · rw [hl] at he
    cases he
  · rw [hi] at he
    cases he

theorem Linked.drops {ids : List EventHandlerId} (h : Linked m) (hd : Drops m m' ids)
    (hgone : Gone m ids m'.kernel) : Linked m' := by
  refine ⟨fun id e hl => ?_, fun key event hreg => ?_⟩
  · exact (h.registered id e (hd.lookup_eq hl).2).drops hd hl
  · obtain ⟨id, e, hl, hdata⟩ := h.points key event (hd.shrinks key event hreg)
    have hid : id ∉ ids := fun hid => hgone id hid e hl key event hreg hdata
    exact ⟨id, e, by rw [hd.lookup, if_neg hid, hl], hdata⟩

theorem Linked.inserts_registers (h : Linked m) (hi : Inserts m m' fd tag)
    (hr : Registers m.kernel m'.kernel fd m.nextPtr) : Linked m' := by
  have hnew : m'.listeners.lookup m.currentId = some (m.newEntry fd tag) := by
    rw [hi.listeners, AList.lookup_insert]
  refine ⟨fun id e hl => ?_, fun key event hreg => ?_⟩
  · rcases hi.lookup_cases hl with ⟨rfl, rfl⟩ | hl
    · obtain ⟨ofd, events, hofd, -, hinterest⟩ := hr
      refine ⟨ofd, ⟨events, m.nextPtr⟩, ?_, ?_, rfl⟩
      · rw [hi.descriptors]
        exact hofd
      · rw [hinterest]
        exact Function.update_self ..
    · exact (h.registered id e hl).registers hi hr
  · obtain ⟨ofd, events, hofd, -, hinterest⟩ := hr
    rw [hinterest] at hreg
    by_cases hkey : key = (fd, ofd)
    · rw [hkey, Function.update_self] at hreg
      obtain rfl := Option.some.inj hreg
      exact ⟨m.currentId, m.newEntry fd tag, hnew, rfl⟩
    · rw [Function.update_of_ne hkey] at hreg
      obtain ⟨id, e, hl, hdata⟩ := h.points key event hreg
      exact ⟨id, e, hi.lookup hl, hdata⟩

theorem Linked.call {c : Call} {records : List Record} (h : Linked m) (hwf : m.Wf)
    (henum : AddsEnumerator (.call c)) (hc : m.call c = some (m', records)) : Linked m' := by
  cases hwf.callEffect hc with
  | drops hd _ => exact h.drops hd (hwf.gone_call hc)
  | stores _ _ hstatus hadd _ _ =>
    rcases hadd with rfl | ⟨t, rfl⟩
    · exact absurd henum hstatus
    · exact absurd henum hstatus
  | registers hi hr _ _ => exact h.inserts_registers hi hr

theorem Linked.updateListeningStatus (h : Linked m) (hwf : m.Wf)
    (hl : m.listeners.lookup id = some e) (status : ActivityStatus) (failure : Option Errno) :
    Linked (m.updateListeningStatus e status failure).1 := by
  refine ⟨fun id' e' hl' => ?_, ?_⟩
  · rw [updateListeningStatus_listeners] at hl'
    exact (h.registered id' e' hl').updateListeningStatus hwf hl' hl status failure
  rw [updateListeningStatus_listeners]
  rcases m.updateListeningStatus_cases e status failure with
    ⟨err, heq⟩ | ⟨ofd, events, -, -, heq⟩
  · rw [heq]
    exact h.points
  · intro key event hreg
    rw [heq] at hreg
    by_cases hkey : key = (e.fd, ofd)
    · subst hkey
      obtain rfl : EpollEvent.mk events e.ptr = event := by simpa using hreg
      exact ⟨id, e, hl, rfl⟩
    · exact h.points key event ((Function.update_of_ne hkey _ _).symm.trans hreg)

/-- Closing the only descriptor of an open file description drops the registration. -/
theorem gone_erase (hwf : m.Wf) (hl : m.listeners.lookup id = some e)
    (hcloses : DeleterCloses m.kernel e.tag e.fd) (hsole : m.kernel.Sole e.fd) :
    Gone m [id] (m.erase id).kernel := by
  intro id' hid e' hl' key event hreg hdata
  obtain rfl : id' = id := by simpa using hid
  obtain rfl : e = e' := Option.some.inj (hl.symm.trans hl')
  have hreg₀ := (hwf.drops_erase id').shrinks key event hreg
  obtain ⟨-, hofd⟩ := hwf.own id' e key event hl hreg₀ hdata
  rw [erase_eq hl] at hreg
  have hnone := fileDescriptorDeleter_interest m.kernel e.tag e.fd (m.waitidFailure e.ptr) key
  rw [if_pos ⟨⟨hcloses, hsole⟩, hofd⟩] at hnone
  cases hnone.symm.trans hreg

end Steps

theorem State.Step.linked {s s' : State} {l : Label} (hwf : s.monitor.Wf)
    (h : Linked s.monitor) (hok : Orderly s l) (hs : State.Step s l s') : Linked s'.monitor := by
  obtain ⟨hsole, henum, -⟩ := hok
  cases hs with
  | call _ hcall => exact h.call hwf henum hcall
  | kernel _ hallows hk =>
    refine ⟨fun id e hl => ?_, fun key event hreg => h.points key event
      (Kernel.step_shrinks hk key event hreg)⟩
    have hr := h.registered id e hl
    exact hr.keeps (Wf.kernel_keeps hk hallows hl hr.mem_descriptors)
  | update hentry =>
    obtain ⟨id, hl, -⟩ := lookup_of_entryAt hentry
    exact h.updateListeningStatus hwf hl _ _
  | returnsStopped _ hentry =>
    obtain ⟨id, hl, -⟩ := lookup_of_entryAt hentry
    obtain ⟨hcloses, honly⟩ := hsole _ (AList.mem_lookup_iff.1 hl)
    have hid := hwf.key id _ hl
    rw [hid]
    exact h.drops (hwf.drops_erase id) (gone_erase hwf hl hcloses honly)
  | _ => exact h

/-- **The registry and the kernel stay in bijection.** -/
theorem registry_bijection {ls : List Label} {s : State} (h : eventLoop.Reach Orderly ls s) :
    Bijection s.monitor ∧ ¬ s.control.IsUndefined := by
  have hinv : s.monitor.Wf ∧ Linked s.monitor ∧ InUse s.monitor s.control := by
    refine h.invariant (I := fun _ s => s.monitor.Wf ∧ Linked s.monitor ∧
      InUse s.monitor s.control) ?_ ?_
    · intro s h0
      refine ⟨State.Init.wf h0, .init (State.Init.listeners h0) (State.Init.interest h0), ?_⟩
      rw [State.Init.control h0]
      exact .idle
    · rintro ls s l s' - ⟨hwf, hlinked, huse⟩ hok hstep
      have hs := State.step_cases hstep
      -- every event of a batch comes from a registration, and so points at an entry
      have hreg : BatchRegistered s l := by
        unfold BatchRegistered
        split
        · intro item hitem
          obtain ⟨r, -, hr⟩ := List.mem_filterMap.1 hitem
          obtain ⟨event, hevent, rfl⟩ := Option.map_eq_some_iff.1 hr
          obtain ⟨id, e, hl, hdata⟩ := hlinked.points r.1 event hevent
          exact entryAt_isSome.2 ⟨id, e, hl, hdata.symm⟩
        · trivial
      exact ⟨hs.wf hwf, hs.linked hwf hlinked hok, hs.inUse hwf huse hreg hok.2.2⟩
  exact ⟨hinv.2.1.bijection hinv.1, hinv.2.2.defined⟩

/-- A listener is added, another one with a transaction that is rolled back, the first one stops. -/
theorem registry_bijection_example : ∃ s, eventLoop.Reach Orderly
    [.kernel (.openDescriptor 3 none), .call (.add 3 .generic .read none),
      .kernel (.openDescriptor 4 none), .call .makeConfigTransaction,
      .call (.transactionAdd 0 4 .generic .write none), .call (.destroyTransaction 0),
      .waitReturns [((3, 0), EPOLLIN)], .process, .stopListening, .handlerReturns] s ∧
        Bijection s.monitor ∧ ¬ s.control.IsUndefined := by
  have hrun : (eventLoop.run Orderly State.fresh
      [.kernel (.openDescriptor 3 none), .call (.add 3 .generic .read none),
        .kernel (.openDescriptor 4 none), .call .makeConfigTransaction,
        .call (.transactionAdd 0 4 .generic .write none), .call (.destroyTransaction 0),
        .waitReturns [((3, 0), EPOLLIN)], .process, .stopListening, .handlerReturns]).isSome := by
    decide
  obtain ⟨s, hs⟩ := Option.isSome_iff_exists.1 hrun
  have h := Lts.Reach.of_run State.fresh_init hs
  exact ⟨s, h, registry_bijection h⟩

end ThePipe.OsServices.IoMultiplexer
