import ThePipe.OsServices.IoMultiplexer.StopListening

/-!
# What one dispatch does

`epoll_wait` returns a batch of events on listeners.  Until `wait_for_and_distpatch_events` is left,
handlers may add listeners, change what they listen to and stop listening, and other things may
happen to descriptors, but no listener is removed.  The handlers are then called once per event and
in order, and the listeners that are left are those from before and the added ones, without those
whose own handler has called `stop_listening` and returned (`dispatch_exact`).
-/

set_option autoImplicit false

namespace ThePipe.OsServices.IoMultiplexer

open ErrorHandling Fd Lib EpollInstance

/-- An event that `epoll_wait` returns: a registration and its event word. -/
abbrev Ready := (NativeHandle × Ofd) × BitVec 32

/-- The step removes no listener. -/
def RemovesNothing (s : State) : Label → Prop
  | .call c => ∀ id ∈ s.monitor.removes c, id ∉ s.monitor.listeners
  | _ => True

instance (s : State) : DecidablePred (RemovesNothing s)
  | .call c => inferInstanceAs (Decidable (∀ id ∈ s.monitor.removes c, id ∉ s.monitor.listeners))
  | .kernel _ | .waitReturns _ | .waitFails | .process | .updateListeningStatus _ _
  | .stopListening | .handlerReturns | .handlerThrows | .leave => isTrue trivial

/-- The steps that leave `wait_for_and_distpatch_events`. -/
def Label.Ends : Label → Prop
  | .leave | .handlerThrows => True
  | _ => False

/-- The listener is stored, and the kernel has a registration of it. -/
def Listening (m : EpollInstance) (e : Entry) : Prop :=
  m.listeners.lookup e.id = some e ∧ Registered m e

/-! ## What the log and the labels say -/

/-- What has been logged between the two states. -/
def newRecords (s s' : State) : List Record := s'.log.drop s.log.length

/-- The calls of `handle_event` between the two states. -/
def called (s s' : State) : List (Entry × ActivityStatus) :=
  (newRecords s s').filterMap fun
    | .handled e status => some (e, status)
    | _ => none

/-- The listener has been added between the two states. -/
def HasAdded (s s' : State) (e : Entry) : Prop := ∃ via, Record.added via e ∈ newRecords s s'

/-- In the run `ls` from `s`, the handler of the listener at `p` calls `stop_listening`; the steps
`after` follow. -/
def CallsStop (s : State) (ls : List Label) (p : Ptr) (after : List Label) : Prop :=
  ∃ before t activity pending, ls = before ++ .stopListening :: after ∧
    eventLoop.run (fun _ _ => True) s before = some t ∧
      t.control = .handling activity pending ∧ activity.data = p

/-- In the run `ls` from `s`, the handler of the listener at `p` calls `stop_listening` and
returns. -/
def Stops (s : State) (ls : List Label) (p : Ptr) : Prop :=
  ∃ after, CallsStop s ls p after ∧ .handlerReturns ∈ after

/-- The handler is called for the event: it is that of the listener whose descriptor raised it. -/
structure Answers (m : EpollInstance) (r : Ready) (c : Entry × ActivityStatus) : Prop where
  listening : Listening m c.1
  descriptor : c.1.fd = r.1.1
  /-- There is no other listener with this descriptor. -/
  unique : ∀ e, m.listeners.lookup e.id = some e → e.fd = r.1.1 → e = c.1
  canRead : c.2.canRead = true ↔ r.2 &&& EPOLLIN ≠ 0
  canWrite : c.2.canWrite = true ↔ r.2 &&& EPOLLOUT ≠ 0

/-- The dispatch of the batch, which started in `s`, has ended in `s'` with the step `l` after the
steps `body`. -/
structure Dispatched (s s' : State) (batch : List Ready) (body : List Label) (l : Label) :
    Prop where
  /-- The handlers of the first events have been called, once each and in the order of the batch. -/
  handled : List.Forall₂ (Answers s.monitor) (batch.take (called s s').length) (called s s')
  /-- When no handler throws, all of them have been called. -/
  all : l = .leave → (called s s').length = batch.length
  /-- The listeners from before are left, except for those that have stopped. -/
  kept : ∀ e, s.monitor.listeners.lookup e.id = some e →
    (s'.monitor.listeners.lookup e.id = some e ↔ ¬ Stops s body e.ptr)
  /-- The registered listeners are those from before that have not stopped, and the new ones. -/
  listening : ∀ e, Listening s'.monitor e ↔
    Listening s.monitor e ∧ ¬ Stops s body e.ptr ∨ HasAdded s s' e
  /-- The handlers of new listeners are not called. -/
  new : ∀ e, HasAdded s s' e → ∀ status, (e, status) ∉ called s s'
  /-- The listener whose handler throws stays registered, and so do those of the events after it. -/
  thrown : l = .handlerThrows → 0 < (called s s').length ∧
    ∀ r ∈ batch.drop ((called s s').length - 1), ∀ e, Listening s.monitor e →
      e.fd = r.1.1 → Listening s'.monitor e

/-! ## One step -/

theorem canRead_epollEventToActivityStatus (events : BitVec 32) :
    (epollEventToActivityStatus events).canRead = true ↔ events &&& EPOLLIN ≠ 0 := by
  unfold epollEventToActivityStatus
  split_ifs with hboth hin hout
  · exact iff_of_true (by decide) hboth.1
  · exact iff_of_true (by decide) hin
  · exact iff_of_false (by decide) hin
  · exact iff_of_false (by decide) hin

theorem canWrite_epollEventToActivityStatus (events : BitVec 32) :
    (epollEventToActivityStatus events).canWrite = true ↔ events &&& EPOLLOUT ≠ 0 := by
  unfold epollEventToActivityStatus
  split_ifs with hboth hin hout
  · exact iff_of_true (by decide) hboth.2
  · exact iff_of_false (by decide) fun hout => hboth ⟨hin, hout⟩
  · exact iff_of_true (by decide) hout
  · exact iff_of_false (by decide) hout

/-- The listener whose running handler has called `stop_listening`. -/
def Control.stopping : Control → Option Ptr
  | .handling activity _ => if activity.itemShouldBeRemoved then some activity.data else none
  | _ => none

/-- The step erases the listener at `p`. -/
def Leaves (s : State) (l : Label) (p : Ptr) : Prop :=
  l = .handlerReturns ∧ s.control.stopping = some p

section Step

variable {s s' : State} {l : Label} {m m' : EpollInstance} {e : Entry} {id : EventHandlerId}

theorem State.Step.log_prefix (hs : State.Step s l s') : s.log <+: s'.log := by
  cases hs with
  | call _ _ => exact List.prefix_append _ _
  | process _ => exact List.prefix_append _ _
  | _ => exact List.prefix_rfl

theorem newRecords_trans {t : State} (h : s.log <+: t.log) (h' : t.log <+: s'.log) :
    newRecords s s' = newRecords s t ++ newRecords t s' := by
  obtain ⟨records, hrecords⟩ := h
  obtain ⟨records', hrecords'⟩ := h'
  unfold newRecords
  rw [← hrecords', ← hrecords, List.append_assoc, List.drop_left, List.drop_left,
    ← List.append_assoc, List.drop_left]

theorem EpollInstance.Wf.registered_of_shrinks (hwf : m.Wf) (hl : m.listeners.lookup id = some e)
    (hs : m.kernel.Shrinks m'.kernel) (hr : Registered m' e) : Registered m e := by
  obtain ⟨ofd, event, -, hreg, hdata⟩ := hr
  have hreg₀ := hs (e.fd, ofd) event hreg
  exact ⟨ofd, event, (hwf.own id e (e.fd, ofd) event hl hreg₀ hdata).2, hreg₀, hdata⟩

theorem EpollInstance.Wf.registered_of_update (hwf : m.Wf) (hl : m.listeners.lookup id = some e)
    {key : NativeHandle × Ofd} {event : EpollEvent} (hne : event.data ≠ e.ptr)
    (hinterest : m'.kernel.interest = Function.update m.kernel.interest key (some event))
    (hr : Registered m' e) : Registered m e := by
  obtain ⟨ofd, event', -, hreg, hdata⟩ := hr
  rw [hinterest] at hreg
  by_cases hkey : (e.fd, ofd) = key
  · rw [hkey, Function.update_self] at hreg
    obtain rfl := Option.some.inj hreg
    exact absurd hdata hne
  · rw [Function.update_of_ne hkey] at hreg
    exact ⟨ofd, event', (hwf.own id e (e.fd, ofd) event' hl hreg hdata).2, hreg, hdata⟩

theorem State.Step.registered_of (hwf : s.monitor.Wf) (hw : Watched s.monitor s.control)
    (hs : State.Step s l s') (hl : s.monitor.listeners.lookup id = some e)
    (hr : Registered s'.monitor e) : Registered s.monitor e := by
  cases hs with
  | call _ hcall =>
    cases hwf.callEffect hcall with
    | drops hd _ => exact hwf.registered_of_shrinks hl hd.shrinks hr
    | stores _ hinterest _ _ _ _ => exact hwf.registered_of_shrinks hl (.of_eq hinterest) hr
    | registers _ hreg _ _ =>
      obtain ⟨ofd, events, -, -, hinterest⟩ := hreg
      exact hwf.registered_of_update hl (hwf.ptrLt id e hl).ne' hinterest hr
  | kernel _ _ hk => exact hwf.registered_of_shrinks hl (Kernel.step_shrinks hk) hr
  | @update m _ activity pending status failure entry hentry =>
    obtain ⟨id', hl', hp⟩ := lookup_of_entryAt hentry
    rcases m.updateListeningStatus_cases entry status failure with
      ⟨err, heq⟩ | ⟨ofd, events, -, -, heq⟩
    · rw [heq] at hr
      exact hwf.registered_of_shrinks hl (.of_eq rfl) hr
    · rw [heq] at hr
      by_cases hptr : entry.ptr = e.ptr
      · -- the handler of the listener is running
        obtain rfl : id' = id := hwf.ptr id' entry id e hl' hl hptr
        obtain rfl : entry = e := Option.some.inj (hl'.symm.trans hl)
        exact hw.registered id' entry hl (by simp [Control.inUse, hp])
      · exact hwf.registered_of_update hl hptr rfl hr
  | returnsStopped _ _ =>
    exact hwf.registered_of_shrinks hl (hwf.drops_erase _).shrinks hr
  | _ => exact hr

theorem EpollInstance.Inserts.lookup_iff {fd : NativeHandle} {tag : FileDescriptorTag}
    (hi : Inserts m m' fd tag) (hlt : e.ptr < m.nextPtr) :
    m'.listeners.lookup id = some e ↔ m.listeners.lookup id = some e := by
  refine ⟨fun hl => (hi.lookup_cases hl).resolve_left fun hnew => hlt.ne ?_, hi.lookup⟩
  rw [hnew.2]
  rfl

/-- A step that removes nothing leaves the old listeners where they are, except for the one whose
handler returns and has called `stop_listening`. -/
theorem State.Step.lookup_iff (hwf : s.monitor.Wf) (hok : RemovesNothing s l)
    (hs : State.Step s l s') (hlt : e.ptr < s.monitor.nextPtr) :
    s'.monitor.listeners.lookup e.id = some e ↔
      s.monitor.listeners.lookup e.id = some e ∧ ¬ Leaves s l e.ptr := by
  cases hs with
  | @call _ c _ _ _ hcall =>
    have hleaves : ¬ Leaves s (.call c) e.ptr := nofun
    rw [and_iff_left hleaves]
    cases hwf.callEffect hcall with
    | drops hd _ =>
      rw [hd.lookup]
      split
      · next hid => simp [AList.lookup_eq_none.2 (hok e.id hid)]
      · rfl
    | stores hi _ _ _ _ _ => exact hi.lookup_iff hlt
    | registers hi _ _ _ => exact hi.lookup_iff hlt
  | update _ => simp [Leaves]
  | returns hflag => simp [Leaves, Control.stopping, hflag]
  | @returnsStopped m _ activity pending entry hflag hentry =>
    obtain ⟨id, hl, hp⟩ := lookup_of_entryAt hentry
    obtain rfl := hwf.key id entry hl
    rw [(hwf.drops_erase entry.id).lookup]
    simp only [Leaves, Control.stopping, hflag, if_true, true_and, Option.some.injEq,
      List.mem_singleton]
    split
    · next hid =>
      refine iff_of_false nofun fun h => h.2 ?_
      rw [← hp, Option.some.inj (hl.symm.trans (hid ▸ h.1))]
    · next hid =>
      refine ⟨fun h => ⟨h, fun hptr => hid ?_⟩, And.left⟩
      exact hwf.ptr e.id e entry.id entry h hl (hptr.symm.trans hp.symm)
  | @returnsErased m _ activity pending hflag hentry =>
    refine ⟨fun h => ⟨h, fun hleaves => ?_⟩, And.left⟩
    have hp : activity.data = e.ptr := by simpa [Leaves, Control.stopping, hflag] using hleaves
    have hlive := entryAt_isSome.2 ⟨e.id, e, h, hp.symm⟩
    rw [hentry] at hlive
    cases hlive
  | _ => simp [Leaves]

theorem State.Step.ptr_of_hasAdded (hwf : s.monitor.Wf) (hs : State.Step s l s')
    (h : HasAdded s s' e) : e.ptr = s.monitor.nextPtr := by
  obtain ⟨via, hmem⟩ := h
  cases hs with
  | @call _ c _ records _ hcall =>
    replace hmem : Record.added via e ∈ records := by simpa [newRecords] using hmem
    cases hwf.callEffect hcall with
    | drops _ hrecords =>
      obtain ⟨t, ht⟩ := hrecords _ hmem
      cases ht
    | stores _ _ _ _ _ hrecords => simp [hrecords] at hmem
    | registers _ _ _ hrecords =>
      rw [hrecords, List.mem_singleton] at hmem
      obtain ⟨-, rfl⟩ := Record.added.inj hmem
      rfl
  | _ => simp [newRecords] at hmem

theorem EpollInstance.Inserts.listening {fd : NativeHandle} {tag : FileDescriptorTag}
    (hi : Inserts m m' fd tag) (hr : Registers m.kernel m'.kernel fd m.nextPtr) :
    Listening m' (m.newEntry fd tag) := by
  obtain ⟨ofd, events, hofd, -, hinterest⟩ := hr
  refine ⟨?_, ofd, ⟨events, m.nextPtr⟩, ?_, ?_, rfl⟩
  · rw [hi.listeners]
    exact AList.lookup_insert _
  · rw [hi.descriptors]
    exact hofd
  · rw [hinterest]
    exact Function.update_self ..

theorem EpollInstance.Wf.listening_call {c : Call} {records : List Record} (h : m.Wf)
    (hc : m.call c = some (m', records)) (hle : m.nextPtr ≤ e.ptr) :
    Listening m' e ↔ ∃ via, Record.added via e ∈ records := by
  have hnew : m.listeners.lookup e.id ≠ some e := fun hl => (h.ptrLt e.id e hl).not_ge hle
  cases h.callEffect hc with
  | drops hd hrecords =>
    refine iff_of_false (fun hl => hnew (hd.lookup_eq hl.1).2) ?_
    rintro ⟨via, hmem⟩
    obtain ⟨t, ht⟩ := hrecords _ hmem
    cases ht
  | stores hi hinterest _ _ _ hrecords =>
    refine iff_of_false ?_ (by simp [hrecords])
    -- no registration points at the entry
    rintro ⟨-, ofd, event, -, hreg, hdata⟩
    rw [hinterest] at hreg
    exact (h.dataLt _ event hreg).not_ge (hdata ▸ hle)
  | registers hi hr _ hrecords =>
    rw [hrecords]
    constructor
    · rintro ⟨hl, -⟩
      obtain ⟨-, heq⟩ := (hi.lookup_cases hl).resolve_right hnew
      exact ⟨_, by rw [heq]; exact List.mem_singleton_self _⟩
    · rintro ⟨via', hmem⟩
      obtain ⟨-, rfl⟩ := Record.added.inj (List.mem_singleton.1 hmem)
      exact hi.listening hr

theorem State.Step.listening_new (hwf : s.monitor.Wf) (hs : State.Step s l s')
    (hle : s.monitor.nextPtr ≤ e.ptr) : Listening s'.monitor e ↔ HasAdded s s' e := by
  have hnew : s.monitor.listeners.lookup e.id ≠ some e :=
    fun hl => (hwf.ptrLt e.id e hl).not_ge hle
  cases hs with
  | call _ hcall =>
    simp only [HasAdded, newRecords, List.drop_left]
    exact hwf.listening_call hcall hle
  | update _ => simp [HasAdded, newRecords, Listening, hnew]
  | returnsStopped _ _ =>
    refine iff_of_false (fun hl => hnew ((hwf.drops_erase _).lookup_eq hl.1).2) ?_
    simp [HasAdded, newRecords]
  | _ => simp [HasAdded, newRecords, Listening, hnew]

/-- **What one step does to the registered listeners.** -/
theorem State.Step.listening_iff (hwf : s.monitor.Wf) (hw : Watched s.monitor s.control)
    (hok : RemovesNothing s l) (hs : State.Step s l s') : Listening s'.monitor e ↔
      Listening s.monitor e ∧ ¬ Leaves s l e.ptr ∨ HasAdded s s' e := by
  by_cases hlt : e.ptr < s.monitor.nextPtr
  · have hadded : ¬ HasAdded s s' e := fun h => hlt.ne (hs.ptr_of_hasAdded hwf h)
    have hlookup := hs.lookup_iff hwf hok hlt
    rw [or_iff_left hadded]
    constructor
    · rintro ⟨hl, hr⟩
      obtain ⟨hl₀, hleaves⟩ := hlookup.1 hl
      exact ⟨⟨hl₀, hs.registered_of hwf hw hl₀ hr⟩, hleaves⟩
    · rintro ⟨⟨hl, hr⟩, hleaves⟩
      have hl' := hlookup.2 ⟨hl, hleaves⟩
      exact ⟨hl', hs.registered hwf hl hl' hr⟩
  · have hold : ¬ Listening s.monitor e := fun h => hlt (hwf.ptrLt e.id e h.1)
    rw [hs.listening_new hwf (not_lt.1 hlt)]
    simp [hold]

end Step

/-! ## Which handlers stop -/

section Stops

variable {s t t' : State} {ls after : List Label} {l : Label} {p : Ptr}

theorem callsStop_concat (hrun : eventLoop.run (fun _ _ => True) s ls = some t) :
    CallsStop s (ls ++ [l]) p after ↔
      after = [] ∧ l = .stopListening ∧
          (∃ activity pending, t.control = .handling activity pending ∧ activity.data = p) ∨
        ∃ after', after = after' ++ [l] ∧ CallsStop s ls p after' := by
  constructor
  · rintro ⟨before, t', activity, pending, heq, hrun', hcontrol, hdata⟩
    rcases Lts.concat_eq_append_cons_iff.1 heq with ⟨rfl, rfl, rfl⟩ | ⟨after', rfl, rfl⟩
    · obtain rfl : t = t' := Option.some.inj (hrun.symm.trans hrun')
      exact .inl ⟨rfl, rfl, activity, pending, hcontrol, hdata⟩
    · exact .inr ⟨after', rfl, before, t', activity, pending, rfl, hrun', hcontrol, hdata⟩
  · rintro (⟨rfl, rfl, activity, pending, hcontrol, hdata⟩ |
      ⟨after', rfl, before, t', activity, pending, rfl, hrun', hcontrol, hdata⟩)
    · exact ⟨ls, t, activity, pending, rfl, hrun, hcontrol, hdata⟩
    · exact ⟨before, t', activity, pending, by simp, hrun', hcontrol, hdata⟩

theorem exists_callsStop_concat (hrun : eventLoop.run (fun _ _ => True) s ls = some t) :
    (∃ after, CallsStop s (ls ++ [l]) p after) ↔ (∃ after, CallsStop s ls p after) ∨
      l = .stopListening ∧
        ∃ activity pending, t.control = .handling activity pending ∧ activity.data = p := by
  simp only [callsStop_concat hrun, exists_or, exists_eq_left]
  rw [or_comm]
  refine or_congr ⟨?_, ?_⟩ Iff.rfl
  · rintro ⟨after, after', -, h⟩
    exact ⟨after', h⟩
  · rintro ⟨after, h⟩
    exact ⟨after ++ [l], after, rfl, h⟩

theorem stops_concat (hrun : eventLoop.run (fun _ _ => True) s ls = some t) :
    Stops s (ls ++ [l]) p ↔
      Stops s ls p ∨ l = .handlerReturns ∧ ∃ after, CallsStop s ls p after := by
  constructor
  · rintro ⟨after, h, hmem⟩
    rcases (callsStop_concat hrun).1 h with ⟨rfl, -⟩ | ⟨after', rfl, h'⟩
    · cases hmem
    · rcases List.mem_append.1 hmem with hmem | hmem
      · exact .inl ⟨after', h', hmem⟩
      · exact .inr ⟨(List.mem_singleton.1 hmem).symm, after', h'⟩
  · rintro (⟨after, h, hmem⟩ | ⟨rfl, after, h⟩)
    · exact ⟨after ++ [l], (callsStop_concat hrun).2 (.inr ⟨after, rfl, h⟩), by simp [hmem]⟩
    · exact ⟨_, (callsStop_concat hrun).2 (.inr ⟨after, rfl, h⟩), by simp⟩

theorem Control.afterCall_eq {m : EpollInstance} {c : Control} (h : ¬ (c.afterCall m).IsUndefined) :
    c.afterCall m = c := by
  unfold Control.afterCall at h ⊢
  split
  · next activity pending =>
    by_cases hlive : (m.entryAt activity.data).isSome
    · rw [if_pos hlive]
    · simp [hlive, Control.IsUndefined] at h
  · rfl

theorem State.Step.stopping (hends : ¬ l.Ends) (hdefined : ¬ t'.control.IsUndefined)
    (hs : State.Step t l t') : t'.control.stopping = some p ↔
      l = .stopListening ∧
          (∃ activity pending, t.control = .handling activity pending ∧ activity.data = p) ∨
        t.control.stopping = some p ∧ l ≠ .handlerReturns := by
  cases hs with
  | call _ _ => simp [Control.afterCall_eq hdefined]
  | stopListening => simp +contextual [Control.stopping]
  | processErased _ | updateErased _ | returnsErased _ _ => exact (hdefined trivial).elim
  | throws | leave => exact (hends trivial).elim
  | _ => simp_all [Control.stopping]

end Stops

/-! ## While the batch is dispatched -/

/-- The state `t` of a dispatch that has started in `s`, after the steps `ls`. -/
structure Ongoing (s : State) (ls : List Label) (t : State) : Prop where
  wf : t.monitor.Wf
  inUse : InUse t.monitor t.control
  watched : Watched t.monitor t.control
  busy : t.control ≠ .idle
  log : s.log <+: t.log
  nextPtr : s.monitor.nextPtr ≤ t.monitor.nextPtr
  /-- The loop holds no pointers to new listeners. -/
  inUseLt : ∀ p ∈ t.control.inUse, p < s.monitor.nextPtr
  added : ∀ e, HasAdded s t e → s.monitor.nextPtr ≤ e.ptr
  /-- A handler that has called `stop_listening` has returned, or it is running and its activity has
  been marked. -/
  stopping : ∀ p, (∃ after, CallsStop s ls p after) ↔
    Stops s ls p ∨ t.control.stopping = some p
  /-- The old listeners that are left. -/
  kept : ∀ e, e.ptr < s.monitor.nextPtr → (t.monitor.listeners.lookup e.id = some e ↔
    s.monitor.listeners.lookup e.id = some e ∧ ¬ Stops s ls e.ptr)
  listening : ∀ e, Listening t.monitor e ↔
    Listening s.monitor e ∧ ¬ Stops s ls e.ptr ∨ HasAdded s t e

section Ongoing

variable {s t t' : State} {ls : List Label} {l : Label}

theorem hasAdded_trans {e : Entry} (h : s.log <+: t.log) (h' : t.log <+: t'.log) :
    HasAdded s t' e ↔ HasAdded s t e ∨ HasAdded t t' e := by
  simp only [HasAdded, newRecords_trans h h', List.mem_append, exists_or]

theorem not_callsStop_nil {p : Ptr} {after : List Label} : ¬ CallsStop s [] p after := by
  rintro ⟨before, t, activity, pending, heq, -⟩
  simp at heq

theorem Control.mem_inUse_of_stopping {c : Control} {p : Ptr} (h : c.stopping = some p) :
    p ∈ c.inUse := by
  unfold Control.stopping at h
  split at h
  · simp only [Option.ite_none_right_eq_some, Option.some.injEq] at h
    simp [Control.inUse, h.2]
  · cases h

theorem State.Step.busy (hends : ¬ l.Ends) (hbusy : t.control ≠ .idle) (hs : State.Step t l t') :
    t'.control ≠ .idle := by
  cases hs with
  | @call _ c m _ hallows _ =>
    show t.control.afterCall m ≠ .idle
    unfold Control.afterCall
    split
    · split <;> nofun
    · exact hbusy
  | kernel _ _ _ => exact hbusy
  | waitReturns _ | waitFails => exact absurd rfl hbusy
  | throws | leave => exact (hends trivial).elim
  | _ => nofun

theorem Ongoing.init {pending : List EpollEvent} (hwf : s.monitor.Wf)
    (huse : InUse s.monitor s.control) (hw : Watched s.monitor s.control)
    (hcontrol : s.control = .dispatching pending) : Ongoing s [] s := by
  have hstops : ∀ p, ¬ Stops s [] p := fun p ⟨after, h, _⟩ => not_callsStop_nil h
  have hadded : ∀ e, ¬ HasAdded s s e := fun e ⟨via, h⟩ => by simp [newRecords] at h
  refine ⟨hwf, huse, hw, ?_, List.prefix_rfl, le_rfl, hw.ptrLt, ?_, ?_, ?_, ?_⟩
  · rw [hcontrol]
    nofun
  · intro e h
    exact absurd h (hadded e)
  · intro p
    simp [not_callsStop_nil, hstops, hcontrol, Control.stopping]
  · intro e _
    simp [hstops]
  · intro e
    simp [hstops, hadded]

theorem Ongoing.step (h : Ongoing s ls t) (hrun : eventLoop.run (fun _ _ => True) s ls = some t)
    (hends : ¬ l.Ends) (hok : RemovesNothing t l) (hs : State.Step t l t') :
    Ongoing s (ls ++ [l]) t' := by
  have hbatch : BatchRegistered t l := by
    unfold BatchRegistered
    split
    · cases hs with
      | waitReturns _ => exact absurd rfl h.busy
    · trivial
  have hnone : RemovesNoneInUse t l := by
    unfold RemovesNoneInUse
    split
    · intro id hid e hl
      have hnotMem := AList.lookup_eq_none.2 (hok id hid)
      rw [hnotMem] at hl
      cases hl
    · trivial
  have huse := hs.inUse h.wf h.inUse hbatch hnone
  have hstops : ∀ p, Stops s (ls ++ [l]) p ↔ Stops s ls p ∨ Leaves t l p := by
    intro p
    rw [stops_concat hrun, h.stopping]
    unfold Leaves
    tauto
  have hinUse : ∀ p ∈ t'.control.inUse, p ∈ t.control.inUse := by
    intro p hp
    rcases hs.inUse_cases hp with hp | ⟨hidle, -⟩
    · exact hp
    · exact absurd hidle h.busy
  refine ⟨hs.wf h.wf, huse, hs.watched h.wf h.watched, hs.busy hends h.busy,
    h.log.trans hs.log_prefix, h.nextPtr.trans (hs.nextPtr_le h.wf), ?_, ?_, ?_, ?_, ?_⟩
  · intro p hp
    exact h.inUseLt p (hinUse p hp)
  · intro e he
    rcases (hasAdded_trans h.log hs.log_prefix).1 he with he | he
    · exact h.added e he
    · exact (hs.ptr_of_hasAdded h.wf he).ge.trans' h.nextPtr
  · intro p
    rw [exists_callsStop_concat hrun, hstops, hs.stopping hends huse.defined, h.stopping]
    unfold Leaves
    by_cases hreturns : l = .handlerReturns
    · simp [hreturns]
    · simp only [hreturns, false_and, or_false, not_false_eq_true, and_true, ne_eq]
      exact or_assoc.trans (or_congr_right or_comm)
  · intro e hlt
    rw [hs.lookup_iff h.wf hok (hlt.trans_le h.nextPtr), h.kept e hlt, hstops]
    tauto
  · intro e
    -- the listener that leaves is an old one
    have hold : HasAdded s t e → ¬ Leaves t l e.ptr := fun he hleaves =>
      (h.inUseLt _ (Control.mem_inUse_of_stopping hleaves.2)).not_ge (h.added e he)
    rw [hs.listening_iff h.wf h.watched hok, h.listening e, hstops,
      hasAdded_trans h.log hs.log_prefix]
    tauto

theorem Ongoing.listening_of_inUse {e : Entry} (h : Ongoing s ls t) (hwf : s.monitor.Wf)
    (hl : s.monitor.listeners.lookup e.id = some e) (hp : e.ptr ∈ t.control.inUse) :
    Listening t.monitor e := by
  obtain ⟨id, e', hl', hptr⟩ := h.inUse.live e.ptr hp
  obtain rfl := h.wf.key id e' hl'
  have hold := ((h.kept e' (hptr ▸ h.inUseLt e.ptr hp)).1 hl').1
  have hid := hwf.ptr e'.id e' e.id e hold hl hptr
  obtain rfl : e' = e := by
    rw [hid, hl] at hold
    exact (Option.some.inj hold).symm
  exact ⟨hl', h.watched.registered e'.id e' hl' hp⟩

end Ongoing

/-! ## The calls of the handlers -/

/-- The event is one of a registration of the listener. -/
def Raises (m : EpollInstance) (x : Ready × Entry) : Prop :=
  m.listeners.lookup x.2.id = some x.2 ∧
    ∃ event, m.kernel.interest x.1.1 = some event ∧ event.data = x.2.ptr

/-- What `epoll_wait` stores for the event. -/
def eventOf (x : Ready × Entry) : EpollEvent := ⟨x.1.2, x.2.ptr⟩

/-- How the handler of the listener is called for the event. -/
def handlerCall (x : Ready × Entry) : Entry × ActivityStatus :=
  (x.2, epollEventToActivityStatus x.1.2)

/-- The handlers of a first part of the batch have been called, and the rest is pending. -/
def Answered (items : List (Ready × Entry)) (s t : State) : Prop :=
  ∃ done todo, items = done ++ todo ∧ called s t = done.map handlerCall ∧
    (t.control = .dispatching (todo.map eventOf) ∨
      ∃ activity before x, t.control = .handling activity (todo.map eventOf) ∧
        done = before ++ [x] ∧ activity.data = x.2.ptr)

section Calls

variable {s t t' : State} {ls : List Label} {l : Label} {m : EpollInstance}
  {items : List (Ready × Entry)} {batch : List Ready}

theorem exists_items (hwf : m.Wf) (hready : ∀ r ∈ batch, (m.kernel.interest r.1).isSome)
    (hlive : ∀ item ∈ m.eventsOf batch, (m.entryAt item.data).isSome) :
    ∃ items : List (Ready × Entry), items.map Prod.fst = batch ∧ (∀ x ∈ items, Raises m x) ∧
      m.eventsOf batch = items.map eventOf := by
  induction batch with
  | nil => exact ⟨[], rfl, by simp, rfl⟩
  | cons r batch ih =>
    obtain ⟨event, hevent⟩ := Option.isSome_iff_exists.1 (hready r List.mem_cons_self)
    have heq : m.eventsOf (r :: batch) = ⟨r.2, event.data⟩ :: m.eventsOf batch := by
      simp [EpollInstance.eventsOf, hevent]
    rw [heq] at hlive
    obtain ⟨e, hentry⟩ := Option.isSome_iff_exists.1 (hlive _ List.mem_cons_self)
    obtain ⟨id, hl, hp⟩ := lookup_of_entryAt hentry
    obtain rfl := hwf.key id e hl
    obtain ⟨items, hfst, hraises, hevents⟩ :=
      ih (fun r' hr' => hready r' (List.mem_cons_of_mem _ hr'))
        fun item hitem => hlive item (List.mem_cons_of_mem _ hitem)
    refine ⟨(r, e) :: items, by simp [hfst], List.forall_mem_cons.2 ⟨?_, hraises⟩, ?_⟩
    · exact ⟨hl, event, hevent, hp.symm⟩
    · rw [heq, hevents, List.map_cons, eventOf, hp]

theorem Raises.answers {x : Ready × Entry} (hwf : m.Wf) (h : Raises m x) :
    Answers m x.1 (handlerCall x) := by
  obtain ⟨hl, event, hevent, hdata⟩ := h
  obtain ⟨hfd, hofd⟩ := hwf.own x.2.id x.2 x.1.1 event hl hevent hdata
  have hreg : Registered m x.2 := ⟨x.1.1.2, event, hofd, by rw [← hfd]; exact hevent, hdata⟩
  refine ⟨⟨hl, hreg⟩, hfd.symm, ?_, canRead_epollEventToActivityStatus _,
    canWrite_epollEventToActivityStatus _⟩
  intro e hl' hfd'
  have hid : x.2.id = e.id := by
    by_contra hne
    exact hwf.fd_ne hl' hl hne hreg.mem_descriptors (hfd.symm.trans hfd'.symm)
  rw [hid, hl'] at hl
  exact Option.some.inj hl

theorem called_trans (h : s.log <+: t.log) (h' : t.log <+: t'.log) :
    called s t' = called s t ++ called t t' := by
  unfold called
  rw [newRecords_trans h h', List.filterMap_append]

theorem State.Step.called_eq_nil (hwf : t.monitor.Wf) (hs : State.Step t l t')
    (hl : l ≠ .process) : called t t' = [] := by
  cases hs with
  | @call _ c _ records _ hcall =>
    have hnone : ∀ r ∈ records, ∀ e status, r ≠ .handled e status := by
      cases hwf.callEffect hcall with
      | drops _ hrecords =>
        intro r hr e status heq
        obtain ⟨_, ht⟩ := hrecords r hr
        cases ht.symm.trans heq
      | stores _ _ _ _ _ hrecords => simp [hrecords]
      | registers _ _ _ hrecords => simp [hrecords]
    simp only [called, newRecords, List.drop_left, List.filterMap_eq_nil_iff]
    intro r hr
    split
    · next e status => exact absurd rfl (hnone _ hr e status)
    · rfl
  | process _ => exact absurd rfl hl
  | _ => simp [called, newRecords]

theorem Answered.step (h : Answered items s t) (hongoing : Ongoing s ls t) (hwf : s.monitor.Wf)
    (hraises : ∀ x ∈ items, Raises s.monitor x) (hends : ¬ l.Ends)
    (hdefined : ¬ t'.control.IsUndefined) (hs : State.Step t l t') : Answered items s t' := by
  obtain ⟨done, todo, rfl, hcalled, hcontrol⟩ := h
  have htrans := called_trans hongoing.log hs.log_prefix
  have hquiet : l ≠ .process → (t'.control = .dispatching (todo.map eventOf) ∨
      ∃ activity before x, t'.control = .handling activity (todo.map eventOf) ∧
        done = before ++ [x] ∧ activity.data = x.2.ptr) → Answered (done ++ todo) s t' := by
    intro hl hcontrol'
    refine ⟨done, todo, rfl, ?_, hcontrol'⟩
    rw [htrans, hs.called_eq_nil hongoing.wf hl, List.append_nil, hcalled]
  cases hs with
  | @process m log event pending entry hentry =>
    rcases hcontrol with hcontrol | ⟨_, _, _, hcontrol, -⟩
    · cases todo with
      | nil => simp at hcontrol
      | cons x todo =>
        obtain ⟨rfl, rfl⟩ : event = eventOf x ∧ pending = todo.map eventOf := by
          simpa using hcontrol
        -- the pointer still points at the listener that raised the event
        have hlive := hongoing.listening_of_inUse hwf (hraises x (by simp)).1 List.mem_cons_self
        obtain ⟨id, hl, hp⟩ := lookup_of_entryAt hentry
        have hid := hongoing.wf.ptr id entry x.2.id x.2 hl hlive.1 hp
        obtain rfl : x.2 = entry := Option.some.inj (hlive.1.symm.trans (hid ▸ hl))
        refine ⟨done ++ [x], todo, by simp, ?_, .inr ⟨_, done, x, rfl, rfl, rfl⟩⟩
        rw [htrans, hcalled, List.map_append]
        simp [called, newRecords, handlerCall, eventOf]
    · cases hcontrol
  | call _ _ =>
    refine hquiet nofun ?_
    simp only [Control.afterCall_eq hdefined]
    exact hcontrol
  | kernel _ _ _ => exact hquiet nofun hcontrol
  | update _ => exact hquiet nofun hcontrol
  | stopListening =>
    rcases hcontrol with hcontrol | ⟨activity, before, x, hcontrol, hdone, hdata⟩
    · cases hcontrol
    · cases hcontrol
      exact hquiet nofun (.inr ⟨_, before, x, rfl, hdone, hdata⟩)
  | returns _ | returnsStopped _ _ =>
    rcases hcontrol with hcontrol | ⟨activity, before, x, hcontrol, -⟩
    · cases hcontrol
    · cases hcontrol
      exact hquiet nofun (.inl rfl)
  | waitReturns _ | waitFails => exact absurd rfl hongoing.busy
  | processErased _ | updateErased _ | returnsErased _ _ => exact (hdefined trivial).elim
  | throws | leave => exact (hends trivial).elim

end Calls

/-! ## The whole dispatch -/

theorem State.Step.of_ends {t s' : State} {l : Label} (hends : l.Ends) (hs : State.Step t l s') :
    s'.monitor = t.monitor ∧ s'.log = t.log ∧ (l = .leave ∧ t.control = .dispatching [] ∨
      l = .handlerThrows ∧ ∃ activity pending, t.control = .handling activity pending) := by
  cases hs with
  | throws => exact ⟨rfl, rfl, .inr ⟨rfl, _, _, rfl⟩⟩
  | leave => exact ⟨rfl, rfl, .inl ⟨rfl, rfl⟩⟩
  | _ => exact hends.elim

theorem dispatched_of_ends {s t s' : State} {body : List Label} {l : Label}
    {items : List (Ready × Entry)} (hwf : s.monitor.Wf) (hraises : ∀ x ∈ items, Raises s.monitor x)
    (h : Ongoing s body t) (ha : Answered items s t) (hends : l.Ends) (hs : State.Step t l s') :
    Dispatched s s' (items.map Prod.fst) body l := by
  obtain ⟨hmonitor, hlog, hcases⟩ := hs.of_ends hends
  obtain ⟨done, todo, rfl, hcalled, hcontrol⟩ := ha
  have hcalled' : called s s' = done.map handlerCall := by
    rw [← hcalled]
    simp only [called, newRecords, hlog]
  have hadded : ∀ e, HasAdded s s' e ↔ HasAdded s t e := fun e => by
    simp only [HasAdded, newRecords, hlog]
  refine ⟨?_, ?_, ?_, ?_, ?_, ?_⟩
  · rw [hcalled', List.map_append, List.length_map, ← List.length_map Prod.fst, List.take_left,
      List.forall₂_map_left_iff, List.forall₂_map_right_iff, List.forall₂_same]
    exact fun x hx => (hraises x (List.mem_append_left _ hx)).answers hwf
  · rintro rfl
    have hnil : todo = [] := by
      rcases hcases with ⟨-, hleft⟩ | ⟨hthrows, -⟩
      · rcases hcontrol with hcontrol | ⟨activity, before, x, hcontrol, -⟩
        · simpa using hleft.symm.trans hcontrol
        · cases hleft.symm.trans hcontrol
      · cases hthrows
    simp [hcalled', hnil]
  · intro e hl
    rw [hmonitor, h.kept e (hwf.ptrLt e.id e hl), and_iff_right hl]
  · intro e
    rw [hmonitor, h.listening e, hadded]
  · intro e he status hmem
    rw [hcalled'] at hmem
    obtain ⟨x, hx, heq⟩ := List.mem_map.1 hmem
    obtain rfl : x.2 = e := congrArg Prod.fst heq
    have hlt := hwf.ptrLt _ _ (hraises x (List.mem_append_left _ hx)).1
    exact hlt.not_ge (h.added x.2 ((hadded x.2).1 he))
  · rintro rfl
    obtain ⟨activity, before, x, hhandling, rfl, hdata⟩ : ∃ activity before x,
        t.control = .handling activity (todo.map eventOf) ∧ done = before ++ [x] ∧
          activity.data = x.2.ptr := by
      rcases hcases with ⟨hleave, -⟩ | ⟨-, activity, pending, hthrows⟩
      · cases hleave
      · exact hcontrol.resolve_left fun hcontrol => by cases hthrows.symm.trans hcontrol
    have hlength : (called s s').length = before.length + 1 := by simp [hcalled']
    refine ⟨hlength ▸ Nat.succ_pos _, ?_⟩
    intro r hr e hl hfd
    have hdrop : ((before ++ [x] ++ todo).map Prod.fst).drop before.length =
        (x :: todo).map Prod.fst := by
      rw [← List.map_drop, List.append_assoc, List.drop_left]
      rfl
    rw [hlength, Nat.add_sub_cancel, hdrop] at hr
    obtain ⟨y, hy, rfl⟩ := List.mem_map.1 hr
    have hy' : y ∈ before ++ [x] ++ todo := by
      rw [List.append_assoc]
      exact List.mem_append_right _ hy
    obtain rfl : e = y.2 := ((hraises y hy').answers hwf).unique e hl.1 hfd
    -- the loop holds a pointer to the listener
    have hp : y.2.ptr ∈ t.control.inUse := by
      rw [hhandling]
      rcases List.mem_cons.1 hy with rfl | hy
      · exact List.mem_cons.2 (.inl hdata.symm)
      · exact List.mem_cons_of_mem _ (List.mem_map.2 ⟨eventOf y, List.mem_map_of_mem hy, rfl⟩)
    rw [hmonitor]
    exact h.listening_of_inUse hwf hl.1 hp

/-- **A dispatch does what its batch says.**  In a reachable state `epoll_wait` returns a batch of
events on listeners.  Whatever handlers and others do, as long as nothing removes a listener, no
dead listener is used, and when the dispatch ends the handlers have been called for the events in
order, up to one that throws; the registered listeners are those from before and the new ones,
without those whose own handler has called `stop_listening` and has returned. -/
theorem dispatch_exact {ok : State → Label → Prop} {ls body : List Label} {s start t : State}
    {batch : List Ready} (h : eventLoop.Reach ok ls s)
    (hbatch : BatchRegistered s (.waitReturns batch))
    (hwait : eventLoop.step s (.waitReturns batch) = some start)
    (hrun : eventLoop.run RemovesNothing start body = some t) (hbody : ∀ l ∈ body, ¬ l.Ends) :
    ¬ t.control.IsUndefined ∧ ∀ l s', l.Ends → eventLoop.step t l = some s' →
      Dispatched start s' batch body l := by
  have hs : State.Step s (.waitReturns batch) start := State.step_cases hwait
  have hwf := reach_wf h
  have hwf' := hs.wf hwf
  have hw := hs.watched hwf (reach_watched h)
  cases hs with
  | @waitReturns m log _ hready =>
    obtain ⟨items, rfl, hraises, hevents⟩ := exists_items hwf hready.2.2 hbatch
    have huse := State.Step.inUse hwf .idle hbatch trivial (@State.Step.waitReturns m log _ hready)
    set start : State := ⟨m, .dispatching (m.eventsOf (items.map Prod.fst)), log⟩
    have hinv : (∀ l ∈ body, ¬ l.Ends) → Ongoing start body t ∧ Answered items start t := by
      refine Lts.run_invariant (I := fun body t => (∀ l ∈ body, ¬ l.Ends) →
        Ongoing start body t ∧ Answered items start t) ?_ ?_ hrun
      · intro _
        refine ⟨.init hwf' huse hw rfl, [], items, rfl, ?_, .inl ?_⟩
        · simp [called, newRecords]
        · exact congrArg Control.dispatching hevents
      · intro ls t l t' hrun ih hok hstep hends
        obtain ⟨hongoing, hanswered⟩ := ih fun l' hl' => hends l' (List.mem_append_left _ hl')
        have hl : ¬ l.Ends := hends l (by simp)
        have hs : State.Step t l t' := State.step_cases hstep
        have hongoing' := hongoing.step (Lts.run_true hrun) hl hok hs
        exact ⟨hongoing', hanswered.step hongoing hwf' hraises hl hongoing'.inUse.defined hs⟩
    obtain ⟨hongoing, hanswered⟩ := hinv hbody
    refine ⟨hongoing.inUse.defined, ?_⟩
    intro l s' hends hstep
    exact dispatched_of_ends hwf' hraises hongoing hanswered hends (State.step_cases hstep)

/-- Two listeners are added. -/
def beforeBatch : List Label :=
  [.kernel (.openDescriptor 3 none), .kernel (.openDescriptor 4 none),
    .call (.add 3 .generic .read none), .call (.add 4 .generic .read none)]

/-- The first handler adds a listener and stops, the second one changes what it listens to. -/
def duringBatch : List Label :=
  [.process, .kernel (.openDescriptor 5 none), .call (.add 5 .generic .write none), .stopListening,
    .handlerReturns, .process, .updateListeningStatus .write none, .handlerReturns]

theorem dispatch_exact_duringBatch : ∃ s start t s',
    eventLoop.Reach (fun _ _ => True) beforeBatch s ∧
      eventLoop.step s (.waitReturns [((3, 0), EPOLLIN), ((4, 1), EPOLLIN)]) = some start ∧
        eventLoop.run RemovesNothing start duringBatch = some t ∧
          eventLoop.step t .leave = some s' ∧
            Dispatched start s' [((3, 0), EPOLLIN), ((4, 1), EPOLLIN)] duringBatch .leave := by
  have hrun : ((eventLoop.run (fun _ _ => True) State.fresh beforeBatch).bind fun s =>
      if BatchRegistered s (.waitReturns [((3, 0), EPOLLIN), ((4, 1), EPOLLIN)]) then
        (eventLoop.step s (.waitReturns [((3, 0), EPOLLIN), ((4, 1), EPOLLIN)])).bind fun start =>
          (eventLoop.run RemovesNothing start duringBatch).bind fun t => eventLoop.step t .leave
      else none).isSome := by decide
  obtain ⟨s', hs'⟩ := Option.isSome_iff_exists.1 hrun
  obtain ⟨s, hs, hs'⟩ := Option.bind_eq_some_iff.1 hs'
  rw [Option.ite_none_right_eq_some] at hs'
  obtain ⟨hbatch, hs'⟩ := hs'
  obtain ⟨start, hwait, hs'⟩ := Option.bind_eq_some_iff.1 hs'
  obtain ⟨t, ht, hleave⟩ := Option.bind_eq_some_iff.1 hs'
  have h := Lts.Reach.of_run State.fresh_init hs
  have hbody : ∀ l ∈ duringBatch, ¬ l.Ends := by simp [duringBatch, Label.Ends]
  exact ⟨s, start, t, s', h, hwait, ht, hleave,
    (dispatch_exact h hbatch hwait ht hbody).2 .leave s' trivial hleave⟩

end ThePipe.OsServices.IoMultiplexer
