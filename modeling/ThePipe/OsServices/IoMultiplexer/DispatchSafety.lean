import ThePipe.OsServices.IoMultiplexer.Invariant

/-!
# Dispatching does not use erased listeners

The loop holds pointers to the listener whose handler is running and to those whose events are
still to be processed.  As long as no handler removes one of these, no pointer dangles
(`dispatch_safe`).  Nothing in the loop prevents a handler from doing so: it may remove its own
listener, or the one of a later event (`handler_removes_running`, `handler_removes_pending`).
-/

set_option autoImplicit false

namespace ThePipe.OsServices.IoMultiplexer

open ErrorHandling Fd Lib EpollInstance

/-- The listeners that the loop holds a pointer to: the one whose handler is running, and those
whose events are pending. -/
def Control.inUse : Control → List Ptr
  | .dispatching pending => pending.map (·.data)
  | .handling activity pending => activity.data :: pending.map (·.data)
  | _ => []

/-- Every event that `epoll_wait` returns points at a listener that is registered then. -/
def BatchRegistered (s : State) : Label → Prop
  | .waitReturns batch => ∀ item ∈ s.monitor.eventsOf batch, (s.monitor.entryAt item.data).isSome
  | _ => True

instance (s : State) (l : Label) : Decidable (BatchRegistered s l) := by
  cases l <;> unfold BatchRegistered <;> infer_instance

/-- The step does not remove a listener that the loop holds a pointer to. -/
def RemovesNoneInUse (s : State) : Label → Prop
  | .call c => ∀ id ∈ s.monitor.removes c, ∀ e ∈ s.monitor.listeners.lookup id,
      e.ptr ∉ s.control.inUse
  | _ => True

instance (s : State) (l : Label) : Decidable (RemovesNoneInUse s l) := by
  cases l <;> unfold RemovesNoneInUse <;> infer_instance

/-- What the loop relies on: its pointers are those of different listeners that exist. -/
structure InUse (m : EpollInstance) (control : Control) : Prop where
  live : ∀ p ∈ control.inUse, ∃ id e, m.listeners.lookup id = some e ∧ e.ptr = p
  nodup : control.inUse.Nodup
  defined : ¬ control.IsUndefined

section Steps

variable {m m' : EpollInstance} {control : Control} {activity : EpollFdActivity}
  {pending : List EpollEvent} {entry : Entry}

theorem InUse.idle : InUse m .idle := ⟨by simp [Control.inUse], by simp [Control.inUse], id⟩

theorem InUse.mono (h : InUse m control)
    (hl : ∀ id e, m.listeners.lookup id = some e → e.ptr ∈ control.inUse →
      m'.listeners.lookup id = some e) : InUse m' control := by
  refine ⟨fun p hp => ?_, h.nodup, h.defined⟩
  obtain ⟨id, e, hle, rfl⟩ := h.live p hp
  exact ⟨id, e, hl id e hle hp, rfl⟩

theorem InUse.afterCall (h : InUse m control) : InUse m (control.afterCall m) := by
  unfold Control.afterCall
  split
  · next activity pending =>
    have hlive := entryAt_isSome.2 (h.live activity.data (List.mem_cons_self ..))
    rwa [if_pos hlive]
  · exact h

theorem InUse.call {c : Call} {records : List Record} (h : InUse m control) (hwf : m.Wf)
    (hc : m.call c = some (m', records))
    (hok : ∀ id ∈ m.removes c, ∀ e ∈ m.listeners.lookup id, e.ptr ∉ control.inUse) :
    InUse m' (control.afterCall m') := by
  refine (h.mono fun id e hl hp => ?_).afterCall
  cases hwf.callEffect hc with
  | drops hd _ => rw [hd.lookup, if_neg fun hid => hok id hid e hl hp, hl]
  | stores hi _ _ _ _ _ => exact hi.lookup hl
  | registers hi _ _ _ => exact hi.lookup hl

theorem eventsOf_nodup {batch : List ((NativeHandle × Ofd) × BitVec 32)} (hwf : m.Wf)
    (hready : m.BatchReady batch)
    (hlive : ∀ item ∈ m.eventsOf batch, (m.entryAt item.data).isSome) :
    ((m.eventsOf batch).map (·.data)).Nodup := by
  obtain ⟨-, hkeys, -⟩ := hready
  unfold List.Nodup at hkeys ⊢
  rw [List.pairwise_map] at hkeys ⊢
  unfold EpollInstance.eventsOf at hlive ⊢
  rw [List.pairwise_filterMap]
  refine hkeys.imp_of_mem ?_
  intro r r' hr hr' hne item hitem item' hitem' heq
  obtain ⟨event, hevent, rfl⟩ := Option.map_eq_some_iff.1 hitem
  obtain ⟨event', hevent', rfl⟩ := Option.map_eq_some_iff.1 hitem'
  -- both registrations would be those of the one listener at `event.data`
  have hentry := hlive _ (List.mem_filterMap.2 ⟨r, hr, hitem⟩)
  obtain ⟨id, e, hl, hp⟩ := entryAt_isSome.1 hentry
  obtain ⟨hfd, hofd⟩ := hwf.own id e r.1 event hl hevent hp.symm
  obtain ⟨hfd', hofd'⟩ := hwf.own id e r'.1 event' hl hevent' (heq.symm.trans hp.symm)
  exact hne (Prod.ext (hfd.trans hfd'.symm) (Option.some.inj (hofd.symm.trans hofd')))

theorem InUse.erase (h : InUse m (.handling activity pending)) (hwf : m.Wf)
    (hentry : m.entryAt activity.data = some entry) :
    InUse (m.erase entry.id) (.dispatching pending) := by
  obtain ⟨id, hl, hp⟩ := lookup_of_entryAt hentry
  obtain rfl := hwf.key id entry hl
  have hnodup := h.nodup
  simp only [Control.inUse, List.nodup_cons] at hnodup
  refine ⟨fun p hmem => ?_, hnodup.2, fun h => h⟩
  obtain ⟨id', e', hl', rfl⟩ := h.live p (List.mem_cons_of_mem _ hmem)
  have hne : id' ∉ [entry.id] := by
    intro hid
    obtain rfl : id' = entry.id := by simpa using hid
    obtain rfl : entry = e' := Option.some.inj (hl.symm.trans hl')
    exact hnodup.1 (hp ▸ hmem)
  exact ⟨id', e', by rw [(hwf.drops_erase entry.id).lookup, if_neg hne, hl'], rfl⟩

end Steps

theorem State.Step.inUse {s s' : State} {l : Label} (hwf : s.monitor.Wf)
    (h : InUse s.monitor s.control) (hreg : BatchRegistered s l) (hok : RemovesNoneInUse s l)
    (hs : State.Step s l s') : InUse s'.monitor s'.control := by
  cases hs with
  | call _ hcall => exact h.call hwf hcall hok
  | kernel _ _ _ => exact h.mono fun _ _ hl _ => hl
  | waitReturns hready =>
    refine ⟨fun p hp => ?_, eventsOf_nodup hwf hready hreg, fun h => h⟩
    obtain ⟨item, hitem, rfl⟩ := List.mem_map.1 hp
    exact entryAt_isSome.1 (hreg item hitem)
  | waitFails => exact h
  | process _ => exact ⟨h.live, h.nodup, fun h => h⟩
  | processErased hentry =>
    have hlive := entryAt_isSome.2 (h.live _ (List.mem_cons_self ..))
    rw [hentry] at hlive
    cases hlive
  | update _ => exact h.mono fun id e hl _ => by rwa [updateListeningStatus_listeners]
  | updateErased hentry =>
    have hlive := entryAt_isSome.2 (h.live _ (List.mem_cons_self ..))
    rw [hentry] at hlive
    cases hlive
  | stopListening => exact ⟨h.live, h.nodup, fun h => h⟩
  | returns _ =>
    exact ⟨fun p hp => h.live p (List.mem_cons_of_mem _ hp), (List.nodup_cons.1 h.nodup).2,
      fun h => h⟩
  | returnsStopped _ hentry => exact h.erase hwf hentry
  | returnsErased _ hentry =>
    have hlive := entryAt_isSome.2 (h.live _ (List.mem_cons_self ..))
    rw [hentry] at hlive
    cases hlive
  | throws => exact .idle
  | leave => exact .idle

/-- Two listeners are added and an event is reported for each of them; the first handler runs. -/
def twoEvents : List Label :=
  [.kernel (.openDescriptor 3 none), .kernel (.openDescriptor 4 none),
    .call (.add 3 .generic .read none), .call (.add 4 .generic .read none),
    .waitReturns [((3, 0), EPOLLIN), ((4, 1), EPOLLIN)], .process]

/-- **No dead listener is used** in a run in which no step removes a listener that the loop holds a
pointer to: `handle_event` and `get_id` are called on listeners that exist, and no listener is
erased while its `handle_event` is running. -/
theorem dispatch_safe {ls : List Label} {s : State}
    (h : eventLoop.Reach (fun s l => BatchRegistered s l ∧ RemovesNoneInUse s l) ls s)
    (fault : Fault) : s.control ≠ .undefined fault := by
  have hinv : s.monitor.Wf ∧ InUse s.monitor s.control := by
    refine h.invariant (I := fun _ s => s.monitor.Wf ∧ InUse s.monitor s.control) ?_ ?_
    · intro s h0
      refine ⟨State.Init.wf h0, ?_⟩
      rw [State.Init.control h0]
      exact .idle
    · rintro ls s l s' - ⟨hwf, huse⟩ ⟨hreg, hok⟩ hstep
      have hs := State.step_cases hstep
      exact ⟨hs.wf hwf, hs.inUse hwf huse hreg hok⟩
  intro hc
  have hdef := hinv.2.defined
  rw [hc] at hdef
  exact hdef trivial

/-- The first handler stops listening, and the second one is still called. -/
theorem dispatch_safe_twoEvents : ∃ s,
    eventLoop.Reach (fun s l => BatchRegistered s l ∧ RemovesNoneInUse s l)
      (twoEvents ++ [.stopListening, .handlerReturns, .process]) s ∧
        ∀ fault, s.control ≠ .undefined fault := by
  have hrun : (eventLoop.run (fun s l => BatchRegistered s l ∧ RemovesNoneInUse s l) State.fresh
      (twoEvents ++ [.stopListening, .handlerReturns, .process])).isSome := by decide
  obtain ⟨s, hs⟩ := Option.isSome_iff_exists.1 hrun
  have h := Lts.Reach.of_run State.fresh_init hs
  exact ⟨s, h, dispatch_safe h⟩

/-! ## Handlers that remove listeners -/

/-- When a listener of a pending event does not exist, handlers that do nothing at all lead to a use
of it. -/
theorem dangling_pending (m : EpollInstance) (pending : List EpollEvent) (log : List Record)
    (hdead : ∃ item ∈ pending, m.entryAt item.data = none) :
    ∃ ls s, eventLoop.run BatchRegistered ⟨m, .dispatching pending, log⟩ ls = some s ∧
      s.control = .undefined .handleEventOnErased := by
  induction pending generalizing log with
  | nil => simp at hdead
  | cons item pending ih =>
    cases hentry : m.entryAt item.data with
    | none =>
      refine ⟨[.process], ⟨m, .undefined .handleEventOnErased, log⟩, ?_, rfl⟩
      simp [Lts.run, eventLoop, State.step, BatchRegistered, hentry]
    | some entry =>
      have hrest : ∃ item ∈ pending, m.entryAt item.data = none := by
        obtain ⟨item', hmem, hnone⟩ := hdead
        rcases List.mem_cons.1 hmem with rfl | hmem
        · rw [hentry] at hnone
          cases hnone
        · exact ⟨item', hmem, hnone⟩
      obtain ⟨ls, s, hrun, hc⟩ :=
        ih (log ++ [.handled entry (epollEventToActivityStatus item.events)]) hrest
      refine ⟨.process :: .handlerReturns :: ls, s, ?_, hc⟩
      simpa [Lts.run, eventLoop, State.step, BatchRegistered, hentry] using hrun

/-- The condition of `dispatch_safe` is needed: from a step that removes a listener in use, the run
can go on to use it. -/
theorem removal_dangles {ls : List Label} {s s' : State} {c : Call}
    {ok : State → Label → Prop} (h : eventLoop.Reach ok ls s) (hs : s.step (.call c) = some s')
    (hrem : ¬ RemovesNoneInUse s (.call c)) : ∃ ls' s'' fault,
      eventLoop.run BatchRegistered s' ls' = some s'' ∧ s''.control = .undefined fault := by
  have hwf := reach_wf h
  unfold RemovesNoneInUse at hrem
  push Not at hrem
  obtain ⟨id, hid, e, hl, hp⟩ := hrem
  obtain ⟨m, control, log⟩ := s
  cases State.step_cases hs with
  | @call _ _ m' records hallows hcall =>
    have hdrops : Drops m m' (m.removes c) := by
      cases hwf.callEffect hcall with
      | drops hd _ => exact hd
      | stores _ _ _ _ hnil _ => simp only [hnil, List.not_mem_nil] at hid
      | registers _ _ hnil _ => simp only [hnil, List.not_mem_nil] at hid
    have hdead : m'.entryAt e.ptr = none := by
      rw [← Option.not_isSome_iff_eq_none, entryAt_isSome]
      rintro ⟨id', e', hl', hp'⟩
      obtain ⟨hid', hl'⟩ := hdrops.lookup_eq hl'
      exact hid' (hwf.ptr id' e' id e hl' hl hp' ▸ hid)
    cases control with
    | idle => simp [Control.inUse] at hp
    | dispatching pending => exact hallows.elim
    | undefined fault => exact hallows.elim
    | handling activity pending =>
      by_cases hlive : (m'.entryAt activity.data).isSome
      · have hne : e.ptr ≠ activity.data := by
          rintro heq
          rw [← heq, hdead] at hlive
          cases hlive
        obtain ⟨item, hitem, hdata⟩ := List.mem_map.1 ((List.mem_cons.1 hp).resolve_left hne)
        obtain ⟨entry, hentry⟩ := Option.isSome_iff_exists.1 hlive
        -- the handler returns, and the event of the removed listener is still pending
        obtain ⟨m'', hret, hdead'⟩ : ∃ m'', State.step ⟨m', .handling activity pending,
            log ++ records⟩ .handlerReturns = some ⟨m'', .dispatching pending, log ++ records⟩ ∧
              m''.entryAt item.data = none := by
          rw [← hdata] at hdead
          cases hflag : activity.itemShouldBeRemoved with
          | false => exact ⟨m', by simp [State.step, hflag], hdead⟩
          | true =>
            exact ⟨m'.erase entry.id, by simp [State.step, hflag, hentry],
              ((hwf.call hcall).drops_erase entry.id).entryAt_none hdead⟩
        obtain ⟨ls', s'', hrun, hc⟩ :=
          dangling_pending m'' pending (log ++ records) ⟨item, hitem, hdead'⟩
        refine ⟨.handlerReturns :: ls', s'', _, ?_, hc⟩
        simpa [Lts.run, eventLoop, BatchRegistered, Control.afterCall, hlive, hret] using hrun
      · refine ⟨[], _, .erasedWhileRunning, rfl, ?_⟩
        simp [Control.afterCall, hlive]


/-- Removing the listener of a later event from a handler, and removing the handler's own listener.
In both runs every event points at a listener that is registered when `epoll_wait` returns. -/
theorem handler_removal_dangles :
    (∃ s, eventLoop.Reach BatchRegistered
        (twoEvents ++ [.call (.remove ⟨1⟩), .handlerReturns, .process]) s ∧
          s.control = .undefined .handleEventOnErased) ∧
      ∃ s, eventLoop.Reach BatchRegistered (twoEvents ++ [.call (.remove ⟨0⟩)]) s ∧
        s.control = .undefined .erasedWhileRunning := by
  constructor
  · have hrun : (eventLoop.run BatchRegistered State.fresh
        (twoEvents ++ [.call (.remove ⟨1⟩), .handlerReturns, .process])).map (·.control) =
          some (.undefined .handleEventOnErased) := by decide
    exact Lts.Reach.exists_of_map_run State.fresh_init hrun
  · have hrun : (eventLoop.run BatchRegistered State.fresh
        (twoEvents ++ [.call (.remove ⟨0⟩)])).map (·.control) =
          some (.undefined .erasedWhileRunning) := by decide
    exact Lts.Reach.exists_of_map_run State.fresh_init hrun

end ThePipe.OsServices.IoMultiplexer
