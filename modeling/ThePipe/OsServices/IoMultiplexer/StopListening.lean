import ThePipe.OsServices.IoMultiplexer.Registry

/-!
# Stopping and removing

A listener leaves the instance when its handler has called `stop_listening`, or by `remove`.  Only
`remove` takes the registration out of the interest list; `stop_listening` relies on the deleter of
the descriptor.  The two agree exactly when the deleter closes the descriptor and it is the only
one of its open file description (`stop_eq_remove_iff`).  Otherwise the kernel keeps a registration
that points at a listener that does not exist any more.
-/

set_option autoImplicit false

namespace ThePipe.OsServices.IoMultiplexer

open ErrorHandling Fd Lib EpollInstance

/-- The listener `e` has been dropped, with the same outcome on both ways. -/
structure DroppedAlike (m' m'' : EpollInstance) (e : Entry) : Prop where
  listeners : m'.listeners = m''.listeners
  interest : m'.kernel.interest = m''.kernel.interest
  /-- The entry is gone. -/
  erased : m'.entryAt e.ptr = none
  /-- The kernel cannot report an event that carries its pointer. -/
  unreported : ∀ key event, m'.kernel.interest key = some event → event.data ≠ e.ptr

/-! ## The listeners of a batch are registered -/

/-- The listeners that the loop holds a pointer to are registered, as long as they exist. -/
structure Watched (m : EpollInstance) (control : Control) : Prop where
  registered : ∀ id e, m.listeners.lookup id = some e → e.ptr ∈ control.inUse → Registered m e
  ptrLt : ∀ p ∈ control.inUse, p < m.nextPtr

section Steps

variable {s s' : State} {l : Label} {ls : List Label} {ok : State → Label → Prop}
  {id : EventHandlerId} {e : Entry}

theorem State.Step.lookup_or_new (hwf : s.monitor.Wf) (hs : State.Step s l s')
    (hl : s'.monitor.listeners.lookup id = some e) :
    s.monitor.listeners.lookup id = some e ∨ e.ptr = s.monitor.nextPtr := by
  cases hs with
  | call _ hcall =>
    cases hwf.callEffect hcall with
    | drops hd _ => exact .inl (hd.lookup_eq hl).2
    | stores hi _ _ _ _ _ => exact (hi.lookup_cases hl).symm.imp_right fun h => by rw [h.2]; rfl
    | registers hi _ _ _ => exact (hi.lookup_cases hl).symm.imp_right fun h => by rw [h.2]; rfl
  | update _ =>
    rw [updateListeningStatus_listeners] at hl
    exact .inl hl
  | returnsStopped _ _ => exact .inl ((hwf.drops_erase _).lookup_eq hl).2
  | _ => exact .inl hl

theorem State.Step.nextPtr_le (hwf : s.monitor.Wf) (hs : State.Step s l s') :
    s.monitor.nextPtr ≤ s'.monitor.nextPtr := by
  cases hs with
  | call _ hcall =>
    cases hwf.callEffect hcall with
    | drops hd _ => exact hd.nextPtr
    | stores hi _ _ _ _ _ => exact hi.nextPtr ▸ Nat.le_succ _
    | registers hi _ _ _ => exact hi.nextPtr ▸ Nat.le_succ _
  | @update m _ _ _ status failure entry _ =>
    rcases m.updateListeningStatus_cases entry status failure with
      ⟨err, heq⟩ | ⟨ofd, events, -, -, heq⟩
    · exact heq ▸ le_rfl
    · exact heq ▸ le_rfl
  | returnsStopped _ _ => exact (hwf.drops_erase _).nextPtr
  | _ => exact le_rfl

theorem State.Step.inUse_cases (hs : State.Step s l s') {p : Ptr} (hp : p ∈ s'.control.inUse) :
    p ∈ s.control.inUse ∨ s.control = .idle ∧ s'.monitor = s.monitor ∧
      ∃ key event, s.monitor.kernel.interest key = some event ∧ event.data = p := by
  cases hs with
  | @call c m records _ hcall =>
    refine .inl ?_
    unfold Control.afterCall at hp
    split at hp
    · next activity pending heq =>
      split at hp
      · rwa [heq]
      · simp [Control.inUse] at hp
    · exact hp
  | kernel _ _ _ => exact .inl hp
  | waitReturns _ =>
    obtain ⟨item, hitem, rfl⟩ := List.mem_map.1 hp
    obtain ⟨r, -, hr⟩ := List.mem_filterMap.1 hitem
    obtain ⟨event, hevent, rfl⟩ := Option.map_eq_some_iff.1 hr
    exact .inr ⟨rfl, rfl, r.1, event, hevent, rfl⟩
  | process _ => exact .inl hp
  | update _ => exact .inl hp
  | stopListening => exact .inl hp
  | returns _ => exact .inl (List.mem_cons_of_mem _ hp)
  | returnsStopped _ _ => exact .inl (List.mem_cons_of_mem _ hp)
  | _ => simp [Control.inUse] at hp

theorem State.Step.watched (hwf : s.monitor.Wf) (h : Watched s.monitor s.control)
    (hs : State.Step s l s') : Watched s'.monitor s'.control := by
  refine ⟨fun id e hl hp => ?_, fun p hp => ?_⟩
  · rcases hs.inUse_cases hp with hp | ⟨-, heq, key, event, hreg, hdata⟩
    · rcases hs.lookup_or_new hwf hl with hl₀ | hnew
      · exact hs.registered hwf hl₀ hl (h.registered id e hl₀ hp)
      · exact absurd hnew (h.ptrLt _ hp).ne
    · rw [heq] at hl ⊢
      obtain ⟨hfd, hofd⟩ := hwf.own id e key event hl hreg hdata
      refine ⟨key.2, event, hofd, ?_, hdata⟩
      rw [← hfd]
      exact hreg
  · rcases hs.inUse_cases hp with hp | ⟨-, heq, key, event, hreg, hdata⟩
    · exact (h.ptrLt p hp).trans_le (hs.nextPtr_le hwf)
    · rw [heq, ← hdata]
      exact hwf.dataLt key event hreg

theorem reach_watched (h : eventLoop.Reach ok ls s) : Watched s.monitor s.control := by
  have hinv : s.monitor.Wf ∧ Watched s.monitor s.control := by
    refine h.invariant (I := fun _ s => s.monitor.Wf ∧ Watched s.monitor s.control) ?_ ?_
    · intro s h0
      refine ⟨State.Init.wf h0, ?_⟩
      rw [State.Init.control h0]
      exact ⟨fun _ _ _ hp => by simp [Control.inUse] at hp, fun _ hp => by simp [Control.inUse] at hp⟩
    · rintro ls s l s' - ⟨hwf, hw⟩ - hstep
      have hs := State.step_cases hstep
      exact ⟨hs.wf hwf, hs.watched hwf hw⟩
  exact hinv.2

end Steps

/-! ## The two ways of dropping a listener -/

section Drop

variable {m : EpollInstance} {id : EventHandlerId} {e : Entry}

theorem erase_interest (hl : m.listeners.lookup id = some e) (key : NativeHandle × Ofd) :
    (m.erase id).kernel.interest key =
      if (DeleterCloses m.kernel e.tag e.fd ∧ m.kernel.Sole e.fd) ∧
        m.kernel.descriptors.lookup e.fd = some key.2 then none else m.kernel.interest key := by
  rw [erase_eq hl]
  exact fileDescriptorDeleter_interest ..

theorem remove_interest (hl : m.listeners.lookup id = some e) (key : NativeHandle × Ofd) :
    (m.remove id).kernel.interest key =
      if (DeleterCloses m.kernel e.tag e.fd ∧ m.kernel.Sole e.fd) ∧
        m.kernel.descriptors.lookup e.fd = some key.2 then none
      else (m.kernel.epollCtlDel e.fd).1.interest key := by
  obtain ⟨err, heq⟩ := m.kernel.epollCtlDel_eq e.fd
  rw [remove_eq hl]
  refine (fileDescriptorDeleter_interest ..).trans ?_
  -- whether the descriptor is closed does not depend on the interest list
  have hsame : (DeleterCloses (m.kernel.epollCtlDel e.fd).1 e.tag e.fd ∧
      (m.kernel.epollCtlDel e.fd).1.Sole e.fd) ∧
        (m.kernel.epollCtlDel e.fd).1.descriptors.lookup e.fd = some key.2 ↔
      (DeleterCloses m.kernel e.tag e.fd ∧ m.kernel.Sole e.fd) ∧
        m.kernel.descriptors.lookup e.fd = some key.2 := by
    rw [heq]
    rfl
  exact if_congr hsame rfl rfl

theorem listeners_alike (hl : m.listeners.lookup id = some e) :
    (m.erase id).listeners = (m.remove id).listeners := by
  rw [erase_eq hl, remove_eq hl]
  rfl

/-- Erasing and removing a registered listener come to the same exactly when its deleter closes the
only descriptor of the open file description. -/
theorem erase_alike_iff (hwf : m.Wf) (hl : m.listeners.lookup id = some e)
    (hr : Registered m e) : DroppedAlike (m.erase id) (m.remove id) e ↔
      DeleterCloses m.kernel e.tag e.fd ∧ m.kernel.Sole e.fd := by
  obtain ⟨ofd, event, hofd, hreg, hdata⟩ := hr
  constructor
  · intro h
    by_contra hcond
    have hkept : (m.erase id).kernel.interest (e.fd, ofd) = some event := by
      rw [erase_interest hl, if_neg fun hc => hcond hc.1, hreg]
    exact h.unreported _ event hkept hdata
  · intro hcond
    refine ⟨listeners_alike hl, funext fun key => ?_, ?_, ?_⟩
    · rw [erase_interest hl, remove_interest hl]
      by_cases hkey : m.kernel.descriptors.lookup e.fd = some key.2
      · rw [if_pos ⟨hcond, hkey⟩, if_pos ⟨hcond, hkey⟩]
      · have hne : key ≠ (e.fd, ofd) := by
          rintro rfl
          exact hkey hofd
        rw [if_neg fun hc => hkey hc.2, if_neg fun hc => hkey hc.2,
          Kernel.epollCtlDel_interest_of_ne hofd hne]
    · rw [← Option.not_isSome_iff_eq_none, entryAt_isSome]
      rintro ⟨id', e', hl', hp⟩
      obtain ⟨hid', hl'⟩ := (hwf.drops_erase id).lookup_eq hl'
      exact hid' (List.mem_singleton.2 (hwf.ptr id' e' id e hl' hl hp))
    · exact gone_erase hwf hl hcond.1 hcond.2 id (List.mem_singleton_self id) e hl

end Drop

/-- **When stopping and removing agree.**  In every state that a run reaches and in which the
handler of a listener has called `stop_listening` and returns, dropping the listener leaves the
listeners and the interest list as `remove` would, if and only if its deleter closes the descriptor
and no other descriptor refers to the same open file description. -/
theorem stop_eq_remove_iff {ok : State → Label → Prop} {ls : List Label} {m : EpollInstance}
    {activity : EpollFdActivity} {pending : List EpollEvent} {log : List Record}
    {id : EventHandlerId} {e : Entry}
    (h : eventLoop.Reach ok ls ⟨m, .handling activity pending, log⟩)
    (hstop : activity.itemShouldBeRemoved = true) (hl : m.listeners.lookup id = some e)
    (hp : e.ptr = activity.data) :
    ∃ m', eventLoop.step ⟨m, .handling activity pending, log⟩ .handlerReturns =
        some ⟨m', .dispatching pending, log⟩ ∧
      (DroppedAlike m' (m.remove id) e ↔
        DeleterCloses m.kernel e.tag e.fd ∧ m.kernel.Sole e.fd) := by
  have hwf : m.Wf := reach_wf h
  have hr : Registered m e := (reach_watched h).registered id e hl (by simp [Control.inUse, hp])
  obtain ⟨entry, hentry⟩ := Option.isSome_iff_exists.1 (entryAt_isSome.2 ⟨id, e, hl, hp⟩)
  obtain ⟨id', hl', hp'⟩ := lookup_of_entryAt hentry
  have hid : id' = id := hwf.ptr id' entry id e hl' hl (hp'.trans hp.symm)
  have hkey : entry.id = id := hid ▸ hwf.key id' entry hl'
  refine ⟨m.erase id, ?_, erase_alike_iff hwf hl hr⟩
  simp [eventLoop, State.step, hstop, hentry, hkey]

/-- The handler of the listener of descriptor 3 has called `stop_listening`. -/
def stopRun (tag : FileDescriptorTag) (process : Option Pid) (before : List KernelStep) :
    List Label :=
  [.kernel (.openDescriptor 3 process), .call (.add 3 tag .read none)] ++ before.map .kernel ++
    [.waitReturns [((3, 0), EPOLLIN)], .process, .stopListening]

/-- A listener on an ordinary descriptor, the only one of its open file description. -/
theorem stop_eq_remove_iff_plain : ∃ m activity log e m',
    eventLoop.Reach (fun _ _ => True) (stopRun .generic none []) ⟨m, .handling activity [], log⟩ ∧
      eventLoop.step ⟨m, .handling activity [], log⟩ .handlerReturns =
        some ⟨m', .dispatching [], log⟩ ∧
      (DroppedAlike m' (m.remove ⟨0⟩) e ↔
        DeleterCloses m.kernel e.tag e.fd ∧ m.kernel.Sole e.fd) := by
  have hrun : (eventLoop.run (fun _ _ => True) State.fresh (stopRun .generic none [])).map
      (fun s => (s.control, s.monitor.listeners.lookup ⟨0⟩)) =
        some (.handling ⟨0, .read, true⟩ [], some ⟨0, 3, .generic, ⟨0⟩⟩) := by decide
  obtain ⟨⟨m, control, log⟩, h, heq⟩ := Lts.Reach.exists_of_map_run State.fresh_init hrun
  obtain ⟨rfl, hl⟩ := Prod.mk.inj heq
  obtain ⟨m', hstep, hiff⟩ := stop_eq_remove_iff h rfl hl rfl
  exact ⟨m, _, log, _, m', h, hstep, hiff⟩

/-- After the run `ls` the handler of the first listener returns: the entry is gone, the kernel still
has a registration with its pointer, and `remove` would have dropped it. -/
def KeepsRegistration (ls : List Label) : Prop :=
  ∃ s s', eventLoop.Reach (fun _ _ => True) ls s ∧ eventLoop.step s .handlerReturns = some s' ∧
    (s.monitor.entryAt 0).isSome ∧ s'.monitor.entryAt 0 = none ∧
      s'.monitor.kernel.interest (3, 0) = some ⟨EPOLLIN, 0⟩ ∧
        (s.monitor.remove ⟨0⟩).kernel.interest (3, 0) = none

theorem keepsRegistration_of_run {ls : List Label}
    (hrun : ((eventLoop.run (fun _ _ => True) State.fresh ls).bind fun s =>
      (eventLoop.step s .handlerReturns).map fun s' => ((s.monitor.entryAt 0).isSome,
        s'.monitor.entryAt 0, s'.monitor.kernel.interest (3, 0),
          (s.monitor.remove ⟨0⟩).kernel.interest (3, 0))) =
            some (true, none, some ⟨EPOLLIN, 0⟩, none)) : KeepsRegistration ls := by
  obtain ⟨s, hs, hrest⟩ := Option.bind_eq_some_iff.1 hrun
  obtain ⟨s', hs', heq⟩ := Option.map_eq_some_iff.1 hrest
  simp only [Prod.mk.injEq] at heq
  obtain ⟨hentry, hgone, hkept, hremoved⟩ := heq
  exact ⟨s, s', .of_run State.fresh_init hs, hs', hentry, hgone, hkept, hremoved⟩

/-- Two listeners for which stopping and removing differ: one on a descriptor that has been
duplicated, and one on the pidfd of a process that has been reaped. -/
theorem stop_keeps_registration : KeepsRegistration (stopRun .generic none [.dup 3 4]) ∧
    KeepsRegistration (stopRun .pidfd (some 7) [.exit 7, .reap 7]) := by
  constructor
  · exact keepsRegistration_of_run (by decide)
  · exact keepsRegistration_of_run (by decide)

end ThePipe.OsServices.IoMultiplexer
