import ThePipe.OsServices.IoMultiplexer.Dispatch

/-!
# What every run keeps

`Wf` is the invariant of an epoll instance that holds in every state a run reaches, whatever
handlers, callers and other processes do.  It says that entries can be told apart by their pointers
and by their descriptors, and that a registration that carries the pointer of an entry is one of
the entry's own descriptor.
-/

set_option autoImplicit false

namespace ThePipe.OsServices.IoMultiplexer

open ErrorHandling Fd Lib

/-! ## Entries -/

namespace EpollInstance

variable {m m' : EpollInstance} {p : Ptr} {fd : NativeHandle} {e e' : Entry}
  {fd' : NativeHandle} {id id' : EventHandlerId}

theorem lookup_of_entryAt (h : m.entryAt p = some e) :
    ∃ id, m.listeners.lookup id = some e ∧ e.ptr = p := by
  unfold entryAt at h
  obtain ⟨⟨id, e'⟩, hl, rfl⟩ := Option.map_eq_some_iff.1 h
  have hp := List.find?_some hl
  exact ⟨id, AList.mem_lookup_iff.2 (List.mem_of_find?_eq_some hl), by simpa using hp⟩

theorem entryAt_isSome : (m.entryAt p).isSome ↔ ∃ id e, m.listeners.lookup id = some e ∧
    e.ptr = p := by
  constructor
  · intro h
    obtain ⟨e, he⟩ := Option.isSome_iff_exists.1 h
    obtain ⟨id, hl⟩ := lookup_of_entryAt he
    exact ⟨id, e, hl⟩
  · rintro ⟨id, e, hl, hp⟩
    unfold entryAt
    rw [Option.isSome_map, List.find?_isSome]
    exact ⟨⟨id, e⟩, AList.mem_lookup_iff.1 hl, by simpa using hp⟩

theorem owns_iff : m.Owns fd ↔ ∃ id e, m.listeners.lookup id = some e ∧ e.fd = fd := by
  constructor
  · rintro ⟨⟨id, e⟩, hl, hfd⟩
    exact ⟨id, e, AList.mem_lookup_iff.2 hl, hfd⟩
  · rintro ⟨id, e, hl, hfd⟩
    exact ⟨⟨id, e⟩, AList.mem_lookup_iff.1 hl, hfd⟩

/-! ## The invariant -/

/-- The invariant of all runs. -/
structure Wf (m : EpollInstance) : Prop where
  nullClosed : m.kernel.NullClosed
  /-- An entry reports the id it is stored under. -/
  key : ∀ id e, m.listeners.lookup id = some e → e.id = id
  /-- No two entries are the same object. -/
  ptr : ∀ id e id' e', m.listeners.lookup id = some e → m.listeners.lookup id' = some e' →
    e.ptr = e'.ptr → id = id'
  ptrLt : ∀ id e, m.listeners.lookup id = some e → e.ptr < m.nextPtr
  /-- No two entries own the same descriptor. -/
  fd : ∀ id e id' e', m.listeners.lookup id = some e → m.listeners.lookup id' = some e' →
    e.fd = e'.fd → e.fd = -1 ∨ id = id'
  /-- Registrations point at objects that have been made. -/
  dataLt : ∀ key event, m.kernel.interest key = some event → event.data < m.nextPtr
  /-- A registration that points at an entry is one of the open file description that the
  descriptor of the entry refers to. -/
  own : ∀ id e key event, m.listeners.lookup id = some e → m.kernel.interest key = some event →
    event.data = e.ptr → key.1 = e.fd ∧ m.kernel.descriptors.lookup e.fd = some key.2

/-- The step to `m'` adds neither entries nor registrations, and the descriptors of the entries that
are left are the same. -/
structure Shrunk (m m' : EpollInstance) : Prop where
  lookup : ∀ id e, m'.listeners.lookup id = some e → m.listeners.lookup id = some e
  nextPtr : m.nextPtr ≤ m'.nextPtr
  nullClosed : m.kernel.NullClosed → m'.kernel.NullClosed
  shrinks : m.kernel.Shrinks m'.kernel
  descriptors : ∀ id e, m'.listeners.lookup id = some e → e.fd ∈ m.kernel.descriptors →
    m'.kernel.descriptors.lookup e.fd = m.kernel.descriptors.lookup e.fd

theorem Wf.shrunk (h : m.Wf) (hs : Shrunk m m') : m'.Wf where
  nullClosed := hs.nullClosed h.nullClosed
  key id e hl := h.key id e (hs.lookup id e hl)
  ptr id e id' e' hl hl' := h.ptr id e id' e' (hs.lookup id e hl) (hs.lookup id' e' hl')
  ptrLt id e hl := (h.ptrLt id e (hs.lookup id e hl)).trans_le hs.nextPtr
  fd id e id' e' hl hl' := h.fd id e id' e' (hs.lookup id e hl) (hs.lookup id' e' hl')
  dataLt key event hr := (h.dataLt key event (hs.shrinks key event hr)).trans_le hs.nextPtr
  own id e key event hl hr hd := by
    obtain ⟨hkey, hofd⟩ := h.own id e key event (hs.lookup id e hl) (hs.shrinks key event hr) hd
    have hopen : e.fd ∈ m.kernel.descriptors :=
      AList.lookup_isSome.1 (by rw [hofd]; rfl)
    exact ⟨hkey, (hs.descriptors id e hl hopen).trans hofd⟩

theorem Wf.congr (h : m.Wf) (hl : m'.listeners = m.listeners) (hp : m'.nextPtr = m.nextPtr)
    (hd : m'.kernel.descriptors = m.kernel.descriptors)
    (hi : m'.kernel.interest = m.kernel.interest) : m'.Wf := by
  obtain ⟨hn, hkey, hptr, hptrLt, hfd, hdataLt, hown⟩ := h
  constructor <;> simpa only [Kernel.NullClosed, hl, hp, hd, hi]

/-- A new entry that owns a descriptor of its own. -/
theorem Wf.insert (h : m.Wf) (tag : FileDescriptorTag) (hfd : m.MayBeAdded fd) :
    ({ m.advance with
      listeners := m.listeners.insert m.currentId (m.newEntry fd tag) } : EpollInstance).Wf := by
  have hlookup : ∀ id e, (m.listeners.insert m.currentId (m.newEntry fd tag)).lookup id = some e →
      id = m.currentId ∧ e = m.newEntry fd tag ∨
        id ≠ m.currentId ∧ m.listeners.lookup id = some e := by
    intro id e hl
    by_cases hid : id = m.currentId
    · subst hid
      rw [AList.lookup_insert, Option.some.injEq] at hl
      exact .inl ⟨rfl, hl.symm⟩
    · rw [AList.lookup_insert_ne hid] at hl
      exact .inr ⟨hid, hl⟩
  have hfree : ∀ id e, m.listeners.lookup id = some e → e.fd = fd → e.fd = -1 := by
    intro id e hl heq
    rcases hfd with hnull | howns
    · rw [heq, hnull]
    · exact absurd (owns_iff.2 ⟨id, e, hl, heq⟩) howns
  refine ⟨h.nullClosed, ?_, ?_, ?_, ?_, ?_, ?_⟩
  · intro id e hl
    rcases hlookup id e hl with ⟨rfl, rfl⟩ | ⟨-, hl⟩
    · rfl
    · exact h.key id e hl
  · intro id e id' e' hl hl' heq
    rcases hlookup id e hl with ⟨rfl, rfl⟩ | ⟨-, hl⟩ <;>
      rcases hlookup id' e' hl' with ⟨rfl, rfl⟩ | ⟨-, hl'⟩
    · rfl
    · exact absurd heq.symm (h.ptrLt id' e' hl').ne
    · exact absurd heq (h.ptrLt id e hl).ne
    · exact h.ptr id e id' e' hl hl' heq
  · intro id e hl
    rcases hlookup id e hl with ⟨rfl, rfl⟩ | ⟨-, hl⟩
    · exact Nat.lt_succ_self _
    · exact (h.ptrLt id e hl).trans (Nat.lt_succ_self _)
  · intro id e id' e' hl hl' heq
    rcases hlookup id e hl with ⟨rfl, rfl⟩ | ⟨-, hl⟩ <;>
      rcases hlookup id' e' hl' with ⟨rfl, rfl⟩ | ⟨-, hl'⟩
    · exact .inr rfl
    · exact .inl (heq.trans (hfree id' e' hl' heq.symm))
    · exact .inl (hfree id e hl heq)
    · exact h.fd id e id' e' hl hl' heq
  · exact fun key event hr => (h.dataLt key event hr).trans (Nat.lt_succ_self _)
  · intro id e key event hl hr hd
    rcases hlookup id e hl with ⟨rfl, rfl⟩ | ⟨-, hl⟩
    · -- no registration points at the new entry yet
      exact absurd hd (h.dataLt key event hr).ne
    · exact h.own id e key event hl hr hd

theorem Wf.register (h : m.Wf) {ofd : Ofd} (events : BitVec 32)
    (hl : m.listeners.lookup id = some e) (hofd : m.kernel.descriptors.lookup e.fd = some ofd) :
    ({ m with kernel := { m.kernel with
      interest := Function.update m.kernel.interest (e.fd, ofd) (some ⟨events, e.ptr⟩) } } :
        EpollInstance).Wf := by
  refine ⟨h.nullClosed, h.key, h.ptr, h.ptrLt, h.fd, ?_, ?_⟩
  · intro key event hr
    by_cases hkey : key = (e.fd, ofd)
    · subst hkey
      obtain rfl : EpollEvent.mk events e.ptr = event := by simpa using hr
      exact h.ptrLt id e hl
    · exact h.dataLt key event (by simpa [Function.update_of_ne hkey] using hr)
  · intro id' e' key event hl' hr hd
    by_cases hkey : key = (e.fd, ofd)
    · subst hkey
      obtain rfl : EpollEvent.mk events e.ptr = event := by simpa using hr
      obtain rfl : id = id' := h.ptr id e id' e' hl hl' hd
      obtain rfl : e = e' := by simpa [hl] using hl'
      exact ⟨rfl, hofd⟩
    · exact h.own id' e' key event hl' (by simpa [Function.update_of_ne hkey] using hr) hd

/-! ## Erasing and removing -/

theorem destroy_shrinks : m.kernel.Shrinks (m.destroy e).kernel := fileDescriptorDeleter_shrinks

theorem destroy_keeps (hfd : fd ≠ e.fd) : m.kernel.Keeps (m.destroy e).kernel fd :=
  fileDescriptorDeleter_keeps hfd

/-- The listeners with the ids `ids` are dropped, and nothing else happens to the others. -/
structure Drops (m m' : EpollInstance) (ids : List EventHandlerId) : Prop where
  lookup : ∀ id, m'.listeners.lookup id = if id ∈ ids then none else m.listeners.lookup id
  nullClosed : m.kernel.NullClosed → m'.kernel.NullClosed
  shrinks : m.kernel.Shrinks m'.kernel
  keeps : ∀ id e, m'.listeners.lookup id = some e → e.fd ∈ m.kernel.descriptors →
    m.kernel.Keeps m'.kernel e.fd
  nextPtr : m.nextPtr ≤ m'.nextPtr

theorem Drops.lookup_eq {ids : List EventHandlerId} (h : Drops m m' ids)
    (hl : m'.listeners.lookup id = some e) : id ∉ ids ∧ m.listeners.lookup id = some e := by
  rw [h.lookup id] at hl
  split at hl
  · cases hl
  · next hid => exact ⟨hid, hl⟩

theorem Drops.entryAt_none {ids : List EventHandlerId} (h : Drops m m' ids)
    (hp : m.entryAt p = none) : m'.entryAt p = none := by
  rw [← Option.not_isSome_iff_eq_none, entryAt_isSome] at hp ⊢
  rintro ⟨id, e, hl, rfl⟩
  exact hp ⟨id, e, (h.lookup_eq hl).2, rfl⟩

theorem Drops.registration {ids : List EventHandlerId} (hd : Drops m m' ids) (hwf : m.Wf)
    (hl' : m'.listeners.lookup id = some e) {key : NativeHandle × Ofd} {event : EpollEvent}
    (hdata : event.data = e.ptr) :
    m'.kernel.interest key = some event ↔ m.kernel.interest key = some event := by
  refine ⟨hd.shrinks key event, fun hreg => ?_⟩
  obtain ⟨hfd, hofd⟩ := hwf.own id e key event (hd.lookup_eq hl').2 hreg hdata
  have hopen : e.fd ∈ m.kernel.descriptors := AList.lookup_isSome.1 (by rw [hofd]; rfl)
  obtain ⟨fd, ofd⟩ := key
  obtain rfl : fd = e.fd := hfd
  rw [(hd.keeps id e hl' hopen).registered ofd hofd, hreg]

theorem Drops.setAddedIds {ids : List EventHandlerId} (h : Drops m m' ids)
    (f : Transaction → Option (List EventHandlerId)) : Drops m { m' with addedIds := f } ids :=
  ⟨h.lookup, h.nullClosed, h.shrinks, h.keeps, h.nextPtr⟩

theorem Drops.shrunk {ids : List EventHandlerId} (h : Drops m m' ids) : Shrunk m m' where
  lookup _ _ hl := (h.lookup_eq hl).2
  nextPtr := h.nextPtr
  nullClosed := h.nullClosed
  shrinks := h.shrinks
  descriptors id e hl hopen := (h.keeps id e hl hopen).lookup

theorem Drops.refl : Drops m m [] :=
  ⟨fun id => by simp, fun h => h, .refl, fun _ _ _ _ => .refl, le_rfl⟩

theorem Drops.trans {m'' : EpollInstance} {ids ids' : List EventHandlerId} (h : Drops m m' ids)
    (h' : Drops m' m'' ids') : Drops m m'' (ids ++ ids') := by
  refine ⟨fun id => ?_, fun hn => h'.nullClosed (h.nullClosed hn), h.shrinks.trans h'.shrinks,
    fun id e hl hopen => ?_, h.nextPtr.trans h'.nextPtr⟩
  · rw [h'.lookup, h.lookup]
    by_cases hid : id ∈ ids <;> by_cases hid' : id ∈ ids' <;> simp [hid, hid']
  · have hkeeps := h.keeps id e (h'.lookup_eq hl).2 hopen
    have hopen' : e.fd ∈ m'.kernel.descriptors := by
      rwa [← AList.lookup_isSome, hkeeps.lookup, AList.lookup_isSome]
    exact hkeeps.trans (h'.keeps id e hl hopen')

theorem Drops.of_notMem (hl : m.listeners.lookup id = none) : Drops m m [id] := by
  refine ⟨fun id' => ?_, fun h => h, .refl, fun _ _ _ _ => .refl, le_rfl⟩
  by_cases hid : id' = id
  · subst hid
    simp [hl]
  · simp [hid]

theorem Wf.fd_ne (h : m.Wf) (hl : m.listeners.lookup id = some e)
    (hl' : m.listeners.lookup id' = some e') (hne : id' ≠ id)
    (hopen : e'.fd ∈ m.kernel.descriptors) : e'.fd ≠ e.fd := by
  intro heq
  have hnull := (h.fd id' e' id e hl' hl heq).resolve_right hne
  rw [hnull, ← AList.lookup_isSome, h.nullClosed] at hopen
  cases hopen

theorem Wf.fd_ne_of_mayBeAdded (h : m.Wf) (hfd : m.MayBeAdded fd)
    (hl : m.listeners.lookup id = some e) (hopen : e.fd ∈ m.kernel.descriptors) : e.fd ≠ fd := by
  rintro rfl
  rcases hfd with hnull | howns
  · rw [hnull, ← AList.lookup_isSome, h.nullClosed] at hopen
    cases hopen
  · exact howns (owns_iff.2 ⟨id, e, hl, rfl⟩)

theorem erase_eq (hl : m.listeners.lookup id = some e) :
    m.erase id = ({ m with listeners := m.listeners.erase id } : EpollInstance).destroy e := by
  unfold erase
  rw [hl]

theorem remove_eq (hl : m.listeners.lookup id = some e) :
    m.remove id = ({ m with
      kernel := (m.kernel.epollCtlDel e.fd).1
      listeners := m.listeners.erase id } : EpollInstance).destroy e := by
  unfold remove
  rw [hl]
  exact erase_eq hl

theorem Wf.drops_erase (h : m.Wf) (id : EventHandlerId) : Drops m (m.erase id) [id] := by
  cases hl : m.listeners.lookup id with
  | none =>
    have heq : m.erase id = m := by
      unfold erase
      rw [hl]
    rw [heq]
    exact .of_notMem hl
  | some e =>
    rw [erase_eq hl]
    refine ⟨fun id' => ?_, fileDescriptorDeleter_nullClosed, destroy_shrinks,
      fun id' e' hl' hopen => ?_, le_rfl⟩
    · change (m.listeners.erase id).lookup id' = _
      by_cases hid : id' = id
      · rw [hid, AList.lookup_erase, if_pos (List.mem_singleton_self id)]
      · rw [AList.lookup_erase_ne hid, if_neg (by simpa using hid)]
    · change (m.listeners.erase id).lookup id' = some e' at hl'
      by_cases hid : id' = id
      · rw [hid, AList.lookup_erase] at hl'
        cases hl'
      · rw [AList.lookup_erase_ne hid] at hl'
        exact destroy_keeps (h.fd_ne hl hl' hid hopen)

theorem Wf.drops_remove (h : m.Wf) (id : EventHandlerId) : Drops m (m.remove id) [id] := by
  unfold remove
  split
  · next hl => exact .of_notMem hl
  · next e hl =>
    set m₁ : EpollInstance := { m with kernel := (m.kernel.epollCtlDel e.fd).1 } with hm₁
    have hdesc : m₁.kernel.descriptors = m.kernel.descriptors := Kernel.epollCtlDel_descriptors
    have hnull : m.kernel.NullClosed → m₁.kernel.NullClosed := fun hn => by
      rwa [Kernel.NullClosed, hdesc]
    have h₁ : m₁.Wf := h.shrunk ⟨fun _ _ hl => hl, le_rfl, hnull, Kernel.epollCtlDel_shrinks,
      fun _ _ _ _ => by rw [hdesc]⟩
    have hd := h₁.drops_erase id
    refine ⟨hd.lookup, fun hn => hd.nullClosed (hnull hn), Kernel.epollCtlDel_shrinks.trans hd.shrinks,
      fun id' e' hl' hopen => ?_, hd.nextPtr⟩
    obtain ⟨hid, hl'₀⟩ := hd.lookup_eq hl'
    have hne := h.fd_ne hl hl'₀ (by simpa using hid) hopen
    exact (Kernel.epollCtlDel_keeps hne).trans (hd.keeps id' e' hl' (by rwa [hdesc]))

theorem Wf.drops_rollback (h : m.Wf) (ids : List EventHandlerId) :
    Drops m (m.rollback ids) ids := by
  induction ids generalizing m with
  | nil => exact .refl
  | cons id ids ih =>
    have hd := h.drops_remove id
    exact hd.trans (ih (h.shrunk hd.shrunk))

/-! ### Registrations of listeners that are gone -/

/-- No registration points at a listener of `m` with one of the ids. -/
def Gone (m : EpollInstance) (ids : List EventHandlerId) (k : Kernel) : Prop :=
  ∀ id ∈ ids, ∀ e, m.listeners.lookup id = some e → ∀ key event,
    k.interest key = some event → event.data ≠ e.ptr

theorem Wf.gone_remove (h : m.Wf) (id : EventHandlerId) : Gone m [id] (m.remove id).kernel := by
  intro id' hid e hl key event hreg hdata
  obtain rfl : id' = id := by simpa using hid
  obtain ⟨hkey, hofd⟩ := h.own id' e key event hl ((h.drops_remove id').shrinks key event hreg) hdata
  have hdel : (m.kernel.epollCtlDel e.fd).1.interest key = some event := by
    rw [remove_eq hl] at hreg
    exact destroy_shrinks key event hreg
  obtain ⟨fd', ofd'⟩ := key
  obtain rfl : fd' = e.fd := hkey
  rw [Kernel.epollCtlDel_interest hofd] at hdel
  cases hdel

theorem Wf.gone_rollback (h : m.Wf) (ids : List EventHandlerId) :
    Gone m ids (m.rollback ids).kernel := by
  induction ids generalizing m with
  | nil => exact fun id hid => by simp at hid
  | cons id ids ih =>
    have hd := h.drops_remove id
    have hwf := h.shrunk hd.shrunk
    intro id' hid' e hl key event hreg
    by_cases hid : id' = id
    · have hreg₁ : (m.remove id).kernel.interest key = some event :=
        (hwf.drops_rollback ids).shrinks key event hreg
      exact h.gone_remove id id' (by simp [hid]) e hl key event hreg₁
    · have hl₁ : (m.remove id).listeners.lookup id' = some e := by
        rw [hd.lookup, if_neg (by simpa using hid), hl]
      exact ih hwf id' ((List.mem_cons.1 hid').resolve_left hid) e hl₁ key event hreg

/-! ## What a call can do -/

/-- A new entry is stored. -/
structure Inserts (m m' : EpollInstance) (fd : NativeHandle) (tag : FileDescriptorTag) : Prop where
  mayBeAdded : m.MayBeAdded fd
  notMem : m.currentId ∉ m.listeners
  listeners : m'.listeners = m.listeners.insert m.currentId (m.newEntry fd tag)
  nextPtr : m'.nextPtr = m.nextPtr + 1
  descriptors : m'.kernel.descriptors = m.kernel.descriptors

/-- The descriptor of an entry, which was not registered, is registered with the pointer `p`. -/
def Registers (k k' : Kernel) (fd : NativeHandle) (p : Ptr) : Prop :=
  ∃ ofd events, k.descriptors.lookup fd = some ofd ∧ k.interest (fd, ofd) = none ∧
    k'.interest = Function.update k.interest (fd, ofd) (some ⟨events, p⟩)

theorem erase_insert {l : AList fun _ : EventHandlerId => Entry} (hid : id ∉ l) :
    (l.insert id e).erase id = l := by
  apply AList.ext
  change List.kerase id (l.insert id e).entries = l.entries
  rw [AList.entries_insert_of_notMem hid]
  exact List.kerase_cons_eq rfl

section Add

variable {tag : FileDescriptorTag} {status : ActivityStatus} {failure : Option Errno}

/-- `EPOLL_CTL_ADD` reports an error. -/
def EpollCtlFails (k : Kernel) (fd : NativeHandle) (failure : Option Errno) : Prop :=
  ¬ ∃ ofd, k.descriptors.lookup fd = some ofd ∧ failure = none ∧ k.interest (fd, ofd) = none

theorem epollCtlAdd_of_fails {k : Kernel} {failure : Option Errno} (event : EpollEvent)
    (h : EpollCtlFails k fd failure) :
    ∃ err, k.epollCtlAdd fd event failure = ({ k with errno := err }, -1) := by
  unfold Kernel.epollCtlAdd
  split
  · exact ⟨_, rfl⟩
  · exact ⟨_, rfl⟩
  · next ofd hofd =>
    split
    · exact ⟨_, rfl⟩
    · next hfree => exact absurd ⟨ofd, hofd, rfl, by simpa using hfree⟩ h

/-- The status is bad: the entry stays. -/
theorem add_of_bad_status (hid : m.currentId ∉ m.listeners) (hstatus : ¬ status.IsEnumerator)
    (fd : NativeHandle) (tag : FileDescriptorTag) (failure : Option Errno) :
    ∃ ex, m.add fd tag status failure = ({ m.advance with
      listeners := m.listeners.insert m.currentId (m.newEntry fd tag) }, .error ex) := by
  rw [← toEpollEvent_isOk] at hstatus
  cases hevents : toEpollEvent status with
  | ok events => exact absurd ⟨events, hevents⟩ hstatus
  | error ex =>
    refine ⟨ex, (if_neg hid).trans ?_⟩
    simp only [hevents]
    rfl

/-- `epoll_ctl` fails: the entry is destroyed. -/
theorem add_of_epollCtlFails (hid : m.currentId ∉ m.listeners) (hstatus : status.IsEnumerator)
    (hfails : EpollCtlFails m.kernel fd failure) (tag : FileDescriptorTag) :
    ∃ err ex, m.add fd tag status failure = (({ m.advance with
      kernel := { m.kernel with errno := err } } : EpollInstance).destroy
        (m.newEntry fd tag), .error ex) := by
  obtain ⟨events, hevents⟩ := toEpollEvent_isOk.2 hstatus
  obtain ⟨err, hctl⟩ := epollCtlAdd_of_fails ⟨events, m.nextPtr⟩ hfails
  refine ⟨err, .systemError ⟨"Failed to add file descriptor to epoll instance",
    (fileDescriptorDeleter { m.kernel with errno := err } tag fd
      (m.waitidFailure m.nextPtr)).errno⟩, (if_neg hid).trans ?_⟩
  simp only [newEntry, advance, EventHandlerId.next, hevents, hctl, if_true, erase,
    AList.lookup_insert, erase_insert hid]
  rfl

/-- Nothing fails: the entry is registered. -/
theorem add_of_registers {ofd : Ofd} {events : BitVec 32} (hid : m.currentId ∉ m.listeners)
    (hevents : toEpollEvent status = .ok events) (hofd : m.kernel.descriptors.lookup fd = some ofd)
    (hfree : m.kernel.interest (fd, ofd) = none) :
    m.add fd tag status none = ({ m.advance with
      listeners := m.listeners.insert m.currentId (m.newEntry fd tag)
      kernel := { m.kernel with
        interest := Function.update m.kernel.interest (fd, ofd) (some ⟨events, m.nextPtr⟩) } },
          .ok m.currentId) := by
  have hctl : m.kernel.epollCtlAdd fd ⟨events, m.nextPtr⟩ none = ({ m.kernel with
      interest := Function.update m.kernel.interest (fd, ofd) (some ⟨events, m.nextPtr⟩) }, 0) := by
    unfold Kernel.epollCtlAdd
    rw [hofd]
    simp [hfree]
  refine (if_neg hid).trans ?_
  simp only [newEntry, advance, EventHandlerId.next, hevents, hctl]
  rfl

/-- The three ways in which `add` ends: it throws and destroys the new entry; it throws because of a
bad status and leaves the entry; or it returns the id of an entry, which is registered. -/
theorem add_eq {r : Except Exception EventHandlerId} (hadd : m.add fd tag status failure = (m', r)) :
    (∃ err ex, r = .error ex ∧ m' = ({ m.advance with
        kernel := { m.kernel with errno := err } } : EpollInstance).destroy (m.newEntry fd tag)) ∨
      m.currentId ∉ m.listeners ∧ ((¬ status.IsEnumerator ∧ ∃ ex, r = .error ex ∧
          m' = { m.advance with
            listeners := m.listeners.insert m.currentId (m.newEntry fd tag) }) ∨
        ∃ ofd events, m.kernel.descriptors.lookup fd = some ofd ∧
          m.kernel.interest (fd, ofd) = none ∧ r = .ok m.currentId ∧
            m' = { m.advance with
              listeners := m.listeners.insert m.currentId (m.newEntry fd tag)
              kernel := { m.kernel with
                interest := Function.update m.kernel.interest (fd, ofd)
                  (some ⟨events, m.nextPtr⟩) } }) := by
  by_cases hid : m.currentId ∈ m.listeners
  · obtain ⟨rfl, rfl⟩ := Prod.mk.inj ((if_pos hid).symm.trans hadd)
    exact .inl ⟨m.kernel.errno, _, rfl, rfl⟩
  by_cases hstatus : status.IsEnumerator
  · by_cases hfails : EpollCtlFails m.kernel fd failure
    · obtain ⟨err, ex, heq⟩ := add_of_epollCtlFails hid hstatus hfails tag
      obtain ⟨rfl, rfl⟩ := Prod.mk.inj (heq.symm.trans hadd)
      exact .inl ⟨err, ex, rfl, rfl⟩
    · obtain ⟨ofd, hofd, rfl, hfree⟩ := not_not.1 hfails
      obtain ⟨events, hevents⟩ := toEpollEvent_isOk.2 hstatus
      obtain ⟨rfl, rfl⟩ := Prod.mk.inj ((add_of_registers hid hevents hofd hfree).symm.trans hadd)
      exact .inr ⟨hid, .inr ⟨ofd, events, hofd, hfree, rfl, rfl⟩⟩
  · obtain ⟨ex, heq⟩ := add_of_bad_status hid hstatus fd tag failure
    obtain ⟨rfl, rfl⟩ := Prod.mk.inj (heq.symm.trans hadd)
    exact .inr ⟨hid, .inl ⟨hstatus, ex, rfl, rfl⟩⟩

end Add

/-- What `add` can do to the others: a failed call does nothing to them unless the status was bad,
and then the entry is stored without a registration; a successful call stores and registers. -/
theorem Wf.add_cases {tag : FileDescriptorTag} {status : ActivityStatus} {failure : Option Errno}
    {r : Except Exception EventHandlerId} (h : m.Wf) (hfd : m.MayBeAdded fd)
    (hadd : m.add fd tag status failure = (m', r)) :
    (Drops m m' [] ∧ ∃ ex, r = .error ex) ∨ Inserts m m' fd tag ∧
      ((¬ status.IsEnumerator ∧ m'.kernel.interest = m.kernel.interest ∧ ∃ ex, r = .error ex) ∨
        Registers m.kernel m'.kernel fd m.nextPtr ∧ r = .ok m.currentId) := by
  rcases add_eq hadd with ⟨err, ex, rfl, rfl⟩ | ⟨hid, ⟨hstatus, ex, rfl, rfl⟩ |
    ⟨ofd, events, hl, hfree, rfl, rfl⟩⟩
  · refine .inl ⟨⟨fun id => by simp [destroy, advance],
      fun hn => fileDescriptorDeleter_nullClosed hn, fileDescriptorDeleter_shrinks,
      fun id e hl hopen => ?_, Nat.le_succ _⟩, ex, rfl⟩
    have hk : m.kernel.Keeps { m.kernel with errno := err } e.fd := .of_eq rfl rfl
    exact hk.trans (fileDescriptorDeleter_keeps (h.fd_ne_of_mayBeAdded hfd hl hopen))
  · exact .inr ⟨⟨hfd, hid, rfl, rfl, rfl⟩, .inl ⟨hstatus, rfl, ex, rfl⟩⟩
  · exact .inr ⟨⟨hfd, hid, rfl, rfl, rfl⟩, .inr ⟨⟨ofd, events, hl, hfree, rfl⟩, rfl⟩⟩

theorem Wf.inserts {tag : FileDescriptorTag} (h : m.Wf) (hi : Inserts m m' fd tag)
    (hinterest : m'.kernel.interest = m.kernel.interest) : m'.Wf :=
  (h.insert tag hi.mayBeAdded).congr hi.listeners hi.nextPtr hi.descriptors hinterest

theorem Wf.inserts_registers {tag : FileDescriptorTag} (h : m.Wf) (hi : Inserts m m' fd tag)
    (hr : Registers m.kernel m'.kernel fd m.nextPtr) : m'.Wf := by
  obtain ⟨ofd, events, hl, -, hinterest⟩ := hr
  have hlookup : (m.listeners.insert m.currentId (m.newEntry fd tag)).lookup m.currentId =
      some (m.newEntry fd tag) := AList.lookup_insert _
  exact ((h.insert tag hi.mayBeAdded).register events hlookup hl).congr hi.listeners hi.nextPtr
    hi.descriptors hinterest

theorem Inserts.lookup_cases {tag : FileDescriptorTag} (hi : Inserts m m' fd tag)
    (hl : m'.listeners.lookup id = some e) :
    id = m.currentId ∧ e = m.newEntry fd tag ∨ m.listeners.lookup id = some e := by
  rw [hi.listeners] at hl
  by_cases hid : id = m.currentId
  · rw [hid, AList.lookup_insert] at hl
    exact .inl ⟨hid, (Option.some.inj hl).symm⟩
  · rw [AList.lookup_insert_ne hid] at hl
    exact .inr hl

theorem Inserts.lookup {tag : FileDescriptorTag} (hi : Inserts m m' fd tag)
    (hl : m.listeners.lookup id = some e) : m'.listeners.lookup id = some e := by
  have hne : id ≠ m.currentId := by
    rintro rfl
    rw [AList.lookup_eq_none.2 hi.notMem] at hl
    cases hl
  rw [hi.listeners, AList.lookup_insert_ne hne, hl]

theorem Inserts.setAddedIds {tag : FileDescriptorTag} (h : Inserts m m' fd tag)
    (f : Transaction → Option (List EventHandlerId)) :
    Inserts m { m' with addedIds := f } fd tag :=
  ⟨h.mayBeAdded, h.notMem, h.listeners, h.nextPtr, h.descriptors⟩

/-- The ids of the transactions when `t` has called `add`. -/
def remember (m : EpollInstance) (t : Transaction) : Except Exception EventHandlerId →
    Transaction → Option (List EventHandlerId)
  | .ok id => Function.update m.addedIds t ((m.addedIds t).map (· ++ [id]))
  | .error _ => m.addedIds

theorem transactionAdd_eq {t : Transaction} {tag : FileDescriptorTag} {status : ActivityStatus}
    {failure : Option Errno} {r : Except Exception EventHandlerId}
    (hadd : m.transactionAdd t fd tag status failure = (m', r)) :
    ∃ m₁, m.add fd tag status failure = (m₁, r) ∧
      m' = { m₁ with addedIds := m₁.remember t r } := by
  unfold transactionAdd at hadd
  split at hadd
  · next m₁ id heq =>
    obtain ⟨rfl, rfl⟩ := Prod.mk.inj hadd
    exact ⟨m₁, heq, rfl⟩
  · next m₁ ex heq =>
    obtain ⟨rfl, rfl⟩ := Prod.mk.inj hadd
    exact ⟨m₁, heq, rfl⟩

/-- What a call on the instance can do. -/
inductive CallEffect (m m' : EpollInstance) (c : Call) (records : List Record) : Prop
  /-- It drops the listeners that it is to remove, and nothing else. -/
  | drops (hd : Drops m m' (m.removes c)) (hrecords : ∀ r ∈ records, ∃ t, r = .committed t)
  /-- It stores an entry, because of a bad status, without a registration. -/
  | stores {fd : NativeHandle} {tag : FileDescriptorTag} {status : ActivityStatus}
      {failure : Option Errno} (hi : Inserts m m' fd tag)
      (hinterest : m'.kernel.interest = m.kernel.interest) (hstatus : ¬ status.IsEnumerator)
      (hc : c = .add fd tag status failure ∨ ∃ t, c = .transactionAdd t fd tag status failure)
      (hremoves : m.removes c = []) (hrecords : records = [])
  /-- It stores an entry and registers it. -/
  | registers {fd : NativeHandle} {tag : FileDescriptorTag} {via : Option Transaction}
      (hi : Inserts m m' fd tag) (hr : Registers m.kernel m'.kernel fd m.nextPtr)
      (hremoves : m.removes c = []) (hrecords : records = [.added via (m.newEntry fd tag)])

theorem Wf.callEffect {c : Call} {records : List Record} (h : m.Wf)
    (hc : m.call c = some (m', records)) : CallEffect m m' c records := by
  cases c with
  | add fd tag status failure =>
    obtain ⟨hfd, hm', rfl⟩ : m.MayBeAdded fd ∧ (m.add fd tag status failure).1 = m' ∧
        m.addRecord none fd tag (m.add fd tag status failure).2 = records := by
      simpa [call] using hc
    rcases h.add_cases hfd (Prod.ext hm' rfl) with
      ⟨hd, ex, hex⟩ | ⟨hi, ⟨hs, hr, ex, hex⟩ | ⟨hr, hok⟩⟩
    · exact .drops hd (by simp [hex, addRecord])
    · exact .stores hi hr hs (.inl rfl) rfl (by simp [hex, addRecord])
    · exact .registers hi hr rfl (congrArg (m.addRecord none fd tag) hok)
  | remove id =>
    obtain ⟨rfl, rfl⟩ : m.remove id = m' ∧ [] = records := by simpa [call] using hc
    exact .drops (h.drops_remove id) (by simp)
  | makeConfigTransaction =>
    obtain ⟨rfl, rfl⟩ : m.makeConfigTransaction = m' ∧ [] = records := by simpa [call] using hc
    exact .drops ⟨fun id => by simp [makeConfigTransaction, removes], fun h => h, .refl,
      fun _ _ _ _ => .refl, le_rfl⟩ (by simp)
  | transactionAdd t fd tag status failure =>
    obtain ⟨⟨hfd, -⟩, hm', rfl⟩ : (m.MayBeAdded fd ∧ _) ∧
        (m.transactionAdd t fd tag status failure).1 = m' ∧
          m.addRecord (some t) fd tag (m.transactionAdd t fd tag status failure).2 = records := by
      simpa [call] using hc
    obtain ⟨m₁, hadd, rfl⟩ := transactionAdd_eq (Prod.ext hm' rfl)
    rcases h.add_cases hfd hadd with ⟨hd, ex, hex⟩ | ⟨hi, ⟨hs, hr, ex, hex⟩ | ⟨hr, hok⟩⟩
    · exact .drops (hd.setAddedIds _) (by simp [hex, addRecord])
    · exact .stores (hi.setAddedIds _) hr hs (.inr ⟨t, rfl⟩) rfl (by simp [hex, addRecord])
    · exact .registers (hi.setAddedIds _) hr rfl (congrArg (m.addRecord (some t) fd tag) hok)
  | commit t =>
    obtain ⟨-, rfl, rfl⟩ : _ ∧ m.commit t = m' ∧ [.committed t] = records := by
      simpa [call] using hc
    exact .drops ⟨fun id => by simp [commit, removes], fun h => h, .refl,
      fun _ _ _ _ => .refl, le_rfl⟩ (by simp)
  | destroyTransaction t =>
    obtain ⟨-, rfl, rfl⟩ : _ ∧ m.destroyTransaction t = m' ∧ [] = records := by
      simpa [call] using hc
    exact .drops ((h.drops_rollback _).setAddedIds _) (by simp)

theorem Wf.gone_call {c : Call} {records : List Record} (h : m.Wf)
    (hc : m.call c = some (m', records)) : Gone m (m.removes c) m'.kernel := by
  cases c with
  | remove id =>
    obtain ⟨rfl, -⟩ : m.remove id = m' ∧ records = [] := by simpa [EpollInstance.call] using hc
    exact h.gone_remove id
  | destroyTransaction t =>
    obtain ⟨-, rfl, -⟩ : _ ∧ m.destroyTransaction t = m' ∧ records = [] := by
      simpa [EpollInstance.call] using hc
    exact h.gone_rollback _
  | _ => exact fun id hid => by simp [removes] at hid

theorem Wf.call {c : Call} {records : List Record} (h : m.Wf)
    (hc : m.call c = some (m', records)) : m'.Wf := by
  cases h.callEffect hc with
  | drops hd _ => exact h.shrunk hd.shrunk
  | stores hi hr _ _ _ _ => exact h.inserts hi hr
  | registers hi hr _ _ => exact h.inserts_registers hi hr

/-! ## The other steps -/

/-- `update_listening_status` throws and changes nothing, or it changes the registration of the
entry. -/
theorem updateListeningStatus_cases (m : EpollInstance) (e : Entry) (status : ActivityStatus)
    (failure : Option Errno) :
    (∃ err, (m.updateListeningStatus e status failure).1 =
        { m with kernel := { m.kernel with errno := err } }) ∨
      ∃ ofd events, m.kernel.descriptors.lookup e.fd = some ofd ∧
        (m.kernel.interest (e.fd, ofd)).isSome ∧ (m.updateListeningStatus e status failure).1 =
          { m with kernel := { m.kernel with
            interest := Function.update m.kernel.interest (e.fd, ofd) (some ⟨events, e.ptr⟩) } } := by
  unfold updateListeningStatus
  split
  · exact .inl ⟨m.kernel.errno, rfl⟩
  · next events _ =>
    rcases m.kernel.epollCtlMod_cases e.fd ⟨events, e.ptr⟩ failure with
      ⟨err, hmod⟩ | ⟨ofd, hl, hreg, hmod⟩
    · exact .inl ⟨err, by rw [hmod]⟩
    · exact .inr ⟨ofd, events, hl, hreg, by rw [hmod]⟩

@[simp] theorem updateListeningStatus_listeners (m : EpollInstance) (e : Entry)
    (status : ActivityStatus) (failure : Option Errno) :
    (m.updateListeningStatus e status failure).1.listeners = m.listeners := by
  unfold updateListeningStatus
  split <;> rfl

theorem Wf.setErrno (h : m.Wf) (err : Errno) :
    ({ m with kernel := { m.kernel with errno := err } } : EpollInstance).Wf :=
  h.congr rfl rfl rfl rfl

theorem Wf.updateListeningStatus (h : m.Wf) (hl : m.listeners.lookup id = some e)
    (status : ActivityStatus) (failure : Option Errno) :
    (m.updateListeningStatus e status failure).1.Wf := by
  rcases m.updateListeningStatus_cases e status failure with
    ⟨err, heq⟩ | ⟨ofd, events, hofd, -, heq⟩
  · rw [heq]
    exact h.setErrno err
  · rw [heq]
    exact h.register events hl hofd

theorem Wf.kernel_keeps {k : Kernel} {s : KernelStep} (hs : m.kernel.step s = some k)
    (hallowed : m.Allows s) (hl : m.listeners.lookup id = some e)
    (hopen : e.fd ∈ m.kernel.descriptors) : m.kernel.Keeps k e.fd := by
  refine Kernel.step_keeps hs hopen ?_
  rintro rfl
  exact hallowed (owns_iff.2 ⟨id, e, hl, rfl⟩)

theorem Wf.kernel {k : Kernel} {s : KernelStep} (h : m.Wf) (hs : m.kernel.step s = some k)
    (hallowed : m.Allows s) : ({ m with kernel := k } : EpollInstance).Wf :=
  h.shrunk ⟨fun _ _ hl => hl, le_rfl, fun hn => hn.step hs, Kernel.step_shrinks hs,
    fun _ _ hl hopen => (kernel_keeps hs hallowed hl hopen).lookup⟩

/-! ## Registered listeners -/

/-- The kernel has a registration of the listener's descriptor that points at the listener. -/
def Registered (m : EpollInstance) (e : Entry) : Prop :=
  ∃ ofd event, m.kernel.descriptors.lookup e.fd = some ofd ∧
    m.kernel.interest (e.fd, ofd) = some event ∧ event.data = e.ptr

theorem Registered.mem_descriptors (h : Registered m e) : e.fd ∈ m.kernel.descriptors := by
  obtain ⟨ofd, event, hofd, -⟩ := h
  rw [← AList.lookup_isSome, hofd]
  rfl

theorem Registered.keeps (h : Registered m e) (hk : m.kernel.Keeps m'.kernel e.fd) :
    Registered m' e := by
  obtain ⟨ofd, event, hofd, hreg, hdata⟩ := h
  exact ⟨ofd, event, hk.lookup.trans hofd, (hk.registered ofd hofd).trans hreg, hdata⟩

theorem Registered.drops {ids : List EventHandlerId} (h : Registered m e) (hd : Drops m m' ids)
    (hl' : m'.listeners.lookup id = some e) : Registered m' e :=
  h.keeps (hd.keeps id e hl' h.mem_descriptors)

theorem Inserts.keeps {tag : FileDescriptorTag} (hi : Inserts m m' fd tag)
    (hinterest : m'.kernel.interest = m.kernel.interest) : m.kernel.Keeps m'.kernel fd' :=
  .of_eq hi.descriptors hinterest

theorem Registered.registers {tag : FileDescriptorTag} (h : Registered m e)
    (hi : Inserts m m' fd tag) (hr : Registers m.kernel m'.kernel fd p) : Registered m' e := by
  obtain ⟨ofd, event, hofd, hreg, hdata⟩ := h
  obtain ⟨ofd', events, -, hfree, hinterest⟩ := hr
  have hne : (e.fd, ofd) ≠ (fd, ofd') := by
    intro heq
    rw [← heq, hreg] at hfree
    cases hfree
  refine ⟨ofd, event, by rw [hi.descriptors, hofd], ?_, hdata⟩
  rw [hinterest, Function.update_of_ne hne, hreg]

theorem Registered.call {c : Call} {records : List Record} (h : Registered m e) (hwf : m.Wf)
    (hc : m.call c = some (m', records)) (hl' : m'.listeners.lookup id = some e) :
    Registered m' e := by
  cases hwf.callEffect hc with
  | drops hd _ => exact h.drops hd hl'
  | stores hi hr _ _ _ _ => exact h.keeps (hi.keeps hr)
  | registers hi hr _ _ => exact h.registers hi hr

/-- The registration of a listener changes with its own `update_listening_status` only, which keeps
the pointer. -/
theorem Registered.updateListeningStatus (h : Registered m e) (hwf : m.Wf)
    (hl : m.listeners.lookup id = some e) (hl' : m.listeners.lookup id' = some e')
    (status : ActivityStatus) (failure : Option Errno) :
    Registered (m.updateListeningStatus e' status failure).1 e := by
  rcases m.updateListeningStatus_cases e' status failure with
    ⟨err, heq⟩ | ⟨ofd', events, hofd', -, heq⟩
  · rw [heq]
    exact h.keeps (.of_eq rfl rfl)
  · rw [heq]
    obtain ⟨ofd, event, hofd, hreg, hdata⟩ := h
    by_cases hkey : (e.fd, ofd) = (e'.fd, ofd')
    · have hopen : e.fd ∈ m.kernel.descriptors := by
        rw [← AList.lookup_isSome, hofd]
        rfl
      have hid : id = id' := by
        by_contra hne
        exact hwf.fd_ne hl' hl hne hopen (Prod.mk.inj hkey).1
      obtain rfl : e = e' := by
        rw [hid, hl'] at hl
        exact (Option.some.inj hl).symm
      refine ⟨ofd, ⟨events, e.ptr⟩, hofd, ?_, rfl⟩
      rw [hkey]
      exact Function.update_self ..
    · exact ⟨ofd, event, hofd, (Function.update_of_ne hkey _ _).trans hreg, hdata⟩

end EpollInstance

/-! ## Runs -/

open EpollInstance

variable {s s' : State} {l : Label} {ls : List Label} {ok : State → Label → Prop}

theorem State.Init.wf (h : s.Init) : s.monitor.Wf := by
  have hl : ∀ id, s.monitor.listeners.lookup id = none := fun id => by rw [h.listeners]; rfl
  have hr : ∀ key, s.monitor.kernel.interest key = none := fun key => by rw [h.interest]
  exact ⟨h.nullClosed, by simp [hl], by simp [hl], by simp [hl], by simp [hl], by simp [hr],
    by simp [hl]⟩

theorem State.Step.wf (h : s.monitor.Wf) (hs : State.Step s l s') : s'.monitor.Wf := by
  cases hs with
  | call _ hcall => exact h.call hcall
  | kernel _ hallows hk => exact h.kernel hk hallows
  | update hentry =>
    obtain ⟨id, hl, -⟩ := lookup_of_entryAt hentry
    exact h.updateListeningStatus hl _ _
  | returnsStopped _ _ => exact h.shrunk (h.drops_erase _).shrunk
  | _ => exact h

theorem State.Step.registered {id : EventHandlerId} {e : Entry} (h : s.monitor.Wf)
    (hs : State.Step s l s') (hl : s.monitor.listeners.lookup id = some e)
    (hl' : s'.monitor.listeners.lookup id = some e) (hr : Registered s.monitor e) :
    Registered s'.monitor e := by
  cases hs with
  | call _ hcall => exact hr.call h hcall hl'
  | kernel _ hallows hk => exact hr.keeps (Wf.kernel_keeps hk hallows hl hr.mem_descriptors)
  | update hentry =>
    obtain ⟨id', hl₀, -⟩ := lookup_of_entryAt hentry
    exact hr.updateListeningStatus h hl hl₀ _ _
  | returnsStopped _ _ => exact hr.drops (h.drops_erase _) hl'
  | _ => exact hr

/-- The descriptor of a listener and its registration change with its own `update_listening_status`
only, as long as it is stored. -/
theorem State.Step.keeps {id : EventHandlerId} {e : Entry} (h : s.monitor.Wf)
    (hs : State.Step s l s') (hl : s.monitor.listeners.lookup id = some e)
    (hl' : s'.monitor.listeners.lookup id = some e) (hopen : e.fd ∈ s.monitor.kernel.descriptors)
    (hother : ∀ activity pending, s.control = .handling activity pending → activity.data = e.ptr →
      ∀ status failure, l ≠ .updateListeningStatus status failure) :
    s.monitor.kernel.Keeps s'.monitor.kernel e.fd := by
  cases hs with
  | call _ hcall =>
    cases h.callEffect hcall with
    | drops hd _ => exact hd.keeps id e hl' hopen
    | stores hi hr _ _ _ _ => exact hi.keeps hr
    | registers hi hr _ _ =>
      obtain ⟨ofd, events, -, -, hinterest⟩ := hr
      have hne := h.fd_ne_of_mayBeAdded hi.mayBeAdded hl hopen
      refine ⟨by rw [hi.descriptors], fun ofd' _ => ?_⟩
      rw [hinterest, Function.update_of_ne fun heq => hne (Prod.mk.inj heq).1]
  | kernel _ hallows hk => exact Wf.kernel_keeps hk hallows hl hopen
  | @update m _ activity pending status failure entry hentry =>
    obtain ⟨id', hl₀, hp⟩ := lookup_of_entryAt hentry
    have hid : id ≠ id' := by
      rintro rfl
      obtain rfl := Option.some.inj (hl.symm.trans hl₀)
      exact hother activity pending rfl hp.symm status failure rfl
    have hne := h.fd_ne hl₀ hl hid hopen
    rcases m.updateListeningStatus_cases entry status failure with
      ⟨err, heq⟩ | ⟨ofd, events, -, -, heq⟩
    · exact .of_eq (by rw [heq]) (by rw [heq])
    · refine ⟨by rw [heq], fun ofd' _ => ?_⟩
      rw [heq]
      exact Function.update_of_ne (fun hkey => hne (Prod.mk.inj hkey).1) _ _
  | returnsStopped _ _ => exact (h.drops_erase _).keeps id e hl' hopen
  | _ => exact .refl

/-- **The invariant of all runs.** -/
theorem reach_wf (h : eventLoop.Reach ok ls s) : s.monitor.Wf :=
  h.invariant (I := fun _ s => s.monitor.Wf) (fun _ h0 => State.Init.wf h0)
    fun _ _ _ _ _ hwf _ hstep => (State.step_cases hstep).wf hwf

end ThePipe.OsServices.IoMultiplexer
