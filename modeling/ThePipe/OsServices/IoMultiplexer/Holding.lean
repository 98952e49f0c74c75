import ThePipe.OsServices.IoMultiplexer.OpenFiles

/-!
# What a caller has added

`Holding m₀ procs rest added m` says that the state `m` is `m₀` with the descriptors `rest`, which
owners of the caller hold, and the listeners `added`, which hold their descriptors themselves and
are registered.  It is followed through the calls that open and close descriptors and add and remove
listeners.  When nothing is left, everything is as it was.
-/

set_option autoImplicit false

namespace ThePipe.OsServices.IoMultiplexer

open ErrorHandling Fd Lib EpollInstance

/-- A listener that has been added, and its registration. -/
structure Added where
  entry : Entry
  ofd : Ofd
  events : BitVec 32

namespace Added

variable (x : Added)

def descriptor : NativeHandle × Ofd := (x.entry.fd, x.ofd)

def listener : EventHandlerId × Entry := (x.entry.id, x.entry)

def registration : (NativeHandle × Ofd) × EpollEvent := (x.descriptor, ⟨x.events, x.entry.ptr⟩)

end Added

/-- The processes, and what the pidfds refer to. -/
structure Processes where
  pidfdOf : Ofd → Option Pid
  processes : Pid → ProcessState

def processesOf (k : Kernel) : Processes := ⟨k.pidfdOf, k.processes⟩

/-- The state `m` is `m₀` with the descriptors `rest` and the listeners `added`. -/
structure Holding (m₀ : EpollInstance) (procs : Processes) (rest : List (NativeHandle × Ofd))
    (added : List Added) (m : EpollInstance) : Prop where
  descriptors : Frame m₀.kernel.descriptors (added.map Added.descriptor ++ rest)
    m.kernel.descriptors
  listeners : Frame m₀.listeners (added.map Added.listener) m.listeners
  interest : ∀ key event, m.kernel.interest key = some event ↔
    (∃ x ∈ added, x.registration = (key, event)) ∨ m₀.kernel.interest key = some event
  /-- No two of the descriptors are of one open file description. -/
  ofds : ((added.map Added.descriptor ++ rest).map Prod.snd).Nodup
  /-- The descriptors have been opened since. -/
  new : ∀ d ∈ added.map Added.descriptor ++ rest,
    0 ≤ d.1 ∧ m₀.kernel.nextOfd ≤ d.2 ∧ d.2 < m.kernel.nextOfd
  bounded : m₀.kernel.Bounded
  le : m₀.kernel.nextOfd ≤ m.kernel.nextOfd
  procs : processesOf m.kernel = procs

/-! ## What `add` does with an open descriptor -/

section Add

variable {m : EpollInstance} {fd : NativeHandle} {ofd : Ofd} {status : ActivityStatus}
  {events : BitVec 32} {failure : Option Errno}

/-- `epoll_ctl` reports no error, and the next id is free. -/
def EpollInstance.CanAdd (m : EpollInstance) (failure : Option Errno) : Prop :=
  failure = none ∧ m.currentId ∉ m.listeners

theorem add_of_canAdd (hopen : m.kernel.descriptors.lookup fd = some ofd)
    (hfree : m.kernel.interest (fd, ofd) = none) (hstatus : toEpollEvent status = .ok events)
    (tag : FileDescriptorTag) (hcan : m.CanAdd failure) :
    m.add fd tag status failure = ({ m.advance with
      listeners := m.listeners.insert m.currentId (m.newEntry fd tag)
      kernel := { m.kernel with
        interest := Function.update m.kernel.interest (fd, ofd) (some ⟨events, m.nextPtr⟩) } },
          .ok m.currentId) := by
  obtain ⟨rfl, hid⟩ := hcan
  exact add_of_registers hid hstatus hopen hfree

/-- When `add` fails it destroys the new entry, and with it the owner of the descriptor. -/
theorem add_of_not_canAdd (hstatus : toEpollEvent status = .ok events) (tag : FileDescriptorTag)
    (hcan : ¬ m.CanAdd failure) : ∃ err ex, m.add fd tag status failure =
      (({ m.advance with kernel := { m.kernel with errno := err } } : EpollInstance).destroy
        (m.newEntry fd tag), .error ex) := by
  by_cases hid : m.currentId ∈ m.listeners
  · exact ⟨m.kernel.errno, _, if_pos hid⟩
  · refine add_of_epollCtlFails hid (toEpollEvent_isOk.1 ⟨events, hstatus⟩) ?_ tag
    rintro ⟨ofd, -, hnone, -⟩
    exact hcan ⟨hnone, hid⟩

end Add

/-! ## Following a caller -/

/-- What a process that is killed and waited for has become; `failure` is the error, if any, that
`waitid` reports. -/
def killedState : Option Errno → ProcessState
  | none => .reaped
  | some _ => .zombie

/-- The deleter of a pidfd, as long as its process has not been reaped. -/
theorem fileDescriptorDeleter_pidfd {k : Kernel} {fd : NativeHandle} {pid : Pid} (hfd : fd ≠ -1)
    (hpid : k.processOf fd = some pid) (halive : k.processes pid ≠ .reaped)
    (failure : Option Errno) : ∃ err, fileDescriptorDeleter k .pidfd fd failure =
      (({ k with
        processes := Function.update k.processes pid (killedState failure)
        errno := err } : Kernel).close fd).1 := by
  -- the signal leaves a zombie
  have hsignal : k.pidfdSendSignal fd SIGKILL =
      ({ k with processes := Function.update k.processes pid .zombie }, 0) := by
    unfold Kernel.pidfdSendSignal
    rw [hpid]
    cases hstate : k.processes pid with
    | running => simp [hstate]
    | zombie => rw [← hstate, Function.update_eq_self]; simp [hstate]
    | reaped => exact absurd hstate halive
  have hpid' : ({ k with processes := Function.update k.processes pid .zombie } :
      Kernel).processOf fd = some pid := hpid
  unfold fileDescriptorDeleter
  rw [if_neg hfd, hsignal]
  dsimp only
  rw [if_neg (by decide)]
  unfold Kernel.waitid
  rw [hpid']
  cases failure with
  | some err =>
    exact ⟨err, rfl⟩
  | none =>
    refine ⟨k.errno, ?_⟩
    simp [killedState]

namespace Holding

variable {m₀ m m' : EpollInstance} {procs : Processes} {rest rest' : List (NativeHandle × Ofd)}
  {added : List Added} {fd : NativeHandle} {ofd : Ofd} {x : Added}

theorem refl (hb : m.kernel.Bounded) : Holding m (processesOf m.kernel) [] [] m :=
  ⟨.refl _, .refl _, fun _ _ => by simp, List.nodup_nil,
    fun _ hd => (List.not_mem_nil hd).elim, hb, le_rfl, rfl⟩

theorem perm (h : Holding m₀ procs rest added m) (hp : rest.Perm rest') :
    Holding m₀ procs rest' added m := by
  have hp' := hp.append_left (added.map Added.descriptor)
  exact ⟨h.descriptors.perm hp', h.listeners, h.interest, (hp'.map _).nodup_iff.1 h.ofds,
    fun d hd => h.new d (hp'.mem_iff.2 hd), h.bounded, h.le, h.procs⟩

theorem congr (h : Holding m₀ procs rest added m)
    (hd : m'.kernel.descriptors = m.kernel.descriptors) (hl : m'.listeners = m.listeners)
    (hi : m'.kernel.interest = m.kernel.interest) (hn : m.kernel.nextOfd ≤ m'.kernel.nextOfd) :
    Holding m₀ (processesOf m'.kernel) rest added m' :=
  ⟨hd ▸ h.descriptors, hl ▸ h.listeners, hi ▸ h.interest, h.ofds, fun d hmem =>
    ⟨(h.new d hmem).1, (h.new d hmem).2.1, (h.new d hmem).2.2.trans_le hn⟩, h.bounded,
      h.le.trans hn, rfl⟩

theorem of_eq (h : Holding m₀ procs rest added m) (hk : m'.kernel = m.kernel)
    (hl : m'.listeners = m.listeners) : Holding m₀ procs rest added m' := by
  rw [← h.procs, ← hk]
  apply h.congr
  · rw [hk]
  · exact hl
  · rw [hk]
  · exact hk ▸ le_rfl

theorem mem_rest (hmem : (fd, ofd) ∈ rest) :
    (fd, ofd) ∈ added.map Added.descriptor ++ rest :=
  List.mem_append_right _ hmem

theorem ne_null (h : Holding m₀ procs rest added m) (hmem : (fd, ofd) ∈ rest) : fd ≠ -1 := by
  rintro rfl
  have hle : (0 : ℤ) ≤ -1 := (h.new _ (mem_rest hmem)).1
  omega

theorem lookup_rest (h : Holding m₀ procs rest added m) (hmem : (fd, ofd) ∈ rest) :
    m.kernel.descriptors.lookup fd = some ofd :=
  h.descriptors.lookup_own (mem_rest hmem)

theorem lookup_added (h : Holding m₀ procs rest added m) (hx : x ∈ added) :
    m.kernel.descriptors.lookup x.entry.fd = some x.ofd ∧
      m.listeners.lookup x.entry.id = some x.entry := by
  constructor
  · apply h.descriptors.lookup_own
    exact List.mem_append_left _ (List.mem_map_of_mem hx)
  · exact h.listeners.lookup_own (List.mem_map_of_mem hx)

theorem unregistered (h : Holding m₀ procs rest added m) (hmem : (fd, ofd) ∈ rest)
    (fd' : NativeHandle) : m.kernel.interest (fd', ofd) = none := by
  rw [← Option.not_isSome_iff_eq_none]
  intro hsome
  obtain ⟨event, hevent⟩ := Option.isSome_iff_exists.1 hsome
  rcases (h.interest _ event).1 hevent with ⟨x, hx, hreg⟩ | hold
  · -- the listener would share the open file description
    have hofd : x.ofd = ofd := congrArg (fun r => r.1.2) hreg
    have hnodup := h.ofds
    rw [List.map_append, List.nodup_append] at hnodup
    refine hnodup.2.2 ofd ?_ ofd (List.mem_map_of_mem (f := Prod.snd) hmem) rfl
    rw [← hofd]
    exact List.mem_map_of_mem (f := Prod.snd) (List.mem_map_of_mem (f := Added.descriptor) hx)
  · have hnew : m₀.kernel.nextOfd ≤ ofd := (h.new _ (mem_rest hmem)).2.1
    rw [h.bounded.interest_eq_none hnew] at hold
    cases hold

/-! ## Descriptors -/

theorem openDescriptor {k' : Kernel} {process : Option Pid} (h : Holding m₀ procs rest added m)
    (hs : m.kernel.step (.openDescriptor fd process) = some k') :
    Holding m₀ (processesOf k') ((fd, m.kernel.nextOfd) :: rest) added { m with kernel := k' } := by
  obtain ⟨⟨hfd, hfree⟩, rfl⟩ : _ ∧ _ = k' := by simpa [Kernel.step] using hs
  refine ⟨h.descriptors.insert (AList.lookup_eq_none.2 hfree), h.listeners, h.interest, ?_, ?_,
    h.bounded, h.le.trans (Nat.le_succ _), rfl⟩
  · rw [List.map_append, List.map_cons, List.nodup_middle, List.nodup_cons, ← List.map_append]
    refine ⟨fun hmem => ?_, h.ofds⟩
    obtain ⟨d, hd, heq⟩ := List.mem_map.1 hmem
    exact absurd heq (h.new d hd).2.2.ne
  · intro d hd
    rw [List.mem_append, List.mem_cons, or_left_comm, ← List.mem_append] at hd
    rcases hd with rfl | hd
    · exact ⟨hfd, h.le, Nat.lt_succ_self _⟩
    · obtain ⟨hpos, hle, hlt⟩ := h.new d hd
      exact ⟨hpos, hle, hlt.trans (Nat.lt_succ_self _)⟩

theorem close (h : Holding m₀ procs ((fd, ofd) :: rest) added m) :
    Holding m₀ procs rest added { m with kernel := (m.kernel.close fd).1 } := by
  have hmem : (fd, ofd) ∈ (fd, ofd) :: rest := List.mem_cons_self
  obtain ⟨-, hnext, hpidfd, hprocesses⟩ := Kernel.close_frame m.kernel fd
  have hinterest : (m.kernel.close fd).1.interest = m.kernel.interest := by
    funext key
    rw [Kernel.close_interest]
    split
    · next hsole =>
      obtain rfl : ofd = key.2 := Option.some.inj ((h.lookup_rest hmem).symm.trans hsole.2)
      exact (h.unregistered hmem key.1).symm
    · rfl
  have hframe := h.descriptors.erase
  refine ⟨⟨fun fd' => ?_, hframe.nodup, hframe.fresh⟩, h.listeners, hinterest ▸ h.interest, ?_, ?_,
    h.bounded, hnext.ge.trans' h.le, ?_⟩
  · rw [← hframe.lookup, Kernel.close_lookup, AList.lookup_erase_ite]
  · have hnodup := h.ofds
    rw [List.map_append, List.map_cons, List.nodup_middle, List.nodup_cons, ← List.map_append]
      at hnodup
    exact hnodup.2
  · intro d hd
    show _ ∧ _ ∧ d.2 < (m.kernel.close fd).1.nextOfd
    rw [hnext]
    apply h.new
    rw [List.mem_append, List.mem_cons, or_left_comm, ← List.mem_append]
    exact .inr hd
  · rw [← h.procs]
    simp only [processesOf, hpidfd, hprocesses]

theorem destroyOwner (h : Holding m₀ procs ((fd, ofd) :: rest) added m) (failure : Option Errno) :
    Holding m₀ procs rest added
      { m with kernel := fileDescriptorDeleter m.kernel .generic fd failure } := by
  have heq : fileDescriptorDeleter m.kernel .generic fd failure = (m.kernel.close fd).1 :=
    if_pos (h.ne_null List.mem_cons_self)
  rw [heq]
  exact h.close

theorem destroyPidfd {pid : Pid} (h : Holding m₀ procs ((fd, ofd) :: rest) added m)
    (hpid : procs.pidfdOf ofd = some pid) (halive : procs.processes pid ≠ .reaped)
    (failure : Option Errno) :
    Holding m₀ { procs with
        processes := Function.update procs.processes pid (killedState failure) } rest added
      { m with kernel := fileDescriptorDeleter m.kernel .pidfd fd failure } := by
  obtain rfl := h.procs
  have hmem : (fd, ofd) ∈ (fd, ofd) :: rest := List.mem_cons_self
  have hprocess : m.kernel.processOf fd = some pid := by
    rw [Kernel.processOf, h.lookup_rest hmem]
    exact hpid
  obtain ⟨err, heq⟩ :=
    fileDescriptorDeleter_pidfd (h.ne_null hmem) hprocess halive failure
  rw [heq]
  have hkilled := @congr _ m { m with kernel := { m.kernel with
    processes := Function.update m.kernel.processes pid (killedState failure)
    errno := err } } _ _ _ h rfl rfl rfl le_rfl
  exact hkilled.close

/-! ## Listeners -/

theorem enter (h : Holding m₀ procs ((fd, ofd) :: rest) added m) (hid : m.currentId ∉ m.listeners)
    (tag : FileDescriptorTag) (events : BitVec 32) :
    Holding m₀ procs rest (added ++ [⟨m.newEntry fd tag, ofd, events⟩]) { m.advance with
      listeners := m.listeners.insert m.currentId (m.newEntry fd tag)
      kernel := { m.kernel with
        interest := Function.update m.kernel.interest (fd, ofd) (some ⟨events, m.nextPtr⟩) } } := by
  have hfree := h.unregistered List.mem_cons_self fd
  set new : Added := ⟨m.newEntry fd tag, ofd, events⟩
  have hown : (added ++ [new]).map Added.descriptor ++ rest =
      added.map Added.descriptor ++ (fd, ofd) :: rest := by
    rw [List.map_append, List.append_assoc]
    rfl
  refine ⟨hown ▸ h.descriptors, ?_, fun key event => ?_, hown ▸ h.ofds, hown ▸ h.new, h.bounded,
    h.le, h.procs⟩
  · rw [List.map_append]
    have hlisteners : Frame m₀.listeners (added.map Added.listener ++ []) m.listeners := by
      rw [List.append_nil]
      exact h.listeners
    exact hlisteners.insert (AList.lookup_eq_none.2 hid)
  · have hreg : new.registration = ((fd, ofd), EpollEvent.mk events m.nextPtr) := rfl
    have hnew : (∃ x ∈ added ++ [new], x.registration = (key, event)) ∨
        m₀.kernel.interest key = some event ↔
          new.registration = (key, event) ∨ m.kernel.interest key = some event := by
      rw [h.interest]
      simp only [List.mem_append, List.mem_singleton, or_and_right, exists_or, exists_eq_left]
      exact or_assoc.trans or_left_comm
    rw [hnew, hreg]
    show Function.update m.kernel.interest (fd, ofd) (some ⟨events, m.nextPtr⟩) key = _ ↔ _
    by_cases hkey : key = (fd, ofd)
    · subst hkey
      rw [Function.update_self, hfree]
      simp
    · rw [Function.update_of_ne hkey]
      simp [Ne.symm hkey]

theorem unregister (h : Holding m₀ procs rest (x :: added) m) :
    Holding m₀ procs (x.descriptor :: rest) added { m with
      kernel := (m.kernel.epollCtlDel x.entry.fd).1
      listeners := m.listeners.erase x.entry.id } := by
  have hopen := (h.lookup_added List.mem_cons_self).1
  have hown : ((x :: added).map Added.descriptor ++ rest).Perm
      (added.map Added.descriptor ++ x.descriptor :: rest) := List.perm_middle.symm
  obtain ⟨err, heq⟩ := m.kernel.epollCtlDel_eq x.entry.fd
  have hnext : (m.kernel.epollCtlDel x.entry.fd).1.nextOfd = m.kernel.nextOfd := by rw [heq]
  refine ⟨?_, ?_, fun key event => ?_, (hown.map _).nodup_iff.1 h.ofds, fun d hd => ?_,
    h.bounded, hnext.ge.trans' h.le, ?_⟩
  · rw [Kernel.epollCtlDel_descriptors]
    exact h.descriptors.perm hown
  · have hlisteners : Frame m₀.listeners ([] ++ x.listener :: added.map Added.listener)
        m.listeners := h.listeners
    exact hlisteners.erase
  · show (m.kernel.epollCtlDel x.entry.fd).1.interest key = _ ↔ _
    by_cases hkey : key = x.descriptor
    · have hnodup := h.ofds
      rw [List.map_cons, List.cons_append, List.map_cons, List.nodup_cons] at hnodup
      subst hkey
      rw [show x.descriptor = (x.entry.fd, x.ofd) from rfl, Kernel.epollCtlDel_interest hopen]
      refine ⟨nofun, fun hor => ?_⟩
      rcases hor with ⟨y, hy, hreg⟩ | hold
      · -- the other listener would have the same open file description
        have hofd : y.descriptor = x.descriptor := congrArg Prod.fst hreg
        refine absurd ?_ hnodup.1
        rw [← hofd]
        apply List.mem_map_of_mem
        exact List.mem_append_left _ (List.mem_map_of_mem hy)
      · have hnew : m₀.kernel.nextOfd ≤ x.ofd := (h.new x.descriptor (List.mem_cons_self ..)).2.1
        rw [h.bounded.interest_eq_none hnew] at hold
        cases hold
    · rw [Kernel.epollCtlDel_interest_of_ne hopen hkey, h.interest]
      have hx' : x.registration ≠ (key, event) := fun heq => hkey (congrArg Prod.fst heq).symm
      simp [hx']
  · show _ ∧ _ ∧ d.2 < (m.kernel.epollCtlDel x.entry.fd).1.nextOfd
    rw [hnext]
    exact h.new d (hown.mem_iff.2 hd)
  · rw [← h.procs, heq]
    rfl

theorem remove (h : Holding m₀ procs rest (x :: added) m) (htag : x.entry.tag = .generic) :
    Holding m₀ procs rest added (m.remove x.entry.id) := by
  have hdestroyed := h.unregister.destroyOwner (m.waitidFailure x.entry.ptr)
  rw [remove_eq (h.lookup_added List.mem_cons_self).2]
  unfold EpollInstance.destroy
  rw [htag]
  exact hdestroyed

theorem rollback (h : Holding m₀ procs rest added m) (htag : ∀ x ∈ added, x.entry.tag = .generic) :
    Holding m₀ procs rest [] (m.rollback (added.map (·.entry.id))) := by
  induction added generalizing m with
  | nil => exact h
  | cons x added ih =>
    have hremoved := h.remove (htag x List.mem_cons_self)
    exact ih hremoved fun y hy => htag y (List.mem_cons_of_mem _ hy)

theorem destroyTransaction {t : Transaction} (h : Holding m₀ procs rest added m)
    (htag : ∀ x ∈ added, x.entry.tag = .generic)
    (ht : m.addedIds t = some (added.map (·.entry.id))) :
    Holding m₀ procs rest [] (m.destroyTransaction t) := by
  have heq : m.destroyTransaction t = { m.rollback (added.map (·.entry.id)) with
      addedIds := Function.update (m.rollback (added.map (·.entry.id))).addedIds t none } := by
    unfold EpollInstance.destroyTransaction
    rw [ht]
    rfl
  rw [heq]
  exact (h.rollback htag).of_eq rfl rfl

theorem commit (h : Holding m₀ procs rest added m) (t : Transaction) :
    Holding m₀ procs rest added ((m.commit t).destroyTransaction t) := by
  have ht : (m.commit t).addedIds t = some [] := Function.update_self ..
  unfold EpollInstance.destroyTransaction
  rw [ht]
  exact h.of_eq rfl rfl

theorem transactionAdd {status : ActivityStatus} {events : BitVec 32}
    (h : Holding m₀ procs ((fd, ofd) :: rest) added m) (hstatus : toEpollEvent status = .ok events)
    (t : Transaction) (tag : FileDescriptorTag) (failure : Option Errno) :
    (m.CanAdd failure ∧ ∃ m', m.transactionAdd t fd tag status failure = (m', .ok m.currentId) ∧
        Holding m₀ procs rest (added ++ [⟨m.newEntry fd tag, ofd, events⟩]) m' ∧
        m'.addedIds t = (m.addedIds t).map (· ++ [m.currentId]) ∧
        m'.currentId = m.currentId.next.2 ∧ m'.nextPtr = m.nextPtr + 1 ∧
        m'.waitidFailure = m.waitidFailure) ∨
      ¬ m.CanAdd failure ∧ ∃ m₁ ex, m.transactionAdd t fd tag status failure =
          ({ m₁ with
            kernel := fileDescriptorDeleter m₁.kernel tag fd (m.waitidFailure m.nextPtr) },
              .error ex) ∧
        Holding m₀ procs ((fd, ofd) :: rest) added m₁ ∧ m₁.addedIds = m.addedIds := by
  have hopen := h.lookup_rest List.mem_cons_self
  have hfree := h.unregistered List.mem_cons_self fd
  by_cases hcan : m.CanAdd failure
  · refine .inl ⟨hcan, { m.advance with
      listeners := m.listeners.insert m.currentId (m.newEntry fd tag)
      kernel := { m.kernel with
        interest := Function.update m.kernel.interest (fd, ofd) (some ⟨events, m.nextPtr⟩) }
      addedIds := Function.update m.addedIds t ((m.addedIds t).map (· ++ [m.currentId])) },
      ?_, (h.enter hcan.2 tag events).of_eq rfl rfl, Function.update_self .., rfl, rfl, rfl⟩
    unfold EpollInstance.transactionAdd
    rw [add_of_canAdd hopen hfree hstatus tag hcan]
    rfl
  · obtain ⟨err, ex, hadd⟩ := add_of_not_canAdd hstatus tag hcan
    refine .inr ⟨hcan, { m.advance with kernel := { m.kernel with errno := err } }, ex, ?_,
      ⟨h.descriptors, h.listeners, h.interest, h.ofds, h.new, h.bounded, h.le, h.procs⟩, rfl⟩
    unfold EpollInstance.transactionAdd
    rw [hadd]
    rfl

/-- When nothing is left, everything is as it was. -/
theorem restored (h : Holding m₀ procs [] [] m) :
    (∀ id, m.listeners.lookup id = m₀.listeners.lookup id) ∧
      m.kernel.interest = m₀.kernel.interest ∧
        ∀ fd, m.kernel.descriptors.lookup fd = m₀.kernel.descriptors.lookup fd := by
  refine ⟨fun id => h.listeners.lookup id, ?_, fun fd => h.descriptors.lookup fd⟩
  funext key
  ext event
  rw [h.interest]
  simp

end Holding

end ThePipe.OsServices.IoMultiplexer
