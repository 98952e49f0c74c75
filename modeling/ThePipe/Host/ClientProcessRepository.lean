import ThePipe.OsServices.IoMultiplexer.Holding
import ThePipe.OsServices.Ipc.Endpoints

/-!
# Loading a client

`load` makes a pipe and a pair of sockets, spawns the client, and registers three descriptors with
the event loop in one transaction.  When a registration fails, `add` undoes itself, the transaction
removes what it has added, and the owners among the locals close the rest; the child is killed by
the deleter of its pidfd, wherever that is by then.

Loading is all or nothing, except that the deleter does not wait for the child again when `waitid`
has been interrupted (`load_allOrNothing_iff`).
-/

set_option autoImplicit false

namespace ThePipe.Host.ClientProcessRepository

open OsServices ErrorHandling Fd Ipc IoMultiplexer Lib

/-! ## The function -/

/-- What a call of `spawn` that returns normally leaves behind. -/
structure Child where
  process : Pid
  pidfd : NativeHandle
  /-- How many open file descriptions the call has made for itself. -/
  used : ℕ
  /-- The descriptors that other processes have by then, the child among them. -/
  elsewhere : Ofd → ℕ

/-- How the call of `spawn` ends. -/
inductive SpawnOutcome
  | throws (k : Kernel) (e : SystemError)
  | returns (child : Child)

/-- `spawn`; its child has not been waited for. -/
def spawn (k : Kernel) : SpawnOutcome → Option (Kernel × Except SystemError NativeHandle)
  | .throws k e => some (k, .error e)
  | .returns child =>
    if k.processes child.process = .reaped then none
    else
      (Kernel.step { k with nextOfd := k.nextOfd + child.used, elsewhere := child.elsewhere }
        (.openDescriptor child.pidfd (some child.process))).map fun k => (k, .ok child.pidfd)

/-- How the calls go that `load` makes. -/
structure Outcomes where
  pipe : Except Errno (NativeHandle × NativeHandle)
  socketpair : Except Errno (NativeHandle × NativeHandle)
  spawn : SpawnOutcome
  /-- The error that `epoll_ctl` reports for the read end of the log pipe, if any. -/
  logReader : Option Errno
  /-- The one for the control socket. -/
  clientProcess : Option Errno
  /-- The one for the pidfd. -/
  repository : Option Errno

/-- Destroys owners, the first one first; `failure` is the error, if any, that `waitid` reports. -/
def destroyOwners (m : EpollInstance) (failure : Option Errno)
    (owners : List (FileDescriptorTag × NativeHandle)) : EpollInstance :=
  owners.foldl (fun m o =>
    { m with kernel := fileDescriptorDeleter m.kernel o.1 o.2 failure }) m

/-- The transaction of `load`, up to the end of the function.  An owner that has not been moved into
the instance yet is destroyed after the transaction. -/
def register (m : EpollInstance) (readEnd socketA socketB pidfd : NativeHandle) (o : Outcomes) :
    EpollInstance × Except Exception Unit :=
  -- the owner of the pidfd is moved into the third entry
  let failure := m.waitidFailure (m.nextPtr + 2)
  let t := m.nextTransaction
  match m.makeConfigTransaction.transactionAdd t readEnd .generic .read o.logReader with
  | (m, .error e) =>
    (destroyOwners (m.destroyTransaction t) failure
      [(.pidfd, pidfd), (.generic, socketB), (.generic, socketA)], .error e)
  | (m, .ok _) =>
    match m.transactionAdd t socketA .generic .write o.clientProcess with
    | (m, .error e) =>
      (destroyOwners (m.destroyTransaction t) failure [(.pidfd, pidfd), (.generic, socketB)],
        .error e)
    | (m, .ok _) =>
      match m.transactionAdd t pidfd .pidfd .read o.repository with
      | (m, .error e) =>
        (destroyOwners (m.destroyTransaction t) failure [(.generic, socketB)], .error e)
      | (m, .ok _) =>
        (destroyOwners ((m.commit t).destroyTransaction t) failure [(.generic, socketB)], .ok ())

/-- `load`.  What it passes to `spawn` matters to the child only. -/
def load (m : EpollInstance) (o : Outcomes) : Option (EpollInstance × Except Exception Unit) :=
  (makePipe m.kernel o.pipe).bind fun
    | (k, .error e) => some ({ m with kernel := k }, .error (.systemError e))
    | (k, .ok logpipe) =>
      (makeSocketPair k o.socketpair).bind fun
        | (k, .error e) =>
          some (destroyOwners { m with kernel := k } none
            [(.generic, logpipe.writeEnd), (.generic, logpipe.readEnd)], .error (.systemError e))
        | (k, .ok ctlSockets) =>
          (spawn k o.spawn).map fun
            | (k, .error e) =>
              (destroyOwners { m with kernel := k } none
                [(.generic, logpipe.writeEnd), (.generic, ctlSockets.socketB),
                  (.generic, ctlSockets.socketA), (.generic, logpipe.readEnd)],
                .error (.systemError e))
            | (k, .ok pidfd) =>
              -- the redirection that owned the write end has been destroyed
              register (destroyOwners { m with kernel := k } none [(.generic, logpipe.writeEnd)])
                logpipe.readEnd ctlSockets.socketA ctlSockets.socketB pidfd o

/-! ## All or nothing -/

/-- None of the three registrations fails: `epoll_ctl` succeeds, and the next three ids are free. -/
structure Registers (m : EpollInstance) (o : Outcomes) : Prop where
  logReader : o.logReader = none
  clientProcess : o.clientProcess = none
  repository : o.repository = none
  free : ∀ id ∈ [m.currentId, m.currentId.next.2, m.currentId.next.2.next.2], id ∉ m.listeners

/-- The listeners `added` are new, exactly their descriptors are, and the kernel has exactly their
registrations in addition. -/
structure Loaded (m m' : EpollInstance) (added : List Added) : Prop where
  listeners : Frame m.listeners (added.map Added.listener) m'.listeners
  descriptors : Frame m.kernel.descriptors (added.map Added.descriptor) m'.kernel.descriptors
  interest : ∀ key event, m'.kernel.interest key = some event ↔
    (∃ x ∈ added, x.registration = (key, event)) ∨ m.kernel.interest key = some event

/-- Nothing is left of the call, and the process has been reaped. -/
structure RolledBack (m m' : EpollInstance) (process : Pid) : Prop where
  listeners : ∀ id, m'.listeners.lookup id = m.listeners.lookup id
  interest : m'.kernel.interest = m.kernel.interest
  descriptors : ∀ fd, m'.kernel.descriptors.lookup fd = m.kernel.descriptors.lookup fd
  reaped : m'.kernel.processes process = .reaped

/-- No descriptor of the host refers to the open file description. -/
def NotHeld (m : EpollInstance) (ofd : Ofd) : Prop :=
  ∀ fd, m.kernel.descriptors.lookup fd ≠ some ofd

/-- **All or nothing.**  Of the open file descriptions that `load` makes, the second one is that of
the write end of the pipe, and the fourth one that of the child's control socket. -/
def AllOrNothing (m : EpollInstance) (o : Outcomes) (readEnd socketA : NativeHandle)
    (child : Child) (m' : EpollInstance) (res : Except Exception Unit) : Prop :=
  (Registers m o → res = .ok () ∧
    (∃ x₁ x₂ x₃ : Added, x₁.entry.fd = readEnd ∧ x₂.entry.fd = socketA ∧
      x₃.entry.fd = child.pidfd ∧ Loaded m m' [x₁, x₂, x₃]) ∧
    NotHeld m' (m.kernel.nextOfd + 1) ∧ NotHeld m' (m.kernel.nextOfd + 3)) ∧
  (¬ Registers m o → (∃ e, res = .error e) ∧ RolledBack m m' child.process)

/-! ## The transaction -/

section Register

variable {m₀ m m' : EpollInstance} {procs : Processes} {added : List Added}
  {rest : List (NativeHandle × Ofd)} {r a b p : NativeHandle} {ofdR ofdA ofdB ofdP : Ofd}
  {pid : Pid} {failure : Option Errno} {o : Outcomes}

theorem next_ne (id : EventHandlerId) : id.next.2 ≠ id ∧ id.next.2.next.2 ≠ id := by
  obtain ⟨v⟩ := id
  constructor
  · intro h
    have hv : v + 1 = v := congrArg EventHandlerId.value h
    bv_omega
  · intro h
    have hv : v + 1 + 1 = v := congrArg EventHandlerId.value h
    bv_omega

theorem mem_listeners_iff (h : Holding m₀ procs rest added m) (id : EventHandlerId) :
    id ∈ m.listeners ↔ id ∈ m₀.listeners ∨ id ∈ added.map (·.entry.id) := by
  rw [h.listeners.mem_iff, List.map_map]
  rfl

theorem destroyOwners_generic (h : Holding m₀ procs rest added m) (failure : Option Errno) :
    Holding m₀ procs [] added
      (destroyOwners m failure (rest.map fun d => (.generic, d.1))) := by
  induction rest generalizing m with
  | nil => exact h
  | cons d rest ih => exact ih (h.destroyOwner failure)

theorem destroyOwners_pidfd (h : Holding m₀ procs ((p, ofdP) :: rest) added m)
    (hpid : procs.pidfdOf ofdP = some pid) (halive : procs.processes pid ≠ .reaped)
    (failure : Option Errno) :
    Holding m₀ { procs with
        processes := Function.update procs.processes pid (killedState failure) } [] added
      (destroyOwners m failure ((.pidfd, p) :: rest.map fun d => (.generic, d.1))) :=
  destroyOwners_generic (h.destroyPidfd hpid halive failure) failure

theorem register_spec
    (h : Holding m₀ procs [(r, ofdR), (a, ofdA), (p, ofdP), (b, ofdB)] [] m)
    (hid : m.currentId = m₀.currentId) (hptr : m.nextPtr = m₀.nextPtr)
    (hwaitid : m.waitidFailure = m₀.waitidFailure) (hpid : procs.pidfdOf ofdP = some pid)
    (halive : procs.processes pid ≠ .reaped) (o : Outcomes) :
    (Registers m₀ o ∧ (register m r a b p o).2 = .ok () ∧ ∃ e₁ e₂ e₃ events₁ events₂ events₃,
        e₁.fd = r ∧ e₂.fd = a ∧ e₃.fd = p ∧ Holding m₀ procs []
          [⟨e₁, ofdR, events₁⟩, ⟨e₂, ofdA, events₂⟩, ⟨e₃, ofdP, events₃⟩]
            (register m r a b p o).1) ∨
      ¬ Registers m₀ o ∧ (∃ e, (register m r a b p o).2 = .error e) ∧
        Holding m₀ { procs with
          processes := Function.update procs.processes pid
            (killedState (m₀.waitidFailure (m₀.nextPtr + 2))) } [] [] (register m r a b p o).1 := by
  have h₀ : Holding m₀ procs _ [] m.makeConfigTransaction := h.of_eq rfl rfl
  have ht₀ : m.makeConfigTransaction.addedIds m.nextTransaction = some [] :=
    Function.update_self ..
  have hcur₀ : m.makeConfigTransaction.currentId = m₀.currentId := hid
  unfold register
  dsimp only
  rw [hptr, hwaitid]
  have hread : toEpollEvent .read = .ok EPOLLIN := rfl
  have hwrite : toEpollEvent .write = .ok EPOLLOUT := rfl
  rcases h₀.transactionAdd hread m.nextTransaction .generic o.logReader with
    ⟨hcan₁, m₁, hadd₁, h₁, ht₁, hid₁, hptr₁, hwait₁⟩ | ⟨hcan₁, m₁, e, hadd₁, h₁, ht₁⟩
  swap
  · -- the first registration fails
    rw [hadd₁]
    refine .inr ⟨fun hr => hcan₁ ⟨hr.logReader, ?_⟩, ⟨e, rfl⟩, ?_⟩
    · rw [mem_listeners_iff h₀, hcur₀]
      simpa using hr.free m₀.currentId (by simp)
    · have hclosed := h₁.destroyOwner (m.waitidFailure m.nextPtr)
      have hback := hclosed.destroyTransaction (t := m.nextTransaction) (by simp)
        (by rw [show _ = m₁.addedIds _ from rfl, ht₁, ht₀]; rfl)
      have hleft := hback.perm (List.perm_append_singleton (a, ofdA) [(p, ofdP), (b, ofdB)]).symm
      exact destroyOwners_pidfd hleft hpid halive _
  rw [hadd₁]
  dsimp only
  rw [hcur₀] at hid₁
  have hfree₂ : m₁.currentId ∈ m₁.listeners ↔ m₀.currentId.next.2 ∈ m₀.listeners := by
    rw [mem_listeners_iff h₁, hid₁]
    show _ ∨ _ ∈ [m.makeConfigTransaction.currentId] ↔ _
    rw [List.mem_singleton, hcur₀]
    exact or_iff_left (next_ne _).1
  rcases h₁.transactionAdd hwrite m.nextTransaction .generic o.clientProcess with
    ⟨hcan₂, m₂, hadd₂, h₂, ht₂, hid₂, hptr₂, hwait₂⟩ | ⟨hcan₂, m₂, e, hadd₂, h₂, ht₂⟩
  swap
  · -- the second registration fails
    rw [hadd₂]
    refine .inr ⟨fun hr => hcan₂ ⟨hr.clientProcess, ?_⟩, ⟨e, rfl⟩, ?_⟩
    · rw [hfree₂]
      exact hr.free _ (by simp)
    · have hclosed := h₂.destroyOwner (m₁.waitidFailure m₁.nextPtr)
      have hback := hclosed.destroyTransaction (t := m.nextTransaction)
        (by simp [EpollInstance.newEntry])
        (by rw [show _ = m₂.addedIds _ from rfl, ht₂, ht₁, ht₀]; rfl)
      exact destroyOwners_pidfd hback hpid halive _
  rw [hadd₂]
  dsimp only
  rw [hid₁] at hid₂
  have hfree₃ : m₂.currentId ∈ m₂.listeners ↔ m₀.currentId.next.2.next.2 ∈ m₀.listeners := by
    rw [mem_listeners_iff h₂, hid₂]
    show _ ∨ _ ∈ [m.makeConfigTransaction.currentId, m₁.currentId] ↔ _
    rw [hcur₀, hid₁]
    simp only [List.mem_cons, List.not_mem_nil, or_false]
    exact or_iff_left (not_or.2 ⟨(next_ne _).2, (next_ne _).1⟩)
  have hptr₃ : m₂.nextPtr = m₀.nextPtr + 2 := by
    rw [hptr₂, hptr₁, ← hptr]
    rfl
  have hwait₃ : m₂.waitidFailure = m₀.waitidFailure := by
    rw [hwait₂, hwait₁, ← hwaitid]
    rfl
  rcases h₂.transactionAdd hread m.nextTransaction .pidfd o.repository with
    ⟨hcan₃, m₃, hadd₃, h₃, ht₃, -⟩ | ⟨hcan₃, m₃, e, hadd₃, h₃, ht₃⟩
  swap
  · -- the third registration fails
    rw [hadd₃]
    refine .inr ⟨fun hr => hcan₃ ⟨hr.repository, ?_⟩, ⟨e, rfl⟩, ?_⟩
    · rw [hfree₃]
      exact hr.free _ (by simp)
    · have hkilled := h₃.destroyPidfd hpid halive (m₂.waitidFailure m₂.nextPtr)
      have hback := hkilled.destroyTransaction (t := m.nextTransaction)
        (by simp [EpollInstance.newEntry])
        (by rw [show _ = m₃.addedIds _ from rfl, ht₃, ht₂, ht₁, ht₀]; rfl)
      rw [hwait₃, hptr₃] at hback ⊢
      exact destroyOwners_generic hback _
  rw [hadd₃]
  dsimp only
  refine .inl ⟨⟨hcan₁.1, hcan₂.1, hcan₃.1, ?_⟩, rfl, _, _, _, _, _, _, ?_, ?_, ?_,
    destroyOwners_generic (h₃.commit m.nextTransaction) _⟩
  · intro id hmem
    have hfree₁ : m₀.currentId ∉ m₀.listeners := by
      have hnot := hcan₁.2
      rw [mem_listeners_iff h₀, hcur₀, not_or] at hnot
      exact hnot.1
    simp only [List.mem_cons, List.not_mem_nil, or_false] at hmem
    rcases hmem with rfl | rfl | rfl
    · exact hfree₁
    · rw [← hfree₂]
      exact hcan₂.2
    · rw [← hfree₃]
      exact hcan₃.2
  · rfl
  · rfl
  · rfl

end Register

/-! ## The whole call -/

section Load

variable {m m' : EpollInstance} {o : Outcomes} {r w a b : NativeHandle} {child : Child}
  {res : Except Exception Unit}

theorem perm_owners {α : Type} (pidfd socketB socketA writeEnd readEnd : α) :
    [pidfd, socketB, socketA, writeEnd, readEnd].Perm
      [writeEnd, readEnd, socketA, pidfd, socketB] := by
  have hends : ([pidfd, socketB, socketA] ++ [writeEnd, readEnd]).Perm
      ([writeEnd, readEnd] ++ ([pidfd, socketB] ++ [socketA])) := List.perm_append_comm
  have hsocket : ([pidfd, socketB] ++ [socketA]).Perm (socketA :: [pidfd, socketB]) :=
    List.perm_append_singleton socketA [pidfd, socketB]
  exact hends.trans (hsocket.append_left [writeEnd, readEnd])

/-- What the call has when it begins the transaction: the descriptors of the read end, the control
socket, the pidfd and the child's socket, in this order, and a child that can be signalled. -/
theorem load_prepares (hb : m.kernel.Bounded) (hpipe : o.pipe = .ok (r, w))
    (hsockets : o.socketpair = .ok (a, b)) (hspawn : o.spawn = .returns child)
    (hload : load m o = some (m', res)) : ∃ k procs ofdP, m.kernel.nextOfd + 3 < ofdP ∧
      procs.pidfdOf ofdP = some child.process ∧ procs.processes child.process ≠ .reaped ∧
        Holding m procs [(r, m.kernel.nextOfd), (a, m.kernel.nextOfd + 2), (child.pidfd, ofdP),
          (b, m.kernel.nextOfd + 3)] [] { m with kernel := k } ∧
            (m', res) = register { m with kernel := k } r a b child.pidfd o := by
  unfold load at hload
  rw [hpipe, hsockets, hspawn, Option.bind_eq_some_iff] at hload
  obtain ⟨⟨k₂, pipe⟩, hmake, hload⟩ := hload
  obtain ⟨rfl, k₁, hr, hw⟩ := makePipe_ok hmake
  simp only [Option.bind_eq_some_iff] at hload
  obtain ⟨⟨k₄, sockets⟩, hmake', hload⟩ := hload
  obtain ⟨rfl, k₃, ha, hb'⟩ := makeSocketPair_ok hmake'
  simp only [Option.map_eq_some_iff] at hload
  obtain ⟨⟨k₅, pidfd⟩, hchild, hload⟩ := hload
  simp only [spawn, Option.ite_none_left_eq_some, Option.map_eq_some_iff, Prod.mk.injEq] at hchild
  obtain ⟨halive, k, hp, rfl, rfl⟩ := hchild
  have hn₁ : k₁.nextOfd = m.kernel.nextOfd + 1 := by rw [(Kernel.openDescriptor_eq_some.1 hr).2]
  have hn₂ : k₂.nextOfd = m.kernel.nextOfd + 2 := by
    rw [(Kernel.openDescriptor_eq_some.1 hw).2, hn₁]
  have hn₃ : k₃.nextOfd = m.kernel.nextOfd + 3 := by
    rw [(Kernel.openDescriptor_eq_some.1 ha).2, hn₂]
  have hn₄ : k₄.nextOfd = m.kernel.nextOfd + 4 := by
    rw [(Kernel.openDescriptor_eq_some.1 hb').2, hn₃]
  have h₂ := ((Holding.refl hb).openDescriptor hr).openDescriptor hw
  have h₄ := (h₂.openDescriptor ha).openDescriptor hb'
  have hused := @Holding.congr _ _ { m with kernel := { k₄ with
    nextOfd := k₄.nextOfd + child.used, elsewhere := child.elsewhere } } _ _ _ h₄ rfl rfl rfl
      (Nat.le_add_right ..)
  have h₅ := hused.openDescriptor hp
  dsimp only at h₅
  rw [hn₁, hn₂, hn₃] at h₅
  -- the write end is closed first, and the child's socket last
  have hready := (h₅.perm (perm_owners ..)).destroyOwner none
  refine ⟨_, _, k₄.nextOfd + child.used, ?_, ?_, ?_, hready, hload.symm⟩
  · rw [hn₄]
    exact (Nat.lt_succ_self _).trans_le (Nat.le_add_right ..)
  · rw [(Kernel.openDescriptor_eq_some.1 hp).2]
    exact Function.update_self ..
  · rw [(Kernel.openDescriptor_eq_some.1 hp).2]
    exact halive

theorem notHeld {m₀ : EpollInstance} {procs : Processes} {added : List Added} {ofd : Ofd}
    (h : Holding m₀ procs [] added m) (hnew : m₀.kernel.nextOfd ≤ ofd)
    (hadded : ∀ x ∈ added, x.ofd ≠ ofd) : NotHeld m ofd := by
  intro fd hlookup
  rcases h.descriptors.lookup_cases hlookup with hmem | hold
  · rw [List.append_nil] at hmem
    obtain ⟨x, hx, heq⟩ := List.mem_map.1 hmem
    exact hadded x hx (congrArg Prod.snd heq)
  · exact absurd (h.bounded.descriptors fd ofd hold) hnew.not_gt

/-- When a listener is left, so are its descriptor and its registration. -/
theorem loaded {m₀ : EpollInstance} {procs : Processes} {added : List Added}
    (h : Holding m₀ procs [] added m) : Loaded m₀ m added := by
  refine ⟨h.listeners, ?_, h.interest⟩
  have hdescriptors := h.descriptors
  rwa [List.append_nil] at hdescriptors

end Load

/-- **Loading a client is all or nothing** in every state that a run reaches, once the pipe and the
sockets have been made and the client has been spawned, if and only if none of the three
registrations fails or the deleter of the pidfd is not interrupted in `waitid`. -/
theorem load_allOrNothing_iff {ok : State → Label → Prop} {ls : List Label} {s : State}
    {o : Outcomes} {r w a b : NativeHandle} {child : Child} {m' : EpollInstance}
    {res : Except Exception Unit} (h : eventLoop.Reach ok ls s) (hpipe : o.pipe = .ok (r, w))
    (hsockets : o.socketpair = .ok (a, b)) (hspawn : o.spawn = .returns child)
    (hload : load s.monitor o = some (m', res)) :
    AllOrNothing s.monitor o r a child m' res ↔
      Registers s.monitor o ∨ s.monitor.waitidFailure (s.monitor.nextPtr + 2) = none := by
  obtain ⟨k, procs, ofdP, hlt, hpid, halive, hhold, heq⟩ :=
    load_prepares (reach_bounded h) hpipe hsockets hspawn hload
  obtain ⟨rfl, rfl⟩ := Prod.ext_iff.1 heq
  rcases register_spec hhold rfl rfl rfl hpid halive o with
    ⟨hreg, hres, e₁, e₂, e₃, events₁, events₂, events₃, h₁, h₂, h₃, hfinal⟩ |
      ⟨hnot, hthrow, hfinal⟩
  · -- the read end, the control socket and the pidfd are held by the listeners, the rest by nobody
    have hheld : ∀ ofd, s.monitor.kernel.nextOfd ≤ ofd → ofd ≠ s.monitor.kernel.nextOfd →
        ofd ≠ s.monitor.kernel.nextOfd + 2 → ofd ≠ ofdP →
          NotHeld (register { s.monitor with kernel := k } r a b child.pidfd o).1 ofd := by
      intro ofd hge h₁ h₂ h₃
      refine notHeld hfinal hge ?_
      simp only [List.forall_mem_cons]
      exact ⟨h₁.symm, h₂.symm, h₃.symm, fun x hx => (List.not_mem_nil hx).elim⟩
    have hne : ∀ n q : ℕ, n + 3 < q → (n + 1 ≠ n ∧ n + 1 ≠ n + 2 ∧ n + 1 ≠ q) ∧
        n + 3 ≠ n ∧ n + 3 ≠ n + 2 ∧ n + 3 ≠ q := by omega
    obtain ⟨hw, hb⟩ := hne _ _ hlt
    refine iff_of_true ⟨fun _ => ⟨hres, ⟨_, _, _, h₁, h₂, h₃, loaded hfinal⟩, ?_, ?_⟩,
      fun hnot => absurd hreg hnot⟩ (.inl hreg)
    · exact hheld _ (Nat.le_add_right ..) hw.1 hw.2.1 hw.2.2
    · exact hheld _ (Nat.le_add_right ..) hb.1 hb.2.1 hb.2.2
  · obtain ⟨hlisteners, hinterest, hdescriptors⟩ := hfinal.restored
    -- the rollback has killed the client, which is reaped if `waitid` is not interrupted
    have hstate : (register { s.monitor with kernel := k } r a b child.pidfd o).1.kernel.processes
        child.process = killedState (s.monitor.waitidFailure (s.monitor.nextPtr + 2)) := by
      rw [show Kernel.processes _ = _ from congrArg Processes.processes hfinal.procs]
      exact Function.update_self ..
    constructor
    · intro hall
      have hreaped := (hall.2 hnot).2.reaped
      rw [hstate] at hreaped
      cases hfailure : s.monitor.waitidFailure (s.monitor.nextPtr + 2) with
      | none => exact .inr rfl
      | some err =>
        rw [hfailure] at hreaped
        cases hreaped
    · intro hor
      have hnone := hor.resolve_left hnot
      rw [hnone] at hstate
      exact ⟨fun hreg => absurd hreg hnot,
        fun _ => ⟨hthrow, hlisteners, hinterest, hdescriptors, hstate⟩⟩

/-- A client that is spawned as process 100 and has the write end and its control socket. -/
def child : Child := ⟨100, 7, 3, fun ofd => if ofd = 1 ∨ ofd = 3 then 1 else 0⟩

/-- The registration of the pidfd fails with the given error, if any. -/
def outcomes (repository : Option Errno) : Outcomes :=
  ⟨.ok (3, 4), .ok (5, 6), .returns child, none, none, repository⟩

/-- The registration of the pidfd fails: everything is as before. -/
theorem load_allOrNothing_iff_fresh : ∃ m' res,
    load State.fresh.monitor (outcomes (some ENOENT)) = some (m', res) ∧
      AllOrNothing State.fresh.monitor (outcomes (some ENOENT)) 3 5 child m' res := by
  have hload : (load State.fresh.monitor (outcomes (some ENOENT))).isSome := by decide
  obtain ⟨⟨m', res⟩, hload⟩ := Option.isSome_iff_exists.1 hload
  have hreach : eventLoop.Reach (fun _ _ => True) [] State.fresh := .init State.fresh_init
  exact ⟨m', res, hload, (load_allOrNothing_iff hreach rfl rfl rfl hload).2 (.inr rfl)⟩

/-- An `epoll_instance` in a process whose calls of `waitid` are interrupted. -/
def interrupted : State :=
  { State.fresh with monitor := { State.fresh.monitor with waitidFailure := fun _ => some EINTR } }

/-- The registration of the pidfd fails and the deleter is interrupted: the child is left behind as
a zombie. -/
theorem load_leaves_zombie : eventLoop.Reach (fun _ _ => True) [] interrupted ∧ ∃ m' res,
    load interrupted.monitor (outcomes (some ENOENT)) = some (m', res) ∧
      m'.kernel.processes 100 = .zombie ∧
        ¬ AllOrNothing interrupted.monitor (outcomes (some ENOENT)) 3 5 child m' res := by
  have hload : (load interrupted.monitor (outcomes (some ENOENT))).map
      (fun r => r.1.kernel.processes 100) = some .zombie := by decide
  obtain ⟨⟨m', res⟩, hload, hzombie⟩ := Option.map_eq_some_iff.1 hload
  obtain ⟨h1, h2, h3, h4, h5, h6, h7, h8, h9, h10⟩ := State.fresh_init
  refine ⟨.init ⟨h1, h2, h3, h4, h5, h6, h7, h8, h9, h10⟩, m', res, hload, hzombie, fun hall => ?_⟩
  have hnot : ¬ Registers interrupted.monitor (outcomes (some ENOENT)) := fun hreg =>
    Option.some_ne_none _ hreg.repository
  have hreaped := (hall.2 hnot).2.reaped
  rw [show m'.kernel.processes child.process = .zombie from hzombie] at hreaped
  cases hreaped

end ThePipe.Host.ClientProcessRepository
