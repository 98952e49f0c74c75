import ThePipe.Lib.Lts
import ThePipe.OsServices.Fd.ActivityStatus
import ThePipe.OsServices.Fd.FileDescriptor
import ThePipe.OsServices.Ipc.Endpoints

/-!
# The server accepts clients

When its socket can be read the handler accepts a connection, and stores it under the value of a
counter.  The counter is never advanced, so that the second connection finds its key taken: `emplace`
does not store it, and its socket is closed.

The server keeps all clients as long as there is at most one of them (`retains_iff`).
-/

set_option autoImplicit false

namespace ThePipe.Host

open OsServices OsServices.ErrorHandling OsServices.Fd OsServices.Ipc Lib

/-! ## The handler -/

structure ServerActivityHandler where
  clients : AList fun _ : BitVec 64 => NativeHandle
  clientId : BitVec 64

namespace ServerActivityHandler

/-- `m_clients.emplace`: a socket that is not stored is destroyed. -/
def emplace (handler : ServerActivityHandler) (k : Kernel) (id : BitVec 64)
    (socket : NativeHandle) : ServerActivityHandler × Kernel :=
  if id ∈ handler.clients then (handler, fileDescriptorDeleter k .generic socket none)
  else ({ handler with clients := handler.clients.insert id socket }, k)

/-- `handle_event`; `result` is what the system call `accept` returns, if it is made. -/
def handleEvent (handler : ServerActivityHandler) (k : Kernel) (status : ActivityStatus)
    (result : Except Errno NativeHandle) :
    Option (ServerActivityHandler × Kernel × Except SystemError Unit) :=
  if status.canRead then
    (accept k result).map fun
      | (k, .error e) => (handler, k, .error e)
      | (k, .ok socket) =>
        let (handler, k) := handler.emplace k handler.clientId socket
        (handler, k, .ok ())
  else some (handler, k, .ok ())

/-! ## Runs -/

structure State where
  handler : ServerActivityHandler
  kernel : Kernel
  /-- The connections that have been accepted, the first one first. -/
  accepted : List (NativeHandle × Ofd)

inductive Label
  /-- An event is delivered. -/
  | event (status : ActivityStatus) (result : Except Errno NativeHandle)
  /-- The program or another process does something with a descriptor that is not of a client. -/
  | kernel (e : KernelStep)

/-- The event lets the handler accept a connection. -/
def Label.Accepts : Label → Prop
  | .event status (.ok _) => status.canRead
  | _ => False

instance : DecidablePred Label.Accepts := fun l => by
  cases l with
  | event status result => cases result <;> unfold Label.Accepts <;> infer_instance
  | kernel e => unfold Label.Accepts; infer_instance

/-- What the event adds to the list of accepted connections. -/
def connection (k : Kernel) : Label → List (NativeHandle × Ofd)
  | .event status (.ok fd) => if status.canRead then [(fd, k.nextOfd)] else []
  | _ => []

def step (s : State) : Label → Option State
  | .event status result =>
    (s.handler.handleEvent s.kernel status result).map fun (handler, k, _) =>
      { handler := handler
        kernel := k
        accepted := s.accepted ++ connection s.kernel (.event status result) }
  | .kernel e =>
    if ∀ l ∈ s.handler.clients.entries, e ≠ .close l.2 then
      (s.kernel.step e).map fun k => { s with kernel := k }
    else none

/-- The runs of a new handler. -/
def serving : Lts State Label where
  init s := s.handler.clients = ∅ ∧ s.handler.clientId = 0 ∧ s.accepted = []
  step := step

/-- What a step does, by cases. -/
inductive Step (s : State) : Label → State → Prop
  | ignored {status : ActivityStatus} {result : Except Errno NativeHandle}
      (hread : ¬ status.canRead) : Step s (.event status result) s
  | fails {status : ActivityStatus} {err : Errno} (hread : status.canRead) :
      Step s (.event status (.error err)) { s with kernel := { s.kernel with errno := err } }
  | accepts {status : ActivityStatus} {fd : NativeHandle} {k : Kernel} (hread : status.canRead)
      (hk : s.kernel.step (.openDescriptor fd none) = some k) :
      Step s (.event status (.ok fd))
        { handler := (s.handler.emplace k s.handler.clientId fd).1
          kernel := (s.handler.emplace k s.handler.clientId fd).2
          accepted := s.accepted ++ [(fd, s.kernel.nextOfd)] }
  | kernel {e : KernelStep} {k : Kernel} (hne : ∀ l ∈ s.handler.clients.entries, e ≠ .close l.2)
      (hk : s.kernel.step e = some k) : Step s (.kernel e) { s with kernel := k }

theorem step_cases {s s' : State} {l : Label} (h : step s l = some s') : Step s l s' := by
  cases l with
  | event status result =>
    simp only [step, handleEvent, Option.map_eq_some_iff] at h
    obtain ⟨⟨handler, k, r⟩, hr, rfl⟩ := h
    split at hr
    · next hread =>
      simp only [Option.map_eq_some_iff] at hr
      obtain ⟨⟨k₁, r₁⟩, hr₁, heq⟩ := hr
      cases r₁ with
      | error e =>
        obtain ⟨err, rfl, rfl, rfl⟩ := accept_error hr₁
        cases heq
        have hnone : connection s.kernel (.event status (.error err)) = [] := rfl
        rw [hnone, List.append_nil]
        exact .fails hread
      | ok fd =>
        obtain ⟨rfl, hk₁⟩ := accept_ok hr₁
        cases heq
        simpa [connection, hread] using Step.accepts (s := s) hread hk₁
    · next hread =>
      cases hr
      have hnone : connection s.kernel (.event status result) = [] := by
        cases result <;> simp [connection, hread]
      rw [hnone, List.append_nil]
      exact .ignored hread
  | kernel e =>
    simp only [step, Option.ite_none_right_eq_some, Option.map_eq_some_iff] at h
    obtain ⟨hne, k, hk, rfl⟩ := h
    exact .kernel hne hk

/-! ## What is kept -/

/-- Every connection that has been accepted is stored under an id of its own, and is open. -/
structure Retains (s : State) : Prop where
  stored : (s.handler.clients.entries.map fun l => l.2).Perm (s.accepted.map Prod.fst)
  kept : ∀ c ∈ s.accepted, s.kernel.descriptors.lookup c.1 = some c.2

/-- How many of the events let the handler accept a connection. -/
def acceptCount (ls : List Label) : ℕ := ls.countP fun l => l.Accepts

theorem acceptCount_concat (ls : List Label) (l : Label) :
    acceptCount (ls ++ [l]) = acceptCount ls + if l.Accepts then 1 else 0 := by
  simp [acceptCount, List.countP_singleton]

/-- The server has nothing but its first client, if there has been one. -/
structure KeepsFirst (ls : List Label) (s : State) : Prop where
  clientId : s.handler.clientId = 0
  clients : s.handler.clients.entries = s.accepted.head?.toList.map fun c => ⟨0, c.1⟩
  opened : ∀ c ∈ s.accepted.head?, s.kernel.descriptors.lookup c.1 = some c.2
  count : s.accepted.length = acceptCount ls

section Steps

variable {ls : List Label} {s s' : State} {l : Label}

/-- An event that is not readable, or whose `accept` throws, changes nothing. -/
theorem step_of_not_accepts (hs : step s l = some s') (hl : ¬ l.Accepts) :
    s'.handler = s.handler ∧ s'.accepted = s.accepted := by
  cases step_cases hs with
  | ignored hread => exact ⟨rfl, rfl⟩
  | fails hread => exact ⟨rfl, rfl⟩
  | accepts hread hk => exact absurd hread hl
  | kernel hne hk => exact ⟨rfl, rfl⟩

theorem KeepsFirst.mem_clients (h : KeepsFirst ls s) :
    s.handler.clientId ∈ s.handler.clients ↔ s.accepted ≠ [] := by
  rw [h.clientId, AList.mem_keys, AList.keys, List.keys, h.clients]
  cases s.accepted <;> simp

theorem KeepsFirst.accepts {status : ActivityStatus} {fd : NativeHandle} {k : Kernel}
    (h : KeepsFirst ls s) (hread : status.canRead)
    (hk : s.kernel.step (.openDescriptor fd none) = some k) :
    KeepsFirst (ls ++ [.event status (.ok fd)])
      { handler := (s.handler.emplace k s.handler.clientId fd).1
        kernel := (s.handler.emplace k s.handler.clientId fd).2
        accepted := s.accepted ++ [(fd, s.kernel.nextOfd)] } := by
  obtain ⟨⟨-, hfree⟩, hk'⟩ := Kernel.openDescriptor_eq_some.1 hk
  have hl : (Label.event status (.ok fd)).Accepts := hread
  have hcount : (s.accepted ++ [(fd, s.kernel.nextOfd)]).length =
      acceptCount (ls ++ [.event status (.ok fd)]) := by
    rw [acceptCount_concat, if_pos hl, List.length_append, h.count]
    rfl
  have hmem := h.mem_clients
  have hclients := h.clients
  unfold emplace
  cases haccepted : s.accepted with
  | nil =>
    rw [haccepted] at hmem hcount hclients
    rw [if_neg (by simp [hmem])]
    refine ⟨h.clientId, ?_, ?_, hcount⟩
    · have hempty : s.handler.clients = ∅ := AList.ext hclients
      simp [hempty, h.clientId, AList.insert_of_notMem]
    · intro c hc
      obtain rfl : (fd, s.kernel.nextOfd) = c := by simpa using hc
      rw [hk']
      exact AList.lookup_insert _
  | cons c cs =>
    rw [haccepted] at hmem hcount hclients
    rw [if_pos (by simp [hmem])]
    refine ⟨h.clientId, hclients, ?_, hcount⟩
    intro c' hc'
    obtain rfl : c = c' := by simpa using hc'
    have hopen := h.opened c (by simp [haccepted])
    have hmem' : c.1 ∈ s.kernel.descriptors := by
      rw [← AList.lookup_isSome, hopen]
      rfl
    have hne : c.1 ≠ fd := by
      rintro rfl
      exact hfree hmem'
    -- the second socket is closed, not the first one
    rw [(fileDescriptorDeleter_keeps hne).lookup, (Kernel.step_keeps hk hmem' nofun).lookup, hopen]

theorem KeepsFirst.step (h : KeepsFirst ls s) (hs : step s l = some s') :
    KeepsFirst (ls ++ [l]) s' := by
  have hcount (hl : ¬ l.Accepts) : s.accepted.length = acceptCount (ls ++ [l]) := by
    rw [acceptCount_concat, if_neg hl, h.count]
    rfl
  cases step_cases hs with
  | @ignored status result hread =>
    refine ⟨h.clientId, h.clients, h.opened, hcount ?_⟩
    cases result with
    | error err => exact id
    | ok fd => exact hread
  | fails hread => exact ⟨h.clientId, h.clients, h.opened, hcount id⟩
  | accepts hread hk => exact h.accepts hread hk
  | kernel hne hk =>
    refine ⟨h.clientId, h.clients, ?_, hcount id⟩
    intro c hc
    have hopen := h.opened c hc
    have hclient : (⟨0, c.1⟩ : Sigma fun _ : BitVec 64 => NativeHandle) ∈
        s.handler.clients.entries := by
      rw [h.clients]
      simp only [List.mem_map, Option.mem_toList]
      exact ⟨c, hc, rfl⟩
    have hmem : c.1 ∈ s.kernel.descriptors := by
      rw [← AList.lookup_isSome, hopen]
      rfl
    show _ = _
    rw [(Kernel.step_keeps hk hmem (hne _ hclient)).lookup, hopen]

end Steps

theorem reach_keepsFirst {ok : State → Label → Prop} {ls : List Label} {s : State}
    (h : serving.Reach ok ls s) : KeepsFirst ls s := by
  refine h.invariant ?_ ?_
  · rintro s ⟨hclients, hid, haccepted⟩
    refine ⟨hid, ?_, ?_, ?_⟩
    · rw [hclients, haccepted]
      rfl
    · rw [haccepted]
      exact nofun
    · rw [haccepted]
      rfl
  · intro ls s l s' _ hkeeps _ hs
    exact hkeeps.step hs

/-- The server keeps all clients that it has accepted exactly when there is at most one.  The other
events change nothing in any case. -/
theorem retains_iff {ok : State → Label → Prop} {ls : List Label} {s : State}
    (h : serving.Reach ok ls s) :
    (Retains s ↔ acceptCount ls ≤ 1) ∧
      ∀ l s', step s l = some s' → ¬ l.Accepts →
        s'.handler.clients = s.handler.clients ∧ s'.handler.clientId = s.handler.clientId := by
  have hkeeps := reach_keepsFirst h
  refine ⟨?_, ?_⟩
  · rw [← hkeeps.count]
    constructor
    · intro hretains
      have hlength := hretains.stored.length_eq
      rw [hkeeps.clients] at hlength
      cases haccepted : s.accepted with
      | nil => simp
      | cons c cs => simpa [haccepted] using hlength.symm.le
    · intro hle
      have hclients := hkeeps.clients
      have hopened := hkeeps.opened
      match haccepted : s.accepted with
      | [] =>
        rw [haccepted] at hclients
        refine ⟨by simp [hclients, haccepted], by simp [haccepted]⟩
      | [c] =>
        rw [haccepted] at hclients hopened
        refine ⟨by simp [hclients, haccepted], ?_⟩
        simpa [haccepted] using hopened
      | _ :: _ :: _ => simp [haccepted] at hle
  · intro l s' hs hl
    obtain ⟨hhandler, -⟩ := step_of_not_accepts hs hl
    rw [hhandler]
    exact ⟨rfl, rfl⟩

/-- A server that has just been started, whose socket is 3. -/
def started : State where
  handler := { clients := ∅, clientId := 0 }
  kernel :=
    { descriptors := AList.singleton 3 0
      elsewhere := fun _ => 0
      nextOfd := 1
      pidfdOf := fun _ => none
      processes := fun _ => .running
      interest := fun _ => none
      errno := 0 }
  accepted := []

theorem started_init : serving.init started := ⟨rfl, rfl, rfl⟩

/-- An event that is not readable, one whose `accept` throws, and a client. -/
theorem retains_one_client : ∃ s, serving.Reach (fun _ _ => True)
    [.event .write (.ok 4), .event .read (.error EAGAIN), .event .read (.ok 4)] s ∧
      Retains s := by
  have hrun : (serving.run (fun _ _ => True) started
      [.event .write (.ok 4), .event .read (.error EAGAIN), .event .read (.ok 4)]).map
        (fun s => s.accepted) = some [(4, 1)] := by decide
  obtain ⟨s, hs, -⟩ := Lts.Reach.exists_of_map_run started_init hrun
  exact ⟨s, hs, (retains_iff hs).1.2 (by decide)⟩

/-- The second client is accepted, and its socket is closed. -/
theorem second_client_is_closed : ∃ s, serving.Reach (fun _ _ => True)
    [.event .read (.ok 4), .event .read (.ok 5)] s ∧ s.accepted = [(4, 1), (5, 2)] ∧
      5 ∉ s.kernel.descriptors ∧ ¬ Retains s := by
  have hrun : (serving.run (fun _ _ => True) started
      [.event .read (.ok 4), .event .read (.ok 5)]).map
        (fun s => (s.accepted, decide (5 ∈ s.kernel.descriptors))) =
          some ([(4, 1), (5, 2)], false) := by decide
  obtain ⟨s, hs, hlast⟩ := Lts.Reach.exists_of_map_run started_init hrun
  simp only [Prod.mk.injEq, decide_eq_false_iff_not] at hlast
  refine ⟨s, hs, hlast.1, hlast.2, fun hretains => ?_⟩
  have hopen := hretains.kept (5, 2) (by simp [hlast.1])
  exact hlast.2 (AList.lookup_isSome.1 (by rw [hopen]; rfl))

end ServerActivityHandler

end ThePipe.Host
