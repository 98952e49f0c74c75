import ThePipe.OsServices.Fd.FileDescriptor
import ThePipe.OsServices.Ipc.Endpoints

/-!
# Who closes the descriptors of a new endpoint

`make_server_socket` and `make_connection` open a socket, release it from its owner, and hand it to
a function that makes further system calls.  When one of these fails, an exception passes an owner
that is empty, and the socket stays open.  Everywhere else the descriptors that were opened have
owners when the function returns, and are closed when it throws (`accountsFor_iff`).
-/

set_option autoImplicit false

namespace ThePipe.OsServices

open ErrorHandling Fd

/-- A system call that opens nothing, such as `bind`; `failure` is the error it reports, if any. -/
def Kernel.status (k : Kernel) : Option Errno → Kernel × ℤ
  | none => (k, 0)
  | some err => ({ k with errno := err }, -1)

namespace Ipc

/-- `unique_ptr::release`: the descriptor, and what is left in the owner. -/
def release (owner : NativeHandle) : NativeHandle × NativeHandle := (owner, -1)

def makeSocket (k : Kernel) (result : Except Errno NativeHandle) :
    Option (Kernel × Except SystemError NativeHandle) :=
  (k.newDescriptor result).map fun (k, ret) =>
    if ret = -1 then (k, .error ⟨"Failed to create a socket", k.errno⟩)
    else (k, .ok ret)

def bindAndListen (k : Kernel) (socket : NativeHandle) (bindFailure listenFailure : Option Errno) :
    Kernel × Except SystemError NativeHandle :=
  let (k, bindResult) := k.status bindFailure
  if bindResult = -1 then (k, .error ⟨"Failed to bind socket", k.errno⟩)
  else
    let (k, listenResult) := k.status listenFailure
    if listenResult = -1 then (k, .error ⟨"Failed to enable listening on socket", k.errno⟩)
    else (k, .ok socket)

def connect (k : Kernel) (socket : NativeHandle) (failure : Option Errno) :
    Kernel × Except SystemError NativeHandle :=
  let (k, result) := k.status failure
  if result = -1 then (k, .error ⟨"Failed to connect socket", k.errno⟩) else (k, .ok socket)

/-- Gives the socket to `func` once its owner has released it.  The owner is destroyed at the end
of the scope, which an exception also leaves. -/
def withReleased (func : Kernel → NativeHandle → Kernel × Except SystemError NativeHandle) :
    Kernel × Except SystemError NativeHandle → Kernel × Except SystemError NativeHandle
  | (k, .error e) => (k, .error e)
  | (k, .ok owner) =>
    let (socket, owner) := release owner
    let (k, ref) := func k socket
    (fileDescriptorDeleter k .generic owner none, ref)

def makeServerSocket (k : Kernel) (result : Except Errno NativeHandle)
    (bindFailure listenFailure : Option Errno) :
    Option (Kernel × Except SystemError NativeHandle) :=
  (makeSocket k result).map
    (withReleased fun k socket => bindAndListen k socket bindFailure listenFailure)

def makeConnection (k : Kernel) (result : Except Errno NativeHandle) (failure : Option Errno) :
    Option (Kernel × Except SystemError NativeHandle) :=
  (makeSocket k result).map (withReleased fun k socket => connect k socket failure)

/-! ## Creating an endpoint -/

/-- A call that creates an endpoint, with the results of its system calls. -/
inductive Creation
  | serverSocket (socket : Except Errno NativeHandle) (bind listen : Option Errno)
  | connection (socket : Except Errno NativeHandle) (connect : Option Errno)
  | accept (result : Except Errno NativeHandle)
  | pipe (fds : Except Errno (NativeHandle × NativeHandle))
  | socketPair (fds : Except Errno (NativeHandle × NativeHandle))

namespace Creation

/-- Makes the call: the descriptors that the returned object owns, or the exception. -/
def run (k : Kernel) : Creation → Option (Kernel × Except SystemError (List NativeHandle))
  | serverSocket socket bind listen =>
    (makeServerSocket k socket bind listen).map fun (k, res) => (k, res.map ([·]))
  | connection socket failure =>
    (makeConnection k socket failure).map fun (k, res) => (k, res.map ([·]))
  | accept result => (Ipc.accept k result).map fun (k, res) => (k, res.map ([·]))
  | pipe fds =>
    (makePipe k fds).map fun (k, res) => (k, res.map fun p => [p.readEnd, p.writeEnd])
  | socketPair fds =>
    (makeSocketPair k fds).map fun (k, res) => (k, res.map fun p => [p.socketA, p.socketB])

/-- The descriptors that the system calls have opened. -/
def opened : Creation → List NativeHandle
  | serverSocket (.ok fd) _ _ | connection (.ok fd) _ | accept (.ok fd) => [fd]
  | pipe (.ok (fd₀, fd₁)) | socketPair (.ok (fd₀, fd₁)) => [fd₀, fd₁]
  | serverSocket (.error _) _ _ | connection (.error _) _ | accept (.error _)
  | pipe (.error _) | socketPair (.error _) => []

/-- There is a socket, but what it is to be used for fails. -/
def FailsWithSocket : Creation → Prop
  | serverSocket (.ok _) bind listen => bind.isSome ∨ listen.isSome
  | connection (.ok _) connect => connect.isSome
  | _ => False

instance : DecidablePred FailsWithSocket := fun c => by
  unfold FailsWithSocket; split <;> infer_instance

/-- Every descriptor that was opened has an owner or has been closed, and the other descriptors of
the process are what they were. -/
structure AccountsFor (c : Creation) (k k' : Kernel)
    (res : Except SystemError (List NativeHandle)) : Prop where
  owned : ∀ owners, res = .ok owners → owners = c.opened ∧ ∀ fd ∈ owners, fd ∈ k'.descriptors
  closed : ∀ e, res = .error e → ∀ fd ∈ c.opened, fd ∉ k'.descriptors
  others : ∀ fd ∉ c.opened, k'.descriptors.lookup fd = k.descriptors.lookup fd

end Creation

/-! ## What a system call opens -/

/-- The descriptors are open, and nothing else has changed in the descriptor table. -/
structure Opens (k : Kernel) (fds : List NativeHandle) (k' : Kernel) : Prop where
  opened : ∀ fd ∈ fds, fd ∈ k'.descriptors
  others : ∀ fd ∉ fds, k'.descriptors.lookup fd = k.descriptors.lookup fd

theorem Opens.of_eq {k k' k'' : Kernel} {fds : List NativeHandle} (h : Opens k fds k')
    (hd : k''.descriptors = k'.descriptors) : Opens k fds k'' := by
  constructor
  · intro fd hfd
    rw [hd]
    exact h.opened fd hfd
  · intro fd hfd
    rw [hd]
    exact h.others fd hfd

theorem Opens.append {k k' k'' : Kernel} {fds fds' : List NativeHandle} (h : Opens k fds k')
    (h' : Opens k' fds' k'') : Opens k (fds ++ fds') k'' := by
  constructor
  · intro fd hfd
    by_cases hfd' : fd ∈ fds'
    · exact h'.opened fd hfd'
    · have hbefore := h.opened fd ((List.mem_append.1 hfd).resolve_right hfd')
      rw [← AList.lookup_isSome] at hbefore ⊢
      rwa [h'.others fd hfd']
  · intro fd hfd
    rw [List.mem_append, not_or] at hfd
    exact (h'.others fd hfd.2).trans (h.others fd hfd.1)

theorem opens_openDescriptor {k k' : Kernel} {fd : NativeHandle} {process : Option Pid}
    (h : k.step (.openDescriptor fd process) = some k') : 0 ≤ fd ∧ Opens k [fd] k' := by
  obtain ⟨⟨hfd, -⟩, rfl⟩ := Kernel.openDescriptor_eq_some.1 h
  refine ⟨hfd, fun fd' hfd' => ?_, fun fd' hfd' => ?_⟩
  · rw [List.mem_singleton.1 hfd']
    exact (AList.mem_insert _).2 (.inl rfl)
  · exact AList.lookup_insert_ne (by simpa using hfd')

/-- What a function that creates one descriptor does with the result of its system call. -/
theorem newDescriptor_cases {k k₁ k' : Kernel} {result : Except Errno NativeHandle} {ret : ℤ}
    {message : String} {res : Except SystemError NativeHandle}
    (h : k.newDescriptor result = some (k₁, ret))
    (heq : (if ret = -1 then (k₁, .error ⟨message, k₁.errno⟩) else (k₁, .ok ret)) = (k', res)) :
    (∃ fd, result = .ok fd ∧ res = .ok fd ∧ Opens k [fd] k') ∨
      ∃ err e, result = .error err ∧ res = .error e ∧ k'.descriptors = k.descriptors := by
  cases result with
  | error err =>
    cases h
    cases heq
    exact .inr ⟨err, _, rfl, rfl, rfl⟩
  | ok fd =>
    obtain ⟨k₂, hopen, hret⟩ := Option.map_eq_some_iff.1 h
    obtain ⟨rfl, rfl⟩ := Prod.mk.inj hret
    obtain ⟨hfd, hopens⟩ := opens_openDescriptor hopen
    have hne : fd ≠ -1 := by
      rintro rfl
      exact absurd hfd (by decide)
    rw [if_neg hne] at heq
    cases heq
    exact .inl ⟨fd, rfl, rfl, hopens⟩

theorem accept_cases {k k' : Kernel} {result : Except Errno NativeHandle}
    {res : Except SystemError NativeHandle} (h : accept k result = some (k', res)) :
    (∃ fd, result = .ok fd ∧ res = .ok fd ∧ Opens k [fd] k') ∨
      ∃ err e, result = .error err ∧ res = .error e ∧ k'.descriptors = k.descriptors := by
  obtain ⟨⟨k₁, ret⟩, hnew, heq⟩ := Option.map_eq_some_iff.1 h
  exact newDescriptor_cases hnew heq

theorem makeSocket_cases {k k' : Kernel} {result : Except Errno NativeHandle}
    {res : Except SystemError NativeHandle} (h : makeSocket k result = some (k', res)) :
    (∃ fd, result = .ok fd ∧ res = .ok fd ∧ Opens k [fd] k') ∨
      ∃ err e, result = .error err ∧ res = .error e ∧ k'.descriptors = k.descriptors := by
  obtain ⟨⟨k₁, ret⟩, hnew, heq⟩ := Option.map_eq_some_iff.1 h
  exact newDescriptor_cases hnew heq

/-! ## Handing over the socket -/

/-- The call uses the socket, and does not touch the descriptor table. -/
def UsesSocket (fails : Prop)
    (func : Kernel → NativeHandle → Kernel × Except SystemError NativeHandle) : Prop :=
  ∀ k socket, (func k socket).1.descriptors = k.descriptors ∧
    (¬ fails → (func k socket).2 = .ok socket) ∧ (fails → ∃ e, (func k socket).2 = .error e)

theorem usesSocket_connect (failure : Option Errno) :
    UsesSocket failure.isSome fun k socket => connect k socket failure := by
  intro k socket
  cases failure <;> simp [connect, Kernel.status]

theorem usesSocket_bindAndListen (bindFailure listenFailure : Option Errno) :
    UsesSocket (bindFailure.isSome ∨ listenFailure.isSome)
      fun k socket => bindAndListen k socket bindFailure listenFailure := by
  intro k socket
  cases bindFailure with
  | some err => simp [bindAndListen, Kernel.status]
  | none => cases listenFailure <;> simp [bindAndListen, Kernel.status]

/-- When the call fails, the socket is open and nobody owns it. -/
theorem withReleased_cases {fails : Prop}
    {func : Kernel → NativeHandle → Kernel × Except SystemError NativeHandle}
    (hfunc : UsesSocket fails func) {k k' : Kernel} {result : Except Errno NativeHandle}
    {res : Except SystemError NativeHandle}
    (h : (makeSocket k result).map (withReleased func) = some (k', res)) :
    (∃ fd, result = .ok fd ∧ Opens k [fd] k' ∧
        (¬ fails → res = .ok fd) ∧ (fails → ∃ e, res = .error e)) ∨
      ∃ err e, result = .error err ∧ res = .error e ∧ k'.descriptors = k.descriptors := by
  obtain ⟨⟨k₁, owner⟩, hsocket, heq⟩ := Option.map_eq_some_iff.1 h
  rcases makeSocket_cases hsocket with ⟨fd, rfl, rfl, hopens⟩ | ⟨err, e, rfl, rfl, hd⟩
  · obtain ⟨hdescriptors, hok, hfails⟩ := hfunc k₁ fd
    cases heq
    exact .inl ⟨fd, rfl, hopens.of_eq hdescriptors, hok, hfails⟩
  · cases heq
    exact .inr ⟨err, e, rfl, rfl, hd⟩

namespace Creation

/-- How a call that creates an endpoint comes out. -/
inductive Outcome (c : Creation) (k k' : Kernel) :
    Except SystemError (List NativeHandle) → Prop
  | owned : ¬ c.FailsWithSocket → Opens k c.opened k' → Outcome c k k' (.ok c.opened)
  | nothing {e : SystemError} : ¬ c.FailsWithSocket → c.opened = [] →
      k'.descriptors = k.descriptors → Outcome c k k' (.error e)
  | abandoned {e : SystemError} : c.FailsWithSocket → c.opened ≠ [] → Opens k c.opened k' →
      Outcome c k k' (.error e)

variable {k k' : Kernel} {res : Except SystemError (List NativeHandle)}

theorem outcome_of_socket {c : Creation} {fails : Prop}
    {func : Kernel → NativeHandle → Kernel × Except SystemError NativeHandle}
    (hfunc : UsesSocket fails func) {result : Except Errno NativeHandle}
    {res : Except SystemError NativeHandle}
    (hcall : (makeSocket k result).map (withReleased func) = some (k', res))
    (hok : ∀ fd, result = .ok fd → c.opened = [fd] ∧ (c.FailsWithSocket ↔ fails))
    (herror : ∀ err, result = .error err → c.opened = [] ∧ ¬ c.FailsWithSocket) :
    c.Outcome k k' (res.map ([·])) := by
  rcases withReleased_cases hfunc hcall with ⟨fd, hresult, hopens, hreturns, hthrows⟩ |
    ⟨err, e, hresult, rfl, hd⟩
  · obtain ⟨hopened, hfails⟩ := hok fd hresult
    rw [← hopened] at hopens
    by_cases hf : fails
    · obtain ⟨e, rfl⟩ := hthrows hf
      refine .abandoned (hfails.2 hf) ?_ hopens
      rw [hopened]
      exact List.cons_ne_nil fd []
    · have howned := Outcome.owned (mt hfails.1 hf) hopens
      rw [hopened] at howned
      rw [hreturns hf]
      exact howned
  · obtain ⟨hopened, hfails⟩ := herror err hresult
    exact .nothing hfails hopened hd

theorem outcome_serverSocket {result : Except Errno NativeHandle} {bind listen : Option Errno}
    (h : (serverSocket result bind listen).run k = some (k', res)) :
    (serverSocket result bind listen).Outcome k k' res := by
  obtain ⟨⟨k₁, res₁⟩, hcall, heq⟩ := Option.map_eq_some_iff.1 h
  cases heq
  refine outcome_of_socket (usesSocket_bindAndListen bind listen) hcall ?_ ?_
  · rintro fd rfl
    exact ⟨rfl, Iff.rfl⟩
  · rintro err rfl
    exact ⟨rfl, id⟩

theorem outcome_connection {result : Except Errno NativeHandle} {failure : Option Errno}
    (h : (connection result failure).run k = some (k', res)) :
    (connection result failure).Outcome k k' res := by
  obtain ⟨⟨k₁, res₁⟩, hcall, heq⟩ := Option.map_eq_some_iff.1 h
  cases heq
  refine outcome_of_socket (usesSocket_connect failure) hcall ?_ ?_
  · rintro fd rfl
    exact ⟨rfl, Iff.rfl⟩
  · rintro err rfl
    exact ⟨rfl, id⟩

theorem outcome_accept {result : Except Errno NativeHandle}
    (h : (Creation.accept result).run k = some (k', res)) :
    (Creation.accept result).Outcome k k' res := by
  obtain ⟨⟨k₁, res₁⟩, hcall, heq⟩ := Option.map_eq_some_iff.1 h
  cases heq
  rcases accept_cases hcall with ⟨fd, rfl, rfl, hopens⟩ | ⟨err, e, rfl, rfl, hd⟩
  · exact .owned id hopens
  · exact .nothing id rfl hd

theorem opens_newDescriptors {fd₀ fd₁ : NativeHandle} {ret : ℤ × NativeHandle × NativeHandle}
    (h : k.newDescriptors (.ok (fd₀, fd₁)) = some (k', ret)) :
    ret = (0, fd₀, fd₁) ∧ Opens k [fd₀, fd₁] k' := by
  obtain ⟨rfl, k₁, h₀, h₁⟩ := newDescriptors_ok h
  exact ⟨rfl, (opens_openDescriptor h₀).2.append (opens_openDescriptor h₁).2⟩

theorem outcome_pipe {fds : Except Errno (NativeHandle × NativeHandle)}
    (h : (pipe fds).run k = some (k', res)) : (pipe fds).Outcome k k' res := by
  obtain ⟨⟨k₁, res₁⟩, hcall, heq⟩ := Option.map_eq_some_iff.1 h
  obtain ⟨⟨k₂, ret⟩, hnew, heq₁⟩ := Option.map_eq_some_iff.1 hcall
  cases fds with
  | error err =>
    cases hnew
    cases heq₁
    cases heq
    exact .nothing id rfl rfl
  | ok fds =>
    obtain ⟨rfl, hopens⟩ := opens_newDescriptors hnew
    cases heq₁
    cases heq
    exact .owned id hopens

theorem outcome_socketPair {fds : Except Errno (NativeHandle × NativeHandle)}
    (h : (socketPair fds).run k = some (k', res)) : (socketPair fds).Outcome k k' res := by
  obtain ⟨⟨k₁, res₁⟩, hcall, heq⟩ := Option.map_eq_some_iff.1 h
  obtain ⟨⟨k₂, ret⟩, hnew, heq₁⟩ := Option.map_eq_some_iff.1 hcall
  cases fds with
  | error err =>
    cases hnew
    cases heq₁
    cases heq
    exact .nothing id rfl rfl
  | ok fds =>
    obtain ⟨rfl, hopens⟩ := opens_newDescriptors hnew
    cases heq₁
    cases heq
    exact .owned id hopens

theorem run_outcome {c : Creation} (h : c.run k = some (k', res)) : c.Outcome k k' res := by
  cases c with
  | serverSocket => exact outcome_serverSocket h
  | connection => exact outcome_connection h
  | accept => exact outcome_accept h
  | pipe => exact outcome_pipe h
  | socketPair => exact outcome_socketPair h

/-- **Creating an endpoint accounts for every descriptor** unless there is a socket and what it is
to be used for fails. -/
theorem accountsFor_iff {c : Creation} (h : c.run k = some (k', res)) :
    c.AccountsFor k k' res ↔ ¬ c.FailsWithSocket := by
  cases run_outcome h with
  | owned hc hopens =>
    refine iff_of_true ⟨fun owners ho => ?_, fun e he => (nomatch he), hopens.others⟩ hc
    cases ho
    exact ⟨rfl, hopens.opened⟩
  | nothing hc hnil hd =>
    refine iff_of_true ⟨fun owners ho => (nomatch ho), fun e _ fd hfd => ?_, fun fd _ => ?_⟩ hc
    · simp [hnil] at hfd
    · rw [hd]
  | abandoned hc hne hopens =>
    refine iff_of_false (fun haccounts => ?_) (not_not_intro hc)
    obtain ⟨fd, hfd⟩ := List.exists_mem_of_ne_nil _ hne
    exact haccounts.closed _ rfl fd hfd (hopens.opened fd hfd)

/-- A process with its three standard streams. -/
def streams : Kernel where
  descriptors := ((AList.singleton 2 2).insert 1 1).insert 0 0
  elsewhere := fun _ => 0
  nextOfd := 3
  pidfdOf := fun _ => none
  processes := fun _ => .running
  interest := fun _ => none
  errno := 0

/-- A pipe has both descriptors, and the socket of a refused connection stays open. -/
theorem accountsFor_iff_example :
    (∃ k', (pipe (.ok (3, 4))).AccountsFor streams k' (.ok [3, 4])) ∧
      ∃ k' e, ¬ (connection (.ok 3) (some 111)).AccountsFor streams k' (.error e) ∧
        3 ∈ k'.descriptors :=
  ⟨⟨_, (accountsFor_iff (c := pipe (.ok (3, 4))) rfl).2 id⟩, _, _,
    mt (accountsFor_iff (c := connection (.ok 3) (some 111)) rfl).1 (not_not_intro rfl), by decide⟩

/-- `bind` fails, for instance since the address is in use. -/
theorem bind_failure_leaks_socket :
    ¬ ∀ (c : Creation) (k k' : Kernel) (res : Except SystemError (List NativeHandle)),
      c.run k = some (k', res) → c.AccountsFor k k' res := by
  intro h
  have haccounts := h (serverSocket (.ok 3) (some 98) none) streams _ _ rfl
  exact absurd (haccounts.closed _ rfl 3 (by decide)) (by decide)

end Creation

end Ipc

end ThePipe.OsServices
