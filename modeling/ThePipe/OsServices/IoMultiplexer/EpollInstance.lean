import ThePipe.OsServices.Fd.ActivityStatus
import ThePipe.OsServices.Fd.FileDescriptor

/-!
# The epoll instance

The listeners of an `epoll_instance`, its counter of ids and the transactions on it, together with
the kernel.  What a handler does is decided by the environment, so an entry holds its descriptor and
its id; the pointer that the kernel hands back identifies it.
-/

set_option autoImplicit false

namespace ThePipe.OsServices.IoMultiplexer

open ErrorHandling Fd

def EPOLLIN : BitVec 32 := 0x1
def EPOLLOUT : BitVec 32 := 0x4

/-- What the functions of the event loop throw. -/
inductive Exception
  | runtimeError (what : String)
  | systemError (e : SystemError)
  deriving DecidableEq

def toEpollEvent (status : ActivityStatus) : Except Exception (BitVec 32) :=
  if status = .none then .ok 0
  else if status = .read then .ok EPOLLIN
  else if status = .write then .ok EPOLLOUT
  else if status = .readOrWrite then .ok (EPOLLIN ||| EPOLLOUT)
  else .error (.runtimeError "Bad activity status")

def epollEventToActivityStatus (event : BitVec 32) : ActivityStatus :=
  if event &&& EPOLLIN ≠ 0 ∧ event &&& EPOLLOUT ≠ 0 then .readOrWrite
  else if event &&& EPOLLIN ≠ 0 then .read
  else if event &&& EPOLLOUT ≠ 0 then .write
  else .none

/-- The four enumerators are what `to_epoll_event` accepts. -/
theorem toEpollEvent_isOk {status : ActivityStatus} :
    (∃ events, toEpollEvent status = .ok events) ↔ status.IsEnumerator := by
  unfold toEpollEvent ActivityStatus.IsEnumerator
  split_ifs <;> simp [*]

/-- `epoll_entry_data_impl` -/
structure Entry where
  ptr : Ptr
  fd : NativeHandle
  tag : FileDescriptorTag
  id : EventHandlerId
  deriving DecidableEq

/-- A `config_transaction` on the instance, in the order in which they were made. -/
abbrev Transaction := ℕ

/-- An `epoll_instance`, the kernel and the transactions on the instance. -/
structure EpollInstance where
  kernel : Kernel
  listeners : AList fun _ : EventHandlerId => Entry
  currentId : EventHandlerId
  /-- The ids that a transaction has added; `none` when it does not exist. -/
  addedIds : Transaction → Option (List EventHandlerId)
  nextTransaction : Transaction
  nextPtr : Ptr
  /-- The error that `waitid` reports when the owner of an entry's descriptor waits for a
  process. -/
  waitidFailure : Ptr → Option Errno

namespace EpollInstance

variable (m : EpollInstance)

/-- The object that the pointer points at, if it exists. -/
def entryAt (p : Ptr) : Option Entry :=
  (m.listeners.entries.find? fun l => l.2.ptr = p).map (·.2)

/-- An entry owns the descriptor. -/
def Owns (fd : NativeHandle) : Prop := ∃ l ∈ m.listeners.entries, l.2.fd = fd

instance : DecidablePred m.Owns := fun fd => by unfold Owns; infer_instance

/-- The destructor of an entry, which destroys the owner of its descriptor. -/
def destroy (entry : Entry) : EpollInstance :=
  { m with kernel := fileDescriptorDeleter m.kernel entry.tag entry.fd (m.waitidFailure entry.ptr) }

/-- `m_listeners.erase` -/
def erase (id : EventHandlerId) : EpollInstance :=
  match m.listeners.lookup id with
  | none => m
  | some entry => { m with listeners := m.listeners.erase id }.destroy entry

/-- The entry that the next `add` makes. -/
def newEntry (fd : NativeHandle) (tag : FileDescriptorTag) : Entry :=
  ⟨m.nextPtr, fd, tag, m.currentId.next.1⟩

/-- The counters after an entry has been made. -/
def advance : EpollInstance :=
  { m with currentId := m.currentId.next.2, nextPtr := m.nextPtr + 1 }

/-- `epoll_instance::add`; `failure` is the error that `epoll_ctl` reports, if any. -/
def add (fd : NativeHandle) (tag : FileDescriptorTag) (initialListenStatus : ActivityStatus)
    (failure : Option Errno) : EpollInstance × Except Exception EventHandlerId :=
  let entry := m.newEntry fd tag
  let m := m.advance
  if entry.id ∈ m.listeners then
    (m.destroy entry, .error (.runtimeError "File descriptor already added"))
  else
    let m := { m with listeners := m.listeners.insert entry.id entry }
    match toEpollEvent initialListenStatus with
    | .error e => (m, .error e)
    | .ok events =>
      let (kernel, res) := m.kernel.epollCtlAdd fd ⟨events, entry.ptr⟩ failure
      let m := { m with kernel := kernel }
      if res = -1 then
        let m := m.erase entry.id
        (m, .error (.systemError ⟨"Failed to add file descriptor to epoll instance",
          m.kernel.errno⟩))
      else (m, .ok entry.id)

/-- `epoll_instance::remove` -/
def remove (id : EventHandlerId) : EpollInstance :=
  match m.listeners.lookup id with
  | none => m
  | some entry => { m with kernel := (m.kernel.epollCtlDel entry.fd).1 }.erase id

/-! ## Transactions -/

def makeConfigTransaction : EpollInstance :=
  { m with
    addedIds := Function.update m.addedIds m.nextTransaction (some [])
    nextTransaction := m.nextTransaction + 1 }

/-- `config_transaction::add` -/
def transactionAdd (t : Transaction) (fd : NativeHandle) (tag : FileDescriptorTag)
    (initialListenStatus : ActivityStatus) (failure : Option Errno) :
    EpollInstance × Except Exception EventHandlerId :=
  match m.add fd tag initialListenStatus failure with
  | (m, .ok id) =>
    ({ m with addedIds := Function.update m.addedIds t ((m.addedIds t).map (· ++ [id])) }, .ok id)
  | (m, .error e) => (m, .error e)

/-- `config_transaction::commit` -/
def commit (t : Transaction) : EpollInstance :=
  { m with addedIds := Function.update m.addedIds t (some []) }

/-- The destructor of a transaction, which has added `ids`. -/
def rollback (ids : List EventHandlerId) : EpollInstance := ids.foldl remove m

def destroyTransaction (t : Transaction) : EpollInstance :=
  let m' := m.rollback ((m.addedIds t).getD [])
  { m' with addedIds := Function.update m'.addedIds t none }

/-! ## Events -/

/-- `epoll_fd_activity::update_listening_status` on the activity of an entry -/
def updateListeningStatus (entry : Entry) (newStatus : ActivityStatus) (failure : Option Errno) :
    EpollInstance × Except Exception Unit :=
  match toEpollEvent newStatus with
  | .error e => (m, .error e)
  | .ok events =>
    let (kernel, res) := m.kernel.epollCtlMod entry.fd ⟨events, entry.ptr⟩ failure
    ({ m with kernel := kernel },
      if res = -1 then .error (.systemError ⟨"Failed to update epoll event", kernel.errno⟩)
      else .ok ())

end EpollInstance

end ThePipe.OsServices.IoMultiplexer
