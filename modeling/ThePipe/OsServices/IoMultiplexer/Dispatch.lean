import ThePipe.Lib.Lts
import ThePipe.OsServices.IoMultiplexer.EpollInstance

/-!
# Runs of the event loop

The transition system of an `epoll_instance`.  A step is a call on the instance, something that the
program or another process does to descriptors and processes, or a step of
`wait_for_and_distpatch_events`: `epoll_wait` returns, the next event is processed, its handler
does something, returns or throws.  While a handler runs it may make any call on the instance.

The events hold pointers to entries.  When one that does not exist any more is used the run ends in
`undefined`.  The log is a history variable, which no step reads.
-/

set_option autoImplicit false

namespace ThePipe.OsServices.IoMultiplexer

open ErrorHandling Fd Lib

/-- `epoll_fd_activity` -/
structure EpollFdActivity where
  data : Ptr
  status : ActivityStatus
  itemShouldBeRemoved : Bool
  deriving DecidableEq

/-- The uses of an entry that has been erased. -/
inductive Fault
  /-- `handle_event` is called on it. -/
  | handleEventOnErased
  /-- `get_id` is called on it. -/
  | getIdOnErased
  /-- It has been erased while its `handle_event` is running. -/
  | erasedWhileRunning
  deriving DecidableEq

/-- Where `wait_for_and_distpatch_events` is. -/
inductive Control
  | idle
  /-- The next event of the batch is to be processed. -/
  | dispatching (pending : List EpollEvent)
  /-- The handler of an event is running. -/
  | handling (activity : EpollFdActivity) (pending : List EpollEvent)
  | undefined (fault : Fault)
  deriving DecidableEq

/-- What the log records. -/
inductive Record
  /-- A listener has been added, by a transaction if one is given. -/
  | added (via : Option Transaction) (entry : Entry)
  | committed (t : Transaction)
  /-- `handle_event` has been called. -/
  | handled (entry : Entry) (status : ActivityStatus)
  deriving DecidableEq

/-- The calls on an instance.  The `failure` is the error that `epoll_ctl` reports. -/
inductive Call
  | add (fd : NativeHandle) (tag : FileDescriptorTag) (status : ActivityStatus)
      (failure : Option Errno)
  | remove (id : EventHandlerId)
  | makeConfigTransaction
  | transactionAdd (t : Transaction) (fd : NativeHandle) (tag : FileDescriptorTag)
      (status : ActivityStatus) (failure : Option Errno)
  | commit (t : Transaction)
  | destroyTransaction (t : Transaction)
  deriving DecidableEq

inductive Label
  | call (c : Call)
  | kernel (e : KernelStep)
  /-- `epoll_wait` returns the registrations with these event words. -/
  | waitReturns (batch : List ((NativeHandle × Ofd) × BitVec 32))
  /-- `epoll_wait` fails, and the exception leaves the loop. -/
  | waitFails
  /-- `handle_event` is called for the next event. -/
  | process
  | updateListeningStatus (status : ActivityStatus) (failure : Option Errno)
  | stopListening
  | handlerReturns
  | handlerThrows
  /-- All events have been processed. -/
  | leave
  deriving DecidableEq

structure State where
  monitor : EpollInstance
  control : Control
  log : List Record

/-! ## Calls -/

namespace EpollInstance

variable (m : EpollInstance)

/-- The caller of `add` owns the descriptor, so no entry does. -/
def MayBeAdded (fd : NativeHandle) : Prop := fd = -1 ∨ ¬ m.Owns fd

instance : DecidablePred m.MayBeAdded := fun fd => by unfold MayBeAdded; infer_instance

/-- The record of a call of `add`. -/
def addRecord (via : Option Transaction) (fd : NativeHandle) (tag : FileDescriptorTag) :
    Except Exception EventHandlerId → List Record
  | .ok _ => [.added via (m.newEntry fd tag)]
  | .error _ => []

def call : Call → Option (EpollInstance × List Record)
  | .add fd tag status failure =>
    if m.MayBeAdded fd then
      let r := m.add fd tag status failure
      some (r.1, m.addRecord none fd tag r.2)
    else none
  | .remove id => some (m.remove id, [])
  | .makeConfigTransaction => some (m.makeConfigTransaction, [])
  | .transactionAdd t fd tag status failure =>
    if m.MayBeAdded fd ∧ (m.addedIds t).isSome then
      let r := m.transactionAdd t fd tag status failure
      some (r.1, m.addRecord (some t) fd tag r.2)
    else none
  | .commit t => if (m.addedIds t).isSome then some (m.commit t, [.committed t]) else none
  | .destroyTransaction t =>
    if (m.addedIds t).isSome then some (m.destroyTransaction t, []) else none

/-- The ids that a call is to remove. -/
def removes : Call → List EventHandlerId
  | .remove id => [id]
  | .destroyTransaction t => (m.addedIds t).getD []
  | _ => []

/-- The events of a batch, with the data that was registered. -/
def eventsOf (batch : List ((NativeHandle × Ofd) × BitVec 32)) : List EpollEvent :=
  batch.filterMap fun r => (m.kernel.interest r.1).map fun event => ⟨r.2, event.data⟩

/-- What `epoll_wait` may return: at most 1024 registrations of the interest list. -/
def BatchReady (batch : List ((NativeHandle × Ofd) × BitVec 32)) : Prop :=
  batch.length ≤ 1024 ∧ (batch.map Prod.fst).Nodup ∧ ∀ r ∈ batch, (m.kernel.interest r.1).isSome

instance : DecidablePred m.BatchReady := fun batch => by unfold BatchReady; infer_instance

/-- The kernel step does not close a descriptor behind the back of its owner. -/
def Allows : KernelStep → Prop
  | .close fd => ¬ m.Owns fd
  | _ => True

instance : DecidablePred m.Allows := fun e => by cases e <;> unfold Allows <;> infer_instance

end EpollInstance

/-! ## Steps -/

/-- The control after a call: a handler whose entry is gone must not go on. -/
def Control.afterCall (m : EpollInstance) : Control → Control
  | .handling activity pending =>
    if (m.entryAt activity.data).isSome then .handling activity pending
    else .undefined .erasedWhileRunning
  | control => control

/-- Calls are made between dispatches and by handlers. -/
def Control.AllowsCalls : Control → Prop
  | .idle | .handling _ _ => True
  | _ => False

instance : DecidablePred Control.AllowsCalls := fun c => by
  cases c <;> unfold Control.AllowsCalls <;> infer_instance

def Control.IsUndefined : Control → Prop
  | .undefined _ => True
  | _ => False

instance : DecidablePred Control.IsUndefined := fun c => by
  cases c <;> unfold Control.IsUndefined <;> infer_instance

namespace State

def step (s : State) : Label → Option State
  | .call c =>
    if s.control.AllowsCalls then
      (s.monitor.call c).map fun r => ⟨r.1, s.control.afterCall r.1, s.log ++ r.2⟩
    else none
  | .kernel e =>
    if ¬ s.control.IsUndefined ∧ s.monitor.Allows e then
      (s.monitor.kernel.step e).map fun k => { s with monitor := { s.monitor with kernel := k } }
    else none
  | .waitReturns batch =>
    if s.control = .idle ∧ s.monitor.BatchReady batch then
      some { s with control := .dispatching (s.monitor.eventsOf batch) }
    else none
  | .waitFails => if s.control = .idle then some s else none
  | .process =>
    match s.control with
    | .dispatching (item :: pending) =>
      match s.monitor.entryAt item.data with
      | none => some { s with control := .undefined .handleEventOnErased }
      | some entry =>
        let status := epollEventToActivityStatus item.events
        some { s with
          control := .handling ⟨item.data, status, false⟩ pending
          log := s.log ++ [.handled entry status] }
    | _ => none
  | .updateListeningStatus status failure =>
    match s.control with
    | .handling activity _ =>
      match s.monitor.entryAt activity.data with
      | none => some { s with control := .undefined .erasedWhileRunning }
      | some entry =>
        some { s with monitor := (s.monitor.updateListeningStatus entry status failure).1 }
    | _ => none
  | .stopListening =>
    match s.control with
    | .handling activity pending =>
      some { s with control := .handling { activity with itemShouldBeRemoved := true } pending }
    | _ => none
  | .handlerReturns =>
    match s.control with
    | .handling activity pending =>
      if activity.itemShouldBeRemoved then
        match s.monitor.entryAt activity.data with
        | none => some { s with control := .undefined .getIdOnErased }
        | some entry =>
          some { s with monitor := s.monitor.erase entry.id, control := .dispatching pending }
      else some { s with control := .dispatching pending }
    | _ => none
  | .handlerThrows =>
    match s.control with
    | .handling _ _ => some { s with control := .idle }
    | _ => none
  | .leave => if s.control = .dispatching [] then some { s with control := .idle } else none

/-- What a step does, by cases. -/
inductive Step : State → Label → State → Prop
  | call {s : State} {c : Call} {m : EpollInstance} {records : List Record}
      (hallows : s.control.AllowsCalls) (hcall : s.monitor.call c = some (m, records)) :
      Step s (.call c) ⟨m, s.control.afterCall m, s.log ++ records⟩
  | kernel {s : State} {e : KernelStep} {k : Kernel} (hdefined : ¬ s.control.IsUndefined)
      (hallows : s.monitor.Allows e) (hk : s.monitor.kernel.step e = some k) :
      Step s (.kernel e) { s with monitor := { s.monitor with kernel := k } }
  | waitReturns {m : EpollInstance} {log : List Record}
      {batch : List ((NativeHandle × Ofd) × BitVec 32)} (hready : m.BatchReady batch) :
      Step ⟨m, .idle, log⟩ (.waitReturns batch) ⟨m, .dispatching (m.eventsOf batch), log⟩
  | waitFails {m : EpollInstance} {log : List Record} :
      Step ⟨m, .idle, log⟩ .waitFails ⟨m, .idle, log⟩
  | process {m : EpollInstance} {log : List Record} {item : EpollEvent}
      {pending : List EpollEvent} {entry : Entry} (hentry : m.entryAt item.data = some entry) :
      Step ⟨m, .dispatching (item :: pending), log⟩ .process
        ⟨m, .handling ⟨item.data, epollEventToActivityStatus item.events, false⟩ pending,
          log ++ [.handled entry (epollEventToActivityStatus item.events)]⟩
  | processErased {m : EpollInstance} {log : List Record} {item : EpollEvent}
      {pending : List EpollEvent} (hentry : m.entryAt item.data = none) :
      Step ⟨m, .dispatching (item :: pending), log⟩ .process
        ⟨m, .undefined .handleEventOnErased, log⟩
  | update {m : EpollInstance} {log : List Record} {activity : EpollFdActivity}
      {pending : List EpollEvent} {status : ActivityStatus} {failure : Option Errno}
      {entry : Entry} (hentry : m.entryAt activity.data = some entry) :
      Step ⟨m, .handling activity pending, log⟩ (.updateListeningStatus status failure)
        ⟨(m.updateListeningStatus entry status failure).1, .handling activity pending, log⟩
  | updateErased {m : EpollInstance} {log : List Record} {activity : EpollFdActivity}
      {pending : List EpollEvent} {status : ActivityStatus} {failure : Option Errno}
      (hentry : m.entryAt activity.data = none) :
      Step ⟨m, .handling activity pending, log⟩ (.updateListeningStatus status failure)
        ⟨m, .undefined .erasedWhileRunning, log⟩
  | stopListening {m : EpollInstance} {log : List Record} {activity : EpollFdActivity}
      {pending : List EpollEvent} :
      Step ⟨m, .handling activity pending, log⟩ .stopListening
        ⟨m, .handling { activity with itemShouldBeRemoved := true } pending, log⟩
  | returns {m : EpollInstance} {log : List Record} {activity : EpollFdActivity}
      {pending : List EpollEvent} (hflag : activity.itemShouldBeRemoved = false) :
      Step ⟨m, .handling activity pending, log⟩ .handlerReturns ⟨m, .dispatching pending, log⟩
  | returnsStopped {m : EpollInstance} {log : List Record} {activity : EpollFdActivity}
      {pending : List EpollEvent} {entry : Entry} (hflag : activity.itemShouldBeRemoved = true)
      (hentry : m.entryAt activity.data = some entry) :
      Step ⟨m, .handling activity pending, log⟩ .handlerReturns
        ⟨m.erase entry.id, .dispatching pending, log⟩
  | returnsErased {m : EpollInstance} {log : List Record} {activity : EpollFdActivity}
      {pending : List EpollEvent} (hflag : activity.itemShouldBeRemoved = true)
      (hentry : m.entryAt activity.data = none) :
      Step ⟨m, .handling activity pending, log⟩ .handlerReturns
        ⟨m, .undefined .getIdOnErased, log⟩
  | throws {m : EpollInstance} {log : List Record} {activity : EpollFdActivity}
      {pending : List EpollEvent} :
      Step ⟨m, .handling activity pending, log⟩ .handlerThrows ⟨m, .idle, log⟩
  | leave {m : EpollInstance} {log : List Record} :
      Step ⟨m, .dispatching [], log⟩ .leave ⟨m, .idle, log⟩

theorem step_cases {s s' : State} {l : Label} (h : s.step l = some s') : Step s l s' := by
  obtain ⟨m, control, log⟩ := s
  cases l with
  | call c =>
    simp only [step, Option.ite_none_right_eq_some, Option.map_eq_some_iff] at h
    obtain ⟨hallows, ⟨m', records⟩, hcall, rfl⟩ := h
    exact .call hallows hcall
  | kernel e =>
    simp only [step, Option.ite_none_right_eq_some, Option.map_eq_some_iff] at h
    obtain ⟨⟨hdefined, hallows⟩, k, hk, rfl⟩ := h
    exact .kernel hdefined hallows hk
  | waitReturns batch =>
    simp only [step, Option.ite_none_right_eq_some, Option.some.injEq] at h
    obtain ⟨⟨rfl, hready⟩, rfl⟩ := h
    exact .waitReturns hready
  | waitFails =>
    simp only [step, Option.ite_none_right_eq_some, Option.some.injEq] at h
    obtain ⟨rfl, rfl⟩ := h
    exact .waitFails
  | process =>
    simp only [step] at h
    split at h
    · split at h
      · next hentry => cases h; exact .processErased hentry
      · next hentry => cases h; exact .process hentry
    · cases h
  | updateListeningStatus status failure =>
    simp only [step] at h
    split at h
    · split at h
      · next hentry => cases h; exact .updateErased hentry
      · next hentry => cases h; exact .update hentry
    · cases h
  | stopListening =>
    simp only [step] at h
    split at h
    · cases h; exact .stopListening
    · cases h
  | handlerReturns =>
    simp only [step] at h
    split at h
    · split at h
      · next hflag =>
        split at h
        · next hentry => cases h; exact .returnsErased hflag hentry
        · next hentry => cases h; exact .returnsStopped hflag hentry
      · next hflag => cases h; exact .returns (by simpa using hflag)
    · cases h
  | handlerThrows =>
    simp only [step] at h
    split at h
    · cases h; exact .throws
    · cases h
  | leave =>
    simp only [step, Option.ite_none_right_eq_some, Option.some.injEq] at h
    obtain ⟨rfl, rfl⟩ := h
    exact .leave

/-- A fresh `epoll_instance`, in any process. -/
structure Init (s : State) : Prop where
  listeners : s.monitor.listeners = ∅
  currentId : s.monitor.currentId = ⟨0⟩
  addedIds : s.monitor.addedIds = fun _ => none
  nextTransaction : s.monitor.nextTransaction = 0
  nextPtr : s.monitor.nextPtr = 0
  interest : s.monitor.kernel.interest = fun _ => none
  nullClosed : s.monitor.kernel.NullClosed
  nextOfd : ∀ ofd, s.monitor.kernel.nextOfd ≤ ofd → ¬ s.monitor.kernel.Referenced ofd
  control : s.control = .idle
  log : s.log = []

/-- A fresh `epoll_instance` in a process that has no descriptors and whose calls of `waitid`
succeed. -/
def fresh : State where
  monitor :=
    { kernel :=
        { descriptors := ∅
          elsewhere := fun _ => 0
          nextOfd := 0
          pidfdOf := fun _ => none
          processes := fun _ => .running
          interest := fun _ => none
          errno := 0 }
      listeners := ∅
      currentId := ⟨0⟩
      addedIds := fun _ => none
      nextTransaction := 0
      nextPtr := 0
      waitidFailure := fun _ => none }
  control := .idle
  log := []

theorem fresh_init : fresh.Init where
  listeners := rfl
  currentId := rfl
  addedIds := rfl
  nextTransaction := rfl
  nextPtr := rfl
  interest := rfl
  nullClosed := rfl
  nextOfd := fun ofd _ href => by
    rcases href with h | ⟨d, hd, -⟩
    · cases h
    · cases hd
  control := rfl
  log := rfl

end State

/-- The event loop as a transition system. -/
def eventLoop : Lts State Label where
  init := State.Init
  step := State.step

end ThePipe.OsServices.IoMultiplexer
