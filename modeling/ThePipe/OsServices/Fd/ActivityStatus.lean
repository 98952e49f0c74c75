import Mathlib.Data.BitVec

/-!
# Activity status and ids of event handlers

An `activity_status` is any value of the enumeration's underlying type; four of them are named.
-/

set_option autoImplicit false

namespace ThePipe.OsServices.Fd

/-- The activity that is possible on a file descriptor. -/
structure ActivityStatus where
  value : BitVec 32
  deriving DecidableEq

namespace ActivityStatus

def none : ActivityStatus := ⟨0x0⟩
def read : ActivityStatus := ⟨0x1⟩
def write : ActivityStatus := ⟨0x2⟩
def readOrWrite : ActivityStatus := ⟨0x3⟩

/-- The value is one of the four enumerators. -/
def IsEnumerator (status : ActivityStatus) : Prop :=
  status = none ∨ status = read ∨ status = write ∨ status = readOrWrite

instance : DecidablePred IsEnumerator := fun status => by unfold IsEnumerator; infer_instance

def canRead (status : ActivityStatus) : Bool := status.value &&& read.value != 0

def canWrite (status : ActivityStatus) : Bool := status.value &&& write.value != 0

end ActivityStatus

/-- The id of an event handler. -/
structure EventHandlerId where
  value : BitVec 64
  deriving DecidableEq

/-- Returns the id and the one after it; the counter wraps. -/
def EventHandlerId.next (id : EventHandlerId) : EventHandlerId × EventHandlerId :=
  (id, ⟨id.value + 1⟩)

end ThePipe.OsServices.Fd
