import Mathlib.Data.Int.Notation
import Mathlib.Data.List.Basic

/-!
# System calls and their errors

The result of a system call is its return value together with `errno` as the call leaves it.
`doWhileEintr` repeats an interrupted call; its argument are the results of the successive
invocations, which the environment decides.
-/

set_option autoImplicit false

namespace ThePipe.OsServices.ErrorHandling

/-- The values of `errno`. -/
abbrev Errno := ℕ

def EINTR : Errno := 4
def EAGAIN : Errno := 11
def EWOULDBLOCK : Errno := 11

/-- What one invocation of a system call leaves: its return value and `errno`. -/
structure SysResult where
  value : ℤ
  errno : Errno
  deriving DecidableEq

/-- The call was interrupted by a signal. -/
def SysResult.Interrupted (r : SysResult) : Prop := r.errno = EINTR ∧ r.value = -1

instance : DecidablePred SysResult.Interrupted := fun r => by
  unfold SysResult.Interrupted; infer_instance

/-- Repeats the call until it has not been interrupted; `none` when all results given are
interruptions, that is when the loop is still going on. -/
def doWhileEintr : List SysResult → Option SysResult
  | [] => none
  | r :: rs => if r.Interrupted then doWhileEintr rs else some r

/-- `n` interruptions and then `r`. -/
def interruptedThen (n : ℕ) (r : SysResult) : List SysResult :=
  List.replicate n ⟨-1, EINTR⟩ ++ [r]

theorem doWhileEintr_interruptedThen (n : ℕ) (r : SysResult) :
    doWhileEintr (interruptedThen n r) = if r.Interrupted then none else some r := by
  induction n with
  | zero => simp [interruptedThen, doWhileEintr]
  | succ n ih =>
    unfold interruptedThen at ih ⊢
    rw [List.replicate_succ, List.cons_append, doWhileEintr, if_pos ⟨rfl, rfl⟩, ih]

/-- The exception a failed system call is reported with: the message and the error number. -/
structure SystemError where
  message : String
  err : Errno
  deriving DecidableEq

end ThePipe.OsServices.ErrorHandling
