import Mathlib.Data.Nat.Notation

/-!
# Log items

A time point of the system clock is its signed 64-bit count of nanoseconds.
-/

set_option autoImplicit false

namespace ThePipe.Log

/-- The severity of a log message. -/
inductive Severity where
  | info | warning | error
  deriving DecidableEq

/-- An item in a log. -/
structure Item where
  when : Int64
  severity : Severity
  message : String
  deriving DecidableEq

namespace Severity

def toString : Severity → String
  | .info => "info"
  | .warning => "warning"
  | .error => "error"

def makeWithFallback (str : String) (fallback : Severity) : Severity :=
  if str = "info" then .info
  else if str = "warning" then .warning
  else if str = "error" then .error
  else fallback

theorem makeWithFallback_toString (s fallback : Severity) :
    makeWithFallback s.toString fallback = s := by
  cases s <;> rfl

end Severity

end ThePipe.Log
