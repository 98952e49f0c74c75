import ThePipe.Jopp
import ThePipe.Log.Item

/-!
# Log items as JSON objects

A time stamp travels as a double, in seconds.  Where the time stamp of an object does not fit the
clock, the conversion back is undefined; `undef` stands for what the machine makes of it.
-/

set_option autoImplicit false

namespace ThePipe.JsonLog

open Lib Jopp Log

/-- The time since the epoch as a number of seconds. -/
def secondsSinceEpoch (t : Int64) : Binary64 := (Binary64.ofInt t.toInt).div (.finite (10 ^ 9))

/-- The time point that is `seconds` after the epoch. -/
def timePoint (undef : Binary64 → Int64) (seconds : Binary64) : Int64 :=
  (seconds.mul (.finite (10 ^ 9))).toInt64 undef

theorem secondsSinceEpoch_zero : secondsSinceEpoch 0 = .finite 0 := by
  simp [secondsSinceEpoch, Binary64.ofInt, roundSignificand, Binary64.div]

theorem timePoint_zero (undef : Binary64 → Int64) : timePoint undef (.finite 0) = 0 := by
  have h : truncate 0 = 0 := by simp [truncate]
  simp [timePoint, Binary64.mul, roundSignificand, Binary64.toInt64, h]

/-- Converts a log item into a JSON object. -/
def toJoppObject (item : Item) : Object :=
  let ret : Object := []
  let ret := Object.insert "when" (.number (secondsSinceEpoch item.when)) ret
  let ret := Object.insert "message" (.string item.message) ret
  Object.insert "severity" (.string item.severity.toString) ret

/-- Converts a JSON object into a log item, or says what is missing. -/
def makeLogItem (undef : Binary64 → Int64) (obj : Object) : Except String Item :=
  match obj.tryGetFieldAs Value.asNumber "when" with
  | none => .error "Failed to extract mandatory field `when` from received log item"
  | some when =>
    match obj.tryGetFieldAs Value.asString "severity" with
    | none => .error "Failed to extract mandatory field `severity` from received log item"
    | some severity =>
      match obj.tryGetFieldAs Value.asString "message" with
      | none => .error "Failed to extract mandatory field `severity` from received log item"
      | some message =>
        .ok ⟨timePoint undef when, Severity.makeWithFallback severity .info, message⟩

/-- The item that comes back: only its time stamp can differ. -/
theorem makeLogItem_toJoppObject (undef : Binary64 → Int64) (item : Item) :
    makeLogItem undef (toJoppObject item) =
      .ok { item with when := timePoint undef (secondsSinceEpoch item.when) } := by
  have hw : (toJoppObject item).lookup "when" = some (.number (secondsSinceEpoch item.when)) := by
    unfold toJoppObject
    rw [Object.lookup_insert_of_ne _ (by decide), Object.lookup_insert_of_ne _ (by decide),
      Object.lookup_insert_self _ rfl]
  have hs : (toJoppObject item).lookup "severity" = some (.string item.severity.toString) := by
    unfold toJoppObject
    refine Object.lookup_insert_self _ ?_
    rw [Object.lookup_insert_of_ne _ (by decide), Object.lookup_insert_of_ne _ (by decide)]
    rfl
  have hm : (toJoppObject item).lookup "message" = some (.string item.message) := by
    unfold toJoppObject
    rw [Object.lookup_insert_of_ne _ (by decide), Object.lookup_insert_self]
    rw [Object.lookup_insert_of_ne _ (by decide)]
    rfl
  simp [makeLogItem, Object.tryGetFieldAs, hw, hs, hm, Value.asNumber, Value.asString,
    Severity.makeWithFallback_toString]

end ThePipe.JsonLog
