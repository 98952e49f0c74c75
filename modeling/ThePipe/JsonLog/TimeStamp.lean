import ThePipe.JsonLog.Reader
import ThePipe.Lib.Rounding

/-!
# The time stamp of a log item

A time stamp is a count of nanoseconds, and a number of seconds in a JSON object.  Neither way of
the conversion checks anything: a number of seconds that the clock cannot count is converted all the
same (`convertsSafely_iff`), and a count that is not a whole number of seconds comes back rounded
(`makeLogItem_toJoppObject_close`).
-/

set_option autoImplicit false

namespace ThePipe.JsonLog

open Lib Jopp Log

/-- The count of nanoseconds in a number of seconds, before it is converted to the clock's type. -/
def nanoseconds (w : ℚ) : ℤ := truncate (roundSignificand (w * 10 ^ 9))

/-- The count is one that the clock can hold. -/
def FitsClock (n : ℤ) : Prop := -2 ^ 63 ≤ n ∧ n ≤ 2 ^ 63 - 1

theorem fitsClock_nanoseconds_iff (w : ℚ) : FitsClock (nanoseconds w) ↔
    -2 ^ 63 - 1024 ≤ w * 10 ^ 9 ∧ w * 10 ^ 9 < 2 ^ 63 - 512 := by
  rw [← truncate_roundSignificand_iff, FitsClock, nanoseconds, Int.le_sub_one_iff]

theorem timePoint_of_fitsClock (undef : Binary64 → Int64) {w : ℚ} (h : FitsClock (nanoseconds w)) :
    (timePoint undef (.finite w)).toInt = nanoseconds w := by
  obtain ⟨hle, hlt⟩ := h
  have hrange : -2 ^ 63 ≤ nanoseconds w ∧ nanoseconds w < 2 ^ 63 := ⟨hle, by omega⟩
  have htime : timePoint undef (.finite w) = Int64.ofInt (nanoseconds w) := if_pos hrange
  rw [htime, Int64.toInt_ofInt_of_le (by omega) (by omega)]

/-! ## Numbers the clock cannot hold -/

variable {undef : Binary64 → Int64} {who : String} {obj : Object} {w : ℚ} {severity message : String}

/-- An object that has all the fields is never rejected. -/
theorem makeLogItem_of_fields (undef : Binary64 → Int64)
    (hwhen : obj.lookup "when" = some (.number (.finite w)))
    (hseverity : obj.lookup "severity" = some (.string severity))
    (hmessage : obj.lookup "message" = some (.string message)) :
    makeLogItem undef obj = .ok ⟨timePoint undef (.finite w),
      Severity.makeWithFallback severity .info, message⟩ := by
  simp [makeLogItem, Object.tryGetFieldAs, hwhen, hseverity, hmessage, Value.asNumber,
    Value.asString]

/-- The reader reports the object as invalid when it is complete, and goes on behind it. -/
def ReportsInvalid (undef : Binary64 → Int64) (who : String) (obj : Object) : Prop :=
  ∃ text, makeLogItem undef obj = .error text ∧
    ∀ {σ : Type} (P : Parser σ UInt8 Container SyntaxError) (fuel : ℕ) (input : List UInt8)
      (state : σ), (P.parse state input).ec = .completed →
      P.value (P.parse state input).state = .object obj →
      parseBuffer P undef who (fuel + 1) input state =
        (parseBuffer P undef who fuel (input.drop (P.parse state input).ptr) P.fresh).map fun r =>
          (.onInvalidLogItem who text :: r.1, r.2)

/-- An object whose `when` is `w` becomes an item with that count of nanoseconds, or it is reported
as invalid if the clock cannot hold the count. -/
structure ConvertsSafely (undef : Binary64 → Int64) (who : String) (obj : Object) (w : ℚ) :
    Prop where
  carries : FitsClock (nanoseconds w) →
    ∃ item, makeLogItem undef obj = .ok item ∧ item.when.toInt = nanoseconds w
  rejects : ¬ FitsClock (nanoseconds w) → ReportsInvalid undef who obj

/-- **No record overflows the clock** if and only if its number of seconds is not too large. -/
theorem convertsSafely_iff (undef : Binary64 → Int64) (who : String)
    (hwhen : obj.lookup "when" = some (.number (.finite w)))
    (hseverity : obj.lookup "severity" = some (.string severity))
    (hmessage : obj.lookup "message" = some (.string message)) :
    ConvertsSafely undef who obj w ↔ -2 ^ 63 - 1024 ≤ w * 10 ^ 9 ∧ w * 10 ^ 9 < 2 ^ 63 - 512 := by
  have hitem := makeLogItem_of_fields undef hwhen hseverity hmessage
  rw [← fitsClock_nanoseconds_iff]
  refine ⟨fun h => ?_, fun h => ⟨fun _ => ?_, fun hn => absurd h hn⟩⟩
  · by_contra hfits
    obtain ⟨text, herror, -⟩ := h.rejects hfits
    rw [hitem] at herror
    cases herror
  · exact ⟨_, hitem, timePoint_of_fitsClock undef h⟩

/-- A record of a client, with the time stamp `w`. -/
def record (w : ℚ) : Object :=
  [("message", .string "hello"), ("severity", .string "info"), ("when", .number (.finite w))]

theorem record_fields (w : ℚ) : (record w).lookup "when" = some (.number (.finite w)) ∧
    (record w).lookup "severity" = some (.string "info") ∧
      (record w).lookup "message" = some (.string "hello") := ⟨rfl, rfl, rfl⟩

/-- The last second that the clock can count, and the one after it. -/
theorem convertsSafely_iff_record :
    ConvertsSafely (fun _ => 0) "client" (record 9223372036) 9223372036 ∧
      ¬ ConvertsSafely (fun _ => 0) "client" (record 9223372037) 9223372037 := by
  constructor
  · obtain ⟨hwhen, hseverity, hmessage⟩ := record_fields 9223372036
    refine (convertsSafely_iff _ _ hwhen hseverity hmessage).2 ?_
    norm_num
  · obtain ⟨hwhen, hseverity, hmessage⟩ := record_fields 9223372037
    refine mt (convertsSafely_iff _ _ hwhen hseverity hmessage).1 ?_
    norm_num

/-- A time stamp of `1e10` is converted, although the clock cannot count it. -/
theorem overflowing_record_is_converted :
    ¬ ∀ (undef : Binary64 → Int64) (who : String) (w : ℚ),
      ConvertsSafely undef who (record w) w := by
  intro h
  have hfits : ¬ FitsClock (nanoseconds (10 ^ 10)) := by
    rw [fitsClock_nanoseconds_iff]
    norm_num
  obtain ⟨hwhen, hseverity, hmessage⟩ := record_fields (10 ^ 10)
  obtain ⟨text, herror, -⟩ := (h (fun _ => 0) "client" (10 ^ 10)).rejects hfits
  rw [makeLogItem_of_fields _ hwhen hseverity hmessage] at herror
  cases herror

/-! ## There and back -/

theorem secondsSinceEpoch_eq (t : Int64) : secondsSinceEpoch t =
    .finite (roundSignificand (roundSignificand t.toInt / 10 ^ 9)) := by
  rw [secondsSinceEpoch, Binary64.ofInt, Binary64.div, if_neg (by norm_num)]

theorem timePoint_of_exact (undef : Binary64 → Int64) {t : Int64}
    (ht : roundSignificand t.toInt = t.toInt)
    (hs : roundSignificand ((t.toInt : ℚ) / 10 ^ 9) = (t.toInt : ℚ) / 10 ^ 9) :
    timePoint undef (secondsSinceEpoch t) = t := by
  have hback : (t.toInt : ℚ) / 10 ^ 9 * 10 ^ 9 = t.toInt := div_mul_cancel₀ _ (by norm_num)
  rw [secondsSinceEpoch_eq, ht, hs]
  simp only [timePoint, Binary64.mul, hback, ht, Binary64.toInt64, truncate_intCast]
  rw [if_pos ⟨t.le_toInt, t.toInt_lt⟩, Int64.ofInt_toInt]

/-- A whole number of seconds, within 146 years of the epoch. -/
theorem exact_of_whole_seconds {k : ℤ} (hk : |10 ^ 9 * k| < 2 ^ 62) :
    roundSignificand ((10 ^ 9 * k : ℤ) : ℚ) = ((10 ^ 9 * k : ℤ) : ℚ) ∧
      roundSignificand (((10 ^ 9 * k : ℤ) : ℚ) / 10 ^ 9) = ((10 ^ 9 * k : ℤ) : ℚ) / 10 ^ 9 := by
  have hbound := abs_lt.1 hk
  constructor
  · have hm : |5 ^ 9 * k| < 2 ^ 53 := abs_lt.2 ⟨by omega, by omega⟩
    have hround := roundSignificand_mul_zpow hm 9
    have heq : ((5 ^ 9 * k : ℤ) : ℚ) * (2 : ℚ) ^ (9 : ℤ) = ((10 ^ 9 * k : ℤ) : ℚ) := by
      push_cast
      ring
    rwa [heq] at hround
  · have hm : |k| < 2 ^ 53 := abs_lt.2 ⟨by omega, by omega⟩
    have heq : ((10 ^ 9 * k : ℤ) : ℚ) / 10 ^ 9 = k := by
      push_cast
      exact mul_div_cancel_left₀ _ (by norm_num)
    rw [heq, roundSignificand_intCast hm]

theorem roundedFrom_seconds (t : ℚ) :
    RoundedFrom 2 t (roundSignificand (roundSignificand t / 10 ^ 9) * 10 ^ 9) := by
  have h := (((RoundedFrom.refl t).round.div_right (10 ^ 9)).round).mul_right (10 ^ 9)
  rwa [div_mul_cancel₀ t (by norm_num)] at h

/-- There are three roundings, each to the nearest number, and then the integer part is taken. -/
theorem nanoseconds_close {t : ℚ} (ht : |t| ≤ 2 ^ 63 - 4096) {n : ℤ}
    (hn : nanoseconds (roundSignificand (roundSignificand t / 10 ^ 9)) = n) :
    FitsClock n ∧ 0 ≤ t * n ∧ |t| * (1 - 1 / 2 ^ 53) ^ 3 - 1 < |(n : ℚ)| ∧
      |(n : ℚ)| ≤ |t| * (1 + 1 / 2 ^ 53) ^ 3 := by
  have hseconds := roundedFrom_seconds t
  have htruncate := hseconds.round.truncate_bounds
  rw [← hn, fitsClock_nanoseconds_iff, nanoseconds]
  refine ⟨?_, htruncate⟩
  obtain ⟨-, -, hb⟩ := hseconds.abs_bounds
  generalize roundSignificand (roundSignificand t / 10 ^ 9) * 10 ^ 9 = b at hb ⊢
  have hb_le : |b| ≤ 2 ^ 63 - 1024 := by
    norm_num at ht hb ⊢
    linarith
  have hbounds := abs_le.1 hb_le
  constructor <;> linarith [hbounds.1, hbounds.2]

/-- **A log item comes back from JSON with its severity and its message.**  Its time stamp is the
same when neither the count nor the number of seconds has to be rounded, as with whole seconds.
Otherwise it is the count up to three roundings and the nanosecond that is cut off, unless it is so
near the end of the clock's range that it may overflow. -/
theorem makeLogItem_toJoppObject_close (undef : Binary64 → Int64) (item : Item) :
    ∃ back, makeLogItem undef (toJoppObject item) = .ok back ∧
      back.severity = item.severity ∧ back.message = item.message ∧
      (roundSignificand item.when.toInt = item.when.toInt →
        roundSignificand ((item.when.toInt : ℚ) / 10 ^ 9) = (item.when.toInt : ℚ) / 10 ^ 9 →
        back.when = item.when) ∧
      (10 ^ 9 ∣ item.when.toInt → |item.when.toInt| < 2 ^ 62 → back.when = item.when) ∧
      (|(item.when.toInt : ℚ)| ≤ 2 ^ 63 - 4096 →
        0 ≤ (item.when.toInt : ℚ) * back.when.toInt ∧
        |(item.when.toInt : ℚ)| * (1 - 1 / 2 ^ 53) ^ 3 - 1 < |(back.when.toInt : ℚ)| ∧
        |(back.when.toInt : ℚ)| ≤ |(item.when.toInt : ℚ)| * (1 + 1 / 2 ^ 53) ^ 3 ∧
        |(back.when.toInt : ℚ) - item.when.toInt| < 1 + |(item.when.toInt : ℚ)| / 2 ^ 51) := by
  refine ⟨_, makeLogItem_toJoppObject undef item, rfl, rfl, timePoint_of_exact undef, ?_, ?_⟩
  · rintro ⟨k, hk⟩ hbound
    rw [hk] at hbound
    obtain ⟨ht, hs⟩ := exact_of_whole_seconds hbound
    rw [← hk] at ht hs
    exact timePoint_of_exact undef ht hs
  · intro hbound
    have hback := nanoseconds_close hbound rfl
    rw [← timePoint_of_fitsClock undef hback.1, ← secondsSinceEpoch_eq] at hback
    obtain ⟨-, hsign, hlow, hhigh⟩ := hback
    refine ⟨hsign, hlow, hhigh, ?_⟩
    rw [abs_sub_of_mul_nonneg hsign, abs_lt]
    have hnonneg := abs_nonneg (item.when.toInt : ℚ)
    norm_num at hlow hhigh ⊢
    constructor <;> linarith

/-- Fifteen nanoseconds come back as fourteen. -/
theorem fifteen_nanoseconds_are_lost :
    ¬ ∀ (undef : Binary64 → Int64) (item : Item),
      makeLogItem undef (toJoppObject item) = .ok item := by
  intro h
  have hseconds : roundSignificand (15 / 10 ^ 9) = 4533471823554859 * (2 : ℚ) ^ (-78 : ℤ) := by
    rw [roundSignificand_of_mem (e := -26) (by norm_num [abs_of_pos]) (by norm_num [abs_of_pos]),
      roundHalfEven_eq (n := 4533471823554859) (by norm_num [abs_lt])]
    norm_num
  have hback : roundSignificand (4533471823554859 * (2 : ℚ) ^ (-78 : ℤ) * 10 ^ 9) =
      8444249301319679 * (2 : ℚ) ^ (-49 : ℤ) := by
    rw [roundSignificand_of_mem (e := 3) (by norm_num [abs_of_pos]) (by norm_num [abs_of_pos]),
      roundHalfEven_eq (n := 8444249301319679) (by norm_num [abs_lt])]
    norm_num
  have hcount : roundSignificand ((15 : Int64).toInt : ℚ) = 15 := by
    have hexact := roundSignificand_intCast (n := 15) (by norm_num)
    exact_mod_cast hexact
  have htruncate : truncate (8444249301319679 * (2 : ℚ) ^ (-49 : ℤ)) = 14 := by
    rw [truncate, if_pos (by positivity), Int.floor_eq_iff]
    constructor <;> norm_num
  have htime : timePoint (fun _ => 0) (secondsSinceEpoch 15) = 14 := by
    rw [secondsSinceEpoch_eq, hcount, hseconds, timePoint, Binary64.mul, hback, Binary64.toInt64,
      htruncate]
    decide
  have hitem := h (fun _ => 0) ⟨15, .info, ""⟩
  rw [makeLogItem_toJoppObject, htime] at hitem
  cases hitem

end ThePipe.JsonLog
