import Mathlib.Data.Int.Log
import Mathlib.Data.Rat.Floor
import Mathlib.Algebra.Order.Field.Rat

/-!
# Double precision numbers

A double is a rational number, an infinity or not a number.  An operation on finite doubles is
the exact one followed by rounding to a significand of 53 bits, half-way cases to the even
neighbour.  The exponent is not bounded: a number past the largest double stays finite here.
-/

set_option autoImplicit false

namespace ThePipe.Lib

inductive Binary64 where
  | finite (q : ℚ)
  | infinity (negative : Bool)
  | nan
  deriving DecidableEq

/-- The integer nearest to `q`, the even one of two. -/
def roundHalfEven (q : ℚ) : ℤ :=
  if q - ⌊q⌋ < 1 / 2 then ⌊q⌋
  else if 1 / 2 < q - ⌊q⌋ then ⌊q⌋ + 1
  else if ⌊q⌋ % 2 = 0 then ⌊q⌋ else ⌊q⌋ + 1

/-- The number with a 53-bit significand nearest to `q`. -/
def roundSignificand (q : ℚ) : ℚ :=
  if q = 0 then 0
  else
    let unit : ℚ := (2 : ℚ) ^ (Int.log 2 |q| - 52)
    roundHalfEven (q / unit) * unit

theorem roundHalfEven_intCast (n : ℤ) : roundHalfEven n = n := by
  simp [roundHalfEven]

/-- A number with a significand of 53 bits is not changed. -/
theorem roundSignificand_mul_zpow {m : ℤ} (hm : |m| < 2 ^ 53) (j : ℤ) :
    roundSignificand (m * (2 : ℚ) ^ j) = m * (2 : ℚ) ^ j := by
  by_cases hzero : m = 0
  · simp [roundSignificand, hzero]
  have hj : (0 : ℚ) < (2 : ℚ) ^ j := zpow_pos two_pos j
  have habs : (0 : ℚ) < |m * (2 : ℚ) ^ j| := by
    rw [abs_mul, abs_of_pos hj]
    exact mul_pos (by simpa using hzero) hj
  have hlog : Int.log 2 |m * (2 : ℚ) ^ j| < 53 + j := by
    rw [← Int.lt_zpow_iff_log_lt one_lt_two habs, abs_mul, abs_of_pos hj, Nat.cast_ofNat,
      zpow_add₀ two_ne_zero, mul_lt_mul_iff_left₀ hj]
    exact_mod_cast hm
  rw [roundSignificand, if_neg (abs_pos.1 habs)]
  -- the unit of the result divides the number
  generalize Int.log 2 |m * (2 : ℚ) ^ j| = e at hlog ⊢
  obtain ⟨k, hk⟩ := Int.eq_ofNat_of_zero_le (show 0 ≤ j - (e - 52) by omega)
  have hj' : (2 : ℚ) ^ j = 2 ^ k * (2 : ℚ) ^ (e - 52) := by
    rw [← zpow_natCast, ← zpow_add₀ two_ne_zero]
    congr 1
    omega
  have hu : (2 : ℚ) ^ (e - 52) ≠ 0 := (zpow_pos two_pos _).ne'
  have hq : m * (2 : ℚ) ^ j / (2 : ℚ) ^ (e - 52) = ((m * 2 ^ k : ℤ) : ℚ) := by
    rw [hj', ← mul_assoc, mul_div_cancel_right₀ _ hu]
    push_cast
    rfl
  simp only [hq, roundHalfEven_intCast]
  push_cast
  rw [mul_assoc, ← hj']
theorem roundSignificand_intCast {n : ℤ} (h : |n| < 2 ^ 53) : roundSignificand n = n := by
  simpa using roundSignificand_mul_zpow h 0

/-- The integer part of `q`, towards zero. -/
def truncate (q : ℚ) : ℤ := if 0 ≤ q then ⌊q⌋ else ⌈q⌉

namespace Binary64

/-- The double nearest to an integer. -/
def ofInt (n : ℤ) : Binary64 := .finite (roundSignificand n)

theorem ofInt_eq {n : ℤ} (h : |n| < 2 ^ 53) : ofInt n = .finite n := by
  rw [ofInt, roundSignificand_intCast h]

def eq : Binary64 → Binary64 → Bool
  | .nan, _ | _, .nan => false
  | x, y => x = y

theorem eq_finite {q : ℚ} {y : Binary64} : (finite q).eq y = true ↔ y = .finite q := by
  cases y <;> simp [eq, eq_comm]

def lt : Binary64 → Binary64 → Bool
  | .finite p, .finite q => p < q
  | .infinity true, .finite _ | .finite _, .infinity false | .infinity true, .infinity false => true
  | _, _ => false

/-- Whether the number is below zero; an infinity by its sign. -/
def isNegative : Binary64 → Bool
  | .finite q => decide (q < 0)
  | .infinity negative => negative
  | .nan => false

def mul : Binary64 → Binary64 → Binary64
  | .nan, _ | _, .nan => .nan
  | .finite p, .finite q => .finite (roundSignificand (p * q))
  | x, y =>
    if x = .finite 0 ∨ y = .finite 0 then .nan
    else .infinity (x.isNegative != y.isNegative)

def div : Binary64 → Binary64 → Binary64
  | .nan, _ | _, .nan | .infinity _, .infinity _ => .nan
  | .finite p, .finite q =>
    if q = 0 then if p = 0 then .nan else .infinity (decide (p < 0))
    else .finite (roundSignificand (p / q))
  | .finite _, .infinity _ => .finite 0
  | .infinity negative, .finite q => .infinity (negative != decide (q < 0))

/-- The conversion to a 64-bit integer, towards zero.  It is undefined on a number whose integer
part does not fit, where `undef` gives what the machine makes of it. -/
def toInt64 (undef : Binary64 → Int64) : Binary64 → Int64
  | .finite q =>
    if -2 ^ 63 ≤ truncate q ∧ truncate q < 2 ^ 63 then Int64.ofInt (truncate q)
    else undef (.finite q)
  | x => undef x

/-- The conversion to a 32-bit integer. -/
def toInt32 (undef : Binary64 → Int32) : Binary64 → Int32
  | .finite q =>
    if -2 ^ 31 ≤ truncate q ∧ truncate q < 2 ^ 31 then Int32.ofInt (truncate q)
    else undef (.finite q)
  | x => undef x

theorem toInt32_toInt (undef : Binary64 → Int32) (n : Int32) :
    (finite n.toInt).toInt32 undef = n := by
  have htruncate : truncate (n.toInt : ℚ) = n.toInt := by simp [truncate]
  rw [toInt32, htruncate, if_pos ⟨n.le_toInt, n.toInt_lt⟩, Int32.ofInt_toInt]

end Binary64

end ThePipe.Lib
