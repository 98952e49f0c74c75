import Mathlib.Tactic.Linarith
import Mathlib.Tactic.NormNum
import Mathlib.Tactic.Ring
import ThePipe.Lib.Binary64

/-!
# Rounding to a significand of 53 bits

What rounding does to a number, without computing it: `roundHalfEven_le_iff` says on which side of
an integer the result is, ties included.  From this come the numbers that are not rounded
(`roundSignificand_mul_zpow`), those that are rounded across a power of two, and the relative error
(`abs_roundSignificand_sub_le`).
-/

set_option autoImplicit false

namespace ThePipe.Lib

/-! ## Rounding to an integer -/

theorem roundHalfEven_mem (q : ℚ) : ⌊q⌋ ≤ roundHalfEven q ∧ roundHalfEven q ≤ ⌊q⌋ + 1 := by
  unfold roundHalfEven
  split_ifs <;> omega

theorem roundHalfEven_le_floor {q : ℚ} : roundHalfEven q ≤ ⌊q⌋ ↔
    q < ⌊q⌋ + 1 / 2 ∨ q = ⌊q⌋ + 1 / 2 ∧ ⌊q⌋ % 2 = 0 := by
  unfold roundHalfEven
  split_ifs with hbelow habove heven
  · exact iff_of_true le_rfl (.inl (by linarith))
  · refine iff_of_false (by omega) (not_or.2 ⟨by linarith, fun h => by linarith [h.1]⟩)
  · exact iff_of_true le_rfl (.inr ⟨by linarith, heven⟩)
  · exact iff_of_false (by omega) (not_or.2 ⟨by linarith, fun h => heven h.2⟩)

/-- The result is at most `n` for what is below half-way to the next integer, and half-way itself
when `n` is even. -/
theorem roundHalfEven_le_iff {q : ℚ} {n : ℤ} :
    roundHalfEven q ≤ n ↔ q < n + 1 / 2 ∨ q = n + 1 / 2 ∧ n % 2 = 0 := by
  obtain ⟨hfloor, hsucc⟩ := roundHalfEven_mem q
  rcases lt_trichotomy ⌊q⌋ n with hlt | rfl | hgt
  · have hq : q < n := Int.floor_lt.1 hlt
    exact iff_of_true (by omega) (.inl (by linarith))
  · exact roundHalfEven_le_floor
  · have hq : ((n + 1 : ℤ) : ℚ) ≤ q := Int.le_floor.1 hgt
    push_cast at hq
    exact iff_of_false (by omega) (not_or.2 ⟨by linarith, fun h => by linarith [h.1]⟩)

theorem abs_roundHalfEven_sub_le (q : ℚ) : |(roundHalfEven q : ℚ) - q| ≤ 1 / 2 := by
  have hle := roundHalfEven_le_iff.1 (le_refl (roundHalfEven q))
  have hgt : ¬ roundHalfEven q ≤ roundHalfEven q - 1 := by omega
  rw [roundHalfEven_le_iff, not_or] at hgt
  obtain ⟨hgt, -⟩ := hgt
  push_cast at hgt
  rw [abs_le]
  constructor
  · rcases hle with hlt | ⟨heq, -⟩ <;> linarith
  · linarith

theorem roundHalfEven_eq {q : ℚ} {n : ℤ} (h : |q - n| < 1 / 2) : roundHalfEven q = n := by
  rw [abs_lt] at h
  apply le_antisymm
  · exact roundHalfEven_le_iff.2 (.inl (by linarith))
  · rw [← not_lt, ← Int.le_sub_one_iff, roundHalfEven_le_iff]
    push_cast
    exact not_or.2 ⟨by linarith, fun hq => by linarith [hq.1]⟩

theorem le_roundHalfEven_iff {q : ℚ} {n : ℤ} :
    n ≤ roundHalfEven q ↔ n - 1 / 2 < q ∨ q = n - 1 / 2 ∧ n % 2 = 0 := by
  rw [← not_lt, ← Int.le_sub_one_iff, roundHalfEven_le_iff, not_or]
  push_cast
  constructor
  · rintro ⟨hlt, heq⟩
    rcases (not_lt.1 hlt).lt_or_eq with h | h
    · exact .inl (by linarith)
    · refine .inr ⟨by linarith, ?_⟩
      have hodd : ¬ (n - 1) % 2 = 0 := fun heven => heq ⟨by linarith, heven⟩
      omega
  · rintro (h | ⟨h, heven⟩)
    · exact ⟨by linarith, fun hq => by linarith [hq.1]⟩
    · exact ⟨by linarith, fun hq => by omega⟩

theorem roundHalfEven_neg (q : ℚ) : roundHalfEven (-q) = -roundHalfEven q := by
  refine eq_of_forall_ge_iff fun n => ?_
  rw [neg_le, le_roundHalfEven_iff, roundHalfEven_le_iff]
  push_cast
  refine or_congr ⟨fun h => by linarith, fun h => by linarith⟩
    (and_congr ⟨fun h => by linarith, fun h => by linarith⟩ (by omega))

/-! ## Rounding to a significand -/

/-- The distance of the numbers with a 53-bit significand from `2 ^ e` on. -/
theorem roundSignificand_of_mem {q : ℚ} {e : ℤ} (hle : (2 : ℚ) ^ e ≤ |q|)
    (hlt : |q| < (2 : ℚ) ^ (e + 1)) :
    roundSignificand q = roundHalfEven (q / (2 : ℚ) ^ (e - 52)) * (2 : ℚ) ^ (e - 52) := by
  have hpos : 0 < |q| := lt_of_lt_of_le (zpow_pos two_pos e) hle
  have hlog : Int.log 2 |q| = e := by
    apply le_antisymm
    · rw [← Int.lt_add_one_iff, ← Int.lt_zpow_iff_log_lt one_lt_two hpos]
      exact_mod_cast hlt
    · rw [← Int.zpow_le_iff_le_log one_lt_two hpos]
      exact_mod_cast hle
  rw [roundSignificand, if_neg (abs_pos.1 hpos), hlog]

theorem exists_zpow_le {q : ℚ} (hq : q ≠ 0) :
    ∃ e : ℤ, (2 : ℚ) ^ e ≤ |q| ∧ |q| < (2 : ℚ) ^ (e + 1) :=
  ⟨Int.log 2 |q|, by exact_mod_cast Int.zpow_log_le_self one_lt_two (abs_pos.2 hq),
    by exact_mod_cast Int.lt_zpow_succ_log_self one_lt_two |q|⟩

theorem roundSignificand_zero : roundSignificand 0 = 0 := if_pos rfl

theorem roundSignificand_neg (q : ℚ) : roundSignificand (-q) = -roundSignificand q := by
  by_cases hq : q = 0
  · rw [hq, neg_zero, roundSignificand_zero, neg_zero]
  · obtain ⟨e, hle, hlt⟩ := exists_zpow_le hq
    rw [roundSignificand_of_mem hle hlt,
      roundSignificand_of_mem (by rwa [abs_neg]) (by rwa [abs_neg]), neg_div, roundHalfEven_neg]
    push_cast
    ring

theorem two_zpow_eq (e : ℤ) (k : ℕ) : (2 : ℚ) ^ e = 2 ^ k * (2 : ℚ) ^ (e - k) := by
  rw [← zpow_natCast, ← zpow_add₀ two_ne_zero]
  congr 1
  omega

section Binade

variable {q : ℚ} {e : ℤ} (hle : (2 : ℚ) ^ e ≤ |q|) (hlt : |q| < (2 : ℚ) ^ (e + 1))
include hle hlt

theorem roundSignificand_le_mul_iff (n : ℤ) :
    roundSignificand q ≤ n * (2 : ℚ) ^ (e - 52) ↔ q < (n + 1 / 2) * (2 : ℚ) ^ (e - 52) ∨
      q = (n + 1 / 2) * (2 : ℚ) ^ (e - 52) ∧ n % 2 = 0 := by
  have hu : (0 : ℚ) < (2 : ℚ) ^ (e - 52) := zpow_pos two_pos _
  rw [roundSignificand_of_mem hle hlt, mul_le_mul_iff_left₀ hu, Int.cast_le, roundHalfEven_le_iff,
    div_lt_iff₀ hu, div_eq_iff hu.ne']

theorem mul_le_roundSignificand_iff (n : ℤ) :
    n * (2 : ℚ) ^ (e - 52) ≤ roundSignificand q ↔ (n - 1 / 2) * (2 : ℚ) ^ (e - 52) < q ∨
      q = (n - 1 / 2) * (2 : ℚ) ^ (e - 52) ∧ n % 2 = 0 := by
  have hu : (0 : ℚ) < (2 : ℚ) ^ (e - 52) := zpow_pos two_pos _
  rw [roundSignificand_of_mem hle hlt, mul_le_mul_iff_left₀ hu, Int.cast_le, le_roundHalfEven_iff,
    lt_div_iff₀ hu, div_eq_iff hu.ne']

theorem abs_sub_le_of_mem : |roundSignificand q - q| ≤ |q| / 2 ^ 53 := by
  have hu : (0 : ℚ) < (2 : ℚ) ^ (e - 52) := zpow_pos two_pos _
  have herror := abs_roundHalfEven_sub_le (q / (2 : ℚ) ^ (e - 52))
  calc |roundSignificand q - q|
      = |(roundHalfEven (q / (2 : ℚ) ^ (e - 52)) : ℚ) - q / (2 : ℚ) ^ (e - 52)| *
          (2 : ℚ) ^ (e - 52) := by
        rw [roundSignificand_of_mem hle hlt, ← abs_of_pos hu, ← abs_mul, abs_of_pos hu, sub_mul,
          div_mul_cancel₀ _ hu.ne']
    _ ≤ 1 / 2 * (2 : ℚ) ^ (e - 52) := mul_le_mul_of_nonneg_right herror hu.le
    _ ≤ |q| / 2 ^ 53 := by
        rw [two_zpow_eq e 52] at hle
        push_cast at hle
        rw [le_div_iff₀ (by positivity)]
        linarith

end Binade

/-- **The relative error of rounding** is that of half a unit in the last place, or less. -/
theorem abs_roundSignificand_sub_le (q : ℚ) : |roundSignificand q - q| ≤ |q| / 2 ^ 53 := by
  by_cases hq : q = 0
  · simp [hq, roundSignificand_zero]
  · obtain ⟨e, hle, hlt⟩ := exists_zpow_le hq
    exact abs_sub_le_of_mem hle hlt

/-- `r` is `q` up to the relative errors of `k` roundings. -/
def RoundedFrom (k : ℕ) (q r : ℚ) : Prop :=
  ∃ f, (1 - 1 / 2 ^ 53) ^ k ≤ f ∧ f ≤ (1 + 1 / 2 ^ 53) ^ k ∧ r = q * f

namespace RoundedFrom

theorem refl (q : ℚ) : RoundedFrom 0 q q := ⟨1, by simp, by simp, (mul_one q).symm⟩

variable {k : ℕ} {q r : ℚ}

theorem mul_right (h : RoundedFrom k q r) (c : ℚ) : RoundedFrom k (q * c) (r * c) := by
  obtain ⟨f, hlow, hhigh, rfl⟩ := h
  exact ⟨f, hlow, hhigh, mul_right_comm q f c⟩

theorem div_right (h : RoundedFrom k q r) (c : ℚ) : RoundedFrom k (q / c) (r / c) := by
  rw [div_eq_mul_inv, div_eq_mul_inv]
  exact h.mul_right c⁻¹

/-- Rounding multiplies by a number that is close to one. -/
theorem round (h : RoundedFrom k q r) : RoundedFrom (k + 1) q (roundSignificand r) := by
  obtain ⟨f, hlow, hhigh, rfl⟩ := h
  obtain ⟨g, hg, heq⟩ : ∃ g : ℚ, |g - 1| ≤ 1 / 2 ^ 53 ∧
      roundSignificand (q * f) = q * f * g := by
    by_cases hzero : q * f = 0
    · exact ⟨1, by simp, by rw [hzero, roundSignificand_zero, zero_mul]⟩
    · have herror := abs_roundSignificand_sub_le (q * f)
      have hpos := abs_pos.2 hzero
      refine ⟨roundSignificand (q * f) / (q * f), ?_, (mul_div_cancel₀ _ hzero).symm⟩
      rw [div_sub_one hzero, abs_div, div_le_iff₀ hpos]
      linarith
  obtain ⟨hglow, hghigh⟩ := abs_le.1 hg
  have hf : 0 ≤ f := le_trans (by positivity) hlow
  refine ⟨f * g, ?_, ?_, by rw [heq, mul_assoc]⟩
  · rw [pow_succ]
    exact mul_le_mul hlow (by linarith) (by norm_num) hf
  · rw [pow_succ]
    exact mul_le_mul hhigh (by linarith) (by linarith) (by positivity)

theorem abs_bounds (h : RoundedFrom k q r) :
    0 ≤ q * r ∧ |q| * (1 - 1 / 2 ^ 53) ^ k ≤ |r| ∧ |r| ≤ |q| * (1 + 1 / 2 ^ 53) ^ k := by
  obtain ⟨f, hlow, hhigh, rfl⟩ := h
  have hf : 0 ≤ f := le_trans (by positivity) hlow
  rw [abs_mul, abs_of_nonneg hf, ← mul_assoc]
  exact ⟨mul_nonneg (mul_self_nonneg q) hf, mul_le_mul_of_nonneg_left hlow (abs_nonneg q),
    mul_le_mul_of_nonneg_left hhigh (abs_nonneg q)⟩

end RoundedFrom

theorem roundSignificand_mem_Icc {q : ℚ} {e : ℤ} (hle : (2 : ℚ) ^ e ≤ q)
    (hlt : q < (2 : ℚ) ^ (e + 1)) :
    (2 : ℚ) ^ e ≤ roundSignificand q ∧ roundSignificand q ≤ (2 : ℚ) ^ (e + 1) := by
  have hu : (0 : ℚ) < (2 : ℚ) ^ (e - 52) := zpow_pos two_pos _
  have habs : |q| = q := abs_of_pos (lt_of_lt_of_le (zpow_pos two_pos e) hle)
  have hlow := mul_le_roundSignificand_iff (by rwa [habs]) (by rwa [habs]) (2 ^ 52)
  have hhigh := roundSignificand_le_mul_iff (by rwa [habs]) (by rwa [habs]) (2 ^ 53)
  have hsucc : (2 : ℚ) ^ (e + 1) = 2 ^ 53 * (2 : ℚ) ^ (e - 52) := by
    rw [two_zpow_eq (e + 1) 53]
    congr 2
    omega
  have hbase : (2 : ℚ) ^ e = 2 ^ 52 * (2 : ℚ) ^ (e - 52) := two_zpow_eq e 52
  push_cast at hlow hhigh
  rw [hsucc] at hlt ⊢
  rw [hbase] at hle ⊢
  exact ⟨hlow.2 (.inl (by linarith)), hhigh.2 (.inl (by linarith))⟩

theorem roundSignificand_nonneg {q : ℚ} (hq : 0 ≤ q) : 0 ≤ roundSignificand q := by
  rcases hq.eq_or_lt with rfl | hpos
  · exact roundSignificand_zero.ge
  · obtain ⟨e, hle, hlt⟩ := exists_zpow_le hpos.ne'
    rw [abs_of_pos hpos] at hle hlt
    exact (zpow_pos two_pos e).le.trans (roundSignificand_mem_Icc hle hlt).1

theorem roundSignificand_nonpos {q : ℚ} (hq : q ≤ 0) : roundSignificand q ≤ 0 := by
  have h := roundSignificand_nonneg (neg_nonneg.2 hq)
  rwa [roundSignificand_neg, neg_nonneg] at h

/-! ## Across a power of two -/

/-- A number is rounded past a power of two when it is more than half a unit of the numbers above
it away. -/
theorem roundSignificand_le_two_zpow_iff (q : ℚ) (e : ℤ) :
    roundSignificand q ≤ (2 : ℚ) ^ e ↔ q ≤ (2 : ℚ) ^ e + (2 : ℚ) ^ (e - 53) := by
  have hu : (0 : ℚ) < (2 : ℚ) ^ (e - 53) := zpow_pos two_pos _
  have hbase : (2 : ℚ) ^ e = 2 ^ 53 * (2 : ℚ) ^ (e - 53) := two_zpow_eq e 53
  rcases le_or_gt q 0 with hq | hq
  · have hpow : (0 : ℚ) < (2 : ℚ) ^ e := zpow_pos two_pos e
    exact iff_of_true ((roundSignificand_nonpos hq).trans hpow.le) (by linarith)
  obtain ⟨k, hle, hlt⟩ := exists_zpow_le hq.ne'
  rw [abs_of_pos hq] at hle hlt
  obtain ⟨hlow, hhigh⟩ := roundSignificand_mem_Icc hle hlt
  rcases lt_trichotomy k e with hke | rfl | hek
  · have hpow : (2 : ℚ) ^ (k + 1) ≤ (2 : ℚ) ^ e := zpow_le_zpow_right₀ one_le_two hke
    exact iff_of_true (hhigh.trans hpow) (by linarith)
  · have hiff := roundSignificand_le_mul_iff (by rwa [abs_of_pos hq]) (by rwa [abs_of_pos hq])
      (2 ^ 52)
    have hunit : (2 : ℚ) ^ (k - 52) = 2 * (2 : ℚ) ^ (k - 53) := by
      rw [two_zpow_eq (k - 52) 1]
      congr 2
      omega
    have hscale : ((2 ^ 52 : ℤ) : ℚ) * (2 : ℚ) ^ (k - 52) = (2 : ℚ) ^ k := by
      rw [hbase, hunit]
      push_cast
      ring
    rw [hscale] at hiff
    rw [hiff, hunit, hbase]
    push_cast
    constructor
    · rintro (h | ⟨h, -⟩) <;> linarith
    · intro h
      rcases h.lt_or_eq with h | h
      · exact .inl (by linarith)
      · exact .inr ⟨by linarith, by norm_num⟩
  · have hpow : (2 : ℚ) ^ (e + 1) ≤ (2 : ℚ) ^ k := zpow_le_zpow_right₀ one_le_two hek
    rw [zpow_add_one₀ two_ne_zero] at hpow
    exact iff_of_false (by linarith) (by linarith)

/-- A number below a power of two is rounded up to it from half a unit of the numbers below. -/
theorem roundSignificand_lt_two_zpow_iff (q : ℚ) (e : ℤ) :
    roundSignificand q < (2 : ℚ) ^ e ↔ q < (2 : ℚ) ^ e - (2 : ℚ) ^ (e - 54) := by
  have hu : (0 : ℚ) < (2 : ℚ) ^ (e - 54) := zpow_pos two_pos _
  have hbase : (2 : ℚ) ^ e = 2 ^ 54 * (2 : ℚ) ^ (e - 54) := two_zpow_eq e 54
  rcases le_or_gt q 0 with hq | hq
  · have hpow : (0 : ℚ) < (2 : ℚ) ^ e := zpow_pos two_pos e
    exact iff_of_true ((roundSignificand_nonpos hq).trans_lt hpow) (by linarith)
  obtain ⟨k, hle, hlt⟩ := exists_zpow_le hq.ne'
  rw [abs_of_pos hq] at hle hlt
  obtain ⟨hlow, hhigh⟩ := roundSignificand_mem_Icc hle hlt
  rcases lt_trichotomy (k + 1) e with hke | rfl | hek
  · have hpow : (2 : ℚ) ^ (k + 1 + 1) ≤ (2 : ℚ) ^ e := zpow_le_zpow_right₀ one_le_two hke
    rw [zpow_add_one₀ two_ne_zero] at hpow
    have hk : (0 : ℚ) < (2 : ℚ) ^ (k + 1) := zpow_pos two_pos _
    exact iff_of_true (by linarith) (by linarith)
  · have hiff := mul_le_roundSignificand_iff (by rwa [abs_of_pos hq]) (by rwa [abs_of_pos hq])
      (2 ^ 53)
    have hunit : (2 : ℚ) ^ (k - 52) = 2 * (2 : ℚ) ^ (k + 1 - 54) := by
      rw [two_zpow_eq (k - 52) 1]
      congr 2
      omega
    have hscale : ((2 ^ 53 : ℤ) : ℚ) * (2 : ℚ) ^ (k - 52) = (2 : ℚ) ^ (k + 1) := by
      rw [hbase, hunit]
      push_cast
      ring
    rw [hscale] at hiff
    rw [← not_le, ← @not_le _ _ _ q, not_iff_not, hiff, hunit, hbase]
    push_cast
    constructor
    · rintro (h | ⟨h, -⟩) <;> linarith
    · intro h
      rcases h.lt_or_eq with h | h
      · exact .inl (by linarith)
      · exact .inr ⟨by linarith, by norm_num⟩
  · have hpow : (2 : ℚ) ^ e ≤ (2 : ℚ) ^ k := zpow_le_zpow_right₀ one_le_two (by omega)
    exact iff_of_false (by linarith) (by linarith)

/-! ## The integer part -/

theorem truncate_intCast (n : ℤ) : truncate n = n := by
  simp [truncate]

theorem truncate_towards_zero (q : ℚ) :
    0 ≤ q * truncate q ∧ |q| - 1 < |(truncate q : ℚ)| ∧ |(truncate q : ℚ)| ≤ |q| := by
  unfold truncate
  split
  · next hq =>
    have hfloor : (0 : ℚ) ≤ ⌊q⌋ := by exact_mod_cast Int.floor_nonneg.2 hq
    rw [abs_of_nonneg hq, abs_of_nonneg hfloor]
    exact ⟨mul_nonneg hq hfloor, by linarith [Int.lt_floor_add_one q], Int.floor_le q⟩
  · next hq =>
    have hneg : q ≤ 0 := (not_le.1 hq).le
    have hceil : (⌈q⌉ : ℚ) ≤ 0 := by exact_mod_cast Int.ceil_le.2 (by simpa using hneg)
    rw [abs_of_nonpos hneg, abs_of_nonpos hceil]
    exact ⟨mul_nonneg_of_nonpos_of_nonpos hneg hceil, by linarith [Int.ceil_lt_add_one q],
      neg_le_neg (Int.le_ceil q)⟩

theorem RoundedFrom.truncate_bounds {k : ℕ} {q r : ℚ} (h : RoundedFrom k q r) :
    0 ≤ q * truncate r ∧ |q| * (1 - 1 / 2 ^ 53) ^ k - 1 < |(truncate r : ℚ)| ∧
      |(truncate r : ℚ)| ≤ |q| * (1 + 1 / 2 ^ 53) ^ k := by
  obtain ⟨hsign, hlow, hhigh⟩ := h.abs_bounds
  obtain ⟨hsign', hlow', hhigh'⟩ := truncate_towards_zero r
  refine ⟨?_, by linarith, by linarith⟩
  by_cases hr : r = 0
  · have hzero : truncate r = 0 := by simp [hr, truncate]
    simp [hzero]
  · have hprod : 0 ≤ q * truncate r * (r * r) := by
      calc 0 ≤ q * r * (r * truncate r) := mul_nonneg hsign hsign'
        _ = q * truncate r * (r * r) := by ring
    exact (mul_nonneg_iff_of_pos_right (mul_self_pos.2 hr)).1 hprod

theorem abs_sub_of_mul_nonneg {a b : ℚ} (h : 0 ≤ a * b) : |b - a| = abs (|b| - |a|) := by
  rcases mul_nonneg_iff.1 h with ⟨ha, hb⟩ | ⟨ha, hb⟩
  · rw [abs_of_nonneg ha, abs_of_nonneg hb]
  · rw [abs_of_nonpos ha, abs_of_nonpos hb, neg_sub_neg, abs_sub_comm]

theorem truncate_lt_iff {q : ℚ} {n : ℤ} (hn : 0 < n) : truncate q < n ↔ q < n := by
  unfold truncate
  split
  · exact Int.floor_lt
  · next hq =>
    have hn' : (0 : ℚ) < n := by exact_mod_cast hn
    have hceil : ⌈q⌉ ≤ 0 := Int.ceil_le.2 (by push_cast; linarith)
    exact iff_of_true (by omega) (by linarith)

theorem neg_le_truncate_iff {q : ℚ} {n : ℤ} (hn : 0 ≤ n) : -n ≤ truncate q ↔ -n - 1 < q := by
  unfold truncate
  split
  · next hq =>
    have hn' : (0 : ℚ) ≤ n := by exact_mod_cast hn
    have hfloor : 0 ≤ ⌊q⌋ := Int.floor_nonneg.2 hq
    exact iff_of_true (by omega) (by linarith)
  · rw [Int.le_ceil_iff]
    push_cast
    rfl

theorem exists_int_roundSignificand {q : ℚ} (h : 2 ^ 52 ≤ |q|) :
    ∃ n : ℤ, roundSignificand q = n := by
  have hpos : 0 < |q| := lt_of_lt_of_le (by positivity) h
  obtain ⟨e, hle, hlt⟩ := exists_zpow_le (abs_pos.1 hpos)
  have he : 52 < e + 1 := by
    rw [← zpow_lt_zpow_iff_right₀ (one_lt_two : (1 : ℚ) < 2)]
    exact lt_of_le_of_lt (by exact_mod_cast h) hlt
  obtain ⟨k, hk⟩ := Int.eq_ofNat_of_zero_le (show 0 ≤ e - 52 by omega)
  refine ⟨roundHalfEven (q / (2 : ℚ) ^ (e - 52)) * 2 ^ k, ?_⟩
  rw [roundSignificand_of_mem hle hlt]
  push_cast
  rw [hk, zpow_natCast]

/-- The numbers whose integer part fits in 64 bits after they have been rounded. -/
theorem truncate_roundSignificand_iff (q : ℚ) :
    -2 ^ 63 ≤ truncate (roundSignificand q) ∧ truncate (roundSignificand q) < 2 ^ 63 ↔
      -2 ^ 63 - 1024 ≤ q ∧ q < 2 ^ 63 - 512 := by
  rw [truncate_lt_iff (by norm_num), neg_le_truncate_iff (by norm_num)]
  push_cast
  refine and_congr ?_ ?_
  · have hiff := roundSignificand_le_two_zpow_iff (-q) 63
    rw [roundSignificand_neg] at hiff
    norm_num at hiff ⊢
    constructor
    · intro h
      by_contra hq
      have hbelow : ¬ -roundSignificand q ≤ 9223372036854775808 := fun hle =>
        hq (by linarith [hiff.1 hle])
      have habs : 2 ^ 52 ≤ |q| := by
        rw [le_abs]
        right
        norm_num
        linarith
      obtain ⟨n, hn⟩ := exists_int_roundSignificand habs
      rw [hn] at h hbelow
      norm_cast at h hbelow
      omega
    · intro h
      have hle := hiff.2 (by linarith)
      linarith
  · have hiff := roundSignificand_lt_two_zpow_iff q 63
    norm_num at hiff ⊢
    exact hiff

end ThePipe.Lib
