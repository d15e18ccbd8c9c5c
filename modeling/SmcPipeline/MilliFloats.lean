import SmcPipeline.FloatRounding
import Mathlib.Algebra.Order.Field.Rat
import Mathlib.Data.Rat.Floor

/-!
# Milliseconds by way of float seconds

A count of milliseconds is divided by 1000, kept as a binary64 number of seconds and multiplied
by 1000 again. The first rounding is off by up to half the spacing of the seconds. From
`1000 * 2 ^ e` up to `2 ^ (e + 10)` the spacing of the milliseconds is only 512 times as large,
and there the second rounding does not always take the error back.
-/

namespace SmcPipeline.MilliFloats

open Rounding FloatRounding

/-- A number as a Python float. -/
def fl (x : ℚ) : ℚ := nearest 53 x

/-- The float seconds of a count of milliseconds. -/
def seconds (t : ℕ) : ℚ := fl ((t : ℚ) / 1000)

/-- The exponent of the seconds. -/
def binade (t : ℕ) : ℕ := Nat.log 2 (t / 1000)

/-- The milliseconds, counted in spacings of the seconds. -/
def spacings (t : ℕ) : ℕ := t * 2 ^ (52 - binade t)

/-- The milliseconds that float seconds give back. -/
def Recovered (t : ℕ) : Prop :=
  2 ^ (binade t + 10) ≤ t ∨ spacings t % 1000 ≤ 256 ∨ 744 ≤ spacings t % 1000

instance : DecidablePred Recovered := fun _ => inferInstanceAs (Decidable (_ ∨ _))

/-- The spacing of the seconds. -/
def unit (t : ℕ) : ℚ := 2 ^ ((binade t : ℤ) - 52)

theorem unit_pos (t : ℕ) : 0 < unit t := zpow_pos two_pos _

theorem zpow_eq_mul_unit {t k : ℕ} {e : ℤ} (h : e + 52 = binade t + k) :
    (2 : ℚ) ^ e = 2 ^ k * unit t := by
  unfold unit
  rw [← zpow_natCast, ← zpow_add₀ two_ne_zero]
  congr 1
  omega

/-- Rounding where the floats are `2 ^ j` spacings of the seconds apart. -/
theorem fl_mul_unit {t j : ℕ} {q : ℚ} (hlow : 2 ^ (52 + j) ≤ q) (hhigh : q < 2 ^ (53 + j)) :
    fl (q * unit t) = roundHalfEven (q / 2 ^ j) * (2 ^ j * unit t) := by
  have hunit := unit_pos t
  have hspacing : spacing 53 (q * unit t) = 2 ^ j * unit t := by
    rw [spacing_eq (e := (binade t : ℤ) + j)]
    · exact zpow_eq_mul_unit (by push_cast; omega)
    · rw [zpow_eq_mul_unit (t := t) (k := 52 + j) (by push_cast; omega)]
      exact mul_le_mul_of_nonneg_right hlow hunit.le
    · rw [zpow_eq_mul_unit (t := t) (k := 53 + j) (by push_cast; omega)]
      exact mul_lt_mul_of_pos_right hhigh hunit
  unfold fl nearest
  rw [hspacing, mul_div_mul_right _ _ hunit.ne']

/-- What is used of a count of milliseconds. -/
structure Usual (t : ℕ) : Prop where
  large : 1000 ≤ t
  small : binade t ≤ 42

theorem Usual.millis_eq {t : ℕ} (h : Usual t) : (t : ℚ) = spacings t * unit t := by
  have hsmall := h.small
  have hsplit : (2 : ℚ) ^ (52 - binade t) * unit t = 1 := by
    rw [← zpow_eq_mul_unit (e := 0) (by omega), zpow_zero]
  unfold spacings
  push_cast
  rw [mul_assoc, hsplit, mul_one]

theorem Usual.bounds {t : ℕ} (h : Usual t) :
    2 ^ binade t * 1000 ≤ t ∧ t < 2 ^ (binade t + 1) * 1000 := by
  have hlarge := h.large
  have hlow : 2 ^ binade t ≤ t / 1000 := Nat.pow_log_le_self 2 (by omega)
  have hhigh : t / 1000 < 2 ^ (binade t + 1) := Nat.lt_pow_succ_log_self one_lt_two _
  omega

theorem Usual.spacings_bounds {t : ℕ} (h : Usual t) :
    2 ^ 52 * 1000 ≤ spacings t ∧ spacings t < 2 ^ 53 * 1000 := by
  have hsmall := h.small
  obtain ⟨hlow, hhigh⟩ := h.bounds
  have hpow : 2 ^ binade t * 2 ^ (52 - binade t) = 2 ^ 52 := by
    rw [← pow_add]
    congr 1
    omega
  unfold spacings
  constructor
  · calc 2 ^ 52 * 1000 = 2 ^ binade t * 1000 * 2 ^ (52 - binade t) := by rw [← hpow]; ring
      _ ≤ t * 2 ^ (52 - binade t) := Nat.mul_le_mul_right _ hlow
  · calc t * 2 ^ (52 - binade t) < 2 ^ (binade t + 1) * 1000 * 2 ^ (52 - binade t) :=
        Nat.mul_lt_mul_of_pos_right hhigh (by positivity)
      _ = 2 ^ 53 * 1000 := by rw [pow_succ, show 2 ^ 53 = 2 ^ 52 * 2 by norm_num, ← hpow]; ring

/-- A count of milliseconds is a multiple of 1024 spacings of the seconds. -/
theorem Usual.exists_eq_1024_mul {t : ℕ} (h : Usual t) : ∃ m, spacings t = 1024 * m := by
  refine ⟨t * 2 ^ (42 - binade t), ?_⟩
  have hsmall := h.small
  unfold spacings
  rw [show 52 - binade t = 42 - binade t + 10 by omega, pow_add]
  ring

/-- It reaches the next binade of the milliseconds at `2 ^ 62` spacings. -/
theorem Usual.next_binade_iff {t : ℕ} (h : Usual t) :
    2 ^ (binade t + 10) ≤ t ↔ 2 ^ 62 ≤ spacings t := by
  have hsmall := h.small
  have hpow : 2 ^ (binade t + 10) * 2 ^ (52 - binade t) = 2 ^ 62 := by
    rw [← pow_add]
    congr 1
    omega
  unfold spacings
  rw [← hpow]
  exact (Nat.mul_le_mul_right_iff (by positivity)).symm

/-- The error `d` of the float seconds, in thousandths of their spacing. -/
theorem exists_error {t : ℕ} (h : Usual t) :
    ∃ d : ℤ, 1000 * seconds t = (spacings t + d : ℤ) * unit t ∧ 2 * |d| ≤ 1000 ∧
      (spacings t + d) % 1000 = 0 := by
  obtain ⟨hlow, hhigh⟩ := h.spacings_bounds
  have hquotient : (t : ℚ) / 1000 = (spacings t : ℚ) / 1000 * unit t := by
    rw [h.millis_eq]
    ring
  have hlow' : (2 : ℚ) ^ 52 * 1000 ≤ spacings t := by exact_mod_cast hlow
  have hhigh' : (spacings t : ℚ) < 2 ^ 53 * 1000 := by exact_mod_cast hhigh
  have hfl := fl_mul_unit (t := t) (j := 0) (q := (spacings t : ℚ) / 1000) (by linarith)
    (by linarith)
  rw [pow_zero, one_mul, div_one] at hfl
  generalize hround : roundHalfEven ((spacings t : ℚ) / 1000) = a
  have hseconds : seconds t = a * unit t := by
    rw [seconds, hquotient, hfl, hround]
  have herror := two_mul_abs_sub_roundHalfEven_le ((spacings t : ℚ) / 1000)
  rw [hround] at herror
  refine ⟨1000 * a - spacings t, ?_, ?_, by omega⟩
  · rw [hseconds]
    push_cast
    ring
  · have hscaled : 2 * |1000 * (a : ℚ) - spacings t| ≤ 1000 := by
      rw [show 1000 * (a : ℚ) - spacings t = -(1000 * ((spacings t : ℚ) / 1000 - a)) by ring,
        abs_neg, abs_mul, abs_of_pos (by norm_num : (0 : ℚ) < 1000)]
      linarith
    exact_mod_cast hscaled

/-- Where the milliseconds are 1024 spacings of the seconds apart, every error is taken back. -/
theorem fl_of_next_binade {t : ℕ} (h : Usual t) (hnext : 2 ^ (binade t + 10) ≤ t) {d : ℤ}
    (hd : 2 * |d| ≤ 1000) (hthousand : (spacings t + d) % 1000 = 0) :
    fl ((spacings t + d : ℤ) * unit t) = t := by
  obtain ⟨hd₁, hd₂⟩ := abs_le.mp (show |d| ≤ 500 by omega)
  obtain ⟨-, hhigh⟩ := h.spacings_bounds
  obtain ⟨m, hm⟩ := h.exists_eq_1024_mul
  have hmany := h.next_binade_iff.mp hnext
  have hround : roundHalfEven (((spacings t + d : ℤ) : ℚ) / 2 ^ 10) = m := by
    apply roundHalfEven_of_lt
    have hdist : ((spacings t + d : ℤ) : ℚ) / 2 ^ 10 - (m : ℤ) = d / 1024 := by
      rw [hm]
      push_cast
      ring
    have hd' : 2 * |(d : ℚ)| ≤ 1000 := by exact_mod_cast hd
    rw [hdist, abs_div, abs_of_pos (by norm_num : (0 : ℚ) < 1024)]
    linarith
  rw [fl_mul_unit (j := 10) (by exact_mod_cast (by omega)) (by exact_mod_cast (by omega)), hround,
    h.millis_eq, hm]
  push_cast
  ring

/-- Below it they are 512 spacings apart, and an error of up to half of that is taken back. -/
theorem fl_of_same_binade {t : ℕ} (h : Usual t) (hsame : t < 2 ^ (binade t + 10)) {d : ℤ}
    (hd : 2 * |d| ≤ 1000) : fl ((spacings t + d : ℤ) * unit t) = t ↔ |d| ≤ 256 := by
  obtain ⟨hd₁, hd₂⟩ := abs_le.mp (show |d| ≤ 500 by omega)
  obtain ⟨hlow, -⟩ := h.spacings_bounds
  obtain ⟨m, hm⟩ := h.exists_eq_1024_mul
  have hfew : spacings t < 2 ^ 62 := by
    rw [← not_le, ← h.next_binade_iff, not_le]
    exact hsame
  have hdist : 2 * |((spacings t + d : ℤ) : ℚ) / 2 ^ 9 - (2 * m : ℤ)| = |(d : ℚ)| / 256 := by
    have hdiff : ((spacings t + d : ℤ) : ℚ) / 2 ^ 9 - (2 * m : ℤ) = d / 512 := by
      rw [hm]
      push_cast
      ring
    rw [hdiff, abs_div, abs_of_pos (by norm_num : (0 : ℚ) < 512)]
    ring
  have hmillis : (t : ℚ) = (2 * m : ℤ) * (2 ^ 9 * unit t) := by
    rw [h.millis_eq, hm]
    push_cast
    ring
  have hstep : (2 : ℚ) ^ 9 * unit t ≠ 0 := mul_ne_zero (by norm_num) (unit_pos t).ne'
  rw [fl_mul_unit (j := 9) (by exact_mod_cast (by omega)) (by exact_mod_cast (by omega)), hmillis,
    mul_left_inj' hstep, Int.cast_inj]
  constructor
  · intro hround
    have herror := two_mul_abs_sub_roundHalfEven_le (((spacings t + d : ℤ) : ℚ) / 2 ^ 9)
    rw [hround, hdist, div_le_one (by norm_num)] at herror
    exact_mod_cast herror
  · intro hsmall
    refine roundHalfEven_of_even (by omega) ?_
    rw [hdist, div_le_one (by norm_num)]
    exact_mod_cast hsmall

/-- A thousand times the float seconds are the milliseconds exactly if these are recovered. -/
theorem recovered_iff {t : ℕ} (h : Usual t) : fl (1000 * seconds t) = t ↔ Recovered t := by
  obtain ⟨d, hmillis, hd, hthousand⟩ := exists_error h
  have hresidue : |d| ≤ 256 ↔ spacings t % 1000 ≤ 256 ∨ 744 ≤ spacings t % 1000 := by
    rw [abs_le]
    obtain ⟨hd₁, hd₂⟩ := abs_le.mp (show |d| ≤ 500 by omega)
    omega
  rw [hmillis, Recovered, ← hresidue]
  by_cases hnext : 2 ^ (binade t + 10) ≤ t
  · exact iff_of_true (fl_of_next_binade h hnext hd hthousand) (Or.inl hnext)
  · rw [fl_of_same_binade h (not_le.mp hnext) hd]
    exact (or_iff_right hnext).symm

example : ¬Recovered 1073741824001 ∧ Recovered 1712120400123 := by decide

end SmcPipeline.MilliFloats
