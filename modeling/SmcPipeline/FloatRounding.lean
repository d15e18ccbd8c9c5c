import SmcPipeline.Rounding
import Mathlib.Data.Int.Log
import Mathlib.Tactic.FieldSimp

/-!
# Rounding to floating-point numbers

The numbers of `precision` binary digits, with exponents that are not bounded: the float
nearest to a number, of two nearest ones the one whose last digit is even.
-/

namespace SmcPipeline.FloatRounding

open Rounding

variable {K : Type*} [Field K] [LinearOrder K] [FloorRing K] [IsStrictOrderedRing K]
  {precision : ℕ}

/-- The distance of the floats of the binade of `x`. -/
def spacing (precision : ℕ) (x : K) : K := 2 ^ (Int.log 2 |x| + 1 - precision)

def nearest (precision : ℕ) (x : K) : K :=
  roundHalfEven (x / spacing precision x) * spacing precision x

theorem spacing_pos (x : K) : 0 < spacing precision x := zpow_pos two_pos _

/-- The spacing of the binade from `2 ^ e` on. -/
theorem spacing_eq {x : K} {e : ℤ} (h : 2 ^ e ≤ x) (h' : x < 2 ^ (e + 1)) :
    spacing precision x = 2 ^ (e + 1 - precision) := by
  have hpos : 0 < x := (zpow_pos two_pos e).trans_le h
  have hbase : ((2 : ℕ) : K) = 2 := Nat.cast_ofNat
  have hlow : e ≤ Int.log 2 x :=
    (Int.zpow_le_iff_le_log one_lt_two hpos).mp (by rw [hbase]; exact h)
  have hhigh : Int.log 2 x < e + 1 :=
    (Int.lt_zpow_iff_log_lt one_lt_two hpos).mp (by rw [hbase]; exact h')
  unfold spacing
  rw [abs_of_pos hpos, show Int.log 2 x = e by omega]

/-- A multiple of the spacing around it is a float. -/
theorem nearest_of_multiple {x : K} {n : ℤ} (h : x = n * spacing precision x) :
    nearest precision x = x := by
  have hquotient : x / spacing precision x = n := by
    rw [div_eq_iff (spacing_pos x).ne']
    exact h
  unfold nearest
  rw [hquotient, roundHalfEven_intCast]
  exact h.symm

theorem spacing_abs (x : K) : spacing precision |x| = spacing precision x := by
  unfold spacing
  rw [abs_abs]

/-- An integer of no more digits, and its product with a power of two, is a float. -/
theorem nearest_mul_two_pow {n : ℤ} (h : n.natAbs < 2 ^ precision) (k : ℕ) :
    nearest precision ((n : K) * 2 ^ k) = n * 2 ^ k := by
  rcases eq_or_ne n 0 with rfl | hn
  · unfold nearest
    rw [Int.cast_zero, zero_mul, zero_div, ← Int.cast_zero, roundHalfEven_intCast, Int.cast_zero,
      zero_mul]
  have hne : n.natAbs ≠ 0 := Int.natAbs_ne_zero.mpr hn
  have hlog : Nat.log 2 n.natAbs < precision := Nat.log_lt_of_lt_pow hne h
  have habs : |(n : K) * 2 ^ k| = (n.natAbs : K) * 2 ^ k := by
    rw [abs_mul, abs_pow, abs_two, Nat.cast_natAbs, Int.cast_abs]
  have hlow : (2 : K) ^ Nat.log 2 n.natAbs ≤ n.natAbs := by
    exact_mod_cast Nat.pow_log_le_self 2 hne
  have hhigh : (n.natAbs : K) < 2 ^ (Nat.log 2 n.natAbs + 1) := by
    exact_mod_cast Nat.lt_pow_succ_log_self one_lt_two n.natAbs
  have hspacing : spacing precision ((n : K) * 2 ^ k) =
      2 ^ (((Nat.log 2 n.natAbs + k : ℕ) : ℤ) + 1 - precision) := by
    rw [← spacing_abs, habs]
    apply spacing_eq
    · rw [zpow_natCast, pow_add]
      exact mul_le_mul_of_nonneg_right hlow (pow_pos two_pos k).le
    · rw [← Nat.cast_succ, zpow_natCast, Nat.succ_eq_add_one, Nat.add_right_comm, pow_add]
      exact mul_lt_mul_of_pos_right hhigh (pow_pos two_pos k)
  refine nearest_of_multiple (n := n * 2 ^ (precision - 1 - Nat.log 2 n.natAbs)) ?_
  rw [hspacing]
  push_cast
  rw [mul_assoc, ← zpow_natCast, ← zpow_natCast, ← zpow_add₀ two_ne_zero]
  congr 2
  omega

theorem nearest_intCast {n : ℤ} (h : n.natAbs < 2 ^ precision) :
    nearest precision (n : K) = n := by
  have hnearest := nearest_mul_two_pow (K := K) h 0
  rwa [pow_zero, mul_one] at hnearest

end SmcPipeline.FloatRounding
