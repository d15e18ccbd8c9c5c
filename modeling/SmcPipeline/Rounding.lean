import Mathlib.Algebra.Order.Floor.Ring
import Mathlib.Algebra.Order.Field.Basic
import Mathlib.Tactic.Linarith

/-!
# Rounding to decimals

`round(x, n)`: the nearest multiple of `10 ^ (-n)`, and of two nearest ones the even one.
-/

namespace SmcPipeline.Rounding

variable {K : Type*} [Field K] [LinearOrder K] [FloorRing K]

/-- The nearest integer, of two the even one. -/
def roundHalfEven (x : K) : ℤ :=
  let rest := x - (⌊x⌋ : K)
  if rest + rest < 1 then ⌊x⌋
  else if 1 < rest + rest then ⌊x⌋ + 1
  else if ⌊x⌋ % 2 = 0 then ⌊x⌋ else ⌊x⌋ + 1

/-- `round(x, n)` -/
def roundTo (n : ℕ) (x : K) : K := (roundHalfEven (x * ((10 ^ n : ℕ) : K)) : K) / ((10 ^ n : ℕ) : K)

variable [IsStrictOrderedRing K]

/-- Rounding stays at or below an even number up to half past it. -/
theorem roundHalfEven_le_iff {x : K} {n : ℤ} (hn : n % 2 = 0) :
    roundHalfEven x ≤ n ↔ x + x ≤ n + n + 1 := by
  have hfloor : (⌊x⌋ : K) ≤ x := Int.floor_le x
  have hlt : x < ⌊x⌋ + 1 := Int.lt_floor_add_one x
  have hbelow : ⌊x⌋ + 1 ≤ n → x + x ≤ n + n + 1 := by
    intro h
    have hcast : (⌊x⌋ : K) + 1 ≤ n := by exact_mod_cast h
    linarith
  have habove : n + 1 ≤ ⌊x⌋ → ¬ x + x ≤ n + n + 1 := by
    intro h hle
    have hcast : (n : K) + 1 ≤ ⌊x⌋ := by exact_mod_cast h
    linarith
  have hsame : ⌊x⌋ = n → (⌊x⌋ : K) = n := fun h => by rw [h]
  unfold roundHalfEven
  dsimp only
  rcases lt_trichotomy ⌊x⌋ n with hlow | heq | hhigh
  · have hle := hbelow (by omega)
    split_ifs <;> (refine ⟨fun _ => hle, fun _ => ?_⟩; omega)
  · have hcast := hsame heq
    split_ifs with h₁ h₂ h₃
    · exact ⟨fun _ => by linarith, fun _ => heq.le⟩
    · exact ⟨fun h => by omega, fun h => by linarith⟩
    · exact ⟨fun _ => by linarith, fun _ => heq.le⟩
    · omega
  · have hnot := habove (by omega)
    split_ifs <;> (refine ⟨fun _ => ?_, fun h => absurd h hnot⟩; omega)

/-- Rounding goes at most half a step. -/
theorem two_mul_abs_sub_roundHalfEven_le (x : K) : 2 * |x - roundHalfEven x| ≤ 1 := by
  have hfloor : (⌊x⌋ : K) ≤ x := Int.floor_le x
  have hlt : x < ⌊x⌋ + 1 := Int.lt_floor_add_one x
  have habove : 1 ≤ (x - ⌊x⌋) + (x - ⌊x⌋) → 2 * |x - ((⌊x⌋ + 1 : ℤ) : K)| ≤ 1 := by
    intro h
    rw [Int.cast_add, Int.cast_one, abs_of_neg (by linarith)]
    linarith
  have hbelow : (x - ⌊x⌋) + (x - ⌊x⌋) ≤ 1 → 2 * |x - (⌊x⌋ : K)| ≤ 1 := by
    intro h
    rw [abs_of_nonneg (by linarith)]
    linarith
  unfold roundHalfEven
  dsimp only
  split_ifs with hlow hhigh
  · exact hbelow hlow.le
  · exact habove hhigh.le
  · exact hbelow (not_lt.mp hhigh)
  · exact habove (not_lt.mp hlow)

/-- A number is rounded to the integer less than half a step away. -/
theorem roundHalfEven_of_lt {x : K} {n : ℤ} (h : 2 * |x - n| < 1) : roundHalfEven x = n := by
  have hround := two_mul_abs_sub_roundHalfEven_le x
  have hdist : |((roundHalfEven x - n : ℤ) : K)| < 1 := by
    have htriangle := abs_sub_le (roundHalfEven x : K) x n
    rw [abs_sub_comm (roundHalfEven x : K) x] at htriangle
    rw [Int.cast_sub]
    linarith
  have hint : |roundHalfEven x - n| < 1 := by exact_mod_cast hdist
  exact sub_eq_zero.mp (Int.abs_lt_one_iff.mp hint)

/-- Of two integers half a step away the even one is taken. -/
theorem roundHalfEven_of_even {x : K} {n : ℤ} (hn : n % 2 = 0) (h : 2 * |x - n| ≤ 1) :
    roundHalfEven x = n := by
  obtain ⟨hlow, hhigh⟩ := abs_le.mp (show |x - n| ≤ 1 / 2 by linarith)
  unfold roundHalfEven
  dsimp only
  by_cases hbelow : x < n
  · have hfloor : ⌊x⌋ = n - 1 :=
      Int.floor_eq_iff.mpr ⟨by push_cast; linarith, by push_cast; linarith⟩
    rw [hfloor]
    push_cast
    split_ifs
    · linarith
    · omega
    · omega
    · omega
  · have hfloor : ⌊x⌋ = n := Int.floor_eq_iff.mpr ⟨not_lt.mp hbelow, by linarith⟩
    rw [hfloor]
    split_ifs
    · rfl
    · linarith
    · rfl

@[simp] theorem roundHalfEven_intCast (n : ℤ) : roundHalfEven (n : K) = n :=
  roundHalfEven_of_lt (by rw [sub_self, abs_zero, mul_zero]; exact one_pos)

end SmcPipeline.Rounding
