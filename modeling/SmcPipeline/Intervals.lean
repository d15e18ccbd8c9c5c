import Mathlib.Algebra.Order.BigOperators.Group.List
import Mathlib.Algebra.Order.Field.Basic
import Mathlib.Order.Interval.Set.Defs
import Mathlib.Tactic.Linarith
import Mathlib.Tactic.Ring

/-!
# Values between two bounds

A value that may be missing lies between two bounds if it is missing or a number between them.
What picks some of the values, or mixes them, stays between.
-/

namespace SmcPipeline.Intervals

variable {K : Type*}

section

variable [LinearOrder K]

/-- Between the bounds, if it is there. -/
def Within (lo hi : K) (x : Option K) : Prop := ∀ a ∈ x, a ∈ Set.Icc lo hi

variable {lo hi : K}

@[simp] theorem within_none : Within lo hi none := fun _ ha => by cases ha

@[simp] theorem within_some {a : K} : Within lo hi (some a) ↔ a ∈ Set.Icc lo hi :=
  ⟨fun h => h a rfl, fun h b hb => by cases hb; exact h⟩

theorem mem_of_within {cells : List (Option K)} (h : ∀ x ∈ cells, Within lo hi x) :
    ∀ a ∈ cells.filterMap id, a ∈ Set.Icc lo hi := by
  intro a ha
  obtain ⟨x, hx, rfl⟩ := List.mem_filterMap.mp ha
  exact h _ hx a rfl

theorem within_max? {xs : List K} (h : ∀ a ∈ xs, a ∈ Set.Icc lo hi) : Within lo hi xs.max? :=
  fun a ha => h a (List.max?_mem ha)

theorem within_min? {xs : List K} (h : ∀ a ∈ xs, a ∈ Set.Icc lo hi) : Within lo hi xs.min? :=
  fun a ha => h a (List.min?_mem ha)

theorem min_mem {a b : K} (ha : a ∈ Set.Icc lo hi) (hb : b ∈ Set.Icc lo hi) :
    min a b ∈ Set.Icc lo hi := by
  rcases min_choice a b with h | h
  · rwa [h]
  · rwa [h]

theorem max_mem {a b : K} (ha : a ∈ Set.Icc lo hi) (hb : b ∈ Set.Icc lo hi) :
    max a b ∈ Set.Icc lo hi := by
  rcases max_choice a b with h | h
  · rwa [h]
  · rwa [h]

theorem foldl_mem {pick : K → K → K}
    (hpick : ∀ a ∈ Set.Icc lo hi, ∀ b ∈ Set.Icc lo hi, pick a b ∈ Set.Icc lo hi)
    {xs : List K} {a : K} (ha : a ∈ Set.Icc lo hi) (h : ∀ b ∈ xs, b ∈ Set.Icc lo hi) :
    xs.foldl pick a ∈ Set.Icc lo hi := by
  induction xs generalizing a with
  | nil => exact ha
  | cons b xs ih =>
      obtain ⟨hb, hxs⟩ := List.forall_mem_cons.mp h
      exact ih (hpick a ha b hb) hxs

end

section

variable [Field K] [LinearOrder K] [IsStrictOrderedRing K] {lo hi : K}

/-- The mean of some values. -/
theorem mean_mem {xs : List K} (hne : xs ≠ []) (h : ∀ a ∈ xs, a ∈ Set.Icc lo hi) :
    xs.sum / (xs.length : K) ∈ Set.Icc lo hi := by
  have hpos : (0 : K) < (xs.length : K) := by
    rw [Nat.cast_pos]
    exact List.length_pos_iff.mpr hne
  constructor
  · rw [le_div_iff₀ hpos, mul_comm, ← nsmul_eq_mul]
    exact List.card_nsmul_le_sum xs lo fun a ha => (h a ha).1
  · rw [div_le_iff₀ hpos, mul_comm, ← nsmul_eq_mul]
    exact List.sum_le_card_nsmul xs hi fun a ha => (h a ha).2

/-- A part of the way from one value to another. -/
theorem part_mem {a b t : K} (ha : a ∈ Set.Icc lo hi) (hb : b ∈ Set.Icc lo hi) (ht0 : 0 ≤ t)
    (ht1 : t ≤ 1) : a + (b - a) * t ∈ Set.Icc lo hi := by
  have hmix : a + (b - a) * t = (1 - t) * a + t * b := by ring
  have hone : ∀ x : K, x = (1 - t) * x + t * x := fun x => by ring
  rw [hmix]
  constructor
  · rw [hone lo]
    exact add_le_add (mul_le_mul_of_nonneg_left ha.1 (by linarith))
      (mul_le_mul_of_nonneg_left hb.1 ht0)
  · rw [hone hi]
    exact add_le_add (mul_le_mul_of_nonneg_left ha.2 (by linarith))
      (mul_le_mul_of_nonneg_left hb.2 ht0)

end

end SmcPipeline.Intervals
