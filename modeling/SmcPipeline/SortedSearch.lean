import Mathlib.Algebra.Order.Group.Abs
import Mathlib.Algebra.Order.Group.Unbundled.Abs
import Mathlib.Data.List.Pairwise
import Mathlib.Tactic.TypeStar

/-!
# Searching a sorted list

A binary search by halves finds where the values of a sorted list reach a target, and of
the values on the two sides of that place one is nearest to the target.
-/

namespace SmcPipeline.SortedSearch

section Order

variable {α : Type*} [LinearOrder α]

/-- The place from which the values are no longer below the target, searched from `lo` up
to `hi`. -/
def lowerBound (xs : List α) (target : α) (lo hi : ℕ) : ℕ :=
  if lo < hi then
    if xs[(lo + hi) / 2]?.any (· < target) then lowerBound xs target ((lo + hi) / 2 + 1) hi
    else lowerBound xs target lo ((lo + hi) / 2)
  else lo
termination_by hi - lo

/-- The values before the cut are below the target and the others are not. -/
structure Cuts (xs : List α) (target : α) (cut : ℕ) : Prop where
  below : ∀ i (h : i < xs.length), i < cut → xs[i] < target
  above : ∀ i (h : i < xs.length), cut ≤ i → target ≤ xs[i]

theorem getElem_le_getElem {xs : List α} (hsorted : xs.Pairwise (· ≤ ·)) {i j : ℕ} (hij : i ≤ j)
    (hj : j < xs.length) : xs[i] ≤ xs[j] := by
  rcases hij.eq_or_lt with rfl | hlt
  · exact le_rfl
  · exact List.pairwise_iff_getElem.mp hsorted i j (hlt.trans hj) hj hlt

/-- The search keeps the cut between its two ends. -/
theorem cuts_lowerBound {xs : List α} {target : α} (hsorted : xs.Pairwise (· ≤ ·)) {lo hi : ℕ}
    (hle : lo ≤ hi) (hlength : hi ≤ xs.length)
    (hbelow : ∀ i (h : i < xs.length), i < lo → xs[i] < target)
    (habove : ∀ i (h : i < xs.length), hi ≤ i → target ≤ xs[i]) :
    Cuts xs target (lowerBound xs target lo hi) := by
  fun_induction lowerBound xs target lo hi with
  | case1 lo hi hlt hsmall ih =>
      have hmid : (lo + hi) / 2 < xs.length := by omega
      rw [List.getElem?_eq_getElem hmid, Option.any_some, decide_eq_true_eq] at hsmall
      refine ih (by omega) hlength (fun i h hi => ?_) habove
      exact (getElem_le_getElem hsorted (Nat.le_of_lt_succ hi) hmid).trans_lt hsmall
  | case2 lo hi hlt hlarge ih =>
      have hmid : (lo + hi) / 2 < xs.length := by omega
      rw [List.getElem?_eq_getElem hmid, Option.any_some, decide_eq_true_eq, not_lt] at hlarge
      refine ih (by omega) hmid.le hbelow fun i h hi => ?_
      exact hlarge.trans (getElem_le_getElem hsorted hi h)
  | case3 lo hi hend =>
      obtain rfl : lo = hi := by omega
      exact ⟨hbelow, habove⟩

theorem cuts_lowerBound_whole {xs : List α} (target : α) (hsorted : xs.Pairwise (· ≤ ·)) :
    Cuts xs target (lowerBound xs target 0 xs.length) :=
  cuts_lowerBound hsorted (Nat.zero_le _) le_rfl (fun _ _ h => absurd h (Nat.not_lt_zero _))
    fun _ h hge => absurd h hge.not_gt

end Order

section Distance

variable {K : Type*} [AddCommGroup K] [LinearOrder K] [IsOrderedAddMonoid K]

/-- `x` is a value nearest to the target. -/
def IsNearest (xs : List K) (target x : K) : Prop :=
  x ∈ xs ∧ ∀ y ∈ xs, |x - target| ≤ |y - target|

/-- The nearer of the values on the two sides of the cut, the lower one at equal distance. -/
def beside (xs : List K) (target : K) (cut : ℕ) : Option K :=
  let right := min (xs.length - 1) cut
  match xs[right - 1]?, xs[right]? with
  | some a, some b => if |target - a| ≤ |b - target| then some a else some b
  | _, _ => none

theorem distance_le_of_le {x y target : K} (hxy : x ≤ y) (hy : y ≤ target) :
    |y - target| ≤ |x - target| := by
  rw [abs_of_nonpos (sub_nonpos.mpr hy), abs_of_nonpos (sub_nonpos.mpr (hxy.trans hy))]
  exact neg_le_neg (sub_le_sub_right hxy target)

theorem distance_le_of_ge {x y target : K} (hxy : x ≤ y) (hx : target ≤ x) :
    |x - target| ≤ |y - target| := by
  rw [abs_of_nonneg (sub_nonneg.mpr hx), abs_of_nonneg (sub_nonneg.mpr (hx.trans hxy))]
  exact sub_le_sub_right hxy target

/-- One of the two values beside the cut is as near as any other. -/
theorem nearer_beside {xs : List K} {target : K} {cut : ℕ} (hsorted : xs.Pairwise (· ≤ ·))
    (hcut : Cuts xs target cut) {right : ℕ} (hright : right = min (xs.length - 1) cut)
    (hr : right < xs.length) {i : ℕ} (hi : i < xs.length) :
    |xs[right - 1] - target| ≤ |xs[i] - target| ∨ |xs[right] - target| ≤ |xs[i] - target| := by
  by_cases hbelow : i < cut
  · by_cases hend : cut < xs.length
    · refine Or.inl (distance_le_of_le (getElem_le_getElem hsorted (by omega) _) ?_)
      exact (hcut.below _ _ (by omega)).le
    · refine Or.inr (distance_le_of_le (getElem_le_getElem hsorted (by omega) _) ?_)
      exact (hcut.below _ _ (by omega)).le
  · refine Or.inr (distance_le_of_ge (getElem_le_getElem hsorted (by omega) _) ?_)
    exact hcut.above _ _ (by omega)

/-- Beside the cut of a sorted list stands a nearest value. -/
theorem beside_nearest {xs : List K} {target : K} {cut : ℕ} (hsorted : xs.Pairwise (· ≤ ·))
    (hcut : Cuts xs target cut) (hxs : xs ≠ []) :
    ∃ x, beside xs target cut = some x ∧ IsNearest xs target x := by
  have hlength : 0 < xs.length := List.length_pos_iff.mpr hxs
  obtain ⟨right, hright⟩ : ∃ right, right = min (xs.length - 1) cut := ⟨_, rfl⟩
  have hr : right < xs.length := by omega
  have hl : right - 1 < xs.length := by omega
  have hnearer : ∀ y ∈ xs, |xs[right - 1] - target| ≤ |y - target| ∨
      |xs[right] - target| ≤ |y - target| := by
    intro y hy
    obtain ⟨i, hi, rfl⟩ := List.getElem_of_mem hy
    exact nearer_beside hsorted hcut hright hr hi
  unfold beside
  dsimp only
  rw [← hright, List.getElem?_eq_getElem hl, List.getElem?_eq_getElem hr]
  dsimp only
  rw [abs_sub_comm target]
  split_ifs with hleft
  · refine ⟨_, rfl, List.getElem_mem hl, fun y hy => ?_⟩
    exact (hnearer y hy).elim id hleft.trans
  · refine ⟨_, rfl, List.getElem_mem hr, fun y hy => ?_⟩
    exact (hnearer y hy).elim (not_le.mp hleft).le.trans id

end Distance

end SmcPipeline.SortedSearch
