import Mathlib.Algebra.Order.Field.Basic
import Mathlib.Algebra.Order.BigOperators.Group.List
import Mathlib.Data.List.Sort
import Mathlib.Tactic.Linarith

/-!
# Runs of a sorted list about a running mean

A sorted list is cut into runs: an element joins the run in hand if its value is within
the reach of the mean of the run, and starts a run of its own otherwise. The reach is a
monotone function that does not fall below its argument. Then no run reaches the next
one, so that the runs lie apart, and a run is what the list has between two values. What
is cut out does not depend on the order in which equal values stand.
-/

namespace SmcPipeline.MeanRuns

variable {β K : Type*} [Field K] [LinearOrder K]

def mean (xs : List K) : K := xs.sum / (xs.length : K)

/-- Completes a run over the elements that come after it. -/
def runsFrom (value : β → K) (reach : K → K) (current : List β) : List β → List (List β)
  | [] => [current]
  | x :: xs =>
    if value x ≤ reach (mean (current.map value)) then runsFrom value reach (current ++ [x]) xs
    else current :: runsFrom value reach [x] xs

def runs (value : β → K) (reach : K → K) : List β → List (List β)
  | [] => []
  | x :: xs => runsFrom value reach [x] xs

/-- A bound that moves with the mean and covers it. -/
structure Covers (reach : K → K) : Prop where
  mono : Monotone reach
  self_le : ∀ c, c ≤ reach c

section

variable (value : β → K) (reach : K → K)

theorem flatten_runsFrom (current xs : List β) :
    (runsFrom value reach current xs).flatten = current ++ xs := by
  induction xs generalizing current with
  | nil => simp [runsFrom]
  | cons x xs ih =>
      unfold runsFrom
      split_ifs
      · rw [ih, List.append_assoc, List.singleton_append]
      · rw [List.flatten_cons, ih, List.singleton_append]

@[simp] theorem flatten_runs (xs : List β) : (runs value reach xs).flatten = xs := by
  cases xs with
  | nil => rfl
  | cons x xs => exact flatten_runsFrom value reach [x] xs

/-- Only the values count. -/
theorem map_runsFrom (current xs : List β) :
    (runsFrom value reach current xs).map (List.map value) =
      runsFrom id reach (current.map value) (xs.map value) := by
  induction xs generalizing current with
  | nil => rfl
  | cons x xs ih =>
      simp only [runsFrom, List.map_cons, id_eq, List.map_id]
      split_ifs
      · rw [ih, List.map_append, List.map_singleton]
      · rw [List.map_cons, ih, List.map_singleton]

theorem map_runs (xs : List β) :
    (runs value reach xs).map (List.map value) = runs id reach (xs.map value) := by
  cases xs with
  | nil => rfl
  | cons x xs => exact map_runsFrom value reach [x] xs

end

omit [LinearOrder K] in
theorem mean_singleton (x : K) : mean [x] = x := by
  simp [mean]

section

variable [IsStrictOrderedRing K]

theorem length_pos_cast {xs : List K} (h : xs ≠ []) : (0 : K) < (xs.length : K) :=
  Nat.cast_pos.mpr (List.length_pos_iff.mpr h)

theorem le_mean {xs : List K} {a : K} (hne : xs ≠ []) (h : ∀ x ∈ xs, a ≤ x) : a ≤ mean xs := by
  unfold mean
  rw [le_div_iff₀ (length_pos_cast hne), mul_comm, ← nsmul_eq_mul]
  exact List.card_nsmul_le_sum xs a h

theorem mean_le {xs : List K} {a : K} (hne : xs ≠ []) (h : ∀ x ∈ xs, x ≤ a) : mean xs ≤ a := by
  unfold mean
  rw [div_le_iff₀ (length_pos_cast hne), mul_comm, ← nsmul_eq_mul]
  exact List.sum_le_card_nsmul xs a h

theorem mean_pos {xs : List K} (hne : xs ≠ []) (h : ∀ x ∈ xs, 0 < x) : 0 < mean xs :=
  div_pos (List.sum_pos xs h hne) (length_pos_cast hne)

/-- One more element moves the mean by its share. -/
theorem mean_concat {xs : List K} (hne : xs ≠ []) (x : K) :
    ((xs.length : K) + 1) * mean (xs ++ [x]) = (xs.length : K) * mean xs + x := by
  have hpos := length_pos_cast hne
  have hpos' : (0 : K) < (xs.length : K) + 1 := by linarith
  unfold mean
  rw [List.sum_append, List.sum_singleton, List.length_append, List.length_singleton,
    Nat.cast_add, Nat.cast_one, mul_div_cancel₀ _ hpos'.ne', mul_div_cancel₀ _ hpos.ne']

theorem mean_le_mean_concat {xs : List K} {x : K} (hne : xs ≠ []) (h : mean xs ≤ x) :
    mean xs ≤ mean (xs ++ [x]) := by
  have hpos' : (0 : K) < (xs.length : K) + 1 := by linarith [length_pos_cast hne]
  have hshare := mean_concat hne x
  refine le_of_mul_le_mul_left ?_ hpos'
  linarith

variable {value : β → K} {reach : K → K}

/-- No element of a run is out of its reach. -/
def Settled (value : β → K) (reach : K → K) (run : List β) : Prop :=
  ∀ x ∈ run, value x ≤ reach (mean (run.map value))

omit [IsStrictOrderedRing K] in
theorem settled_singleton (hreach : Covers reach) (x : β) : Settled value reach [x] := by
  intro y hy
  obtain rfl : y = x := by simpa using hy
  rw [List.map_singleton, mean_singleton]
  exact hreach.self_le (value y)

theorem settled_concat (hreach : Covers reach) {run : List β} {x : β} (hne : run ≠ [])
    (hrun : ∀ y ∈ run, value y ≤ value x) (hx : value x ≤ reach (mean (run.map value))) :
    Settled value reach (run ++ [x]) := by
  have hmap : run.map value ≠ [] := by simpa using hne
  have hmean : mean (run.map value) ≤ value x := mean_le hmap (by simpa using hrun)
  have hgrow : value x ≤ reach (mean ((run ++ [x]).map value)) := by
    rw [List.map_append, List.map_singleton]
    exact hx.trans (hreach.mono (mean_le_mean_concat hmap hmean))
  intro y hy
  rcases List.mem_append.mp hy with hy | hy
  · exact (hrun y hy).trans hgrow
  · obtain rfl : y = x := by simpa using hy
    exact hgrow

/-- What a run of a sorted list and those after it satisfy. -/
theorem apart_runsFrom (hreach : Covers reach) {current xs : List β} (hne : current ≠ [])
    (hsettled : Settled value reach current)
    (hsorted : (current ++ xs).Pairwise fun x y => value x ≤ value y) :
    (∀ run ∈ runsFrom value reach current xs, Settled value reach run) ∧
      (runsFrom value reach current xs).Pairwise
        fun a b => ∀ y ∈ b, reach (mean (a.map value)) < value y := by
  induction xs generalizing current with
  | nil => exact ⟨by simpa [runsFrom] using hsettled, by simp [runsFrom]⟩
  | cons x xs ih =>
      have hnext : (current ++ [x] ++ xs).Pairwise fun x y => value x ≤ value y := by
        simpa using hsorted
      obtain ⟨-, hrest, hcross⟩ := List.pairwise_append.mp hsorted
      unfold runsFrom
      split_ifs with hfits
      · exact ih (by simp)
          (settled_concat hreach hne (fun y hy => hcross y hy x List.mem_cons_self) hfits) hnext
      · obtain ⟨hall, hpair⟩ := ih (by simp) (settled_singleton hreach x) hrest
        refine ⟨List.forall_mem_cons.mpr ⟨hsettled, hall⟩, List.pairwise_cons.mpr ⟨?_, hpair⟩⟩
        intro run hrun y hy
        have hmem : y ∈ x :: xs := by
          have hflat := List.mem_flatten_of_mem hrun hy
          rwa [flatten_runsFrom] at hflat
        refine (not_le.mp hfits).trans_le ?_
        rcases List.mem_cons.mp hmem with rfl | hmem
        · exact le_rfl
        · exact (List.pairwise_cons.mp hrest).1 y hmem

theorem settled_of_mem_runs (hreach : Covers reach) {xs run : List β}
    (hsorted : xs.Pairwise fun x y => value x ≤ value y) (h : run ∈ runs value reach xs) :
    Settled value reach run := by
  cases xs with
  | nil => cases h
  | cons x xs =>
      exact (apart_runsFrom hreach (by simp) (settled_singleton hreach x) hsorted).1 run h

/-- The values of a run are below those of the runs after it. -/
theorem runs_pairwise_lt (hreach : Covers reach) {xs : List β}
    (hsorted : xs.Pairwise fun x y => value x ≤ value y) :
    (runs value reach xs).Pairwise fun a b => ∀ x ∈ a, ∀ y ∈ b, value x < value y := by
  cases xs with
  | nil => exact List.Pairwise.nil
  | cons x xs =>
      obtain ⟨hsettled, hpair⟩ :=
        apart_runsFrom hreach (by simp) (settled_singleton hreach x) hsorted
      refine hpair.imp_of_mem fun {a b} ha _ hab y hy z hz => ?_
      exact (hsettled a ha y hy).trans_lt (hab z hz)

omit [Field K] [IsStrictOrderedRing K] in
/-- A list of a partition into lists that lie apart is found again by its values. -/
theorem filter_flatten_eq {parts : List (List β)}
    (hapart : parts.Pairwise fun a b => ∀ x ∈ a, ∀ y ∈ b, value x < value y) {part : List β}
    (h : part ∈ parts) :
    (parts.flatten.filter fun x => decide (value x ∈ part.map value)) = part := by
  obtain ⟨pre, post, rfl⟩ := List.append_of_mem h
  obtain ⟨-, hpost, hcross⟩ := List.pairwise_append.mp hapart
  have hnone : ∀ other ∈ pre ++ post, ∀ x ∈ other,
      ¬ decide (value x ∈ part.map value) = true := by
    intro other hother x hx hmem
    obtain ⟨y, hy, heq⟩ := List.mem_map.mp (of_decide_eq_true hmem)
    rcases List.mem_append.mp hother with hother | hother
    · exact (hcross other hother part List.mem_cons_self x hx y hy).ne heq.symm
    · exact ((List.pairwise_cons.mp hpost).1 other hother y hy x hx).ne heq
  have hdrop : ∀ others : List (List β), (∀ other ∈ others, other ∈ pre ++ post) →
      (others.flatten.filter fun x => decide (value x ∈ part.map value)) = [] := by
    intro others hothers
    refine List.filter_eq_nil_iff.mpr fun x hx => ?_
    obtain ⟨other, hother, hxo⟩ := List.mem_flatten.mp hx
    exact hnone other (hothers other hother) x hxo
  have hself : (part.filter fun x => decide (value x ∈ part.map value)) = part :=
    List.filter_eq_self.mpr fun x hx => decide_eq_true (List.mem_map_of_mem hx)
  rw [List.flatten_append, List.flatten_cons, List.filter_append, List.filter_append, hself,
    hdrop pre fun o ho => List.mem_append_left _ ho,
    hdrop post fun o ho => List.mem_append_right _ ho, List.nil_append, List.append_nil]

/-- Two sorted lists of the same elements are cut into runs of the same elements. -/
theorem runs_perm (hreach : Covers reach) {xs ys : List β}
    (hxs : xs.Pairwise fun x y => value x ≤ value y)
    (hys : ys.Pairwise fun x y => value x ≤ value y) (hperm : xs.Perm ys) :
    List.Forall₂ (fun a b => a.map value = b.map value ∧ a.Perm b)
      (runs value reach xs) (runs value reach ys) := by
  have hvalues : xs.map value = ys.map value := by
    refine List.Perm.eq_of_pairwise (fun _ _ _ _ => le_antisymm) ?_ ?_ (hperm.map value)
    · exact List.pairwise_map.mpr hxs
    · exact List.pairwise_map.mpr hys
  have hmap : (runs value reach xs).map (List.map value) =
      (runs value reach ys).map (List.map value) := by
    rw [map_runs, map_runs, hvalues]
  have hlength : (runs value reach xs).length = (runs value reach ys).length := by
    simpa using congrArg List.length hmap
  refine List.forall₂_iff_get.mpr ⟨hlength, fun i hi hj => ?_⟩
  have hsame : (runs value reach xs)[i].map value = (runs value reach ys)[i].map value := by
    have hi' := congrArg (fun l => l[i]?) hmap
    simpa [List.getElem?_map, List.getElem?_eq_getElem hi, List.getElem?_eq_getElem hj] using hi'
  refine ⟨hsame, ?_⟩
  have hx := filter_flatten_eq (runs_pairwise_lt hreach hxs) (List.getElem_mem hi)
  have hy := filter_flatten_eq (runs_pairwise_lt hreach hys) (List.getElem_mem hj)
  rw [flatten_runs] at hx hy
  rw [hsame] at hx
  have hfilter := hperm.filter fun x => decide (value x ∈ (runs value reach ys)[i].map value)
  rw [hx, hy] at hfilter
  exact hfilter

end

end SmcPipeline.MeanRuns
