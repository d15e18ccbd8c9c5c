import Mathlib.Algebra.Order.Group.Defs
import Mathlib.Algebra.Order.Monoid.Unbundled.Basic
import Mathlib.Algebra.Group.Basic
import Mathlib.Data.List.Basic
import Mathlib.Logic.Function.Basic

/-!
# Debounced reports

Events of several kinds are reported, but none within a distance of the last report of its kind.
The reports of a kind then keep the distance, and every event has a report of its kind that is not
older than the distance.
-/

namespace SmcPipeline.Debounce

variable {I K : Type*} [DecidableEq I] [AddCommGroup K] [LinearOrder K] [IsOrderedAddMonoid K]

/-- Events and reports with their times, next to the time of the last report of each kind. -/
structure Debounced (distance now : K) (last : I → Option K) (events reports : List (I × K)) :
    Prop where
  apart : reports.Pairwise fun a b => a.1 = b.1 → a.2 + distance ≤ b.2
  remembered : ∀ r ∈ reports, ∃ t, last r.1 = some t ∧ r.2 ≤ t
  reported : ∀ kind t, last kind = some t → (kind, t) ∈ reports ∧ t ≤ now
  covered : ∀ e ∈ events, ∃ r ∈ reports, r.1 = e.1 ∧ r.2 ≤ e.2 ∧ e.2 < r.2 + distance

variable {distance now : K} {last : I → Option K} {events reports : List (I × K)}

omit [DecidableEq I] [IsOrderedAddMonoid K] in
theorem debounced_nil (distance now : K) :
    Debounced distance now (fun _ => none) ([] : List (I × K)) [] where
  apart := List.Pairwise.nil
  remembered r hr := absurd hr List.not_mem_nil
  reported kind t h := by cases h
  covered e he := absurd he List.not_mem_nil

omit [DecidableEq I] [IsOrderedAddMonoid K] in
theorem Debounced.later (h : Debounced distance now last events reports) {now' : K}
    (hle : now ≤ now') : Debounced distance now' last events reports :=
  ⟨h.apart, h.remembered, fun kind t ht =>
    ⟨(h.reported kind t ht).1, (h.reported kind t ht).2.trans hle⟩, h.covered⟩

omit [DecidableEq I] in
/-- An event soon after the last report of its kind. -/
theorem Debounced.silent (h : Debounced distance now last events reports) {kind : I} {t : K}
    (ht : last kind = some t) (hsoon : now - t < distance) :
    Debounced distance now last (events ++ [(kind, now)]) reports := by
  refine ⟨h.apart, h.remembered, h.reported, fun e he => ?_⟩
  rcases List.mem_append.mp he with he | he
  · exact h.covered e he
  · obtain rfl := List.mem_singleton.mp he
    obtain ⟨hr, hle⟩ := h.reported kind t ht
    exact ⟨(kind, t), hr, rfl, hle, sub_lt_iff_lt_add'.mp hsoon⟩

/-- An event that is reported. -/
theorem Debounced.report (h : Debounced distance now last events reports)
    (hpos : 0 < distance) (kind : I) (hgap : ∀ t, last kind = some t → t + distance ≤ now) :
    Debounced distance now (Function.update last kind (some now)) (events ++ [(kind, now)])
      (reports ++ [(kind, now)]) := by
  constructor
  · refine List.pairwise_append.mpr ⟨h.apart, List.pairwise_singleton _ _, ?_⟩
    intro r hr new hnew hkind
    obtain rfl := List.mem_singleton.mp hnew
    obtain ⟨t, ht, hle⟩ := h.remembered r hr
    rw [hkind] at ht
    exact (add_le_add_left hle distance).trans (hgap t ht)
  · intro r hr
    by_cases hkind : r.1 = kind
    · refine ⟨now, by rw [hkind, Function.update_self], ?_⟩
      rcases List.mem_append.mp hr with hr | hr
      · obtain ⟨t, ht, hle⟩ := h.remembered r hr
        exact hle.trans (h.reported r.1 t ht).2
      · rw [List.mem_singleton.mp hr]
    · rcases List.mem_append.mp hr with hr | hr
      · obtain ⟨t, ht, hle⟩ := h.remembered r hr
        exact ⟨t, by rw [Function.update_of_ne hkind, ht], hle⟩
      · rw [List.mem_singleton.mp hr] at hkind
        exact absurd rfl hkind
  · intro k t ht
    by_cases hkind : k = kind
    · subst hkind
      rw [Function.update_self] at ht
      cases ht
      exact ⟨List.mem_append_right _ (List.mem_singleton_self _), le_rfl⟩
    · rw [Function.update_of_ne hkind] at ht
      exact ⟨List.mem_append_left _ (h.reported k t ht).1, (h.reported k t ht).2⟩
  · intro e he
    rcases List.mem_append.mp he with he | he
    · obtain ⟨r, hr, hcover⟩ := h.covered e he
      exact ⟨r, List.mem_append_left _ hr, hcover⟩
    · obtain rfl := List.mem_singleton.mp he
      exact ⟨_, List.mem_append_right _ (List.mem_singleton_self _), rfl, le_rfl,
        lt_add_of_pos_right _ hpos⟩

end SmcPipeline.Debounce
