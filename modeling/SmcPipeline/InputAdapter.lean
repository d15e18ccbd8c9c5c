import SmcPipeline.Candles

/-!
# Snapshots from the store

`_normalize_frame` of `smc_core/input_adapter.py`: rows without a timestamp are dropped,
the rest is sorted by open time and numbered anew. On such a frame `_prepare_frame` only
cuts off rows in front, so that row `i` of the prepared frame is row `i` plus the number
of rows cut off.
-/

namespace SmcPipeline.InputAdapter

open Candles KeyedRows

variable {K : Type*}

def timeKey (r : RawBar K) : ℤ := r.openTime.getD 0

/-- `_normalize_frame` -/
def normalizeFrame (frame : List (RawBar K)) : List (RawBar K) :=
  sortBy timeKey (frame.filter fun r => (toCandle r).isSome)

/-- The rows with a timestamp have different open times, as the store keeps them. -/
def DistinctTimes (frame : List (RawBar K)) : Prop :=
  ((frame.filter fun r => (toCandle r).isSome).map timeKey).Nodup

instance (frame : List (RawBar K)) : Decidable (DistinctTimes frame) :=
  inferInstanceAs (Decidable (List.Nodup _))

theorem toCandle_eq_some {r : RawBar K} {c : Candle K} (h : toCandle r = some c) :
    r.openTime = some c.time ∧ inTimestampRange c.time = true := by
  unfold toCandle at h
  split at h
  · cases h
  · rename_i t ht
    split_ifs at h with hrange
    cases h
    exact ⟨ht, hrange⟩

theorem timeKey_of_toCandle {r : RawBar K} {c : Candle K} (h : toCandle r = some c) :
    timeKey r = c.time := by
  rw [timeKey, (toCandle_eq_some h).1, Option.getD_some]

theorem isSome_of_mem_normalizeFrame {frame : List (RawBar K)} {r : RawBar K}
    (h : r ∈ normalizeFrame frame) : (toCandle r).isSome = true :=
  (List.mem_filter.mp ((mem_sortBy timeKey).mp h)).2

theorem normalizeFrame_sorted (frame : List (RawBar K)) :
    (normalizeFrame frame).Pairwise fun a b => timeKey a ≤ timeKey b := sortBy_pairwise _ _

theorem nodup_normalizeFrame {frame : List (RawBar K)} (h : DistinctTimes frame) :
    ((normalizeFrame frame).map timeKey).Nodup :=
  ((sortBy_perm timeKey _).map timeKey).nodup_iff.mpr h

/-- With different open times a row of a snapshot is known by its time. -/
theorem index_eq_of_timeKey {frame : List (RawBar K)} (h : DistinctTimes frame) {i j : ℕ}
    {r q : RawBar K} (hi : (normalizeFrame frame)[i]? = some r)
    (hj : (normalizeFrame frame)[j]? = some q) (hrq : timeKey r = timeKey q) : i = j := by
  have hlen : i < ((normalizeFrame frame).map timeKey).length := by
    rw [List.length_map]
    exact (List.getElem?_eq_some_iff.mp hi).1
  refine (List.getElem?_inj hlen (nodup_normalizeFrame h)).mp ?_
  rw [List.getElem?_map, List.getElem?_map, hi, hj, Option.map_some, Option.map_some, hrq]

/-- The number of rows that `_prepare_frame` cuts off in front. -/
def trimmed (maxBars : ℤ) (frame : List (RawBar K)) : ℕ :=
  if 0 < maxBars ∧ maxBars < frame.length then frame.length - maxBars.toNat else 0

theorem getElem?_filterMap {β γ : Type*} {f : β → Option γ} {rows : List β}
    (h : ∀ r ∈ rows, (f r).isSome = true) (i : ℕ) : (rows.filterMap f)[i]? = rows[i]?.bind f := by
  induction rows generalizing i with
  | nil => rfl
  | cons r rows ih =>
      obtain ⟨c, hc⟩ := Option.isSome_iff_exists.mp (h r List.mem_cons_self)
      rw [List.filterMap_cons_some hc]
      cases i with
      | zero => simp [hc]
      | succ i => simpa using ih (fun q hq => h q (List.mem_cons_of_mem r hq)) i

/-- Rows of the prepared frame are rows of the snapshot. -/
theorem getElem?_prepared (maxBars : ℤ) (frame : List (RawBar K)) (i : ℕ) :
    (prepared maxBars (some (normalizeFrame frame)))[i]? =
      ((normalizeFrame frame)[trimmed maxBars (normalizeFrame frame) + i]?).bind toCandle := by
  have hcut : (if 0 < maxBars ∧ maxBars < (normalizeFrame frame).length then
      (normalizeFrame frame).drop ((normalizeFrame frame).length - maxBars.toNat)
      else normalizeFrame frame) =
        (normalizeFrame frame).drop (trimmed maxBars (normalizeFrame frame)) := by
    unfold trimmed
    split_ifs <;> rfl
  set cut := (normalizeFrame frame).drop (trimmed maxBars (normalizeFrame frame)) with hcutdef
  have hvalid : ∀ r ∈ cut, (toCandle r).isSome = true := fun r hr =>
    isSome_of_mem_normalizeFrame ((List.drop_sublist _ _).subset hr)
  have hsorted : (cut.filterMap toCandle).Pairwise fun a b => a.time ≤ b.time := by
    rw [List.pairwise_filterMap]
    refine ((normalizeFrame_sorted frame).sublist (List.drop_sublist _ _)).imp fun {r q} hrq => ?_
    intro c hc d hd
    rw [← timeKey_of_toCandle hc, ← timeKey_of_toCandle hd]
    exact hrq
  have hprepared : prepared maxBars (some (normalizeFrame frame)) = cut.filterMap toCandle := by
    unfold prepared prepareFrame
    dsimp only
    rw [hcut]
    split_ifs with hempty
    · exact (List.isEmpty_iff.mp hempty).symm
    · exact sortBy_eq_self Candle.time hsorted
  rw [hprepared, getElem?_filterMap hvalid, hcutdef, List.getElem?_drop]

end SmcPipeline.InputAdapter
