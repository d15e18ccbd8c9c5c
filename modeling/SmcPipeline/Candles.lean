import SmcPipeline.KeyedRows
import Mathlib.Algebra.Order.Field.Basic
import Mathlib.Algebra.Field.Rat
import Mathlib.Algebra.Order.Ring.Rat
import Mathlib.Data.List.MinMax

/-!
# Candles and the frame every structure pass works on

The configuration of SMC-core and `_prepare_frame` of `smc_structure/__init__.py`.
Prices are elements of a linearly ordered field; a cell is `none` where pandas has
NaN, and a column that a frame lacks is a column of missing cells. Times are open
times in milliseconds: a row is dropped when its open time has no nanosecond
timestamp in 64 bits.
-/

namespace SmcPipeline

structure SmcCoreConfig (K : Type*) where
  minSwingBars : ℤ
  minRangeBars : ℤ
  eqTolerancePct : K
  oteMin : K
  oteMax : K
  maxLookbackBars : ℤ
  bosMinMoveAtrM1 : K
  bosMinMovePctM1 : K
  legMinAmplitudeAtrM1 : K
  oteTrendOnlyM1 : Bool
  oteMaxActivePerSideM1 : ℤ
  structureEventHistoryMaxMinutes : ℤ
  structureEventHistoryMaxEntries : ℤ
  obLegMinAtrMul : K
  obLegMaxBars : ℤ
  obPreludeMaxBars : ℤ
  obBodyDominationPct : K
  obBodyMinPct : K
  obMaxActiveDistanceAtr : Option K
  breakerMaxObAgeMinutes : ℤ
  breakerMaxSweepDelayMinutes : ℤ
  breakerLevelTolerancePct : K
  breakerMinBodyPct : K
  breakerMinDisplacementAtr : K
  fvgMinGapAtr : K
  fvgMinGapPct : K
  fvgMaxAgeMinutes : ℤ

/-- `SMC_CORE_CONFIG` -/
def smcCoreConfig (K : Type*) [Field K] : SmcCoreConfig K where
  minSwingBars := 3
  minRangeBars := 12
  eqTolerancePct := 12 / 100
  oteMin := 62 / 100
  oteMax := 79 / 100
  maxLookbackBars := 300
  bosMinMoveAtrM1 := 6 / 10
  bosMinMovePctM1 := 18 / 10000
  legMinAmplitudeAtrM1 := 8 / 10
  oteTrendOnlyM1 := true
  oteMaxActivePerSideM1 := 1
  structureEventHistoryMaxMinutes := 60 * 24 * 7
  structureEventHistoryMaxEntries := 500
  obLegMinAtrMul := 8 / 10
  obLegMaxBars := 40
  obPreludeMaxBars := 6
  obBodyDominationPct := 65 / 100
  obBodyMinPct := 25 / 100
  obMaxActiveDistanceAtr := some 15
  breakerMaxObAgeMinutes := 60 * 12
  breakerMaxSweepDelayMinutes := 180
  breakerLevelTolerancePct := 15 / 10000
  breakerMinBodyPct := 35 / 100
  breakerMinDisplacementAtr := 75 / 100
  fvgMinGapAtr := 5 / 10
  fvgMinGapPct := 15 / 10000
  fvgMaxAgeMinutes := 60 * 24 * 3

/-- A row as a snapshot delivers it. -/
structure RawBar (K : Type*) where
  openTime : Option ℤ
  opn : Option K
  high : Option K
  low : Option K
  close : Option K
deriving DecidableEq, Repr

/-- A row of a prepared frame. -/
structure Candle (K : Type*) where
  time : ℤ
  opn : Option K
  high : Option K
  low : Option K
  close : Option K
deriving DecidableEq, Repr

namespace Candles

open KeyedRows

variable {K : Type*}

/-- The decimal number `a / b`. -/
def ratio [Field K] (a b : ℕ) : K := (a : K) / (b : K)

/-- `pd.to_datetime(open_time, unit="ms", errors="coerce")` is not NaT. -/
def inTimestampRange (ms : ℤ) : Bool :=
  decide (-(2 ^ 63) < ms * 1000000) && decide (ms * 1000000 < 2 ^ 63)

def toCandle (r : RawBar K) : Option (Candle K) :=
  match r.openTime with
  | none => none
  | some t => if inTimestampRange t then some ⟨t, r.opn, r.high, r.low, r.close⟩ else none

def prepareFrame (maxBars : ℤ) (df : Option (List (RawBar K))) : Option (List (Candle K)) :=
  match df with
  | none => none
  | some df =>
    let df := if 0 < maxBars ∧ maxBars < df.length then df.drop (df.length - maxBars.toNat) else df
    let rows := df.filterMap toCandle
    if rows.isEmpty then none else some (sortBy Candle.time rows)

/-- The rows of a prepared frame, none where there is no frame. -/
def prepared (maxBars : ℤ) (df : Option (List (RawBar K))) : List (Candle K) :=
  (prepareFrame maxBars df).getD []

theorem prepared_of_length_le {maxBars : ℤ} {df : List (RawBar K)} (h : df.length ≤ maxBars) :
    prepared maxBars (some df) = sortBy Candle.time (df.filterMap toCandle) := by
  unfold prepared prepareFrame
  have hnot : ¬ (0 < maxBars ∧ maxBars < df.length) := fun hlt => absurd hlt.2 (not_lt.mpr h)
  simp only [if_neg hnot]
  split_ifs with he
  · rw [List.isEmpty_iff.mp he]
    rfl
  · rfl

/-- Bars that open no earlier are appended to the prepared frame as well. -/
theorem prepared_append {maxBars : ℤ} {df more : List (RawBar K)}
    (hlen : ((df ++ more).length : ℤ) ≤ maxBars)
    (hlater : ∀ b ∈ more, ∀ a ∈ df, ∀ t u, a.openTime = some t → b.openTime = some u → t ≤ u) :
    ∃ rest, prepared maxBars (some (df ++ more)) = prepared maxBars (some df) ++ rest := by
  have hdf : (df.length : ℤ) ≤ maxBars := by
    rw [List.length_append] at hlen
    omega
  have htime : ∀ {r : RawBar K} {c : Candle K}, toCandle r = some c → r.openTime = some c.time := by
    intro r c h
    unfold toCandle at h
    split at h
    · cases h
    · rename_i t ht
      split_ifs at h
      cases h
      exact ht
  rw [prepared_of_length_le hlen, prepared_of_length_le hdf, List.filterMap_append]
  refine ⟨_, sortBy_append Candle.time fun a ha b hb => ?_⟩
  obtain ⟨ra, hra, hca⟩ := List.mem_filterMap.mp ha
  obtain ⟨rb, hrb, hcb⟩ := List.mem_filterMap.mp hb
  exact hlater rb hrb ra hra _ _ (htime hca) (htime hcb)

/-- `xs.iloc[lo:hi]` -/
def slice {β : Type*} (lo hi : ℕ) (xs : List β) : List β := (xs.drop lo).take (hi - lo)

/-- The cells of a series at an index, `None` for NaN. -/
def valueAt {β : Type*} (xs : List (Option β)) (i : ℕ) : Option β := xs[i]?.join

theorem getElem?_slice {β : Type*} (lo hi i : ℕ) (xs : List β) :
    (slice lo hi xs)[i]? = if i < hi - lo then xs[lo + i]? else none := by
  unfold slice
  rw [List.getElem?_take, List.getElem?_drop]

/-- A slice is determined by the cells it covers. -/
theorem slice_shift {β : Type*} {lo hi d : ℕ} {xs ys : List β}
    (h : ∀ i, lo ≤ i → i < hi → xs[i]? = ys[i + d]?) :
    slice lo hi xs = slice (lo + d) (hi + d) ys := by
  refine List.ext_getElem? fun i => ?_
  rw [getElem?_slice, getElem?_slice]
  have hlen : hi + d - (lo + d) = hi - lo := by omega
  rw [hlen]
  split_ifs with hi'
  · rw [h (lo + i) (by omega) (by omega)]
    congr 1
    omega
  · rfl

end Candles

end SmcPipeline
