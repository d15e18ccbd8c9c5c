import SmcPipeline.OrderBlocks

/-!
# The active range

`detect_active_range` of `smc_structure/range_engine.py` on a prepared frame, and the
structure state of `compute_structure_state` with its range. A frame of enough rows always
has a range, whose state is `INSIDE`, `DEV_UP` or `DEV_DOWN`; there is none only for a frame
that is too short.
-/

namespace SmcPipeline

inductive SmcRangeState
  | none
  | inside
  | devUp
  | devDown
deriving DecidableEq, Repr

structure SmcRange (K : Type*) where
  high : Option K
  low : Option K
  eqLevel : Option K
  startTime : ℤ
  endTime : ℤ
  state : SmcRangeState
deriving DecidableEq, Repr

/-- A snapshot with what the range and the liquidity read of it besides: which columns its
frame has, and the levels `pdl` and `pdh` of its context, as far as they are numbers. -/
structure ContextInput (K : Type*) extends SmcInput K where
  hasHighLow : Bool
  hasClose : Bool
  pdl : Option (Option K)
  pdh : Option (Option K)

/-- The structure state with its timeframe and its range. -/
structure RangedStructureState (K : Type*) extends SmcStructureState K where
  primaryTf : String
  activeRange : Option (SmcRange K)
  rangeState : SmcRangeState

namespace Ranges

open Candles OrderBlocks

variable {K : Type*}

/-- `df.tail(n)` -/
def tailRows {β : Type*} (n : ℤ) (rows : List β) : List β :=
  if 0 ≤ n then rows.drop (rows.length - n.toNat) else rows.drop (-n).toNat

section

variable [Field K] [LinearOrder K]

/-- The state of a range by its last close. -/
def stateOf (lastClose eqLevel band : Option K) : SmcRangeState :=
  if atMost (Option.map₂ (fun a b : K => a + b) eqLevel band) lastClose then .devUp
  else if atMost lastClose (Option.map₂ (fun a b : K => a - b) eqLevel band) then .devDown
  else .inside

/-- `detect_active_range`; nothing where it raises, on an empty window. -/
def detectActiveRange (hasHighLow hasClose : Bool) (rows : List (Candle K)) (minRangeBars : ℤ)
    (tolerancePct : K) : Option (Option (SmcRange K) × SmcRangeState) :=
  if rows = [] ∨ rows.length < minRangeBars ∨ hasHighLow = false then some (none, .none)
  else
    let window := tailRows minRangeBars rows
    match window.head?, window.getLast? with
    | some first, some last =>
      let highest := ((window.map Candle.high).filterMap id).max?
      let lowest := ((window.map Candle.low).filterMap id).min?
      let width := Option.map₂ (fun a b : K => a - b) highest lowest
      let eqLevel := Option.map₂ (fun a b : K => a + b / (2 : ℕ)) lowest width
      let span := pyMax (some (ratio 1 1000000000)) width
      let band := span.map (· * tolerancePct)
      let lastClose := if hasClose then last.close else eqLevel
      let state := stateOf lastClose eqLevel band
      some (some ⟨highest, lowest, eqLevel, first.time, last.time, state⟩, state)
    | _, _ => none

theorem stateOf_ne_none (lastClose eqLevel band : Option K) :
    stateOf lastClose eqLevel band ≠ SmcRangeState.none := by
  unfold stateOf
  split_ifs <;> exact fun h => SmcRangeState.noConfusion h

/-- A range comes with a state of its own, and there is none only for a short frame. -/
theorem detectActiveRange_eq_some {hasHighLow hasClose : Bool} {rows : List (Candle K)}
    {minRangeBars : ℤ} {tolerancePct : K} {range : Option (SmcRange K)} {state : SmcRangeState}
    (h : detectActiveRange hasHighLow hasClose rows minRangeBars tolerancePct =
      some (range, state)) :
    (range = none ∧ state = .none ∧
        (rows = [] ∨ rows.length < minRangeBars ∨ hasHighLow = false)) ∨
      ((∃ r, range = some r ∧ r.state = state) ∧ state ≠ .none ∧
        ¬ (rows = [] ∨ rows.length < minRangeBars ∨ hasHighLow = false)) := by
  unfold detectActiveRange at h
  by_cases hshort : rows = [] ∨ rows.length < minRangeBars ∨ hasHighLow = false
  · rw [if_pos hshort] at h
    cases h
    exact Or.inl ⟨rfl, rfl, hshort⟩
  · rw [if_neg hshort] at h
    dsimp only at h
    split at h
    · cases h
      exact Or.inr ⟨⟨_, rfl, rfl⟩, stateOf_ne_none _ _ _, hshort⟩
    · cases h

variable [FloorRing K] (lower : String → String) (cfg : SmcCoreConfig K)

/-- `compute_structure_state` with the range; nothing where `detect_active_range` raises. -/
def computeStructureState (snapshot : ContextInput K) (store : EventHistory.Store K)
    (utcnow : ℤ) : Option (RangedStructureState K) :=
  let rows := prepared cfg.maxLookbackBars snapshot.frame
  (detectActiveRange snapshot.hasHighLow snapshot.hasClose rows cfg.minRangeBars
    cfg.eqTolerancePct).map fun detected =>
      { toSmcStructureState := (Snapshots.computeStructureState lower cfg snapshot.symbol
          snapshot.tfPrimary store snapshot.frame utcnow).1
        primaryTf := snapshot.tfPrimary
        activeRange := detected.1
        rangeState := detected.2 }

variable {lower cfg} {snapshot : ContextInput K} {store : EventHistory.Store K} {utcnow : ℤ}
  {st : RangedStructureState K}

theorem computeStructureState_eq_some
    (h : computeStructureState lower cfg snapshot store utcnow = some st) :
    st.toSmcStructureState = (Snapshots.computeStructureState lower cfg snapshot.symbol
        snapshot.tfPrimary store snapshot.frame utcnow).1 ∧
      detectActiveRange snapshot.hasHighLow snapshot.hasClose
        (prepared cfg.maxLookbackBars snapshot.frame) cfg.minRangeBars cfg.eqTolerancePct =
          some (st.activeRange, st.rangeState) := by
  obtain ⟨detected, hdetected, rfl⟩ := Option.map_eq_some_iff.mp h
  exact ⟨rfl, hdetected⟩

/-- A state without a range is that of a frame that is too short; any other one has a range
state. -/
theorem activeRange_eq_none_iff
    (h : computeStructureState lower cfg snapshot store utcnow = some st) :
    (st.activeRange = none ↔ prepared cfg.maxLookbackBars snapshot.frame = [] ∨
        (prepared cfg.maxLookbackBars snapshot.frame).length < cfg.minRangeBars ∨
        snapshot.hasHighLow = false) ∧
      (st.activeRange ≠ none → st.rangeState ≠ .none) := by
  rcases detectActiveRange_eq_some (computeStructureState_eq_some h).2 with
    ⟨hnone, -, hshort⟩ | ⟨⟨r, hr, -⟩, hstate, hlong⟩
  · exact ⟨⟨fun _ => hshort, fun _ => hnone⟩, fun hne => absurd hnone hne⟩
  · refine ⟨⟨fun hnone => ?_, fun hshort => absurd hshort hlong⟩, fun _ => hstate⟩
    rw [hr] at hnone
    cases hnone

end

end Ranges

end SmcPipeline
