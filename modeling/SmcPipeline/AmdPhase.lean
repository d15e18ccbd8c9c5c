import SmcPipeline.BiasChanges
import SmcPipeline.Sweeps

/-!
# The AMD phase

`derive_amd_phase` of `smc_liquidity/amd_state.py` on the liquidity state of
`compute_liquidity_state`: the first of three checks that decides. DISTRIBUTION is decided
only where there is no range with a state, and the structure stage finds such a range in
every frame that is long enough.
-/

namespace SmcPipeline

inductive SmcAmdPhase
  | accumulation
  | manipulation
  | distribution
  | neutral
deriving DecidableEq, Repr

/-- The liquidity state and its `meta`, but for the magnets. -/
structure SmcLiquidityState (K : Type*) where
  pools : List (SmcLiquidityPool K)
  amdPhase : SmcAmdPhase
  barCount : ℕ
  symbol : String
  primaryTf : String
  bias : Bias
  sfpEvents : List (SfpEvent K)
  wickClusters : List (WickCluster K)
  amdReason : String

namespace AmdPhase

open Candles StructureEngine LiquidityPools Sweeps Ranges

variable {K : Type*}

def rangeStateName : SmcRangeState → String
  | .none => "NONE"
  | .inside => "INSIDE"
  | .devUp => "DEV_UP"
  | .devDown => "DEV_DOWN"

def trendName : SmcTrend → String
  | .up => "UP"
  | .down => "DOWN"
  | .range => "RANGE"
  | .unknown => "UNKNOWN"

/-- `_evaluate_manipulation`, with `_has_sweep_signals`. -/
def evaluateManipulation (st : RangedStructureState K) (liquidity : SmcLiquidityState K) :
    Option (SmcAmdPhase × String) :=
  if st.activeRange.isNone then none
  else if st.rangeState ≠ .devUp ∧ st.rangeState ≠ .devDown then none
  else if liquidity.sfpEvents.isEmpty && liquidity.wickClusters.isEmpty then none
  else
    let deviation := rangeStateName st.rangeState
    some (.manipulation, s!"відхилення {deviation} + sweep біля екстремумів")

/-- The direction `_has_trend_bos` looks for. -/
def trendDirection (bias : Bias) (trend : SmcTrend) : Option Direction :=
  match bias, trend with
  | .long, _ => some .long
  | .short, _ => some .short
  | .neutral, .up => some .long
  | .neutral, .down => some .short
  | .neutral, _ => none

/-- `_has_trend_bos` -/
def hasTrendBos (st : RangedStructureState K) : Bool :=
  match trendDirection st.bias st.trend with
  | none => false
  | some direction =>
    st.events.any fun e => decide (e.eventType = .bos) && decide (e.direction = direction)

/-- `_trend_pools_dominate`, with `_TREND_POOL_MIN` -/
def trendPoolsDominate (liquidity : SmcLiquidityState K) (bias : Bias) : Bool :=
  match trendTypeOf bias with
  | none => false
  | some targetType =>
    decide (1 ≤ liquidity.pools.countP fun pool =>
      decide (pool.liqType = targetType) && decide (pool.role = .primary))

/-- `_evaluate_distribution` -/
def evaluateDistribution (st : RangedStructureState K) (liquidity : SmcLiquidityState K) :
    Option (SmcAmdPhase × String) :=
  if st.activeRange.isSome ∧ st.rangeState ≠ .none then none
  else if st.trend ≠ .up ∧ st.trend ≠ .down then none
  else if hasTrendBos st = false then none
  else if trendPoolsDominate liquidity st.bias = false then none
  else
    let trend := trendName st.trend
    some (.distribution, s!"trend {trend} + BOS підтверджений TLQ/SLQ")

/-- `_has_recent_bos`, with `_RECENT_EVENT_WINDOW` -/
def hasRecentBos (events : List (StructureEvent K)) : Bool :=
  (events.drop (events.length - 3)).any fun e => decide (e.eventType = .bos)

section

variable [Field K] [LinearOrder K]

/-- `_is_atr_calm`, with `_LOW_ATR_RATIO` -/
def isAtrCalm (atrLast atrMedian : Option K) : Bool :=
  match atrLast, atrMedian with
  | none, _ => false
  | some _, none => true
  | some last, some median => decide (median = 0) || decide (last ≤ median * ratio 125 100)

/-- `_evaluate_accumulation` -/
def evaluateAccumulation (st : RangedStructureState K) : Option (SmcAmdPhase × String) :=
  if st.activeRange.isNone then none
  else if st.rangeState ≠ .inside then none
  else if isAtrCalm st.atrLast st.atrMedian = false then none
  else if hasRecentBos st.events then none
  else some (.accumulation, "range INSIDE + спокійна ATR без свіжих BOS")

/-- `derive_amd_phase` -/
def deriveAmdPhase (st : RangedStructureState K) (liquidity : SmcLiquidityState K) :
    SmcAmdPhase × String :=
  ([evaluateManipulation st liquidity, evaluateDistribution st liquidity,
    evaluateAccumulation st].findSome? id).getD (.neutral, "умови FSM не виконані")

variable [FloorRing K] (cfg : SmcCoreConfig K)

/-- `compute_liquidity_state` -/
def computeLiquidityState (snapshot : ContextInput K) (st : RangedStructureState K) :
    SmcLiquidityState K :=
  let found := detectSfpAndWicks cfg snapshot st
  let liquidity : SmcLiquidityState K :=
    { pools := buildEqPoolsFromSwings cfg st ++ trendPools st ++ rangePools st ++
        sessionPools st snapshot ++ found.1
      amdPhase := .neutral
      barCount := (snapshot.frame.getD []).length
      symbol := snapshot.symbol
      primaryTf := if st.primaryTf = "" then snapshot.tfPrimary else st.primaryTf
      bias := st.bias
      sfpEvents := found.2.1
      wickClusters := found.2.2
      amdReason := "" }
  let decision := deriveAmdPhase st liquidity
  { liquidity with amdPhase := decision.1, amdReason := decision.2 }

end

/-- The conditions for MANIPULATION. -/
def Manipulated (st : RangedStructureState K) (liquidity : SmcLiquidityState K) : Prop :=
  st.activeRange ≠ none ∧ (st.rangeState = .devUp ∨ st.rangeState = .devDown) ∧
    (liquidity.sfpEvents ≠ [] ∨ liquidity.wickClusters ≠ [])

def biasDirection : Bias → Option Direction
  | .long => some .long
  | .short => some .short
  | .neutral => none

/-- A trend, a BOS in the direction of the bias and a PRIMARY pool of its type. -/
def TrendConfirmed (st : RangedStructureState K) (liquidity : SmcLiquidityState K) : Prop :=
  (st.trend = .up ∨ st.trend = .down) ∧
    (∃ e ∈ st.events, e.eventType = .bos ∧ biasDirection st.bias = some e.direction) ∧
    ∃ pool ∈ liquidity.pools, trendTypeOf st.bias = some pool.liqType ∧ pool.role = .primary

theorem evaluateManipulation_eq_none {st : RangedStructureState K}
    {liquidity : SmcLiquidityState K} (h : ¬ Manipulated st liquidity) :
    evaluateManipulation st liquidity = none := by
  unfold evaluateManipulation
  split_ifs with hrange hstate hsignals
  · rfl
  · rfl
  · rfl
  · refine absurd ⟨?_, ?_, ?_⟩ h
    · intro hnone
      exact hrange (Option.isNone_iff_eq_none.mpr hnone)
    · by_contra hnot
      exact hstate (not_or.mp hnot)
    · by_contra hnot
      rw [not_or, not_not, not_not] at hnot
      exact hsignals (by rw [hnot.1, hnot.2]; rfl)

theorem hasTrendBos_of_confirmed {st : RangedStructureState K} {liquidity : SmcLiquidityState K}
    (h : TrendConfirmed st liquidity) : hasTrendBos st = true := by
  obtain ⟨-, ⟨e, he, htype, hdirection⟩, -⟩ := h
  have hsame : trendDirection st.bias st.trend = some e.direction := by
    rw [← hdirection]
    cases hbias : st.bias with
    | long => rfl
    | short => rfl
    | neutral =>
        rw [hbias] at hdirection
        cases hdirection
  unfold hasTrendBos
  rw [hsame]
  exact List.any_eq_true.mpr ⟨e, he, by simp [htype]⟩

theorem trendPoolsDominate_of_confirmed {st : RangedStructureState K}
    {liquidity : SmcLiquidityState K} (h : TrendConfirmed st liquidity) :
    trendPoolsDominate liquidity st.bias = true := by
  obtain ⟨-, -, pool, hpool, htype, hrole⟩ := h
  unfold trendPoolsDominate
  rw [htype]
  exact decide_eq_true (List.countP_pos_iff.mpr ⟨pool, hpool, by simp [hrole]⟩)

/-- A confirmed trend gives DISTRIBUTION unless there is a range with a state. -/
theorem evaluateDistribution_isSome_iff {st : RangedStructureState K}
    {liquidity : SmcLiquidityState K} (h : TrendConfirmed st liquidity) :
    (evaluateDistribution st liquidity).isSome = true ↔
      ¬ (st.activeRange.isSome ∧ st.rangeState ≠ .none) := by
  unfold evaluateDistribution
  split_ifs with hrange htrend hbos hpool
  · exact iff_of_false (fun hsome => by cases hsome) fun hnot => hnot hrange
  · exact absurd htrend fun hnot => h.1.elim hnot.1 hnot.2
  · exact absurd (hasTrendBos_of_confirmed h) (by rw [hbos]; exact Bool.false_ne_true)
  · exact absurd (trendPoolsDominate_of_confirmed h) (by rw [hpool]; exact Bool.false_ne_true)
  · exact iff_of_true rfl hrange

theorem evaluateDistribution_phase {st : RangedStructureState K} {liquidity : SmcLiquidityState K}
    {decision : SmcAmdPhase × String} (h : evaluateDistribution st liquidity = some decision) :
    decision.1 = .distribution := by
  unfold evaluateDistribution at h
  split_ifs at h
  cases h
  rfl

variable [Field K] [LinearOrder K]

theorem evaluateAccumulation_phase {st : RangedStructureState K} {decision : SmcAmdPhase × String}
    (h : evaluateAccumulation st = some decision) : decision.1 = .accumulation := by
  unfold evaluateAccumulation at h
  split_ifs at h
  cases h
  rfl

/-- Without the conditions for MANIPULATION the second check alone decides on DISTRIBUTION. -/
theorem deriveAmdPhase_eq_distribution_iff {st : RangedStructureState K}
    {liquidity : SmcLiquidityState K} (h : ¬ Manipulated st liquidity) :
    (deriveAmdPhase st liquidity).1 = .distribution ↔
      (evaluateDistribution st liquidity).isSome = true := by
  unfold deriveAmdPhase
  rw [evaluateManipulation_eq_none h]
  cases hdist : evaluateDistribution st liquidity with
  | some decision => exact iff_of_true (evaluateDistribution_phase hdist) rfl
  | none =>
      refine iff_of_false (fun hphase => ?_) (by simp)
      cases hacc : evaluateAccumulation st with
      | none =>
          rw [hacc] at hphase
          cases hphase
      | some decision =>
          rw [hacc] at hphase
          have hother := evaluateAccumulation_phase hacc
          have hsame : decision.1 = .distribution := hphase
          rw [hother] at hsame
          cases hsame

variable [FloorRing K] {lower : String → String} {cfg : SmcCoreConfig K} {snapshot : ContextInput K}
  {store : EventHistory.Store K} {utcnow : ℤ} {st : RangedStructureState K}

omit [FloorRing K] in
/-- Without rows there is no trend. -/
theorem trend_of_rows_eq_nil {cfg : SmcCoreConfig K} {df : Option (List (RawBar K))}
    (h : prepared cfg.maxLookbackBars df = []) :
    (StructureState.compute cfg df).trend = .unknown := by
  have hswings : Swings.detectSwings ([] : List (Candle K)) cfg.minSwingBars = [] := by
    unfold Swings.detectSwings
    exact if_pos (by simp)
  unfold StructureState.compute StructureState.ofRows
  rw [h]
  dsimp only
  rw [hswings]
  rfl

/-- With a confirmed trend and no MANIPULATION the phase is DISTRIBUTION exactly if the
prepared frame is too short for a range, or lacks one of its columns. -/
theorem distribution_iff_too_short
    (hst : computeStructureState lower cfg snapshot store utcnow = some st)
    (hconfirmed : TrendConfirmed st (computeLiquidityState cfg snapshot st))
    (hquiet : ¬ Manipulated st (computeLiquidityState cfg snapshot st)) :
    (computeLiquidityState cfg snapshot st).amdPhase = .distribution ↔
      (prepared cfg.maxLookbackBars snapshot.frame).length < cfg.minRangeBars ∨
        snapshot.hasHighLow = false := by
  have hphase : (computeLiquidityState cfg snapshot st).amdPhase = .distribution ↔
      (evaluateDistribution st (computeLiquidityState cfg snapshot st)).isSome = true :=
    deriveAmdPhase_eq_distribution_iff hquiet
  obtain ⟨hnone, hstate⟩ := activeRange_eq_none_iff hst
  have hrows : prepared cfg.maxLookbackBars snapshot.frame ≠ [] := by
    intro hnil
    have htrend : st.trend = .unknown := by
      rw [(computeStructureState_eq_some hst).1]
      exact trend_of_rows_eq_nil hnil
    rcases hconfirmed.1 with h | h <;> (rw [htrend] at h; cases h)
  rw [hphase, evaluateDistribution_isSome_iff hconfirmed]
  constructor
  · intro hnot
    have hrange : st.activeRange = none := by
      by_contra hne
      exact hnot ⟨Option.isSome_iff_ne_none.mpr hne, hstate hne⟩
    exact (hnone.mp hrange).resolve_left hrows
  · rintro hshort ⟨hsome, -⟩
    exact Option.isSome_iff_ne_none.mp hsome (hnone.mpr (Or.inr hshort))

section FixedInputs

open BiasChanges StructureState

/-- A bar before the frame whose trend is UP. -/
def sevenBars : ContextInput ℚ where
  symbol := "xauusd"
  tfPrimary := "1m"
  frame := some (minuteOf 0 5 4 :: upFrame)
  hasPriceColumns := true
  hasHighLow := true
  hasClose := true
  pdl := none
  pdh := none

instance decidableTrendConfirmed (st : RangedStructureState ℚ) (liquidity : SmcLiquidityState ℚ) :
    Decidable (TrendConfirmed st liquidity) := inferInstanceAs (Decidable (_ ∧ _ ∧ _))

instance decidableManipulated (st : RangedStructureState ℚ) (liquidity : SmcLiquidityState ℚ) :
    Decidable (Manipulated st liquidity) := inferInstanceAs (Decidable (_ ∧ _ ∧ _))

/-- The premises hold of the structure that is computed. -/
def confirmedIn (cfg : SmcCoreConfig ℚ) (snapshot : ContextInput ℚ) : Bool :=
  (computeStructureState id cfg snapshot OrderedDict.empty 0).any fun st =>
    decide (TrendConfirmed st (computeLiquidityState cfg snapshot st)) &&
      !decide (Manipulated st (computeLiquidityState cfg snapshot st))

theorem exists_of_confirmedIn (cfg : SmcCoreConfig ℚ) (snapshot : ContextInput ℚ)
    (h : confirmedIn cfg snapshot = true) :
    ∃ st, computeStructureState id cfg snapshot OrderedDict.empty 0 = some st ∧
      TrendConfirmed st (computeLiquidityState cfg snapshot st) ∧
      ¬ Manipulated st (computeLiquidityState cfg snapshot st) := by
  obtain ⟨st, hst, hboth⟩ := (Option.any_eq_true ..).mp h
  simp only [Bool.and_eq_true, decide_eq_true_eq, Bool.not_eq_true', decide_eq_false_iff_not]
    at hboth
  exact ⟨st, hst, hboth⟩

/-- A lookback shorter than a range: seven bars, of which six are looked at. -/
theorem seven_bars_distribute :
    ∃ st, computeStructureState id { sensitive with maxLookbackBars := 6, minRangeBars := 7 }
        sevenBars OrderedDict.empty 0 = some st ∧
      (computeLiquidityState { sensitive with maxLookbackBars := 6, minRangeBars := 7 } sevenBars
        st).amdPhase = .distribution := by
  obtain ⟨st, hst, hconfirmed, hquiet⟩ := exists_of_confirmedIn
    { sensitive with maxLookbackBars := 6, minRangeBars := 7 } sevenBars (by decide +kernel)
  exact ⟨st, hst, (distribution_iff_too_short hst hconfirmed hquiet).mpr
    (Or.inl (by decide +kernel))⟩

/-- A lookback that holds a range of six bars. -/
theorem six_bars_do_not_distribute :
    ¬ ∀ (cfg : SmcCoreConfig ℚ) (snapshot : ContextInput ℚ) (st : RangedStructureState ℚ),
      computeStructureState id cfg snapshot OrderedDict.empty 0 = some st →
      cfg.minRangeBars ≤ (snapshot.frame.getD []).length →
      TrendConfirmed st (computeLiquidityState cfg snapshot st) →
      ¬ Manipulated st (computeLiquidityState cfg snapshot st) →
      (computeLiquidityState cfg snapshot st).amdPhase = .distribution := by
  intro h
  obtain ⟨st, hst, hconfirmed, hquiet⟩ := exists_of_confirmedIn
    { sensitive with minRangeBars := 6 } sevenBars (by decide +kernel)
  have hphase := h _ _ st hst (by decide +kernel) hconfirmed hquiet
  have hdist := (deriveAmdPhase_eq_distribution_iff hquiet).mp hphase
  rw [evaluateDistribution_isSome_iff hconfirmed] at hdist
  obtain ⟨hnone, hstate⟩ := activeRange_eq_none_iff hst
  have hrange : st.activeRange ≠ none := by
    rw [ne_eq, hnone]
    decide +kernel
  exact hdist ⟨Option.isSome_iff_ne_none.mpr hrange, hstate hrange⟩

end FixedInputs

end AmdPhase

end SmcPipeline
