import SmcPipeline.StructureState
import Mathlib.Algebra.BigOperators.Ring.List
import Mathlib.Algebra.Order.Ring.Abs

/-!
# The unit of price

Swings, legs and the trend are found by comparing prices, so that they go along with every strictly
monotone map of the prices; ranges, the ATR and the thresholds of breaks go along with a change of
the unit. No price is held against a number of its own.
-/

namespace SmcPipeline.StructureUnits

open Candles Swings StructureEngine KeyedRows

variable {K L : Type*}

section

variable (f : K → L)

def barOf (row : RawBar K) : RawBar L :=
  ⟨row.openTime, row.opn.map f, row.high.map f, row.low.map f, row.close.map f⟩

def candleOf (c : Candle K) : Candle L :=
  ⟨c.time, c.opn.map f, c.high.map f, c.low.map f, c.close.map f⟩

def swingOf (s : Swing K) : Swing L := ⟨s.index, s.time, f s.price, s.kind, s.strength⟩

def legOf (leg : Leg K) : Leg L :=
  ⟨swingOf f leg.fromSwing, swingOf f leg.toSwing, leg.label, leg.referencePrice.map f⟩

def eventOf (e : StructureEvent K) : StructureEvent L :=
  ⟨e.eventType, e.direction, f e.priceLevel, e.time, legOf f e.sourceLeg⟩

def stateOf (st : StructureState K) : StructureState L where
  swings := st.swings.map (swingOf f)
  legs := st.legs.map (legOf f)
  trend := st.trend
  atr := st.atr.map (Option.map f)
  events := st.events.map (eventOf f)
  bias := st.bias
  lastChochTs := st.lastChochTs

theorem toCandle_barOf (row : RawBar K) :
    toCandle (barOf f row) = (toCandle row).map (candleOf f) := by
  unfold toCandle barOf
  cases row.openTime with
  | none => rfl
  | some t =>
      dsimp only
      split_ifs <;> rfl

theorem prepared_map (maxBars : ℤ) (df : Option (List (RawBar K))) :
    prepared maxBars (df.map (List.map (barOf f))) = (prepared maxBars df).map (candleOf f) := by
  cases df with
  | none => rfl
  | some df =>
      have hrows : ∀ rows : List (RawBar K), (rows.map (barOf f)).filterMap toCandle =
          (rows.filterMap toCandle).map (candleOf f) := by
        intro rows
        rw [List.filterMap_map, List.map_filterMap]
        exact List.filterMap_congr fun row _ => toCandle_barOf f row
      have hsort : ∀ rows : List (Candle K), sortBy Candle.time (rows.map (candleOf f)) =
          (sortBy Candle.time rows).map (candleOf f) := fun rows =>
        (List.map_insertionSort _ _ (candleOf f) rows fun _ _ _ _ => Iff.rfl).symm
      unfold prepared prepareFrame
      dsimp only [Option.map_some]
      rw [List.length_map, ← List.map_drop, ← apply_ite (List.map (barOf f)), hrows,
        List.isEmpty_map, hsort]
      split_ifs <;> rfl

theorem valueAt_map {α β : Type*} (g : α → β) (cells : List (Option α)) (i : ℕ) :
    valueAt (cells.map (Option.map g)) i = (valueAt cells i).map g := by
  unfold valueAt
  rw [List.getElem?_map]
  cases cells[i]? <;> rfl

theorem slice_map {α β : Type*} (g : α → β) (lo hi : ℕ) (xs : List α) :
    slice lo hi (xs.map g) = (slice lo hi xs).map g := by
  unfold slice
  rw [← List.map_drop, ← List.map_take]

theorem values_map (cells : List (Option K)) :
    (cells.map (Option.map f)).filterMap id = (cells.filterMap id).map f := by
  rw [List.filterMap_map, List.map_filterMap]
  rfl

end

section

variable [LinearOrder K] [LinearOrder L] {f : K → L}

theorem max?_map (hf : StrictMono f) (xs : List K) : (xs.map f).max? = xs.max?.map f := by
  cases xs with
  | nil => rfl
  | cons x xs =>
      rw [List.map_cons, List.max?_cons', List.max?_cons', List.foldl_map, Option.map_some]
      exact congrArg some (List.foldl_hom f fun a b => hf.monotone.map_max.symm)

theorem min?_map (hf : StrictMono f) (xs : List K) : (xs.map f).min? = xs.min?.map f := by
  cases xs with
  | nil => rfl
  | cons x xs =>
      rw [List.map_cons, List.min?_cons', List.min?_cons', List.foldl_map, Option.map_some]
      exact congrArg some (List.foldl_hom f fun a b => hf.monotone.map_min.symm)

end

/-- An extreme is where it was, if the best cells and the comparisons are. -/
theorem extremeAt_map {f : K → L} {best : List K → Option K} {best' : List L → Option L}
    {beats : K → K → Bool} {beats' : L → L → Bool}
    (hbest : ∀ xs, best' (xs.map f) = (best xs).map f)
    (hbeats : ∀ x y, beats' (f x) (f y) = beats x y) (window : ℕ) (cells : List (Option K))
    (idx : ℕ) :
    extremeAt best' beats' window (cells.map (Option.map f)) idx =
      (extremeAt best beats window cells idx).map f := by
  unfold extremeAt
  rw [valueAt_map, slice_map, slice_map, values_map, values_map, hbest, hbest]
  cases valueAt cells idx with
  | none => rfl
  | some x =>
      cases best ((slice (idx - window) idx cells).filterMap id) with
      | none => rfl
      | some left =>
          cases best ((slice (idx + 1) (idx + 1 + window) cells).filterMap id) with
          | none => rfl
          | some right =>
              simp only [Option.map_some, hbeats]
              split_ifs <;> rfl

section

variable [LinearOrder K] [LinearOrder L] {f : K → L}

theorem priceAt_map (hf : StrictMono f) (kind : SwingKind) (window : ℕ) (rows : List (Candle K))
    (idx : ℕ) : priceAt kind window (rows.map (candleOf f)) idx =
      (priceAt kind window rows idx).map f := by
  cases kind with
  | high =>
      have hcells : (rows.map (candleOf f)).map Candle.high =
          (rows.map Candle.high).map (Option.map f) := by
        rw [List.map_map, List.map_map]
        rfl
      unfold priceAt highAt
      dsimp only
      rw [hcells]
      exact extremeAt_map (max?_map hf) (fun x y => decide_eq_decide.mpr hf.le_iff_le) window _ idx
  | low =>
      have hcells : (rows.map (candleOf f)).map Candle.low =
          (rows.map Candle.low).map (Option.map f) := by
        rw [List.map_map, List.map_map]
        rfl
      unfold priceAt lowAt
      dsimp only
      rw [hcells]
      exact extremeAt_map (min?_map hf) (fun x y => decide_eq_decide.mpr hf.le_iff_le) window _ idx

theorem swingAt_map (hf : StrictMono f) (kind : SwingKind) (window : ℕ) (rows : List (Candle K))
    (idx : ℕ) : swingAt kind window (rows.map (candleOf f)) idx =
      (swingAt kind window rows idx).map (swingOf f) := by
  unfold swingAt
  rw [List.getElem?_map, priceAt_map hf]
  cases rows[idx]? with
  | none => rfl
  | some r => cases priceAt kind window rows idx <;> rfl

theorem detectSwings_map (hf : StrictMono f) (rows : List (Candle K)) (minSeparation : ℤ) :
    detectSwings (rows.map (candleOf f)) minSeparation =
      (detectSwings rows minSeparation).map (swingOf f) := by
  rw [detectSwings_eq, detectSwings_eq, List.length_map, List.map_flatMap]
  refine List.flatMap_congr fun idx _ => ?_
  unfold swingsAt
  rw [swingAt_map hf, swingAt_map hf, List.map_append]
  cases swingAt .high (windowOf minSeparation) rows idx <;>
    cases swingAt .low (windowOf minSeparation) rows idx <;> rfl

/-- The two remembered prices, mapped. -/
def lastMapped (f : K → L) (last : Option K × Option K) : Option L × Option L :=
  (last.1.map f, last.2.map f)

omit [LinearOrder K] [LinearOrder L] in
theorem remember_map (s : Swing K) (last : Option K × Option K) :
    remember (swingOf f s) (lastMapped f last) = lastMapped f (remember s last) := by
  unfold remember swingOf
  cases s.kind <;> rfl

theorem labelOf_map (hf : StrictMono f) (kind : SwingKind) (price : K) (last : Option K) :
    labelOf kind (f price) (last.map f) = labelOf kind price last := by
  cases last with
  | none => cases kind <;> rfl
  | some ref => cases kind <;> simp [labelOf, hf.lt_iff_lt]

theorem legsFrom_map (hf : StrictMono f) (prev : Swing K) (last : Option K × Option K)
    (swings : List (Swing K)) :
    legsFrom (swingOf f prev) (lastMapped f last) (swings.map (swingOf f)) =
      (legsFrom prev last swings).map (legOf f) := by
  induction swings generalizing prev last with
  | nil => rfl
  | cons curr swings ih =>
      have hlast : lastOf curr.kind (lastMapped f (remember prev last)) =
          (lastOf curr.kind (remember prev last)).map f := by
        cases curr.kind <;> rfl
      simp only [List.map_cons, legsFrom, remember_map]
      rw [ih]
      simp only [legOf, swingOf, hlast, labelOf_map hf]

theorem buildLegs_map (hf : StrictMono f) (swings : List (Swing K)) :
    buildLegs (swings.map (swingOf f)) = (buildLegs swings).map (legOf f) := by
  cases swings with
  | nil => rfl
  | cons first rest =>
      have hfirst : remember (swingOf f first) (none, none) =
          lastMapped f (remember first (none, none)) := remember_map first (none, none)
      rw [List.map_cons, buildLegs, hfirst, legsFrom_map hf, buildLegs]

omit [LinearOrder K] [LinearOrder L] in
theorem inferTrend_map (legs : List (Leg K)) :
    inferTrend (legs.map (legOf f)) = inferTrend legs := by
  have hlabel : ∀ kind, lastLabelForKind (legs.map (legOf f)) kind =
      lastLabelForKind legs kind := by
    intro kind
    unfold lastLabelForKind
    rw [← List.map_reverse, List.find?_map, Option.map_map]
    rfl
  unfold inferTrend
  rw [hlabel, hlabel]

omit [LinearOrder K] [LinearOrder L] in
theorem lastChoch_map (events : List (StructureEvent K)) :
    lastChoch (events.map (eventOf f)) = (lastChoch events).map (eventOf f) := by
  unfold lastChoch
  rw [List.foldl_map]
  refine @List.foldl_hom _ _ _ (Option.map (eventOf f)) _ _ events none fun last event => ?_
  cases last with
  | none => cases hty : event.eventType <;> simp [eventOf, hty]
  | some prev =>
      cases hty : event.eventType with
      | bos => simp [eventOf, hty]
      | choch =>
          simp only [eventOf, Option.map_some, hty, if_true]
          split_ifs <;> simp [eventOf, hty]

omit [LinearOrder K] [LinearOrder L] in
theorem deriveBias_map (trend : SmcTrend) (events : List (StructureEvent K)) :
    deriveBias trend (events.map (eventOf f)) = deriveBias trend events := by
  unfold deriveBias
  rw [lastChoch_map]
  cases lastChoch events <;> rfl

end

section

variable [Field K] [LinearOrder K] [IsStrictOrderedRing K] {u : K}

theorem strictMono_unit (hu : 0 < u) : StrictMono (u * ·) := fun _ _ h =>
  mul_lt_mul_of_pos_left h hu

theorem abs_unit (hu : 0 < u) (x y : K) : |u * x - u * y| = u * |x - y| := by
  rw [← mul_sub, abs_mul, abs_of_pos hu]

theorem trueRangeOf_map (hu : 0 < u) (high low prevClose : Option K) :
    trueRangeOf (high.map (u * ·)) (low.map (u * ·)) (prevClose.map (u * ·)) =
      (trueRangeOf high low prevClose).map (u * ·) := by
  unfold trueRangeOf
  rw [← max?_map (strictMono_unit hu), ← values_map]
  congr 2
  cases high <;> cases low <;> cases prevClose <;>
    simp [abs_unit hu, mul_sub]

omit [Field K] [LinearOrder K] [IsStrictOrderedRing K] in
theorem closes_map {f : K → K} (rows : List (Candle K)) :
    (rows.map (candleOf f)).map Candle.close = (rows.map Candle.close).map (Option.map f) := by
  rw [List.map_map, List.map_map]
  rfl

theorem trueRangeAt_map (hu : 0 < u) (rows : List (Candle K)) (i : ℕ) :
    trueRangeAt (rows.map (candleOf (u * ·))) i = (trueRangeAt rows i).map (u * ·) := by
  unfold trueRangeAt
  rw [List.getElem?_map, closes_map, valueAt_map]
  cases rows[i]? with
  | none => rfl
  | some r =>
      rw [← trueRangeOf_map hu, apply_ite (Option.map _)]
      rfl

omit [LinearOrder K] [IsStrictOrderedRing K] in
theorem rollingMeanAt_map (period : ℕ) (xs : List (Option K)) (i : ℕ) :
    rollingMeanAt period (xs.map (Option.map (u * ·))) i =
      (rollingMeanAt period xs i).map (u * ·) := by
  unfold rollingMeanAt
  dsimp only
  rw [slice_map, values_map, List.sum_map_mul_left, List.map_id', List.all_map]
  have hall : (slice (i + 1 - period) (i + 1) xs).all
      (Option.isSome ∘ Option.map (u * ·)) = (slice (i + 1 - period) (i + 1) xs).all
        Option.isSome := by
    congr 1
    funext x
    exact Option.isSome_map
  rw [hall]
  split_ifs <;> simp [mul_div_assoc]

theorem computeAtr_map (hu : 0 < u) (rows : List (Candle K)) (period : ℕ) :
    computeAtr (rows.map (candleOf (u * ·))) period =
      (computeAtr rows period).map (Option.map (u * ·)) := by
  have htrue : (List.range rows.length).map (trueRangeAt (rows.map (candleOf (u * ·)))) =
      ((List.range rows.length).map (trueRangeAt rows)).map (Option.map (u * ·)) := by
    rw [List.map_map]
    exact List.map_congr_left fun i _ => trueRangeAt_map hu rows i
  have hmean : ∀ xs : List (Option K),
      (List.range rows.length).map (rollingMeanAt period (xs.map (Option.map (u * ·)))) =
        ((List.range rows.length).map (rollingMeanAt period xs)).map (Option.map (u * ·)) := by
    intro xs
    rw [List.map_map]
    exact List.map_congr_left fun i _ => rollingMeanAt_map period xs i
  unfold computeAtr
  rw [List.length_map, htrue, hmean]

variable (cfg : SmcCoreConfig K)

/-- Both thresholds are multiples of prices. -/
theorem passesBreakThreshold_map (hu : 0 < u) (close baseline : K) (atr : Option K) :
    passesBreakThreshold cfg (u * close) (u * baseline) (atr.map (u * ·)) =
      passesBreakThreshold cfg close baseline atr := by
  have hpct : |u * close| * cfg.bosMinMovePctM1 = u * (|close| * cfg.bosMinMovePctM1) := by
    rw [abs_mul, abs_of_pos hu, mul_assoc]
  have hle : ∀ part : K, (max (u * part) (u * (|close| * cfg.bosMinMovePctM1)) ≤
      u * |close - baseline|) ↔
        max part (|close| * cfg.bosMinMovePctM1) ≤ |close - baseline| := by
    intro part
    rw [max_le_iff, max_le_iff, mul_le_mul_iff_right₀ hu, mul_le_mul_iff_right₀ hu]
  unfold passesBreakThreshold
  dsimp only
  rw [hpct, abs_unit hu]
  cases atr with
  | none => exact decide_eq_decide.mpr (by simpa using hle 0)
  | some a => exact decide_eq_decide.mpr (by simpa [mul_assoc] using hle (a * cfg.bosMinMoveAtrM1))

theorem breaks_map (hu : 0 < u) (closes atr : List (Option K)) (leg : Leg K) :
    breaks cfg (closes.map (Option.map (u * ·))) (atr.map (Option.map (u * ·)))
      (legOf (u * ·) leg) = breaks cfg closes atr leg := by
  unfold breaks
  simp only [legOf, swingOf, valueAt_map]
  cases valueAt closes leg.toSwing.index with
  | none => rfl
  | some close =>
      cases leg.referencePrice with
      | none => rfl
      | some baseline =>
          dsimp only [Option.map_some]
          rw [passesBreakThreshold_map cfg hu]
          rfl

theorem eventsFrom_map (hu : 0 < u) (closes atr : List (Option K)) (bias : SmcTrend)
    (legs : List (Leg K)) :
    eventsFrom cfg (closes.map (Option.map (u * ·))) (atr.map (Option.map (u * ·))) bias
        (legs.map (legOf (u * ·))) =
      (eventsFrom cfg closes atr bias legs).map (eventOf (u * ·)) := by
  induction legs generalizing bias with
  | nil => rfl
  | cons leg legs ih =>
      have hleg : legEvent cfg (closes.map (Option.map (u * ·))) (atr.map (Option.map (u * ·)))
          bias (legOf (u * ·) leg) =
          ((legEvent cfg closes atr bias leg).1.map (eventOf (u * ·)),
            (legEvent cfg closes atr bias leg).2) := by
        unfold legEvent
        rw [breaks_map cfg hu]
        split_ifs with hbreaks
        · refine Prod.ext ?_ rfl
          dsimp only
          rw [Option.map_map]
          rfl
        · rfl
      simp only [List.map_cons, eventsFrom]
      rw [hleg, ih, List.map_append]
      cases (legEvent cfg closes atr bias leg).1 <;> rfl

theorem ofRows_map (hu : 0 < u) (rows : List (Candle K)) :
    StructureState.ofRows cfg (rows.map (candleOf (u * ·))) =
      stateOf (u * ·) (StructureState.ofRows cfg rows) := by
  unfold StructureState.ofRows stateOf detectEvents
  dsimp only
  rw [detectSwings_map (strictMono_unit hu), buildLegs_map (strictMono_unit hu), inferTrend_map,
    computeAtr_map hu, closes_map, eventsFrom_map cfg hu, deriveBias_map]

/-- A frame told in another unit has the swings, legs, events, trend and bias it had, the
prices told in that unit. -/
theorem structure_follows_unit (hu : 0 < u) (df : Option (List (RawBar K))) :
    StructureState.compute cfg (df.map (List.map (barOf (u * ·)))) =
      stateOf (u * ·) (StructureState.compute cfg df) := by
  unfold StructureState.compute
  rw [prepared_map]
  exact ofRows_map cfg hu _

end

section FixedInputs

open StructureState

theorem rising_frame_in_cents :
    (0 : ℚ) < 100 ∧ (compute sensitive (some risingFrame)).events ≠ [] ∧
      compute sensitive ((some risingFrame).map (List.map (barOf (100 * ·)))) =
        stateOf (100 * ·) (compute sensitive (some risingFrame)) :=
  ⟨by decide, by decide +kernel, structure_follows_unit sensitive (by decide) (some risingFrame)⟩

end FixedInputs

end SmcPipeline.StructureUnits
