import SmcPipeline.StructureEngine

/-!
# The structure state, and why it does not repaint

The passes of `compute_structure_state` in `smc_structure/__init__.py`, chained: the
prepared frame, swings, legs, ATR and events. Appending bars that open later leaves
the rows of the frame where they are, a swing is decided by the rows of its window,
the label of a leg by the swings before it, an ATR value by the rows up to its own,
and an event by the legs before it: each pass yields an extension of what it
yielded before.
-/

namespace SmcPipeline

structure StructureState (K : Type*) where
  swings : List (Swing K)
  legs : List (Leg K)
  trend : SmcTrend
  atr : List (Option K)
  events : List (StructureEvent K)
  bias : Bias
  lastChochTs : Option ℤ

namespace StructureState

open Candles Swings StructureEngine

variable {K : Type*} [Field K] [LinearOrder K] (cfg : SmcCoreConfig K)

/-- The passes over a prepared frame. -/
def ofRows (rows : List (Candle K)) : StructureState K :=
  let swings := detectSwings rows cfg.minSwingBars
  let legs := buildLegs swings
  let trend := inferTrend legs
  let atr := computeAtr rows atrPeriod
  let events := detectEvents cfg legs rows atr
  let bias := deriveBias trend events
  { swings := swings
    legs := legs
    trend := trend
    atr := atr
    events := events
    bias := bias.1
    lastChochTs := bias.2 }

/-- `compute_structure_state` without the memory of events. -/
def compute (df : Option (List (RawBar K))) : StructureState K :=
  ofRows cfg (prepared cfg.maxLookbackBars df)

@[simp] theorem ofRows_swings (rows : List (Candle K)) :
    (ofRows cfg rows).swings = detectSwings rows cfg.minSwingBars := rfl

@[simp] theorem ofRows_legs (rows : List (Candle K)) :
    (ofRows cfg rows).legs = buildLegs (detectSwings rows cfg.minSwingBars) := rfl

@[simp] theorem ofRows_events (rows : List (Candle K)) :
    (ofRows cfg rows).events =
      detectEvents cfg (buildLegs (detectSwings rows cfg.minSwingBars)) rows
        (computeAtr rows atrPeriod) := rfl

theorem index_lt_of_mem_legs {K : Type*} [LinearOrder K] {rows : List (Candle K)}
    {minSeparation : ℤ} {leg : Leg K} (h : leg ∈ buildLegs (detectSwings rows minSeparation)) :
    leg.toSwing.index < rows.length := by
  have hmem := (mem_detectSwings.mp (toSwing_mem_of_mem_buildLegs h)).2.1
  omega

theorem valueAt_append {β : Type*} {xs ys : List (Option β)} {i : ℕ} (hi : i < xs.length) :
    valueAt (xs ++ ys) i = valueAt xs i := by
  unfold valueAt
  rw [List.getElem?_append_left hi]

/-- The ATR of the old rows is the old ATR. -/
theorem valueAt_computeAtr_append {rows more : List (Candle K)} (period : ℕ) {i : ℕ}
    (hi : i < rows.length) :
    valueAt (computeAtr (rows ++ more) period) i = valueAt (computeAtr rows period) i :=
  valueAt_computeAtr_shift (d := 0) hi (Or.inl rfl) fun j _ hj => by
    rw [Nat.add_zero, List.getElem?_append_left (by omega)]

/-- Every pass over an extended frame starts as it did on the old one. -/
theorem passes_append (rows more : List (Candle K)) :
    ∃ swings legs bias,
      (ofRows cfg (rows ++ more)).swings = (ofRows cfg rows).swings ++ swings ∧
      (ofRows cfg (rows ++ more)).legs = (ofRows cfg rows).legs ++ legs ∧
      (ofRows cfg (rows ++ more)).events = (ofRows cfg rows).events ++
        eventsFrom cfg ((rows ++ more).map Candle.close) (computeAtr (rows ++ more) atrPeriod)
          bias legs := by
  obtain ⟨swings, hswings⟩ := detectSwings_append rows more cfg.minSwingBars
  obtain ⟨legs, hlegs⟩ := buildLegs_append (detectSwings rows cfg.minSwingBars) swings
  simp only [ofRows_swings, ofRows_legs, ofRows_events]
  unfold detectEvents
  rw [hswings, hlegs, eventsFrom_append]
  have hsame : eventsFrom cfg (rows.map Candle.close) (computeAtr rows atrPeriod) .unknown
        (buildLegs (detectSwings rows cfg.minSwingBars)) =
      eventsFrom cfg ((rows ++ more).map Candle.close) (computeAtr (rows ++ more) atrPeriod)
        .unknown (buildLegs (detectSwings rows cfg.minSwingBars)) := by
    refine eventsFrom_congr cfg .unknown (fun leg hleg => ?_) fun leg hleg => ?_
    · rw [List.map_append, valueAt_append]
      rw [List.length_map]
      exact index_lt_of_mem_legs hleg
    · exact (valueAt_computeAtr_append atrPeriod (index_lt_of_mem_legs hleg)).symm
  rw [hsame]
  exact ⟨swings, legs, _, rfl, rfl, rfl⟩

/-- Every pass over an extended frame extends its old result. -/
theorem ofRows_append (rows more : List (Candle K)) :
    (ofRows cfg rows).swings <+: (ofRows cfg (rows ++ more)).swings ∧
      (ofRows cfg rows).legs <+: (ofRows cfg (rows ++ more)).legs ∧
      (ofRows cfg rows).events <+: (ofRows cfg (rows ++ more)).events := by
  obtain ⟨swings, legs, bias, hswings, hlegs, hevents⟩ := passes_append cfg rows more
  exact ⟨⟨swings, hswings.symm⟩, ⟨legs, hlegs.symm⟩, ⟨_, hevents.symm⟩⟩

/-- Bars appended to a frame, within the lookback, extend its swings, legs and
events. -/
theorem structure_does_not_repaint {df more : List (RawBar K)}
    (hlater : ∀ b ∈ more, ∃ u, b.openTime = some u ∧
      ∀ a ∈ df, ∀ t, a.openTime = some t → t < u)
    (hlen : ((df ++ more).length : ℤ) ≤ cfg.maxLookbackBars) :
    (compute cfg (some df)).swings <+: (compute cfg (some (df ++ more))).swings ∧
      (compute cfg (some df)).legs <+: (compute cfg (some (df ++ more))).legs ∧
      (compute cfg (some df)).events <+: (compute cfg (some (df ++ more))).events := by
  obtain ⟨rest, hrest⟩ := prepared_append hlen fun b hb a ha t u ht hu => by
    obtain ⟨u', hu', hlt⟩ := hlater b hb
    rw [hu] at hu'
    cases hu'
    exact (hlt a ha t ht).le
  unfold compute
  rw [hrest]
  exact ofRows_append cfg _ rest

section FixedInputs

/-- A bar of minute `n` that closes in the middle of its range. -/
def minuteOf (n : ℤ) (high low : ℚ) : RawBar ℚ :=
  ⟨some (60000 * n), some ((high + low) / 2), some high, some low, some ((high + low) / 2)⟩

/-- Swings of one bar and no threshold for a break. -/
def sensitive : SmcCoreConfig ℚ :=
  { smcCoreConfig ℚ with minSwingBars := 1, bosMinMoveAtrM1 := 0, bosMinMovePctM1 := 0 }

/-- A high, a low and a higher high. -/
def risingFrame : List (RawBar ℚ) :=
  [minuteOf 1 5 4, minuteOf 2 7 5, minuteOf 3 4 2, minuteOf 4 11 8, minuteOf 5 6 3]

theorem rising_frame_does_not_repaint :
    (compute sensitive (some risingFrame)).events.length = 1 ∧
      ((compute sensitive (some risingFrame)).swings <+:
          (compute sensitive (some (risingFrame ++ [minuteOf 6 8 5]))).swings ∧
        (compute sensitive (some risingFrame)).legs <+:
          (compute sensitive (some (risingFrame ++ [minuteOf 6 8 5]))).legs ∧
        (compute sensitive (some risingFrame)).events <+:
          (compute sensitive (some (risingFrame ++ [minuteOf 6 8 5]))).events) := by
  refine ⟨by decide +kernel, structure_does_not_repaint sensitive ?_ (by decide)⟩
  intro b hb
  obtain rfl : b = minuteOf 6 8 5 := by simpa using hb
  refine ⟨360000, rfl, fun a ha t ht => ?_⟩
  simp only [risingFrame, minuteOf, List.mem_cons, List.not_mem_nil, or_false] at ha
  rcases ha with rfl | rfl | rfl | rfl | rfl <;> (cases ht; decide)

end FixedInputs

end StructureState

end SmcPipeline
