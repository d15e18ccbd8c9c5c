import SmcPipeline.OteZones
import SmcPipeline.StructureState

/-!
# The side of a break

`_passes_break_threshold` measures how far the close is from the reference and not on
which side. A lower high closes below its reference and a higher low above it anyway,
because the close lies within its bar. The bar of a higher high may close far below the
old high, and still gives a LONG event; a lower low dually.
-/

namespace SmcPipeline.BreakSides

open Candles Swings StructureEngine StructureState OteZones Extremes

variable {K : Type*}

/-- The close lies within the bar. -/
def CloseWithin [LE K] (rows : List (Candle K)) : Prop :=
  ∀ r ∈ rows, ∀ close, r.close = some close →
    (∀ low, r.low = some low → low ≤ close) ∧ ∀ high, r.high = some high → close ≤ high

theorem kind_of_lh [LinearOrder K] {leg : Leg K} {ref : K} (href : leg.referencePrice = some ref)
    (hlabel : leg.label = labelOf leg.toSwing.kind leg.toSwing.price leg.referencePrice)
    (hlh : leg.label = .lh) : leg.toSwing.kind = .high ∧ leg.toSwing.price ≤ ref := by
  rw [hlh, href] at hlabel
  cases hk : leg.toSwing.kind with
  | high =>
      refine ⟨rfl, ?_⟩
      by_contra hlt
      simp only [hk, labelOf, if_pos (lt_of_not_ge hlt)] at hlabel
      cases hlabel
  | low =>
      simp only [hk, labelOf] at hlabel
      split_ifs at hlabel

theorem kind_of_hl [LinearOrder K] {leg : Leg K} {ref : K} (href : leg.referencePrice = some ref)
    (hlabel : leg.label = labelOf leg.toSwing.kind leg.toSwing.price leg.referencePrice)
    (hhl : leg.label = .hl) : leg.toSwing.kind = .low ∧ ref < leg.toSwing.price := by
  rw [hhl, href] at hlabel
  cases hk : leg.toSwing.kind with
  | high =>
      simp only [hk, labelOf] at hlabel
      split_ifs at hlabel
  | low =>
      refine ⟨rfl, ?_⟩
      by_contra hle
      simp only [hk, labelOf, if_neg hle] at hlabel
      cases hlabel

section

variable [LinearOrder K] {rows : List (Candle K)} {minSeparation : ℤ} {leg : Leg K}

/-- The close of the bar at which a leg ends, against the end of the leg. -/
theorem close_against_end (hrows : CloseWithin rows)
    (hleg : leg ∈ buildLegs (detectSwings rows minSeparation)) {close : K}
    (hclose : valueAt (rows.map Candle.close) leg.toSwing.index = some close) :
    match leg.toSwing.kind with
    | .high => close ≤ leg.toSwing.price
    | .low => leg.toSwing.price ≤ close := by
  obtain ⟨r, hr, hcell⟩ := cell_of_swing (toSwing_mem_of_mem_buildLegs hleg)
  have hrclose : r.close = some close := by
    simpa [valueAt, List.getElem?_map, hr] using hclose
  obtain ⟨hlow, hhigh⟩ := hrows r (List.mem_of_getElem? hr) close hrclose
  cases hk : leg.toSwing.kind with
  | high =>
      rw [hk] at hcell
      exact hhigh _ hcell
  | low =>
      rw [hk] at hcell
      exact hlow _ hcell

/-- A lower high closes on the side of its break. -/
theorem close_le_of_lh (hrows : CloseWithin rows)
    (hleg : leg ∈ buildLegs (detectSwings rows minSeparation)) {close ref : K}
    (hclose : valueAt (rows.map Candle.close) leg.toSwing.index = some close)
    (href : leg.referencePrice = some ref) (hlh : leg.label = .lh) : close ≤ ref := by
  obtain ⟨pre, post, -, hat⟩ := legAt_of_mem_buildLegs hleg
  obtain ⟨hk, hle⟩ := kind_of_lh href hat.label hlh
  have hend := close_against_end hrows hleg hclose
  rw [hk] at hend
  exact hend.trans hle

theorem le_close_of_hl (hrows : CloseWithin rows)
    (hleg : leg ∈ buildLegs (detectSwings rows minSeparation)) {close ref : K}
    (hclose : valueAt (rows.map Candle.close) leg.toSwing.index = some close)
    (href : leg.referencePrice = some ref) (hhl : leg.label = .hl) : ref ≤ close := by
  obtain ⟨pre, post, -, hat⟩ := legAt_of_mem_buildLegs hleg
  obtain ⟨hk, hlt⟩ := kind_of_hl href hat.label hhl
  have hend := close_against_end hrows hleg hclose
  rw [hk] at hend
  exact hlt.le.trans hend

end

variable [Field K] [LinearOrder K] (cfg : SmcCoreConfig K)

/-- `max(atr * bos_min_move_atr_m1, |close| * bos_min_move_pct_m1)`, the first term 0
without an ATR. -/
def breakThreshold (close : K) (atr : Option K) : K :=
  max (match atr with | none => 0 | some a => a * cfg.bosMinMoveAtrM1)
    (|close| * cfg.bosMinMovePctM1)

theorem passesBreakThreshold_iff (close baseline : K) (atr : Option K) :
    passesBreakThreshold cfg close baseline atr = true ↔
      breakThreshold cfg close atr ≤ |close - baseline| := by
  unfold passesBreakThreshold breakThreshold
  exact decide_eq_true_iff

/-- What a broken leg says about its close. -/
theorem breaks_iff {closes atr : List (Option K)} {leg : Leg K} :
    breaks cfg closes atr leg = true ↔ leg.label ≠ .undefined ∧ ∃ close ref,
      valueAt closes leg.toSwing.index = some close ∧ leg.referencePrice = some ref ∧
        breakThreshold cfg close (valueAt atr leg.toSwing.index) ≤ |close - ref| := by
  unfold breaks
  split
  · rename_i close ref hclose href
    rw [Bool.and_eq_true, decide_eq_true_eq, passesBreakThreshold_iff]
    simp only [hclose, href, Option.some.injEq, exists_and_left, exists_eq_left']
  · rename_i hnone
    constructor
    · intro h
      cases h
    · rintro ⟨-, close, ref, hclose, href, -⟩
      exact absurd href (hnone close ref hclose)

/-- On the side of the direction, and by the threshold. -/
def Beyond (d : Direction) (ref threshold close : K) : Prop :=
  match d with
  | .long => ref + threshold ≤ close
  | .short => close ≤ ref - threshold

instance (d : Direction) (ref threshold close : K) : Decidable (Beyond d ref threshold close) :=
  match d with
  | .long => inferInstanceAs (Decidable (ref + threshold ≤ close))
  | .short => inferInstanceAs (Decidable (close ≤ ref - threshold))

/-- The close of an event is beyond the reference of its leg by the threshold. -/
def Confirmed (rows : List (Candle K)) (atr : List (Option K)) (e : StructureEvent K) : Prop :=
  ∃ close ref, valueAt (rows.map Candle.close) e.sourceLeg.toSwing.index = some close ∧
    e.sourceLeg.referencePrice = some ref ∧
      Beyond e.direction ref
        (breakThreshold cfg close (valueAt atr e.sourceLeg.toSwing.index)) close

/-- A higher high does not close below its reference by the threshold, nor a lower low
above it. -/
def HoldsExtreme (rows : List (Candle K)) (atr : List (Option K)) (leg : Leg K) : Prop :=
  ∀ close ref, valueAt (rows.map Candle.close) leg.toSwing.index = some close →
    leg.referencePrice = some ref →
      (leg.label = .hh → close < ref →
        ref - breakThreshold cfg close (valueAt atr leg.toSwing.index) < close) ∧
      (leg.label = .ll → ref < close →
        close < ref + breakThreshold cfg close (valueAt atr leg.toSwing.index))

theorem classify_direction {bias : SmcTrend} {label : LegLabel} {v : EventType × Direction}
    (h : (classify bias label).1 = some v) :
    (v.2 = .long ∧ (label = .hh ∨ label = .hl)) ∨ (v.2 = .short ∧ (label = .ll ∨ label = .lh)) := by
  cases label with
  | hh =>
      cases h
      exact Or.inl ⟨rfl, Or.inl rfl⟩
  | ll =>
      cases h
      exact Or.inr ⟨rfl, Or.inl rfl⟩
  | lh =>
      obtain ⟨-, rfl⟩ : bias = .down ∧ (.bos, .short) = v := by simpa [classify] using h
      exact Or.inr ⟨rfl, Or.inr rfl⟩
  | hl =>
      obtain ⟨-, rfl⟩ : bias = .up ∧ (.bos, .long) = v := by simpa [classify] using h
      exact Or.inl ⟨rfl, Or.inr rfl⟩
  | undefined => cases h

/-- The direction of an event, by the label of its leg. -/
theorem direction_of_legEvent {closes atr : List (Option K)} {bias : SmcTrend} {leg : Leg K}
    {e : StructureEvent K} (h : (legEvent cfg closes atr bias leg).1 = some e) :
    (e.direction = .long ∧ (leg.label = .hh ∨ leg.label = .hl)) ∨
      (e.direction = .short ∧ (leg.label = .ll ∨ leg.label = .lh)) := by
  unfold legEvent at h
  split_ifs at h
  obtain ⟨v, hv, rfl⟩ := Option.map_eq_some_iff.mp h
  exact classify_direction hv

/-- A broken leg whose label has a verdict under every bias gives its event. -/
theorem exists_event_of_breaks {closes atr : List (Option K)} {legs : List (Leg K)} {leg : Leg K}
    {d : Direction} (bias : SmcTrend) (hleg : leg ∈ legs)
    (hbreaks : breaks cfg closes atr leg = true)
    (hverdict : ∀ bias, ∃ t, (classify bias leg.label).1 = some (t, d)) :
    ∃ e ∈ eventsFrom cfg closes atr bias legs, e.sourceLeg = leg ∧ e.direction = d := by
  obtain ⟨pre, post, rfl⟩ := List.append_of_mem hleg
  obtain ⟨t, ht⟩ := hverdict (biasAfter cfg closes atr bias pre)
  refine ⟨⟨t, d, leg.toSwing.price, leg.toSwing.time, leg⟩, ?_, rfl, rfl⟩
  refine (mem_eventsFrom cfg).mpr ⟨pre, leg, post, rfl, ?_⟩
  unfold legEvent
  simp only [if_pos hbreaks, ht, Option.map_some]

/-- Where all events are confirmed, so is a broken leg to a new extreme. -/
theorem side_of_breaks {rows : List (Candle K)} {atr : List (Option K)} {legs : List (Leg K)}
    (h : ∀ e ∈ detectEvents cfg legs rows atr, Confirmed cfg rows atr e) {leg : Leg K}
    (hleg : leg ∈ legs) {d : Direction}
    (hverdict : ∀ bias, ∃ t, (classify bias leg.label).1 = some (t, d)) {close ref : K}
    (hclose : valueAt (rows.map Candle.close) leg.toSwing.index = some close)
    (href : leg.referencePrice = some ref)
    (hpass : breakThreshold cfg close (valueAt atr leg.toSwing.index) ≤ |close - ref|) :
    Beyond d ref (breakThreshold cfg close (valueAt atr leg.toSwing.index)) close := by
  have hlabel : leg.label ≠ .undefined := by
    intro hl
    obtain ⟨t, ht⟩ := hverdict .unknown
    rw [hl] at ht
    cases ht
  have hbreaks := (breaks_iff cfg).mpr ⟨hlabel, close, ref, hclose, href, hpass⟩
  obtain ⟨e, he, rfl, rfl⟩ := exists_event_of_breaks cfg .unknown hleg hbreaks hverdict
  obtain ⟨close', ref', hclose', href', hside⟩ := h e he
  obtain rfl := Option.some.inj (hclose.symm.trans hclose')
  obtain rfl := Option.some.inj (href.symm.trans href')
  exact hside

variable [IsStrictOrderedRing K] {cfg}

theorem confirmed_of_holdsExtreme {rows : List (Candle K)} {minSeparation : ℤ}
    {atr : List (Option K)} {bias : SmcTrend} {leg : Leg K} {e : StructureEvent K}
    (hrows : CloseWithin rows) (hleg : leg ∈ buildLegs (detectSwings rows minSeparation))
    (hholds : HoldsExtreme cfg rows atr leg)
    (he : (legEvent cfg (rows.map Candle.close) atr bias leg).1 = some e) :
    Confirmed cfg rows atr e := by
  obtain ⟨hbreaks, hsource, -, -⟩ := legEvent_eq_some cfg he
  obtain ⟨-, close, ref, hclose, href, hpass⟩ := (breaks_iff cfg).mp hbreaks
  obtain ⟨hhh, hll⟩ := hholds close ref hclose href
  unfold Confirmed
  rw [hsource]
  refine ⟨close, ref, hclose, href, ?_⟩
  generalize breakThreshold cfg close (valueAt atr leg.toSwing.index) = threshold at *
  have habove : ref ≤ close → ref + threshold ≤ close := by
    intro hle
    rw [abs_of_nonneg (sub_nonneg.mpr hle)] at hpass
    linarith
  have hbelow : close ≤ ref → close ≤ ref - threshold := by
    intro hle
    rw [abs_of_nonpos (sub_nonpos.mpr hle)] at hpass
    linarith
  rcases direction_of_legEvent cfg he with ⟨hdir, hlabel⟩ | ⟨hdir, hlabel⟩
  · rw [hdir]
    refine habove ?_
    rcases hlabel with hl | hl
    · by_contra hnot
      have hlt := lt_of_not_ge hnot
      exact absurd (hhh hl hlt) (not_lt.mpr (hbelow hlt.le))
    · exact le_close_of_hl hrows hleg hclose href hl
  · rw [hdir]
    refine hbelow ?_
    rcases hlabel with hl | hl
    · by_contra hnot
      have hlt := lt_of_not_ge hnot
      exact absurd (hll hl hlt) (not_lt.mpr (habove hlt.le))
    · exact close_le_of_lh hrows hleg hclose href hl

/-- Every event is confirmed on the side of its direction exactly if no higher high
closes below its reference by the threshold and no lower low above it. -/
theorem confirmed_iff_holdsExtreme {rows : List (Candle K)} {atr : List (Option K)}
    {minSeparation : ℤ} (hpct : 0 ≤ cfg.bosMinMovePctM1) (hrows : CloseWithin rows) :
    (∀ e ∈ detectEvents cfg (buildLegs (detectSwings rows minSeparation)) rows atr,
        Confirmed cfg rows atr e) ↔
      ∀ leg ∈ buildLegs (detectSwings rows minSeparation), HoldsExtreme cfg rows atr leg := by
  constructor
  · intro h leg hleg close ref hclose href
    have hthreshold : 0 ≤ breakThreshold cfg close (valueAt atr leg.toSwing.index) :=
      (mul_nonneg (abs_nonneg close) hpct).trans (le_max_right _ _)
    refine ⟨fun hl hlt => ?_, fun hl hlt => ?_⟩
    · by_contra hfar
      have hside := side_of_breaks cfg h hleg (d := .long) (fun bias => ⟨_, by rw [hl]; rfl⟩)
        hclose href (by rw [abs_of_neg (sub_neg.mpr hlt)]; linarith)
      unfold Beyond at hside
      linarith
    · by_contra hfar
      have hside := side_of_breaks cfg h hleg (d := .short) (fun bias => ⟨_, by rw [hl]; rfl⟩)
        hclose href (by rw [abs_of_pos (sub_pos.mpr hlt)]; linarith)
      unfold Beyond at hside
      linarith
  · intro h e he
    obtain ⟨pre, leg, post, hsplit, hout⟩ := (mem_eventsFrom cfg).mp he
    have hleg : leg ∈ buildLegs (detectSwings rows minSeparation) := by
      rw [hsplit]
      simp
    exact confirmed_of_holdsExtreme hrows hleg (h leg hleg) hout

section FixedInputs

def oneBarSwings : SmcCoreConfig ℚ := { smcCoreConfig ℚ with minSwingBars := 1 }

def bar (n : ℤ) (high low close : ℚ) : Candle ℚ := ⟨60000 * n, some close, some high, some low, some close⟩

/-- A high of 20 is passed by a wick to 21 that closes at 12. -/
def wickRows : List (Candle ℚ) :=
  [bar 0 15 10 12, bar 1 20 14 18, bar 2 13 8 9, bar 3 21 11 12, bar 4 16 10 13]

/-- The same high is passed by a bar that closes at 21. -/
def closeRows : List (Candle ℚ) :=
  [bar 0 15 10 12, bar 1 20 14 18, bar 2 13 8 9, bar 3 22 11 21, bar 4 16 10 13]

theorem closeRows_confirmed :
    (detectEvents oneBarSwings (buildLegs (detectSwings closeRows 1)) closeRows []).length = 1 ∧
      ∀ e ∈ detectEvents oneBarSwings (buildLegs (detectSwings closeRows 1)) closeRows [],
        Confirmed oneBarSwings closeRows [] e := by
  refine ⟨by decide +kernel, (confirmed_iff_holdsExtreme ?_ ?_).mpr ?_⟩
  · decide +kernel
  · norm_num [CloseWithin, closeRows, bar]
  · have hlegs : (buildLegs (detectSwings closeRows 1)).map
        (fun leg => (leg.label, leg.toSwing.index, leg.referencePrice)) =
          [(.undefined, 2, none), (.hh, 3, some 20)] := by decide +kernel
    intro leg hleg close ref hclose href
    have hmem := List.mem_map_of_mem (f := fun leg : Leg ℚ =>
      (leg.label, leg.toSwing.index, leg.referencePrice)) hleg
    rw [hlegs] at hmem
    simp only [List.mem_cons, Prod.mk.injEq, List.not_mem_nil, or_false] at hmem
    rcases hmem with ⟨hl, -, -⟩ | ⟨hl, hi, hr⟩
    · simp [hl]
    · rw [hi] at hclose
      obtain rfl := Option.some.inj (href.symm.trans hr)
      have hcell : valueAt (closeRows.map Candle.close) 3 = some 21 := by decide +kernel
      obtain rfl := Option.some.inj (hclose.symm.trans hcell)
      refine ⟨fun _ hlt => ?_, fun hll => ?_⟩
      · norm_num at hlt
      · simp [hl] at hll

theorem wickRows_not_confirmed :
    CloseWithin wickRows ∧ 0 ≤ oneBarSwings.bosMinMovePctM1 ∧ 0 ≤ oneBarSwings.bosMinMoveAtrM1 ∧
      ∃ e ∈ detectEvents oneBarSwings (buildLegs (detectSwings wickRows 1)) wickRows [],
        e.direction = .long ∧ ¬ Confirmed oneBarSwings wickRows [] e := by
  have hevents : (detectEvents oneBarSwings (buildLegs (detectSwings wickRows 1)) wickRows []).map
      (fun e => (e.direction, e.sourceLeg.toSwing.index, e.sourceLeg.referencePrice)) =
        [(.long, 3, some 20)] := by decide +kernel
  refine ⟨?_, by decide +kernel, by decide +kernel, ?_⟩
  · norm_num [CloseWithin, wickRows, bar]
  · obtain ⟨e, he, hfields⟩ := List.mem_map.mp (hevents ▸ List.mem_singleton_self _)
    obtain ⟨hdir, hindex, href⟩ : e.direction = .long ∧ e.sourceLeg.toSwing.index = 3 ∧
        e.sourceLeg.referencePrice = some 20 := by simpa using hfields
    refine ⟨e, he, hdir, ?_⟩
    rintro ⟨close, ref, hclose, href', hbeyond⟩
    rw [hindex] at hclose hbeyond
    have hcell : valueAt (wickRows.map Candle.close) 3 = some 12 := by decide +kernel
    obtain rfl := Option.some.inj (hclose.symm.trans hcell)
    obtain rfl := Option.some.inj (href'.symm.trans href)
    rw [hdir] at hbeyond
    have hfar : ¬ Beyond .long 20 (breakThreshold oneBarSwings 12 (valueAt [] 3)) 12 := by
      decide +kernel
    exact hfar hbeyond

end FixedInputs

end SmcPipeline.BreakSides
