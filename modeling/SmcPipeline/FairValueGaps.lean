import SmcPipeline.Breakers
import SmcPipeline.InputAdapter
import SmcPipeline.Ranges
import Mathlib.Tactic.Positivity
import Mathlib.Tactic.Ring

/-!
# Fair value gaps

`detect_fvg_zones` of `smc_zones/fvg_detector.py` reads its bars from the dictionary `meta`
of the structure state, and `compute_structure_state` writes that dictionary. Handed the
bars under one of the keys it looks for, the detector reports exactly the gaps that pass a
threshold and are young enough.
-/

namespace SmcPipeline

/-- The values of `meta`, and a list of bars with their timestamps. -/
inductive MetaValue (K : Type*) where
  | none
  | int (n : ℤ)
  | num (x : K)
  | flag (b : Bool)
  | text (s : String)
  | bias (b : Bias)
  | time (ms : ℤ)
  | times (ms : List ℤ)
  | bars (rows : List (RawBar K))

/-- The dictionary `meta` of a structure state. -/
abbrev StructureMeta (K : Type*) := List (String × MetaValue K)

structure ImbalanceMeta (K : Type*) where
  gap : K
  gapAtr : Option K
  gapPct : Option K
  ageMin : Option K
  sourceIdx : ℕ
deriving DecidableEq, Repr

/-- A zone of type `IMBALANCE`. -/
structure ImbalanceZone (K : Type*) where
  priceMin : K
  priceMax : K
  timeframe : String
  originTime : ℤ
  direction : Direction
  role : ZoneRole
  strength : K
  confidence : K
  components : List String
  zoneId : String
  entryMode : EntryMode
  quality : ZoneQuality
  biasAtCreation : Bias
  notes : String
  details : ImbalanceMeta K
deriving DecidableEq, Repr

namespace FairValueGaps

open Candles OrderBlocks Breakers InputAdapter

variable {K : Type*}

def metaGet (entries : StructureMeta K) (key : String) : MetaValue K :=
  ((entries.find? fun e => decide (e.1 = key)).map Prod.snd).getD .none

section

variable [DecidableEq K] [Zero K]

/-- The truth value of a dictionary's value. -/
def truthy : MetaValue K → Bool
  | .none => false
  | .int n => decide (n ≠ 0)
  | .num x => decide (x ≠ 0)
  | .flag b => b
  | .text s => decide (s ≠ "")
  | .bias _ => true
  | .time _ => true
  | .times ms => !ms.isEmpty
  | .bars rows => !rows.isEmpty

/-- Python's `a or b` -/
def pyOr (a b : MetaValue K) : MetaValue K := if truthy a then a else b

/-- `_primary_frame` -/
def primaryFrame (entries : StructureMeta K) : Option (List (RawBar K)) :=
  match pyOr (pyOr (pyOr (metaGet entries "primary_bars") (metaGet entries "recent_bars"))
      (metaGet entries "bars")) (metaGet entries "frame") with
  | .bars rows => if rows.isEmpty then none else some rows
  | _ => none

end

/-- `safe_float` -/
def safeFloat [IntCast K] : MetaValue K → Option K
  | .num x => some x
  | .int n => some (n : K)
  | .flag b => some ((if b then 1 else 0 : ℤ) : K)
  | _ => none

def resolveBias (value : MetaValue K) (structureBias : Bias) : Bias :=
  match value with
  | .bias b => b
  | _ => structureBias

section

variable (cfg : SmcCoreConfig K)

def ofNum : Option K → MetaValue K
  | none => .none
  | some x => .num x

def ofTime : Option ℤ → MetaValue K
  | none => .none
  | some ms => .time ms

/-- The dictionary that `compute_structure_state` writes. -/
def structureMeta (snapshot : ContextInput K) (st : RangedStructureState K) : StructureMeta K :=
  let rows := prepared cfg.maxLookbackBars snapshot.frame
  let atrAvailable := !rows.isEmpty && snapshot.hasHighLow && snapshot.hasClose
  [("bar_count", .int rows.length),
    ("cfg_min_swing", .int cfg.minSwingBars),
    ("cfg_min_range_bars", .int cfg.minRangeBars),
    ("bos_min_move_atr_m1", .num cfg.bosMinMoveAtrM1),
    ("bos_min_move_pct_m1", .num cfg.bosMinMovePctM1),
    ("leg_min_amplitude_atr_m1", .num cfg.legMinAmplitudeAtrM1),
    ("ote_trend_only_m1", .flag cfg.oteTrendOnlyM1),
    ("ote_max_active_per_side_m1", .int cfg.oteMaxActivePerSideM1),
    ("atr_period", if atrAvailable then .int StructureEngine.atrPeriod else .none),
    ("atr_available", .flag atrAvailable),
    ("atr_last", ofNum st.atrLast),
    ("atr_median", ofNum st.atrMedian),
    ("bias", .bias st.bias),
    ("last_choch_ts", ofTime st.lastChochTs),
    ("symbol", .text snapshot.symbol),
    ("tf_input", .text snapshot.tfPrimary),
    ("snapshot_start_ts", ofTime st.snapshotStartTs),
    ("snapshot_end_ts", ofTime st.snapshotEndTs),
    ("swing_times", .times (st.swings.map Swing.time)),
    ("events_retained_total", .int st.eventHistory.length),
    ("events_recent_total", .int st.events.length)]

end

section

variable [LinearOrder K]

/-- The space from one cell up to another one; a missing cell is NaN. -/
def spaceBetween (direction : Direction) : Option K → Option K → Option (Direction × K × K)
  | some lo, some hi => if lo < hi then some (direction, lo, hi) else none
  | _, _ => none

/-- The gap between two bars, with its direction: the older bar's high below the newer bar's
low, or else its low above the newer bar's high. -/
def gapBetween (first third : RawBar K) : Option (Direction × K × K) :=
  (spaceBetween .long first.high third.low).or (spaceBetween .short third.high first.low)

variable [Field K] (cfg : SmcCoreConfig K)

/-- `atr_condition or pct_condition` -/
def passesThreshold (atr : Option K) (priceMin priceMax : K) : Bool :=
  let gap := |priceMax - priceMin|
  let priceRef := (priceMin + priceMax) / (2 : ℕ)
  (atr.any fun a => decide (0 < a) && decide (cfg.fvgMinGapAtr * a ≤ gap)) ||
    (decide (0 < priceRef) && decide (cfg.fvgMinGapPct ≤ gap / priceRef))

variable [FloorRing K]

/-- `_build_fvg_zone`; a row without a timestamp gives no zone. -/
def buildFvgZone (primaryTf : String) (atr : Option K) (biasContext : Bias)
    (lastTimestamp : Option ℤ) (idx : ℕ) (first third : RawBar K) : Option (ImbalanceZone K) :=
  match gapBetween first third, rowTimestamp third with
  | some (direction, priceMin, priceMax), some originTime =>
    let gap := |priceMax - priceMin|
    let priceRef := (priceMin + priceMax) / (2 : ℕ)
    let ageMin : Option K := lastTimestamp.map (minutesBetween originTime)
    if gap ≤ 0 then none
    else if passesThreshold cfg atr priceMin priceMax = false then none
    else if (ageMin.any fun age => decide ((cfg.fvgMaxAgeMinutes : K) < age)) then none
    else
      let positiveAtr := atr.filter fun a => decide (0 < a)
      let atrValue := positiveAtr.getD gap
      let confidence : K := match biasContext, direction with
        | .long, .long | .short, .short => ratio 35 100
        | _, _ => ratio 2 10
      let tf := if primaryTf = "" then "primary" else primaryTf
      some
        { priceMin := min priceMin priceMax
          priceMax := max priceMin priceMax
          timeframe := primaryTf
          originTime := originTime
          direction := direction
          role := deriveRole direction biasContext
          strength := min (max (gap / atrValue) (ratio 1 10)) (ratio 3 1)
          confidence := confidence
          components := ["fvg", s!"gap_idx_{idx}"]
          zoneId := s!"fvg_{tf}_{originTime}_{idx}"
          entryMode := .wick05
          quality := if ratio 3 10 ≤ confidence then .medium else .weak
          biasAtCreation := biasContext
          notes := ""
          details :=
            { gap := gap
              gapAtr := positiveAtr.map fun a => gap / a
              gapPct := if priceRef = 0 then none else some (gap / priceRef)
              ageMin := ageMin
              sourceIdx := idx } }
  | _, _ => none

/-- The loop of `detect_fvg_zones` over its frame. -/
def scanFrame (primaryTf : String) (atr : Option K) (biasContext : Bias)
    (frame : List (RawBar K)) : List (ImbalanceZone K) :=
  (List.range (frame.length - 2)).filterMap fun idx =>
    match frame[idx]?, frame[idx + 2]? with
    | some first, some third =>
      buildFvgZone cfg primaryTf atr biasContext (frame.getLast?.bind rowTimestamp) idx first third
    | _, _ => none

/-- `detect_fvg_zones` -/
def detectFvgZones (primaryTf : String) (structureBias : Bias) (entries : StructureMeta K) :
    List (ImbalanceZone K) :=
  match primaryFrame entries with
  | none => []
  | some frame =>
    scanFrame cfg primaryTf
      (safeFloat (pyOr (metaGet entries "atr_last") (metaGet entries "atr_median")))
      (resolveBias (metaGet entries "bias") structureBias) frame

end

section

variable [Field K] [LinearOrder K] (cfg : SmcCoreConfig K)

/-- The gap at a position of a frame: it passes a threshold, and its third bar is at most
`fvg_max_age_minutes` older than the last one. -/
def gapAt (atr : Option K) (frame : List (RawBar K)) (idx : ℕ) : Option (Direction × K × K) :=
  match frame[idx]?, frame[idx + 2]?, frame.getLast? with
  | some first, some third, some last =>
    (gapBetween first third).filter fun gap =>
      passesThreshold cfg atr gap.2.1 gap.2.2 &&
        decide (timeKey last - timeKey third ≤ cfg.fvgMaxAgeMinutes * 60000)
  | _, _, _ => none

/-- The gaps of a frame. -/
def gapsOf (atr : Option K) (frame : List (RawBar K)) : List (Direction × K × K) :=
  (List.range (frame.length - 2)).filterMap (gapAt cfg atr frame)

end

/-- The gap a zone covers. -/
def gapOfZone (zone : ImbalanceZone K) : Direction × K × K :=
  (zone.direction, zone.priceMin, zone.priceMax)

/-- Every bar opens at a whole second. -/
def WholeSeconds (frame : List (RawBar K)) : Prop :=
  ∀ r ∈ frame, ∃ c, toCandle r = some c ∧ c.time % 1000 = 0

theorem lt_of_spaceBetween [LinearOrder K] {a b : Option K} {side direction : Direction} {lo hi : K}
    (h : spaceBetween side a b = some (direction, lo, hi)) : lo < hi := by
  cases a with
  | none => cases h
  | some x =>
      cases b with
      | none => cases h
      | some y =>
          unfold spaceBetween at h
          dsimp only at h
          split_ifs at h with hlt
          cases h
          exact hlt

theorem lt_of_gapBetween [LinearOrder K] {first third : RawBar K} {direction : Direction} {lo hi : K}
    (h : gapBetween first third = some (direction, lo, hi)) : lo < hi := by
  rcases Option.or_eq_some_iff.mp h with hlong | ⟨-, hshort⟩
  · exact lt_of_spaceBetween hlong
  · exact lt_of_spaceBetween hshort

section

variable [Field K] [LinearOrder K] [FloorRing K] [IsStrictOrderedRing K] {cfg : SmcCoreConfig K}

/-- Ages are rounded to hundredths of a minute: one is over a number of minutes only by more
than three tenths of a second. -/
theorem lt_minutesBetween_iff {origin last m : ℤ} :
    (m : K) < minutesBetween (origin * 1000000) (last * 1000000) ↔
      m * 60000 + 300 < last - origin := by
  have hscaled : ((last * 1000000 - origin * 1000000 : ℤ) : K) / ((60000000000 : ℕ) : K) *
      ((10 ^ 2 : ℕ) : K) = ((last - origin : ℤ) : K) / 600 := by
    push_cast
    ring
  unfold minutesBetween Rounding.roundTo
  rw [hscaled, lt_div_iff₀ (by positivity)]
  have hcast : (m : K) * ((10 ^ 2 : ℕ) : K) = ((m * 100 : ℤ) : K) := by
    push_cast
    ring
  rw [hcast, Int.cast_lt, ← not_le, Rounding.roundHalfEven_le_iff (by omega), not_le,
    ← add_div, lt_div_iff₀ (by positivity)]
  have hint : (((m * 100 : ℤ) : K) + ((m * 100 : ℤ) : K) + 1) * 600 =
      ((m * 120000 + 600 : ℤ) : K) := by
    push_cast
    ring
  rw [hint, ← Int.cast_add, Int.cast_lt]
  omega

/-- A zone is built exactly of a gap, where the bars open at whole seconds. -/
theorem buildFvgZone_gap {primaryTf : String} {atr : Option K} {biasContext : Bias} {idx : ℕ}
    {first third last : RawBar K} {c d : Candle K} (hthird : toCandle third = some c)
    (hlast : toCandle last = some d) (hc : c.time % 1000 = 0) (hd : d.time % 1000 = 0) :
    (buildFvgZone cfg primaryTf atr biasContext (rowTimestamp last) idx first third).map gapOfZone =
      (gapBetween first third).filter fun gap =>
        passesThreshold cfg atr gap.2.1 gap.2.2 &&
          decide (timeKey last - timeKey third ≤ cfg.fvgMaxAgeMinutes * 60000) := by
  have hstamp : ∀ {r : RawBar K} {c : Candle K}, toCandle r = some c →
      rowTimestamp r = some (c.time * 1000000) := by
    intro r c h
    rw [rowTimestamp, h]
    rfl
  unfold buildFvgZone
  rw [hstamp hthird, hstamp hlast, timeKey_of_toCandle hthird, timeKey_of_toCandle hlast]
  cases hgap : gapBetween first third with
  | none => rfl
  | some gap =>
      obtain ⟨direction, lo, hi⟩ := gap
      have hlt : lo < hi := lt_of_gapBetween hgap
      have hpos : ¬ |hi - lo| ≤ 0 := by
        rw [abs_of_pos (sub_pos.mpr hlt)]
        exact not_le.mpr (sub_pos.mpr hlt)
      have hage : decide ((cfg.fvgMaxAgeMinutes : K) <
          minutesBetween (c.time * 1000000) (d.time * 1000000)) =
            !decide (d.time - c.time ≤ cfg.fvgMaxAgeMinutes * 60000) := by
        rw [← decide_not, decide_eq_decide, lt_minutesBetween_iff]
        omega
      dsimp only
      rw [if_neg hpos, Option.map_some, Option.any_some, hage, Option.filter_some]
      cases passesThreshold cfg atr lo hi with
      | false => rfl
      | true =>
          by_cases hyoung : d.time - c.time ≤ cfg.fvgMaxAgeMinutes * 60000
          · simp [hyoung, gapOfZone, min_eq_left hlt.le, max_eq_right hlt.le]
          · simp [hyoung]

/-- Of a frame handed to it the scan reports the gaps. -/
theorem scanFrame_gaps {primaryTf : String} {atr : Option K} {biasContext : Bias}
    {frame : List (RawBar K)} (h : WholeSeconds frame) :
    (scanFrame cfg primaryTf atr biasContext frame).map gapOfZone = gapsOf cfg atr frame := by
  unfold scanFrame gapsOf
  rw [List.map_filterMap]
  refine List.filterMap_congr fun idx _ => ?_
  unfold gapAt
  cases hfirst : frame[idx]? with
  | none => rfl
  | some first =>
      cases hthird : frame[idx + 2]? with
      | none => rfl
      | some third =>
          have hne : frame ≠ [] := List.ne_nil_of_mem (List.mem_of_getElem? hthird)
          rw [List.getLast?_eq_some_getLast hne]
          obtain ⟨c, hc, hcs⟩ := h third (List.mem_of_getElem? hthird)
          obtain ⟨d, hd, hds⟩ := h _ (List.getLast_mem hne)
          exact buildFvgZone_gap hc hd hcs hds

/-- A structure state whose `meta` holds the bars gets all its gaps reported. -/
theorem detectFvgZones_gaps {primaryTf : String} {structureBias : Bias}
    {entries : StructureMeta K} {frame : List (RawBar K)} {atr : Option K} (h : WholeSeconds frame)
    (hbars : primaryFrame entries = some frame)
    (hatr : safeFloat (pyOr (metaGet entries "atr_last") (metaGet entries "atr_median")) = atr) :
    (detectFvgZones cfg primaryTf structureBias entries).map gapOfZone = gapsOf cfg atr frame := by
  unfold detectFvgZones
  rw [hbars, hatr]
  exact scanFrame_gaps h

end

/-- None of the keys that the detector looks for is written. -/
theorem primaryFrame_structureMeta [DecidableEq K] [Zero K] (cfg : SmcCoreConfig K)
    (snapshot : ContextInput K) (st : RangedStructureState K) :
    primaryFrame (structureMeta cfg snapshot st) = none := by
  have hkey : ∀ key, key ∉ (structureMeta cfg snapshot st).map Prod.fst →
      metaGet (structureMeta cfg snapshot st) key = .none := by
    intro key hkey
    unfold metaGet
    rw [List.find?_eq_none.mpr fun e he heq => hkey ?_]
    · rfl
    · exact List.mem_map.mpr ⟨e, he, by simpa using heq⟩
  unfold primaryFrame
  rw [hkey "primary_bars" (by simp [structureMeta]), hkey "recent_bars" (by simp [structureMeta]),
    hkey "bars" (by simp [structureMeta]), hkey "frame" (by simp [structureMeta])]
  rfl

end FairValueGaps

end SmcPipeline
