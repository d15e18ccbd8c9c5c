import SmcPipeline.AmdPhase
import SmcPipeline.FairValueGaps

/-!
# The zones of a snapshot

`compute_zones_state` of `smc_zones/__init__.py` on the frames of the input adapter, whose
rows are numbered: the zones of the three detectors, and those that are near enough to be
active. The counts it gathers in `meta` are left out. No gap of a snapshot is ever among the
zones, because the structure stage does not hand its bars on.
-/

namespace SmcPipeline

/-- A zone of one of the detectors. -/
inductive Zone (K : Type*) where
  | orderBlock (z : SmcZone K)
  | breaker (z : BreakerZone K)
  | imbalance (z : ImbalanceZone K)
deriving DecidableEq, Repr

structure SmcZonesState (K : Type*) where
  zones : List (Zone K)
  activeZones : List (Zone K)

namespace ZonesState

open Candles OrderBlocks Breakers FairValueGaps

variable {K : Type*}

def zoneType : Zone K → SmcZoneType
  | .orderBlock _ => .orderBlock
  | .breaker _ => .breaker
  | .imbalance _ => .imbalance

def priceMin : Zone K → Option K
  | .orderBlock z => z.priceMin
  | .breaker z => z.priceMin
  | .imbalance z => some z.priceMin

def priceMax : Zone K → Option K
  | .orderBlock z => z.priceMax
  | .breaker z => z.priceMax
  | .imbalance z => some z.priceMax

/-- The zones of type `IMBALANCE`. -/
def imbalances (zones : List (Zone K)) : List (ImbalanceZone K) :=
  zones.filterMap fun
    | .imbalance z => some z
    | _ => none

def sourceName : LevelSource → String
  | .swing => "swing"
  | .range => "range"

/-- What the breaker stage reads of a sweep. -/
def sfpEntry (event : SfpEvent K) : SfpEntry K :=
  ⟨some event.side, event.level, some (event.time * 1000000), some (sourceName event.source)⟩

section

variable [Field K] [LinearOrder K]

/-- `_zone_distance_atr` -/
def zoneDistanceAtr (zone : Zone K) (priceRef atrLast : K) : Option K :=
  Option.map₂ (fun a b : K => |(a + b) / (2 : ℕ) - priceRef| / atrLast) (priceMin zone)
    (priceMax zone)

/-- `_select_active_zones` -/
def selectActiveZones (cfg : SmcCoreConfig K) (zones : List (Zone K)) (lastClose : Option K)
    (atrLast : Option K) : List (Zone K) :=
  match cfg.obMaxActiveDistanceAtr, lastClose, atrLast with
  | some threshold, some priceRef, some atr =>
    if atr ≤ 0 then zones
    else zones.filter fun zone =>
      !(decide (zoneType zone = .orderBlock ∨ zoneType zone = .breaker) &&
        (zoneDistanceAtr zone priceRef atr).any fun distance => decide (threshold < distance))
  | _, _, _ => zones

variable [FloorRing K] (lower : String → String) (cfg : SmcCoreConfig K)

/-- `compute_zones_state`; the entries are those of the structure state's `meta`. -/
def computeZonesState (snapshot : ContextInput K) (st : RangedStructureState K)
    (entries : StructureMeta K) (liquidity : Option (SmcLiquidityState K)) (utcnow : ℤ) :
    SmcZonesState K :=
  match snapshot.frame with
  | none => ⟨[], []⟩
  | some frame =>
    if frame.isEmpty then ⟨[], []⟩
    else
      let orderblocks := detectOrderBlocks lower cfg snapshot.toSmcInput st.toSmcStructureState utcnow
      let sfpEvents := match liquidity with
        | none => []
        | some liquidity => liquidity.sfpEvents.map sfpEntry
      let breakers := detectBreakers cfg lower snapshot.toSmcInput st.toSmcStructureState sfpEvents
        orderblocks
      let fvgZones := detectFvgZones cfg st.primaryTf st.bias entries
      let allZones := orderblocks.map .orderBlock ++ breakers.map .breaker ++ fvgZones.map .imbalance
      let lastClose := if snapshot.hasClose then frame.getLast?.bind RawBar.close else none
      ⟨allZones, selectActiveZones cfg allZones lastClose st.atrLast⟩

/-- The zones of type `IMBALANCE` are the gaps of the frame, one for each. -/
def ReportsGaps (atr : Option K) (frame : List (RawBar K)) (zones : List (Zone K)) : Prop :=
  ((imbalances zones).map gapOfZone).Perm (gapsOf cfg atr frame)

variable {lower cfg} {snapshot : ContextInput K} {st : RangedStructureState K}
  {entries : StructureMeta K} {liquidity : Option (SmcLiquidityState K)} {utcnow : ℤ}

omit [Field K] [LinearOrder K] [FloorRing K] in
theorem imbalances_append (zones more : List (Zone K)) :
    imbalances (zones ++ more) = imbalances zones ++ imbalances more := List.filterMap_append

/-- The zones of type `IMBALANCE` are those of the detector. -/
theorem imbalances_zones :
    imbalances (computeZonesState lower cfg snapshot st entries liquidity utcnow).zones =
      if (snapshot.frame.getD []).isEmpty then []
      else detectFvgZones cfg st.primaryTf st.bias entries := by
  unfold computeZonesState
  cases snapshot.frame with
  | none => rfl
  | some frame =>
      dsimp only
      rw [Option.getD_some]
      by_cases hempty : frame.isEmpty = true
      · rw [if_pos hempty, if_pos hempty]
        rfl
      · rw [if_neg hempty, if_neg hempty, imbalances_append, imbalances_append]
        simp [imbalances, List.filterMap_map]

/-- With the `meta` that `compute_structure_state` writes there are none. -/
theorem imbalances_structureMeta :
    imbalances (computeZonesState lower cfg snapshot st (structureMeta cfg snapshot st) liquidity
      utcnow).zones = [] := by
  rw [imbalances_zones]
  unfold detectFvgZones
  rw [primaryFrame_structureMeta]
  split_ifs <;> rfl

/-- With the `meta` that `compute_structure_state` writes the gaps of a snapshot are reported
exactly if it has none. -/
theorem gaps_reported_iff :
    ReportsGaps cfg (breakerAtr st.toSmcStructureState) (snapshot.frame.getD [])
        (computeZonesState lower cfg snapshot st (structureMeta cfg snapshot st) liquidity
          utcnow).zones ↔
      gapsOf cfg (breakerAtr st.toSmcStructureState) (snapshot.frame.getD []) = [] := by
  unfold ReportsGaps
  rw [imbalances_structureMeta, List.map_nil, List.nil_perm]

end

section FixedInputs

open Ranges StructureState

/-- Three rising bars: the low of the third is above the high of the first. -/
def threeBars : ContextInput ℚ where
  symbol := "xauusd"
  tfPrimary := "1m"
  frame := some [minuteOf 1 5 4, minuteOf 2 9 5, minuteOf 3 12 9]
  hasPriceColumns := true
  hasHighLow := true
  hasClose := true
  pdl := none
  pdh := none

/-- The gap from 5 to 9 is not among the zones. -/
theorem three_bars_gap_is_missed :
    ¬ ∀ (cfg : SmcCoreConfig ℚ) (snapshot : ContextInput ℚ) (st : RangedStructureState ℚ),
      computeStructureState id cfg snapshot OrderedDict.empty 0 = some st →
      ReportsGaps cfg (breakerAtr st.toSmcStructureState) (snapshot.frame.getD [])
        (computeZonesState id cfg snapshot st (structureMeta cfg snapshot st) none 0).zones := by
  intro h
  have hsome : ((computeStructureState id (smcCoreConfig ℚ) threeBars OrderedDict.empty 0).any
      fun st => !(gapsOf (smcCoreConfig ℚ) (breakerAtr st.toSmcStructureState)
        (threeBars.frame.getD [])).isEmpty) = true := by decide +kernel
  obtain ⟨st, hst, hgap⟩ := (Option.any_eq_true ..).mp hsome
  have hreported := h (smcCoreConfig ℚ) threeBars st hst
  unfold ReportsGaps at hreported
  rw [imbalances_structureMeta, List.map_nil, List.nil_perm] at hreported
  rw [hreported] at hgap
  cases hgap

end FixedInputs

end ZonesState

end SmcPipeline
