import SmcPipeline.Magnets
import SmcPipeline.Serializers
import SmcPipeline.ZonesState

/-!
# The hint of a snapshot

`process_snapshot` of `smc_core/engine.py`, the `meta` of the zones, and `to_plain_smc_hint` on
all parts of a hint. The signals are always empty. A hint is there where no stage raises and
every pool has a level, which the magnets are sorted by.
-/

namespace SmcPipeline

/-- `distance_meta` of `_select_active_zones`; NaN is a distance. -/
structure DistanceMeta (K : Type*) where
  activeWithin : ℕ
  filteredOut : ℕ
  maxDistance : Option (Option K)

/-- The liquidity state with its magnets. -/
structure LiquidityWithMagnets (K : Type*) extends SmcLiquidityState K where
  magnets : List (SmcLiquidityMagnet K)

structure SmcHint (K : Type*) where
  state : RangedStructureState K
  stateMeta : StructureMeta K
  liquidity : LiquidityWithMagnets K
  zones : SmcZonesState K
  distances : DistanceMeta K
  snapshotTf : String
  lastPrice : Option (Option K)

namespace SmcEngine

open Candles OrderBlocks Breakers FairValueGaps ZonesState Magnets Calendar Serializers

variable {K : Type*}

/-- The close of the last row, NaN where the cell is missing. -/
def extractLastPrice (snapshot : ContextInput K) : Option (Option K) :=
  if snapshot.hasClose then (snapshot.frame.getD []).getLast?.map RawBar.close else none

section

variable [Field K] [LinearOrder K]

/-- The largest distance, by Python's `max`. -/
def largest : List (Option K) → Option (Option K)
  | [] => none
  | distance :: distances => some (distances.foldl pyMax distance)

/-- What `_select_active_zones` returns beside the zones. -/
def distanceMeta (cfg : SmcCoreConfig K) (zones : List (Zone K)) (lastClose : Option (Option K))
    (atrLast : Option K) : DistanceMeta K :=
  match cfg.obMaxActiveDistanceAtr, lastClose, atrLast with
  | some _, some priceRef, some atr =>
    if atr ≤ 0 then ⟨zones.length, 0, none⟩
    else
      let active := selectActiveZones cfg zones priceRef (some atr)
      ⟨active.length, zones.length - active.length,
        largest (zones.map fun zone => priceRef.bind fun price => zoneDistanceAtr zone price atr)⟩
  | _, _, _ => ⟨zones.length, 0, none⟩

variable [FloorRing K] (lower : String → String) (cfg : SmcCoreConfig K)

/-- `process_snapshot` -/
def processSnapshot (snapshot : ContextInput K) (store : EventHistory.Store K) (utcnow : ℤ) :
    Option (SmcHint K) := do
  let st ← Ranges.computeStructureState lower cfg snapshot store utcnow
  let liquidity := AmdPhase.computeLiquidityState cfg snapshot st
  let pools ← pricedPools liquidity.pools
  let entries := structureMeta cfg snapshot st
  let zones := computeZonesState lower cfg snapshot st entries (some liquidity) utcnow
  return {
    state := st
    stateMeta := entries
    liquidity :=
      { liquidity with
        magnets := buildMagnetsFromPoolsAndRange cfg pools st.bias snapshot.symbol }
    zones := zones
    distances := distanceMeta cfg zones.zones (extractLastPrice snapshot) st.atrLast
    snapshotTf := snapshot.tfPrimary
    lastPrice := extractLastPrice snapshot }

end

def liqTypeName : SmcLiquidityType → String
  | .eqh => "EQH"
  | .eql => "EQL"
  | .tlq => "TLQ"
  | .slq => "SLQ"
  | .rangeExtreme => "RANGE_EXTREME"
  | .sessionHigh => "SESSION_HIGH"
  | .sessionLow => "SESSION_LOW"
  | .sfp => "SFP"
  | .wickCluster => "WICK_CLUSTER"

def amdPhaseName : SmcAmdPhase → String
  | .accumulation => "ACCUMULATION"
  | .manipulation => "MANIPULATION"
  | .distribution => "DISTRIBUTION"
  | .neutral => "NEUTRAL"

def zoneTypeName : SmcZoneType → String
  | .orderBlock => "ORDER_BLOCK"
  | .breaker => "BREAKER"
  | .imbalance => "IMBALANCE"

def entryModeText : EntryMode → String
  | .body05 => "BODY_05"
  | .wick05 => "WICK_05"
  | .bodyTouch => "BODY_TOUCH"
  | .wickTouch => "WICK_TOUCH"

def qualityText : ZoneQuality → String
  | .strong => "STRONG"
  | .medium => "MEDIUM"
  | .weak => "WEAK"

/-- `isoformat` of a timestamp in nanoseconds that has no timezone -/
def nanosChars (ns : ℤ) : List Char :=
  let rest := ns % 1000000000
  civilChars 'T' (civilTime (ns / 1000000000)) ++
    if rest = 0 then []
    else if rest % 1000 = 0 then '.' :: digits 6 (rest / 1000).toNat
    else '.' :: digits 9 rest.toNat

def naiveText (ns : ℤ) : String := String.ofList (nanosChars ns)

def utcText (ns : ℤ) : String := String.ofList (nanosChars ns ++ "+00:00".toList)

def optTime (ms : Option ℤ) : Json (Option K) := (ms.map fun t => .str (isoText t)).getD .null

def optFloat (x : Option K) : Json (Option K) := (x.map fun x => .float (some x)).getD .null

def plainPoolMeta : PoolMeta → List (String × Json (Option K))
  | .eqCluster n => [("source", .str "eq_cluster"), ("cluster_size", .int n)]
  | .lastLow refTs => [("source", .str "last_low"), ("side", .str "LOW"), ("ref_ts", optTime refTs)]
  | .lastHigh refTs =>
    [("source", .str "last_high"), ("side", .str "HIGH"), ("ref_ts", optTime refTs)]
  | .range side => [("source", .str "range"), ("side", .str (kindText side))]
  | .session side =>
    [("source", .str "session"), ("side", .str (kindText side)),
      ("key", .str (match side with
        | .low => "pdl"
        | .high => "pdh"))]
  | .sfp side source =>
    [("source", .str "sfp"), ("side", .str (kindText side)),
      ("level_source", .str (sourceName source))]
  | .wickCluster side source count =>
    [("source", .str "wick_cluster"), ("side", .str (kindText side)),
      ("level_source", .str (sourceName source)), ("count", .int count)]

def plainPool (pool : SmcLiquidityPool K) : Json (Option K) :=
  .obj
    [("level", .float pool.level),
      ("liq_type", .str (liqTypeName pool.liqType)),
      ("strength", .float pool.strength),
      ("n_touches", .int pool.nTouches),
      ("first_time", optTime pool.firstTime),
      ("last_time", optTime pool.lastTime),
      ("role", .str (roleText pool.role)),
      ("source_swings", .arr (pool.sourceSwings.map plainSwing)),
      ("meta", .obj (plainPoolMeta pool.details))]

def plainMagnet (magnet : SmcLiquidityMagnet K) : Json (Option K) :=
  .obj
    [("price_min", .float (some magnet.priceMin)),
      ("price_max", .float (some magnet.priceMax)),
      ("center", .float (some magnet.center)),
      ("liq_type", .str (liqTypeName magnet.liqType)),
      ("role", .str (roleText magnet.role)),
      ("pools", .arr (magnet.pools.map fun pool => plainPool pool.toSmcLiquidityPool)),
      ("meta", .obj
        [("pool_count", .int magnet.details.poolCount),
          ("source_types", .arr (magnet.details.sourceTypes.map fun t => .str (liqTypeName t))),
          ("symbol", .str magnet.details.symbol),
          ("bias", .str (biasText magnet.details.bias))])]

def plainSfpEvent (event : SfpEvent K) : Json (Option K) :=
  .obj
    [("level", .float event.level),
      ("side", .str (kindText event.side)),
      ("time", .str (isoText event.time)),
      ("close", .float event.close),
      ("source", .str (sourceName event.source))]

def plainWick (cluster : WickCluster K) : Json (Option K) :=
  .obj
    [("level", .float cluster.level),
      ("side", .str (kindText cluster.side)),
      ("count", .int cluster.count),
      ("max_wick", .float (some cluster.maxWick)),
      ("source", .str (sourceName cluster.source)),
      ("first_ts", .str (isoText cluster.firstTs)),
      ("last_ts", .str (isoText cluster.lastTs))]

def plainLiquidity (liquidity : LiquidityWithMagnets K) : Json (Option K) :=
  .obj
    [("pools", .arr (liquidity.pools.map plainPool)),
      ("magnets", .arr (liquidity.magnets.map plainMagnet)),
      ("amd_phase", .str (amdPhaseName liquidity.amdPhase)),
      ("meta", .obj
        [("bar_count", .int liquidity.barCount),
          ("symbol", .str liquidity.symbol),
          ("primary_tf", .str liquidity.primaryTf),
          ("pool_count", .int liquidity.pools.length),
          ("magnet_count", .int liquidity.magnets.length),
          ("bias", .str (biasText liquidity.bias)),
          ("sfp_events", .arr (liquidity.sfpEvents.map plainSfpEvent)),
          ("wick_clusters", .arr (liquidity.wickClusters.map plainWick)),
          ("amd_reason", .str liquidity.amdReason)])]

/-- What the zones of all detectors have, with the text of their origin. -/
structure ZoneItems (K : Type*) where
  zoneType : SmcZoneType
  priceMin : Option K
  priceMax : Option K
  timeframe : String
  origin : String
  direction : Direction
  role : ZoneRole
  strength : Option K
  confidence : Option K
  components : List String
  zoneId : String
  entryMode : EntryMode
  quality : ZoneQuality
  legId : Option String
  eventId : Option String
  bias : Bias
  notes : String
  details : List (String × Json (Option K))

def plainZoneItems (z : ZoneItems K) : Json (Option K) :=
  .obj
    [("zone_type", .str (zoneTypeName z.zoneType)),
      ("price_min", .float z.priceMin),
      ("price_max", .float z.priceMax),
      ("timeframe", .str z.timeframe),
      ("origin_time", .str z.origin),
      ("direction", .str (directionText z.direction)),
      ("role", .str (roleText z.role)),
      ("strength", .float z.strength),
      ("confidence", .float z.confidence),
      ("components", .arr (z.components.map .str)),
      ("zone_id", .str z.zoneId),
      ("entry_mode", .str (entryModeText z.entryMode)),
      ("quality", .str (qualityText z.quality)),
      ("reference_leg_id", (z.legId.map .str).getD .null),
      ("reference_event_id", (z.eventId.map .str).getD .null),
      ("bias_at_creation", .str (biasText z.bias)),
      ("notes", .str z.notes),
      ("meta", .obj z.details)]

/-- The open times of the store fit into 64 bits, so that an order block has the timestamp of an
integer, which knows no timezone. -/
def orderBlockItems (z : SmcZone K) : ZoneItems K where
  zoneType := z.zoneType
  priceMin := z.priceMin
  priceMax := z.priceMax
  timeframe := z.timeframe
  origin := naiveText z.originTime
  direction := z.direction
  role := z.role
  strength := z.strength
  confidence := z.confidence
  components := z.components
  zoneId := z.zoneId
  entryMode := z.entryMode
  quality := z.quality
  legId := some z.referenceLegId
  eventId := some z.referenceEventId
  bias := z.biasAtCreation
  notes := z.notes
  details :=
    [("body_pct", .float z.details.bodyPct),
      ("wick_top_pct", .float z.details.wickTopPct),
      ("wick_bottom_pct", .float z.details.wickBottomPct),
      ("entry_mode", .str (entryModeText z.details.entryMode)),
      ("role", .str (roleText z.details.role)),
      ("bias_at_creation", .str (biasText z.details.biasAtCreation)),
      ("reference_event_type", .str (eventTypeText z.details.referenceEventType)),
      ("bar_count", .int z.details.barCount),
      ("amplitude", .float (some z.details.amplitude)),
      ("quality", .str (qualityText z.details.quality))]

def plainBreakerParams (params : BreakerParams K) : Json (Option K) :=
  .obj
    [("max_ob_age_min", .int params.maxObAgeMin),
      ("max_sweep_delay_min", .int params.maxSweepDelayMin),
      ("level_tolerance_pct", .float (some params.levelTolerancePct)),
      ("min_body_pct", .float (some params.minBodyPct)),
      ("min_displacement_atr", .float (some params.minDisplacementAtr))]

def breakerItems (z : BreakerZone K) : ZoneItems K where
  zoneType := .breaker
  priceMin := z.priceMin
  priceMax := z.priceMax
  timeframe := z.timeframe
  origin := utcText z.originTime
  direction := z.direction
  role := z.role
  strength := z.strength
  confidence := z.confidence
  components := z.components
  zoneId := z.zoneId
  entryMode := z.entryMode
  quality := z.quality
  legId := some z.referenceLegId
  eventId := some z.referenceEventId
  bias := z.biasAtCreation
  notes := z.notes
  details :=
    [("derived_from_ob_id", .str z.details.derivedFromObId),
      ("source_orderblock_id", .str z.details.sourceOrderblockId),
      ("sweep_time", .str (utcText z.details.sweepTime)),
      ("sweep_level", .float (some z.details.sweepLevel)),
      ("sweep_source", (z.details.sweepSource.map .str).getD .null),
      ("bos_time", .str (utcText z.details.bosTime)),
      ("bos_event_type", .str (eventTypeText z.details.bosEventType)),
      ("break_event_id", .str z.details.breakEventId),
      ("breaker_age_min", .float (some z.details.breakerAgeMin)),
      ("distance_to_sweep", .float z.details.distanceToSweep),
      ("displacement_atr", .float (some z.details.displacementAtr)),
      ("breaker_params", plainBreakerParams z.details.breakerParams)]

def imbalanceItems (z : ImbalanceZone K) : ZoneItems K where
  zoneType := .imbalance
  priceMin := some z.priceMin
  priceMax := some z.priceMax
  timeframe := z.timeframe
  origin := utcText z.originTime
  direction := z.direction
  role := z.role
  strength := some z.strength
  confidence := some z.confidence
  components := z.components
  zoneId := z.zoneId
  entryMode := z.entryMode
  quality := z.quality
  legId := none
  eventId := none
  bias := z.biasAtCreation
  notes := z.notes
  details :=
    [("gap", .float (some z.details.gap)),
      ("gap_atr", optFloat z.details.gapAtr),
      ("gap_pct", optFloat z.details.gapPct),
      ("age_min", optFloat z.details.ageMin),
      ("source_idx", .int z.details.sourceIdx)]

def zoneItems : Zone K → ZoneItems K
  | .orderBlock z => orderBlockItems z
  | .breaker z => breakerItems z
  | .imbalance z => imbalanceItems z

def plainZone (zone : Zone K) : Json (Option K) := plainZoneItems (zoneItems zone)

/-- How many zones of a type meet a condition. -/
def countOf (zones : List (Zone K)) (kind : SmcZoneType) (p : ZoneItems K → Bool) :
    Json (Option K) :=
  .int (zones.countP fun zone => decide (zoneType zone = kind) && p (zoneItems zone))

def goes (direction : Direction) (z : ZoneItems K) : Bool := decide (z.direction = direction)

def hasRole (role : ZoneRole) (z : ZoneItems K) : Bool := decide (z.role = role)

/-- `_build_meta` -/
def zonesMeta (cfg : SmcCoreConfig K) (st : SmcZonesState K) (distances : DistanceMeta K) :
    List (String × Json (Option K)) :=
  [("zone_count", .int st.zones.length),
    ("active_zone_count", .int st.activeZones.length),
    ("orderblocks_total", countOf st.zones .orderBlock fun _ => true),
    ("orderblocks_primary", countOf st.zones .orderBlock (hasRole .primary)),
    ("orderblocks_countertrend", countOf st.zones .orderBlock (hasRole .countertrend)),
    ("orderblocks_long", countOf st.zones .orderBlock (goes .long)),
    ("orderblocks_short", countOf st.zones .orderBlock (goes .short)),
    ("ob_params", .obj
      [("ob_leg_min_atr_mul", .float (some cfg.obLegMinAtrMul)),
        ("ob_leg_max_bars", .int cfg.obLegMaxBars),
        ("ob_prelude_max_bars", .int cfg.obPreludeMaxBars),
        ("ob_body_domination_pct", .float (some cfg.obBodyDominationPct)),
        ("ob_body_min_pct", .float (some cfg.obBodyMinPct)),
        ("max_lookback_bars", .int cfg.maxLookbackBars),
        ("ob_max_active_distance_atr", optFloat cfg.obMaxActiveDistanceAtr)]),
    ("breaker_total", countOf st.zones .breaker fun _ => true),
    ("breaker_primary", countOf st.zones .breaker (hasRole .primary)),
    ("breaker_long", countOf st.zones .breaker (goes .long)),
    ("breaker_short", countOf st.zones .breaker (goes .short)),
    ("breaker_params", .obj
      [("breaker_max_ob_age_minutes", .int cfg.breakerMaxObAgeMinutes),
        ("breaker_max_sweep_delay_minutes", .int cfg.breakerMaxSweepDelayMinutes),
        ("breaker_level_tolerance_pct", .float (some cfg.breakerLevelTolerancePct)),
        ("breaker_min_body_pct", .float (some cfg.breakerMinBodyPct)),
        ("breaker_min_displacement_atr", .float (some cfg.breakerMinDisplacementAtr))]),
    ("fvg_total", countOf st.zones .imbalance fun _ => true),
    ("fvg_long", countOf st.zones .imbalance (goes .long)),
    ("fvg_short", countOf st.zones .imbalance (goes .short)),
    ("fvg_params", .obj
      [("fvg_min_gap_atr", .float (some cfg.fvgMinGapAtr)),
        ("fvg_min_gap_pct", .float (some cfg.fvgMinGapPct)),
        ("fvg_max_age_minutes", .int cfg.fvgMaxAgeMinutes)]),
    ("active_zone_distance_threshold_atr", optFloat cfg.obMaxActiveDistanceAtr),
    ("active_zones_within_threshold", .int distances.activeWithin),
    ("zones_filtered_by_distance", .int distances.filteredOut),
    ("max_zone_distance_atr", (distances.maxDistance.map .float).getD .null)]

def plainZones (cfg : SmcCoreConfig K) (st : SmcZonesState K) (distances : DistanceMeta K) :
    Json (Option K) :=
  .obj
    [("zones", .arr (st.zones.map plainZone)),
      ("active_zones", .arr (st.activeZones.map plainZone)),
      ("poi_zones", .arr []),
      ("meta", .obj (zonesMeta cfg st distances))]

/-- The list of bars that no stage writes is left out. -/
def plainMetaValue : MetaValue K → Json (Option K)
  | .none => .null
  | .int n => .int n
  | .num x => .float (some x)
  | .flag b => .bool b
  | .text s => .str s
  | .bias b => .str (biasText b)
  | .time ms => .str (isoText ms)
  | .times ms => .arr (ms.map fun t => .str (isoText t))
  | .bars _ => .null

def openRange (r : SmcRange K) : OpenRange K :=
  ⟨r.high, r.low, r.eqLevel, r.startTime, some r.endTime, r.state⟩

def structureRecord (st : RangedStructureState K) (entries : StructureMeta K) :
    StructureRecord K where
  primaryTf := st.primaryTf
  trend := st.trend
  swings := st.swings
  legs := st.legs
  ranges := (st.activeRange.map openRange).toList
  activeRange := st.activeRange.map openRange
  rangeState := st.rangeState
  events := st.events
  eventHistory := st.eventHistory
  oteZones := st.oteZones
  bias := st.bias
  metaItems := entries.map fun entry => (entry.1, plainMetaValue entry.2)

def plainHint (cfg : SmcCoreConfig K) (hint : SmcHint K) : Json (Option K) :=
  toPlainSmcHint (structureRecord hint.state hint.stateMeta) (plainLiquidity hint.liquidity)
    (plainZones cfg hint.zones hint.distances) (.arr [])
    (.obj (("snapshot_tf", .str hint.snapshotTf) ::
      (hint.lastPrice.map fun price => ("last_price", Json.float price)).toList))

end SmcEngine

end SmcPipeline
