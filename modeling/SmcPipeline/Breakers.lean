import SmcPipeline.OrderBlocks
import SmcPipeline.Rounding

/-!
# Breakers

`detect_breakers` of `smc_zones/breaker_detector.py` on the frames of the input adapter,
which have a UTC `timestamp`. A PRIMARY order block gives a breaker when the first sweep of
its edge comes soon enough after the block, the first opposite event soon enough after the
sweep, and the move between the two is large enough. All times here are nanoseconds, but
for those of the structure events, which are milliseconds.
-/

namespace SmcPipeline

/-- What `_extract_sweep_events` reads of an entry of `sfp_events`: a side that is neither
`HIGH` nor `LOW`, a level that is no number and a time that is none are missing. -/
structure SfpEntry (K : Type*) where
  side : Option SwingKind
  level : Option K
  time : Option ℤ
  source : Option String

/-- `_SweepEvent` -/
structure SweepEvent (K : Type*) where
  time : ℤ
  level : K
  side : SwingKind
  source : Option String
deriving DecidableEq, Repr

/-- `breaker_params` -/
structure BreakerParams (K : Type*) where
  maxObAgeMin : ℤ
  maxSweepDelayMin : ℤ
  levelTolerancePct : K
  minBodyPct : K
  minDisplacementAtr : K
deriving DecidableEq, Repr

structure BreakerMeta (K : Type*) where
  derivedFromObId : String
  sourceOrderblockId : String
  sweepTime : ℤ
  sweepLevel : K
  sweepSource : Option String
  bosTime : ℤ
  bosEventType : EventType
  breakEventId : String
  breakerAgeMin : K
  distanceToSweep : Option K
  displacementAtr : K
  breakerParams : BreakerParams K
deriving DecidableEq, Repr

/-- A zone of type `BREAKER`. -/
structure BreakerZone (K : Type*) where
  priceMin : Option K
  priceMax : Option K
  timeframe : String
  originTime : ℤ
  direction : Direction
  role : ZoneRole
  strength : Option K
  confidence : Option K
  components : List String
  zoneId : String
  entryMode : EntryMode
  quality : ZoneQuality
  referenceLegId : String
  referenceEventId : String
  biasAtCreation : Bias
  notes : String
  details : BreakerMeta K
deriving DecidableEq, Repr

namespace Breakers

open Candles OrderBlocks KeyedRows Rounding

variable {K : Type*}

/-- `timedelta(minutes=n)` in nanoseconds. -/
def minutes (n : ℤ) : ℤ := n * 60000000000

/-- `_ensure_utc(event.time)` -/
def eventTime (event : StructureEvent K) : ℤ := event.time * 1000000

def oppositeOf : Direction → Direction
  | .long => .short
  | .short => .long

/-- `sweep_side` -/
def sweepSide : Direction → SwingKind
  | .short => .high
  | .long => .low

def labelText : LegLabel → String
  | .hh => "HH"
  | .hl => "HL"
  | .lh => "LH"
  | .ll => "LL"
  | .undefined => "UNDEFINED"

def sweepOf (entry : SfpEntry K) : Option (SweepEvent K) :=
  match entry.side, entry.level, entry.time with
  | some side, some level, some time => some ⟨time, level, side, entry.source⟩
  | _, _, _ => none

/-- `_extract_sweep_events` -/
def extractSweepEvents (sfpEvents : List (SfpEntry K)) : List (SweepEvent K) :=
  sortBy SweepEvent.time (sfpEvents.filterMap sweepOf)

/-- `_collect_bos_events` -/
def collectBosEvents (st : SmcStructureState K) : List (StructureEvent K) :=
  sortBy StructureEvent.time (st.events ++ st.eventHistory)

variable (cfg : SmcCoreConfig K)

/-- `_find_bos_after_sweep` -/
def findBosAfterSweep (direction : Direction) (sweepTime originTime : ℤ) :
    List (StructureEvent K) → Option (StructureEvent K)
  | [] => none
  | event :: events =>
    if event.direction ≠ direction then findBosAfterSweep direction sweepTime originTime events
    else if eventTime event < sweepTime then
      findBosAfterSweep direction sweepTime originTime events
    else if minutes cfg.breakerMaxSweepDelayMinutes < eventTime event - sweepTime then none
    else if minutes cfg.breakerMaxObAgeMinutes < eventTime event - originTime then none
    else some event

/-- The column `timestamp` of a row. -/
def rowTimestamp (row : RawBar K) : Option ℤ := (toCandle row).map fun c => c.time * 1000000

/-- `_find_row_by_timestamp` -/
def findRowByTimestamp (frame : List (RawBar K)) (target : ℤ) : Option ℕ :=
  let diffs := frame.map fun row => (rowTimestamp row).map fun t => |t - target|
  if diffs.all Option.isNone then none else some (argBest (fun a b => decide (a ≤ b)) diffs)

section

variable [Field K] [LinearOrder K]

/-- `_breaker_tolerance` -/
def breakerTolerance (ob : SmcZone K) : Option K :=
  let priceSpan := Option.map₂ (fun a b : K => |a - b|) ob.priceMax ob.priceMin
  let anchor := pyMax (pyMax (ob.priceMax.map fun a => |a|) (ob.priceMin.map fun a => |a|))
    (some 1)
  let relTol := anchor.map (· * max cfg.breakerLevelTolerancePct (ratio 1 100000))
  pyMax relTol (priceSpan.map (· * ratio 15 100))

/-- The sweep is within the tolerance of the block's edge on its side. -/
def sweepsEdge (ob : SmcZone K) (sweep : SweepEvent K) : Bool :=
  let targetLevel := match sweep.side with
    | .high => ob.priceMax
    | .low => ob.priceMin
  atMost (targetLevel.map fun target => |sweep.level - target|) (breakerTolerance cfg ob)

/-- `_find_matching_sweep` -/
def findMatchingSweep (ob : SmcZone K) (side : SwingKind) :
    List (SweepEvent K) → Option (SweepEvent K)
  | [] => none
  | sweep :: sweeps =>
    if sweep.side ≠ side then findMatchingSweep ob side sweeps
    else if sweep.time < ob.originTime then findMatchingSweep ob side sweeps
    else if minutes cfg.breakerMaxSweepDelayMinutes < sweep.time - ob.originTime then none
    else if sweepsEdge cfg ob sweep then some sweep
    else findMatchingSweep ob side sweeps

omit cfg in
/-- `_calc_displacement` -/
def calcDisplacement (sweepLevel bosLevel : K) (atr : Option K) : Option K :=
  match atr with
  | none => none
  | some atr => if atr ≤ 0 then none else some (|bosLevel - sweepLevel| / atr)

omit cfg in
/-- `atr_last or atr_median` -/
def breakerAtr (st : SmcStructureState K) : Option K :=
  (st.atrLast.filter fun a => decide (a ≠ 0)).or st.atrMedian

variable [FloorRing K] (lower : String → String)

omit cfg in
/-- `_minutes_between` -/
def minutesBetween (start stop : ℤ) : K :=
  roundTo 2 (((stop - start : ℤ) : K) / ((60000000000 : ℕ) : K))

/-- `_build_breaker_zone` -/
def buildBreakerZone (snapshot : SmcInput K) (frame : List (RawBar K)) (rowIndex : ℕ)
    (direction : Direction) (ob : SmcZone K) (sweep : SweepEvent K) (bosEvent : StructureEvent K)
    (atr : Option K) (biasContext : Bias) (displacement : K) : Option (BreakerZone K) :=
  match frame[rowIndex]? with
  | none => none
  | some row =>
    match rowTimestamp row with
    | none => none
    | some originTime =>
      if snapshot.hasPriceColumns then
        let sub := Option.map₂ fun a b : K => a - b
        let div := Option.map₂ fun a b : K => a / b
        let fullRange := pyMax (sub row.high row.low) (some (ratio 1 1000000000))
        let bodyHigh := pyMax row.opn row.close
        let bodyLow := pyMin row.opn row.close
        let bodyPct := div (sub bodyHigh bodyLow) fullRange
        let isBody := atMost (some cfg.breakerMinBodyPct) bodyPct
        let zoneLow := if isBody then bodyLow else row.low
        let zoneHigh := if isBody then bodyHigh else row.high
        let span := pyMax (sub zoneHigh zoneLow) (some (ratio 1 1000000000))
        let atrValue := if (atr.any fun a => decide (0 < a)) then atr else span
        let confidence := (pyMin bodyPct (some 1)).map fun p => ratio 5 10 + ratio 2 10 * p
        let center := Option.map₂ (fun a b : K => (a + b) / (2 : ℕ)) ob.priceMin ob.priceMax
        some
          { priceMin := pyMin zoneLow zoneHigh
            priceMax := pyMax zoneLow zoneHigh
            timeframe := snapshot.tfPrimary
            originTime := originTime
            direction := direction
            role := deriveRole direction biasContext
            strength := pyMax (some (ratio 1 10)) (pyMin (div span atrValue) (some (ratio 3 1)))
            confidence := pyMax (some (ratio 25 100)) (pyMin confidence (some (ratio 95 100)))
            components := ["breaker", ob.zoneId, eventId bosEvent]
            zoneId := s!"brk_{lower snapshot.symbol}_{snapshot.tfPrimary}_{rowIndex}"
            entryMode := if isBody then .body05 else .wick05
            quality := if isBody then .strong else .medium
            referenceLegId := labelText bosEvent.sourceLeg.label
            referenceEventId := eventId bosEvent
            biasAtCreation := biasContext
            notes := ""
            details :=
              { derivedFromObId := ob.zoneId
                sourceOrderblockId := ob.zoneId
                sweepTime := sweep.time
                sweepLevel := sweep.level
                sweepSource := sweep.source
                bosTime := eventTime bosEvent
                bosEventType := bosEvent.eventType
                breakEventId := eventId bosEvent
                breakerAgeMin := minutesBetween ob.originTime (eventTime bosEvent)
                distanceToSweep := center.map fun c => |c - sweep.level|
                displacementAtr := displacement
                breakerParams :=
                  { maxObAgeMin := cfg.breakerMaxObAgeMinutes
                    maxSweepDelayMin := cfg.breakerMaxSweepDelayMinutes
                    levelTolerancePct := cfg.breakerLevelTolerancePct
                    minBodyPct := cfg.breakerMinBodyPct
                    minDisplacementAtr := cfg.breakerMinDisplacementAtr } } }
      else none

/-- One round of the loop. -/
def breakerOf (snapshot : SmcInput K) (frame : List (RawBar K)) (sweeps : List (SweepEvent K))
    (bosEvents : List (StructureEvent K)) (atr : Option K) (biasContext : Bias) (ob : SmcZone K) :
    Option (BreakerZone K) :=
  if ob.zoneType ≠ .orderBlock then none
  else if ob.role ≠ .primary then none
  else
    match findMatchingSweep cfg ob (sweepSide ob.direction) sweeps with
    | none => none
    | some sweep =>
      match findBosAfterSweep cfg (oppositeOf ob.direction) sweep.time ob.originTime bosEvents with
      | none => none
      | some bosEvent =>
        match calcDisplacement sweep.level bosEvent.priceLevel atr with
        | none => none
        | some displacement =>
          if displacement < cfg.breakerMinDisplacementAtr then none
          else
            match findRowByTimestamp frame (eventTime bosEvent) with
            | none => none
            | some rowIdx =>
              buildBreakerZone cfg lower snapshot frame rowIdx (oppositeOf ob.direction) ob sweep
                bosEvent atr biasContext displacement

/-- `detect_breakers`, with no entries of `sfp_events` where there is no liquidity state. The
early returns on empty lists give what the loop gives. -/
def detectBreakers (snapshot : SmcInput K) (st : SmcStructureState K)
    (sfpEvents : List (SfpEntry K)) (orderblocks : List (SmcZone K)) : List (BreakerZone K) :=
  match snapshot.frame with
  | none => []
  | some frame =>
    orderblocks.filterMap (breakerOf cfg lower snapshot frame (extractSweepEvents sfpEvents)
      (collectBosEvents st) (breakerAtr st) st.bias)

end

section

variable [Field K] [LinearOrder K] {cfg}

theorem findMatchingSweep_eq_none {ob : SmcZone K} {side : SwingKind} {sweeps : List (SweepEvent K)}
    (h : ∀ s ∈ sweeps, minutes cfg.breakerMaxSweepDelayMinutes < s.time - ob.originTime) :
    findMatchingSweep cfg ob side sweeps = none := by
  induction sweeps with
  | nil => rfl
  | cons sweep sweeps ih =>
      have hrest := ih fun s hs => h s (List.mem_cons_of_mem sweep hs)
      unfold findMatchingSweep
      rw [hrest, if_pos (h sweep List.mem_cons_self)]
      split_ifs <;> rfl

variable [FloorRing K] {lower : String → String} {snapshot : SmcInput K} {st : SmcStructureState K}
  {sfpEvents : List (SfpEntry K)} {orderblocks : List (SmcZone K)}

omit [Field K] [LinearOrder K] [FloorRing K] in
theorem mem_extractSweepEvents {sweep : SweepEvent K} :
    sweep ∈ extractSweepEvents sfpEvents ↔ ∃ entry ∈ sfpEvents, sweepOf entry = some sweep := by
  unfold extractSweepEvents
  rw [mem_sortBy, List.mem_filterMap]

/-- Where every sweep is later than each block by more than the largest delay there are no
breakers. -/
theorem detectBreakers_eq_nil
    (h : ∀ ob ∈ orderblocks, ∀ s ∈ extractSweepEvents sfpEvents,
      minutes cfg.breakerMaxSweepDelayMinutes < s.time - ob.originTime) :
    detectBreakers cfg lower snapshot st sfpEvents orderblocks = [] := by
  unfold detectBreakers
  cases snapshot.frame with
  | none => rfl
  | some frame =>
      refine List.filterMap_eq_nil_iff.mpr fun ob hob => ?_
      unfold breakerOf
      rw [findMatchingSweep_eq_none (h ob hob)]
      split_ifs <;> rfl

end

end Breakers

end SmcPipeline
