import SmcPipeline.Snapshots
import Mathlib.Data.Option.NAry

/-!
# Order blocks

`detect_order_blocks` of `smc_zones/orderblock_detector.py` on a frame whose rows are
numbered from zero. A leg is turned into a zone when it is short and large enough, a
candle before it qualifies, and the memory of events has a break for it. A missing cell
is NaN: a comparison with it fails, and `max` and `min` keep their first argument.
-/

namespace SmcPipeline

inductive EntryMode
  | body05
  | wick05
  | bodyTouch
  | wickTouch
deriving DecidableEq, Repr

inductive SmcZoneType
  | orderBlock
  | breaker
  | imbalance
deriving DecidableEq, Repr

inductive ZoneQuality
  | strong
  | medium
  | weak
deriving DecidableEq, Repr

structure ZoneMeta (K : Type*) where
  bodyPct : Option K
  wickTopPct : Option K
  wickBottomPct : Option K
  entryMode : EntryMode
  role : ZoneRole
  biasAtCreation : Bias
  referenceEventType : EventType
  barCount : ℕ
  amplitude : K
  quality : ZoneQuality
deriving DecidableEq, Repr

/-- Origin times are nanoseconds. -/
structure SmcZone (K : Type*) where
  zoneType : SmcZoneType
  priceMin : Option K
  priceMax : Option K
  timeframe : String
  originTime : ℤ
  direction : Direction
  role : ZoneRole
  strength : Option K
  confidence : Option K
  components : List String
  zoneId : String
  entryMode : EntryMode
  quality : ZoneQuality
  referenceLegId : String
  referenceEventId : String
  biasAtCreation : Bias
  notes : String
  details : ZoneMeta K
deriving DecidableEq, Repr

/-- A snapshot: the frame of its primary timeframe, and whether that has all four price
columns. -/
structure SmcInput (K : Type*) where
  symbol : String
  tfPrimary : String
  frame : Option (List (RawBar K))
  hasPriceColumns : Bool

/-- A zone with the leg it is built from and the event used as its break. -/
structure OrderBlock (K : Type*) where
  leg : Leg K
  breakEvent : StructureEvent K
  zone : SmcZone K
deriving DecidableEq, Repr

namespace OrderBlocks

open Candles

variable {K : Type*}

def legDirection (leg : Leg K) : Option Direction :=
  match leg.label with
  | .hh | .hl => some .long
  | .lh | .ll => some .short
  | .undefined => none

def resolvePosition (frame : List (RawBar K)) (rawIndex : ℕ) : Option ℕ :=
  if rawIndex < frame.length then some rawIndex else none

def resolveLegSpan (frame : List (RawBar K)) (leg : Leg K) : Option (ℕ × ℕ) :=
  match resolvePosition frame leg.fromSwing.index, resolvePosition frame leg.toSwing.index with
  | some startPos, some endPos => some (min startPos endPos, max startPos endPos)
  | _, _ => none

def legSignature (leg : Leg K) : ℕ × ℕ × LegLabel :=
  (leg.fromSwing.index, leg.toSwing.index, leg.label)

/-- The event says that the leg, or one of its signature, broke in this direction. -/
def breaksLeg (leg : Leg K) (direction : Direction) (event : StructureEvent K) : Bool :=
  decide (event.direction = direction) &&
    decide (legSignature event.sourceLeg = legSignature leg)

def legBreakEvent (events : List (StructureEvent K)) (leg : Leg K) (direction : Direction) :
    Option (StructureEvent K) :=
  events.find? (breaksLeg leg direction)

def deriveRole (direction : Direction) (bias : Bias) : ZoneRole :=
  match bias, direction with
  | .neutral, _ => .neutral
  | .long, .long => .primary
  | .short, .short => .primary
  | _, _ => .countertrend

/-- `pd.Timestamp` of the row's `open_time`: an integer is read as nanoseconds. -/
def extractTimestamp (row : RawBar K) (utcnow : ℤ) : ℤ :=
  match row.openTime with
  | some t => if -(2 ^ 63) < t ∧ t < 2 ^ 63 then t else utcnow * 1000000
  | none => utcnow * 1000000

/-- `leg_id` -/
def legId (leg : Leg K) : String := s!"leg_{leg.fromSwing.index}_{leg.toSwing.index}"

/-- `reference_event_id`, with the event's time in nanoseconds. -/
def eventId (event : StructureEvent K) : String := s!"structure_event_{event.time * 1000000}"

section

variable [LinearOrder K]

def less (a b : Option K) : Bool :=
  match a, b with
  | some x, some y => decide (x < y)
  | _, _ => false

def atMost (a b : Option K) : Bool :=
  match a, b with
  | some x, some y => decide (x ≤ y)
  | _, _ => false

/-- Python's `max(a, b)` -/
def pyMax (a b : Option K) : Option K := if less a b then b else a

/-- Python's `min(a, b)` -/
def pyMin (a b : Option K) : Option K := if less b a then b else a

@[simp] theorem less_some (a b : K) : less (some a) (some b) = decide (a < b) := rfl

@[simp] theorem atMost_some (a b : K) : atMost (some a) (some b) = decide (a ≤ b) := rfl

theorem some_of_less {a b : Option K} (h : less a b = true) :
    (∃ x, a = some x) ∧ ∃ y, b = some y := by
  cases a with
  | none => cases h
  | some x =>
      cases b with
      | none => cases h
      | some y => exact ⟨⟨x, rfl⟩, y, rfl⟩

@[simp] theorem pyMax_some (a b : K) : pyMax (some a) (some b) = some (max a b) := by
  unfold pyMax less
  rcases lt_or_ge a b with h | h
  · simp [h, max_eq_right h.le]
  · simp [not_lt.mpr h, max_eq_left h]

@[simp] theorem pyMin_some (a b : K) : pyMin (some a) (some b) = some (min a b) := by
  unfold pyMin less
  rcases lt_or_ge b a with h | h
  · simp [h, min_eq_right h.le]
  · simp [not_lt.mpr h, min_eq_left h]

/-- numpy's `argmin` or `argmax`: the first missing cell, or else the first best one. -/
def argBest (best : K → K → Bool) (cells : List (Option K)) : ℕ :=
  cells.findIdx fun x => cells.all fun y =>
    match x, y with
    | none, _ => true
    | some _, none => false
    | some a, some b => best a b

omit [LinearOrder K] in
/-- Where the chosen cell is not missing no cell is, and it is the best of them. -/
theorem best_of_argBest {best : K → K → Bool} {cells : List (Option K)} {a : K}
    (h : cells[argBest best cells]? = some (some a)) :
    ∀ y ∈ cells, ∃ b, y = some b ∧ best a b = true := by
  obtain ⟨hlt, ha⟩ := List.getElem?_eq_some_iff.mp h
  have hall := List.findIdx_getElem (w := hlt)
  intro y hy
  have hbest := List.all_eq_true.mp hall y hy
  dsimp only [argBest] at ha
  rw [ha] at hbest
  cases y with
  | none => cases hbest
  | some b => exact ⟨b, rfl, hbest⟩

def isOpposite (direction : Direction) (row : RawBar K) : Bool :=
  match direction with
  | .long => less row.close row.opn
  | .short => less row.opn row.close

variable (cfg : SmcCoreConfig K)

/-- The last candle against the direction before the leg, or the most extreme one. -/
def findObCandidate (frame : List (RawBar K)) (startPos : ℕ) (direction : Direction) : Option ℕ :=
  let preStart := (max 0 ((startPos : ℤ) - cfg.obPreludeMaxBars)).toNat
  let window := slice preStart (startPos + 1) frame
  if window.isEmpty then none
  else
    match (List.range window.length).reverse.find? fun rel =>
        window[rel]?.any (isOpposite direction) with
    | some rel => some (preStart + rel)
    | none =>
      match direction with
      | .long => some (preStart + argBest (fun a b => decide (a ≤ b)) (window.map RawBar.low))
      | .short => some (preStart + argBest (fun a b => decide (b ≤ a)) (window.map RawBar.high))

end

section

variable [Field K] [LinearOrder K] (lower : String → String) (cfg : SmcCoreConfig K)

/-- The candidate's zone: its ends and the way it is entered. -/
def zoneEnds (direction : Direction) (row : RawBar K) (bodyLow bodyHigh bodyPct : Option K) :
    Option K × Option K × EntryMode :=
  if atMost (some cfg.obBodyDominationPct) bodyPct then (bodyLow, bodyHigh, .body05)
  else if atMost bodyPct (some cfg.obBodyMinPct) then (bodyLow, bodyHigh, .bodyTouch)
  else match direction with
    | .short => (row.low, row.high, .wickTouch)
    | .long => (row.low, row.high, .wick05)

def buildZoneFromRow (snapshot : SmcInput K) (frame : List (RawBar K)) (utcnow : ℤ) (rowPos : ℕ)
    (direction : Direction) (leg : Leg K) (bias : Bias) (atr amplitude : K) (barCount : ℕ)
    (breakEvent : StructureEvent K) : Option (SmcZone K) :=
  match frame[rowPos]? with
  | none => none
  | some row =>
    let sub := Option.map₂ fun a b : K => a - b
    let div := Option.map₂ fun a b : K => a / b
    let fullRange := pyMax (sub row.high row.low) (some (ratio 1 1000000000))
    let bodyHigh := pyMax row.opn row.close
    let bodyLow := pyMin row.opn row.close
    let bodyAbs := sub bodyHigh bodyLow
    let bodyPct := div bodyAbs fullRange
    if less bodyAbs (some (cfg.obBodyMinPct * amplitude)) then none
    else if less bodyPct (some cfg.obBodyDominationPct) then none
    else
      let ends := zoneEnds cfg direction row bodyLow bodyHigh bodyPct
      let strength := if 0 < atr then some (amplitude / max atr (ratio 1 1000000000))
        else bodyPct.map (· * (2 : ℕ))
      let confidence := (pyMin bodyPct (some 1)).map fun p =>
        ratio 45 100 + ratio 25 100 * p + ratio 15 100
      let role := deriveRole direction bias
      some
        { zoneType := .orderBlock
          priceMin := pyMin ends.1 ends.2.1
          priceMax := pyMax ends.1 ends.2.1
          timeframe := snapshot.tfPrimary
          originTime := extractTimestamp row utcnow
          direction := direction
          role := role
          strength := pyMax (some (ratio 1 10)) (pyMin strength (some (ratio 3 1)))
          confidence := pyMax (some (ratio 2 10)) (pyMin confidence (some (ratio 95 100)))
          components := ["orderblock", legId leg]
          zoneId :=
            s!"ob_{lower snapshot.symbol}_{snapshot.tfPrimary}_{rowPos}_{leg.toSwing.index}"
          entryMode := ends.2.2
          quality := .strong
          referenceLegId := legId leg
          referenceEventId := eventId breakEvent
          biasAtCreation := bias
          notes := ""
          details :=
            { bodyPct := bodyPct
              wickTopPct := div (sub row.high bodyHigh) fullRange
              wickBottomPct := div (sub bodyLow row.low) fullRange
              entryMode := ends.2.2
              role := role
              biasAtCreation := bias
              referenceEventType := breakEvent.eventType
              barCount := barCount
              amplitude := amplitude
              quality := .strong } }

/-- The first of the two that is present and not zero. -/
def atrOf (st : SmcStructureState K) : K :=
  ((st.atrLast.filter fun a => decide (a ≠ 0)).or
    (st.atrMedian.filter fun a => decide (a ≠ 0))).getD 0

/-- One round of the loop, with the way a break event is looked up. -/
def orderBlockOf (snapshot : SmcInput K) (frame : List (RawBar K)) (utcnow : ℤ) (atr : K)
    (bias : Bias) (breakEventOf : Leg K → Direction → Option (StructureEvent K)) (leg : Leg K) :
    Option (OrderBlock K) :=
  match legDirection leg, resolveLegSpan frame leg with
  | some direction, some (startPos, endPos) =>
    let barCount := endPos - startPos + 1
    let amplitude := |leg.toSwing.price - leg.fromSwing.price|
    if endPos ≤ startPos then none
    else if cfg.obLegMaxBars < barCount then none
    else if 0 < atr ∧ amplitude < cfg.obLegMinAtrMul * atr then none
    else if amplitude ≤ 0 then none
    else
      match findObCandidate cfg frame startPos direction, breakEventOf leg direction with
      | some candidatePos, some breakEvent =>
        (buildZoneFromRow lower cfg snapshot frame utcnow candidatePos direction leg bias atr
          amplitude barCount breakEvent).map fun zone => ⟨leg, breakEvent, zone⟩
      | _, _ => none
  | _, _ => none

/-- The events a break is looked up in. -/
def structureEvents (st : SmcStructureState K) : List (StructureEvent K) :=
  if st.eventHistory.isEmpty then st.events else st.eventHistory

def orderBlocks (snapshot : SmcInput K) (st : SmcStructureState K) (utcnow : ℤ) :
    List (OrderBlock K) :=
  match snapshot.frame with
  | none => []
  | some frame =>
    if snapshot.hasPriceColumns then
      st.legs.filterMap (orderBlockOf lower cfg snapshot frame utcnow (atrOf st) st.bias
        (legBreakEvent (structureEvents st)))
    else []

/-- `detect_order_blocks` -/
def detectOrderBlocks (snapshot : SmcInput K) (st : SmcStructureState K) (utcnow : ℤ) :
    List (SmcZone K) :=
  (orderBlocks lower cfg snapshot st utcnow).map OrderBlock.zone

variable {lower cfg} {snapshot : SmcInput K} {frame : List (RawBar K)} {utcnow : ℤ} {atr : K}
  {bias : Bias} {leg : Leg K} {direction : Direction}

omit [Field K] [LinearOrder K] in
theorem legBreakEvent_eq_some {events : List (StructureEvent K)} {e : StructureEvent K}
    (h : legBreakEvent events leg direction = some e) :
    e ∈ events ∧ breaksLeg leg direction e = true :=
  ⟨List.mem_of_find?_eq_some h, List.find?_some h⟩

omit [Field K] [LinearOrder K] in
theorem breaksLeg_iff {e : StructureEvent K} : breaksLeg leg direction e = true ↔
    e.direction = direction ∧ legSignature e.sourceLeg = legSignature leg := by
  unfold breaksLeg
  rw [Bool.and_eq_true, decide_eq_true_eq, decide_eq_true_eq]

/-- Whether a zone is built does not depend on the break event. -/
theorem buildZoneFromRow_isSome (rowPos : ℕ) (amplitude : K) (barCount : ℕ)
    (e e' : StructureEvent K) :
    (buildZoneFromRow lower cfg snapshot frame utcnow rowPos direction leg bias atr amplitude
        barCount e).isSome =
      (buildZoneFromRow lower cfg snapshot frame utcnow rowPos direction leg bias atr amplitude
        barCount e').isSome := by
  unfold buildZoneFromRow
  cases frame[rowPos]? with
  | none => rfl
  | some row =>
      dsimp only
      split_ifs <;> rfl

variable (cfg) in
/-- The row a zone of the leg is built from. -/
def candidateOf (frame : List (RawBar K)) (leg : Leg K) : Option ℕ :=
  (legDirection leg).bind fun direction =>
    (resolveLegSpan frame leg).bind fun span => findObCandidate cfg frame span.1 direction

/-- What a zone takes from the row, the leg, the bias and the event used as its break. -/
theorem buildZoneFromRow_eq_some {rowPos : ℕ} {amplitude : K} {barCount : ℕ}
    {e : StructureEvent K} {zone : SmcZone K}
    (h : buildZoneFromRow lower cfg snapshot frame utcnow rowPos direction leg bias atr amplitude
      barCount e = some zone) :
    (∃ row, frame[rowPos]? = some row ∧ zone.originTime = extractTimestamp row utcnow) ∧
      (zone.zoneType = .orderBlock ∧ zone.direction = direction ∧
        zone.role = deriveRole direction bias) ∧
      zone.referenceLegId = legId leg ∧ zone.referenceEventId = eventId e := by
  unfold buildZoneFromRow at h
  cases hrow : frame[rowPos]? with
  | none =>
      rw [hrow] at h
      cases h
  | some row =>
      rw [hrow] at h
      dsimp only at h
      split_ifs at h <;> (cases h; exact ⟨⟨row, rfl, rfl⟩, ⟨rfl, rfl, rfl⟩, rfl, rfl⟩)

/-- A block is the zone of the candidate row of its leg. -/
theorem orderBlockOf_built {breakEventOf : Leg K → Direction → Option (StructureEvent K)}
    {b : OrderBlock K}
    (h : orderBlockOf lower cfg snapshot frame utcnow atr bias breakEventOf leg = some b) :
    b.leg = leg ∧ ∃ direction rowPos amplitude barCount, legDirection leg = some direction ∧
      candidateOf cfg frame leg = some rowPos ∧ breakEventOf leg direction = some b.breakEvent ∧
      buildZoneFromRow lower cfg snapshot frame utcnow rowPos direction leg bias atr amplitude
        barCount b.breakEvent = some b.zone := by
  unfold orderBlockOf at h
  split at h
  · rename_i direction startPos endPos hdirection hspan
    dsimp only at h
    split_ifs at h
    split at h
    · rename_i candidatePos breakEvent hcandidate hbreak
      obtain ⟨zone, hzone, rfl⟩ := Option.map_eq_some_iff.mp h
      exact ⟨rfl, direction, candidatePos, _, _, hdirection,
        by simp [candidateOf, hdirection, hspan, hcandidate], hbreak, hzone⟩
    · cases h
  · cases h

theorem orderBlockOf_eq_some {breakEventOf : Leg K → Direction → Option (StructureEvent K)}
    {b : OrderBlock K}
    (h : orderBlockOf lower cfg snapshot frame utcnow atr bias breakEventOf leg = some b) :
    (b.leg = leg ∧ ∃ direction, legDirection leg = some direction ∧
      breakEventOf leg direction = some b.breakEvent) ∧
    b.zone.referenceLegId = legId b.leg ∧ b.zone.referenceEventId = eventId b.breakEvent := by
  obtain ⟨rfl, direction, _, _, _, hdirection, -, hbreak, hzone⟩ := orderBlockOf_built h
  exact ⟨⟨rfl, direction, hdirection, hbreak⟩, (buildZoneFromRow_eq_some hzone).2.2⟩

/-- A leg that gives a zone with one break event gives one with any other. -/
theorem orderBlockOf_isSome
    (breakEventOf breakEventOf' : Leg K → Direction → Option (StructureEvent K))
    (hdirection : legDirection leg = some direction)
    (hboth : (breakEventOf leg direction).isSome = (breakEventOf' leg direction).isSome) :
    (orderBlockOf lower cfg snapshot frame utcnow atr bias breakEventOf leg).isSome =
      (orderBlockOf lower cfg snapshot frame utcnow atr bias breakEventOf' leg).isSome := by
  unfold orderBlockOf
  rw [hdirection]
  cases resolveLegSpan frame leg with
  | none => rfl
  | some span =>
      dsimp only
      split_ifs
      all_goals try rfl
      cases findObCandidate cfg frame span.1 direction with
      | none => rfl
      | some candidatePos =>
          cases he : breakEventOf leg direction with
          | none =>
              rw [he] at hboth
              cases he' : breakEventOf' leg direction with
              | none => rfl
              | some e' =>
                  rw [he'] at hboth
                  cases hboth
          | some e =>
              rw [he] at hboth
              obtain ⟨e', he'⟩ := Option.isSome_iff_exists.mp hboth.symm
              simp only [he', Option.isSome_map]
              exact buildZoneFromRow_isSome _ _ _ e e'

/-- A zone is built from the candidate row of its leg. -/
theorem orderBlockOf_candidate {breakEventOf : Leg K → Direction → Option (StructureEvent K)}
    {b : OrderBlock K}
    (h : orderBlockOf lower cfg snapshot frame utcnow atr bias breakEventOf leg = some b) :
    ∃ pos row, candidateOf cfg frame leg = some pos ∧ frame[pos]? = some row ∧
      b.zone.originTime = extractTimestamp row utcnow := by
  obtain ⟨-, _, pos, _, _, -, hcandidate, -, hzone⟩ := orderBlockOf_built h
  obtain ⟨⟨row, hrow, horigin⟩, -, -⟩ := buildZoneFromRow_eq_some hzone
  exact ⟨pos, row, hcandidate, hrow, horigin⟩

theorem mem_orderBlocks {st : SmcStructureState K} {b : OrderBlock K} :
    b ∈ orderBlocks lower cfg snapshot st utcnow ↔
      ∃ frame, snapshot.frame = some frame ∧ snapshot.hasPriceColumns = true ∧ ∃ leg ∈ st.legs,
        orderBlockOf lower cfg snapshot frame utcnow (atrOf st) st.bias
          (legBreakEvent (structureEvents st)) leg = some b := by
  unfold orderBlocks
  cases snapshot.frame with
  | none => simp
  | some frame =>
      cases snapshot.hasPriceColumns with
      | false => simp
      | true => simp [List.mem_filterMap]

end

end OrderBlocks

end SmcPipeline
