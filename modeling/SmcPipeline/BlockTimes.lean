import SmcPipeline.BlockCoordinates
import SmcPipeline.Breakers

/-!
# The time of an order block

`_extract_timestamp` reads `open_time` before `timestamp`, and takes the integer for
nanoseconds where it counts milliseconds. The origin of a zone is then its bar's time only
for the bar that opens at the epoch; for the others it is shortly after 1970, and every
sweep of the frame is later than the block by more than the largest delay.
-/

namespace SmcPipeline.BlockTimes

open Candles OrderBlocks InputAdapter BlockCoordinates Breakers

variable {K : Type*}

/-- The UTC instant at which a row of a snapshot opens, in nanoseconds. -/
def instant (row : RawBar K) : ℤ := timeKey row * 1000000

section

variable [LinearOrder K] (cfg : SmcCoreConfig K)

def candidateRow (frame : List (RawBar K)) (leg : Leg K) : Option (RawBar K) :=
  (candidateOf cfg frame leg).bind fun pos => frame[pos]?

def OriginIsInstant (frame : List (RawBar K)) (b : OrderBlock K) : Prop :=
  ∀ row, candidateRow cfg frame b.leg = some row → b.zone.originTime = instant row

/-- The age of the zone at any time is the time elapsed since its bar. -/
def AgesElapsed (frame : List (RawBar K)) (b : OrderBlock K) : Prop :=
  ∀ row, candidateRow cfg frame b.leg = some row →
    ∀ now, now - b.zone.originTime = now - instant row

def OpensAtEpoch (frame : List (RawBar K)) (b : OrderBlock K) : Prop :=
  ∀ row, candidateRow cfg frame b.leg = some row → row.openTime = some 0

end

variable [Field K] [LinearOrder K] [FloorRing K] {lower : String → String} {cfg : SmcCoreConfig K}
  {symbol tfPrimary : String} {hasPriceColumns : Bool} {raw : List (RawBar K)}
  {store : EventHistory.Store K} {utcnow : ℤ}

omit [Field K] [LinearOrder K] [FloorRing K] in
/-- The integer that `open_time` holds becomes the number of nanoseconds. -/
theorem extractTimestamp_of_mem (utcnow : ℤ) {row : RawBar K} (h : row ∈ normalizeFrame raw) :
    ∃ t, row.openTime = some t ∧ extractTimestamp row utcnow = t := by
  obtain ⟨c, hc⟩ := Option.isSome_iff_exists.mp (isSome_of_mem_normalizeFrame h)
  obtain ⟨hopen, hrange⟩ := toCandle_eq_some hc
  refine ⟨c.time, hopen, ?_⟩
  simp only [inTimestampRange, Bool.and_eq_true, decide_eq_true_eq] at hrange
  unfold extractTimestamp
  rw [hopen]
  exact if_pos (by omega)

/-- A zone of a snapshot has a candidate row, whose open time it takes for its origin. -/
theorem origin_of_mem_blocksOf {b : OrderBlock K}
    (h : b ∈ blocksOf lower cfg (snapshotOf symbol tfPrimary hasPriceColumns raw) store utcnow) :
    ∃ row ∈ normalizeFrame raw, candidateRow cfg (normalizeFrame raw) b.leg = some row ∧
      row.openTime = some b.zone.originTime := by
  obtain ⟨frame, hframe, -, leg, -, hblock⟩ := mem_orderBlocks.mp h
  obtain rfl : normalizeFrame raw = frame := Option.some.inj hframe
  obtain ⟨rfl, -⟩ := orderBlockOf_built hblock
  obtain ⟨pos, row, hpos, hrow, horigin⟩ := orderBlockOf_candidate hblock
  have hmem : row ∈ normalizeFrame raw := List.mem_of_getElem? hrow
  obtain ⟨t, hopen, ht⟩ := extractTimestamp_of_mem utcnow hmem
  refine ⟨row, hmem, ?_, ?_⟩
  · unfold candidateRow
    rw [hpos]
    exact hrow
  · rw [hopen, horigin, ht]

theorem originIsInstant_iff {b : OrderBlock K}
    (h : b ∈ blocksOf lower cfg (snapshotOf symbol tfPrimary hasPriceColumns raw) store utcnow) :
    (OriginIsInstant cfg (normalizeFrame raw) b ↔ OpensAtEpoch cfg (normalizeFrame raw) b) ∧
      (AgesElapsed cfg (normalizeFrame raw) b ↔ OpensAtEpoch cfg (normalizeFrame raw) b) := by
  obtain ⟨row, -, hrow, hopen⟩ := origin_of_mem_blocksOf h
  have honly : ∀ {P : RawBar K → Prop},
      (∀ r, candidateRow cfg (normalizeFrame raw) b.leg = some r → P r) ↔ P row := by
    intro P
    exact ⟨fun hall => hall row hrow, fun hP r hr => by
      obtain rfl : row = r := Option.some.inj (hrow.symm.trans hr)
      exact hP⟩
  have hkey : instant row = b.zone.originTime * 1000000 := by
    rw [instant, timeKey, hopen, Option.getD_some]
  unfold OriginIsInstant AgesElapsed OpensAtEpoch
  rw [honly, honly, honly, hkey, hopen, Option.some.injEq]
  constructor
  · omega
  · exact ⟨fun hall => by have hzero := hall 0; omega, fun hzero now => by omega⟩

/-- The origins of a snapshot's zones are the instants of their bars, and their ages the times
elapsed, exactly if every candidate bar opens at the epoch. In a frame whose bars open late
enough no sweep is early enough for a breaker. -/
theorem origins_are_instants_iff :
    ((∀ b ∈ blocksOf lower cfg (snapshotOf symbol tfPrimary hasPriceColumns raw) store utcnow,
        OriginIsInstant cfg (normalizeFrame raw) b) ↔
      ∀ b ∈ blocksOf lower cfg (snapshotOf symbol tfPrimary hasPriceColumns raw) store utcnow,
        OpensAtEpoch cfg (normalizeFrame raw) b) ∧
    ((∀ b ∈ blocksOf lower cfg (snapshotOf symbol tfPrimary hasPriceColumns raw) store utcnow,
        AgesElapsed cfg (normalizeFrame raw) b) ↔
      ∀ b ∈ blocksOf lower cfg (snapshotOf symbol tfPrimary hasPriceColumns raw) store utcnow,
        OpensAtEpoch cfg (normalizeFrame raw) b) ∧
    ((∀ r ∈ normalizeFrame raw, ∀ q ∈ normalizeFrame raw,
        minutes cfg.breakerMaxSweepDelayMinutes + timeKey r < instant q) →
      ∀ (st : SmcStructureState K) (sfpEvents : List (SfpEntry K)),
        (∀ s ∈ extractSweepEvents sfpEvents, ∃ q ∈ normalizeFrame raw, instant q ≤ s.time) →
        detectBreakers cfg lower (snapshotOf symbol tfPrimary hasPriceColumns raw) st sfpEvents
          ((blocksOf lower cfg (snapshotOf symbol tfPrimary hasPriceColumns raw) store
            utcnow).map OrderBlock.zone) = []) := by
  refine ⟨forall₂_congr fun b hb => (originIsInstant_iff hb).1,
    forall₂_congr fun b hb => (originIsInstant_iff hb).2, fun hlate st sfpEvents hsweeps => ?_⟩
  refine detectBreakers_eq_nil fun ob hob s hs => ?_
  obtain ⟨b, hb, rfl⟩ := List.mem_map.mp hob
  obtain ⟨row, hmem, -, hopen⟩ := origin_of_mem_blocksOf hb
  obtain ⟨q, hq, hle⟩ := hsweeps s hs
  have hgap := hlate row hmem q hq
  rw [timeKey, hopen, Option.getD_some] at hgap
  omega

section FixedInputs

/-- The bars of a later minute. -/
def laterBars (minutes : ℤ) (bars : List (RawBar ℚ)) : List (RawBar ℚ) :=
  bars.map fun r => { r with openTime := r.openTime.map (· + 60000 * minutes) }

/-- The six bars, shortly after midnight of the first of January 2024. -/
def bars2024 : List (RawBar ℚ) := laterBars 28401120 sixBars

/-- Their structure. -/
def structure2024 : SmcStructureState ℚ :=
  (Snapshots.computeStructureState id shortLookback "xauusd" "1m" OrderedDict.empty
    (some (normalizeFrame bars2024)) 0).1

/-- The low of minute 7 sweeps the lower edge of the block. -/
def sweep2024 : SfpEntry ℚ := ⟨some .low, some 5, some ((28401120 + 7) * 60000000000), some "swing"⟩

theorem bars_2024_give_no_breaker :
    blocksOf id shortLookback (snapshotOf "xauusd" "1m" true bars2024) OrderedDict.empty 0 ≠ [] ∧
      detectBreakers shortLookback id (snapshotOf "xauusd" "1m" true bars2024) structure2024
        [sweep2024] ((blocksOf id shortLookback (snapshotOf "xauusd" "1m" true bars2024)
          OrderedDict.empty 0).map OrderBlock.zone) = [] := by
  refine ⟨by decide +kernel, origins_are_instants_iff.2.2 (by decide +kernel) structure2024
    [sweep2024] fun s hs => ?_⟩
  obtain ⟨entry, hentry, hs⟩ := mem_extractSweepEvents.mp hs
  obtain rfl : entry = sweep2024 := by simpa using hentry
  cases hs
  exact ⟨barOf (28401120 + 3) 7 7 3 3, by decide +kernel, by decide +kernel⟩

/-- The zone of the bar of minute 4 of 2024 has an origin in 1970. -/
theorem block_2024_has_another_time :
    ¬ ∀ (cfg : SmcCoreConfig ℚ) (raw : List (RawBar ℚ)),
      ∀ b ∈ blocksOf id cfg (snapshotOf "xauusd" "1m" true raw) OrderedDict.empty 0,
        OriginIsInstant cfg (normalizeFrame raw) b := by
  intro h
  have hsome : blocksOf id shortLookback (snapshotOf "xauusd" "1m" true bars2024)
      OrderedDict.empty 0 ≠ [] := by decide +kernel
  obtain ⟨b, hb⟩ := List.exists_mem_of_ne_nil _ hsome
  have hepoch := (originIsInstant_iff hb).1.mp (h shortLookback bars2024 b hb)
  obtain ⟨row, hmem, hrow, -⟩ := origin_of_mem_blocksOf hb
  have hnot : ∀ r ∈ normalizeFrame bars2024, r.openTime ≠ some 0 := by decide +kernel
  exact hnot row hmem (hepoch row hrow)

end FixedInputs

end SmcPipeline.BlockTimes
