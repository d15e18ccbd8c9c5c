import SmcPipeline.CandidateRows
import SmcPipeline.InputAdapter
import Mathlib.Data.Rat.Floor

/-!
# Where an order block is looked for

The swings of a leg are numbered in the prepared frame, which starts behind the rows that
`_prepare_frame` cuts off; `detect_order_blocks` takes the same numbers for rows of the
whole snapshot. The candle it finds therefore lies as many rows too early as were cut
off, and is among the rows before the leg only if it was found that much closer to its
start than `ob_prelude_max_bars` allows.
-/

namespace SmcPipeline.BlockCoordinates

open Candles Swings StructureEngine StructureState OrderBlocks InputAdapter Snapshots EventHistory
  CandidateRows

variable {K : Type*}

variable [LinearOrder K] {cfg : SmcCoreConfig K}

/-- A leg starts no later than it ends, at a row of the prepared frame. -/
theorem leg_start {rows : List (Candle K)} {minSeparation : ℤ} {leg : Leg K}
    (h : leg ∈ buildLegs (detectSwings rows minSeparation)) :
    leg.fromSwing.index ≤ leg.toSwing.index ∧
      ∃ c, rows[leg.fromSwing.index]? = some c ∧ leg.fromSwing.time = c.time := by
  obtain ⟨pre, post, hswings, hleg⟩ := legAt_of_mem_buildLegs h
  have hpre : leg.fromSwing ∈ pre := List.mem_of_getLast? hleg.from_last
  have hpairwise := detectSwings_pairwise rows minSeparation
  rw [hswings, List.pairwise_append] at hpairwise
  have hmem : leg.fromSwing ∈ detectSwings rows minSeparation := by
    rw [hswings]
    exact List.mem_append_left _ hpre
  obtain ⟨-, -, hat⟩ := mem_detectSwings.mp hmem
  obtain ⟨-, -, -, -, c, hc, htime⟩ := swingAt_eq_some hat
  exact ⟨index_le_of_before (hpairwise.2.2 _ hpre _ List.mem_cons_self), c, hc, htime⟩

/-- The candidate of a leg is looked for at the number of its first swing. -/
theorem candidateOf_bounds {frame : List (RawBar K)} {leg : Leg K} {pos : ℕ}
    (hle : leg.fromSwing.index ≤ leg.toSwing.index) (h : candidateOf cfg frame leg = some pos) :
    (leg.fromSwing.index : ℤ) - cfg.obPreludeMaxBars ≤ pos ∧ pos ≤ leg.fromSwing.index := by
  obtain ⟨direction, -, hspan⟩ := Option.bind_eq_some_iff.mp h
  obtain ⟨span, hspan, hcandidate⟩ := Option.bind_eq_some_iff.mp hspan
  obtain ⟨hinside, rfl⟩ := (resolveLegSpan_eq_some hle).mp hspan
  exact ((findObCandidate_eq_some (hle.trans_lt hinside)).mp hcandidate).1

variable (cfg) in
/-- The zone's row is one of the `ob_prelude_max_bars + 1` rows up to the one whose
timestamp is that of the leg's first swing. -/
def InWindow (frame : List (RawBar K)) (leg : Leg K) : Prop :=
  ∃ p pos row, candidateOf cfg frame leg = some pos ∧ frame[p]? = some row ∧
    row.openTime = some leg.fromSwing.time ∧ pos ≤ p ∧ (p : ℤ) ≤ pos + cfg.obPreludeMaxBars

/-- A candidate in a certain row is in the window exactly if it lies so close to the start
it is looked for from that this makes up for the rows cut off. -/
theorem inWindow_iff {raw : List (RawBar K)} (hraw : DistinctTimes raw) {leg : Leg K}
    (hleg : leg ∈ buildLegs (detectSwings
      (prepared cfg.maxLookbackBars (some (normalizeFrame raw))) cfg.minSwingBars)) {pos : ℕ}
    (hpos : candidateOf cfg (normalizeFrame raw) leg = some pos) :
    InWindow cfg (normalizeFrame raw) leg ↔
      (trimmed cfg.maxLookbackBars (normalizeFrame raw) : ℤ) + leg.fromSwing.index ≤
        pos + cfg.obPreludeMaxBars := by
  obtain ⟨hle, c, hc, htime⟩ := leg_start hleg
  rw [getElem?_prepared] at hc
  obtain ⟨start, hstart, hcandle⟩ := Option.bind_eq_some_iff.mp hc
  have hbounds := candidateOf_bounds hle hpos
  constructor
  · rintro ⟨p, pos', row, hpos', hrow, hopen, -, hclose⟩
    obtain rfl : pos' = pos := Option.some.inj (hpos'.symm.trans hpos)
    have hkey : timeKey row = timeKey start := by
      rw [timeKey_of_toCandle hcandle, timeKey, hopen, Option.getD_some, htime]
    have hp := index_eq_of_timeKey hraw hrow hstart hkey
    omega
  · intro hnear
    refine ⟨_, pos, start, hpos, hstart, ?_, ?_, ?_⟩
    · rw [(toCandle_eq_some hcandle).1, htime]
    · omega
    · omega

section

variable {K : Type*} [Field K] [LinearOrder K] [FloorRing K] (lower : String → String)
  (cfg : SmcCoreConfig K)

/-- A snapshot of the store's frame. -/
def snapshotOf (symbol tfPrimary : String) (hasPriceColumns : Bool) (raw : List (RawBar K)) :
    SmcInput K := ⟨symbol, tfPrimary, some (normalizeFrame raw), hasPriceColumns⟩

/-- The order blocks of a snapshot, with its own structure state. -/
def blocksOf (snapshot : SmcInput K) (store : Store K) (utcnow : ℤ) : List (OrderBlock K) :=
  orderBlocks lower cfg snapshot
    (computeStructureState lower cfg snapshot.symbol snapshot.tfPrimary store snapshot.frame
      utcnow).1 utcnow

/-- Every row that gives a zone lies as many rows closer to the start it is looked for from
than `ob_prelude_max_bars` as are cut off. -/
def RowsReach (snapshot : SmcInput K) (store : Store K) (utcnow : ℤ) : Prop :=
  let st := (computeStructureState lower cfg snapshot.symbol snapshot.tfPrimary store
    snapshot.frame utcnow).1
  ∀ frame, snapshot.frame = some frame → snapshot.hasPriceColumns = true →
    ∀ leg ∈ st.legs, ∀ direction pos,
      GivesZone cfg frame (atrOf st) (structureEvents st) direction leg pos →
        (trimmed cfg.maxLookbackBars frame : ℤ) + leg.fromSwing.index ≤ pos + cfg.obPreludeMaxBars

variable {lower cfg} {symbol tfPrimary : String} {hasPriceColumns : Bool} {raw : List (RawBar K)}
  {store : Store K} {utcnow : ℤ}

theorem mem_legs {leg : Leg K} {snapshot : SmcInput K}
    (h : leg ∈ (computeStructureState lower cfg snapshot.symbol snapshot.tfPrimary store
      snapshot.frame utcnow).1.legs) :
    leg ∈ buildLegs (detectSwings (prepared cfg.maxLookbackBars snapshot.frame)
      cfg.minSwingBars) := h

/-- The zones of a snapshot come from the rows that give one. -/
theorem mem_blocksOf {b : OrderBlock K} {snapshot : SmcInput K}
    (h : b ∈ blocksOf lower cfg snapshot store utcnow) :
    ∃ frame, snapshot.frame = some frame ∧ snapshot.hasPriceColumns = true ∧
      b.leg ∈ (computeStructureState lower cfg snapshot.symbol snapshot.tfPrimary store
        snapshot.frame utcnow).1.legs ∧
      ∃ direction pos, candidateOf cfg frame b.leg = some pos ∧
        GivesZone cfg frame (atrOf (computeStructureState lower cfg snapshot.symbol
            snapshot.tfPrimary store snapshot.frame utcnow).1)
          (structureEvents (computeStructureState lower cfg snapshot.symbol snapshot.tfPrimary
            store snapshot.frame utcnow).1) direction b.leg pos := by
  obtain ⟨frame, hframe, hcolumns, leg, hleg, hblock⟩ := mem_orderBlocks.mp h
  obtain ⟨rfl, -⟩ := orderBlockOf_built hblock
  obtain ⟨pos, -, hpos, -⟩ := orderBlockOf_candidate hblock
  obtain ⟨direction, hgives⟩ :=
    (orderBlockOf_row_iff (leg_start (mem_legs hleg)).1).mp ⟨⟨b, hblock⟩, hpos⟩
  exact ⟨frame, hframe, hcolumns, hleg, direction, pos, hpos, hgives⟩

/-- The zones of a snapshot lie in their windows exactly if every row that gives one is close
enough to make up for the rows cut off; so always where no row is cut off, and never, but for
a snapshot without zones, where more rows are cut off than a window holds. -/
theorem coordinates_match_iff (hraw : DistinctTimes raw) :
    ((∀ b ∈ blocksOf lower cfg (snapshotOf symbol tfPrimary hasPriceColumns raw) store utcnow,
        InWindow cfg (normalizeFrame raw) b.leg) ↔
      RowsReach lower cfg (snapshotOf symbol tfPrimary hasPriceColumns raw) store utcnow) ∧
    (trimmed cfg.maxLookbackBars (normalizeFrame raw) = 0 →
      ∀ b ∈ blocksOf lower cfg (snapshotOf symbol tfPrimary hasPriceColumns raw) store utcnow,
        InWindow cfg (normalizeFrame raw) b.leg) ∧
    (cfg.obPreludeMaxBars < trimmed cfg.maxLookbackBars (normalizeFrame raw) →
      ∀ b ∈ blocksOf lower cfg (snapshotOf symbol tfPrimary hasPriceColumns raw) store utcnow,
        ¬ InWindow cfg (normalizeFrame raw) b.leg) := by
  have heach : ∀ b ∈ blocksOf lower cfg (snapshotOf symbol tfPrimary hasPriceColumns raw) store
      utcnow, ∃ pos : ℕ, ((b.leg.fromSwing.index : ℤ) - cfg.obPreludeMaxBars ≤ pos ∧
        pos ≤ b.leg.fromSwing.index) ∧ (InWindow cfg (normalizeFrame raw) b.leg ↔
        (trimmed cfg.maxLookbackBars (normalizeFrame raw) : ℤ) + b.leg.fromSwing.index ≤
          pos + cfg.obPreludeMaxBars) := by
    intro b hb
    obtain ⟨frame, hframe, -, hleg, direction, pos, hpos, hgives⟩ := mem_blocksOf hb
    obtain rfl : normalizeFrame raw = frame := Option.some.inj hframe
    exact ⟨pos, hgives.candidate.1, inWindow_iff hraw (mem_legs hleg) hpos⟩
  refine ⟨⟨?_, ?_⟩, fun hzero b hb => ?_, fun hfar b hb => ?_⟩
  · intro hall frame hframe hcolumns leg hleg direction pos hgives
    obtain rfl : normalizeFrame raw = frame := Option.some.inj hframe
    obtain ⟨⟨b, hblock⟩, hpos⟩ :=
      (orderBlockOf_row_iff (leg_start (mem_legs hleg)).1).mpr ⟨direction, hgives⟩
    have hin := hall b (mem_orderBlocks.mpr ⟨_, hframe, hcolumns, leg, hleg, hblock⟩)
    obtain ⟨rfl, -⟩ := orderBlockOf_built hblock
    exact (inWindow_iff hraw (mem_legs hleg) hpos).mp hin
  · intro hreach b hb
    obtain ⟨frame, hframe, hcolumns, hleg, direction, pos, hpos, hgives⟩ := mem_blocksOf hb
    obtain rfl : normalizeFrame raw = frame := Option.some.inj hframe
    exact (inWindow_iff hraw (mem_legs hleg) hpos).mpr
      (hreach _ hframe hcolumns b.leg hleg direction pos hgives)
  · obtain ⟨pos, hbounds, hiff⟩ := heach b hb
    rw [hiff]
    omega
  · obtain ⟨pos, hbounds, hiff⟩ := heach b hb
    rw [hiff]
    omega

end

section FixedInputs

def barOf (n : ℤ) (opn high low close : ℚ) : RawBar ℚ :=
  ⟨some (60000 * n), some opn, some high, some low, some close⟩

/-- Swings of one bar, a lookback of six and a window of two. -/
def shortLookback : SmcCoreConfig ℚ := { sensitive with maxLookbackBars := 6, obPreludeMaxBars := 1 }

/-- A high, a low and a higher high, after a falling bar. -/
def sixBars : List (RawBar ℚ) :=
  [barOf 3 7 7 3 3, barOf 4 9 9 5 5, barOf 5 3 4 2 3, barOf 6 9 11 8 10, barOf 7 5 6 3 5,
    barOf 8 6 8 5 7]

/-- The same with two bars before them. -/
def eightBars : List (RawBar ℚ) := barOf 1 5 6 4 5 :: barOf 2 5 6 4 5 :: sixBars

theorem six_bars_match :
    blocksOf id shortLookback (snapshotOf "xauusd" "1m" true sixBars) OrderedDict.empty 0 ≠ [] ∧
      ∀ b ∈ blocksOf id shortLookback (snapshotOf "xauusd" "1m" true sixBars) OrderedDict.empty 0,
        InWindow shortLookback (normalizeFrame sixBars) b.leg := by
  have hraw : DistinctTimes sixBars := by decide +kernel
  exact ⟨by decide +kernel, (coordinates_match_iff hraw).2.1 (by decide +kernel)⟩

/-- The zone of the leg from minute 5 is built from the bar of minute 3. -/
theorem eight_bars_do_not_match :
    ¬ ∀ (cfg : SmcCoreConfig ℚ) (raw : List (RawBar ℚ)), DistinctTimes raw →
      ∀ b ∈ blocksOf id cfg (snapshotOf "xauusd" "1m" true raw) OrderedDict.empty 0,
        InWindow cfg (normalizeFrame raw) b.leg := by
  intro h
  have hraw : DistinctTimes eightBars := by decide +kernel
  have hsome : blocksOf id shortLookback (snapshotOf "xauusd" "1m" true eightBars)
      OrderedDict.empty 0 ≠ [] := by decide +kernel
  obtain ⟨b, hb⟩ := List.exists_mem_of_ne_nil _ hsome
  have hcut : trimmed shortLookback.maxLookbackBars (normalizeFrame eightBars) = 2 := by
    decide +kernel
  obtain ⟨frame, hframe, -, hleg, direction, pos, hpos, hgives⟩ := mem_blocksOf hb
  obtain rfl : normalizeFrame eightBars = frame := Option.some.inj hframe
  have hnear := (inWindow_iff hraw (mem_legs hleg) hpos).mp (h shortLookback eightBars hraw b hb)
  have hle := hgives.candidate.1.2
  have hprelude : shortLookback.obPreludeMaxBars = 1 := rfl
  rw [hcut, hprelude] at hnear
  omega

end FixedInputs

end SmcPipeline.BlockCoordinates
