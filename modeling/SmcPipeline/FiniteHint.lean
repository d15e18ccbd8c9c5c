import SmcPipeline.BreakerSpec
import SmcPipeline.JsonText
import SmcPipeline.SmcEngine

/-!
# The numbers of a hint

Where all cells of a frame are there, no stage comes to a missing number: the hint of the frame
has numbers only. It is enough to follow the cells, since every other number is an element of the
field.
-/

namespace SmcPipeline.FiniteHint

open Candles Swings StructureEngine OrderBlocks Breakers LiquidityPools Sweeps Ranges ZonesState
  Magnets Serializers SmcEngine FairValueGaps JsonText KeyedRows

variable {K : Type*}

/-- Every float of the value is a number. -/
abbrev NoNaN (j : Json (Option K)) : Prop := EveryFloat (fun x => x.isSome = true) j

/-- All four prices are there. -/
structure Complete (row : RawBar K) : Prop where
  opn : ∃ x, row.opn = some x
  high : ∃ x, row.high = some x
  low : ∃ x, row.low = some x
  close : ∃ x, row.close = some x

structure CompleteCandle (c : Candle K) : Prop where
  opn : ∃ x, c.opn = some x
  high : ∃ x, c.high = some x
  low : ∃ x, c.low = some x
  close : ∃ x, c.close = some x

theorem mem_prepared {maxBars : ℤ} {frame : List (RawBar K)} {c : Candle K}
    (h : c ∈ prepared maxBars (some frame)) : ∃ row ∈ frame, toCandle row = some c := by
  unfold prepared prepareFrame at h
  dsimp only at h
  split_ifs at h with hcut hempty hempty
  · cases h
  · rw [Option.getD_some, mem_sortBy, List.mem_filterMap] at h
    obtain ⟨row, hrow, hc⟩ := h
    exact ⟨row, List.mem_of_mem_drop hrow, hc⟩
  · cases h
  · rw [Option.getD_some, mem_sortBy, List.mem_filterMap] at h
    exact h

theorem complete_prepared {maxBars : ℤ} {frame : Option (List (RawBar K))}
    (h : ∀ row ∈ frame.getD [], Complete row) : ∀ c ∈ prepared maxBars frame, CompleteCandle c := by
  intro c hc
  cases frame with
  | none => cases hc
  | some frame =>
      obtain ⟨row, hrow, hcandle⟩ := mem_prepared hc
      obtain ⟨hopn, hhigh, hlow, hclose⟩ := h row hrow
      unfold toCandle at hcandle
      split at hcandle
      · cases hcandle
      · split_ifs at hcandle
        cases hcandle
        exact ⟨hopn, hhigh, hlow, hclose⟩

@[simp] theorem noNaN_plainSwing (s : Swing K) : NoNaN (plainSwing s) := by simp [plainSwing]

@[simp] theorem noNaN_plainLeg (leg : Leg K) : NoNaN (plainLeg leg) := by
  cases h : leg.referencePrice <;> simp [plainLeg, h]

@[simp] theorem noNaN_plainEvent (e : StructureEvent K) : NoNaN (plainEvent e) := by
  simp [plainEvent, eventFields]

@[simp] theorem noNaN_plainOteZone (zone : OteZone K) : NoNaN (plainOteZone zone) := by
  simp [plainOteZone]

@[simp] theorem noNaN_optTime (ms : Option ℤ) : NoNaN (optTime ms : Json (Option K)) := by
  cases ms <;> simp [optTime]

@[simp] theorem noNaN_optFloat (x : Option K) : NoNaN (optFloat x) := by
  cases x <;> simp [optFloat]

@[simp] theorem noNaN_optText (text : Option String) :
    NoNaN ((text.map Json.str).getD .null : Json (Option K)) := by
  cases text <;> simp

@[simp] theorem noNaN_plainMetaValue (v : MetaValue K) : NoNaN (plainMetaValue v) := by
  cases v <;> simp [plainMetaValue]

/-- The bounds of a range are there. -/
structure WholeRange (r : SmcRange K) : Prop where
  high : ∃ x, r.high = some x
  low : ∃ x, r.low = some x
  eqLevel : ∃ x, r.eqLevel = some x

theorem noNaN_plainRange {r : SmcRange K} (h : WholeRange r) : NoNaN (plainRange (openRange r)) := by
  obtain ⟨⟨high, hhigh⟩, ⟨low, hlow⟩, ⟨eqLevel, heq⟩⟩ := h
  simp [plainRange, openRange, hhigh, hlow, heq]

theorem noNaN_plainStructure {st : RangedStructureState K} (entries : StructureMeta K)
    (h : ∀ r ∈ st.activeRange, WholeRange r) :
    NoNaN (plainStructure (structureRecord st entries)) := by
  have hmeta : NoNaN (.obj (structureRecord st entries).metaItems) :=
    everyFloat_obj.mpr (List.forall_mem_map.mpr fun entry _ => noNaN_plainMetaValue entry.2)
  cases hactive : st.activeRange with
  | none =>
      unfold plainStructure
      simp only [everyFloat_obj, List.forall_mem_cons, hmeta]
      simp [structureRecord, hactive]
  | some r =>
      have hr := noNaN_plainRange (h r hactive)
      unfold plainStructure
      simp only [everyFloat_obj, List.forall_mem_cons, hmeta]
      simp [structureRecord, hactive, hr]

theorem filterMap_id_ne_nil {cells : List (Option K)} (hne : cells ≠ [])
    (hcells : ∀ x ∈ cells, ∃ a, x = some a) : cells.filterMap id ≠ [] := by
  obtain ⟨x, hx⟩ := List.exists_mem_of_ne_nil _ hne
  obtain ⟨a, rfl⟩ := hcells x hx
  exact List.ne_nil_of_mem (List.mem_filterMap.mpr ⟨some a, hx, rfl⟩)

theorem mem_tailRows {β : Type*} {n : ℤ} {rows : List β} {b : β} (h : b ∈ tailRows n rows) :
    b ∈ rows := by
  unfold tailRows at h
  split_ifs at h
  · exact List.mem_of_mem_drop h
  · exact List.mem_of_mem_drop h

section

variable [Field K] [LinearOrder K]

/-- A range of complete candles has its bounds. -/
theorem wholeRange_of_detect {hasHighLow hasClose : Bool} {rows : List (Candle K)}
    {minRangeBars : ℤ} {tolerancePct : K} {range : Option (SmcRange K)} {state : SmcRangeState}
    (h : detectActiveRange hasHighLow hasClose rows minRangeBars tolerancePct = some (range, state))
    (hrows : ∀ c ∈ rows, CompleteCandle c) : ∀ r ∈ range, WholeRange r := by
  unfold detectActiveRange at h
  by_cases hshort : rows = [] ∨ rows.length < minRangeBars ∨ hasHighLow = false
  · rw [if_pos hshort] at h
    cases h
    intro r hr
    cases hr
  · rw [if_neg hshort] at h
    dsimp only at h
    cases hfirst : (tailRows minRangeBars rows).head? with
    | none =>
        rw [hfirst] at h
        cases h
    | some first =>
        have hmem : first ∈ tailRows minRangeBars rows := List.mem_of_mem_head? hfirst
        have hcells : ∀ f : Candle K → Option K, (∀ c, CompleteCandle c → ∃ a, f c = some a) →
            ((tailRows minRangeBars rows).map f).filterMap id ≠ [] := by
          intro f hf
          apply filterMap_id_ne_nil (by simpa using List.ne_nil_of_mem hmem)
          exact List.forall_mem_map.mpr fun c hc => hf c (hrows c (mem_tailRows hc))
        obtain ⟨highest, hhighest⟩ := Option.isSome_iff_exists.mp
          (List.isSome_max?_of_ne_nil (hcells Candle.high fun _ hc => hc.high))
        obtain ⟨lowest, hlowest⟩ := Option.isSome_iff_exists.mp
          (List.isSome_min?_of_ne_nil (hcells Candle.low fun _ hc => hc.low))
        rw [hfirst, hhighest, hlowest] at h
        cases hlast : (tailRows minRangeBars rows).getLast? with
        | none =>
            rw [hlast] at h
            cases h
        | some last =>
            rw [hlast] at h
            cases h
            intro r hr
            cases hr
            exact ⟨⟨_, rfl⟩, ⟨_, rfl⟩, ⟨_, rfl⟩⟩

end

/-- Level and strength of a pool are there. -/
structure WholePool (pool : SmcLiquidityPool K) : Prop where
  level : ∃ x, pool.level = some x
  strength : ∃ x, pool.strength = some x

theorem noNaN_plainPoolMeta (details : PoolMeta) :
    NoNaN (.obj (plainPoolMeta details : List (String × Json (Option K)))) := by
  cases details <;> simp [plainPoolMeta]

theorem noNaN_plainPool {pool : SmcLiquidityPool K} (h : WholePool pool) :
    NoNaN (plainPool pool) := by
  obtain ⟨⟨level, hlevel⟩, ⟨strength, hstrength⟩⟩ := h
  have hmeta : NoNaN (.obj (plainPoolMeta pool.details : List (String × Json (Option K)))) :=
    noNaN_plainPoolMeta pool.details
  unfold plainPool
  simp only [everyFloat_obj, List.forall_mem_cons] at hmeta ⊢
  simp only [hlevel, hstrength, everyFloat_arr, everyFloat_float, List.forall_mem_map]
  exact ⟨rfl, everyFloat_str _, rfl, everyFloat_int _, noNaN_optTime _, noNaN_optTime _,
    everyFloat_str _, fun swing _ => noNaN_plainSwing swing, hmeta, by simp⟩

theorem level_of_pricedPools {pools : List (SmcLiquidityPool K)} {ps : List (PricedPool K)}
    (h : pricedPools pools = some ps) :
    (∀ pool ∈ pools, ∃ x, pool.level = some x) ∧ ∀ p ∈ ps, p.toSmcLiquidityPool ∈ pools := by
  have hmap : pools.map priced = ps.map some := mapM_eq_some_iff.mp h
  constructor
  · intro pool hpool
    have hmem : priced pool ∈ ps.map some := by
      rw [← hmap]
      exact List.mem_map_of_mem hpool
    obtain ⟨p, -, hp⟩ := List.mem_map.mp hmem
    rw [← priced_eq_some hp.symm]
    exact ⟨p.price, p.level_eq⟩
  · intro p hp
    have hmem : some p ∈ pools.map priced := by
      rw [hmap]
      exact List.mem_map_of_mem hp
    obtain ⟨pool, hpool, hpriced⟩ := List.mem_map.mp hmem
    rw [priced_eq_some hpriced]
    exact hpool

section

variable [Field K] [LinearOrder K]

theorem noNaN_plainMagnet {cfg : SmcCoreConfig K} {ps : List (PricedPool K)} {bias : Bias}
    {symbol : String} {magnet : SmcLiquidityMagnet K}
    (h : magnet ∈ buildMagnetsFromPoolsAndRange cfg ps bias symbol)
    (hps : ∀ p ∈ ps, WholePool p.toSmcLiquidityPool) : NoNaN (plainMagnet magnet) := by
  obtain ⟨cluster, hcluster, hmagnet⟩ := List.mem_filterMap.mp h
  have hpools : ∀ p ∈ magnet.pools, NoNaN (plainPool p.toSmcLiquidityPool) := by
    intro p hp
    have hmem : p ∈ cluster := by
      unfold magnetOf at hmagnet
      split at hmagnet
      · cases hmagnet
      · cases hmagnet
        exact hp
    have hpool := mem_of_mem_clusterBy hcluster p hmem
    exact noNaN_plainPool (hps p ((mem_sortBy PricedPool.price).mp hpool))
  unfold plainMagnet
  simp only [everyFloat_obj, List.forall_mem_cons, everyFloat_arr, List.forall_mem_map]
  simpa using hpools

end

section

variable [Field K] [LinearOrder K]

/-- What is recorded so far has its numbers. -/
structure WholeSweeps (s : SweepState K) : Prop where
  events : ∀ e ∈ s.sfpEvents, (∃ x, e.level = some x) ∧ ∃ x, e.close = some x
  wicks : s.wickClusters.Every fun _ cluster => ∃ x, cluster.level = some x

theorem wholeSweeps_visitLevel {breakPct : K} {row : Candle K} {s : SweepState K}
    (level : LevelInfo K) (h : WholeSweeps s) : WholeSweeps (visitLevel breakPct row s level) := by
  obtain ⟨hevents, hwicks⟩ := h
  unfold visitLevel
  split_ifs with hsweep
  · refine ⟨fun e he => ?_, hwicks⟩
    rcases List.mem_append.mp he with he | he
    · exact hevents e he
    · obtain rfl := List.mem_singleton.mp he
      exact some_of_isSweep (Bool.and_eq_true_iff.mp hsweep).1
  · cases hwick : wickAt breakPct row level with
    | none => exact ⟨hevents, hwicks⟩
    | some wick =>
        refine ⟨hevents, OrderedDict.every_set hwicks ?_⟩
        dsimp only
        cases hfound : s.wickClusters.get? level.key with
        | none => exact some_of_wickAt hwick
        | some cluster => exact hwicks _ (OrderedDict.mem_items_of_get? hfound)

theorem wholeSweeps_visitRows (breakPct : K) (levels : List (LevelInfo K))
    (rows : List (Candle K)) : WholeSweeps (visitRows breakPct levels rows) := by
  refine visitRows_induct breakPct levels rows ?_ fun s hs row level _ => ?_
  · exact { events := fun e he => (by cases he), wicks := OrderedDict.every_empty _ }
  · exact wholeSweeps_visitLevel level hs

end

/-- The numbers of a zone are there. -/
structure WholeZone (z : ZoneItems K) : Prop where
  priceMin : ∃ x, z.priceMin = some x
  priceMax : ∃ x, z.priceMax = some x
  strength : ∃ x, z.strength = some x
  confidence : ∃ x, z.confidence = some x
  details : NoNaN (.obj z.details)

theorem noNaN_plainZoneItems {z : ZoneItems K} (h : WholeZone z) : NoNaN (plainZoneItems z) := by
  obtain ⟨⟨low, hlow⟩, ⟨high, hhigh⟩, ⟨strength, hstrength⟩, ⟨confidence, hconfidence⟩,
    hdetails⟩ := h
  unfold plainZoneItems
  simp only [everyFloat_obj, List.forall_mem_cons] at hdetails ⊢
  simp only [hlow, hhigh, hstrength, hconfidence, everyFloat_float]
  exact ⟨everyFloat_str _, rfl, rfl, everyFloat_str _, everyFloat_str _, everyFloat_str _,
    everyFloat_str _, rfl, rfl, by simp, everyFloat_str _, everyFloat_str _, everyFloat_str _,
    noNaN_optText _, noNaN_optText _, everyFloat_str _, everyFloat_str _, hdetails, by simp⟩

section

variable [Field K] [LinearOrder K]

omit [Field K] in
/-- The ends of a zone are ends of the body or of the row. -/
theorem zoneEnds_some (cfg : SmcCoreConfig K) (direction : Direction) {row : RawBar K}
    {low high : K} (hlow : row.low = some low) (hhigh : row.high = some high)
    (bodyLow bodyHigh : K) (bodyPct : Option K) : ∃ a b mode,
      zoneEnds cfg direction row (some bodyLow) (some bodyHigh) bodyPct = (some a, some b, mode) := by
  unfold zoneEnds
  split_ifs
  · exact ⟨_, _, _, rfl⟩
  · exact ⟨_, _, _, rfl⟩
  · rw [hlow, hhigh]
    cases direction with
    | long => exact ⟨_, _, _, rfl⟩
    | short => exact ⟨_, _, _, rfl⟩

/-- A block on a complete row has its numbers. -/
theorem wholeZone_orderBlock {lower : String → String} {cfg : SmcCoreConfig K}
    {snapshot : SmcInput K} {frame : List (RawBar K)} {utcnow : ℤ} {rowPos : ℕ}
    {direction : Direction} {leg : Leg K} {bias : Bias} {atr amplitude : K} {barCount : ℕ}
    {breakEvent : StructureEvent K} {zone : SmcZone K}
    (h : buildZoneFromRow lower cfg snapshot frame utcnow rowPos direction leg bias atr amplitude
      barCount breakEvent = some zone)
    (hframe : ∀ row ∈ frame, Complete row) : WholeZone (orderBlockItems zone) := by
  unfold buildZoneFromRow at h
  cases hrow : frame[rowPos]? with
  | none =>
      rw [hrow] at h
      cases h
  | some row =>
      obtain ⟨⟨opn, hopn⟩, ⟨high, hhigh⟩, ⟨low, hlow⟩, ⟨close, hclose⟩⟩ :=
        hframe row (List.mem_of_getElem? hrow)
      rw [hrow] at h
      simp only [hopn, hhigh, hlow, hclose, pyMax_some, pyMin_some, Option.map₂_some_some,
        Option.map_some] at h
      obtain ⟨a, b, mode, hends⟩ := zoneEnds_some cfg direction hlow hhigh
        (min opn close) (max opn close)
        (some ((max opn close - min opn close) / max (high - low) (ratio 1 1000000000)))
      rw [hends] at h
      split_ifs at h
      all_goals
        cases h
        constructor
      all_goals first
        | exact ⟨_, rfl⟩
        | simp [orderBlockItems]

variable [FloorRing K]

/-- A breaker of a block with bounds on a complete row has its numbers. -/
theorem wholeZone_breaker {cfg : SmcCoreConfig K} {lower : String → String} {snapshot : SmcInput K}
    {frame : List (RawBar K)} {rowIndex : ℕ} {direction : Direction} {ob : SmcZone K}
    {sweep : SweepEvent K} {bosEvent : StructureEvent K} {atr : Option K} {biasContext : Bias}
    {displacement : K} {zone : BreakerZone K}
    (h : buildBreakerZone cfg lower snapshot frame rowIndex direction ob sweep bosEvent atr
      biasContext displacement = some zone)
    (hframe : ∀ row ∈ frame, Complete row) (hob : WholeZone (orderBlockItems ob)) :
    WholeZone (breakerItems zone) := by
  obtain ⟨obLow, hobLow⟩ : ∃ x, ob.priceMin = some x := hob.priceMin
  obtain ⟨obHigh, hobHigh⟩ : ∃ x, ob.priceMax = some x := hob.priceMax
  unfold buildBreakerZone at h
  cases hrow : frame[rowIndex]? with
  | none =>
      rw [hrow] at h
      cases h
  | some row =>
      obtain ⟨⟨opn, hopn⟩, ⟨high, hhigh⟩, ⟨low, hlow⟩, ⟨close, hclose⟩⟩ :=
        hframe row (List.mem_of_getElem? hrow)
      rw [hrow] at h
      simp only [hopn, hhigh, hlow, hclose, hobLow, hobHigh, pyMax_some, pyMin_some,
        Option.map₂_some_some, Option.map_some] at h
      split at h
      · cases h
      · cases atr with
        | none =>
            simp only [Option.any_none, Bool.false_eq_true, if_false] at h
            split_ifs at h
            all_goals
              cases h
              constructor
            all_goals first
              | exact ⟨_, rfl⟩
              | simp [breakerItems, plainBreakerParams]
        | some atr =>
            split_ifs at h
            all_goals
              cases h
              constructor
            all_goals first
              | exact ⟨_, rfl⟩
              | simp [breakerItems, plainBreakerParams]

omit [Field K] [LinearOrder K] [FloorRing K] in
/-- A gap has its numbers anyway. -/
theorem wholeZone_imbalance (zone : ImbalanceZone K) : WholeZone (imbalanceItems zone) := by
  constructor
  all_goals first
    | exact ⟨_, rfl⟩
    | simp [imbalanceItems]

omit [FloorRing K] in
theorem wholeZone_of_mem_detectOrderBlocks {lower : String → String} {cfg : SmcCoreConfig K}
    {snapshot : SmcInput K} {st : SmcStructureState K} {utcnow : ℤ} {zone : SmcZone K}
    (h : zone ∈ detectOrderBlocks lower cfg snapshot st utcnow)
    (hframe : ∀ row ∈ snapshot.frame.getD [], Complete row) : WholeZone (orderBlockItems zone) := by
  obtain ⟨block, hblock, rfl⟩ := List.mem_map.mp h
  obtain ⟨frame, hsome, -, leg, -, hleg⟩ := mem_orderBlocks.mp hblock
  rw [hsome, Option.getD_some] at hframe
  obtain ⟨-, _, _, _, _, -, -, -, hzone⟩ := orderBlockOf_built hleg
  exact wholeZone_orderBlock hzone hframe

theorem wholeZone_of_mem_detectBreakers {cfg : SmcCoreConfig K} {lower : String → String}
    {snapshot : SmcInput K} {st : SmcStructureState K} {sfpEvents : List (SfpEntry K)}
    {orderblocks : List (SmcZone K)} {zone : BreakerZone K}
    (h : zone ∈ detectBreakers cfg lower snapshot st sfpEvents orderblocks)
    (hframe : ∀ row ∈ snapshot.frame.getD [], Complete row)
    (hblocks : ∀ ob ∈ orderblocks, WholeZone (orderBlockItems ob)) :
    WholeZone (breakerItems zone) := by
  obtain ⟨frame, hsome, ob, hob, hzone⟩ := BreakerSpec.mem_detectBreakers.mp h
  rw [hsome, Option.getD_some] at hframe
  obtain ⟨-, -, sweep, -, event, -, displacement, -, -, i, -, hbuilt⟩ :=
    BreakerSpec.breakerOf_eq_some_iff.mp hzone
  exact wholeZone_breaker hbuilt hframe (hblocks ob hob)

/-- All zones of a complete frame have their numbers. -/
theorem wholeZone_of_mem_zones (lower : String → String) (cfg : SmcCoreConfig K)
    {snapshot : ContextInput K} (st : RangedStructureState K) (entries : StructureMeta K)
    (liquidity : Option (SmcLiquidityState K)) (utcnow : ℤ)
    (hframe : ∀ row ∈ snapshot.frame.getD [], Complete row) :
    ∀ zone ∈ (computeZonesState lower cfg snapshot st entries liquidity utcnow).zones,
      WholeZone (zoneItems zone) := by
  unfold computeZonesState
  cases hsome : snapshot.frame with
  | none => intro zone hzone; cases hzone
  | some frame =>
      dsimp only
      by_cases hempty : frame.isEmpty = true
      · rw [if_pos hempty]
        intro zone hzone
        cases hzone
      · rw [if_neg hempty]
        have hblocks : ∀ ob ∈ detectOrderBlocks lower cfg snapshot.toSmcInput
            st.toSmcStructureState utcnow, WholeZone (orderBlockItems ob) :=
          fun ob hob => wholeZone_of_mem_detectOrderBlocks hob hframe
        intro zone hzone
        rcases List.mem_append.mp hzone with hzone | hzone
        · rcases List.mem_append.mp hzone with hzone | hzone
          · obtain ⟨ob, hob, rfl⟩ := List.mem_map.mp hzone
            exact hblocks ob hob
          · obtain ⟨breaker, hbreaker, rfl⟩ := List.mem_map.mp hzone
            exact wholeZone_of_mem_detectBreakers hbreaker hframe hblocks
        · obtain ⟨gap, -, rfl⟩ := List.mem_map.mp hzone
          exact wholeZone_imbalance gap

omit [FloorRing K] in
theorem mem_of_mem_selectActiveZones {cfg : SmcCoreConfig K} {zones : List (Zone K)}
    {lastClose atrLast : Option K} {zone : Zone K}
    (h : zone ∈ selectActiveZones cfg zones lastClose atrLast) : zone ∈ zones := by
  unfold selectActiveZones at h
  split at h
  · split_ifs at h
    · exact h
    · exact List.mem_of_mem_filter h
  · exact h

theorem mem_zones_of_mem_activeZones {lower : String → String} {cfg : SmcCoreConfig K}
    {snapshot : ContextInput K} {st : RangedStructureState K} {entries : StructureMeta K}
    {liquidity : Option (SmcLiquidityState K)} {utcnow : ℤ} {zone : Zone K}
    (h : zone ∈ (computeZonesState lower cfg snapshot st entries liquidity utcnow).activeZones) :
    zone ∈ (computeZonesState lower cfg snapshot st entries liquidity utcnow).zones := by
  unfold computeZonesState at h ⊢
  cases hsome : snapshot.frame with
  | none =>
      rw [hsome] at h
      cases h
  | some frame =>
      rw [hsome] at h
      dsimp only at h ⊢
      by_cases hempty : frame.isEmpty = true
      · rw [if_pos hempty] at h
        cases h
      · rw [if_neg hempty] at h ⊢
        exact mem_of_mem_selectActiveZones h

theorem wholeSweeps_detect (cfg : SmcCoreConfig K) (snapshot : ContextInput K)
    (st : RangedStructureState K) :
    (∀ event ∈ (detectSfpAndWicks cfg snapshot st).2.1, NoNaN (plainSfpEvent event)) ∧
      ∀ cluster ∈ (detectSfpAndWicks cfg snapshot st).2.2, NoNaN (plainWick cluster) := by
  unfold detectSfpAndWicks
  split_ifs
  · have hwhole := wholeSweeps_visitRows (breakPctOf cfg) (collectLevels st)
      (prepared cfg.maxLookbackBars snapshot.frame)
    constructor
    · intro event hevent
      obtain ⟨⟨level, hlevel⟩, ⟨close, hclose⟩⟩ := hwhole.events event hevent
      simp [plainSfpEvent, hlevel, hclose]
    · intro cluster hcluster
      obtain ⟨item, hitem, rfl⟩ := List.mem_map.mp hcluster
      obtain ⟨level, hlevel⟩ := hwhole.wicks item hitem
      simp [plainWick, hlevel]
  · simp

/-- Every pool has a strength. -/
theorem strength_of_mem_pools {cfg : SmcCoreConfig K} {snapshot : ContextInput K}
    {st : RangedStructureState K} (hrange : ∀ r ∈ st.activeRange, WholeRange r)
    {pool : SmcLiquidityPool K} (h : pool ∈ (AmdPhase.computeLiquidityState cfg snapshot st).pools) :
    ∃ x, pool.strength = some x := by
  change pool ∈ buildEqPoolsFromSwings cfg st ++ trendPools st ++ rangePools st ++
    sessionPools st snapshot ++ (detectSfpAndWicks cfg snapshot st).1 at h
  simp only [List.mem_append] at h
  rcases h with (((h | h) | h) | h) | h
  · unfold buildEqPoolsFromSwings clustersToPools at h
    rcases List.mem_append.mp h with h | h
    · obtain ⟨cluster, -, rfl⟩ := List.mem_map.mp h
      exact ⟨_, rfl⟩
    · obtain ⟨cluster, -, rfl⟩ := List.mem_map.mp h
      exact ⟨_, rfl⟩
  · unfold trendPools at h
    split at h
    · obtain ⟨swing, -, rfl⟩ := Option.map_eq_some_iff.mp (Option.mem_toList.mp h)
      exact ⟨_, rfl⟩
    · obtain ⟨swing, -, rfl⟩ := Option.map_eq_some_iff.mp (Option.mem_toList.mp h)
      exact ⟨_, rfl⟩
    · cases h
  · unfold rangePools at h
    cases hactive : st.activeRange with
    | none =>
        rw [hactive] at h
        cases h
    | some range =>
        obtain ⟨⟨high, hhigh⟩, ⟨low, hlow⟩, -⟩ := hrange range hactive
        rw [hactive] at h
        simp only [List.mem_cons, List.not_mem_nil, or_false] at h
        rcases h with rfl | rfl
        · exact ⟨high - low, by simp [rangePool, hhigh, hlow]⟩
        · exact ⟨high - low, by simp [rangePool, hhigh, hlow]⟩
  · unfold sessionPools at h
    rcases List.mem_append.mp h with h | h
    · obtain ⟨level, -, rfl⟩ := Option.map_eq_some_iff.mp (Option.mem_toList.mp h)
      exact ⟨_, rfl⟩
    · obtain ⟨level, -, rfl⟩ := Option.map_eq_some_iff.mp (Option.mem_toList.mp h)
      exact ⟨_, rfl⟩
  · unfold detectSfpAndWicks at h
    split_ifs at h
    · rcases List.mem_append.mp h with h | h
      · obtain ⟨event, -, rfl⟩ := List.mem_map.mp h
        exact ⟨_, rfl⟩
      · obtain ⟨cluster, -, rfl⟩ := List.mem_map.mp h
        exact ⟨_, rfl⟩
    · cases h

omit [Field K] [FloorRing K] in
/-- The largest of some distances is one of them, or the largest so far. -/
theorem isSome_foldl_pyMax {distance : Option K} {distances : List (Option K)}
    (h : distance.isSome = true) (hall : ∀ d ∈ distances, d.isSome = true) :
    (distances.foldl pyMax distance).isSome = true := by
  induction distances generalizing distance with
  | nil => exact h
  | cons d distances ih =>
      obtain ⟨hd, hdistances⟩ := List.forall_mem_cons.mp hall
      obtain ⟨x, rfl⟩ := Option.isSome_iff_exists.mp h
      obtain ⟨y, rfl⟩ := Option.isSome_iff_exists.mp hd
      exact ih (by rw [pyMax_some]; rfl) hdistances

omit [FloorRing K] in
theorem isSome_maxDistance {cfg : SmcCoreConfig K} {zones : List (Zone K)}
    {lastClose : Option (Option K)}
    {atrLast : Option K} (hzones : ∀ zone ∈ zones, WholeZone (zoneItems zone))
    (hclose : ∀ close ∈ lastClose, close.isSome = true) :
    ∀ d ∈ (distanceMeta cfg zones lastClose atrLast).maxDistance, d.isSome = true := by
  have hdistance : ∀ zone ∈ zones, ∀ price atr : K,
      (zoneDistanceAtr zone price atr).isSome = true := by
    intro zone hzone price atr
    have hlow : ∃ x, ZonesState.priceMin zone = some x := by
      cases zone <;> exact (hzones _ hzone).priceMin
    have hhigh : ∃ x, ZonesState.priceMax zone = some x := by
      cases zone <;> exact (hzones _ hzone).priceMax
    obtain ⟨low, hlow⟩ := hlow
    obtain ⟨high, hhigh⟩ := hhigh
    unfold zoneDistanceAtr
    rw [hlow, hhigh]
    rfl
  unfold distanceMeta
  split
  · rename_i threshold priceRef atr _
    obtain ⟨price, rfl⟩ := Option.isSome_iff_exists.mp (hclose priceRef rfl)
    split_ifs
    · intro d hd
      cases hd
    · intro d hd
      cases zones with
      | nil => cases hd
      | cons zone zones =>
          cases hd
          apply isSome_foldl_pyMax (hdistance zone List.mem_cons_self price atr)
          exact List.forall_mem_map.mpr fun z hz =>
            hdistance z (List.mem_cons_of_mem zone hz) price atr
  · intro d hd
    cases hd

omit [Field K] [LinearOrder K] [FloorRing K] in
theorem isSome_extractLastPrice {snapshot : ContextInput K}
    (hframe : ∀ row ∈ snapshot.frame.getD [], Complete row) :
    ∀ close ∈ extractLastPrice snapshot, close.isSome = true := by
  unfold extractLastPrice
  split_ifs
  · intro close hclose
    obtain ⟨row, hrow, rfl⟩ := Option.map_eq_some_iff.mp hclose
    obtain ⟨x, hx⟩ := (hframe row (List.mem_of_getLast? hrow)).close
    rw [hx]
    rfl
  · intro close hclose
    cases hclose

omit [Field K] [LinearOrder K] [FloorRing K] in
theorem noNaN_plainZones {cfg : SmcCoreConfig K} {st : SmcZonesState K} {distances : DistanceMeta K}
    (hzones : ∀ zone ∈ st.zones, WholeZone (zoneItems zone))
    (hactive : ∀ zone ∈ st.activeZones, zone ∈ st.zones)
    (hdistance : ∀ d ∈ distances.maxDistance, d.isSome = true) :
    NoNaN (plainZones cfg st distances) := by
  have hmax : NoNaN ((distances.maxDistance.map Json.float).getD .null) := by
    cases hmax : distances.maxDistance with
    | none => simp
    | some d => simpa using hdistance d hmax
  have hplain : ∀ zone ∈ st.zones, NoNaN (plainZone zone) := fun zone hzone =>
    noNaN_plainZoneItems (hzones zone hzone)
  unfold plainZones
  simp only [everyFloat_obj, List.forall_mem_cons, everyFloat_arr, List.forall_mem_map]
  refine ⟨hplain, fun zone hzone => hplain zone (hactive zone hzone), by simp, ?_, by simp⟩
  simp [zonesMeta, countOf, hmax]

/-- The hint of a complete frame has numbers only. -/
theorem noNaN_plainHint {lower : String → String} {cfg : SmcCoreConfig K} {snapshot : ContextInput K}
    {store : EventHistory.Store K} {utcnow : ℤ} {hint : SmcHint K}
    (h : processSnapshot lower cfg snapshot store utcnow = some hint)
    (hframe : ∀ row ∈ snapshot.frame.getD [], Complete row) : NoNaN (plainHint cfg hint) := by
  unfold processSnapshot at h
  obtain ⟨st, hst, h⟩ := Option.bind_eq_some_iff.mp h
  obtain ⟨pools, hpools, h⟩ := Option.bind_eq_some_iff.mp h
  cases h
  have hrange : ∀ r ∈ st.activeRange, WholeRange r :=
    wholeRange_of_detect (computeStructureState_eq_some hst).2 (complete_prepared hframe)
  have hzones := wholeZone_of_mem_zones lower cfg st (structureMeta cfg snapshot st)
    (some (AmdPhase.computeLiquidityState cfg snapshot st)) utcnow hframe
  have hprice := isSome_extractLastPrice hframe
  obtain ⟨hlevels, hpriced⟩ := level_of_pricedPools hpools
  have hwhole : ∀ pool ∈ (AmdPhase.computeLiquidityState cfg snapshot st).pools, WholePool pool :=
    fun pool hpool => ⟨hlevels pool hpool, strength_of_mem_pools hrange hpool⟩
  have hsweeps := wholeSweeps_detect cfg snapshot st
  have hliquidity : NoNaN (plainLiquidity
      { AmdPhase.computeLiquidityState cfg snapshot st with
        magnets := buildMagnetsFromPoolsAndRange cfg pools st.bias snapshot.symbol }) := by
    have hplain : ∀ pool ∈ (AmdPhase.computeLiquidityState cfg snapshot st).pools,
        NoNaN (plainPool pool) := fun pool hpool => noNaN_plainPool (hwhole pool hpool)
    have hmagnets : ∀ magnet ∈ buildMagnetsFromPoolsAndRange cfg pools st.bias snapshot.symbol,
        NoNaN (plainMagnet magnet) := fun magnet hmagnet =>
      noNaN_plainMagnet hmagnet fun p hp => hwhole _ (hpriced p hp)
    unfold plainLiquidity
    simp only [everyFloat_obj, List.forall_mem_cons, everyFloat_arr, List.forall_mem_map]
    exact ⟨hplain, hmagnets, everyFloat_str _, ⟨everyFloat_int _, everyFloat_str _,
      everyFloat_str _, everyFloat_int _, everyFloat_int _, everyFloat_str _, hsweeps.1, hsweeps.2,
      everyFloat_str _, by simp⟩, by simp⟩
  have hlast : ∀ field ∈ ((extractLastPrice snapshot).map fun price =>
      ("last_price", Json.float price)).toList, NoNaN field.2 := by
    intro field hfield
    obtain ⟨price, hsome, rfl⟩ := Option.map_eq_some_iff.mp (Option.mem_toList.mp hfield)
    simpa using hprice price hsome
  unfold plainHint toPlainSmcHint
  simp only [everyFloat_obj, List.forall_mem_cons]
  refine ⟨noNaN_plainStructure _ hrange, hliquidity, noNaN_plainZones hzones
    (fun zone => mem_zones_of_mem_activeZones) (isSome_maxDistance hzones hprice), by simp,
    ⟨everyFloat_str _, hlast⟩, by simp⟩

end

end SmcPipeline.FiniteHint
