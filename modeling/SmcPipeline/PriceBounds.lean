import SmcPipeline.FiniteHint
import SmcPipeline.Intervals

/-!
# The prices of a hint

Whatever the engine reports of a frame lies between any two bounds of its cells: swings and legs,
the range, the OTE zones, pools, magnets and the zones. Only the memory of events looks further
back, to the frames of the same symbol and timeframe.
-/

namespace SmcPipeline.PriceBounds

open Candles Swings StructureEngine OteZones OrderBlocks Breakers LiquidityPools Sweeps Ranges
  ZonesState Magnets SmcEngine EventHistory FiniteHint KeyedRows Intervals

variable {K : Type*}

section

variable [LinearOrder K]

structure RowWithin (lo hi : K) (row : RawBar K) : Prop where
  opn : Within lo hi row.opn
  high : Within lo hi row.high
  low : Within lo hi row.low
  close : Within lo hi row.close

structure CandleWithin (lo hi : K) (c : Candle K) : Prop where
  opn : Within lo hi c.opn
  high : Within lo hi c.high
  low : Within lo hi c.low
  close : Within lo hi c.close

structure LegWithin (lo hi : K) (leg : Leg K) : Prop where
  fromSwing : leg.fromSwing.price ∈ Set.Icc lo hi
  toSwing : leg.toSwing.price ∈ Set.Icc lo hi
  reference : Within lo hi leg.referencePrice

structure EventWithin (lo hi : K) (event : StructureEvent K) : Prop where
  priceLevel : event.priceLevel ∈ Set.Icc lo hi
  sourceLeg : LegWithin lo hi event.sourceLeg

variable {lo hi : K}

theorem within_prepared {maxBars : ℤ} {frame : Option (List (RawBar K))}
    (h : ∀ row ∈ frame.getD [], RowWithin lo hi row) :
    ∀ c ∈ prepared maxBars frame, CandleWithin lo hi c := by
  intro c hc
  cases frame with
  | none => cases hc
  | some frame =>
      obtain ⟨row, hrow, hcandle⟩ := mem_prepared hc
      obtain ⟨hopn, hhigh, hlow, hclose⟩ := h row hrow
      unfold toCandle at hcandle
      split at hcandle
      · cases hcandle
      · split_ifs at hcandle
        cases hcandle
        exact ⟨hopn, hhigh, hlow, hclose⟩

variable {rows : List (Candle K)} {minSeparation : ℤ}

theorem within_swing (hrows : ∀ c ∈ rows, CandleWithin lo hi c) {s : Swing K}
    (hs : s ∈ detectSwings rows minSeparation) : s.price ∈ Set.Icc lo hi := by
  obtain ⟨c, hc, hcell⟩ := cell_of_swing hs
  have hrow := hrows c (List.mem_of_getElem? hc)
  cases hkind : s.kind with
  | high =>
      rw [hkind] at hcell
      exact hrow.high s.price hcell
  | low =>
      rw [hkind] at hcell
      exact hrow.low s.price hcell

theorem within_leg {swings : List (Swing K)} (hswings : ∀ s ∈ swings, s.price ∈ Set.Icc lo hi)
    {leg : Leg K} (hleg : leg ∈ buildLegs swings) : LegWithin lo hi leg := by
  obtain ⟨pre, post, hsplit, hat⟩ := legAt_of_mem_buildLegs hleg
  have hpre : ∀ s ∈ pre, s.price ∈ Set.Icc lo hi := fun s hs =>
    hswings s (hsplit ▸ List.mem_append_left _ hs)
  refine ⟨hpre _ (List.mem_of_getLast? hat.from_last),
    hswings _ (toSwing_mem_of_mem_buildLegs hleg), fun p hp => ?_⟩
  rw [Option.mem_def, hat.reference] at hp
  obtain ⟨front, s, mid, rfl, -, rfl, -⟩ := lastOf_pricesOf hp
  exact hpre s (List.mem_append_right _ List.mem_cons_self)

end

section

variable [Field K] [LinearOrder K] {lo hi : K}

theorem within_event {cfg : SmcCoreConfig K} {legs : List (Leg K)} {rows : List (Candle K)}
    {atr : List (Option K)} (hlegs : ∀ leg ∈ legs, LegWithin lo hi leg) {event : StructureEvent K}
    (h : event ∈ detectEvents cfg legs rows atr) : EventWithin lo hi event := by
  obtain ⟨pre, leg, post, rfl, hleg⟩ := (mem_eventsFrom cfg).mp h
  obtain ⟨-, hsource, -, hlevel⟩ := legEvent_eq_some cfg hleg
  have hwithin := hlegs leg (List.mem_append_right _ List.mem_cons_self)
  exact ⟨hlevel ▸ hwithin.toSwing, hsource ▸ hwithin⟩

structure OteWithin (lo hi : K) (zone : OteZone K) : Prop where
  leg : LegWithin lo hi zone.leg
  oteMin : zone.oteMin ∈ Set.Icc lo hi
  oteMax : zone.oteMax ∈ Set.Icc lo hi

variable [IsStrictOrderedRing K]

/-- The ends of a zone are on the way back from the end of its leg to the start. -/
theorem within_buildZone {leg : Leg K} {fibMin fibMax : K} {zone : OteZone K}
    (hleg : LegWithin lo hi leg) (hmin : fibMin ∈ Set.Icc 0 1) (hmax : fibMax ∈ Set.Icc 0 1)
    (h : buildZone leg fibMin fibMax = some zone) : OteWithin lo hi zone := by
  have hback : ∀ t ∈ Set.Icc (0 : K) 1,
      leg.toSwing.price - (leg.toSwing.price - leg.fromSwing.price) * t ∈ Set.Icc lo hi := by
    intro t ht
    have hpart := part_mem hleg.toSwing hleg.fromSwing ht.1 ht.2
    rwa [show leg.toSwing.price + (leg.fromSwing.price - leg.toSwing.price) * t =
      leg.toSwing.price - (leg.toSwing.price - leg.fromSwing.price) * t by ring] at hpart
  unfold buildZone at h
  dsimp only at h
  split_ifs at h with hsmall hpos hsame
  · cases h
    exact ⟨hleg, min_mem (hback _ hmax) (hback _ hmin), max_mem (hback _ hmax) (hback _ hmin)⟩
  · cases h
    have habs : |leg.toSwing.price - leg.fromSwing.price| =
        -(leg.toSwing.price - leg.fromSwing.price) := abs_of_nonpos (not_lt.mp hpos)
    have hends : ∀ t ∈ Set.Icc (0 : K) 1, leg.toSwing.price +
        |leg.toSwing.price - leg.fromSwing.price| * t ∈ Set.Icc lo hi := by
      intro t ht
      rw [habs, neg_mul, ← sub_eq_add_neg]
      exact hback t ht
    exact ⟨hleg, min_mem (hends _ hmin) (hends _ hmax), max_mem (hends _ hmin) (hends _ hmax)⟩

theorem within_oteZone {cfg : SmcCoreConfig K} {legs : List (Leg K)} {trend : SmcTrend}
    {atr : List (Option K)} {bias : Option Bias} {lastChoch : Option ℤ} {zone : OteZone K}
    (hlegs : ∀ leg ∈ legs, LegWithin lo hi leg) (hmin : cfg.oteMin ∈ Set.Icc 0 1)
    (hmax : cfg.oteMax ∈ Set.Icc 0 1) (h : zone ∈ buildOteZones cfg legs trend atr bias lastChoch) :
    OteWithin lo hi zone := by
  obtain ⟨leg, hleg, hzone⟩ := exists_leg_of_mem cfg h
  obtain ⟨-, built, hbuilt, rfl⟩ := zoneOf_eq_some cfg hzone
  have hwithin := within_buildZone (hlegs leg hleg) hmin hmax hbuilt
  exact ⟨hwithin.leg, hwithin.oteMin, hwithin.oteMax⟩

structure RangeWithin (lo hi : K) (r : SmcRange K) : Prop where
  high : Within lo hi r.high
  low : Within lo hi r.low
  eqLevel : Within lo hi r.eqLevel

theorem within_range {hasHighLow hasClose : Bool} {rows : List (Candle K)} {minRangeBars : ℤ}
    {tolerancePct : K} {range : Option (SmcRange K)} {state : SmcRangeState}
    (hrows : ∀ c ∈ rows, CandleWithin lo hi c)
    (h : detectActiveRange hasHighLow hasClose rows minRangeBars tolerancePct =
      some (range, state)) : ∀ r ∈ range, RangeWithin lo hi r := by
  unfold detectActiveRange at h
  by_cases hshort : rows = [] ∨ rows.length < minRangeBars ∨ hasHighLow = false
  · rw [if_pos hshort] at h
    cases h
    intro r hr
    cases hr
  · rw [if_neg hshort] at h
    dsimp only at h
    split at h
    · cases h
      intro r hr
      cases hr
      have hhighest : Within lo hi
          (((tailRows minRangeBars rows).map Candle.high).filterMap id).max? := by
        apply within_max?
        apply mem_of_within
        exact List.forall_mem_map.mpr fun c hc => (hrows c (mem_tailRows hc)).high
      have hlowest : Within lo hi
          (((tailRows minRangeBars rows).map Candle.low).filterMap id).min? := by
        apply within_min?
        apply mem_of_within
        exact List.forall_mem_map.mpr fun c hc => (hrows c (mem_tailRows hc)).low
      refine ⟨hhighest, hlowest, ?_⟩
      intro eqLevel heq
      dsimp only at heq
      obtain ⟨low, width, hlow, hwidth, rfl⟩ := Option.mem_map₂_iff.mp heq
      obtain ⟨high, low', hhigh, hlow', rfl⟩ := Option.mem_map₂_iff.mp hwidth
      obtain rfl : low' = low := Option.some.inj (hlow'.symm.trans hlow)
      have hhalf := part_mem (hlowest _ hlow) (hhighest _ hhigh) (t := (1 : K) / (2 : ℕ))
        (by positivity) (by norm_num)
      rwa [mul_one_div] at hhalf
    · cases h

end

section

variable [Field K] [LinearOrder K] {lo hi : K}

structure PoolWithin (lo hi : K) (pool : SmcLiquidityPool K) : Prop where
  level : Within lo hi pool.level
  sourceSwings : ∀ s ∈ pool.sourceSwings, s.price ∈ Set.Icc lo hi

structure SfpWithin (lo hi : K) (event : SfpEvent K) : Prop where
  level : Within lo hi event.level
  close : Within lo hi event.close

structure SweepsWithin (lo hi : K) (s : SweepState K) : Prop where
  events : ∀ event ∈ s.sfpEvents, SfpWithin lo hi event
  wicks : s.wickClusters.Every fun _ cluster => Within lo hi cluster.level

theorem within_visitLevel {breakPct : K} {row : Candle K} {s : SweepState K} {level : LevelInfo K}
    (hrow : CandleWithin lo hi row) (hlevel : Within lo hi level.level)
    (hs : SweepsWithin lo hi s) : SweepsWithin lo hi (visitLevel breakPct row s level) := by
  obtain ⟨hevents, hwicks⟩ := hs
  unfold visitLevel
  split_ifs
  · refine ⟨fun event hevent => ?_, hwicks⟩
    rcases List.mem_append.mp hevent with hevent | hevent
    · exact hevents event hevent
    · obtain rfl := List.mem_singleton.mp hevent
      exact ⟨hlevel, hrow.close⟩
  · cases wickAt breakPct row level with
    | none => exact ⟨hevents, hwicks⟩
    | some wick =>
        refine ⟨hevents, OrderedDict.every_set hwicks ?_⟩
        dsimp only
        cases hfound : s.wickClusters.get? level.key with
        | none => exact hlevel
        | some cluster => exact hwicks _ (OrderedDict.mem_items_of_get? hfound)

theorem within_visitRows {breakPct : K} {levels : List (LevelInfo K)} {rows : List (Candle K)}
    (hrows : ∀ c ∈ rows, CandleWithin lo hi c) (hlevels : ∀ l ∈ levels, Within lo hi l.level) :
    SweepsWithin lo hi (visitRows breakPct levels rows) := by
  have hstart : SweepsWithin lo hi (SweepState.start : SweepState K) :=
    ⟨fun _ hevent => absurd hevent List.not_mem_nil, OrderedDict.every_empty _⟩
  refine List.foldlRecOn rows _ hstart fun s hs row hrow => ?_
  exact List.foldlRecOn levels _ hs fun s hs level hlevel =>
    within_visitLevel (hrows row hrow) (hlevels level hlevel) hs

/-- What the structure of a frame says of prices. -/
structure StructureWithin (lo hi : K) (st : RangedStructureState K) : Prop where
  swings : ∀ s ∈ st.swings, s.price ∈ Set.Icc lo hi
  legs : ∀ leg ∈ st.legs, LegWithin lo hi leg
  events : ∀ event ∈ st.events, EventWithin lo hi event
  history : ∀ event ∈ st.eventHistory, EventWithin lo hi event
  oteZones : ∀ zone ∈ st.oteZones, OteWithin lo hi zone
  range : ∀ r ∈ st.activeRange, RangeWithin lo hi r

variable [FloorRing K]

theorem within_collectLevels {st : RangedStructureState K} (hst : StructureWithin lo hi st) :
    ∀ l ∈ collectLevels st, Within lo hi l.level := by
  intro l hl
  have hmem := (keepFirst_sublist LevelInfo.key _).subset hl
  rcases List.mem_append.mp hmem with hmem | hmem
  · obtain ⟨s, hs, rfl⟩ := List.mem_map.mp hmem
    exact within_some.mpr (hst.swings s hs)
  · cases hactive : st.activeRange with
    | none =>
        rw [hactive] at hmem
        cases hmem
    | some range =>
        obtain ⟨hhigh, hlow, -⟩ := hst.range range hactive
        rw [hactive] at hmem
        simp only [List.mem_cons, List.not_mem_nil, or_false] at hmem
        rcases hmem with rfl | rfl
        · exact hhigh
        · exact hlow

/-- The snapshot's frame and the levels of its context. -/
structure SnapshotWithin (lo hi : K) (snapshot : ContextInput K) : Prop where
  rows : ∀ row ∈ snapshot.frame.getD [], RowWithin lo hi row
  pdl : ∀ level ∈ snapshot.pdl, Within lo hi level
  pdh : ∀ level ∈ snapshot.pdh, Within lo hi level

variable {cfg : SmcCoreConfig K} {snapshot : ContextInput K} {st : RangedStructureState K}

theorem within_sweeps (cfg : SmcCoreConfig K) (hsnapshot : SnapshotWithin lo hi snapshot)
    (hst : StructureWithin lo hi st) :
    (∀ pool ∈ (detectSfpAndWicks cfg snapshot st).1, PoolWithin lo hi pool) ∧
      (∀ event ∈ (detectSfpAndWicks cfg snapshot st).2.1, SfpWithin lo hi event) ∧
        ∀ cluster ∈ (detectSfpAndWicks cfg snapshot st).2.2, Within lo hi cluster.level := by
  unfold detectSfpAndWicks
  split_ifs
  · have hfound : SweepsWithin lo hi (visitRows (breakPctOf cfg) (collectLevels st)
        (prepared cfg.maxLookbackBars snapshot.frame)) :=
      within_visitRows (within_prepared hsnapshot.rows) (within_collectLevels hst)
    have hwicks : ∀ cluster ∈ (visitRows (breakPctOf cfg) (collectLevels st)
        (prepared cfg.maxLookbackBars snapshot.frame)).wickClusters.items.map Prod.snd,
        Within lo hi cluster.level :=
      List.forall_mem_map.mpr fun item hitem => hfound.wicks item hitem
    refine ⟨fun pool hpool => ?_, hfound.events, hwicks⟩
    rcases List.mem_append.mp hpool with hpool | hpool
    · obtain ⟨event, hevent, rfl⟩ := List.mem_map.mp hpool
      exact ⟨(hfound.events event hevent).level, fun s hs => by cases hs⟩
    · obtain ⟨cluster, hcluster, rfl⟩ := List.mem_map.mp hpool
      exact ⟨hwicks cluster hcluster, fun s hs => by cases hs⟩
  · exact ⟨by simp, by simp, by simp⟩

variable [IsStrictOrderedRing K]

omit [FloorRing K] in
theorem within_clusters {swings : List (Swing K)} {tolerancePct : K} {liqType : SmcLiquidityType}
    {bias : Bias} (hswings : ∀ s ∈ swings, s.price ∈ Set.Icc lo hi) :
    ∀ pool ∈ clustersToPools swings tolerancePct liqType bias, PoolWithin lo hi pool := by
  intro pool hpool
  obtain ⟨cluster, hcluster, rfl⟩ := List.mem_map.mp hpool
  obtain ⟨hcluster, hsize⟩ := List.mem_filter.mp hcluster
  have hmem : ∀ s ∈ cluster, s.price ∈ Set.Icc lo hi := fun s hs =>
    hswings s (mem_of_mem_clusterBy hcluster s hs)
  refine ⟨within_some.mpr ?_, hmem⟩
  apply mean_mem
  · intro hnil
    rw [List.map_eq_nil_iff.mp hnil] at hsize
    cases hsize
  · exact List.forall_mem_map.mpr hmem

theorem within_pools (cfg : SmcCoreConfig K) (hsnapshot : SnapshotWithin lo hi snapshot)
    (hst : StructureWithin lo hi st) :
    ∀ pool ∈ (AmdPhase.computeLiquidityState cfg snapshot st).pools, PoolWithin lo hi pool := by
  intro pool hpool
  change pool ∈ buildEqPoolsFromSwings cfg st ++ trendPools st ++ rangePools st ++
    sessionPools st snapshot ++ (detectSfpAndWicks cfg snapshot st).1 at hpool
  simp only [List.mem_append] at hpool
  rcases hpool with (((hpool | hpool) | hpool) | hpool) | hpool
  · have hfilter : ∀ kind : SwingKind, ∀ s ∈ st.swings.filter fun s => decide (s.kind = kind),
        s.price ∈ Set.Icc lo hi := fun kind s hs => hst.swings s (List.mem_of_mem_filter hs)
    rcases List.mem_append.mp hpool with hpool | hpool
    · exact within_clusters (hfilter .high) pool hpool
    · exact within_clusters (hfilter .low) pool hpool
  · obtain ⟨-, -, swing, hswing, hsource, hlevel⟩ := mem_trendPools hpool
    refine ⟨hlevel ▸ within_some.mpr (hst.swings swing hswing), ?_⟩
    rw [hsource]
    exact List.forall_mem_singleton.mpr (hst.swings swing hswing)
  · unfold rangePools at hpool
    cases hactive : st.activeRange with
    | none =>
        rw [hactive] at hpool
        cases hpool
    | some range =>
        obtain ⟨hhigh, hlow, -⟩ := hst.range range hactive
        rw [hactive] at hpool
        simp only [List.mem_cons, List.not_mem_nil, or_false] at hpool
        rcases hpool with rfl | rfl
        · exact ⟨hlow, fun s hs => by cases hs⟩
        · exact ⟨hhigh, fun s hs => by cases hs⟩
  · rcases List.mem_append.mp hpool with hpool | hpool
    · obtain ⟨level, hlevel, rfl⟩ := Option.map_eq_some_iff.mp (Option.mem_toList.mp hpool)
      exact ⟨hsnapshot.pdl level hlevel, fun s hs => by cases hs⟩
    · obtain ⟨level, hlevel, rfl⟩ := Option.map_eq_some_iff.mp (Option.mem_toList.mp hpool)
      exact ⟨hsnapshot.pdh level hlevel, fun s hs => by cases hs⟩
  · exact (within_sweeps cfg hsnapshot hst).1 pool hpool

structure MagnetWithin (lo hi : K) (magnet : SmcLiquidityMagnet K) : Prop where
  priceMin : magnet.priceMin ∈ Set.Icc lo hi
  priceMax : magnet.priceMax ∈ Set.Icc lo hi
  center : magnet.center ∈ Set.Icc lo hi
  pools : ∀ p ∈ magnet.pools, p.price ∈ Set.Icc lo hi

omit [FloorRing K] in
theorem within_magnet {pools : List (PricedPool K)} {bias : Bias} {symbol : String}
    {magnet : SmcLiquidityMagnet K} (hpools : ∀ p ∈ pools, p.price ∈ Set.Icc lo hi)
    (h : magnet ∈ buildMagnetsFromPoolsAndRange cfg pools bias symbol) :
    MagnetWithin lo hi magnet := by
  obtain ⟨cluster, hcluster, hmagnet⟩ := List.mem_filterMap.mp h
  have hmem : ∀ p ∈ cluster, p.price ∈ Set.Icc lo hi := fun p hp =>
    hpools p ((mem_sortBy PricedPool.price).mp (mem_of_mem_clusterBy hcluster p hp))
  cases cluster with
  | nil => cases hmagnet
  | cons first rest =>
      cases hmagnet
      obtain ⟨hfirst, hrest⟩ := List.forall_mem_cons.mp hmem
      have hprices : ∀ a ∈ rest.map PricedPool.price, a ∈ Set.Icc lo hi :=
        List.forall_mem_map.mpr hrest
      refine ⟨foldl_mem (fun a ha b hb => min_mem ha hb) hfirst hprices,
        foldl_mem (fun a ha b hb => max_mem ha hb) hfirst hprices, ?_, hmem⟩
      exact mean_mem (by simp) (List.forall_mem_map.mpr hmem)

end

section

variable [LinearOrder K] {lo hi : K}

theorem within_pyMax {a b : Option K} (ha : Within lo hi a) (hb : Within lo hi b) :
    Within lo hi (pyMax a b) := by
  unfold pyMax
  split_ifs
  · exact hb
  · exact ha

theorem within_pyMin {a b : Option K} (ha : Within lo hi a) (hb : Within lo hi b) :
    Within lo hi (pyMin a b) := by
  unfold pyMin
  split_ifs
  · exact hb
  · exact ha

/-- Both ends of a zone. -/
def EndsWithin (lo hi : K) (low high : Option K) : Prop := Within lo hi low ∧ Within lo hi high

/-- The smaller and the larger one of two values. -/
theorem ends_of_within {a b : Option K} (ha : Within lo hi a) (hb : Within lo hi b) :
    EndsWithin lo hi (pyMin a b) (pyMax a b) := ⟨within_pyMin ha hb, within_pyMax ha hb⟩

theorem within_zoneEnds {cfg : SmcCoreConfig K} {direction : Direction} {row : RawBar K}
    {bodyPct : Option K} (hrow : RowWithin lo hi row) :
    Within lo hi (zoneEnds cfg direction row (pyMin row.opn row.close) (pyMax row.opn row.close)
        bodyPct).1 ∧
      Within lo hi (zoneEnds cfg direction row (pyMin row.opn row.close) (pyMax row.opn row.close)
        bodyPct).2.1 := by
  have hbody := ends_of_within hrow.opn hrow.close
  unfold zoneEnds
  split_ifs
  · exact hbody
  · exact hbody
  · cases direction <;> exact ⟨hrow.low, hrow.high⟩

variable [Field K]

theorem within_orderBlock {lower : String → String} {cfg : SmcCoreConfig K}
    {snapshot : SmcInput K} {frame : List (RawBar K)} {utcnow : ℤ} {rowPos : ℕ}
    {direction : Direction} {leg : Leg K} {bias : Bias} {atr amplitude : K} {barCount : ℕ}
    {breakEvent : StructureEvent K} {zone : SmcZone K} (hframe : ∀ row ∈ frame, RowWithin lo hi row)
    (h : buildZoneFromRow lower cfg snapshot frame utcnow rowPos direction leg bias atr amplitude
      barCount breakEvent = some zone) : EndsWithin lo hi zone.priceMin zone.priceMax := by
  unfold buildZoneFromRow at h
  cases hrow : frame[rowPos]? with
  | none =>
      rw [hrow] at h
      cases h
  | some row =>
      have hwithin := hframe row (List.mem_of_getElem? hrow)
      rw [hrow] at h
      dsimp only at h
      split_ifs at h
      all_goals
        cases h
        exact ends_of_within (within_zoneEnds hwithin).1 (within_zoneEnds hwithin).2

variable [FloorRing K]

theorem within_breaker {cfg : SmcCoreConfig K} {lower : String → String} {snapshot : SmcInput K}
    {frame : List (RawBar K)} {rowIndex : ℕ} {direction : Direction} {ob : SmcZone K}
    {sweep : SweepEvent K} {bosEvent : StructureEvent K} {atr : Option K} {biasContext : Bias}
    {displacement : K} {zone : BreakerZone K} (hframe : ∀ row ∈ frame, RowWithin lo hi row)
    (h : buildBreakerZone cfg lower snapshot frame rowIndex direction ob sweep bosEvent atr
      biasContext displacement = some zone) : EndsWithin lo hi zone.priceMin zone.priceMax := by
  unfold buildBreakerZone at h
  cases hrow : frame[rowIndex]? with
  | none =>
      rw [hrow] at h
      cases h
  | some row =>
      have hwithin := hframe row (List.mem_of_getElem? hrow)
      have hbody := ends_of_within hwithin.opn hwithin.close
      rw [hrow] at h
      dsimp only at h
      split at h
      · cases h
      · split_ifs at h
        all_goals
          cases h
        all_goals first
          | exact ends_of_within hbody.1 hbody.2
          | exact ends_of_within hwithin.low hwithin.high

/-- A block among the zones is one of the detector's. -/
theorem mem_orderBlocks_of_mem_zones {lower : String → String} {cfg : SmcCoreConfig K}
    {snapshot : ContextInput K} {st : RangedStructureState K} {entries : StructureMeta K}
    {liquidity : Option (SmcLiquidityState K)} {utcnow : ℤ} {z : SmcZone K}
    (h : .orderBlock z ∈
      (computeZonesState lower cfg snapshot st entries liquidity utcnow).zones) :
    z ∈ detectOrderBlocks lower cfg snapshot.toSmcInput st.toSmcStructureState utcnow := by
  unfold computeZonesState at h
  split at h
  · cases h
  · rename_i frame _
    by_cases hempty : frame.isEmpty = true
    · rw [if_pos hempty] at h
      cases h
    · rw [if_neg hempty] at h
      simpa using h

theorem mem_detectBreakers_of_mem_zones {lower : String → String} {cfg : SmcCoreConfig K}
    {snapshot : ContextInput K} {st : RangedStructureState K} {entries : StructureMeta K}
    {liquidity : Option (SmcLiquidityState K)} {utcnow : ℤ} {z : BreakerZone K}
    (h : .breaker z ∈
      (computeZonesState lower cfg snapshot st entries liquidity utcnow).zones) :
    ∃ sfpEvents orderblocks, z ∈ detectBreakers cfg lower snapshot.toSmcInput
      st.toSmcStructureState sfpEvents orderblocks := by
  unfold computeZonesState at h
  split at h
  · cases h
  · rename_i frame _
    by_cases hempty : frame.isEmpty = true
    · rw [if_pos hempty] at h
      cases h
    · rw [if_neg hempty] at h
      exact ⟨_, _, by simpa using h⟩

/-- The zones of a snapshot; no gap is among them. -/
theorem within_zones (lower : String → String) (cfg : SmcCoreConfig K) {snapshot : ContextInput K}
    (st : RangedStructureState K) (liquidity : Option (SmcLiquidityState K)) (utcnow : ℤ)
    (hframe : ∀ row ∈ snapshot.frame.getD [], RowWithin lo hi row) :
    ∀ zone ∈ (computeZonesState lower cfg snapshot st
        (FairValueGaps.structureMeta cfg snapshot st) liquidity utcnow).zones,
      EndsWithin lo hi (ZonesState.priceMin zone) (ZonesState.priceMax zone) := by
  intro zone h
  cases zone with
  | imbalance z =>
      have hmem : z ∈ imbalances (computeZonesState lower cfg snapshot st
          (FairValueGaps.structureMeta cfg snapshot st) liquidity utcnow).zones :=
        List.mem_filterMap.mpr ⟨.imbalance z, h, rfl⟩
      rw [imbalances_structureMeta] at hmem
      cases hmem
  | orderBlock z =>
      obtain ⟨block, hblock, rfl⟩ := List.mem_map.mp (mem_orderBlocks_of_mem_zones h)
      obtain ⟨frame, hsome, -, leg, -, hleg⟩ := mem_orderBlocks.mp hblock
      obtain ⟨-, _, _, _, _, -, -, -, hzone⟩ := orderBlockOf_built hleg
      have hsome' : snapshot.frame = some frame := hsome
      rw [hsome', Option.getD_some] at hframe
      exact within_orderBlock hframe hzone
  | breaker z =>
      obtain ⟨entries, obs, hmem⟩ := mem_detectBreakers_of_mem_zones h
      obtain ⟨frame, hsome, ob, hob, hzone⟩ := BreakerSpec.mem_detectBreakers.mp hmem
      obtain ⟨-, -, sweep, -, event, -, displacement, -, -, i, -, hbuilt⟩ :=
        BreakerSpec.breakerOf_eq_some_iff.mp hzone
      have hsome' : snapshot.frame = some frame := hsome
      rw [hsome', Option.getD_some] at hframe
      exact within_breaker hframe hbuilt

end

section

variable [Field K] [LinearOrder K] [FloorRing K]

/-- The memory of events after the engine has seen a snapshot, at some time. -/
def remember (lower : String → String) (cfg : SmcCoreConfig K) (store : Store K)
    (input : ContextInput K × ℤ) : Store K :=
  (Snapshots.computeStructureState lower cfg input.1.symbol input.1.tfPrimary store input.1.frame
    input.2).2

/-- The key of a snapshot's events. -/
def keyOf (lower : String → String) (snapshot : ContextInput K) : String × String :=
  storeKey lower snapshot.symbol snapshot.tfPrimary

/-- The events under each key lie within its bounds. -/
def StoreWithin (lo hi : String × String → K) (store : Store K) : Prop :=
  store.Every fun key bucket => ∀ event ∈ bucket.events, EventWithin (lo key) (hi key) event

/-- What a hint says of prices. -/
structure HintWithin (lo hi : K) (hint : SmcHint K) : Prop where
  state : StructureWithin lo hi hint.state
  pools : ∀ pool ∈ hint.liquidity.pools, PoolWithin lo hi pool
  magnets : ∀ magnet ∈ hint.liquidity.magnets, MagnetWithin lo hi magnet
  sfpEvents : ∀ event ∈ hint.liquidity.sfpEvents, SfpWithin lo hi event
  wickClusters : ∀ cluster ∈ hint.liquidity.wickClusters, Within lo hi cluster.level
  zones : ∀ zone ∈ hint.zones.zones,
    EndsWithin lo hi (ZonesState.priceMin zone) (ZonesState.priceMax zone)
  activeZones : ∀ zone ∈ hint.zones.activeZones, zone ∈ hint.zones.zones
  lastPrice : ∀ price ∈ hint.lastPrice, Within lo hi price

variable {lower : String → String} {cfg : SmcCoreConfig K} {store : Store K} {utcnow : ℤ}

omit [FloorRing K] in
/-- The structure of a frame, without the memory. -/
theorem within_computed (cfg : SmcCoreConfig K) {a b : K} {df : Option (List (RawBar K))}
    (hframe : ∀ row ∈ df.getD [], RowWithin a b row) :
    (∀ s ∈ (StructureState.compute cfg df).swings, s.price ∈ Set.Icc a b) ∧
      (∀ leg ∈ (StructureState.compute cfg df).legs, LegWithin a b leg) ∧
        ∀ event ∈ (StructureState.compute cfg df).events, EventWithin a b event := by
  have hswings : ∀ s ∈ (StructureState.compute cfg df).swings, s.price ∈ Set.Icc a b :=
    fun s hs => within_swing (within_prepared hframe) hs
  have hlegs : ∀ leg ∈ (StructureState.compute cfg df).legs, LegWithin a b leg :=
    fun leg hleg => within_leg hswings hleg
  exact ⟨hswings, hlegs, fun event hevent => within_event hlegs hevent⟩

/-- The memory of one key with the events of a frame. -/
theorem within_history (utcnow : ℤ) {a b : K} {df : Option (List (RawBar K))}
    {symbol timeframe : String}
    (hframe : ∀ row ∈ df.getD [], RowWithin a b row)
    (hbucket : ∀ event ∈ (bucketOf lower store symbol timeframe).events, EventWithin a b event) :
    ∀ event ∈ (Snapshots.computeStructureState lower cfg symbol timeframe store df
      utcnow).1.eventHistory, EventWithin a b event := by
  intro event hevent
  rcases Bucket.mem_events_update hevent with hnew | ⟨-, hold⟩
  · exact (within_computed cfg hframe).2.2 event hnew
  · exact hbucket event hold

variable {lo hi : String × String → K}

theorem within_bucket (lower : String → String) (hstore : StoreWithin lo hi store)
    (symbol timeframe : String) :
    ∀ event ∈ (bucketOf lower store symbol timeframe).events,
      EventWithin (lo (storeKey lower symbol timeframe)) (hi (storeKey lower symbol timeframe))
        event := by
  unfold bucketOf
  cases hbucket : store.get? (storeKey lower symbol timeframe) with
  | none => exact fun event hevent => absurd hevent List.not_mem_nil
  | some bucket => exact hstore _ (OrderedDict.mem_items_of_get? hbucket)

theorem within_remember {input : ContextInput K × ℤ} (hstore : StoreWithin lo hi store)
    (hinput : SnapshotWithin (lo (keyOf lower input.1)) (hi (keyOf lower input.1)) input.1) :
    StoreWithin lo hi (remember lower cfg store input) :=
  OrderedDict.every_set hstore
    (within_history input.2 hinput.rows (within_bucket lower hstore _ _))

/-- The memory after any snapshots, each within the bounds of its key. -/
theorem within_memory (cfg : SmcCoreConfig K) {inputs : List (ContextInput K × ℤ)}
    (hinputs : ∀ input ∈ inputs,
      SnapshotWithin (lo (keyOf lower input.1)) (hi (keyOf lower input.1)) input.1) :
    StoreWithin lo hi (inputs.foldl (remember lower cfg) OrderedDict.empty) := by
  refine List.foldlRecOn inputs _ (OrderedDict.every_empty _) fun store hstore input hinput => ?_
  exact within_remember hstore (hinputs input hinput)

variable [IsStrictOrderedRing K]

theorem within_structure {a b : K} {snapshot : ContextInput K} {st : RangedStructureState K}
    (hsnapshot : SnapshotWithin a b snapshot)
    (hbucket : ∀ event ∈ (bucketOf lower store snapshot.symbol snapshot.tfPrimary).events,
      EventWithin a b event)
    (hmin : cfg.oteMin ∈ Set.Icc 0 1) (hmax : cfg.oteMax ∈ Set.Icc 0 1)
    (h : computeStructureState lower cfg snapshot store utcnow = some st) :
    StructureWithin a b st := by
  obtain ⟨hstate, hrange⟩ := computeStructureState_eq_some h
  obtain ⟨hswings, hlegs, hevents⟩ := within_computed cfg hsnapshot.rows
  constructor
  · rw [hstate]
    exact hswings
  · rw [hstate]
    exact hlegs
  · rw [hstate]
    exact hevents
  · rw [hstate]
    exact within_history utcnow hsnapshot.rows hbucket
  · rw [hstate]
    exact fun zone hzone => within_oteZone hlegs hmin hmax hzone
  · exact within_range (within_prepared hsnapshot.rows) hrange

omit [Field K] [FloorRing K] [IsStrictOrderedRing K] in
theorem within_priced {a b : K} {pools : List (SmcLiquidityPool K)} {ps : List (PricedPool K)}
    (h : pricedPools pools = some ps) (hpools : ∀ pool ∈ pools, PoolWithin a b pool) :
    ∀ p ∈ ps, p.price ∈ Set.Icc a b := by
  intro p hp
  exact (hpools _ ((level_of_pricedPools h).2 p hp)).level p.price p.level_eq

omit [Field K] [FloorRing K] [IsStrictOrderedRing K] in
theorem within_lastPrice {a b : K} {snapshot : ContextInput K}
    (hframe : ∀ row ∈ snapshot.frame.getD [], RowWithin a b row) :
    ∀ price ∈ extractLastPrice snapshot, Within a b price := by
  intro price hprice
  unfold extractLastPrice at hprice
  split_ifs at hprice
  · obtain ⟨row, hrow, rfl⟩ := Option.map_eq_some_iff.mp hprice
    exact (hframe row (List.mem_of_getLast? hrow)).close
  · cases hprice

theorem within_hint {a b : K} {snapshot : ContextInput K} {hint : SmcHint K}
    (hsnapshot : SnapshotWithin a b snapshot)
    (hbucket : ∀ event ∈ (bucketOf lower store snapshot.symbol snapshot.tfPrimary).events,
      EventWithin a b event)
    (hmin : cfg.oteMin ∈ Set.Icc 0 1) (hmax : cfg.oteMax ∈ Set.Icc 0 1)
    (h : processSnapshot lower cfg snapshot store utcnow = some hint) : HintWithin a b hint := by
  unfold processSnapshot at h
  obtain ⟨st, hst, h⟩ := Option.bind_eq_some_iff.mp h
  obtain ⟨pools, hpools, h⟩ := Option.bind_eq_some_iff.mp h
  obtain rfl := Option.some.inj h
  have hstate := within_structure hsnapshot hbucket hmin hmax hst
  have hliquidity := within_pools cfg hsnapshot hstate
  have hsweeps := within_sweeps cfg hsnapshot hstate
  have hzones := within_zones lower cfg st
    (some (AmdPhase.computeLiquidityState cfg snapshot st)) utcnow hsnapshot.rows
  have hactive : ∀ zone ∈ (computeZonesState lower cfg snapshot st
      (FairValueGaps.structureMeta cfg snapshot st)
      (some (AmdPhase.computeLiquidityState cfg snapshot st)) utcnow).activeZones,
      zone ∈ (computeZonesState lower cfg snapshot st
        (FairValueGaps.structureMeta cfg snapshot st)
        (some (AmdPhase.computeLiquidityState cfg snapshot st)) utcnow).zones :=
    fun zone => mem_zones_of_mem_activeZones
  exact
    { state := hstate
      pools := hliquidity
      magnets := fun magnet hmagnet => within_magnet (within_priced hpools hliquidity) hmagnet
      sfpEvents := hsweeps.2.1
      wickClusters := hsweeps.2.2
      zones := hzones
      activeZones := hactive
      lastPrice := within_lastPrice hsnapshot.rows }

/-- After any snapshots of any symbols and timeframes, what the engine reports of a snapshot lies
between the bounds of its symbol and timeframe: between any two prices between which all cells of
that symbol's frames on that timeframe lie, and the levels of their contexts. Nothing of another
symbol comes in. -/
theorem hint_prices_are_seen (lo hi : String × String → K) {inputs : List (ContextInput K × ℤ)}
    {snapshot : ContextInput K} {hint : SmcHint K} (hmin : cfg.oteMin ∈ Set.Icc 0 1)
    (hmax : cfg.oteMax ∈ Set.Icc 0 1)
    (hinputs : ∀ input ∈ inputs,
      SnapshotWithin (lo (keyOf lower input.1)) (hi (keyOf lower input.1)) input.1)
    (hsnapshot : SnapshotWithin (lo (keyOf lower snapshot)) (hi (keyOf lower snapshot)) snapshot)
    (h : processSnapshot lower cfg snapshot
      (inputs.foldl (remember lower cfg) OrderedDict.empty) utcnow = some hint) :
    HintWithin (lo (keyOf lower snapshot)) (hi (keyOf lower snapshot)) hint := by
  apply within_hint hsnapshot _ hmin hmax h
  exact within_bucket lower (within_memory cfg hinputs) snapshot.symbol snapshot.tfPrimary

end

section FixedInputs

open StructureState

/-- Minutes of one symbol around 5, and then of another around 1000. -/
def gold : ContextInput ℚ where
  symbol := "xauusd"
  tfPrimary := "1m"
  frame := some (risingFrame.map fun bar =>
    { bar with
      opn := bar.opn.map (· + 1000)
      high := bar.high.map (· + 1000)
      low := bar.low.map (· + 1000)
      close := bar.close.map (· + 1000) })
  hasPriceColumns := true
  hasHighLow := true
  hasClose := true
  pdl := none
  pdh := none

def euro : ContextInput ℚ := { gold with symbol := "eurusd", frame := some risingFrame }

def lowest (key : String × String) : ℚ := if key.1 = "xauusd" then 1000 else 0

def highest (key : String × String) : ℚ := if key.1 = "xauusd" then 1100 else 100

instance (lo hi : ℚ) (x : Option ℚ) : Decidable (Within lo hi x) :=
  inferInstanceAs (Decidable (∀ a ∈ x, a ∈ Set.Icc lo hi))

/-- A snapshot without levels in its context. -/
theorem snapshotWithin_of_cells {lo hi : ℚ} {snapshot : ContextInput ℚ} (hpdl : snapshot.pdl = none)
    (hpdh : snapshot.pdh = none) (hcells : ∀ row ∈ snapshot.frame.getD [],
      ∀ x ∈ [row.opn, row.high, row.low, row.close], Within lo hi x) :
    SnapshotWithin lo hi snapshot := by
  refine ⟨fun row hrow => ?_, by simp [hpdl], by simp [hpdh]⟩
  have hrow := hcells row hrow
  exact ⟨hrow _ (by simp), hrow _ (by simp), hrow _ (by simp), hrow _ (by simp)⟩

theorem gold_within : SnapshotWithin 1000 1100 gold :=
  snapshotWithin_of_cells rfl rfl (by decide +kernel)

theorem euro_within : SnapshotWithin 0 100 euro :=
  snapshotWithin_of_cells rfl rfl (by decide +kernel)

def shortRange : SmcCoreConfig ℚ := { sensitive with minRangeBars := 3 }

/-- After both symbols the euro's hint has nothing of gold's prices. -/
theorem euro_after_gold : ∃ hint : SmcHint ℚ,
    hint.liquidity.magnets ≠ [] ∧ HintWithin 0 100 hint := by
  obtain ⟨hint, hhint, hmagnets⟩ := (Option.any_eq_true ..).mp
    (show ((processSnapshot id shortRange euro
      ([(gold, 0), (euro, 0)].foldl (remember id shortRange) OrderedDict.empty) 0).any
        fun hint => !hint.liquidity.magnets.isEmpty) = true by decide +kernel)
  refine ⟨hint, fun hnil => by simp [hnil] at hmagnets, ?_⟩
  apply hint_prices_are_seen lowest highest (by decide +kernel) (by decide +kernel) _ _ hhint
  · intro input hinput
    simp only [List.mem_cons, List.not_mem_nil, or_false] at hinput
    rcases hinput with rfl | rfl
    · exact gold_within
    · exact euro_within
  · exact euro_within

end FixedInputs

end SmcPipeline.PriceBounds
