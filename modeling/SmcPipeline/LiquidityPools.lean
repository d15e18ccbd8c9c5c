import SmcPipeline.Ranges

/-!
# Liquidity pools

`smc_liquidity/pools.py`: swings of one kind clustered by price, the last swing in the
direction of the bias, the extremes of the active range and the levels of the session. A
level that is NaN is missing.
-/

namespace SmcPipeline

inductive SmcLiquidityType
  | eqh
  | eql
  | tlq
  | slq
  | rangeExtreme
  | sessionHigh
  | sessionLow
  | sfp
  | wickCluster
deriving DecidableEq, Repr

/-- Where a level comes from that a bar sweeps. -/
inductive LevelSource
  | swing
  | range
deriving DecidableEq, Repr

/-- The dictionary `meta` of a pool, by its `source`. -/
inductive PoolMeta
  | eqCluster (clusterSize : ℕ)
  | lastLow (refTs : Option ℤ)
  | lastHigh (refTs : Option ℤ)
  | range (side : SwingKind)
  | session (side : SwingKind)
  | sfp (side : SwingKind) (levelSource : LevelSource)
  | wickCluster (side : SwingKind) (levelSource : LevelSource) (count : ℕ)
deriving DecidableEq, Repr

structure SmcLiquidityPool (K : Type*) where
  level : Option K
  liqType : SmcLiquidityType
  strength : Option K
  nTouches : ℕ
  firstTime : Option ℤ
  lastTime : Option ℤ
  role : ZoneRole
  sourceSwings : List (Swing K)
  details : PoolMeta
deriving DecidableEq, Repr

namespace LiquidityPools

open Candles Swings OrderBlocks

variable {K : Type*}

/-- `resolve_role_for_bias` -/
def resolveRoleForBias (bias : Bias) (liqType : SmcLiquidityType) (side : Option SwingKind) :
    ZoneRole :=
  match liqType with
  | .sfp | .wickCluster | .rangeExtreme =>
    match bias, side with
    | .long, some .low => .primary
    | .long, some .high => .countertrend
    | .short, some .high => .primary
    | .short, some .low => .countertrend
    | _, _ => .neutral
  | .eql | .tlq | .sessionLow =>
    match bias with
    | .long => .primary
    | .short => .countertrend
    | .neutral => .neutral
  | .eqh | .slq | .sessionHigh =>
    match bias with
    | .long => .countertrend
    | .short => .primary
    | .neutral => .neutral

/-- Puts an element into the first cluster it fits, or into a new one. -/
def insertCluster {β : Type*} (fits : List β → β → Bool) (x : β) : List (List β) → List (List β)
  | [] => [[x]]
  | cluster :: clusters =>
    if fits cluster x then (cluster ++ [x]) :: clusters
    else cluster :: insertCluster fits x clusters

def clusterBy {β : Type*} (fits : List β → β → Bool) (xs : List β) : List (List β) :=
  xs.foldl (fun clusters x => insertCluster fits x clusters) []

section

variable [Field K] [LinearOrder K]

/-- `sum(prices) / len(prices)` -/
def meanOf (prices : List K) : K := prices.sum / (prices.length : K)

/-- `_within_tolerance` -/
def withinTolerance (price ref tolerancePct : K) : Bool :=
  if ref = 0 then decide (|price - ref| ≤ tolerancePct)
  else decide (|price - ref| / max |ref| (ratio 1 1000000) ≤ tolerancePct)

/-- `_cluster_swings` -/
def clusterSwings (swings : List (Swing K)) (tolerancePct : K) : List (List (Swing K)) :=
  (clusterBy (fun cluster swing =>
    withinTolerance swing.price (meanOf (cluster.map Swing.price)) tolerancePct) swings).filter
      fun cluster => decide (2 ≤ cluster.length)

/-- `_clusters_to_pools` -/
def clustersToPools (swings : List (Swing K)) (tolerancePct : K) (liqType : SmcLiquidityType)
    (bias : Bias) : List (SmcLiquidityPool K) :=
  (clusterSwings swings tolerancePct).map fun cluster =>
    { level := some (meanOf (cluster.map Swing.price))
      liqType := liqType
      strength := some ((cluster.map Swing.strength).sum : ℕ)
      nTouches := cluster.length
      firstTime := (cluster.map Swing.time).min?
      lastTime := (cluster.map Swing.time).max?
      role := resolveRoleForBias bias liqType none
      sourceSwings := cluster
      details := .eqCluster cluster.length }

variable (cfg : SmcCoreConfig K)

/-- `max(cfg.eq_tolerance_pct, 0.001)` -/
def toleranceOf : K := max cfg.eqTolerancePct (ratio 1 1000)

/-- `build_eq_pools_from_swings` -/
def buildEqPoolsFromSwings (st : RangedStructureState K) : List (SmcLiquidityPool K) :=
  clustersToPools (st.swings.filter fun s => decide (s.kind = .high)) (toleranceOf cfg) .eqh
      st.bias ++
    clustersToPools (st.swings.filter fun s => decide (s.kind = .low)) (toleranceOf cfg) .eql st.bias

/-- `_last_swing` -/
def lastSwing (swings : List (Swing K)) (kind : SwingKind) : Option (Swing K) :=
  swings.reverse.find? fun s => decide (s.kind = kind)

/-- A pool of one swing. -/
def trendPool (swing : Swing K) (bias : Bias) (liqType : SmcLiquidityType) (details : PoolMeta) :
    SmcLiquidityPool K :=
  { level := some swing.price
    liqType := liqType
    strength := some ((if swing.strength = 0 then 1 else swing.strength : ℕ) : K)
    nTouches := 1
    firstTime := some swing.time
    lastTime := some swing.time
    role := resolveRoleForBias bias liqType none
    sourceSwings := [swing]
    details := details }

/-- The pools that `add_trend_pools` adds. -/
def trendPools (st : RangedStructureState K) : List (SmcLiquidityPool K) :=
  match st.bias with
  | .long =>
    ((lastSwing st.swings .low).map fun s =>
      trendPool s .long .tlq (.lastLow st.snapshotEndTs)).toList
  | .short =>
    ((lastSwing st.swings .high).map fun s =>
      trendPool s .short .slq (.lastHigh st.snapshotEndTs)).toList
  | .neutral => []

def rangePool (range : SmcRange K) (bias : Bias) (side : SwingKind) : SmcLiquidityPool K :=
  { level := match side with
      | .low => range.low
      | .high => range.high
    liqType := .rangeExtreme
    strength := Option.map₂ (fun a b : K => a - b) range.high range.low
    nTouches := 1
    firstTime := some range.startTime
    lastTime := some range.endTime
    role := resolveRoleForBias bias .rangeExtreme (some side)
    sourceSwings := []
    details := .range side }

/-- The pools that `_add_range_pools` adds. -/
def rangePools (st : RangedStructureState K) : List (SmcLiquidityPool K) :=
  match st.activeRange with
  | none => []
  | some range => [rangePool range st.bias .low, rangePool range st.bias .high]

def sessionPool (st : RangedStructureState K) (side : SwingKind) (level : Option K) :
    SmcLiquidityPool K :=
  let liqType : SmcLiquidityType := match side with
    | .low => .sessionLow
    | .high => .sessionHigh
  { level := level
    liqType := liqType
    strength := some 1
    nTouches := 1
    firstTime := st.snapshotEndTs
    lastTime := st.snapshotEndTs
    role := resolveRoleForBias st.bias liqType none
    sourceSwings := []
    details := .session side }

/-- The pools that `_add_session_pools` adds. -/
def sessionPools (st : RangedStructureState K) (snapshot : ContextInput K) :
    List (SmcLiquidityPool K) :=
  (snapshot.pdl.map (sessionPool st .low)).toList ++ (snapshot.pdh.map (sessionPool st .high)).toList

end

theorem mem_insertCluster {β : Type*} {fits : List β → β → Bool} {x : β}
    {clusters : List (List β)} {cluster : List β} (h : cluster ∈ insertCluster fits x clusters) :
    ∀ b ∈ cluster, b = x ∨ ∃ old ∈ clusters, b ∈ old := by
  induction clusters with
  | nil =>
      obtain rfl : cluster = [x] := by simpa [insertCluster] using h
      intro b hb
      exact Or.inl (by simpa using hb)
  | cons first clusters ih =>
      intro b hb
      unfold insertCluster at h
      split_ifs at h
      · rcases List.mem_cons.mp h with rfl | h
        · rcases List.mem_append.mp hb with hb | hb
          · exact Or.inr ⟨first, List.mem_cons_self, hb⟩
          · exact Or.inl (by simpa using hb)
        · exact Or.inr ⟨cluster, List.mem_cons_of_mem first h, hb⟩
      · rcases List.mem_cons.mp h with rfl | h
        · exact Or.inr ⟨_, List.mem_cons_self, hb⟩
        · rcases ih h b hb with heq | ⟨old, hold, hbold⟩
          · exact Or.inl heq
          · exact Or.inr ⟨old, List.mem_cons_of_mem first hold, hbold⟩

/-- Clusters hold nothing but what is clustered. -/
theorem mem_of_mem_clusterBy {β : Type*} {fits : List β → β → Bool} {xs : List β}
    {cluster : List β} (h : cluster ∈ clusterBy fits xs) : ∀ b ∈ cluster, b ∈ xs := by
  unfold clusterBy at h
  induction xs using List.reverseRecOn generalizing cluster with
  | nil => cases h
  | append_singleton xs x ih =>
      rw [List.foldl_concat] at h
      intro b hb
      rcases mem_insertCluster h b hb with rfl | ⟨old, hold, hbold⟩
      · exact List.mem_append_right _ List.mem_cons_self
      · exact List.mem_append_left _ (ih hold b hbold)

/-- Each bias looks for the pool of its own side. -/
def trendTypeOf : Bias → Option SmcLiquidityType
  | .long => some .tlq
  | .short => some .slq
  | .neutral => none

section

variable [Field K]

/-- A trend pool is PRIMARY, of the type its bias looks for, and at the price of a swing. -/
theorem mem_trendPools {st : RangedStructureState K} {pool : SmcLiquidityPool K}
    (h : pool ∈ trendPools st) :
    trendTypeOf st.bias = some pool.liqType ∧ pool.role = .primary ∧
      ∃ swing ∈ st.swings, pool.sourceSwings = [swing] ∧ pool.level = some swing.price := by
  have hmem : ∀ {kind : SwingKind} {s : Swing K}, lastSwing st.swings kind = some s →
      s ∈ st.swings := fun hs => List.mem_reverse.mp (List.mem_of_find?_eq_some hs)
  unfold trendPools at h
  cases hbias : st.bias with
  | long =>
      rw [hbias] at h
      obtain ⟨s, hs, rfl⟩ := Option.map_eq_some_iff.mp (Option.mem_toList.mp h)
      exact ⟨rfl, rfl, s, hmem hs, rfl, rfl⟩
  | short =>
      rw [hbias] at h
      obtain ⟨s, hs, rfl⟩ := Option.map_eq_some_iff.mp (Option.mem_toList.mp h)
      exact ⟨rfl, rfl, s, hmem hs, rfl, rfl⟩
  | neutral =>
      rw [hbias] at h
      cases h

end

end LiquidityPools

end SmcPipeline
