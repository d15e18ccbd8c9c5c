import SmcPipeline.AmdPhase

/-!
# Magnets

`build_magnets_from_pools_and_range` of `smc_liquidity/magnets.py`: the pools in the order of
their levels, clustered, and a magnet for each cluster. Pools are sorted by `level`, which a
missing one would leave without an order; so the levels are required to be there.
-/

namespace SmcPipeline

/-- A pool whose level is a number. -/
structure PricedPool (K : Type*) extends SmcLiquidityPool K where
  price : K
  level_eq : level = some price

/-- The dictionary `meta` of a magnet. -/
structure MagnetMeta where
  poolCount : ℕ
  sourceTypes : List SmcLiquidityType
  symbol : String
  bias : Bias
deriving DecidableEq, Repr

structure SmcLiquidityMagnet (K : Type*) where
  priceMin : K
  priceMax : K
  center : K
  liqType : SmcLiquidityType
  role : ZoneRole
  pools : List (PricedPool K)
  details : MagnetMeta

namespace Magnets

open KeyedRows LiquidityPools

variable {K : Type*}

def priced (pool : SmcLiquidityPool K) : Option (PricedPool K) :=
  match h : pool.level with
  | none => none
  | some price => some ⟨pool, price, h⟩

/-- The pools with their levels, if all have one. -/
def pricedPools (pools : List (SmcLiquidityPool K)) : Option (List (PricedPool K)) :=
  pools.mapM priced

/-- `priority` of `_infer_magnet_type` -/
def typePriority : List SmcLiquidityType :=
  [.rangeExtreme, .sessionHigh, .sessionLow, .tlq, .slq, .eqh, .eql]

/-- `_infer_magnet_type` on a cluster with its first pool. -/
def inferMagnetType (first : PricedPool K) (rest : List (PricedPool K)) : SmcLiquidityType :=
  (typePriority.find? fun liqType =>
    (first :: rest).any fun pool => decide (pool.liqType = liqType)).getD first.liqType

/-- `_derive_magnet_role` -/
def deriveMagnetRole (cluster : List (PricedPool K)) : ZoneRole :=
  if cluster.any fun pool => decide (pool.role = .primary) then .primary
  else if cluster.all fun pool => decide (pool.role = .countertrend) then .countertrend
  else .neutral

section

variable [Field K] [LinearOrder K]

/-- `_cluster_pools` -/
def clusterPools (pools : List (PricedPool K)) (tolerancePct : K) : List (List (PricedPool K)) :=
  clusterBy (fun cluster pool =>
    withinTolerance pool.price (meanOf (cluster.map PricedPool.price)) tolerancePct)
    (sortBy PricedPool.price pools)

/-- The magnet of a cluster; no cluster is empty. -/
def magnetOf (symbol : String) (bias : Bias) :
    List (PricedPool K) → Option (SmcLiquidityMagnet K)
  | [] => none
  | first :: rest =>
    some
      { priceMin := (rest.map PricedPool.price).foldl min first.price
        priceMax := (rest.map PricedPool.price).foldl max first.price
        center := meanOf ((first :: rest).map PricedPool.price)
        liqType := inferMagnetType first rest
        role := deriveMagnetRole (first :: rest)
        pools := first :: rest
        details :=
          { poolCount := (first :: rest).length
            sourceTypes := (first :: rest).map fun pool => pool.liqType
            symbol := symbol
            bias := bias } }

/-- `build_magnets_from_pools_and_range` -/
def buildMagnetsFromPoolsAndRange (cfg : SmcCoreConfig K) (pools : List (PricedPool K))
    (bias : Bias) (symbol : String) : List (SmcLiquidityMagnet K) :=
  (clusterPools pools (toleranceOf cfg)).filterMap (magnetOf symbol bias)

end

theorem priced_eq_some {pool : SmcLiquidityPool K} {p : PricedPool K} (h : priced pool = some p) :
    p.toSmcLiquidityPool = pool := by
  unfold priced at h
  split at h
  · cases h
  · cases h
    rfl

end Magnets

end SmcPipeline
