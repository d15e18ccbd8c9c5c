import SmcPipeline.Magnets
import SmcPipeline.MeanRuns

/-!
# Magnets partition the pools

`_cluster_pools` tests a pool against the mean of every cluster so far. The pools come in
the order of their levels, and then only the last cluster can take one: the clusters are
the runs of the sorted levels about a running mean.
-/

namespace SmcPipeline.MagnetRuns

open Candles KeyedRows LiquidityPools Magnets MeanRuns

variable {K : Type*} [Field K] [LinearOrder K]

omit [Field K] [LinearOrder K] in
theorem insertCluster_of_misfits {β : Type*} {fits : List β → β → Bool} {x : β}
    {closed : List (List β)} (h : ∀ cluster ∈ closed, fits cluster x = false)
    (clusters : List (List β)) :
    insertCluster fits x (closed ++ clusters) = closed ++ insertCluster fits x clusters := by
  induction closed with
  | nil => rfl
  | cons cluster closed ih =>
      rw [List.cons_append, insertCluster, h cluster List.mem_cons_self]
      simp only [Bool.false_eq_true, if_false, List.cons_append]
      rw [ih fun c hc => h c (List.mem_cons_of_mem _ hc)]

/-- The highest price that `_within_tolerance` puts with a mean below it. -/
def reachOf (tolerancePct c : K) : K := c + tolerancePct * max c (ratio 1 1000000)

section

variable [IsStrictOrderedRing K]

theorem covers_reachOf {tolerancePct : K} (htol : 0 ≤ tolerancePct) :
    Covers (reachOf tolerancePct) := by
  have htiny : (0 : K) ≤ ratio 1 1000000 := by
    unfold ratio
    positivity
  refine ⟨fun a b hab => ?_, fun c => ?_⟩
  · exact add_le_add hab (mul_le_mul_of_nonneg_left (max_le_max_right _ hab) htol)
  · exact le_add_of_nonneg_right (mul_nonneg htol (htiny.trans (le_max_right _ _)))

/-- Around a positive mean the tolerance is a distance. -/
theorem withinTolerance_iff_abs {price ref : K} (tolerancePct : K) (href : 0 < ref) :
    withinTolerance price ref tolerancePct = true ↔
      |price - ref| ≤ tolerancePct * max ref (ratio 1 1000000) := by
  have hpos : 0 < max ref (ratio 1 1000000) := lt_max_of_lt_left href
  unfold withinTolerance
  rw [if_neg href.ne', decide_eq_true_iff, abs_of_pos href, div_le_iff₀ hpos]

/-- Above the mean it is a bound. -/
theorem withinTolerance_iff {price ref : K} (tolerancePct : K) (href : 0 < ref)
    (hle : ref ≤ price) :
    withinTolerance price ref tolerancePct = true ↔ price ≤ reachOf tolerancePct ref := by
  rw [withinTolerance_iff_abs tolerancePct href, abs_of_nonneg (sub_nonneg.mpr hle),
    sub_le_iff_le_add']
  rfl

/-- Whether `_cluster_pools` adds a pool to a cluster. -/
def joins (tolerancePct : K) (cluster : List (PricedPool K)) (pool : PricedPool K) : Bool :=
  withinTolerance pool.price (meanOf (cluster.map PricedPool.price)) tolerancePct

theorem joins_iff {tolerancePct : K} {cluster : List (PricedPool K)} {pool : PricedPool K}
    (hne : cluster ≠ []) (hpos : ∀ p ∈ cluster, 0 < p.price)
    (hle : ∀ p ∈ cluster, p.price ≤ pool.price) :
    joins tolerancePct cluster pool = true ↔
      pool.price ≤ reachOf tolerancePct (mean (cluster.map PricedPool.price)) := by
  have hmap : cluster.map PricedPool.price ≠ [] := by simpa using hne
  exact withinTolerance_iff tolerancePct (mean_pos hmap (by simpa using hpos))
    (mean_le hmap (by simpa using hle))

/-- The loop of `_cluster_pools` with the last cluster in hand. -/
theorem foldl_insertCluster {tolerancePct : K} {pools : List (PricedPool K)}
    (closed : List (List (PricedPool K))) {current : List (PricedPool K)} (hne : current ≠ [])
    (hclosed : ∀ cluster ∈ closed, ∀ pool ∈ pools, joins tolerancePct cluster pool = false)
    (hpos : ∀ p ∈ current ++ pools, 0 < p.price)
    (hsorted : (current ++ pools).Pairwise fun p q => p.price ≤ q.price) :
    pools.foldl (fun clusters pool => insertCluster (joins tolerancePct) pool clusters)
        (closed ++ [current]) =
      closed ++ runsFrom PricedPool.price (reachOf tolerancePct) current pools := by
  induction pools generalizing closed current with
  | nil => rfl
  | cons pool pools ih =>
      obtain ⟨-, hrest, hcross⟩ := List.pairwise_append.mp hsorted
      have hcurrent : ∀ p ∈ current, 0 < p.price := fun p hp => hpos p (List.mem_append_left _ hp)
      have hlater : ∀ q ∈ pool :: pools, joins tolerancePct current q = true ↔
          q.price ≤ reachOf tolerancePct (mean (current.map PricedPool.price)) :=
        fun q hq => joins_iff hne hcurrent fun p hp => hcross p hp q hq
      have hstep : insertCluster (joins tolerancePct) pool [current] =
          if joins tolerancePct current pool then [current ++ [pool]] else [current, [pool]] := rfl
      rw [List.foldl_cons, insertCluster_of_misfits
        (fun c hc => hclosed c hc pool List.mem_cons_self), hstep]
      unfold runsFrom
      split_ifs with hjoins hreach hreach
      · refine ih closed (by simp) (fun c hc q hq => hclosed c hc q (List.mem_cons_of_mem _ hq)) ?_ ?_
        · simpa using hpos
        · simpa using hsorted
      · exact absurd ((hlater pool List.mem_cons_self).mp hjoins) hreach
      · exact absurd ((hlater pool List.mem_cons_self).mpr hreach) hjoins
      · rw [← List.singleton_append, ← List.append_assoc, ih (closed ++ [current]) (by simp) ?_ ?_ hrest,
          List.append_assoc, List.singleton_append]
        · intro c hc q hq
          rcases List.mem_append.mp hc with hc | hc
          · exact hclosed c hc q (List.mem_cons_of_mem _ hq)
          · obtain rfl : c = current := by simpa using hc
            -- a pool as high as one that did not join does not join either
            by_contra hq'
            have hle := (hlater q (List.mem_cons_of_mem _ hq)).mp (by simpa using hq')
            exact hreach (((List.pairwise_cons.mp hrest).1 q hq).trans hle)
        · exact fun p hp => hpos p (List.mem_append_right _ hp)

/-- The clusters are the runs of the pools in the order of their levels. -/
theorem clusterPools_eq_runs {pools : List (PricedPool K)} (hpos : ∀ p ∈ pools, 0 < p.price)
    (tolerancePct : K) :
    clusterPools pools tolerancePct =
      runs PricedPool.price (reachOf tolerancePct) (sortBy PricedPool.price pools) := by
  have hsorted := sortBy_pairwise PricedPool.price pools
  have hpos' : ∀ p ∈ sortBy PricedPool.price pools, 0 < p.price :=
    fun p hp => hpos p ((mem_sortBy PricedPool.price).mp hp)
  unfold clusterPools clusterBy
  generalize sortBy PricedPool.price pools = sorted at hsorted hpos' ⊢
  cases sorted with
  | nil => rfl
  | cons first rest =>
      exact foldl_insertCluster [] (by simp) (by simp) hpos' hsorted

omit [Field K] [IsStrictOrderedRing K] in
theorem foldl_min_spec (x : K) (xs : List K) :
    xs.foldl min x ∈ x :: xs ∧ ∀ y ∈ x :: xs, xs.foldl min x ≤ y :=
  List.min?_eq_some_iff.mp List.min?_cons'

omit [Field K] [IsStrictOrderedRing K] in
theorem foldl_max_spec (x : K) (xs : List K) :
    xs.foldl max x ∈ x :: xs ∧ ∀ y ∈ x :: xs, y ≤ xs.foldl max x :=
  List.max?_eq_some_iff.mp List.max?_cons'

omit [Field K] [LinearOrder K] [IsStrictOrderedRing K] in
theorem deriveMagnetRole_eq_primary (cluster : List (PricedPool K)) :
    deriveMagnetRole cluster = .primary ↔ ∃ p ∈ cluster, p.role = .primary := by
  unfold deriveMagnetRole
  split_ifs with hprimary hcounter
  · simpa using hprimary
  · simpa using hprimary
  · simpa using hprimary

/-- What a magnet says about its cluster. -/
structure MagnetOf (cluster : List (PricedPool K)) (m : SmcLiquidityMagnet K) : Prop where
  pools_eq : m.pools = cluster
  nonempty : cluster ≠ []
  lowest : (∃ p ∈ cluster, p.price = m.priceMin) ∧ ∀ p ∈ cluster, m.priceMin ≤ p.price
  highest : (∃ p ∈ cluster, p.price = m.priceMax) ∧ ∀ p ∈ cluster, p.price ≤ m.priceMax
  center_eq : m.center = mean (cluster.map PricedPool.price)
  primary_iff : m.role = .primary ↔ ∃ p ∈ cluster, p.role = .primary

omit [IsStrictOrderedRing K] in
theorem magnetOf_eq_some {symbol : String} {bias : Bias} {cluster : List (PricedPool K)}
    {m : SmcLiquidityMagnet K} (h : magnetOf symbol bias cluster = some m) :
    MagnetOf cluster m := by
  cases cluster with
  | nil => cases h
  | cons first rest =>
      cases h
      obtain ⟨hmin, hminle⟩ := foldl_min_spec first.price (rest.map PricedPool.price)
      obtain ⟨hmax, hmaxle⟩ := foldl_max_spec first.price (rest.map PricedPool.price)
      rw [← List.map_cons] at hmin hminle hmax hmaxle
      exact ⟨rfl, by simp, ⟨List.mem_map.mp hmin, fun p hp => hminle _ (List.mem_map_of_mem hp)⟩,
        ⟨List.mem_map.mp hmax, fun p hp => hmaxle _ (List.mem_map_of_mem hp)⟩, rfl,
        deriveMagnetRole_eq_primary _⟩

theorem MagnetOf.around {cluster : List (PricedPool K)} {m : SmcLiquidityMagnet K}
    (h : MagnetOf cluster m) : m.priceMin ≤ m.center ∧ m.center ≤ m.priceMax := by
  have hmap : cluster.map PricedPool.price ≠ [] := by simpa using h.nonempty
  rw [h.center_eq]
  exact ⟨le_mean hmap (by simpa using h.lowest.2), mean_le hmap (by simpa using h.highest.2)⟩

/-- The interval, the center and the role of a magnet. -/
def outline (m : SmcLiquidityMagnet K) : K × K × K × ZoneRole :=
  (m.priceMin, m.priceMax, m.center, m.role)

omit [IsStrictOrderedRing K] in
theorem outline_magnetOf {symbol : String} {bias : Bias} {a b : List (PricedPool K)}
    (hprices : a.map PricedPool.price = b.map PricedPool.price) (hperm : a.Perm b) :
    (magnetOf symbol bias a).map outline = (magnetOf symbol bias b).map outline := by
  have hrole : deriveMagnetRole a = deriveMagnetRole b := by
    unfold deriveMagnetRole
    rw [hperm.any_eq, hperm.all_eq]
  cases a with
  | nil => rw [List.nil_perm.mp hperm]
  | cons p ps =>
      cases b with
      | nil => cases List.perm_nil.mp hperm
      | cons q qs =>
          obtain ⟨hfirst, hrest⟩ := List.cons.inj hprices
          simp only [magnetOf, outline, Option.map_some, hfirst, hrest, hrole, List.map_cons]

omit [IsStrictOrderedRing K] in
theorem outlines_of_forall₂ {symbol : String} {bias : Bias}
    {clusters clusters' : List (List (PricedPool K))}
    (h : List.Forall₂ (fun a b => a.map PricedPool.price = b.map PricedPool.price ∧ a.Perm b)
      clusters clusters') :
    (clusters.filterMap (magnetOf symbol bias)).map outline =
      (clusters'.filterMap (magnetOf symbol bias)).map outline := by
  rw [List.map_filterMap, List.map_filterMap]
  induction h with
  | nil => rfl
  | cons hab _ ih =>
      rw [List.filterMap_cons, List.filterMap_cons, outline_magnetOf hab.1 hab.2, ih]

structure Partition (pools : List (PricedPool K)) (magnets : List (SmcLiquidityMagnet K)) :
    Prop where
  covered : (magnets.flatMap SmcLiquidityMagnet.pools).Perm pools
  consecutive : magnets.flatMap SmcLiquidityMagnet.pools = sortBy PricedPool.price pools
  nonempty : ∀ m ∈ magnets, m.pools ≠ []
  spans : ∀ m ∈ magnets, ∀ p ∈ m.pools, m.priceMin ≤ p.price ∧ p.price ≤ m.priceMax
  apart : magnets.Pairwise fun a b => a.priceMax < b.priceMin
  around : ∀ m ∈ magnets, m.priceMin ≤ m.center ∧ m.center ≤ m.priceMax
  primary_iff : ∀ m ∈ magnets, m.role = .primary ↔ ∃ p ∈ m.pools, p.role = .primary

omit [IsStrictOrderedRing K] in
theorem flatMap_pools (symbol : String) (bias : Bias) (clusters : List (List (PricedPool K))) :
    (clusters.filterMap (magnetOf symbol bias)).flatMap SmcLiquidityMagnet.pools =
      clusters.flatten := by
  induction clusters with
  | nil => rfl
  | cons cluster clusters ih =>
      rw [List.flatten_cons, ← ih]
      cases cluster with
      | nil => rfl
      | cons first rest => rfl

theorem toleranceOf_nonneg (cfg : SmcCoreConfig K) : 0 ≤ toleranceOf cfg := by
  have hmin : (0 : K) ≤ ratio 1 1000 := by
    unfold ratio
    positivity
  exact hmin.trans (le_max_right _ _)

/-- The magnets partition the pools into intervals that lie apart. -/
theorem partition_buildMagnets (cfg : SmcCoreConfig K) {pools : List (PricedPool K)}
    (hpos : ∀ p ∈ pools, 0 < p.price) (bias : Bias) (symbol : String) :
    Partition pools (buildMagnetsFromPoolsAndRange cfg pools bias symbol) := by
  have hsorted := sortBy_pairwise PricedPool.price pools
  have hcovers := covers_reachOf (toleranceOf_nonneg cfg)
  unfold buildMagnetsFromPoolsAndRange
  rw [clusterPools_eq_runs hpos]
  have hflat : ((runs PricedPool.price (reachOf (toleranceOf cfg))
      (sortBy PricedPool.price pools)).filterMap (magnetOf symbol bias)).flatMap
        SmcLiquidityMagnet.pools = sortBy PricedPool.price pools := by
    rw [flatMap_pools, flatten_runs]
  have hmagnet : ∀ m ∈ (runs PricedPool.price (reachOf (toleranceOf cfg))
      (sortBy PricedPool.price pools)).filterMap (magnetOf symbol bias), MagnetOf m.pools m := by
    intro m hm
    obtain ⟨cluster, -, hcluster⟩ := List.mem_filterMap.mp hm
    have hof := magnetOf_eq_some hcluster
    rw [hof.pools_eq]
    exact hof
  refine ⟨?_, hflat, fun m hm => (hmagnet m hm).nonempty, fun m hm p hp => ?_, ?_,
    fun m hm => (hmagnet m hm).around, fun m hm => (hmagnet m hm).primary_iff⟩
  · rw [hflat]
    exact sortBy_perm PricedPool.price pools
  · exact ⟨(hmagnet m hm).lowest.2 p hp, (hmagnet m hm).highest.2 p hp⟩
  · refine List.pairwise_filterMap.mpr ((runs_pairwise_lt hcovers hsorted).imp ?_)
    intro a b hab m hm m' hm'
    obtain ⟨⟨p, hp, hmax⟩, -⟩ := (magnetOf_eq_some hm).highest
    obtain ⟨⟨q, hq, hmin⟩, -⟩ := (magnetOf_eq_some hm').lowest
    rw [← hmax, ← hmin]
    exact hab p hp q hq

/-- The order of the pools does not show in the magnets' outlines. -/
theorem outlines_perm (cfg : SmcCoreConfig K) {pools pools' : List (PricedPool K)}
    (hpos : ∀ p ∈ pools, 0 < p.price) (hperm : pools.Perm pools') (bias : Bias)
    (symbol : String) :
    (buildMagnetsFromPoolsAndRange cfg pools' bias symbol).map outline =
      (buildMagnetsFromPoolsAndRange cfg pools bias symbol).map outline := by
  have hpos' : ∀ p ∈ pools', 0 < p.price := fun p hp => hpos p (hperm.mem_iff.mpr hp)
  have hsame := runs_perm (covers_reachOf (toleranceOf_nonneg cfg))
    (sortBy_pairwise PricedPool.price pools) (sortBy_pairwise PricedPool.price pools')
    ((sortBy_perm _ pools).trans (hperm.trans (sortBy_perm _ pools').symm))
  unfold buildMagnetsFromPoolsAndRange
  rw [clusterPools_eq_runs hpos, clusterPools_eq_runs hpos']
  exact (outlines_of_forall₂ hsame).symm

/-- Magnets partition the pools, whatever their order. -/
theorem magnets_partition_pools (cfg : SmcCoreConfig K) {pools : List (PricedPool K)}
    (hpos : ∀ p ∈ pools, 0 < p.price) (bias : Bias) (symbol : String) :
    Partition pools (buildMagnetsFromPoolsAndRange cfg pools bias symbol) ∧
      ∀ pools', pools.Perm pools' →
        (buildMagnetsFromPoolsAndRange cfg pools' bias symbol).map outline =
          (buildMagnetsFromPoolsAndRange cfg pools bias symbol).map outline :=
  ⟨partition_buildMagnets cfg hpos bias symbol,
    fun _ hperm => outlines_perm cfg hpos hperm bias symbol⟩

end

section FixedInputs

def poolAt (price : ℚ) (role : ZoneRole) : PricedPool ℚ where
  level := some price
  liqType := .eqh
  strength := some 1
  nTouches := 1
  firstTime := none
  lastTime := none
  role := role
  sourceSwings := []
  details := .eqCluster 2
  price := price
  level_eq := rfl

def threePools : List (PricedPool ℚ) :=
  [poolAt 130 .neutral, poolAt 100 .countertrend, poolAt 105 .primary]

theorem threePools_partition :
    (buildMagnetsFromPoolsAndRange (smcCoreConfig ℚ) threePools .neutral "").map outline =
        [(100, 105, 205 / 2, .primary), (130, 130, 130, .neutral)] ∧
      Partition threePools
        (buildMagnetsFromPoolsAndRange (smcCoreConfig ℚ) threePools .neutral "") := by
  refine ⟨by decide +kernel, (magnets_partition_pools (smcCoreConfig ℚ) ?_ .neutral "").1⟩
  intro p hp
  simp only [threePools, List.mem_cons, List.not_mem_nil, or_false] at hp
  rcases hp with rfl | rfl | rfl <;> norm_num [poolAt]

end FixedInputs

end SmcPipeline.MagnetRuns
