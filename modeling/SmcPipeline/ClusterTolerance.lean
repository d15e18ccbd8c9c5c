import SmcPipeline.MagnetRuns

/-!
# Clusters and their tolerance

Swings and pools join a cluster by its mean as it stands, and the level that is reported
is the mean at the end. A member is within the tolerance of the mean before and after it
joins. Later members move the mean, and may leave the first ones behind.
-/

namespace SmcPipeline.ClusterTolerance

open Candles KeyedRows LiquidityPools Magnets MeanRuns MagnetRuns

section

variable {β : Type*} {fits : List β → β → Bool}

/-- Every member but the first fitted what was there before it. -/
def Joined (fits : List β → β → Bool) (cluster : List β) : Prop :=
  ∀ pre x post, cluster = pre ++ x :: post → pre ≠ [] → fits pre x = true

theorem joined_concat {cluster : List β} {x : β} (h : Joined fits cluster)
    (hx : cluster ≠ [] → fits cluster x = true) : Joined fits (cluster ++ [x]) := by
  intro pre y post hsplit hne
  rcases List.eq_nil_or_concat post with rfl | ⟨post, z, rfl⟩
  · obtain ⟨rfl, hy⟩ := List.append_inj' hsplit rfl
    cases hy
    exact hx hne
  · have hsplit' : cluster ++ [x] = (pre ++ y :: post) ++ [z] := by simpa using hsplit
    exact h pre y post (List.append_inj' hsplit' rfl).1 hne

theorem joined_insertCluster {x : β} {clusters : List (List β)}
    (h : ∀ cluster ∈ clusters, Joined fits cluster) :
    ∀ cluster ∈ insertCluster fits x clusters, Joined fits cluster := by
  induction clusters with
  | nil =>
      intro cluster hcluster
      obtain rfl : cluster = [] ++ [x] := by simpa [insertCluster] using hcluster
      refine joined_concat (fun pre y post hsplit => ?_) fun hne => absurd rfl hne
      simp at hsplit
  | cons first clusters ih =>
      obtain ⟨hfirst, hrest⟩ := List.forall_mem_cons.mp h
      unfold insertCluster
      split_ifs with hfits
      · exact List.forall_mem_cons.mpr ⟨joined_concat hfirst fun _ => hfits, hrest⟩
      · exact List.forall_mem_cons.mpr ⟨hfirst, ih hrest⟩

theorem joined_of_mem_clusterBy {xs cluster : List β} (h : cluster ∈ clusterBy fits xs) :
    Joined fits cluster := by
  unfold clusterBy at h
  induction xs using List.reverseRecOn generalizing cluster with
  | nil => cases h
  | append_singleton xs x ih =>
      rw [List.foldl_concat] at h
      exact joined_insertCluster (fun c hc => ih hc) cluster h

end

variable {K : Type*} [Field K] [LinearOrder K]

/-- Each price is within the tolerance of the mean of those before it, and of the mean
with itself. -/
def NearRunningMean (tolerancePct : K) (prices : List K) : Prop :=
  ∀ pre x post, prices = pre ++ x :: post →
    (pre ≠ [] → withinTolerance x (meanOf pre) tolerancePct = true) ∧
      withinTolerance x (meanOf (pre ++ [x])) tolerancePct = true

variable [IsStrictOrderedRing K]

/-- A member pulls the mean towards itself. -/
theorem within_after {tolerancePct x : K} {pre : List K} (htol : 0 ≤ tolerancePct)
    (hne : pre ≠ []) (hpre : ∀ y ∈ pre, 0 < y) (hx : 0 < x)
    (h : withinTolerance x (meanOf pre) tolerancePct = true) :
    withinTolerance x (meanOf (pre ++ [x])) tolerancePct = true := by
  have hmean : 0 < meanOf pre := mean_pos hne hpre
  have hmean' : 0 < meanOf (pre ++ [x]) := mean_pos (by simp) (by
    intro y hy
    rcases List.mem_append.mp hy with hy | hy
    · exact hpre y hy
    · obtain rfl : y = x := by simpa using hy
      exact hx)
  have hshare : ((pre.length : K) + 1) * meanOf (pre ++ [x]) = pre.length * meanOf pre + x :=
    mean_concat hne x
  have hn : (0 : K) < pre.length := length_pos_cast hne
  have hn' : (0 : K) < (pre.length : K) + 1 := by linarith
  rw [withinTolerance_iff_abs _ hmean] at h
  rw [withinTolerance_iff_abs _ hmean']
  have htiny : (0 : K) < ratio 1 1000000 := by
    unfold ratio
    positivity
  generalize (ratio 1 1000000 : K) = tiny at *
  generalize meanOf pre = m at *
  generalize meanOf (pre ++ [x]) = m' at *
  generalize (pre.length : K) = n at *
  have hmove : (n + 1) * (x - m') = n * (x - m) := by linarith
  refine le_of_mul_le_mul_left ?_ hn'
  calc (n + 1) * |x - m'| = |(n + 1) * (x - m')| := by rw [abs_mul, abs_of_pos hn']
    _ = n * |x - m| := by rw [hmove, abs_mul, abs_of_pos hn]
    _ ≤ n * (tolerancePct * max m tiny) := mul_le_mul_of_nonneg_left h hn.le
    _ = tolerancePct * max (n * m) (n * tiny) := by
        rw [mul_left_comm, mul_max_of_nonneg _ _ hn.le]
    _ ≤ tolerancePct * max ((n + 1) * m') ((n + 1) * tiny) := by
        refine mul_le_mul_of_nonneg_left (max_le_max ?_ ?_) htol
        · linarith
        · linarith
    _ = (n + 1) * (tolerancePct * max m' tiny) := by
        rw [mul_left_comm, mul_max_of_nonneg _ _ hn'.le]

theorem nearRunningMean_of_joined {β : Type*} {price : β → K} {tolerancePct : K}
    (htol : 0 ≤ tolerancePct) {cluster : List β} (hpos : ∀ x ∈ cluster, 0 < price x)
    (h : Joined (fun c x => withinTolerance (price x) (meanOf (c.map price)) tolerancePct)
      cluster) : NearRunningMean tolerancePct (cluster.map price) := by
  intro pre y post hsplit
  obtain ⟨pre, rest, rfl, rfl, hrest⟩ := List.map_eq_append_iff.mp hsplit
  obtain ⟨x, post, rfl, rfl, rfl⟩ := List.map_eq_cons_iff.mp hrest
  have hpre : ∀ y ∈ pre.map price, 0 < y := by
    intro y hy
    obtain ⟨z, hz, rfl⟩ := List.mem_map.mp hy
    exact hpos z (List.mem_append_left _ hz)
  have hx : 0 < price x := hpos x (by simp)
  have hbefore : pre.map price ≠ [] →
      withinTolerance (price x) (meanOf (pre.map price)) tolerancePct = true :=
    fun hne => h pre x post rfl (by simpa using hne)
  refine ⟨hbefore, ?_⟩
  by_cases hne : pre.map price = []
  · rw [hne, List.nil_append]
    have hself : meanOf [price x] = price x := mean_singleton (price x)
    rw [hself, withinTolerance_iff_abs _ hx, sub_self, abs_zero]
    exact mul_nonneg htol (hx.le.trans (le_max_left _ _))
  · exact within_after htol hne hpre hx (hbefore hne)

/-- What a pool of equal highs or lows says about its swings. -/
theorem eqPool_near (cfg : SmcCoreConfig K) {st : RangedStructureState K}
    (hpos : ∀ s ∈ st.swings, 0 < s.price) {pool : SmcLiquidityPool K}
    (h : pool ∈ buildEqPoolsFromSwings cfg st) :
    pool.level = some (meanOf (pool.sourceSwings.map Swing.price)) ∧
      NearRunningMean (toleranceOf cfg) (pool.sourceSwings.map Swing.price) := by
  have hside : ∀ (kind : SwingKind) (liqType : SmcLiquidityType),
      pool ∈ clustersToPools (st.swings.filter fun s => decide (s.kind = kind)) (toleranceOf cfg)
        liqType st.bias →
      pool.level = some (meanOf (pool.sourceSwings.map Swing.price)) ∧
        NearRunningMean (toleranceOf cfg) (pool.sourceSwings.map Swing.price) := by
    intro kind liqType hpool
    obtain ⟨cluster, hcluster, rfl⟩ := List.mem_map.mp hpool
    have hclustered := List.mem_of_mem_filter hcluster
    refine ⟨rfl, nearRunningMean_of_joined (toleranceOf_nonneg cfg) ?_
      (joined_of_mem_clusterBy hclustered)⟩
    intro s hs
    exact hpos s (List.mem_of_mem_filter (mem_of_mem_clusterBy hclustered s hs))
  rcases List.mem_append.mp h with h | h
  · exact hside .high .eqh h
  · exact hside .low .eql h

/-- What a magnet says about its pools. -/
theorem magnet_near (cfg : SmcCoreConfig K) {pools : List (PricedPool K)}
    (hpos : ∀ p ∈ pools, 0 < p.price) {bias : Bias} {symbol : String}
    {m : SmcLiquidityMagnet K} (h : m ∈ buildMagnetsFromPoolsAndRange cfg pools bias symbol) :
    m.center = meanOf (m.pools.map PricedPool.price) ∧
      NearRunningMean (toleranceOf cfg) (m.pools.map PricedPool.price) ∧
      (∀ p ∈ m.pools, m.center ≤ p.price →
        withinTolerance p.price m.center (toleranceOf cfg) = true) ∧
      ((∀ p ∈ m.pools, withinTolerance p.price m.center (toleranceOf cfg) = true) ↔
        withinTolerance m.priceMin m.center (toleranceOf cfg) = true) := by
  obtain ⟨cluster, hcluster, hmagnet⟩ := List.mem_filterMap.mp h
  have hof := magnetOf_eq_some hmagnet
  obtain ⟨⟨lowest, hlowest, hmin⟩, hminle⟩ := hof.lowest
  have hmem : ∀ p ∈ cluster, 0 < p.price := by
    intro p hp
    exact hpos p ((mem_sortBy PricedPool.price).mp (mem_of_mem_clusterBy hcluster p hp))
  have hcenter : 0 < m.center := by
    rw [hof.center_eq]
    exact mean_pos (by simpa using hof.nonempty) (by simpa using hmem)
  have hsettled : Settled PricedPool.price (reachOf (toleranceOf cfg)) cluster := by
    rw [clusterPools_eq_runs hpos] at hcluster
    exact settled_of_mem_runs (covers_reachOf (toleranceOf_nonneg cfg))
      (sortBy_pairwise PricedPool.price pools) hcluster
  rw [hof.pools_eq]
  have habove : ∀ p ∈ cluster, m.center ≤ p.price →
      withinTolerance p.price m.center (toleranceOf cfg) = true := by
    intro p hp hle
    rw [withinTolerance_iff _ hcenter hle, hof.center_eq]
    exact hsettled p hp
  refine ⟨hof.center_eq, nearRunningMean_of_joined (toleranceOf_nonneg cfg) hmem
    (joined_of_mem_clusterBy hcluster), habove, fun hall => ?_, fun hlow p hp => ?_⟩
  · rw [← hmin]
    exact hall lowest hlowest
  · rcases le_total m.center p.price with hle | hle
    · exact habove p hp hle
    · have hminp := hminle p hp
      rw [withinTolerance_iff_abs _ hcenter, abs_of_nonpos (by linarith)] at hlow ⊢
      linarith

/-- Members are within the tolerance of the mean as they join. The center of a magnet is
within the tolerance of the pools above it, and of all of them exactly if it is within
that of the lowest. -/
theorem members_near_running_mean (cfg : SmcCoreConfig K) :
    (∀ st : RangedStructureState K, (∀ s ∈ st.swings, 0 < s.price) →
      ∀ pool ∈ buildEqPoolsFromSwings cfg st,
        pool.level = some (meanOf (pool.sourceSwings.map Swing.price)) ∧
          NearRunningMean (toleranceOf cfg) (pool.sourceSwings.map Swing.price)) ∧
    ∀ pools : List (PricedPool K), (∀ p ∈ pools, 0 < p.price) → ∀ bias symbol,
      ∀ m ∈ buildMagnetsFromPoolsAndRange cfg pools bias symbol,
        m.center = meanOf (m.pools.map PricedPool.price) ∧
          NearRunningMean (toleranceOf cfg) (m.pools.map PricedPool.price) ∧
          (∀ p ∈ m.pools, m.center ≤ p.price →
            withinTolerance p.price m.center (toleranceOf cfg) = true) ∧
          ((∀ p ∈ m.pools, withinTolerance p.price m.center (toleranceOf cfg) = true) ↔
            withinTolerance m.priceMin m.center (toleranceOf cfg) = true) :=
  ⟨fun _ hpos _ hpool => eqPool_near cfg hpos hpool,
    fun _ hpos _ _ _ hm => magnet_near cfg hpos hm⟩

section FixedInputs

/-- Highs that climb within the tolerance of their mean. -/
def climbing : List ℚ := [100, 112, 118, 123, 126]

def highAt (price : ℚ) : Swing ℚ := ⟨0, 0, price, .high, 1⟩

/-- A structure that has nothing but its swings. -/
def stateWith (swings : List (Swing ℚ)) : RangedStructureState ℚ where
  swings := swings
  legs := []
  trend := .unknown
  atr := []
  events := []
  bias := .neutral
  lastChochTs := none
  eventHistory := []
  oteZones := []
  atrLast := none
  atrMedian := none
  snapshotStartTs := none
  snapshotEndTs := none
  primaryTf := "1m"
  activeRange := none
  rangeState := .none

theorem climbing_pools :
    (buildEqPoolsFromSwings (smcCoreConfig ℚ) (stateWith (climbing.map highAt))).map
        (fun pool => (pool.level, pool.sourceSwings)) =
      [(some (579 / 5), climbing.map highAt)] := by decide +kernel

theorem climbing_near :
    ∃ pool ∈ buildEqPoolsFromSwings (smcCoreConfig ℚ) (stateWith (climbing.map highAt)),
      pool.sourceSwings = climbing.map highAt ∧
        NearRunningMean (toleranceOf (smcCoreConfig ℚ)) (pool.sourceSwings.map Swing.price) := by
  have hpos : ∀ s ∈ (stateWith (climbing.map highAt)).swings, 0 < s.price := by decide +kernel
  obtain ⟨pool, hpool, hfields⟩ := List.mem_map.mp (climbing_pools ▸ List.mem_singleton_self _)
  exact ⟨pool, hpool, (Prod.mk.inj hfields).2,
    ((members_near_running_mean (smcCoreConfig ℚ)).1 _ hpos pool hpool).2⟩

/-- The last of five highs leaves the first one outside the tolerance of the pool, and
likewise of the magnet. -/
theorem climbing_leaves_first :
    (∃ pool ∈ buildEqPoolsFromSwings (smcCoreConfig ℚ) (stateWith (climbing.map highAt)),
      pool.level = some (579 / 5) ∧ pool.sourceSwings = climbing.map highAt ∧
        ¬ |(100 : ℚ) - 579 / 5| ≤ toleranceOf (smcCoreConfig ℚ) * (579 / 5)) ∧
    ∃ m ∈ buildMagnetsFromPoolsAndRange (smcCoreConfig ℚ)
        (climbing.map fun price => poolAt price .neutral) .neutral "",
      m.center = 579 / 5 ∧ m.pools.map PricedPool.price = climbing ∧
        ¬ |(100 : ℚ) - m.center| ≤ toleranceOf (smcCoreConfig ℚ) * m.center := by
  have hfar : ¬ |(100 : ℚ) - 579 / 5| ≤ toleranceOf (smcCoreConfig ℚ) * (579 / 5) := by
    decide +kernel
  have hmagnets : (buildMagnetsFromPoolsAndRange (smcCoreConfig ℚ)
      (climbing.map fun price => poolAt price .neutral) .neutral "").map
        (fun m => (m.center, m.pools.map PricedPool.price)) = [(579 / 5, climbing)] := by
    decide +kernel
  constructor
  · obtain ⟨pool, hpool, hfields⟩ := List.mem_map.mp (climbing_pools ▸ List.mem_singleton_self _)
    obtain ⟨hlevel, hswings⟩ := Prod.mk.inj hfields
    exact ⟨pool, hpool, hlevel, hswings, hfar⟩
  · obtain ⟨m, hm, hfields⟩ := List.mem_map.mp (hmagnets ▸ List.mem_singleton_self _)
    obtain ⟨hcenter, hprices⟩ := Prod.mk.inj hfields
    exact ⟨m, hm, hcenter, hprices, hcenter ▸ hfar⟩

end FixedInputs

end SmcPipeline.ClusterTolerance
