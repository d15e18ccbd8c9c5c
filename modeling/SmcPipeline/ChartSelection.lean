import SmcPipeline.ChartAdapter
import SmcPipeline.GreedyPicks
import SmcPipeline.PoolDedup
import Mathlib.Data.List.Pairwise

/-!
# The pools and zones on the chart

`selectPoolsForRender` and `selectZonesForRender` of `UI_v2/web_client/chart_adapter.js` with what
they estimate from the candles. Around a reference price the best pools of each side become lines
and one more that is far away becomes a badge; of the zones near the reference the best are drawn.
-/

namespace SmcPipeline

structure ScoredPool (F : Type*) where
  pool : ChartPool F
  score : ℚ

/-- A pool with the two flags of its line. -/
structure DrawnPool (F : Type*) where
  pool : ChartPool F
  axisLabel : Bool
  lineVisible : Bool

structure PoolSelection (F : Type*) where
  localPools : List (DrawnPool F)
  globalPools : List (DrawnPool F)
  refPrice : Option ℚ
  priceWindowAbs : ℚ
  mergeTolAbs : ℚ

structure ChartZone (F : Type*) where
  zone : Json F
  min : ℚ
  max : ℚ
  center : ℚ
  score : ℚ

structure ZoneSelection (F : Type*) where
  zones : List (ChartZone F)
  mergeTolAbs : ℚ

namespace ChartSelection

open ViewerClient KeyedRows PoolDedup GreedyPicks Champions

variable {F : Type*} (env : PoolBrowser F)

/-- `Number` of a price that may be `null`, which is 0. -/
def numberOf : Option ℚ → Option ℚ
  | none => some 0
  | some price => some price

def pickRefPrice (s : ChartState F) : Option ℚ :=
  let finite (cell : Option F) : Option ℚ := cell.bind fun x => env.number (.float x)
  (finite (s.lastLiveBar.map ChartCandle.close)).or
    ((finite (s.lastBar.map ChartCandle.close)).or (finite (s.lastBar.map ChartCandle.opn)))

/-- High and low of the bars where both are finite. -/
def pricesOf (tail : List (ChartCandle F)) : List (ℚ × ℚ) :=
  tail.filterMap fun bar => (env.number (.float bar.high)).bind fun h =>
    (env.number (.float bar.low)).map fun l => (h, l)

def estimatePriceWindowAbs (refPrice : Option ℚ) (s : ChartState F) : ℚ :=
  let refComponent := match numberOf refPrice with
    | some ref => |ref| * (15 / 10000)
    | none => 0
  let bars := s.lastCandleDataset
  let tail := bars.drop (bars.length - 80)
  let n := max 1 tail.length
  let highs := (pricesOf env tail).map Prod.fst
  let lows := (pricesOf env tail).map Prod.snd
  let span := match highs.max?, lows.min? with
    | some maxHigh, some minLow => max 0 (maxHigh - minLow)
    | _, _ => 0
  let atrLike := span / (n : ℚ) * 14
  let volComponent := atrLike * (6 / 10)
  max (max refComponent volComponent) (5 / 10)

def estimateMergeTolAbs (refPrice : Option ℚ) (priceWindowAbs : ℚ) : ℚ :=
  let refComponent := match numberOf refPrice with
    | some ref => |ref| * (25 / 100000)
    | none => 0
  max (max refComponent (priceWindowAbs * (8 / 100))) (2 / 10)

def clamp01 (value : ℚ) : ℚ := max 0 (min 1 value)

/-- Price and reference are finite here. -/
def poolScore (ref priceWindowAbs : ℚ) (p : ChartPool F) : ℚ :=
  let strengthNorm := match (prop (some p.pool) "strength").bind env.number with
    | some strength => clamp01 (strength / 100)
    | none => 3 / 10
  let window := if priceWindowAbs = 0 then 1 else priceWindowAbs
  let distNormRaw := |p.price - ref| / max (1 / 1000000000) window
  let distNorm := min 6 (max 0 distNormRaw)
  roleWeight env (prop (some p.pool) "role") * (1 + strengthNorm) / (1 + distNorm)

/-- `scored` -/
def scored (ref priceWindowAbs : ℚ) (pools : List (ChartPool F)) : List (ScoredPool F) :=
  sortBy (fun row => -row.score) (pools.map fun p => ⟨p, poolScore env ref priceWindowAbs p⟩)

def pickPrimary (rows : List (ScoredPool F)) : Option (ChartPool F) :=
  (rows.find? fun row => roleName env (prop (some row.pool.pool) "role") = "PRIMARY").map
    ScoredPool.pool

def samePrice (a b : ChartPool F) : Bool := decide (a.price = b.price)

def fillSide (rows : List (ScoredPool F)) (target : List (ChartPool F)) (maxCount : ℕ) :
    List (ChartPool F) :=
  fill samePrice maxCount target (rows.map ScoredPool.pool)

/-- The local pools of one side. -/
def localSide (rows : List (ScoredPool F)) : List (ChartPool F) :=
  fillSide rows (pickPrimary env rows).toList 3

/-- The pool that is nearest to the reference. -/
def nearest (ref : ℚ) (pools : List (ChartPool F)) : Option (ChartPool F) :=
  (sortBy (fun p => |p.price - ref|) pools).head?

def isLocal (localPools : List (ChartPool F)) (p : ChartPool F) : Bool :=
  localPools.any fun x => samePrice x p

def farEnough (ref priceWindowAbs : ℚ) (p : ChartPool F) : Bool :=
  decide (priceWindowAbs * (12 / 10) ≤ |p.price - ref|)

def pickGlobal (ref priceWindowAbs : ℚ) (localPools : List (ChartPool F))
    (rows : List (ScoredPool F)) : Option (ChartPool F) :=
  (((rows.map ScoredPool.pool).filter fun p => !isLocal localPools p).filter
    (farEnough ref priceWindowAbs)).head?

/-- `p.price === nearest?.price` -/
def hasPriceOf (nearest : Option (ChartPool F)) (p : ChartPool F) : Bool :=
  decide (nearest.map ChartPool.price = some p.price)

/-- The lines and badges of the pools that are kept. -/
def drawAround (ref priceWindowAbs mergeTolAbs : ℚ) (deduped : List (ChartPool F)) :
    PoolSelection F :=
  let aboveScored := scored env ref priceWindowAbs (deduped.filter fun p => ref ≤ p.price)
  let belowScored := scored env ref priceWindowAbs (deduped.filter fun p => p.price < ref)
  let localAbove := localSide env aboveScored
  let localBelow := localSide env belowScored
  let localPools := localAbove ++ localBelow
  let globalPools := (pickGlobal ref priceWindowAbs localPools aboveScored).toList ++
    (pickGlobal ref priceWindowAbs localPools belowScored).toList
  { localPools := localPools.map fun p =>
      ⟨p, hasPriceOf (nearest ref localAbove) p || hasPriceOf (nearest ref localBelow) p, true⟩
    globalPools := globalPools.map fun p => ⟨p, true, false⟩
    refPrice := some ref
    priceWindowAbs := priceWindowAbs
    mergeTolAbs := mergeTolAbs }

def selectPoolsForRender (s : ChartState F) (pools : List (Json F)) : PoolSelection F :=
  let refPrice := pickRefPrice env s
  match numberOf refPrice with
  | none => ⟨[], [], none, 1, 2 / 10⟩
  | some ref =>
    let priceWindowAbs := estimatePriceWindowAbs env refPrice s
    let mergeTolAbs := estimateMergeTolAbs refPrice priceWindowAbs
    drawAround env ref priceWindowAbs mergeTolAbs
      (dedupPoolsByPrice env pools mergeTolAbs (some ref))

/-- A zone near the reference, with its score. -/
def chartZone (ref priceWindowAbs : ℚ) (z : Json F) : Option (ChartZone F) :=
  let focusMin := ref - priceWindowAbs * (12 / 10)
  let focusMax := ref + priceWindowAbs * (12 / 10)
  let minOf := nullish (nullish (prop (some z) "min") (prop (some z) "price_min"))
    (prop (some z) "ote_min")
  let maxOf := nullish (nullish (prop (some z) "max") (prop (some z) "price_max"))
    (prop (some z) "ote_max")
  match minOf.bind env.number, maxOf.bind env.number with
  | some low, some high =>
    let zMin := min low high
    let zMax := max low high
    if zMax < focusMin ∨ focusMax < zMin then none
    else
      let center := (zMin + zMax) / 2
      let role := roleName env (prop (some z) "role")
      let distNorm := |center - ref| / max (1 / 1000000000) priceWindowAbs
      some ⟨z, zMin, zMax, center, roleWeight env (some (.str role)) / (1 + min 6 distNorm)⟩
  | _, _ => none

/-- The zones in the order of their scores. -/
def candidates (ref priceWindowAbs : ℚ) (zones : List (Json F)) : List (ChartZone F) :=
  sortBy (fun z => -z.score) (zones.filterMap (chartZone env ref priceWindowAbs))

def sameCenter (mergeTolAbs : ℚ) (a b : ChartZone F) : Bool :=
  decide (|a.center - b.center| ≤ mergeTolAbs)

/-- A thin zone becomes the level of its centre. -/
def normalized (mergeTolAbs : ℚ) (z : ChartZone F) : ChartZone F :=
  if |z.max - z.min| < mergeTolAbs then { z with min := z.center, max := z.center } else z

def selectZonesForRender (s : ChartState F) (zones : List (Json F)) : ZoneSelection F :=
  let refPrice := pickRefPrice env s
  match numberOf refPrice with
  | none => ⟨[], 2 / 10⟩
  | some ref =>
    let priceWindowAbs := estimatePriceWindowAbs env refPrice s
    let mergeTolAbs := estimateMergeTolAbs refPrice priceWindowAbs
    let picked := fill (sameCenter mergeTolAbs) 3 [] (candidates env ref priceWindowAbs zones)
    ⟨picked.map (normalized mergeTolAbs), mergeTolAbs⟩

variable {env}

theorem mergeTol_pos (refPrice : Option ℚ) (priceWindowAbs : ℚ) :
    0 < estimateMergeTolAbs refPrice priceWindowAbs :=
  lt_max_of_lt_right (by norm_num)

section

variable {ref window tol : ℚ} {pools : List (ChartPool F)}

variable (env) in
/-- The pools of a side, the best first. -/
theorem scored_ranked (ref window : ℚ) (pools : List (ChartPool F)) :
    ((scored env ref window pools).map ScoredPool.pool).Pairwise fun a b =>
      poolScore env ref window b ≤ poolScore env ref window a := by
  have hsorted := sortBy_pairwise (fun row : ScoredPool F => -row.score)
    (pools.map fun p => ⟨p, poolScore env ref window p⟩)
  refine List.pairwise_map.mpr (hsorted.imp_of_mem fun {a b} ha hb hle => ?_)
  obtain ⟨p, -, rfl⟩ := List.mem_map.mp ((mem_sortBy _).mp ha)
  obtain ⟨q, -, rfl⟩ := List.mem_map.mp ((mem_sortBy _).mp hb)
  exact neg_le_neg_iff.mp hle

theorem mem_scored {p : ChartPool F} :
    p ∈ (scored env ref window pools).map ScoredPool.pool ↔ p ∈ pools := by
  constructor
  · intro hp
    obtain ⟨row, hrow, rfl⟩ := List.mem_map.mp hp
    obtain ⟨q, hq, rfl⟩ := List.mem_map.mp ((mem_sortBy _).mp hrow)
    exact hq
  · intro hp
    exact List.mem_map.mpr ⟨_, (mem_sortBy _).mpr (List.mem_map_of_mem hp), rfl⟩

/-- The pool that is picked is the best PRIMARY one. -/
theorem pickPrimary_best {q : ChartPool F}
    (h : pickPrimary env (scored env ref window pools) = some q) :
    q ∈ pools ∧ IsPrimary env q ∧ ∀ p ∈ pools, IsPrimary env p →
      poolScore env ref window p ≤ poolScore env ref window q := by
  obtain ⟨row, hrow, rfl⟩ := Option.map_eq_some_iff.mp h
  have hmem := List.mem_of_find?_eq_some hrow
  obtain ⟨q, hq, rfl⟩ := List.mem_map.mp ((mem_sortBy _).mp hmem)
  have hq' : IsPrimary env q := by
    unfold IsPrimary
    simpa using List.find?_some hrow
  refine ⟨hq, hq', fun p hp hprimary => ?_⟩
  have hle := key_le_of_find? (fun row : ScoredPool F => -row.score)
    (sortBy_pairwise (fun row : ScoredPool F => -row.score) _) hrow
    ((mem_sortBy _).mpr (List.mem_map_of_mem hp)) (decide_eq_true hprimary)
  exact neg_le_neg_iff.mp hle

theorem exists_pickPrimary {p : ChartPool F} (hp : p ∈ pools) (hprimary : IsPrimary env p) :
    ∃ q, pickPrimary env (scored env ref window pools) = some q := by
  refine Option.isSome_iff_exists.mp ?_
  unfold pickPrimary
  rw [Option.isSome_map, List.find?_isSome]
  exact ⟨⟨p, poolScore env ref window p⟩,
    (mem_sortBy _).mpr (List.mem_map_of_mem hp), decide_eq_true hprimary⟩

/-- What is drawn as lines on one side, of pools of different prices. -/
structure SideDrawn (env : PoolBrowser F) (ref window : ℚ) (pools locals : List (ChartPool F)) :
    Prop where
  mem : ∀ q ∈ locals, q ∈ pools
  nodup : locals.Nodup
  few : locals.length ≤ 3
  missing : ∀ p ∈ pools, p ∉ locals → locals.length = 3
  outranked : ∀ p ∈ pools, p ∉ locals → ∀ q ∈ locals,
    poolScore env ref window p ≤ poolScore env ref window q ∨ IsPrimary env q ∧ ¬ IsPrimary env p
  primary : (∃ p ∈ pools, IsPrimary env p) → ∃ q ∈ locals, IsPrimary env q

theorem localSide_drawn (hprices : ∀ p ∈ pools, ∀ q ∈ pools, p.price = q.price → p = q) :
    SideDrawn env ref window pools (localSide env (scored env ref window pools)) := by
  have hshort : (pickPrimary env (scored env ref window pools)).toList.length ≤ 3 := by
    cases pickPrimary env (scored env ref window pools) <;> simp
  have hmem : ∀ q ∈ localSide env (scored env ref window pools), q ∈ pools := by
    intro q hq
    rcases taken_or_mem hq with hq | hq
    · exact (pickPrimary_best (Option.mem_toList.mp hq)).1
    · exact mem_scored.mp hq
  have hapart : (localSide env (scored env ref window pools)).Pairwise
      fun a b => samePrice a b = false := by
    refine fill_pairwise _ ?_
    cases pickPrimary env (scored env ref window pools) with
    | none => exact List.Pairwise.nil
    | some q => exact List.pairwise_singleton _ q
  -- a pool is passed over for its price only where it was taken before
  have hpassed : ∀ p ∈ pools, p ∉ localSide env (scored env ref window pools) →
      3 ≤ (localSide env (scored env ref window pools)).length ∧
        ∀ q ∈ localSide env (scored env ref window pools),
          q ∈ (pickPrimary env (scored env ref window pools)).toList ∨
            poolScore env ref window p ≤ poolScore env ref window q := by
    intro p hp hnot
    rcases fill_outranks (scored_ranked env ref window pools) (mem_scored.mpr hp) with
      h | ⟨y, hy, hyp, -⟩ | h
    · exact absurd h hnot
    · have heq : y = p := hprices y (hmem y hy) p hp (of_decide_eq_true hyp)
      exact absurd (heq ▸ hy) hnot
    · exact h
  constructor
  · exact hmem
  · exact hapart.imp fun {a b} hab heq => by simp [samePrice, heq] at hab
  · exact length_fill_le _ hshort
  · exact fun p hp hnot => le_antisymm (length_fill_le _ hshort) (hpassed p hp hnot).1
  · intro p hp hnot q hq
    rcases (hpassed p hp hnot).2 q hq with hbest | hle
    · obtain ⟨-, hprimary, hbest⟩ := pickPrimary_best (Option.mem_toList.mp hbest)
      by_cases hp' : IsPrimary env p
      · exact Or.inl (hbest p hp hp')
      · exact Or.inr ⟨hprimary, hp'⟩
    · exact Or.inl hle
  · rintro ⟨p, hp, hprimary⟩
    obtain ⟨q, hq⟩ : ∃ q, pickPrimary env (scored env ref window pools) = some q :=
      exists_pickPrimary hp hprimary
    exact ⟨q, mem_fill_of_taken _ (Option.mem_toList.mpr hq), (pickPrimary_best hq).2.1⟩

/-- The badge of one side. -/
theorem pickGlobal_best {locals : List (ChartPool F)} {q : ChartPool F}
    (h : pickGlobal ref window locals (scored env ref window pools) = some q) :
    q ∈ pools ∧ isLocal locals q = false ∧ farEnough ref window q = true := by
  have hmem := List.mem_of_head? h
  obtain ⟨hmem, hfar⟩ := List.mem_filter.mp hmem
  obtain ⟨hmem, hnot⟩ := List.mem_filter.mp hmem
  exact ⟨mem_scored.mp hmem, by simpa using hnot, hfar⟩

theorem exists_pickGlobal {locals : List (ChartPool F)} {p : ChartPool F} (hp : p ∈ pools)
    (hnot : isLocal locals p = false) (hfar : farEnough ref window p = true) :
    ∃ q, pickGlobal ref window locals (scored env ref window pools) = some q ∧
      poolScore env ref window p ≤ poolScore env ref window q := by
  have hmem : p ∈ (((scored env ref window pools).map ScoredPool.pool).filter
      fun p => !isLocal locals p).filter (farEnough ref window) := by
    simp [List.mem_filter, hnot, hfar, mem_scored.mpr hp]
  have hranked := ((scored_ranked env ref window pools).filter
    fun p => !isLocal locals p).filter (farEnough ref window)
  unfold pickGlobal
  cases hrows : (((scored env ref window pools).map ScoredPool.pool).filter
      fun p => !isLocal locals p).filter (farEnough ref window) with
  | nil =>
      rw [hrows] at hmem
      cases hmem
  | cons q rest =>
      rw [hrows] at hmem hranked
      refine ⟨q, rfl, ?_⟩
      rcases List.mem_cons.mp hmem with rfl | hrest
      · exact le_rfl
      · exact (List.pairwise_cons.mp hranked).1 p hrest

theorem nearest_best {q : ChartPool F} (h : nearest ref pools = some q) :
    q ∈ pools ∧ ∀ p ∈ pools, |q.price - ref| ≤ |p.price - ref| := by
  have hsorted := sortBy_pairwise (fun p : ChartPool F => |p.price - ref|) pools
  unfold nearest at h
  refine ⟨(mem_sortBy _).mp (List.mem_of_head? h), fun p hp => ?_⟩
  have hmem := (mem_sortBy fun p : ChartPool F => |p.price - ref|).mpr hp
  obtain ⟨rest, hrows⟩ := List.head?_eq_some_iff.mp h
  rw [hrows] at hmem hsorted
  rcases List.mem_cons.mp hmem with rfl | hrest
  · exact le_rfl
  · exact (List.pairwise_cons.mp hsorted).1 p hrest

theorem exists_nearest {p : ChartPool F} (hp : p ∈ pools) : ∃ q, nearest ref pools = some q := by
  refine Option.isSome_iff_exists.mp ?_
  unfold nearest
  rw [List.isSome_head?]
  exact List.ne_nil_of_mem ((mem_sortBy _).mpr hp)

end

section

variable {ref window tol : ℚ}

/-- Both above the reference, or both below it. -/
def SameSide (ref : ℚ) (p q : ChartPool F) : Prop := ref ≤ p.price ↔ ref ≤ q.price

theorem price_eq_of_distance {p q : ChartPool F} (hside : SameSide ref p q)
    (h : |p.price - ref| = |q.price - ref|) : p.price = q.price := by
  by_cases hp : ref ≤ p.price
  · have hq : ref ≤ q.price := hside.mp hp
    rw [abs_of_nonneg (sub_nonneg.mpr hp), abs_of_nonneg (sub_nonneg.mpr hq)] at h
    exact sub_left_inj.mp h
  · have hq : ¬ ref ≤ q.price := fun hq => hp (hside.mpr hq)
    rw [abs_of_nonpos (sub_nonpos.mpr (not_le.mp hp).le),
      abs_of_nonpos (sub_nonpos.mpr (not_le.mp hq).le)] at h
    exact sub_left_inj.mp (neg_inj.mp h)

/-- What is drawn of the pools that are kept: lines for `locals` and badges for `globals`. -/
structure PoolsDrawn (env : PoolBrowser F) (ref window tol : ℚ)
    (kept locals globals : List (ChartPool F)) : Prop where
  mem : ∀ q ∈ locals ++ globals, q ∈ kept
  apart : (locals ++ globals).Pairwise fun a b => tol < |a.price - b.price|
  few : (locals.filter fun q => ref ≤ q.price).length ≤ 3 ∧
    (locals.filter fun q => q.price < ref).length ≤ 3
  missing : ∀ p ∈ kept, p ∉ locals →
    if ref ≤ p.price then (locals.filter fun q => ref ≤ q.price).length = 3
    else (locals.filter fun q => q.price < ref).length = 3
  outranked : ∀ p ∈ kept, p ∉ locals → ∀ q ∈ locals, SameSide ref p q →
    poolScore env ref window p ≤ poolScore env ref window q ∨ IsPrimary env q ∧ ¬ IsPrimary env p
  primary : ∀ p ∈ kept, IsPrimary env p → ∃ q ∈ locals, SameSide ref p q ∧ IsPrimary env q
  far : ∀ q ∈ globals, farEnough ref window q = true
  oneBadge : globals.Pairwise fun a b => ¬ SameSide ref a b
  badge : ∀ p ∈ kept, p ∉ locals → farEnough ref window p = true →
    ∃ q ∈ globals, SameSide ref p q ∧ poolScore env ref window p ≤ poolScore env ref window q

variable {kept : List (ChartPool F)}

theorem apart_of_mem (hkept : kept.Pairwise fun a b => tol < |a.price - b.price|) :
    ∀ p ∈ kept, ∀ q ∈ kept, p ≠ q → tol < |p.price - q.price| := by
  have hsymm : Std.Symm fun a b : ChartPool F => tol < |a.price - b.price| :=
    ⟨fun a b h => abs_sub_comm a.price b.price ▸ h⟩
  exact fun p hp q hq hne => hkept.forall hp hq hne

theorem eq_of_price (htol : 0 < tol) (hkept : kept.Pairwise fun a b => tol < |a.price - b.price|) :
    ∀ p ∈ kept, ∀ q ∈ kept, p.price = q.price → p = q := by
  intro p hp q hq h
  by_contra hne
  have hlt := apart_of_mem hkept p hp q hq hne
  rw [h, sub_self, abs_zero] at hlt
  exact hlt.not_gt htol

theorem isLocal_iff {locals : List (ChartPool F)} {p : ChartPool F} (htol : 0 < tol)
    (hkept : kept.Pairwise fun a b => tol < |a.price - b.price|)
    (hlocals : ∀ q ∈ locals, q ∈ kept) (hp : p ∈ kept) : isLocal locals p = true ↔ p ∈ locals := by
  unfold isLocal samePrice
  rw [List.any_eq_true]
  constructor
  · rintro ⟨q, hq, h⟩
    exact eq_of_price htol hkept q (hlocals q hq) p hp (of_decide_eq_true h) ▸ hq
  · exact fun h => ⟨p, h, decide_eq_true rfl⟩

theorem filter_sides {above below : List (ChartPool F)} (habove : ∀ q ∈ above, ref ≤ q.price)
    (hbelow : ∀ q ∈ below, q.price < ref) :
    (above ++ below).filter (fun q => ref ≤ q.price) = above ∧
      (above ++ below).filter (fun q => q.price < ref) = below := by
  rw [List.filter_append, List.filter_append]
  constructor
  · rw [List.filter_eq_self.mpr fun q hq => decide_eq_true (habove q hq),
      List.filter_eq_nil_iff.mpr fun q hq => by simpa using hbelow q hq, List.append_nil]
  · rw [List.filter_eq_nil_iff.mpr fun q hq => by simpa using habove q hq,
      List.filter_eq_self.mpr fun q hq => decide_eq_true (hbelow q hq), List.nil_append]

/-- The badges of both sides. -/
def badges (env : PoolBrowser F) (ref window : ℚ) (kept locals : List (ChartPool F)) :
    List (ChartPool F) :=
  (pickGlobal ref window locals
      (scored env ref window (kept.filter fun p => ref ≤ p.price))).toList ++
    (pickGlobal ref window locals
      (scored env ref window (kept.filter fun p => p.price < ref))).toList

theorem mem_badges {locals : List (ChartPool F)} {q : ChartPool F}
    (h : q ∈ badges env ref window kept locals) :
    q ∈ kept ∧ isLocal locals q = false ∧ farEnough ref window q = true := by
  rcases List.mem_append.mp h with h | h
  · obtain ⟨hmem, h⟩ := pickGlobal_best (Option.mem_toList.mp h)
    exact ⟨List.mem_of_mem_filter hmem, h⟩
  · obtain ⟨hmem, h⟩ := pickGlobal_best (Option.mem_toList.mp h)
    exact ⟨List.mem_of_mem_filter hmem, h⟩

/-- There is at most one badge on a side. -/
theorem badges_pairwise (locals : List (ChartPool F)) :
    (badges env ref window kept locals).Pairwise fun a b => ¬ SameSide ref a b := by
  have hone : ∀ best : Option (ChartPool F),
      best.toList.Pairwise fun a b => ¬ SameSide ref a b := by
    intro best
    cases best with
    | none => exact List.Pairwise.nil
    | some q => exact List.pairwise_singleton _ q
  refine List.pairwise_append.mpr ⟨hone _, hone _, fun a ha b hb hsame => ?_⟩
  · have hup := (pickGlobal_best (Option.mem_toList.mp ha)).1
    have hdown := (pickGlobal_best (Option.mem_toList.mp hb)).1
    have hle : ref ≤ a.price := by simpa using (List.mem_filter.mp hup).2
    have hlt : b.price < ref := by simpa using (List.mem_filter.mp hdown).2
    exact hlt.not_ge (hsame.mp hle)

/-- A pool that is far away and no line has a badge on its side that outranks it. -/
theorem exists_badge {locals : List (ChartPool F)} {p : ChartPool F} (hp : p ∈ kept)
    (hnot : isLocal locals p = false) (hfar : farEnough ref window p = true) :
    ∃ q ∈ badges env ref window kept locals, SameSide ref p q ∧
      poolScore env ref window p ≤ poolScore env ref window q := by
  by_cases hle : ref ≤ p.price
  · have hside : p ∈ kept.filter fun p => ref ≤ p.price :=
      List.mem_filter.mpr ⟨hp, decide_eq_true hle⟩
    obtain ⟨q, hq, hscore⟩ := exists_pickGlobal hside hnot hfar
    have hmem := (pickGlobal_best hq).1
    have hle' : ref ≤ q.price := by simpa using (List.mem_filter.mp hmem).2
    exact ⟨q, List.mem_append_left _ (Option.mem_toList.mpr hq), iff_of_true hle hle', hscore⟩
  · have hside : p ∈ kept.filter fun p => p.price < ref :=
      List.mem_filter.mpr ⟨hp, decide_eq_true (not_le.mp hle)⟩
    obtain ⟨q, hq, hscore⟩ := exists_pickGlobal hside hnot hfar
    have hmem := (pickGlobal_best hq).1
    have hlt : q.price < ref := by simpa using (List.mem_filter.mp hmem).2
    exact ⟨q, List.mem_append_right _ (Option.mem_toList.mpr hq),
      iff_of_false hle hlt.not_ge, hscore⟩

/-- The lines of the two sides with their badges. -/
theorem poolsDrawn_of_sides {above below : List (ChartPool F)} (htol : 0 < tol)
    (hkept : kept.Pairwise fun a b => tol < |a.price - b.price|)
    (habove : SideDrawn env ref window (kept.filter fun p => ref ≤ p.price) above)
    (hbelow : SideDrawn env ref window (kept.filter fun p => p.price < ref) below) :
    PoolsDrawn env ref window tol kept (above ++ below)
      (badges env ref window kept (above ++ below)) := by
  have hup : ∀ q ∈ above, q ∈ kept ∧ ref ≤ q.price := fun q hq => by
    simpa using habove.mem q hq
  have hdown : ∀ q ∈ below, q ∈ kept ∧ q.price < ref := fun q hq => by
    simpa using hbelow.mem q hq
  have hlocals : ∀ q ∈ above ++ below, q ∈ kept := by
    intro q hq
    rcases List.mem_append.mp hq with hq | hq
    · exact (hup q hq).1
    · exact (hdown q hq).1
  have hmem : ∀ q ∈ above ++ below ++ badges env ref window kept (above ++ below), q ∈ kept := by
    intro q hq
    rcases List.mem_append.mp hq with hq | hq
    · exact hlocals q hq
    · exact (mem_badges hq).1
  have hnodup : (above ++ below ++ badges env ref window kept (above ++ below)).Nodup := by
    refine List.nodup_append.mpr ⟨List.nodup_append.mpr ⟨habove.nodup, hbelow.nodup, ?_⟩, ?_, ?_⟩
    · rintro q hq _ hq' rfl
      exact (hup q hq).2.not_gt (hdown q hq').2
    · refine (badges_pairwise _).imp fun {a b} hside heq => ?_
      subst heq
      exact hside Iff.rfl
    · rintro q hq _ hq' rfl
      have hnot := (mem_badges hq').2.1
      rw [(isLocal_iff htol hkept hlocals (hlocals q hq)).mpr hq] at hnot
      cases hnot
  have hsides := filter_sides (fun q hq => (hup q hq).2) fun q hq => (hdown q hq).2
  constructor
  · exact hmem
  · exact hnodup.imp_of_mem fun {a b} ha hb hne =>
      apart_of_mem hkept a (hmem a ha) b (hmem b hb) hne
  · rw [hsides.1, hsides.2]
    exact ⟨habove.few, hbelow.few⟩
  · intro p hp hnot
    rw [hsides.1, hsides.2]
    rw [List.mem_append, not_or] at hnot
    split_ifs with hle
    · exact habove.missing p (List.mem_filter.mpr ⟨hp, decide_eq_true hle⟩) hnot.1
    · exact hbelow.missing p (List.mem_filter.mpr ⟨hp, decide_eq_true (not_le.mp hle)⟩) hnot.2
  · intro p hp hnot q hq hside
    rw [List.mem_append, not_or] at hnot
    rcases List.mem_append.mp hq with hq | hq
    · have hle := hside.mpr (hup q hq).2
      exact habove.outranked p (List.mem_filter.mpr ⟨hp, decide_eq_true hle⟩) hnot.1 q hq
    · have hlt : p.price < ref := not_le.mp fun hle => (hdown q hq).2.not_ge (hside.mp hle)
      exact hbelow.outranked p (List.mem_filter.mpr ⟨hp, decide_eq_true hlt⟩) hnot.2 q hq
  · intro p hp hprimary
    by_cases hle : ref ≤ p.price
    · obtain ⟨q, hq, hprimary⟩ :=
        habove.primary ⟨p, List.mem_filter.mpr ⟨hp, decide_eq_true hle⟩, hprimary⟩
      exact ⟨q, List.mem_append_left _ hq, iff_of_true hle (hup q hq).2, hprimary⟩
    · obtain ⟨q, hq, hprimary⟩ :=
        hbelow.primary ⟨p, List.mem_filter.mpr ⟨hp, decide_eq_true (not_le.mp hle)⟩, hprimary⟩
      exact ⟨q, List.mem_append_right _ hq, iff_of_false hle (hdown q hq).2.not_ge, hprimary⟩
  · exact fun q hq => (mem_badges hq).2.2
  · exact badges_pairwise _
  · intro p hp hnot hfar
    refine exists_badge hp ?_ hfar
    rw [← isLocal_iff htol hkept hlocals hp] at hnot
    exact Bool.not_eq_true _ ▸ hnot

/-- On one side a line is labelled where no other is nearer to the reference. -/
theorem hasPriceOf_nearest {p : ChartPool F} {pools : List (ChartPool F)} (hp : p ∈ pools)
    (hside : ∀ q ∈ pools, SameSide ref p q) :
    hasPriceOf (nearest ref pools) p = true ↔
      ∀ q ∈ pools, |p.price - ref| ≤ |q.price - ref| := by
  obtain ⟨best, hbest⟩ : ∃ best, nearest ref pools = some best := exists_nearest hp
  obtain ⟨hmem, hle⟩ := nearest_best hbest
  have hlabel : hasPriceOf (nearest ref pools) p = true ↔ best.price = p.price := by
    unfold hasPriceOf
    rw [hbest, decide_eq_true_iff, Option.map_some, Option.some_inj]
  rw [hlabel]
  constructor
  · intro heq q hq
    rw [← heq]
    exact hle q hq
  · intro h
    exact (price_eq_of_distance (hside best hmem) (le_antisymm (h best hmem) (hle p hp))).symm

theorem hasPriceOf_other {p : ChartPool F} {pools : List (ChartPool F)}
    (hside : ∀ q ∈ pools, ¬ SameSide ref p q) : hasPriceOf (nearest ref pools) p = false := by
  unfold hasPriceOf
  cases hbest : nearest ref pools with
  | none => rfl
  | some best =>
      refine decide_eq_false fun heq => hside best (nearest_best hbest).1 ?_
      rw [Option.map_some, Option.some_inj] at heq
      unfold SameSide
      rw [heq]

/-- The label of a line. -/
theorem label_iff {above below : List (ChartPool F)} (habove : ∀ q ∈ above, ref ≤ q.price)
    (hbelow : ∀ q ∈ below, q.price < ref) {p : ChartPool F} (hp : p ∈ above ++ below) :
    (hasPriceOf (nearest ref above) p || hasPriceOf (nearest ref below) p) = true ↔
      ∀ q ∈ above ++ below, SameSide ref p q → |p.price - ref| ≤ |q.price - ref| := by
  rcases List.mem_append.mp hp with hp | hp
  · have hup : ∀ q ∈ above, SameSide ref p q := fun q hq =>
      iff_of_true (habove p hp) (habove q hq)
    have hdown : ∀ q ∈ below, ¬ SameSide ref p q := fun q hq hside =>
      (hbelow q hq).not_ge (hside.mp (habove p hp))
    rw [hasPriceOf_other hdown, Bool.or_false, hasPriceOf_nearest hp hup]
    constructor
    · intro h q hq hside
      exact (List.mem_append.mp hq).elim (h q) fun hq => absurd hside (hdown q hq)
    · exact fun h q hq => h q (List.mem_append_left _ hq) (hup q hq)
  · have hdown : ∀ q ∈ below, SameSide ref p q := fun q hq =>
      iff_of_false (hbelow p hp).not_ge (hbelow q hq).not_ge
    have hup : ∀ q ∈ above, ¬ SameSide ref p q := fun q hq hside =>
      (hbelow p hp).not_ge (hside.mpr (habove q hq))
    rw [hasPriceOf_other hup, Bool.false_or, hasPriceOf_nearest hp hdown]
    constructor
    · intro h q hq hside
      exact (List.mem_append.mp hq).elim (fun hq => absurd hside (hup q hq)) (h q)
    · exact fun h q hq => h q (List.mem_append_right _ hq) (hdown q hq)

end

theorem numberOf_eq (price : Option ℚ) : numberOf price = some (price.getD 0) := by
  cases price <;> rfl

variable (env) in
theorem dedup_apart (pools : List (Json F)) (tol ref : ℚ) :
    (dedupPoolsByPrice env pools tol (some ref)).Pairwise fun a b => tol < |a.price - b.price| := by
  have hselects : Selects (chooseBetterPool env (some ref)) := chooseBetterPool_selects
  refine (champions_apart hselects (sortBy_pairwise ChartPool.price _)).imp fun {a b} h => ?_
  rw [abs_sub_comm]
  exact (le_max_right 0 tol).trans_lt (h.trans_le (le_abs_self _))

/-- A pool with a price gives way to one that is kept, PRIMARY if it is. -/
theorem exists_kept_primary {pools : List (Json F)} (tol ref : ℚ) {p : ChartPool F}
    (hp : p ∈ cleanedPools env pools) :
    ∃ kept ∈ dedupPoolsByPrice env pools tol (some ref), IsPrimary env p → IsPrimary env kept := by
  obtain ⟨kept, hkept, hup⟩ := exists_kept env pools tol (some ref) hp
  exact ⟨kept, hkept, isPrimary_of_gaveWay hup⟩

/-- The two flags of what is drawn: the lines nearest to the reference are labelled. -/
structure FlagsDrawn (ref : ℚ) (sel : PoolSelection F) : Prop where
  lines : ∀ d ∈ sel.localPools, d.lineVisible = true ∧
    (d.axisLabel = true ↔ ∀ e ∈ sel.localPools, SameSide ref d.pool e.pool →
      |d.pool.price - ref| ≤ |e.pool.price - ref|)
  badges : ∀ d ∈ sel.globalPools, d.axisLabel = true ∧ d.lineVisible = false

section

variable {ref window tol : ℚ} {kept : List (ChartPool F)}

theorem above_drawn (htol : 0 < tol) (hkept : kept.Pairwise fun a b => tol < |a.price - b.price|)
    (side : ChartPool F → Bool) :
    SideDrawn env ref window (kept.filter side)
      (localSide env (scored env ref window (kept.filter side))) := by
  refine localSide_drawn fun p hp q hq => ?_
  exact eq_of_price htol hkept p (List.mem_of_mem_filter hp) q (List.mem_of_mem_filter hq)

theorem drawAround_pools (htol : 0 < tol)
    (hkept : kept.Pairwise fun a b => tol < |a.price - b.price|) :
    PoolsDrawn env ref window tol kept
      ((drawAround env ref window tol kept).localPools.map DrawnPool.pool)
      ((drawAround env ref window tol kept).globalPools.map DrawnPool.pool) := by
  unfold drawAround
  simp only [List.map_map, Function.comp_def, List.map_id']
  exact poolsDrawn_of_sides htol hkept (above_drawn htol hkept _) (above_drawn htol hkept _)

theorem drawAround_flags (htol : 0 < tol)
    (hkept : kept.Pairwise fun a b => tol < |a.price - b.price|) :
    FlagsDrawn ref (drawAround env ref window tol kept) := by
  have hup : ∀ q ∈ localSide env (scored env ref window (kept.filter fun p => ref ≤ p.price)),
      ref ≤ q.price := fun q hq => by
    simpa using (List.mem_filter.mp ((above_drawn htol hkept _).mem q hq)).2
  have hdown : ∀ q ∈ localSide env (scored env ref window (kept.filter fun p => p.price < ref)),
      q.price < ref := fun q hq => by
    simpa using (List.mem_filter.mp ((above_drawn htol hkept _).mem q hq)).2
  unfold drawAround
  constructor
  · intro d hd
    obtain ⟨p, hp, rfl⟩ := List.mem_map.mp hd
    refine ⟨rfl, (label_iff hup hdown hp).trans ⟨fun h e he => ?_, fun h q hq => ?_⟩⟩
    · obtain ⟨q, hq, rfl⟩ := List.mem_map.mp he
      exact h q hq
    · exact h _ (List.mem_map_of_mem hq)
  · intro d hd
    obtain ⟨p, -, rfl⟩ := List.mem_map.mp hd
    exact ⟨rfl, rfl⟩

/-- Something is drawn on the side of a pool that is kept. -/
theorem drawAround_of_kept (htol : 0 < tol)
    (hkept : kept.Pairwise fun a b => tol < |a.price - b.price|) {p : ChartPool F} (hp : p ∈ kept) :
    ∃ d ∈ (drawAround env ref window tol kept).localPools,
      IsPrimary env p → IsPrimary env d.pool := by
  have hdrawn : PoolsDrawn env ref window tol kept
      ((drawAround env ref window tol kept).localPools.map DrawnPool.pool)
      ((drawAround env ref window tol kept).globalPools.map DrawnPool.pool) :=
    drawAround_pools htol hkept
  have hline : ∀ q ∈ (drawAround env ref window tol kept).localPools.map DrawnPool.pool,
      (IsPrimary env p → IsPrimary env q) →
        ∃ d ∈ (drawAround env ref window tol kept).localPools,
          IsPrimary env p → IsPrimary env d.pool := by
    intro q hq himp
    obtain ⟨d, hd, rfl⟩ := List.mem_map.mp hq
    exact ⟨d, hd, himp⟩
  by_cases hprimary : IsPrimary env p
  · obtain ⟨q, hq, -, hq'⟩ := hdrawn.primary p hp hprimary
    exact hline q hq fun _ => hq'
  by_cases hmem : p ∈ (drawAround env ref window tol kept).localPools.map DrawnPool.pool
  · exact hline p hmem id
  -- three lines are drawn on its side
  have hthree := hdrawn.missing p hp hmem
  have hex : ∃ q, q ∈ (drawAround env ref window tol kept).localPools.map DrawnPool.pool := by
    split_ifs at hthree
    · obtain ⟨q, hq⟩ := List.exists_mem_of_length_pos (hthree ▸ three_pos)
      exact ⟨q, List.mem_of_mem_filter hq⟩
    · obtain ⟨q, hq⟩ := List.exists_mem_of_length_pos (hthree ▸ three_pos)
      exact ⟨q, List.mem_of_mem_filter hq⟩
  obtain ⟨q, hq⟩ := hex
  exact hline q hq fun h => absurd h hprimary

end

/-- Whatever the chart holds and whatever pools it is given, the check for a reference never
fails: on a chart without a price the reference is 0. Of the pools that are kept at most three on
each side become lines, and one is left out only for three that outrank it, or for the best
PRIMARY one; what is drawn lies apart. The best far one of each side that is no line has a badge.
The lines nearest to the reference are labelled. Some pool is drawn if any has a price, and a
PRIMARY one if there is any. -/
theorem drawn_pools_outrank (env : PoolBrowser F) (s : ChartState F) (pools : List (Json F)) :
    ∃ ref, ref = (pickRefPrice env s).getD 0 ∧
      (selectPoolsForRender env s pools).refPrice = some ref ∧
      PoolsDrawn env ref (selectPoolsForRender env s pools).priceWindowAbs
        (selectPoolsForRender env s pools).mergeTolAbs
        (dedupPoolsByPrice env pools (selectPoolsForRender env s pools).mergeTolAbs (some ref))
        ((selectPoolsForRender env s pools).localPools.map DrawnPool.pool)
        ((selectPoolsForRender env s pools).globalPools.map DrawnPool.pool) ∧
      FlagsDrawn ref (selectPoolsForRender env s pools) ∧
      ∀ p ∈ cleanedPools env pools, ∃ d ∈ (selectPoolsForRender env s pools).localPools,
        IsPrimary env p → IsPrimary env d.pool := by
  refine ⟨(pickRefPrice env s).getD 0, rfl, ?_⟩
  have hsel : selectPoolsForRender env s pools =
      let window := estimatePriceWindowAbs env (pickRefPrice env s) s
      let tol := estimateMergeTolAbs (pickRefPrice env s) window
      drawAround env ((pickRefPrice env s).getD 0) window tol
        (dedupPoolsByPrice env pools tol (some ((pickRefPrice env s).getD 0))) := by
    simp only [selectPoolsForRender, numberOf_eq]
  have htol := mergeTol_pos (pickRefPrice env s) (estimatePriceWindowAbs env (pickRefPrice env s) s)
  have hkept := dedup_apart env pools (estimateMergeTolAbs (pickRefPrice env s)
    (estimatePriceWindowAbs env (pickRefPrice env s) s)) ((pickRefPrice env s).getD 0)
  rw [hsel]
  refine ⟨rfl, drawAround_pools htol hkept, drawAround_flags htol hkept, fun p hp => ?_⟩
  obtain ⟨q, hq, hup⟩ := exists_kept_primary _ _ hp
  obtain ⟨d, hd, hprimary⟩ := drawAround_of_kept htol hkept hq
  exact ⟨d, hd, fun h => hprimary (hup h)⟩

section

variable {ref window tol : ℚ}

theorem center_of_chartZone {z : Json F} {c : ChartZone F}
    (h : chartZone env ref window z = some c) : c.min ≤ c.center ∧ c.center ≤ c.max := by
  unfold chartZone at h
  dsimp only at h
  split at h
  · next low high hlow hhigh =>
    split_ifs at h
    cases h
    have hle : min low high ≤ max low high := min_le_max
    constructor <;> dsimp only <;> linarith
  · cases h

theorem mem_candidates {zones : List (Json F)} {c : ChartZone F} :
    c ∈ candidates env ref window zones ↔ ∃ z ∈ zones, chartZone env ref window z = some c := by
  unfold candidates
  rw [mem_sortBy, List.mem_filterMap]

@[simp] theorem center_normalized (z : ChartZone F) : (normalized tol z).center = z.center := by
  unfold normalized
  split_ifs <;> rfl

@[simp] theorem score_normalized (z : ChartZone F) : (normalized tol z).score = z.score := by
  unfold normalized
  split_ifs <;> rfl

/-- What is drawn of the zones near a reference. -/
structure ZonesDrawn (env : PoolBrowser F) (ref window tol : ℚ) (zones : List (Json F))
    (drawn : List (ChartZone F)) : Prop where
  mem : ∀ d ∈ drawn, ∃ z ∈ zones, ∃ c, chartZone env ref window z = some c ∧ d = normalized tol c
  few : drawn.length ≤ 3
  apart : drawn.Pairwise fun a b => tol < |a.center - b.center|
  thin : ∀ d ∈ drawn, d.min = d.center ∧ d.max = d.center ∨
    d.min ≤ d.center ∧ d.center ≤ d.max ∧ tol ≤ d.max - d.min
  outranked : ∀ z ∈ zones, ∀ c, chartZone env ref window z = some c →
    normalized tol c ∈ drawn ∨
      (∃ d ∈ drawn, |d.center - c.center| ≤ tol ∧ c.score ≤ d.score) ∨
      (drawn.length = 3 ∧ ∀ d ∈ drawn, c.score ≤ d.score)

/-- A zone that is drawn is a level, or as wide as the tolerance at least. -/
theorem normalized_thin {c : ChartZone F} (hmin : c.min ≤ c.center) (hmax : c.center ≤ c.max) :
    (normalized tol c).min = c.center ∧ (normalized tol c).max = c.center ∨
      (normalized tol c).min ≤ c.center ∧ c.center ≤ (normalized tol c).max ∧
        tol ≤ (normalized tol c).max - (normalized tol c).min := by
  unfold normalized
  split_ifs with hthin
  · exact Or.inl ⟨rfl, rfl⟩
  · refine Or.inr ⟨hmin, hmax, ?_⟩
    rwa [abs_of_nonneg (sub_nonneg.mpr (hmin.trans hmax)), not_lt] at hthin

theorem zonesDrawn_of_picked (ref window tol : ℚ) (zones : List (Json F)) :
    ZonesDrawn env ref window tol zones
      ((fill (sameCenter tol) 3 [] (candidates env ref window zones)).map (normalized tol)) := by
  have hmem : ∀ c ∈ fill (sameCenter tol) 3 [] (candidates env ref window zones),
      ∃ z ∈ zones, chartZone env ref window z = some c := by
    intro c hc
    exact mem_candidates.mp ((taken_or_mem hc).resolve_left List.not_mem_nil)
  have hapart : (fill (sameCenter tol) 3 [] (candidates env ref window zones)).Pairwise
      fun a b => sameCenter tol a b = false := fill_pairwise _ List.Pairwise.nil
  constructor
  · intro d hd
    obtain ⟨c, hc, rfl⟩ := List.mem_map.mp hd
    obtain ⟨z, hz, hzone⟩ := hmem c hc
    exact ⟨z, hz, c, hzone, rfl⟩
  · rw [List.length_map]
    exact length_fill_le _ (Nat.zero_le 3)
  · refine List.pairwise_map.mpr (hapart.imp fun {a b} h => ?_)
    rw [center_normalized, center_normalized]
    exact not_le.mp (of_decide_eq_false h)
  · intro d hd
    obtain ⟨c, hc, rfl⟩ := List.mem_map.mp hd
    obtain ⟨z, -, hzone⟩ := hmem c hc
    rw [center_normalized]
    exact normalized_thin (center_of_chartZone hzone).1 (center_of_chartZone hzone).2
  · intro z hz c hzone
    have hranked := sortBy_pairwise (fun z : ChartZone F => -z.score)
      (zones.filterMap (chartZone env ref window))
    have hcandidate : c ∈ candidates env ref window zones := mem_candidates.mpr ⟨z, hz, hzone⟩
    rcases @fill_outranks _ (sameCenter tol) 3 _ [] _ hranked c hcandidate with
      h | ⟨d, hd, hclash, hrank⟩ | ⟨hlen, hrank⟩
    · exact Or.inl (List.mem_map_of_mem h)
    · refine Or.inr (Or.inl ⟨normalized tol d, List.mem_map_of_mem hd, ?_, ?_⟩)
      · rw [center_normalized]
        exact of_decide_eq_true hclash
      · rw [score_normalized]
        exact neg_le_neg_iff.mp (hrank.resolve_left List.not_mem_nil)
    · refine Or.inr (Or.inr ⟨?_, fun d hd => ?_⟩)
      · rw [List.length_map]
        exact le_antisymm (length_fill_le _ (Nat.zero_le 3)) hlen
      · obtain ⟨e, he, rfl⟩ := List.mem_map.mp hd
        rw [score_normalized]
        exact neg_le_neg_iff.mp ((hrank e he).resolve_left List.not_mem_nil)

end

/-- Of the zones that reach into the focus around the reference at most three are drawn, with
centres apart, each as a level or as a band that is not too thin. A zone is left out only for one
that outranks it and has nearly the same centre, or for three that outrank it. -/
theorem drawn_zones_outrank (env : PoolBrowser F) (s : ChartState F) (zones : List (Json F)) :
    ZonesDrawn env ((pickRefPrice env s).getD 0)
      (estimatePriceWindowAbs env (pickRefPrice env s) s)
      (selectZonesForRender env s zones).mergeTolAbs zones
      (selectZonesForRender env s zones).zones := by
  have hsel : selectZonesForRender env s zones =
      let window := estimatePriceWindowAbs env (pickRefPrice env s) s
      let tol := estimateMergeTolAbs (pickRefPrice env s) window
      ⟨(fill (sameCenter tol) 3 []
        (candidates env ((pickRefPrice env s).getD 0) window zones)).map
          (normalized tol), tol⟩ := by
    simp only [selectZonesForRender, numberOf_eq]
  rw [hsel]
  exact zonesDrawn_of_picked _ _ _ zones

end ChartSelection

end SmcPipeline
