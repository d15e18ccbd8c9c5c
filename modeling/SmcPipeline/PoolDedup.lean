import SmcPipeline.Champions
import SmcPipeline.KeyedRows
import SmcPipeline.ViewerClient
import Mathlib.Algebra.Order.Ring.Rat
import Mathlib.Data.Prod.Lex
import Mathlib.Tactic.NormNum

/-!
# Pools of one price on the chart

`dedupPoolsByPrice` and `chooseBetterPool` of `UI_v2/web_client/chart_adapter.js`: pools in the
order of their prices, of which each within the tolerance of the pool in hand meets it. A pool
can lose to one that loses to a third, out of its reach; the level then drawn is as important.
-/

namespace SmcPipeline

/-- The conversions of the JavaScript engine, with those to text. -/
structure PoolBrowser (F : Type*) extends Browser F where
  string : Json F → String
  toUpperCase : String → String

/-- A pool with its price as a finite number. -/
structure ChartPool (F : Type*) where
  pool : Json F
  price : ℚ

namespace PoolDedup

open ViewerClient KeyedRows Champions

variable {F : Type*} (env : PoolBrowser F)

/-- `String(role || "").toUpperCase()` -/
def roleName (role : Option (Json F)) : String :=
  match or env.toBrowser role (some (.str "")) with
  | none => ""
  | some v => env.toUpperCase (env.string v)

def roleWeight (role : Option (Json F)) : ℚ :=
  if roleName env role = "PRIMARY" then 1
  else if roleName env role = "COUNTER" then 6 / 10
  else 5 / 10

/-- A number that is not finite is taken for `-Infinity`. -/
def finiteOrLowest (value : Option (Json F)) : WithBot ℚ :=
  match value.bind env.number with
  | none => ⊥
  | some x => (x : WithBot ℚ)

def chooseBetterPool (refPrice : Option ℚ) (a b : ChartPool F) : ChartPool F :=
  let ra := roleWeight env (prop (some a.pool) "role")
  let rb := roleWeight env (prop (some b.pool) "role")
  let sa := finiteOrLowest env (prop (some a.pool) "strength")
  let sb := finiteOrLowest env (prop (some b.pool) "strength")
  let ta := finiteOrLowest env (prop (some a.pool) "touches")
  let tb := finiteOrLowest env (prop (some b.pool) "touches")
  if ra ≠ rb then if rb < ra then a else b
  else if sa ≠ sb then if sb < sa then a else b
  else if ta ≠ tb then if tb < ta then a else b
  else
    match refPrice with
    | none => a
    | some ref => if |a.price - ref| ≤ |b.price - ref| then a else b

def chartPool (pool : Json F) : Option (ChartPool F) :=
  ((prop (some pool) "price").bind env.number).map fun price => ⟨pool, price⟩

/-- The pools with a finite price, the lowest first. -/
def cleanedPools (pools : List (Json F)) : List (ChartPool F) :=
  sortBy ChartPool.price (pools.filterMap (chartPool env))

def dedupPoolsByPrice (pools : List (Json F)) (mergeTolAbs : ℚ) (refPrice : Option ℚ) :
    List (ChartPool F) :=
  champions ChartPool.price (max 0 mergeTolAbs) (chooseBetterPool env refPrice)
    (cleanedPools env pools)

def IsPrimary (p : ChartPool F) : Prop := roleName env (prop (some p.pool) "role") = "PRIMARY"

/-- Without a reference price all prices are as near. -/
def distanceTo (refPrice : Option ℚ) (price : ℚ) : ℚ := refPrice.elim 0 fun ref => |price - ref|

/-- What a pool is preferred for, the most important first: its role, its strength, its touches
and how near it lies to the reference price. -/
def preference (refPrice : Option ℚ) (p : ChartPool F) : ℚ ×ₗ WithBot ℚ ×ₗ WithBot ℚ ×ₗ ℚᵒᵈ :=
  toLex (roleWeight env (prop (some p.pool) "role"),
    toLex (finiteOrLowest env (prop (some p.pool) "strength"),
      toLex (finiteOrLowest env (prop (some p.pool) "touches"),
        OrderDual.toDual (distanceTo refPrice p.price))))

/-- The first pool lies within the tolerance of the second, and is not preferred to it. -/
structure GivesWay (refPrice : Option ℚ) (tol : ℚ) (a b : ChartPool F) : Prop where
  near : |b.price - a.price| ≤ tol
  preferred : preference env refPrice a ≤ preference env refPrice b

variable {env} {refPrice : Option ℚ}

/-- One test of a comparison key by key. -/
theorem ite_toLex {α β γ : Type*} [LinearOrder α] [LinearOrder β] {x y : α} {u v : β}
    {a b rest : γ} (h : rest = if v ≤ u then a else b) :
    (if x ≠ y then if y < x then a else b else rest) =
      if toLex (y, v) ≤ toLex (x, u) then a else b := by
  simp only [Prod.Lex.toLex_le_toLex]
  by_cases heq : x = y
  · subst heq
    rw [if_neg (not_not_intro rfl), h]
    simp
  · rw [if_pos heq]
    simp [Ne.symm heq]

/-- Of two pools the preferred one is better, and of two as good the first. -/
theorem chooseBetterPool_eq (a b : ChartPool F) :
    chooseBetterPool env refPrice a b =
      if preference env refPrice b ≤ preference env refPrice a then a else b := by
  refine ite_toLex (ite_toLex (ite_toLex ?_))
  cases refPrice with
  | none => exact (if_pos le_rfl).symm
  | some ref => rfl

theorem chooseBetterPool_selects : Selects (chooseBetterPool env refPrice) := by
  intro a b
  rw [chooseBetterPool_eq]
  exact ite_eq_or_eq _ a b

theorem losesTo_iff {tol : ℚ} {a b : ChartPool F} :
    LosesTo ChartPool.price tol (chooseBetterPool env refPrice) a b ↔
      GivesWay env refPrice tol a b := by
  unfold LosesTo
  rw [chooseBetterPool_eq, chooseBetterPool_eq]
  constructor
  · rintro ⟨hnear, hwins | hwins⟩
    · refine ⟨hnear, ?_⟩
      split_ifs at hwins with hle
      · rw [hwins]
      · exact (not_le.mp hle).le
    · refine ⟨hnear, ?_⟩
      split_ifs at hwins with hle
      · exact hle
      · rw [hwins]
  · rintro ⟨hnear, hle⟩
    exact ⟨hnear, Or.inr (if_pos hle)⟩

theorem roleWeight_le_one (role : Option (Json F)) : roleWeight env role ≤ 1 := by
  unfold roleWeight
  split_ifs <;> norm_num

theorem roleWeight_eq_one_iff {p : ChartPool F} :
    roleWeight env (prop (some p.pool) "role") = 1 ↔ IsPrimary env p := by
  unfold roleWeight IsPrimary
  split_ifs with hprimary hcounter
  · exact iff_of_true rfl hprimary
  · exact iff_of_false (by norm_num) hprimary
  · exact iff_of_false (by norm_num) hprimary

/-- A PRIMARY pool gives way to a PRIMARY one only. -/
theorem isPrimary_of_givesWay {tol : ℚ} {a b : ChartPool F} (h : GivesWay env refPrice tol a b)
    (ha : IsPrimary env a) : IsPrimary env b := by
  have hle : roleWeight env (prop (some a.pool) "role") ≤
      roleWeight env (prop (some b.pool) "role") := by
    rcases Prod.Lex.toLex_le_toLex.mp h.preferred with hlt | ⟨heq, -⟩
    · exact hlt.le
    · exact heq.le
  rw [roleWeight_eq_one_iff.mpr ha] at hle
  exact roleWeight_eq_one_iff.mp (le_antisymm (roleWeight_le_one _) hle)

theorem isPrimary_of_gaveWay {tol : ℚ} {a b : ChartPool F}
    (h : Relation.ReflTransGen (GivesWay env refPrice tol) a b) (ha : IsPrimary env a) :
    IsPrimary env b := by
  induction h with
  | refl => exact ha
  | tail _ hgives ih => exact isPrimary_of_givesWay hgives ih

variable (env) in
/-- Every pool gives way, step by step, to one that is kept. -/
theorem exists_kept (pools : List (Json F)) (mergeTolAbs : ℚ) (refPrice : Option ℚ)
    {p : ChartPool F} (hp : p ∈ cleanedPools env pools) :
    ∃ kept ∈ dedupPoolsByPrice env pools mergeTolAbs refPrice,
      Relation.ReflTransGen (GivesWay env refPrice (max 0 mergeTolAbs)) p kept := by
  obtain ⟨kept, hkept, hup⟩ : ∃ kept ∈ dedupPoolsByPrice env pools mergeTolAbs refPrice,
      Relation.ReflTransGen
        (LosesTo ChartPool.price (max 0 mergeTolAbs) (chooseBetterPool env refPrice)) p kept :=
    exists_champion chooseBetterPool_selects hp
  exact ⟨kept, hkept, hup.lift id fun _ _ => losesTo_iff.mp⟩

section FixedInputs

end FixedInputs

end PoolDedup

end SmcPipeline
