import SmcPipeline.OrderedDict
import SmcPipeline.ViewerStateBuilder
import Mathlib.Algebra.Order.Field.Basic

/-!
# The price ticks of the store

`_normalize_price_tick`, `_prune_price_ticks`, `update_price_tick` and `get_price_tick` of
`data/unified_store.py`: the last tick of each symbol, dropped once it is too old. Floats are
`Option K`, where `none` is NaN; the prices of a tick are numbers.
-/

namespace SmcPipeline

structure PriceTick (K : Type*) where
  symbol : String
  bid : Option K
  ask : Option K
  mid : K
  tickTs : K
  snapTs : K
  spread : Option K
  receivedTs : K

/-- What `get_price_tick` returns. -/
structure TickView (K : Type*) where
  tick : PriceTick K
  age : K
  isStale : Bool

/-- `_price_tick_stale_after` and `_price_tick_drop_after`; zero stands for no limit. -/
structure TickLimits (K : Type*) where
  staleAfter : K
  dropAfter : K

/-- The conversions of a tick's payload; `coerceFloat` yields finite numbers only. -/
structure TickRuntime (K : Type*) extends ViewerRuntime (Option K) where
  lower : String → String
  coerceFloat : Json (Option K) → Option K

namespace PriceTicks

open FxcmIngestor ViewerStateBuilder

variable {K : Type*} [Field K] [LinearOrder K]

/-- `_normalize_price_tick` with the time at which the tick is received. -/
def normalizePriceTick (env : TickRuntime K) (now : K) (payload : List (String × Json (Option K))) :
    Option (PriceTick K) :=
  let symbol := env.lower
    (strip (env.str (orElse env.toViewerRuntime (get payload "symbol") (.str ""))))
  let bid := env.coerceFloat (get payload "bid")
  let ask := env.coerceFloat (get payload "ask")
  let mid := (env.coerceFloat (get payload "mid")).or do return ((← bid) + (← ask)) / (2 : ℕ)
  let tickTs := env.coerceFloat (get payload "tick_ts")
  let snapTs := ((env.coerceFloat (get payload "snap_ts")).or tickTs).getD now
  if symbol = "" then none
  else
    mid.map fun mid =>
      { symbol := symbol
        bid := bid
        ask := ask
        mid := mid
        tickTs := tickTs.getD snapTs
        snapTs := snapTs
        spread := do return max 0 ((← ask) - (← bid))
        receivedTs := now }

/-- `entry.get("tick_ts") or entry.get("_received_ts") or now` -/
def timeOf (now : K) (entry : PriceTick K) : K :=
  if entry.tickTs ≠ 0 then entry.tickTs
  else if entry.receivedTs ≠ 0 then entry.receivedTs
  else now

def prunePriceTicks (limits : TickLimits K) (now : K) (ticks : OrderedDict String (PriceTick K)) :
    OrderedDict String (PriceTick K) :=
  if limits.dropAfter = 0 then ticks
  else
    let toDrop := ticks.items.filter fun item =>
      decide (limits.dropAfter < now - timeOf now item.2)
    toDrop.foldl (fun rest item => rest.erase item.1) ticks

def updatePriceTick (env : TickRuntime K) (limits : TickLimits K) (now : K)
    (payload : List (String × Json (Option K))) (ticks : OrderedDict String (PriceTick K)) :
    OrderedDict String (PriceTick K) :=
  match normalizePriceTick env now payload with
  | none => ticks
  | some tick => prunePriceTicks limits now (ticks.set tick.symbol tick)

/-- The tick of a symbol and the ticks that are left. -/
def getPriceTick (limits : TickLimits K) (now : K) (symbol : String)
    (ticks : OrderedDict String (PriceTick K)) :
    Option (TickView K) × OrderedDict String (PriceTick K) :=
  match ticks.get? symbol with
  | none => (none, ticks)
  | some entry =>
    let age := max 0 (now - timeOf now entry)
    if limits.dropAfter ≠ 0 ∧ limits.dropAfter < age then (none, ticks.erase symbol)
    else (some ⟨entry, age, decide (limits.staleAfter ≠ 0 ∧ limits.staleAfter < age)⟩, ticks)

end PriceTicks

end SmcPipeline
