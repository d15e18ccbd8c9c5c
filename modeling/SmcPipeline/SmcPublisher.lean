import SmcPipeline.Candles
import SmcPipeline.JsonText
import SmcPipeline.Rounding
import SmcPipeline.SmcProducer

/-!
# The published state

`publish_smc_state` of `UI/publish_smc_state.py`. The manager hands out shallow copies of its
assets: what is set on them goes into the payload only, but a hint is normalised in place and so
stays normalised. The counts in `analytics` are left out. Nothing is published where a conversion
overflows, and the task that publishes ends there.
-/

namespace SmcPipeline

/-- The library functions that the publisher calls; `fixed n` writes a float with `n` decimals. -/
structure PublishRuntime (K : Type*) extends ViewerRuntime (PyFloat K) where
  log10 : K → K
  fixed : ℕ → PyFloat K → String
  float_float : ∀ x, float (.float x) = .value x

namespace SmcPublisher

open Candles FxcmIngestor JsonText Rounding SmcProducer ViewerStateBuilder

variable {K : Type*}

/-- The items of a dict of the payload. -/
abbrev Items (K : Type*) := List (String × Json (PyFloat K))

abbrev Dict (K : Type*) := OrderedDict String (Json (PyFloat K))

section

variable (env : PublishRuntime K)

/-- `safe_float`; nothing where `float` overflows. -/
def safeFloat : Json (PyFloat K) → Option (Option (PyFloat K))
  | .null => some none
  | value =>
    match env.float value with
    | .value x => some (some x)
    | .rejected => some none
    | .overflow => none

/-- `fields.get(name)` -/
def getItem (d : Dict K) (name : String) : Json (PyFloat K) := (d.get? name).getD .null

end

section

variable [Field K] [LinearOrder K]

/-- `x > 0` -/
def positive : PyFloat K → Bool
  | some (.num x) => decide (0 < x)
  | some .inf => true
  | _ => false

/-- `x >= 0` -/
def nonnegative : PyFloat K → Bool
  | some (.num x) => decide (0 ≤ x)
  | some .inf => true
  | _ => false

/-- `x < bound` -/
def isBelow (bound : K) : PyFloat K → Bool
  | some (.num x) => decide (x < bound)
  | some .negInf => true
  | _ => false

/-- A float times a positive number. -/
def scaled (k : K) : PyFloat K → PyFloat K
  | some (.num x) => some (.num (x * k))
  | x => x

variable (env : PublishRuntime K)

def withComma (text : String) : String :=
  String.ofList ((text.toList.filter fun c => c ≠ ',').map fun c => if c = '.' then ',' else c)

/-- `fmt_price_stage1` on a positive price -/
def fmtPriceStage1 (price : PyFloat K) : String :=
  let decimals := if isBelow (ratio 1 100) price then 6 else if isBelow 1 price then 4 else 2
  withComma (env.fixed decimals price)

/-- `_format_price_for_symbol` on a positive price -/
def formatPrice (price : PyFloat K) : String :=
  if fmtPriceStage1 env price = "-" then "-" else fmtPriceStage1 env price ++ " USD"

/-- `_format_tick_age` of an age that is not negative -/
def formatTickAge (age : PyFloat K) : String :=
  if isBelow 1 age then env.fixed 0 (scaled ((1000 : ℕ) : K) age) ++ " мс"
  else if isBelow ((90 : ℕ) : K) age then env.fixed 1 age ++ " с"
  else env.fixed 1 (scaled (1 / (60 : ℕ)) age) ++ " хв"

/-- `_round_power_of_ten` -/
def roundPowerOfTen [FloorRing K] (value : K) : Option ℤ :=
  if value ≤ 0 then none
  else
    let logVal := env.log10 value
    let power := roundHalfEven logVal
    if power = 0 ∨ 6 < |power| then none
    else if ratio 2 10 < |logVal - power| then none
    else some power

def isWithinMagnitude (candidate reference : K) : Bool :=
  if |reference| = 0 then false
  else
    let share := |candidate| / |reference|
    decide (ratio 2 10 ≤ share) && decide (share ≤ (5 : ℕ))

variable [FloorRing K]

/-- `_apply_scale` -/
def applyScale (price share : K) (multiply : Bool) (reference : K) : Option K :=
  (roundPowerOfTen env share).bind fun power =>
    let scale : K := (10 : ℕ) ^ power
    let candidate := if multiply then price * scale else price / scale
    if isWithinMagnitude candidate reference then some candidate else none

/-- `_rescale_price` on numbers -/
def rescaleNumber (price reference : K) : K :=
  if |reference| = 0 then price
  else if |price| = 0 then price
  else
    let share := |reference| / |price|
    let inverse := |price| / |reference|
    if ratio 2 10 ≤ share ∧ share ≤ (5 : ℕ) then price
    else
      ((if (5 : ℕ) < share then applyScale env price share true reference else none).or
        (if (5 : ℕ) < inverse then applyScale env price inverse false reference else none)).getD price

/-- `_rescale_price`; nothing where the logarithm of an infinite ratio is rounded. A ratio that is
NaN passes no comparison. -/
def rescalePrice (price reference : PyFloat K) : Option (PyFloat K) :=
  match price, reference with
  | some (.num price), some (.num reference) => some (some (.num (rescaleNumber env price reference)))
  | some (.num price), some _ => if price = 0 then some (some (.num price)) else none
  | some price, some (.num reference) => if reference = 0 then some (some price) else none
  | price, _ => some price

/-- `_normalize_fields`; a value that is no number stays. -/
def normalizeFields (reference : PyFloat K) : List String → Items K → Option (Items K)
  | [], target => some target
  | field :: fields, target =>
    match target.lookup field with
    | none => normalizeFields reference fields target
    | some value =>
      match safeFloat env value with
      | none => none
      | some none => normalizeFields reference fields target
      | some (some price) =>
        (rescalePrice env price reference).bind fun price =>
          normalizeFields reference fields (setItem target field (.float price))

/-- What is done to a dict, where a value is one. -/
def onDict (f : Items K → Option (Items K)) : Json (PyFloat K) → Option (Json (PyFloat K))
  | .obj fields => (f fields).map .obj
  | value => some value

/-- What is done to the dicts of a list, where a value is one. -/
def onDicts (f : Items K → Option (Items K)) : Json (PyFloat K) → Option (Json (PyFloat K))
  | .arr items => (items.mapM (onDict f)).map .arr
  | value => some value

/-- What is done to an item of a dict, where it is there. -/
def onItem (name : String) (f : Json (PyFloat K) → Option (Json (PyFloat K))) (fields : Items K) :
    Option (Items K) :=
  match fields.lookup name with
  | none => some fields
  | some value => (f value).map (setItem fields name)

def rangeFields : List String := ["high", "low", "eq_level"]

def zoneFields : List String := ["price_min", "price_max", "entry_hint", "stop_hint"]

/-- `_normalize_list_fields` -/
def normalizeListFields (reference : PyFloat K) (names : List String) :
    Json (PyFloat K) → Option (Json (PyFloat K)) := onDicts (normalizeFields env reference names)

/-- `_normalize_legs` -/
def normalizeLegs (reference : PyFloat K) : Json (PyFloat K) → Option (Json (PyFloat K)) :=
  onDicts fun leg =>
    (onItem "from_swing" (onDict (normalizeFields env reference ["price"])) leg).bind
      (onItem "to_swing" (onDict (normalizeFields env reference ["price"])))

/-- `_normalize_structure_prices` -/
def normalizeStructurePrices (reference : PyFloat K) (st : Items K) : Option (Items K) := do
  let st ← onItem "swings" (normalizeListFields env reference ["price"]) st
  let st ← onItem "ranges" (normalizeListFields env reference rangeFields) st
  let st ← onItem "active_range" (onDict (normalizeFields env reference rangeFields)) st
  let st ← onItem "events" (normalizeListFields env reference ["price_level"]) st
  let st ← onItem "ote_zones" (normalizeListFields env reference ["ote_min", "ote_max"]) st
  onItem "legs" (normalizeLegs env reference) st

/-- `_normalize_liquidity_prices` -/
def normalizeLiquidityPrices (reference : PyFloat K) (liq : Items K) : Option (Items K) := do
  let liq ← onItem "pools" (normalizeListFields env reference ["level"]) liq
  onItem "magnets" (normalizeListFields env reference ["price_min", "price_max", "center"]) liq

/-- `_normalize_zone_prices` -/
def normalizeZonePrices (reference : PyFloat K) (zones : Items K) : Option (Items K) :=
  ["zones", "active_zones", "poi_zones", "breaker_zones", "breaker_active_zones"].foldlM
    (fun zones key => onItem key (normalizeListFields env reference zoneFields) zones) zones

/-- `_normalize_smc_prices` -/
def normalizeSmcPrices (reference : Option (PyFloat K)) (hint : Items K) : Option (Items K) :=
  match reference with
  | none => some hint
  | some reference =>
    if env.isZero reference then some hint
    else do
      let hint ← onItem "structure" (onDict (normalizeStructurePrices env reference)) hint
      let hint ← onItem "liquidity" (onDict (normalizeLiquidityPrices env reference)) hint
      onItem "zones" (onDict (normalizeZonePrices env reference)) hint

/-- The value at a path of keys. -/
def atPath : List String → Json (PyFloat K) → Json (PyFloat K)
  | [], value => value
  | key :: path, .obj fields => atPath path (get fields key)
  | _ :: _, _ => .null

/-- The first float among values. -/
def firstFloat : List (Json (PyFloat K)) → Option (Option (PyFloat K))
  | [] => some none
  | value :: values =>
    match safeFloat env value with
    | some none => firstFloat values
    | found => found

/-- The reference price: the price in the stats, or else one of the hint. -/
def referencePrice (stats : Dict K) (hint : Items K) : Option (Option (PyFloat K)) :=
  firstFloat env
    [getItem stats "current_price", getItem stats "price",
      atPath ["structure", "meta", "snapshot_last_close"] (.obj hint),
      atPath ["structure", "meta", "last_price"] (.obj hint), atPath ["meta", "last_price"] (.obj hint)]

/-- `asset[name] = value`, or `asset.pop(name)` where the value is not to be shown. -/
def setOrPop (asset : Dict K) (name : String) (value : Option (Json (PyFloat K))) : Dict K :=
  match value with
  | none => asset.erase name
  | some value => asset.set name value

/-- `_to_plain_smc_liquidity` of a value that is plain; any object has an empty state. -/
def toPlainSmcLiquidity : Json (PyFloat K) → Option (Json (PyFloat K))
  | .null => none
  | .obj fields => some (.obj fields)
  | _ => some (.obj
      [("pools", .arr []), ("magnets", .arr []), ("amd_phase", .null), ("meta", .obj [])])

/-- An asset of the manager. -/
abbrev SmcAsset (K : Type*) := Asset (Extended K)

/-- The hint of an asset, which may stand in its stats, and the stats without it. -/
def hintOf (asset : SmcAsset K) : Json (PyFloat K) × Dict K :=
  match getItem asset.fields "smc_hint" with
  | .null => (getItem asset.stats "smc_hint", asset.stats.erase "smc_hint")
  | hint => (hint, asset.stats)

/-- The dict of a hint. -/
def plainHintOf : Json (PyFloat K) → Items K
  | .obj fields => fields
  | hint => [("value", hint)]

/-- `_prepare_smc_hint`: the hint with its prices normalised, and the asset with its parts. -/
def prepareSmcHint (hint : Json (PyFloat K)) (stats : Dict K) (asset : Dict K) :
    Option (Option (Items K) × Dict K) :=
  match hint with
  | .null =>
    some (none, ((((asset.erase "smc").erase "smc_hint").erase "smc_structure").erase
      "smc_liquidity").erase "smc_zones")
  | hint => do
    let reference ← referencePrice env stats (plainHintOf hint)
    let plain ← normalizeSmcPrices env reference (plainHintOf hint)
    let shown (name : String) : Option (Json (PyFloat K)) :=
      some (get plain name) |>.filter (truthy env.toViewerRuntime)
    let asset := (asset.set "smc" (.obj plain)).set "smc_hint" (.obj plain)
    let asset := setOrPop asset "smc_structure" (shown "structure")
    let asset := setOrPop asset "smc_zones" (shown "zones")
    return (some plain, setOrPop asset "smc_liquidity" (toPlainSmcLiquidity (get plain "liquidity")))

/-- A price of the stats under the name it is shown by, with its text. -/
def setPrice (name : String) (value : Option (PyFloat K)) (asset : Dict K) : Dict K :=
  match value.filter positive with
  | none => (asset.erase name).erase (name ++ "_str")
  | some price =>
    let asset := asset.set name (.float price)
    if formatPrice env price = "-" then asset
    else asset.set (name ++ "_str") (.str (formatPrice env price))

/-- One of the live prices. -/
def setLivePrice (stats : Dict K) (name : String) (asset : Dict K) : Option (Dict K) :=
  (safeFloat env (getItem stats name)).map fun value => setPrice env name value asset

/-- What is shown of the stats of an asset. The function that would write the volume as text does
not exist, so that there is never such a text. -/
def showStats (stats : Dict K) (asset : Dict K) : Option (Dict K) := do
  let currentPrice ← safeFloat env (getItem stats "current_price")
  let asset := setPrice env "price" currentPrice asset
  let asset ← setLivePrice env stats "live_price_mid" asset
  let asset ← setLivePrice env stats "live_price_bid" asset
  let asset ← setLivePrice env stats "live_price_ask" asset
  let spread ← safeFloat env (getItem stats "live_price_spread")
  let asset := setOrPop asset "live_price_spread" ((spread.filter nonnegative).map .float)
  let tickAge ← safeFloat env (getItem stats "tick_age_sec")
  let age := tickAge.filter nonnegative
  let asset := setOrPop asset "tick_age_sec" (age.map .float)
  let asset := setOrPop asset "tick_age_str" (age.map fun age => .str (formatTickAge env age))
  let volume ← safeFloat env (getItem stats "volume")
  let shownVolume := volume.filter fun volume => positive volume && currentPrice.isSome
  let _ ← safeFloat env (getItem stats "smc_latency_ms")
  return (setOrPop asset "volume" (shownVolume.map .float)).erase "volume_str"

/-- The dict that is published for an asset. -/
def assetDict (stats : Dict K) (asset : Dict K) : Json (PyFloat K) :=
  .obj (asset.items ++ [("stats", .obj stats.items)])

/-- One round of the loop: the asset that the manager is left with, and what is published. -/
def publishAsset (asset : SmcAsset K) : Option (SmcAsset K × Json (PyFloat K)) := do
  let shown ← showStats env asset.stats asset.fields
  let (hint, stats) := hintOf asset
  let (plain, shown) ← prepareSmcHint env hint stats shown
  -- The hint of the asset is the dict that has been normalised, unless it came from the stats.
  let kept := match plain, getItem asset.fields "smc_hint" with
    | some plain, .obj _ => asset.fields.set "smc_hint" (.obj plain)
    | _, _ => asset.fields
  return (⟨stats, kept⟩, assetDict stats shown)

/-- The assets by their symbols in capitals, each with its key in the manager; of two with one
symbol the later one is published. -/
def dedup (manager : OrderedDict String (SmcAsset K)) : OrderedDict String (String × SmcAsset K) :=
  manager.items.foldl
    (fun dedup item =>
      let symbol := env.upper (env.str
        (orElse env.toViewerRuntime (getItem item.2.fields "symbol") (.str "")))
      if symbol = "" then dedup else dedup.set symbol item) OrderedDict.empty

/-- The loop over the assets. -/
def publishAssets : List (String × SmcAsset K) → OrderedDict String (SmcAsset K) →
    Option (OrderedDict String (SmcAsset K) × List (Json (PyFloat K)))
  | [], manager => some (manager, [])
  | (key, asset) :: rest, manager => do
    let (asset, published) ← publishAsset env asset
    let (manager, others) ← publishAssets rest (manager.set key asset)
    return (manager, published :: others)

/-- The payload of a message; `items` are those of its `meta`. -/
def payloadOf (channel : String) (items fxcm : Items K) (assets : List (Json (PyFloat K))) :
    Json (PyFloat K) :=
  .obj
    ([("type", .str channel),
      ("meta", .obj (if fxcm = [] then items else setItem items "fxcm" (.obj fxcm))),
      ("counters", .obj [("assets", .int assets.length)]),
      ("assets", .arr assets)] ++ if fxcm = [] then [] else [("fxcm", .obj fxcm)])

/-- `publish_smc_state`: the manager and the payload, nothing where a conversion overflows. -/
def publishSmcState (channel : String) (items fxcm : Items K)
    (manager : OrderedDict String (SmcAsset K)) :
    Option (OrderedDict String (SmcAsset K) × Json (PyFloat K)) :=
  (publishAssets env ((dedup env manager).items.map Prod.snd) manager).map fun published =>
    (published.1, payloadOf channel items fxcm published.2)

end

end SmcPublisher

end SmcPipeline
