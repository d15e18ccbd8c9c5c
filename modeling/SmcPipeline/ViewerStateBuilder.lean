import SmcPipeline.Calendar
import SmcPipeline.FxcmIngestor

/-!
# The state that the viewer gets

`build_viewer_state` of `UI_v2/viewer_state_builder.py` on one asset of a decoded payload, with
the conversions of `core/serialization.py` that it calls. A dict is the list of its items; a key
that is missing and one that holds `None` are the same to `dict.get`. Where a conversion raises,
no state is built, but what is kept in the cache by then stays there.
-/

namespace SmcPipeline

/-- What `int` or `float` makes of a value: a number, a `TypeError` or `ValueError`, or an
`OverflowError`. -/
inductive Converted (α : Type*)
  | value (a : α)
  | rejected
  | overflow

/-- A datetime that was read from text: the microseconds that its fields stand for and, where
the text has one, the offset in microseconds. -/
structure IsoTime where
  micros : ℤ
  offset : Option ℤ

/-- The library functions that the builder calls. -/
structure ViewerRuntime (F : Type*) where
  isZero : F → Bool
  str : Json F → String
  upper : String → String
  int : Json F → Converted ℤ
  float : Json F → Converted F
  fromisoformat : String → Option IsoTime
  int_int : ∀ i, int (.int i) = .value i

structure ViewerStateCache (F : Type*) where
  lastEvents : List (Json F)
  lastZonesRaw : List (String × Json F)
  lastFxcmMeta : Option (List (String × Json F))

namespace Serialization

open Calendar FxcmIngestor

variable {F : Type*} (env : ViewerRuntime F)

def humanText (c : CivilTime) : String := String.ofList (civilChars ' ' c)

/-- `strftime` on a UTC time of a year that a datetime can have. -/
def humanUtc (seconds : ℤ) : Option String :=
  let c := civilTime seconds
  if 1 ≤ c.year ∧ c.year ≤ 9999 then some (humanText c) else none

/-- `none` where `fromtimestamp` raises. A double holds the seconds of a datetime to less than a
millisecond. -/
def utcMsToHumanUtc (millis : ℤ) : Option String := humanUtc (millis / 1000)

/-- The `Z` at the end is read as the offset. -/
def withOffset (text : String) : String :=
  if text.toList.getLast? = some 'Z' then
    String.ofList (text.toList.dropLast ++ "+00:00".toList)
  else text

/-- `iso_z_to_dt`, in microseconds since the epoch -/
def isoZToDt (value : String) : Option ℤ :=
  (env.fromisoformat (withOffset (strip value))).map fun dt => dt.micros - dt.offset.getD 0

def tryIsoToHumanUtc (value : String) : Option String :=
  let text := strip value
  if text = "" then none
  else (isoZToDt env text).bind fun micros => humanUtc (micros / 1000000)

def coerceDict : Json F → List (String × Json F)
  | .obj fields => fields
  | _ => []

end Serialization

namespace ViewerStateBuilder

open FxcmIngestor Serialization

variable {F : Type*}

def maxEvents : ℕ := 20
def maxLegs : ℕ := 6
def maxSwings : ℕ := 6
def maxRanges : ℕ := 5
def maxOteZones : ℕ := 6
def maxPools : ℕ := 8

/-- `fields.get(name)` -/
def get (fields : List (String × Json F)) (name : String) : Json F :=
  (fields.lookup name).getD .null

/-- `fields[name] = value` -/
def setItem (fields : List (String × Json F)) (name : String) (value : Json F) :
    List (String × Json F) :=
  if (fields.lookup name).isSome then
    fields.map fun item => if item.1 = name then (name, value) else item
  else fields ++ [(name, value)]

def asDict : Json F → Option (List (String × Json F))
  | .obj fields => some fields
  | _ => none

/-- `isinstance(value, (int, float))`; a bool is an int. -/
def isNumber : Json F → Bool
  | .bool _ => true
  | .int _ => true
  | .float _ => true
  | _ => false

/-- The dicts among the last items of a list. -/
def lastDicts (n : ℕ) : Json F → List (List (String × Json F))
  | .arr items => (items.drop (items.length - n)).filterMap asDict
  | _ => []

/-- The dicts among its first items. -/
def firstDicts (n : ℕ) : Json F → List (List (String × Json F))
  | .arr items => (items.take n).filterMap asDict
  | _ => []

theorem lastDicts_map {α : Type*} (n : ℕ) (fields : α → List (String × Json F))
    (xs : List α) :
    lastDicts n (.arr (xs.map fun x => .obj (fields x))) =
      (xs.drop (xs.length - n)).map fields := by
  unfold lastDicts
  dsimp only
  rw [List.length_map, ← List.map_drop, List.filterMap_map]
  exact congrFun List.filterMap_eq_map _

variable (env : ViewerRuntime F)

def truthy : Json F → Bool
  | .null => false
  | .bool b => b
  | .int i => decide (i ≠ 0)
  | .float x => !env.isZero x
  | .str s => decide (s ≠ "")
  | .arr items => !items.isEmpty
  | .obj fields => !fields.isEmpty

/-- `a or b` -/
def orElse (a b : Json F) : Json F := if truthy env a then a else b

/-- A text in the time format of the viewer, any other value as it is. -/
def humanTime (value : Json F) : Json F :=
  match value with
  | .str s => .str ((tryIsoToHumanUtc env s).getD s)
  | v => v

/-- One entry of `pipeline_local`; the conversion may raise. -/
def localNumber {α : Type*} (convert : Json F → Converted α) (wrap : α → Json F) (name : String)
    (value : Json F) : Option (List (String × Json F)) :=
  if isNumber value then
    match convert value with
    | .value a => some [(name, wrap a)]
    | _ => none
  else some []

def pipelineLocal (stats : List (String × Json F)) : Option (List (String × Json F)) := do
  let stateLocal := match get stats "pipeline_state_local" with
    | .null => []
    | v => [("state", Json.str (env.str v))]
  let readyBars ← localNumber env.int .int "ready_bars" (get stats "pipeline_ready_bars")
  let requiredBars ← localNumber env.int .int "required_bars" (get stats "pipeline_required_bars")
  let readyRatio ← localNumber env.float .float "ready_ratio" (get stats "pipeline_ready_ratio")
  return stateLocal ++ readyBars ++ requiredBars ++ readyRatio

/-- The first candidate that is a number; `none` where `float` overflows. -/
def firstPrice : List (Json F) → Option (Json F)
  | [] => some .null
  | .null :: candidates => firstPrice candidates
  | candidate :: candidates =>
    match env.float candidate with
    | .value x => some (.float x)
    | .rejected => firstPrice candidates
    | .overflow => none

def extractPrice (asset stats : List (String × Json F)) : Option (Json F) :=
  firstPrice env
    [get stats "current_price", get asset "price", get asset "last_price", get stats "last_price"]

/-- The time of an event, in the format of the viewer where it can be read. -/
def eventTime (value : Json F) : Option (Json F) :=
  if isNumber value then
    match env.int value with
    | .value millis => (utcMsToHumanUtc millis).map .str
    | .rejected => some value
    | .overflow => none
  else some (humanTime env value)

def simplifyEvent (event : List (String × Json F)) : Option (Json F) := do
  let price := orElse env (orElse env (get event "price") (get event "price_level"))
    (get event "level")
  let time ← eventTime env (orElse env (orElse env (orElse env (get event "time")
    (get event "timestamp")) (get event "ts")) (get event "created_at"))
  return .obj
    [("type", orElse env (get event "event_type") (get event "type")),
      ("direction", get event "direction"),
      ("price", price),
      ("time", time),
      ("status", orElse env (get event "status") (get event "state"))]

def simplifyEvents (events : Json F) : Option (List (Json F)) :=
  (lastDicts maxEvents events).mapM (simplifyEvent env)

def simplifyLegs (legs : Json F) : List (Json F) :=
  (lastDicts maxLegs legs).map fun leg => .obj
    [("label", get leg "label"),
      ("direction", get leg "direction"),
      ("from_index", get leg "from_index"),
      ("to_index", get leg "to_index"),
      ("strength", get leg "strength")]

def simplifySwings (swings : Json F) : List (Json F) :=
  (lastDicts maxSwings swings).map fun swing => .obj
    [("kind", get swing "kind"),
      ("price", get swing "price"),
      ("time", humanTime env (get swing "time"))]

def simplifyRanges (ranges : Json F) : List (Json F) :=
  (lastDicts maxRanges ranges).map fun rng => .obj
    [("high", get rng "high"),
      ("low", get rng "low"),
      ("state", get rng "state"),
      ("start", humanTime env (get rng "start_time")),
      ("end", humanTime env (get rng "end_time"))]

def simplifyOtes (otes : Json F) : List (Json F) :=
  (lastDicts maxOteZones otes).map fun zone => .obj
    [("direction", get zone "direction"),
      ("role", get zone "role"),
      ("ote_min", get zone "ote_min"),
      ("ote_max", get zone "ote_max")]

def simplifyPools (pools : Json F) : List (Json F) :=
  (firstDicts maxPools pools).map fun pool => .obj
    [("level", get pool "level"),
      ("price", orElse env (get pool "price") (get pool "level")),
      ("liq_type", orElse env (get pool "liq_type") (get pool "type")),
      ("type", orElse env (get pool "type") (get pool "liq_type")),
      ("role", get pool "role"),
      ("strength", get pool "strength"),
      ("meta", get pool "meta")]

/-- The last events stand in for an empty list. -/
def persistEvents (events : List (Json F)) (cache : Option (ViewerStateCache F)) :
    List (Json F) × Option (ViewerStateCache F) :=
  if events = [] then ((cache.map ViewerStateCache.lastEvents).getD [], cache)
  else (events, cache.map fun c => { c with lastEvents := events })

/-- The last zones stand in for an empty dict. -/
def persistZones (zones : List (String × Json F)) (cache : Option (ViewerStateCache F)) :
    List (String × Json F) × Option (ViewerStateCache F) :=
  if zones = [] then ((cache.map ViewerStateCache.lastZonesRaw).getD [], cache)
  else (zones, cache.map fun c => { c with lastZonesRaw := zones })

def resolveSession (asset stats : List (String × Json F)) : Json F :=
  match [get stats "session_tag", get stats "session", get asset "session",
      get asset "session_tag"].find? (truthy env) with
  | some candidate => .str (env.str candidate)
  | none => .null

def resolveFxcmSource (payloadMeta : List (String × Json F)) (fxcmBlock : Json F)
    (cache : Option (ViewerStateCache F)) : Option (List (String × Json F)) :=
  ((asDict fxcmBlock).or (asDict (get payloadMeta "fxcm"))).or
    (cache.bind ViewerStateCache.lastFxcmMeta)

/-- The session that FXCM knows goes before the other one. -/
def sessionOf (fxcmSource : Option (List (String × Json F))) (session : Json F) : Json F :=
  match fxcmSource.bind fun source => asDict (get source "session") with
  | none => session
  | some fxcmSession =>
    let tag := orElse env (get fxcmSession "tag") (get fxcmSession "name")
    if truthy env tag then .str (env.str tag) else session

/-- A part of the hint, from the asset or from its hint. -/
def hintPart (asset : List (String × Json F)) (ownName name : String) : List (String × Json F) :=
  coerceDict (orElse env (get asset ownName) (get (coerceDict (get asset "smc_hint")) name))

def structureOf (asset : List (String × Json F)) : List (String × Json F) :=
  hintPart env asset "smc_structure" "structure"

def structureBlock (smcStructure : List (String × Json F)) (events : List (Json F)) : Json F :=
  .obj
    [("trend", get smcStructure "trend"),
      ("bias", get smcStructure "bias"),
      ("range_state", get smcStructure "range_state"),
      ("legs", .arr (simplifyLegs (get smcStructure "legs"))),
      ("swings", .arr (simplifySwings env (get smcStructure "swings"))),
      ("ranges", .arr (simplifyRanges env (get smcStructure "ranges"))),
      ("events", .arr events),
      ("ote_zones", .arr (simplifyOtes (get smcStructure "ote_zones")))]

def liquidityBlock (smcLiquidity : List (String × Json F)) : Json F :=
  .obj
    [("amd_phase", get smcLiquidity "amd_phase"),
      ("pools", .arr (simplifyPools env (get smcLiquidity "pools"))),
      ("magnets", orElse env (get smcLiquidity "magnets") (.arr []))]

/-- `symbol_value is None or not str(symbol_value).strip()` -/
def noSymbol (asset : List (String × Json F)) : Bool :=
  match get asset "symbol" with
  | .null => true
  | symbol => decide (strip (env.str symbol) = "")

/-- The state, `none` where an exception is raised, and the cache after the call. -/
def buildViewerState (asset : List (String × Json F)) (payloadMeta fxcmBlock : Json F)
    (cache : Option (ViewerStateCache F)) :
    Option (List (String × Json F)) × Option (ViewerStateCache F) :=
  let metaFields := coerceDict payloadMeta
  let smcStructure := structureOf env asset
  let smcLiquidity := hintPart env asset "smc_liquidity" "liquidity"
  let smcZones := hintPart env asset "smc_zones" "zones"
  let stats := coerceDict (get asset "stats")
  match pipelineLocal env stats, extractPrice env asset stats,
      simplifyEvents env (get smcStructure "events") with
  | some pipelineLocal, some price, some rawEvents =>
    let (events, cache) := persistEvents rawEvents cache
    let (zonesRaw, cache) := persistZones smcZones cache
    let fxcmSource := resolveFxcmSource metaFields fxcmBlock cache
    let cache := match fxcmSource with
      | none => cache
      | some source => cache.map fun c => { c with lastFxcmMeta := some source }
    let session := sessionOf env fxcmSource (resolveSession env asset stats)
    let metaSnapshot := match fxcmSource with
      | none => metaFields
      | some source => setItem metaFields "fxcm" (.obj source)
    if noSymbol env asset then (none, cache)
    else
      (some
        ([("symbol", .str (env.upper (env.str (get asset "symbol")))),
          ("payload_ts", get metaFields "ts"),
          ("payload_seq", get metaFields "seq"),
          ("schema", .str "smc_viewer_v1"),
          ("meta", .obj metaSnapshot),
          ("price", price),
          ("session", session),
          ("structure", structureBlock env smcStructure events),
          ("liquidity", liquidityBlock env smcLiquidity),
          ("zones", .obj [("raw", .obj zonesRaw)]),
          ("pipeline_local", .obj pipelineLocal)] ++
            match fxcmSource with
            | none => []
            | some source => [("fxcm", .obj source)]), cache)
  | _, _, _ => (none, cache)

/-- A state is built where nothing overflows and there is a symbol. -/
theorem buildViewerState_isSome_iff (asset : List (String × Json F)) (payloadMeta fxcmBlock : Json F)
    (cache : Option (ViewerStateCache F)) :
    (buildViewerState env asset payloadMeta fxcmBlock cache).1.isSome = true ↔
      (pipelineLocal env (coerceDict (get asset "stats"))).isSome = true ∧
        (extractPrice env asset (coerceDict (get asset "stats"))).isSome = true ∧
        (simplifyEvents env (get (structureOf env asset) "events")).isSome = true ∧
        noSymbol env asset = false := by
  unfold buildViewerState
  dsimp only
  cases pipelineLocal env (coerceDict (get asset "stats")) with
  | none => simp
  | some pipelineLocal =>
      cases extractPrice env asset (coerceDict (get asset "stats")) with
      | none => simp
      | some price =>
          cases simplifyEvents env (get (structureOf env asset) "events") with
          | none => simp
          | some rawEvents => cases noSymbol env asset <;> simp

end ViewerStateBuilder

end SmcPipeline
