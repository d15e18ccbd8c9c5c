import SmcPipeline.PriceTicks

/-!
# One round of the producer

`process_smc_batch` of `app/smc_producer.py` for one symbol, and `update_asset` of
`app/smc_state_manager.py`. A round builds its stats afresh, and leaves by one of five exits: no
OHLCV, too little history, no hint, a hint, or an exception. The manager merges the stats of a
round over those of the rounds before it.
-/

namespace SmcPipeline

/-- The last row of the frame that a round reads. A column that is missing, or whose cell is no
number to `float`, is `none`. -/
structure LastRow (K : Type*) where
  rows : ℕ
  close : Option (Option K)
  volume : Option (Option K)
  timestamp : Option (Json (Option K))

/-- What `get_df` did; a frame without rows is as good as none. -/
inductive FrameRead (K : Type*)
  | raised
  | missing
  | frame (last : LastRow K)

/-- What `_build_smc_hint` and the serializer did. -/
inductive HintRead (K : Type*)
  | raised
  | missing
  | plain (hint : Json (Option K))

/-- A round for one symbol. -/
structure Round (K : Type*) where
  symbol : String
  frame : FrameRead K
  hint : HintRead K
  latencyMs : K
  error : String

/-- An asset: its stats and the other items of its dict. -/
structure Asset (K : Type*) where
  stats : OrderedDict String (Json (Option K))
  fields : OrderedDict String (Json (Option K))

/-- The argument of `update_asset`; the update after an exception has no stats. -/
structure AssetUpdate (K : Type*) where
  stats : Option (OrderedDict String (Json (Option K)))
  fields : List (String × Json (Option K))

structure ProducerConfig where
  timeframe : String
  lookback : ℕ

namespace SmcProducer

variable {K : Type*}

def setAll (items : List (String × Json (Option K))) (d : OrderedDict String (Json (Option K))) :
    OrderedDict String (Json (Option K)) :=
  items.foldl (fun d item => d.set item.1 item.2) d

theorem every_setAll {R : String → Json (Option K) → Prop} {items : List (String × Json (Option K))}
    {d : OrderedDict String (Json (Option K))} (h : d.Every R)
    (hitems : ∀ item ∈ items, R item.1 item.2) : (setAll items d).Every R :=
  OrderedDict.every_foldl_set h hitems

def initAsset (symbol : String) : Asset K where
  stats := OrderedDict.empty
  fields := setAll
    [("symbol", .str symbol),
      ("state", .str "init"),
      ("signal", .str "SMC_NONE"),
      ("smc_hint", .null),
      ("hints", .arr [.str "Очікування SMC даних..."])] OrderedDict.empty

/-- The asset of a symbol, initialised where there is none. -/
def assetOf (manager : OrderedDict String (Asset K)) (symbol : String) : Asset K :=
  (manager.get? symbol).getD (initAsset symbol)

/-- `update_asset`; the stats are merged over the old ones. -/
def updateAsset (symbol : String) (updates : AssetUpdate K)
    (manager : OrderedDict String (Asset K)) : OrderedDict String (Asset K) :=
  let current := assetOf manager symbol
  manager.set symbol
    { stats := current.stats.update (updates.stats.getD OrderedDict.empty)
      fields := (setAll updates.fields current.fields).set "symbol" (.str symbol) }

def floatOrNull (x : Option K) : Json (Option K) :=
  match x with
  | none => .null
  | some x => .float (some x)

/-- The fields of the live price. -/
def liveFields (view : TickView K) : List (String × Json (Option K)) :=
  [("live_price_mid", .float (some view.tick.mid)),
    ("live_price_bid", floatOrNull view.tick.bid),
    ("live_price_ask", floatOrNull view.tick.ask),
    ("tick_ts", .float (some view.tick.tickTs)),
    ("tick_snap_ts", .float (some view.tick.snapTs)),
    ("tick_age_sec", .float (some view.age)),
    ("tick_is_stale", .bool view.isStale)]

def tickStats (tick : Option (TickView K)) : OrderedDict String (Json (Option K)) :=
  match tick with
  | none => OrderedDict.empty
  | some view =>
    setAll (liveFields view ++
      [("current_price", .float (some view.tick.mid)), ("price_source", .str "price_stream")])
      OrderedDict.empty

/-- What the last row adds to the stats; a price that is there stays where the close is none. -/
def frameItems (cfg : ProducerConfig) (last : LastRow K) (price : Option (Json (Option K))) :
    List (String × Json (Option K)) :=
  [("current_price", ((last.close.map Json.float).or price).getD .null),
      ("smc_df_rows", .int last.rows), ("smc_timeframe", .str cfg.timeframe)] ++
    (last.volume.map fun v => ("volume", Json.float v)).toList ++
    (last.timestamp.map fun t => ("timestamp", t)).toList

def frameStats (cfg : ProducerConfig) (last : LastRow K)
    (stats : OrderedDict String (Json (Option K))) : OrderedDict String (Json (Option K)) :=
  setAll (frameItems cfg last (stats.get? "current_price")) stats

def update (signal state : String) (stats : Option (OrderedDict String (Json (Option K))))
    (hints : String) (more : List (String × Json (Option K))) : AssetUpdate K :=
  ⟨stats, [("signal", .str signal), ("state", .str state)] ++ more ++
    [("hints", .arr [.str hints])]⟩

/-- The update after an exception. -/
def errorUpdate [Zero K] (error : String) : AssetUpdate K :=
  update "SMC_ERROR" "error" none ("Помилка: " ++ error)
    [("trigger_reasons", .arr [.str "processing_error"]), ("confidence", .float (some 0)),
      ("visible", .bool true)]

def enoughRows (cfg : ProducerConfig) (last : LastRow K) : Bool :=
  decide (max 5 (cfg.lookback / 2) ≤ last.rows)

/-- The update of a round whose tick is `tick`. -/
def roundUpdate [Zero K] (cfg : ProducerConfig) (tick : Option (TickView K)) (round : Round K) :
    AssetUpdate K :=
  match round.frame with
  | .raised => errorUpdate round.error
  | .missing =>
    update "SMC_NO_OHLCV" "normal" (some (tickStats tick))
      "SMC: немає OHLCV — показуємо лише тики" []
  | .frame last =>
    let stats := frameStats cfg last (tickStats tick)
    if enoughRows cfg last then
      let stats := stats.set "smc_latency_ms" (.float (some round.latencyMs))
      match round.hint with
      | .raised => errorUpdate round.error
      | .missing =>
        update "SMC_PENDING" "normal" (some stats) "SMC: очікуємо оновлення snapshot" []
      | .plain hint =>
        update "SMC_HINT" "normal" (some stats) "SMC: дані оновлено" [("smc_hint", hint)]
    else
      update "SMC_WARMUP" "normal" (some stats)
        "SMC: недостатньо історії для підказок — очікуємо warmup" []

/-- The clock, the ticks of the store and the assets of the manager. -/
structure ProducerState (K : Type*) where
  now : K
  ticks : OrderedDict String (PriceTick K)
  manager : OrderedDict String (Asset K)

/-- A tick arrives, time passes, or the producer comes to a symbol. -/
inductive ProducerEvent (K : Type*)
  | tick (payload : List (String × Json (Option K)))
  | clock (now : K)
  | round (round : Round K)

section

variable [Field K] [LinearOrder K] (env : TickRuntime K) (limits : TickLimits K)
  (cfg : ProducerConfig)

/-- The tick that a round at this state gets. -/
def tickAt (s : ProducerState K) (symbol : String) : Option (TickView K) :=
  (PriceTicks.getPriceTick limits s.now symbol s.ticks).1

def step (s : ProducerState K) : ProducerEvent K → ProducerState K
  | .tick payload => { s with ticks := PriceTicks.updatePriceTick env limits s.now payload s.ticks }
  | .clock now => { s with now := now }
  | .round round =>
    { s with
      ticks := (PriceTicks.getPriceTick limits s.now round.symbol s.ticks).2
      manager := updateAsset round.symbol
        (roundUpdate cfg (tickAt limits s round.symbol) round) s.manager }

def run (s : ProducerState K) (events : List (ProducerEvent K)) : ProducerState K :=
  events.foldl (step env limits cfg) s

end

/-- The producer before its first round. -/
def started (now : K) : ProducerState K := ⟨now, OrderedDict.empty, OrderedDict.empty⟩

def statsOf (s : ProducerState K) (symbol : String) : OrderedDict String (Json (Option K)) :=
  (assetOf s.manager symbol).stats

end SmcProducer

end SmcPipeline
