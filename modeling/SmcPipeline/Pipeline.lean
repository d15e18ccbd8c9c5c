import SmcPipeline.SmcEngine
import SmcPipeline.SmcPublisher
import SmcPipeline.ViewerBroadcaster

/-!
# The whole pipeline

From the packets and the ticks to the texts that the broadcaster publishes for the browser. The
store returns rows that it was given, of the pair that is asked for; what it merges and drops does
not matter here, and neither does the time that anything takes. Any payload that was published may
come to the broadcaster, at any time and any number of times.
-/

namespace SmcPipeline

/-- What is fixed while the pipeline runs. -/
structure PipelineSetup (K : Type*) where
  env : Runtime (PyFloat K)
  sorter : OpenTimeSort (PyFloat K)
  hmac : HmacSettings
  allowedPairs : Option (List Key)
  ticks : TickRuntime K
  limits : TickLimits K
  producer : ProducerConfig
  lower : String → String
  core : SmcCoreConfig K
  tfPrimary : String
  publisher : PublishRuntime K
  channel : String

/-- The state of all parts: the ingestor with the rows it gave to the store, the ticks, the
manager, whether the task of the producer still runs, what it published, the broadcaster, and the
texts for the browser. -/
structure Pipeline (K : Type*) where
  now : K
  ingestor : IngestorState (PyFloat K) (Key → List (Bar (PyFloat K)))
  ticks : OrderedDict String (PriceTick K)
  manager : OrderedDict String (Asset (Extended K))
  producing : Bool
  payloads : List (Json (PyFloat K))
  viewer : BroadcasterState (PyFloat K)
  texts : List (List (Token K))

section

variable (K : Type*) [Field K] [LinearOrder K] [FloorRing K]

/-- A round: the rows of its frame, or none where `get_df` raises, and the rows that the engine
gets, or none where it gets none. An engine that gets an infinity is not followed further;
`otherHint` is what it yields then. -/
structure RoundInput where
  symbol : String
  frame : Option (List (Bar (PyFloat K)))
  snapshot : Option (List (Bar (PyFloat K)))
  history : EventHistory.Store K
  utcnow : ℤ
  otherHint : HintRead (Extended K)
  latencyMs : K
  error : String

/-- What can happen. What the producer adds to `meta` and the FXCM status have numbers only;
`taken` tells whether Redis takes the payload, as its snapshot or as a message. -/
inductive PipelineEvent
  | packet (packet : Packet (PyFloat K)) (stored : Bool)
  | tick (payload : List (String × Json (PyFloat K)))
  | clock (now : K)
  | round (input : RoundInput K)
  | initAsset (symbol : String)
  | removeAsset (symbol : String)
  | localStats (bars minReady target : String → ℤ)
  | publish (items fxcm : List (String × Json K)) (taken : Bool)
  | broadcast (index : ℕ)

end

namespace Pipeline

open Candles FxcmIngestor JsonText SmcProducer SmcPublisher SmcEngine Rounding

variable {K : Type*}

/-- To `_coerce_float` an infinity is as good as NaN. -/
def finiteFloat : PyFloat K → Option K
  | some (.num x) => some x
  | _ => none

/-- A cell of a frame; nothing for an infinity. -/
def cellOf : PyFloat K → Option (Option K)
  | none => some none
  | some (.num x) => some (some x)
  | some _ => none

def rawBar (bar : Bar (PyFloat K)) : Option (RawBar K) := do
  return ⟨some bar.openTime, ← cellOf bar.opn, ← cellOf bar.high, ← cellOf bar.low,
    ← cellOf bar.close⟩

/-- `build_smc_input_from_store` -/
def snapshotOf (symbol tf : String) (rows : List (RawBar K)) : ContextInput K :=
  let frame := InputAdapter.normalizeFrame rows
  { symbol := symbol
    tfPrimary := tf
    frame := some frame
    hasPriceColumns := !frame.isEmpty
    hasHighLow := !frame.isEmpty
    hasClose := !frame.isEmpty
    pdl := none
    pdh := none }

def liftTick (tick : PriceTick K) : PriceTick (Extended K) :=
  ⟨tick.symbol, tick.bid.map .num, tick.ask.map .num, .num tick.mid, .num tick.tickTs,
    .num tick.snapTs, tick.spread.map .num, .num tick.receivedTs⟩

def liftView (view : TickView K) : TickView (Extended K) :=
  ⟨liftTick view.tick, .num view.age, view.isStale⟩

/-- A value whose floats are numbers. -/
def liftItems (items : List (String × Json K)) : Items K :=
  items.map fun item => (item.1, mapFloats (fun x => some (.num x)) item.2)

def lastRow (rows : List (Bar (PyFloat K))) (last : Bar (PyFloat K)) : LastRow (Extended K) :=
  ⟨rows.length, some last.close, some last.volume, none⟩

def frameRead : Option (List (Bar (PyFloat K))) → FrameRead (Extended K)
  | none => .raised
  | some rows =>
    match rows.getLast? with
    | none => .missing
    | some last => .frame (lastRow rows last)

/-- `_classify_pipeline_state_local` -/
def classifyPipelineStateLocal (ready minReady target : ℤ) : String :=
  if ready < minReady then "COLD" else if ready < target then "WARMUP" else "LIVE"

section

variable [Field K] [LinearOrder K] [FloorRing K]

/-- The stats that `_apply_local_pipeline_stats` writes for an asset. -/
def localPipelineStats (bars minReady target : ℤ) : Items K :=
  let ready := max 0 bars
  let required := if 0 < minReady then max 1 minReady else max 1 target
  let target := max required (max 1 target)
  let share : K := min 1 (max 0 ((ready : K) / (target : K)))
  [("pipeline_state_local", .str (classifyPipelineStateLocal ready required target)),
    ("pipeline_ready_bars", .int ready),
    ("pipeline_required_bars", .int target),
    ("pipeline_required_bars_min", .int required),
    ("pipeline_ready_ratio", .float (some (.num (roundTo 4 share))))]

/-- `_apply_local_pipeline_stats` -/
def applyLocalPipelineStats (lower : String → String) (bars minReady target : String → ℤ)
    (manager : OrderedDict String (SmcAsset K)) : OrderedDict String (SmcAsset K) :=
  (manager.items.map fun item =>
    let symbol := lower item.1
    let items := localPipelineStats (bars symbol) (minReady symbol) (target symbol)
    (item.1, ({ item.2 with stats := setAll items item.2.stats } : SmcAsset K))).foldl
      (fun manager item => manager.set item.1 item.2) manager

variable (u : PipelineSetup K)

/-- The store notes the rows; `stored` tells whether `put_bars` returns. -/
def putRows (stored : Bool) (key : Key) (df : Frame (PyFloat K))
    (rows : Key → List (Bar (PyFloat K))) : (Key → List (Bar (PyFloat K))) × Bool :=
  (Function.update rows key (rows key ++ df.rows), stored)

/-- `_build_smc_hint` with the serializer; an exception in the engine gives no hint. -/
def hintRead (input : RoundInput K) : HintRead (Extended K) :=
  match input.snapshot with
  | none => .missing
  | some rows =>
    match rows.mapM rawBar with
    | none => input.otherHint
    | some raws =>
      match processSnapshot u.lower u.core (snapshotOf input.symbol u.tfPrimary raws) input.history
          input.utcnow with
      | none => .missing
      | some hint => .plain (mapFloats liftFloat (plainHint u.core hint))

def roundOf (input : RoundInput K) : Round (Extended K) :=
  ⟨input.symbol, frameRead input.frame, hintRead u input, .num input.latencyMs, input.error⟩

/-- The rows of a round are rows that the store was given. -/
def readsStore (s : Pipeline K) (input : RoundInput K) : Bool :=
  ((input.frame.getD []).all fun row =>
      decide (row ∈ s.ingestor.store (input.symbol, u.producer.timeframe))) &&
    (input.snapshot.getD []).all fun row =>
      decide (row ∈ s.ingestor.store (input.symbol, u.tfPrimary))

/-- The text of the snapshot of all states. -/
def snapshotText (states : OrderedDict String (Items K)) : List (Token K) :=
  jsonDumps (.obj (states.items.map fun item => (item.1, .obj item.2)))

/-- The message of one state. -/
def messageText (symbol : String) (viewer : Items K) : List (Token K) :=
  jsonDumps (.obj [("symbol", .str symbol), ("viewer_state", .obj viewer)])

/-- `_process_smc_payload_with_metrics`: the broadcaster after a payload, and the texts it
publishes. -/
def processSmcPayload (payload : Json (PyFloat K)) (viewer : BroadcasterState (PyFloat K)) :
    BroadcasterState (PyFloat K) × List (List (Token K)) :=
  let built := ViewerBroadcaster.buildViewerStatesFromPayload u.publisher.toViewerRuntime payload
    viewer.caches
  let viewer := { viewer with caches := built.2 }
  match built.1 with
  | none => (viewer, [])
  | some states =>
    if states.items = [] then (viewer, [])
    else
      let snapshot := viewer.snapshot.update states
      ({ viewer with snapshot := snapshot },
        snapshotText snapshot :: states.items.map fun item => messageText item.1 item.2)

/-- Nobody reads a payload that Redis does not take. -/
def notePayload (taken : Bool) (payload : Json (PyFloat K)) (payloads : List (Json (PyFloat K))) :
    List (Json (PyFloat K)) := if taken then payloads ++ [payload] else payloads

/-- One event; nothing where it cannot happen. -/
def step (s : Pipeline K) : PipelineEvent K → Option (Pipeline K)
  | .packet packet stored =>
    some { s with
      ingestor := (processPayload u.env u.sorter (putRows stored) u.hmac u.allowedPairs packet
        s.ingestor).2 }
  | .tick payload =>
    some { s with
      ticks := PriceTicks.updatePriceTick u.ticks u.limits s.now
        (payload.map fun item => (item.1, mapFloats finiteFloat item.2)) s.ticks }
  | .clock now => some { s with now := now }
  | .round input =>
    if s.producing && readsStore u s input then
      let found := PriceTicks.getPriceTick u.limits s.now input.symbol s.ticks
      some { s with
        ticks := found.2
        manager := updateAsset input.symbol
          (roundUpdate u.producer (found.1.map liftView) (roundOf u input)) s.manager }
    else none
  | .initAsset symbol =>
    if s.producing then
      some { s with manager := s.manager.set symbol (SmcProducer.initAsset symbol) }
    else none
  | .removeAsset symbol =>
    if s.producing then some { s with manager := s.manager.erase symbol } else none
  | .localStats bars minReady target =>
    if s.producing then
      some { s with manager := applyLocalPipelineStats u.lower bars minReady target s.manager }
    else none
  | .publish items fxcm taken =>
    if s.producing then
      match publishSmcState u.publisher u.channel (liftItems items) (liftItems fxcm) s.manager with
      | none => some { s with producing := false }
      -- The payload as it is read from its text.
      | some (manager, payload) =>
        some { s with
          manager := manager
          payloads := notePayload taken (sortKeys payload) s.payloads }
    else none
  | .broadcast index =>
    (s.payloads[index]?).map fun payload =>
      let out := processSmcPayload u payload s.viewer
      { s with viewer := out.1, texts := s.texts ++ out.2 }

/-- The pipeline before its first event. -/
def start (now : K) : Pipeline K where
  now := now
  ingestor := ⟨fun _ => [], fun _ => ⟨none, false, none⟩, none⟩
  ticks := OrderedDict.empty
  manager := OrderedDict.empty
  producing := true
  payloads := []
  viewer := ⟨fun _ => none, OrderedDict.empty⟩
  texts := []

end

end Pipeline

end SmcPipeline
