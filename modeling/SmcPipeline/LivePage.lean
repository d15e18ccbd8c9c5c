import SmcPipeline.ChartAdapter
import SmcPipeline.PageRequests
import Mathlib.Algebra.Order.Floor.Ring
import Mathlib.Algebra.Order.Field.Basic

/-!
# The page between two histories

What `UI_v2/web_client/app.js` does with the answers that it asked for and with the messages of its
sockets of bars and of ticks. A number of a message is there only if JavaScript takes it for a
finite one. The texts of the page are left out, and so are its other sockets.
-/

namespace SmcPipeline

structure LiveCandle (K : Type*) where
  time : ℤ
  opn : K
  high : K
  low : K
  close : K
  volume : K
deriving DecidableEq, Repr

/-- A message with a tick; the symbol is in capitals. -/
structure TickPayload (K : Type*) where
  symbol : String
  mid : Option K
  tickTs : Option K
  snapTs : Option K

/-- A bar of a message; its volumes are the fields that may hold one, in their order. -/
structure BarPayload (K : Type*) where
  openTime : Option K
  opn : Option K
  high : Option K
  low : Option K
  close : Option K
  volumes : List (Option K)
  complete : Bool

/-- A message with bars; a timeframe that the page does not have is none. -/
structure OhlcvPayload (K : Type*) where
  symbol : String
  tf : Option PageTimeframe
  bars : List (BarPayload K)

/-- `appState`: what is asked for, with the chart and the candles of the messages. -/
structure LivePage (K : Type*) extends PageRequests where
  chart : ChartState K
  tickLiveOpenTimeSec : Option ℤ
  tickLiveCandle : Option (LiveCandle K)
  tickLiveVolumeCount : ℕ
  tickLastEmitMs : Option K
  ohlcvLiveOpenTimeSec : Option ℤ
  ohlcvLiveCandle : Option (LiveCandle K)
  prevCompleteCandle : Option (LiveCandle K)
  lastCompleteCandle : Option (LiveCandle K)

/-- What can happen to the page. An answer without bars is none where the request failed. -/
inductive PageEvent (K : Type*)
  | start (symbol : String)
  | symbol (symbol : String) (created : Bool)
  | timeframe (tf : PageTimeframe) (created : Bool)
  | refresh
  | reconnect (created : Bool)
  | answer (fetch : PageFetch) (bars : Option (List (ChartBar K))) (created : Bool)
  | ohlcvOpen
  | ohlcvClose
  | ohlcvTimeout (id : ℕ) (created : Bool)
  | ohlcvMessage (payload : OhlcvPayload K)
  | tickOpen
  | tickClose
  | tickTimeout (id : ℕ) (created : Bool)
  | tickMessage (payload : TickPayload K) (nowMs : K)

/-- `FXCM_WS_ENABLED` and `FXCM_APPLY_COMPLETE_ENABLED` -/
structure PageConfig where
  wsEnabled : Bool
  applyComplete : Bool

namespace LivePages

variable {K : Type*}

def toChartBar [AddGroupWithOne K] (c : LiveCandle K) : ChartBar K :=
  ⟨some (c.time : ℚ), c.opn, c.high, c.low, c.close⟩

/-- `openOhlcvSocket`; a socket that is replaced takes the live candle of its bars with it. -/
def openOhlcvSocket (cfg : PageConfig) (pair : Pair) (created : Bool) (s : LivePage K) :
    LivePage K :=
  let kept := cfg.wsEnabled = true ∧ s.ohlcv.ws = some ⟨pair, .opened⟩
  { s with
    toPageRequests := Requests.openOhlcvSocket cfg.wsEnabled pair created s.toPageRequests
    ohlcvLiveOpenTimeSec := if kept then s.ohlcvLiveOpenTimeSec else none
    ohlcvLiveCandle := if kept then s.ohlcvLiveCandle else none }

/-- `openTickSocket` -/
def openTickSocket (cfg : PageConfig) (symbol : String) (created : Bool) (s : LivePage K) :
    LivePage K :=
  { s with
    toPageRequests := Requests.openTickSocket cfg.wsEnabled symbol created s.toPageRequests }

/-- `resetTickLiveState` -/
def resetTickLiveState (s : LivePage K) : LivePage K :=
  { s with
    tickLiveOpenTimeSec := none
    tickLiveCandle := none
    tickLiveVolumeCount := 0
    tickLastEmitMs := none
    chart := ChartAdapter.clearLiveBar s.chart }

/-- `fetchOhlcv` up to its request. -/
def requestOhlcv (pair : Pair) (boot : Bool) (s : LivePage K) : LivePage K :=
  { s with toPageRequests := Requests.requestOhlcv pair boot s.toPageRequests }

/-- `bootstrap` up to its request. -/
def startPage (symbol : String) (s : LivePage K) : LivePage K :=
  requestOhlcv (symbol, s.currentTimeframe) true { s with currentSymbol := symbol }

/-- The rest of `bootstrap`, with the symbol that it began with. -/
def finishStart (cfg : PageConfig) (symbol : String) (created : Bool) (s : LivePage K) :
    LivePage K :=
  openTickSocket cfg symbol created
    (openOhlcvSocket cfg (symbol, s.currentTimeframe) created s)

/-- `handleSymbolChange` -/
def handleSymbolChange (cfg : PageConfig) (symbol : String) (created : Bool) (s : LivePage K) :
    LivePage K :=
  openTickSocket cfg symbol created
    (openOhlcvSocket cfg (symbol, s.currentTimeframe) created
      (requestOhlcv (symbol, s.currentTimeframe) false { s with currentSymbol := symbol }))

/-- `handleTimeframeChange` -/
def handleTimeframeChange (cfg : PageConfig) (tf : PageTimeframe) (created : Bool)
    (s : LivePage K) : LivePage K :=
  if tf = s.currentTimeframe then s
  else
    let chosen := resetTickLiveState { s with currentTimeframe := tf }
    if s.currentSymbol = "" then chosen
    else
      openOhlcvSocket cfg (s.currentSymbol, tf) created
        (requestOhlcv (s.currentSymbol, tf) false chosen)

/-- The button that reads the history again, once its snapshot is there. -/
def handleRefresh (s : LivePage K) : LivePage K :=
  if s.currentSymbol = "" then s else requestOhlcv (Requests.pairOf s.toPageRequests) false s

/-- The button that opens the sockets again. -/
def handleReconnect (cfg : PageConfig) (created : Bool) (s : LivePage K) : LivePage K :=
  if s.currentSymbol = "" then s
  else
    openTickSocket cfg s.currentSymbol created
      (openOhlcvSocket cfg (Requests.pairOf s.toPageRequests) created s)

/-- `pushBarsToChart`; without bars the chart stays as it is. -/
def pushBarsToChart (pair : Pair) (bars : List (ChartBar K)) (s : LivePage K) : LivePage K :=
  if bars = [] then s
  else { s with chart := ChartAdapter.setBars bars s.chart, history := some pair }

/-- What `fetchOhlcv` does with an answer. -/
def handleAnswer (cfg : PageConfig) (pair : Pair) (bars : Option (List (ChartBar K)))
    (created : Bool) (s : LivePage K) : LivePage K :=
  match bars with
  | none =>
    resetTickLiveState { s with
      chart := ChartAdapter.clearLiveBar (ChartAdapter.clearAll s.chart)
      history := none }
  | some bars => openOhlcvSocket cfg pair created (pushBarsToChart pair bars s)

section

variable [Field K] [LinearOrder K] [FloorRing K]

def timeframeToSeconds : PageTimeframe → ℕ
  | .oneMinute => 60
  | .fiveMinutes => 300

/-- `normalizeTickTimestampToSeconds` of a finite number -/
def tickSeconds (x : K) : K := if ((10 ^ 12 : ℕ) : K) < x then x / ((1000 : ℕ) : K) else x

/-- The start of the candle that a tick belongs to. -/
def candleStart (tf : PageTimeframe) (payload : TickPayload K) (nowMs : K) : ℤ :=
  let ts := ((payload.tickTs.map tickSeconds).or (payload.snapTs.map tickSeconds)).getD
    (nowMs / ((1000 : ℕ) : K))
  ⌊ts / (timeframeToSeconds tf : K)⌋ * timeframeToSeconds tf

/-- The price at which a new candle of ticks opens. -/
def baseOpen (s : LivePage K) (start : ℤ) (mid : K) : K :=
  let live := if s.ohlcvLiveOpenTimeSec = some start then s.ohlcvLiveCandle else none
  ((live.map LiveCandle.opn).or (s.lastCompleteCandle.map LiveCandle.close)).getD mid

/-- The candle of ticks after a tick. -/
def tickCandle (s : LivePage K) (start : ℤ) (count : ℕ) (mid : K) : LiveCandle K :=
  match s.tickLiveCandle with
  | some c =>
    if s.tickLiveOpenTimeSec = some start then
      ⟨c.time, c.opn, max c.high mid, min c.low mid, mid, count⟩
    else
      let base := baseOpen s start mid
      ⟨start, base, max base mid, min base mid, mid, count⟩
  | none =>
    let base := baseOpen s start mid
    ⟨start, base, max base mid, min base mid, mid, count⟩

/-- `handleTickWsPayload` -/
def handleTick (payload : TickPayload K) (nowMs : K) (s : LivePage K) : LivePage K :=
  if payload.symbol = "" ∨ payload.symbol ≠ s.currentSymbol then s
  else
    match payload.mid with
    | none => s
    | some mid =>
      let start := candleStart s.currentTimeframe payload nowMs
      let count := (if s.tickLiveOpenTimeSec = some start then s.tickLiveVolumeCount else 0) + 1
      let candle := tickCandle s start count mid
      let shouldRender := match s.tickLastEmitMs with
        | none => true
        | some last => decide (last = 0) || decide (((200 : ℕ) : K) ≤ nowMs - last)
      { s with
        tickLiveOpenTimeSec := some start
        tickLiveCandle := some candle
        tickLiveVolumeCount := count
        tickLastEmitMs := if shouldRender then some nowMs else s.tickLastEmitMs
        chart :=
          if shouldRender then ChartAdapter.setLiveBar (toChartBar candle) s.chart else s.chart }

/-- `pickFirstPositiveNumber` -/
def pickFirstPositiveNumber (candidates : List (Option K)) : K :=
  (candidates.findSome? fun value => value.filter fun x => decide (0 < x)).getD 0

/-- The volume of a bar: its own, the number of ticks of the same candle, or the one that the live
candle has had, whichever is largest. -/
def liveVolume (s : LivePage K) (time : ℤ) (volumes : List (Option K)) : K :=
  let fallback : K := if s.tickLiveOpenTimeSec = some time then s.tickLiveVolumeCount else 0
  let previous := if s.ohlcvLiveOpenTimeSec = some time then
    (s.ohlcvLiveCandle.map LiveCandle.volume).getD 0 else 0
  max (max (pickFirstPositiveNumber volumes) fallback) previous

/-- The candle of a bar, if its time and its prices are there. -/
def barCandle (s : LivePage K) (bar : BarPayload K) : Option (LiveCandle K) := do
  let openTime ← bar.openTime.filter fun x => decide (0 < x)
  let time := ⌊openTime / ((1000 : ℕ) : K)⌋
  return ⟨time, ← bar.opn, ← bar.high, ← bar.low, ← bar.close, liveVolume s time bar.volumes⟩

/-- A complete bar. -/
def applyComplete (cfg : PageConfig) (c : LiveCandle K) (s : LivePage K) : LivePage K :=
  let s := { s with
    chart := ChartAdapter.updateLastBar (toChartBar c) s.chart
    prevCompleteCandle := s.lastCompleteCandle
    lastCompleteCandle := some c }
  if cfg.applyComplete then
    let s := if s.ohlcvLiveOpenTimeSec = some c.time then
      { s with
        chart := ChartAdapter.clearLiveBar s.chart
        ohlcvLiveOpenTimeSec := none
        ohlcvLiveCandle := none } else s
    if s.tickLiveOpenTimeSec = some c.time then
      { s with tickLiveOpenTimeSec := none, tickLiveCandle := none } else s
  else s

/-- One round of the loop over the bars. -/
def handleBar (cfg : PageConfig) (s : LivePage K) (bar : BarPayload K) : LivePage K :=
  match barCandle s bar with
  | none => s
  | some c =>
    if bar.complete then applyComplete cfg c s
    else
      { s with
        chart := ChartAdapter.setLiveBar (toChartBar c) s.chart
        ohlcvLiveOpenTimeSec := some c.time
        ohlcvLiveCandle := some c }

/-- `handleOhlcvWsPayload` -/
def handleOhlcv (cfg : PageConfig) (payload : OhlcvPayload K) (s : LivePage K) : LivePage K :=
  if payload.symbol = "" ∨ payload.symbol ≠ s.currentSymbol ∨
      payload.tf ≠ some s.currentTimeframe then s
  else payload.bars.foldl (handleBar cfg) s

/-- One event; nothing where it cannot happen. A message comes by a socket that is open. -/
def step (cfg : PageConfig) (s : LivePage K) : PageEvent K → Option (LivePage K)
  | .start symbol =>
    if symbol = "" ∨ s.currentSymbol ≠ "" then none else some (startPage symbol s)
  | .symbol symbol created =>
    if symbol = "" then none else some (handleSymbolChange cfg symbol created s)
  | .timeframe tf created => some (handleTimeframeChange cfg tf created s)
  | .refresh => some (handleRefresh s)
  | .reconnect created => some (handleReconnect cfg created s)
  | .answer fetch bars created =>
    if fetch ∈ s.fetches then
      let answered :=
        handleAnswer cfg fetch.pair bars created { s with fetches := s.fetches.erase fetch }
      some (if fetch.boot then finishStart cfg fetch.pair.1 created answered else answered)
    else none
  | .ohlcvOpen => (Reconnects.onopen s.ohlcv).map fun ohlcv => { s with ohlcv := ohlcv }
  | .ohlcvClose =>
    (Reconnects.onclose (Reconnects.fxcmSocket cfg.wsEnabled)
      (some (Requests.pairOf s.toPageRequests)) s.ohlcv).map fun ohlcv => { s with ohlcv := ohlcv }
  | .ohlcvTimeout id created =>
    (s.ohlcv.timers.find? fun t => t.id = id).map fun t =>
      openOhlcvSocket cfg t.key created
        { s with ohlcv := { s.ohlcv with timers := s.ohlcv.timers.filter fun t => t.id ≠ id } }
  | .ohlcvMessage payload =>
    if s.ohlcv.ws.any fun h => decide (h.phase = .opened) then some (handleOhlcv cfg payload s)
    else none
  | .tickOpen => (Reconnects.onopen s.ticks).map fun ticks => { s with ticks := ticks }
  | .tickClose =>
    (Reconnects.onclose (Reconnects.fxcmSocket cfg.wsEnabled) (some s.currentSymbol) s.ticks).map
      fun ticks => { s with ticks := ticks }
  | .tickTimeout id created =>
    (Reconnects.timeout (Reconnects.fxcmSocket cfg.wsEnabled) id (some s.currentSymbol) created
      s.ticks).map fun ticks => { s with ticks := ticks }
  | .tickMessage payload nowMs =>
    if s.ticks.ws.any fun h => decide (h.phase = .opened) then some (handleTick payload nowMs s)
    else none

end

/-- The page when its script starts. -/
def loaded (tf : PageTimeframe) : LivePage K :=
  ⟨Requests.loaded tf, ChartAdapter.created, none, none, 0, none, none, none, none, none⟩

end LivePages

end SmcPipeline
