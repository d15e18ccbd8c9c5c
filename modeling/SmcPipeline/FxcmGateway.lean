import SmcPipeline.FxcmValidate
import SmcPipeline.PubSub
import SmcPipeline.Runs

/-!
# The FXCM gateway

`UI_v2/fxcm_ohlcv_ws_server.py`: a WebSocket server between the channels of the connector and any
number of browsers, each of which gets the bars of one pair, the ticks of one symbol or the status.
Every client has a subscription of its own. A message that the validator refuses is reported, at
most once in ten seconds for each kind, and in strict mode it is not sent.
-/

namespace SmcPipeline

/-- The library functions of the gateway; `urlsplit` gives path and query. -/
structure GatewayRuntime (F D : Type*) extends ValidatorRuntime F where
  upper : String → String
  jsonLoads : D → Option (Json F)
  urlsplit : String → Option (String × String)
  parseQs : String → Option (List (String × List String))

structure GatewayConfig where
  channelName : String
  priceTickChannelName : String
  statusChannelName : String
  /-- `FXCM_WS_STRICT_VALIDATE_ENABLED` -/
  strictEnabled : Bool

inductive Selection
  | ohlcv (symbol tf : String)
  | ticks (symbol : String)
  | status
deriving DecidableEq, Repr

inductive ClientStage
  | connected
  | streaming
  | closed
deriving DecidableEq, Repr

/-- A client with the messages it was sent; `closing` tells whether its close code is set. -/
structure GatewayClient (F : Type*) where
  selection : Selection
  stage : ClientStage
  closing : Bool
  sent : List (Json F)

/-- The server with its clients and the broker. The refused messages and the reports, each with
its kind and time, are kept for the statements only. -/
structure Gateway (F D K : Type*) where
  broker : PubSub.Broker ℕ String D
  clients : ℕ → Option (GatewayClient F)
  now : K
  softValidateLastLogTs : String → Option K
  refused : List (String × K)
  reports : List (String × K)

/-- What can happen; `accepted` tells whether the connection takes what is sent. -/
inductive GatewayAction (D K : Type*)
  | connect (id : ℕ) (path : String)
  | subscribe (id : ℕ)
  | publish (channel : String) (data : D)
  | handle (id : ℕ) (accepted : Bool)
  | close (id : ℕ)
  | leave (id : ℕ)
  | fail (id : ℕ)
  | clock (now : K)

structure PriceTickMessage (F : Type*) where
  symbol : String
  bid : F
  ask : F
  mid : F
  tickTs : F
  snapTs : F

structure StatusMessage (F : Type*) where
  ts : Option F
  texts : List (String × String)
  session : Option (List (String × Json F))

namespace FxcmGateway

open FxcmIngestor FxcmValidate PubSub

variable {F D K : Type*} (env : GatewayRuntime F D)

def validateFxcmPriceTickMessage (obj : List (String × Json F)) : Option (PriceTickMessage F) :=
  let symbol := strip (textOf env.toValidatorRuntime (field obj "symbol"))
  let float (name : String) : Option F := (obj.lookup name).bind env.float
  if symbol = "" then none
  else
    match float "bid", float "ask", float "mid", float "tick_ts", float "snap_ts" with
    | some bid, some ask, some mid, some tickTs, some snapTs =>
      some ⟨symbol, bid, ask, mid, tickTs, snapTs⟩
    | _, _, _, _, _ => none

def isNull : Json F → Bool
  | .null => true
  | _ => false

/-- The texts of a status that are not blank. -/
def statusTexts (obj : List (String × Json F)) : List (String × String) :=
  ["process", "market", "price", "ohlcv", "note"].filterMap fun key =>
    let text := strip (pyStr env.toValidatorRuntime (field obj key))
    if isNull (field obj key) || text = "" then none else some (key, text)

def validateFxcmStatusMessage (obj : List (String × Json F)) : Option (StatusMessage F) :=
  let ts := field obj "ts"
  if isNull ts then
    match field obj "session" with
    | .null => some ⟨none, statusTexts env obj, none⟩
    | .obj session => some ⟨none, statusTexts env obj, some session⟩
    | _ => none
  else
    match env.float ts, field obj "session" with
    | some x, .null => some ⟨some x, statusTexts env obj, none⟩
    | some x, .obj session => some ⟨some x, statusTexts env obj, some session⟩
    | _, _ => none

/-- `(query.get(name) or [""])[0]` -/
def queryValue (query : List (String × List String)) (name : String) : String :=
  match query.lookup name with
  | some (value :: _) => value
  | _ => ""

/-- The selection of a path; `none` where it is of no use or an exception ends the handler. -/
def selectionOf (path : String) : Option Selection := do
  let (route, query) ← env.urlsplit path
  if route = "/fxcm/ohlcv" then do
    let query ← env.parseQs query
    let symbol := env.upper (strip (queryValue query "symbol"))
    let tf := env.lower (strip (queryValue query "tf"))
    if symbol = "" ∨ tf = "" then none else some (.ohlcv symbol tf)
  else if route = "/fxcm/ticks" then do
    let query ← env.parseQs query
    let symbol := env.upper (strip (queryValue query "symbol"))
    if symbol = "" then none else some (.ticks symbol)
  else if route = "/fxcm/status" then some .status
  else none

/-- `_parse_message` -/
def parseMessage (data : D) : Option (List (String × Json F)) :=
  match env.jsonLoads data with
  | some (.obj fields) => some fields
  | _ => none

def kindOf : Selection → String
  | .ohlcv _ _ => "ohlcv"
  | .ticks _ => "ticks"
  | .status => "status"

def channelOf (cfg : GatewayConfig) : Selection → String
  | .ohlcv _ _ => cfg.channelName
  | .ticks _ => cfg.priceTickChannelName
  | .status => cfg.statusChannelName

/-- Whether the validator of the kind takes a message. -/
def isValid (kind : Selection) (obj : List (String × Json F)) : Bool :=
  match kind with
  | .ohlcv _ _ => (validateFxcmOhlcvMessage env.toValidatorRuntime obj).isSome
  | .ticks _ => (validateFxcmPriceTickMessage env obj).isSome
  | .status => (validateFxcmStatusMessage env obj).isSome

/-- `str(payload.get("tf") or payload.get("timeframe") or "")` -/
def timeframeText (payload : List (String × Json F)) : String :=
  textOf env.toValidatorRuntime
    (if truthy env.toRuntime (field payload "tf") then field payload "tf"
      else field payload "timeframe")

/-- The message for the client, or nothing where it is of another symbol or timeframe. -/
def outgoing (selection : Selection) (payload : List (String × Json F)) :
    Option (List (String × Json F)) :=
  let msgSymbol := env.upper (textOf env.toValidatorRuntime (field payload "symbol"))
  match selection with
  | .ohlcv symbol tf =>
    let msgTf := env.lower (timeframeText env payload)
    if msgSymbol ≠ symbol ∨ msgTf ≠ tf then none
    else
      let bars := match field payload "bars" with
        | .arr bars => bars
        | _ => []
      some [("symbol", .str msgSymbol), ("tf", .str msgTf), ("bars", .arr bars)]
  | .ticks symbol =>
    if msgSymbol ≠ symbol then none
    else
      some (("symbol", .str msgSymbol) ::
        ["bid", "ask", "mid", "tick_ts", "snap_ts"].map fun name => (name, field payload name))
  | .status => some payload

/-- `_should_gate_fxcm_payload` -/
def shouldGate (cfg : GatewayConfig) (selection : Selection) (message : List (String × Json F)) :
    Bool := cfg.strictEnabled && !isValid env selection message

section

variable [Field K] [LinearOrder K]

/-- `_soft_validate` -/
def softValidate (selection : Selection) (payload : List (String × Json F))
    (s : Gateway F D K) : Gateway F D K :=
  if isValid env selection payload then s
  else
    let kind := kindOf selection
    let s := { s with refused := s.refused ++ [(kind, s.now)] }
    match s.softValidateLastLogTs kind with
    | some last =>
      if s.now - last < (10 : ℕ) then s
      else
        { s with
          softValidateLastLogTs := Function.update s.softValidateLastLogTs kind (some s.now)
          reports := s.reports ++ [(kind, s.now)] }
    | none =>
      { s with
        softValidateLastLogTs := Function.update s.softValidateLastLogTs kind (some s.now)
        reports := s.reports ++ [(kind, s.now)] }

def setClient (id : ℕ) (client : GatewayClient F) (s : Gateway F D K) : Gateway F D K :=
  { s with clients := Function.update s.clients id (some client) }

/-- The handler ends: the subscription is given up. -/
def endClient (id : ℕ) (client : GatewayClient F) (s : Gateway F D K) : Gateway F D K :=
  { setClient id { client with stage := .closed } s with broker := s.broker.unsubscribe id }

/-- What a handler does with a message that it has taken. -/
def forward (cfg : GatewayConfig) (id : ℕ) (accepted : Bool) (client : GatewayClient F) (data : D)
    (s : Gateway F D K) : Gateway F D K :=
  match parseMessage env data with
  | none => s
  | some payload =>
    match outgoing env client.selection payload with
    | none => s
    | some message =>
      let s := softValidate env client.selection payload s
      if shouldGate env cfg client.selection message then s
      else if accepted then setClient id { client with sent := client.sent ++ [.obj message] } s
      else endClient id client s

def step (cfg : GatewayConfig) (s : Gateway F D K) : GatewayAction D K → Option (Gateway F D K)
  | .connect id path =>
    match s.clients id, selectionOf env path with
    | none, some selection => some (setClient id ⟨selection, .connected, false, []⟩ s)
    -- the connection is closed at once
    | none, none => some s
    | some _, _ => none
  | .subscribe id =>
    match s.clients id with
    | some client =>
      if client.stage = .connected then
        some { setClient id { client with stage := .streaming } s with
          broker := s.broker.subscribe id (channelOf cfg client.selection) }
      else none
    | none => none
  | .publish channel data => some { s with broker := s.broker.publish channel data }
  | .handle id accepted =>
    match s.clients id with
    | some client =>
      if client.stage = .streaming then
        -- the close code is tested before the handler waits for the message
        (s.broker.take id).map fun out =>
          forward env cfg id (accepted && !client.closing) client out.1 { s with broker := out.2 }
      else none
    | none => none
  | .close id =>
    (s.clients id).map fun client => setClient id { client with closing := true } s
  | .leave id =>
    match s.clients id with
    | some client =>
      if client.stage = .streaming ∧ client.closing = true then some (endClient id client s)
      else none
    | none => none
  | .fail id =>
    -- the broker cannot be reached, and the exception ends the handler
    (s.clients id).map fun client => endClient id client s
  | .clock now => if s.now ≤ now then some { s with now := now } else none

/-- The server before its first client. -/
def start (now : K) : Gateway F D K where
  broker := Broker.start
  clients := fun _ => none
  now := now
  softValidateLastLogTs := fun _ => none
  refused := []
  reports := []

end

end FxcmGateway

end SmcPipeline
