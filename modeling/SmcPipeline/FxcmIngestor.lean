import SmcPipeline.RamLayer
import Mathlib.Data.Int.Notation
import Mathlib.Logic.Function.Basic

/-!
# The FXCM ingestor

`_process_payload` of `data/fxcm_ingestor.py` on one decoded packet: the shape of
the payload, the HMAC gate, the universe and status filters, the live-bar caches
and the call of `put_bars`. What the interpreter and its libraries do to values
whose details do not matter here (text of a value, number parsing, JSON text,
digests) is a parameter; the store is reached only through `put`.
-/

namespace SmcPipeline

/-- What `json_loads` produces; a dict is the list of its items. -/
inductive Json (F : Type*)
  | null
  | bool (b : Bool)
  | int (i : ℤ)
  | float (x : F)
  | str (s : String)
  | arr (items : List (Json F))
  | obj (fields : List (String × Json F))

/-- What `json_dumps` does: besides the errors that are caught, nesting too deep raises. -/
inductive Dumped
  | failed
  | raised
  | text (s : String)
deriving DecidableEq, Repr

/-- `hmac.new` may fail, which is caught, and `hexdigest` stands behind the handler. -/
inductive Digest
  | failed
  | raised
  | hex (text : String)
deriving DecidableEq, Repr

/-- The library functions the ingestor calls. `str` and `%r` raise for a value that is nested too
deep. -/
structure Runtime (F : Type*) where
  isZero : F → Bool
  tooDeep : Json F → Bool
  str : Json F → String
  lower : String → String
  int : Json F → Option ℤ
  float : Json F → Option F
  jsonDumps : Json F → Dumped
  hmacHexdigest : String → String → String → Digest
  tooDeep_str : ∀ s, tooDeep (.str s) = false
  lower_empty : lower "" = ""
  int_int : ∀ i, int (.int i) = some i
  float_float : ∀ x, float (.float x) = some x

/-- A sort by open time that may permute rows of one time. -/
structure OpenTimeSort (F : Type*) where
  sort : List (Bar F) → List (Bar F)
  perm : ∀ rows, (sort rows).Perm rows
  sorted : ∀ rows, (sort rows).Pairwise fun a b => a.openTime ≤ b.openTime

structure IncomingBar (F : Type*) where
  row : Bar F
  complete : Bool
  synthetic : Bool

/-- The caches of one pair: the last live bar and the open time finalised last. -/
structure LivePair (F : Type*) where
  live : Option (Bar F)
  synthetic : Bool
  finalized : Option ℤ
deriving DecidableEq

structure IngestorState (F σ : Type*) where
  store : σ
  live : Key → LivePair F
  lastBarCloseMs : Option ℤ

structure FeedStatus where
  market : Option String
  price : Option String
  ohlcv : Option String

structure HmacSettings where
  secret : Option String
  algo : String
  required : Bool

structure Packet (F : Type*) where
  status : FeedStatus
  payload : List (String × Json F)

inductive Outcome
  | returned (rows : ℕ) (pair : Option Key)
  | raised
deriving DecidableEq, Repr

namespace FxcmIngestor

/-- `(0, None, None)` -/
def rejected : Outcome := .returned 0 none

/-- Unicode white space, as `str.strip` has it. -/
def isSpace (c : Char) : Bool :=
  let n := c.toNat
  (9 ≤ n && n ≤ 13) || (28 ≤ n && n ≤ 32) || n = 0x85 || n = 0xA0 || n = 0x1680 ||
    (0x2000 ≤ n && n ≤ 0x200A) || n = 0x2028 || n = 0x2029 || n = 0x202F || n = 0x205F ||
    n = 0x3000

def strip (s : String) : String :=
  String.ofList ((s.toList.dropWhile isSpace).reverse.dropWhile isSpace).reverse

def isAscii (s : String) : Bool := s.toList.all fun c => decide (c.toNat < 128)

variable {F σ : Type*} (env : Runtime F)

def truthy : Json F → Bool
  | .null => false
  | .bool b => b
  | .int i => decide (i ≠ 0)
  | .float x => !env.isZero x
  | .str s => decide (s ≠ "")
  | .arr items => !items.isEmpty
  | .obj fields => !fields.isEmpty

/-- A bar with a field missing or not a number is dropped. -/
def sanitizeBar (fields : List (String × Json F)) : Option (Bar F) :=
  let int (name : String) : Option ℤ := (fields.lookup name).bind env.int
  let float (name : String) : Option F := (fields.lookup name).bind env.float
  match int "open_time", int "close_time", float "open", float "high", float "low",
      float "close", float "volume" with
  | some openTime, some closeTime, some o, some h, some low, some c, some v =>
    some ⟨openTime, o, h, low, c, v, closeTime, none⟩
  | _, _, _, _, _, _, _ => none

def incomingBar (bar : Json F) : Option (IncomingBar F) :=
  match bar with
  | .obj fields =>
    let complete := match fields.lookup "complete" with
      | some (.bool false) => false
      | _ => true
    let synthetic := match fields.lookup "synthetic" with
      | some (.bool true) => true
      | _ => false
    (sanitizeBar env fields).map fun row => ⟨row, complete, synthetic⟩
  | _ => none

/-- The live bar that a live bar of another open time closes, unless it was the
last one to be finalised. -/
def closing (cache : LivePair F) (row : Bar F) : Option (Bar F) :=
  cache.live.filter fun prev =>
    decide (0 < prev.openTime) && decide (0 < row.openTime) &&
      decide (row.openTime ≠ prev.openTime) && decide (cache.finalized ≠ some prev.openTime)

/-- One round of the loop over the bars: the caches after it and the rows, with
their synthetic flags, that go to the store. -/
def acceptBar (cache : LivePair F) (b : IncomingBar F) : LivePair F × List (Bar F × Bool) :=
  if b.complete then (cache, [(b.row, b.synthetic)])
  else
    let closed := closing cache b.row
    ({ live := some b.row
       synthetic := b.synthetic
       finalized := (closed.map Bar.openTime).or cache.finalized },
      (closed.map fun prev => (prev, cache.synthetic)).toList)

def acceptBars : LivePair F → List (IncomingBar F) → LivePair F × List (Bar F × Bool)
  | cache, [] => (cache, [])
  | cache, b :: bars =>
    let first := acceptBar cache b
    let rest := acceptBars first.1 bars
    (rest.1, first.2 ++ rest.2)

def inInt64 (i : ℤ) : Bool := decide (-(2 ^ 63) ≤ i) && decide (i < 2 ^ 63)

/-- The cast of the time columns to `Int64` raises for integers outside 64 bits. -/
def barsPayloadToDf (sorter : OpenTimeSort F) (rows : List (Bar F)) : Option (Frame F) :=
  if rows.all fun r => inInt64 r.openTime && inInt64 r.closeTime then
    some ⟨false, sorter.sort rows⟩
  else none

/-- From the loop over the bars to the end. `put` tells whether `put_bars`
returned. -/
def ingestBars (sorter : OpenTimeSort F) (put : Key → Frame F → σ → σ × Bool) (pair : Key)
    (bars : List (IncomingBar F)) (st : IngestorState F σ) : Outcome × IngestorState F σ :=
  let accepted := acceptBars (st.live pair) bars
  let st := { st with live := Function.update st.live pair accepted.1 }
  let rows := accepted.2.map Prod.fst
  if rows.isEmpty then (rejected, st)
  else
    match barsPayloadToDf sorter rows with
    | none => (.raised, st)
    | some df =>
      match put pair df st.store with
      | (store, false) => (rejected, { st with store := store })
      | (store, true) =>
        (.returned df.rows.length (some pair),
          { st with
            store := store
            lastBarCloseMs := (df.rows.getLast?.map Bar.closeTime).or st.lastBarCloseMs })

def normalizeSignature (sig : Option (Json F)) : Option String :=
  let text : Option String := match sig with
    | none => none
    | some .null => none
    | some (.str s) => some s
    | some v => some (env.str v)
  (text.map strip).filter fun s => decide (s ≠ "")

def digestName (algo : String) : String := env.lower (if algo = "" then "sha256" else algo)

/-- `none` where something raises: `compare_digest` takes ASCII text only. -/
def verifyHmacSignature (payload : Json F) (sig secret : Option String) (algo : String) :
    Option Bool :=
  match secret, sig with
  | none, _ => some sig.isNone
  | some _, none => some false
  | some secret, some sig =>
    if sig = "" then some false
    else
      match env.jsonDumps payload with
      | .failed => some false
      | .raised => none
      | .text serialized =>
        match env.hmacHexdigest (digestName env algo) secret serialized with
        | .failed => some false
        | .raised => none
        | .hex digest => if isAscii sig then some (decide (digest = sig)) else none

inductive Gate
  | pass
  | reject
  | raise
deriving DecidableEq, Repr

def basePayload (symbol interval bars : Json F) : Json F :=
  .obj [("symbol", symbol), ("tf", interval), ("bars", bars)]

/-- The branches on `hmac_secret`; an empty secret is falsy. -/
def hmacGate (hmac : HmacSettings) (base : Json F) (sig : Option String) : Gate :=
  match hmac.secret.filter fun s => decide (s ≠ "") with
  | none => .pass
  | some secret =>
    match sig with
    | none => if hmac.required then .reject else .pass
    | some sig =>
      match verifyHmacSignature env base (some sig) (some secret) hmac.algo with
      | none => .raise
      | some true => .pass
      | some false => .reject

/-- Symbol and timeframe are formatted by each log line of a refusal, and converted where the
packet passes. -/
def unprintable (symbol interval : Json F) : Bool := env.tooDeep symbol || env.tooDeep interval

/-- What `run_fxcm_ingestor` passes on of its arguments. -/
def normalizedSettings (hmac : HmacSettings) : HmacSettings where
  secret := hmac.secret.map strip
  algo :=
    let algo := env.lower (strip (if hmac.algo = "" then "sha256" else hmac.algo))
    if algo = "" then "sha256" else algo
  required := hmac.required

def isIngestAllowedByStatus (status : FeedStatus) : Bool × String :=
  let clean (s : Option String) : String := env.lower (strip (s.getD ""))
  let market := if clean status.market = "" then "unknown" else clean status.market
  let price := clean status.price
  let ohlcv := clean status.ohlcv
  if market = "closed" then (false, "market=closed")
  else if market = "open" then
    if price ≠ "" ∧ price ≠ "ok" then (false, "price=" ++ price)
    else if ohlcv ≠ "" ∧ ohlcv ≠ "ok" then (true, "ok (ohlcv=" ++ ohlcv ++ " ignored)")
    else (true, "ok")
  else (true, "status=unknown")

/-- `payload.get(name)`, `None` where the field is absent. -/
def field (payload : List (String × Json F)) (name : String) : Json F :=
  (payload.lookup name).getD .null

/-- The parts of a payload that passes the first check. -/
def shape (payload : List (String × Json F)) : Option (Json F × Json F × List (Json F)) :=
  let symbol := field payload "symbol"
  let interval := field payload "tf"
  match field payload "bars" with
  | .arr bars => if truthy env symbol && truthy env interval then some (symbol, interval, bars) else none
  | _ => none

def pairOf (symbol interval : Json F) : Key :=
  (strip (env.lower (env.str symbol)), strip (env.lower (env.str interval)))

/-- From `_normalize_signature` to the branches on `hmac_secret`, with the text that either outcome
needs of symbol and timeframe. -/
def packetGate (hmac : HmacSettings) (payload : List (String × Json F)) (symbol interval : Json F)
    (bars : List (Json F)) : Gate :=
  if (payload.lookup "sig").any env.tooDeep then .raise
  else
    match hmacGate env (normalizedSettings env hmac) (basePayload symbol interval (.arr bars))
        (normalizeSignature env (payload.lookup "sig")) with
    | .raise => .raise
    | .pass => if unprintable env symbol interval then .raise else .pass
    | .reject => if unprintable env symbol interval then .raise else .reject

/-- `_process_payload`, with the settings as `run_fxcm_ingestor` passes them. -/
def processPayload (sorter : OpenTimeSort F) (put : Key → Frame F → σ → σ × Bool)
    (hmac : HmacSettings) (allowedPairs : Option (List Key)) (packet : Packet F)
    (st : IngestorState F σ) : Outcome × IngestorState F σ :=
  match shape env packet.payload with
  | none =>
    if unprintable env (field packet.payload "symbol") (field packet.payload "tf") then
      (.raised, st)
    else (rejected, st)
  | some (symbol, interval, bars) =>
    match packetGate env hmac packet.payload symbol interval bars with
    | .reject => (rejected, st)
    | .raise => (.raised, st)
    | .pass =>
      let pair := pairOf env symbol interval
      if (allowedPairs.map fun pairs => pairs.contains pair) = some false then (rejected, st)
      else if !(isIngestAllowedByStatus env packet.status).1 then (rejected, st)
      else ingestBars sorter put pair (bars.filterMap (incomingBar env)) st

theorem shape_eq_some {payload : List (String × Json F)} {symbol interval : Json F}
    {bars : List (Json F)} (h : shape env payload = some (symbol, interval, bars)) :
    field payload "symbol" = symbol ∧ field payload "tf" = interval := by
  unfold shape at h
  dsimp only at h
  split at h
  · split_ifs at h
    cases h
    exact ⟨rfl, rfl⟩
  · cases h

/-- A payload without its parts changes nothing. -/
theorem processPayload_of_no_shape (sorter : OpenTimeSort F) (put : Key → Frame F → σ → σ × Bool)
    (hmac : HmacSettings) (allowedPairs : Option (List Key)) (packet : Packet F)
    (h : shape env packet.payload = none) (st : IngestorState F σ) :
    (processPayload env sorter put hmac allowedPairs packet st).2 = st ∧
      (processPayload env sorter put hmac allowedPairs packet st).1 =
        if unprintable env (field packet.payload "symbol") (field packet.payload "tf") then .raised
        else rejected := by
  unfold processPayload
  rw [h]
  dsimp only
  split_ifs <;> exact ⟨rfl, rfl⟩

end FxcmIngestor

end SmcPipeline
