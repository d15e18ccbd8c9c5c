import SmcPipeline.Pipeline
import SmcPipeline.StrictMessages
import SmcPipeline.ViewerConnect
import SmcPipeline.ViewerDicts
import SmcPipeline.ViewerHttp

/-!
# The states that are served

The broadcaster of `UI_v2/smc_viewer_broadcaster.py` stores its map in Redis as one text, and the
server of `UI_v2/viewer_state_server.py` reads that text for each request. A text that comes to the
broadcaster may be anything, a save may fail, and the broadcaster may end at any point and be
started again with an empty map.
-/

namespace SmcPipeline

/-- Before the first snapshot, at a save, between two messages, or ended by an exception. -/
inductive ServiceStage
  | starting
  | saving
  | listening
  | dead

structure ViewerService (K : Type*) where
  broadcaster : BroadcasterState (PyFloat K)
  stage : ServiceStage
  /-- What Redis holds under `viewer_snapshot_key`. -/
  redis : Option (List (Token K))
  /-- The states built since the broadcaster was started. -/
  built : List (String × List (String × Json (PyFloat K)))
  /-- Those that had been built when the map was last stored. -/
  saved : Option (List (String × List (String × Json (PyFloat K))))

inductive ServiceEvent (K : Type*)
  | restart
  | load (read : Option (Option (List (Token K))))
  | message (data : List (Token K))
  | save (stored : Bool)

namespace ViewerService

open FxcmIngestor JsonReader JsonText KeyedRows Runs ViewerBroadcaster ViewerConnect ViewerDicts
  ViewerHttp

variable {K : Type*} (env : ViewerRuntime (PyFloat K))

def emptyBroadcaster : BroadcasterState (PyFloat K) := ⟨fun _ => none, OrderedDict.empty⟩

/-- A payload up to the save; `raised` is where an exception leads. -/
def takePayload (raised : ServiceStage) (payload : Json (PyFloat K)) (s : ViewerService K) :
    ViewerService K :=
  let built := buildViewerStatesFromPayload env payload s.broadcaster.caches
  match built.1 with
  | none => { s with broadcaster := { s.broadcaster with caches := built.2 }, stage := raised }
  | some states =>
    if states.items = [] then
      { s with broadcaster := { s.broadcaster with caches := built.2 }, stage := .listening }
    else
      { s with
        broadcaster := ⟨built.2, s.broadcaster.snapshot.update states⟩
        stage := .saving
        built := s.built ++ states.items }

/-- `load_initial_snapshot`, `run_forever` and `_save_viewer_snapshot`. What is published after a
save changes nothing here. -/
def step (s : ViewerService K) : ServiceEvent K → Option (ViewerService K)
  | .restart => some { s with broadcaster := emptyBroadcaster, stage := .starting, built := [] }
  | .load read =>
    match s.stage with
    | .starting =>
      -- An exception in the first snapshot ends the task.
      some (((read.bind id).bind jsonLoads).elim { s with stage := .listening }
        fun payload => takePayload env .dead payload s)
    | _ => none
  | .message data =>
    match s.stage with
    | .listening =>
      some ((jsonLoads data).elim s fun payload => takePayload env .listening payload s)
    | _ => none
  | .save stored =>
    match s.stage with
    | .saving =>
      if stored then
        some { s with
          redis := some (Pipeline.snapshotText s.broadcaster.snapshot)
          stage := .listening
          saved := some s.built }
      else some { s with stage := .listening }
    | _ => none

/-- Nothing is known of the text that an earlier broadcaster has left. -/
structure Start (s : ViewerService K) : Prop where
  broadcaster : s.broadcaster = emptyBroadcaster
  stage : s.stage = .starting
  built : s.built = []
  saved : s.saved = none

/-- A payload does to the broadcaster what it does in the pipeline. -/
theorem broadcaster_takePayload (u : PipelineSetup K) (raised : ServiceStage)
    (payload : Json (PyFloat K)) (s : ViewerService K) :
    (takePayload u.publisher.toViewerRuntime raised payload s).broadcaster =
      (Pipeline.processSmcPayload u payload s.broadcaster).1 := by
  unfold takePayload Pipeline.processSmcPayload
  dsimp only
  cases (buildViewerStatesFromPayload u.publisher.toViewerRuntime payload
      s.broadcaster.caches).1 with
  | none => rfl
  | some states =>
      dsimp only
      split_ifs <;> rfl

/-- The first snapshot is taken as by `load_initial_snapshot`, which raises where the task ends. -/
theorem loadInitialSnapshot_takePayload {loads : String → Option (Json (PyFloat K))} {raw : String}
    {payload : Json (PyFloat K)} (hraw : raw ≠ "") (hpayload : loads raw = some payload)
    (s : ViewerService K) :
    let loaded := loadInitialSnapshot env loads (some (some raw)) s.broadcaster
    (takePayload env .dead payload s).broadcaster = loaded.2 ∧
      ((takePayload env .dead payload s).stage = .dead ↔ loaded.1 = none) := by
  unfold takePayload loadInitialSnapshot
  dsimp only
  rw [if_neg hraw, hpayload]
  dsimp only
  cases (buildViewerStatesFromPayload env payload s.broadcaster.caches).1 with
  | none => exact ⟨rfl, iff_of_true rfl rfl⟩
  | some states =>
      dsimp only
      split_ifs
      · exact ⟨rfl, iff_of_false (by simp) (by simp)⟩
      · exact ⟨rfl, iff_of_false (by simp) (by simp)⟩

/-- The map has the state of each symbol that was built last, and so has the text. -/
structure Invariant (s : ViewerService K) : Prop where
  caches : UniqueCaches s.broadcaster.caches
  snapshot : UniqueStates s.broadcaster.snapshot
  latest : ∀ symbol, s.broadcaster.snapshot.get? symbol = latestFor symbol s.built
  stored : ∀ done ∈ s.saved, ∃ states : OrderedDict String (List (String × Json (PyFloat K))),
    UniqueStates states ∧ (∀ symbol, states.get? symbol = latestFor symbol done) ∧
      s.redis = some (Pipeline.snapshotText states)

theorem uniqueCaches_empty : UniqueCaches (emptyBroadcaster (K := K)).caches :=
  fun _ _ hcache => by cases hcache

theorem invariant_start {s : ViewerService K} (h : Start s) : Invariant s := by
  obtain ⟨hbroadcaster, -, hbuilt, hsaved⟩ := h
  refine ⟨?_, ?_, fun symbol => ?_, fun done hdone => ?_⟩
  · rw [hbroadcaster]
    exact uniqueCaches_empty
  · rw [hbroadcaster]
    exact OrderedDict.every_empty _
  · rw [hbroadcaster, hbuilt]
    rfl
  · rw [hsaved] at hdone
    cases hdone

variable {env}

theorem invariant_takePayload {s : ViewerService K} (hs : Invariant s) (raised : ServiceStage)
    {payload : Json (PyFloat K)} (hpayload : UniqueNames payload) :
    Invariant (takePayload env raised payload s) := by
  obtain ⟨hcaches, hsnapshot, hlatest, hstored⟩ := hs
  obtain ⟨hstates, hleft⟩ := unique_buildViewerStatesFromPayload env hpayload hcaches
  unfold takePayload
  dsimp only
  cases hbuilt : (buildViewerStatesFromPayload env payload s.broadcaster.caches).1 with
  | none => exact ⟨hleft, hsnapshot, hlatest, hstored⟩
  | some states =>
      dsimp only
      split_ifs with hempty
      · exact ⟨hleft, hsnapshot, hlatest, hstored⟩
      · refine ⟨hleft, OrderedDict.every_update hsnapshot (hstates states hbuilt),
          fun symbol => ?_, hstored⟩
        dsimp only
        rw [OrderedDict.get?_update, latestFor_append, latestFor_items, hlatest]

theorem invariant_step {s t : ViewerService K} {event : ServiceEvent K} (hs : Invariant s)
    (h : step env s event = some t) : Invariant t := by
  cases event with
  | restart =>
      cases h
      exact ⟨uniqueCaches_empty, OrderedDict.every_empty _, fun _ => rfl, hs.stored⟩
  | load read =>
      unfold step at h
      dsimp only at h
      split at h
      · cases h
        cases hread : (read.bind id).bind jsonLoads with
        | none => exact ⟨hs.caches, hs.snapshot, hs.latest, hs.stored⟩
        | some payload =>
            obtain ⟨text, -, htext⟩ := Option.bind_eq_some_iff.mp hread
            exact invariant_takePayload hs _ (uniqueNames_jsonLoads htext)
      · cases h
  | message data =>
      unfold step at h
      dsimp only at h
      split at h
      · cases h
        cases hread : jsonLoads data with
        | none => exact hs
        | some payload => exact invariant_takePayload hs _ (uniqueNames_jsonLoads hread)
      · cases h
  | save stored =>
      unfold step at h
      dsimp only at h
      split at h
      · split_ifs at h with hstored
        · cases h
          refine ⟨hs.caches, hs.snapshot, hs.latest, fun done hdone => ?_⟩
          cases hdone
          exact ⟨s.broadcaster.snapshot, hs.snapshot, hs.latest, rfl⟩
        · cases h
          exact ⟨hs.caches, hs.snapshot, hs.latest, hs.stored⟩
      · cases h

/-- The states of a map as they are written. -/
def statesOf (states : OrderedDict String (List (String × Json (PyFloat K)))) :
    List (String × Json (PyFloat K)) :=
  states.items.map fun item => (item.1, .obj item.2)

theorem snapshotText_eq (states : OrderedDict String (List (String × Json (PyFloat K)))) :
    Pipeline.snapshotText states = jsonDumps (.obj (statesOf states)) := rfl

theorem map_fst_statesOf (states : OrderedDict String (List (String × Json (PyFloat K)))) :
    (statesOf states).map Prod.fst = states.keys := by
  unfold statesOf
  rw [List.map_map]
  rfl

theorem lookup_statesOf (states : OrderedDict String (List (String × Json (PyFloat K))))
    (symbol : String) :
    (statesOf states).lookup symbol = (states.get? symbol).map Json.obj := by
  rw [lookup_eq_firstOf]
  unfold firstOf statesOf OrderedDict.get?
  rw [List.find?_map, Option.map_map, Option.map_map]
  rfl

theorem uniqueNames_statesOf {states : OrderedDict String (List (String × Json (PyFloat K)))}
    (h : UniqueStates states) : UniqueNames (.obj (statesOf states)) := by
  rw [uniqueNames_obj, map_fst_statesOf]
  refine ⟨states.nodup, fun field hfield => ?_⟩
  obtain ⟨item, hitem, rfl⟩ := List.mem_map.mp hfield
  exact h item hitem

theorem getAllStates_snapshotText
    {states : OrderedDict String (List (String × Json (PyFloat K)))} (h : UniqueStates states) :
    getAllStates (some (some (Pipeline.snapshotText states))) =
      sortBy Prod.fst (sortFields (statesOf states)) := by
  unfold getAllStates
  rw [snapshotText_eq]
  dsimp only
  rw [jsonLoads_jsonDumps (uniqueNames_statesOf h), sortKeys]

/-- A state is read under its symbol, with its names sorted. -/
theorem asDict_get_getAllStates
    {states : OrderedDict String (List (String × Json (PyFloat K)))} (h : UniqueStates states)
    (symbol : String) :
    ViewerStateBuilder.asDict (ViewerStateBuilder.get
        (getAllStates (some (some (Pipeline.snapshotText states)))) symbol) =
      (states.get? symbol).map fun state => sortBy Prod.fst (sortFields state) := by
  have hnodup : ((statesOf states).map Prod.fst).Nodup := map_fst_statesOf states ▸ states.nodup
  unfold ViewerStateBuilder.get
  rw [getAllStates_snapshotText h, lookup_sortKeys hnodup, lookup_statesOf]
  cases states.get? symbol with
  | none => rfl
  | some state =>
      rw [Option.map_some, Option.map_some, Option.getD_some, sortKeys]
      rfl

variable (web : HttpRuntime K)

/-- A GET request for the snapshot, and the symbol that it names. -/
def Asks (requestHead : List UInt8) (symbol : Option String) : Prop :=
  ∃ method target query,
    splitRequestLine (firstLine (web.decode requestHead)) = some (method, target) ∧
      web.upper method = "GET" ∧ web.urlsplit target = some ("/smc-viewer/snapshot", query) ∧
      ((web.parseQs query).filterMap fun item =>
        item.2.head?.map fun value => (item.1, value)).lookup "symbol" = symbol

/-- The answer about the state of a symbol. -/
def stateAnswer (symbol : String) :
    Option (List (String × Json (PyFloat K))) → Answer K
  | some state => .json 200 "OK" (some (.obj state))
  | none => .json 404 "Not Found"
      (some (.obj [("error", .str "symbol_not_found"), ("symbol", .str symbol)]))

variable {web}

/-- The order of the names does not matter to an answer. -/
theorem messageOf_sorted (status : ℕ) (reason : String)
    (fields : List (String × Json (PyFloat K))) :
    messageOf web (.json status reason (some (.obj (sortBy Prod.fst (sortFields fields))))) =
      messageOf web (.json status reason (some (.obj fields))) := by
  have hsorted : Json.obj (sortBy Prod.fst (sortFields fields)) = sortKeys (.obj fields) := by
    rw [sortKeys]
  simp only [messageOf, bodyBytes, jsonDumps, hsorted, sortKeys_sortKeys]

/-- Where such a request leads. -/
def snapshotRoute (web : HttpRuntime K) (read : Option (Option (List (Token K)))) :
    Option String → List UInt8 × ℕ
  | none => handleGetSnapshotAll web read
  | some symbol =>
    if symbol = "" then handleGetSnapshotAll web read
    else handleGetSnapshotForSymbol web read symbol

theorem respond_of_asks {requestHead : List UInt8} {symbol : Option String}
    (h : Asks web requestHead symbol) (read : Option (Option (List (Token K))))
    (ohlcvProvider : Option (String → String → ℤ → Fetched K)) :
    (respond web read ohlcvProvider requestHead).bytes = (snapshotRoute web read symbol).1 := by
  obtain ⟨method, target, query, hline, hget, htarget, hsymbol⟩ := h
  have hoptions : web.upper method ≠ "OPTIONS" := by
    rw [hget]
    decide
  -- The path is neither the icon nor a file of the page.
  have hpath : (if ("/smc-viewer/snapshot" : String) = "" then "unknown"
      else "/smc-viewer/snapshot") = "/smc-viewer/snapshot" := by decide
  have hicon : ("/smc-viewer/snapshot" : String) ≠ "/favicon.ico" := by decide
  have hviewer : startsWith "/smc-viewer/" "/smc-viewer/snapshot" = true := by decide
  have hohlcv : ("/smc-viewer/snapshot" : String) ≠ "/smc-viewer/ohlcv" := by decide
  unfold respond processHttpRequest
  rw [hline]
  dsimp only
  rw [if_neg hoptions, if_neg (not_not_intro hget)]
  unfold answerGet
  rw [htarget, Option.bind_some]
  dsimp only
  rw [hpath, if_neg hicon, if_pos hviewer, Option.getD_some]
  unfold route
  rw [if_neg hohlcv, if_pos rfl, hsymbol]
  rfl

theorem read_json {status : ℕ} {reason : String} (h : (status, reason) ∈ statuses)
    (body : Option (Json (PyFloat K))) :
    HttpMessages.read (buildResponse web status reason body) =
      some (messageOf web (.json status reason body), []) := by
  have hallowed : Allowed web none (.json status reason body) := h
  rw [buildResponse_eq, read_messageOf web hallowed]

theorem read_state {states : OrderedDict String (List (String × Json (PyFloat K)))}
    (h : UniqueStates states) {symbol : String} (hsymbol : symbol ≠ "") :
    HttpMessages.read (handleGetSnapshotForSymbol web
        (some (some (Pipeline.snapshotText states))) symbol).1 =
      some (messageOf web (stateAnswer symbol
        ([symbol, web.upper symbol, web.lower symbol].findSome? states.get?)), []) := by
  have hok : (200, "OK") ∈ statuses ∧ (404, "Not Found") ∈ statuses := by decide
  have hstate : ViewerHttp.getState web (some (some (Pipeline.snapshotText states))) symbol =
      ([symbol, web.upper symbol, web.lower symbol].findSome? states.get?).map fun state =>
        sortBy Prod.fst (sortFields state) := by
    unfold ViewerHttp.getState
    rw [if_neg hsymbol, List.map_findSome?]
    exact congrArg (List.findSome? · _) (funext (asDict_get_getAllStates h))
  unfold handleGetSnapshotForSymbol
  rw [hstate]
  cases [symbol, web.upper symbol, web.lower symbol].findSome? states.get? with
  | none => exact read_json hok.2 _
  | some state =>
      dsimp only [Option.map_some]
      refine (read_json hok.1 _).trans ?_
      rw [messageOf_sorted]
      rfl

theorem read_states {states : OrderedDict String (List (String × Json (PyFloat K)))}
    (h : UniqueStates states) :
    HttpMessages.read (handleGetSnapshotAll web
        (some (some (Pipeline.snapshotText states)))).1 =
      some (messageOf web (.json 200 "OK" (some (.obj (statesOf states)))), []) := by
  have hok : (200, "OK") ∈ statuses := by decide
  unfold handleGetSnapshotAll
  rw [getAllStates_snapshotText h]
  refine (read_json hok _).trans ?_
  rw [messageOf_sorted]

/-- Once a map has been stored, and whatever happens after that, a client that asks for a symbol
reads the state of the symbol that was built last before the map was stored, and one that asks for
no symbol reads these states for all of them. -/
theorem served_state_is_latest {s t : ViewerService K} {events : List (ServiceEvent K)}
    {done : List (String × List (String × Json (PyFloat K)))} (hstart : Start s)
    (hrun : Run (step env) (fun _ _ => True) s events t) (hdone : t.saved = some done)
    (ohlcvProvider : Option (String → String → ℤ → Fetched K)) (requestHead : List UInt8) :
    (∀ symbol, symbol ≠ "" → Asks web requestHead (some symbol) →
      HttpMessages.read (respond web (some t.redis) ohlcvProvider requestHead).bytes =
        some (messageOf web (stateAnswer symbol
          ([symbol, web.upper symbol, web.lower symbol].findSome? fun key =>
            latestFor key done)), [])) ∧
      (Asks web requestHead none →
        ∃ states : OrderedDict String (List (String × Json (PyFloat K))),
          (∀ symbol, states.get? symbol = latestFor symbol done) ∧
          HttpMessages.read (respond web (some t.redis) ohlcvProvider requestHead).bytes =
            some (messageOf web (.json 200 "OK" (some (.obj (statesOf states)))), [])) := by
  have hinvariant := hrun.invariant (fun _ _ _ hs _ => invariant_step hs)
    (invariant_start hstart)
  obtain ⟨states, hunique, hlatest, hredis⟩ := hinvariant.stored done hdone
  constructor
  · intro symbol hsymbol hasks
    rw [respond_of_asks hasks, hredis, ← funext hlatest]
    rw [snapshotRoute, if_neg hsymbol]
    exact read_state hunique hsymbol
  · intro hasks
    refine ⟨states, hlatest, ?_⟩
    rw [respond_of_asks hasks, hredis]
    exact read_states hunique

def lowerAscii (s : String) : String := String.ofList (s.toList.map Char.toLower)

/-- The text of a token that has nothing to be escaped. -/
def tokenText : Token ℚ → String
  | .openBrace => "\x7b"
  | .closeBrace => "\x7d"
  | .openBracket => "["
  | .closeBracket => "]"
  | .comma => ","
  | .colon => ":"
  | .null => "null"
  | .bool true => "true"
  | .bool false => "false"
  | .int i => toString i
  | .number x => toString x.num ++ ".0"
  | .str s => "\"" ++ s ++ "\""
  | .nan => "NaN"
  | .infinity => "Infinity"
  | .minusInfinity => "-Infinity"

/-- A server without files, for requests in ASCII and a query with one name. -/
def asciiWeb : HttpRuntime ℚ where
  decode := HttpMessages.decodeAscii
  upper := Serializers.viewerRuntime.upper
  lower := lowerAscii
  int := String.toInt?
  urlsplit target := some
    (String.ofList (target.toList.takeWhile (· ≠ '?')),
      String.ofList ((target.toList.dropWhile (· ≠ '?')).drop 1))
  parseQs query :=
    [(String.ofList (query.toList.takeWhile (· ≠ '=')),
      [String.ofList ((query.toList.dropWhile (· ≠ '=')).drop 1)])]
  resolve _ := none
  rootResolved := none
  readFile _ := .missing
  guessType _ := none
  encode tokens := tokens.flatMap fun token => HttpMessages.encodeAscii (tokenText token).toList
  guessType_plain := fun _ _ h => by cases h

def emptyService : ViewerService ℚ := ⟨emptyBroadcaster, .starting, none, [], none⟩

/-- The first snapshot is missing, a payload comes, and its state is stored. -/
def goldEvents : List (ServiceEvent ℚ) :=
  [.load (some none),
    .message (jsonDumps (.obj [("assets", .arr [.obj [("symbol", .str "XAUUSD")]])])),
    .save true]

def goldRequest : List UInt8 :=
  HttpMessages.encodeAscii "GET /smc-viewer/snapshot?symbol=xauusd HTTP/1.1\r\n\r\n".toList

theorem gold_state_is_served :
    ∃ t state, Run (step StrictMessages.exactSetup.publisher.toViewerRuntime) (fun _ _ => True)
        emptyService goldEvents t ∧
      HttpMessages.read (respond asciiWeb (some t.redis) none goldRequest).bytes =
        some (messageOf asciiWeb (.json 200 "OK" (some (.obj state))), []) := by
  obtain ⟨t, hrun, hserved⟩ := Run.exists_of_checked
    (step StrictMessages.exactSetup.publisher.toViewerRuntime) (fun _ _ => True) emptyService
    goldEvents
    (fun t => (t.saved.bind fun done => ["xauusd", "XAUUSD", "xauusd"].findSome? fun key =>
      latestFor key done).isSome) (by decide +kernel)
  obtain ⟨state, hstate⟩ := Option.isSome_iff_exists.mp hserved
  obtain ⟨done, hdone, hlatest⟩ := Option.bind_eq_some_iff.mp hstate
  have hasks : Asks asciiWeb goldRequest (some "xauusd") :=
    ⟨"GET", "/smc-viewer/snapshot?symbol=xauusd", "symbol=xauusd", by decide +kernel,
      by decide +kernel, by decide +kernel, by decide +kernel⟩
  have hread := (served_state_is_latest ⟨rfl, rfl, rfl, rfl⟩ hrun hdone none goldRequest).1
    "xauusd" (by decide) hasks
  have hnames : (["xauusd", asciiWeb.upper "xauusd", asciiWeb.lower "xauusd"] : List String) =
      ["xauusd", "XAUUSD", "xauusd"] := by decide +kernel
  rw [hnames, hlatest] at hread
  exact ⟨t, state, hrun, hread⟩

end ViewerService

end SmcPipeline
