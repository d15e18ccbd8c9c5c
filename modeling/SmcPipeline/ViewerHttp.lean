import SmcPipeline.HttpMessages
import SmcPipeline.JsonReader

/-!
# The HTTP server of the viewer

`UI_v2/viewer_state_server.py` with the store of `UI_v2/viewer_state_store.py`. A request is taken
apart, a file of the page, a snapshot or some bars are looked up, and the answer is put together as
bytes. Whatever the request, the bytes are one message, which a client reads back; and a file that
is answered lies under the root of the page.
-/

namespace SmcPipeline

open JsonText

inductive FileRead
  | missing
  | failed
  | raised
  | bytes (data : List UInt8)
deriving DecidableEq

inductive Fetched (K : Type*)
  | notFound
  | failed
  | bars (bars : List (Json (PyFloat K)))

/-- What the server uses of the language, of the file system and of the JSON encoder. A type of
`mimetypes` is printable ASCII. -/
structure HttpRuntime (K : Type*) where
  /-- `decode("utf-8", errors="replace")` -/
  decode : List UInt8 → List Char
  upper : String → String
  lower : String → String
  int : String → Option ℤ
  /-- The path and the query of a target; `urlsplit` may raise. -/
  urlsplit : String → Option (String × String)
  parseQs : String → List (String × List String)
  /-- `(web_root / rel).resolve()`, which may raise. -/
  resolve : String → Option (List String)
  /-- `web_root.resolve()` -/
  rootResolved : Option (List String)
  readFile : List String → FileRead
  guessType : List String → Option String
  /-- The text of some tokens in UTF-8. -/
  encode : List (Token K) → List UInt8
  guessType_plain : ∀ path type, guessType path = some type →
    HttpMessages.Plain type.toList ∧ type.toList.head? ≠ some ' '

structure HttpReply where
  bytes : List UInt8
  status : ℕ
  path : String

namespace ViewerHttp

open FxcmIngestor HttpMessages JsonReader ViewerStateBuilder

variable {K : Type*} (env : HttpRuntime K)

def defaultOhlcvLimit : ℤ := 500

def maxOhlcvLimit : ℤ := 2000

def bodyBytes (body : Option (Json (PyFloat K))) : List UInt8 :=
  match body with
  | none => []
  | some j => env.encode (jsonDumps j)

/-- `"\r\n".join(headers).encode("ascii", errors="replace")` -/
def headBytes (headers : List String) : List UInt8 :=
  encodeAscii ("\r\n".intercalate headers).toList

/-- `_build_response` -/
def buildResponse (statusCode : ℕ) (reason : String) (body : Option (Json (PyFloat K))) :
    List UInt8 :=
  headBytes
    ["HTTP/1.1 " ++ toString statusCode ++ " " ++ reason,
      "Content-Type: application/json; charset=utf-8",
      "Content-Length: " ++ toString (bodyBytes env body).length,
      "Connection: close",
      "Access-Control-Allow-Origin: *",
      "Access-Control-Allow-Headers: Content-Type",
      "Access-Control-Allow-Methods: GET, OPTIONS",
      "",
      ""] ++ bodyBytes env body

/-- `_build_raw_response` -/
def buildRawResponse (statusCode : ℕ) (reason : String) (bodyBytes : List UInt8)
    (contentType : String) : List UInt8 :=
  headBytes
    ["HTTP/1.1 " ++ toString statusCode ++ " " ++ reason,
      "Content-Type: " ++ contentType,
      "Content-Length: " ++ toString bodyBytes.length,
      "Connection: close",
      "Access-Control-Allow-Origin: *",
      "Access-Control-Allow-Headers: Content-Type",
      "Access-Control-Allow-Methods: GET, OPTIONS",
      "Cache-Control: no-store",
      "",
      ""] ++ bodyBytes

/-- `_guess_content_type` -/
def guessContentType (path : List String) : String :=
  match env.guessType path with
  | none => "application/octet-stream"
  | some guessed =>
    if guessed = "" then "application/octet-stream"
    else if "text/".toList.isPrefixOf guessed.toList then guessed ++ "; charset=utf-8"
    else guessed

/-- An answer with a JSON body, and its status. -/
def jsonAnswer (statusCode : ℕ) (reason : String) (body : Option (Json (PyFloat K))) :
    List UInt8 × ℕ := (buildResponse env statusCode reason body, statusCode)

def errorBody (text : String) : Option (Json (PyFloat K)) := some (.obj [("error", .str text)])

/-- `get_all_states`; `read` is what Redis returned, if it did. -/
def getAllStates (read : Option (Option (List (Token K)))) : List (String × Json (PyFloat K)) :=
  match read with
  | some (some raw) =>
    match jsonLoads raw with
    | some (.obj data) => data
    | _ => []
  | _ => []

def getState (read : Option (Option (List (Token K)))) (symbol : String) :
    Option (List (String × Json (PyFloat K))) :=
  if symbol = "" then none
  else [symbol, env.upper symbol, env.lower symbol].findSome? fun key =>
    asDict (get (getAllStates read) key)

/-- `_handle_get_snapshot_for_symbol` -/
def handleGetSnapshotForSymbol (read : Option (Option (List (Token K)))) (symbol : String) :
    List UInt8 × ℕ :=
  match getState env read symbol with
  | none => jsonAnswer env 404 "Not Found"
      (some (.obj [("error", .str "symbol_not_found"), ("symbol", .str symbol)]))
  | some state => jsonAnswer env 200 "OK" (some (.obj state))

/-- `_handle_get_snapshot_all` -/
def handleGetSnapshotAll (read : Option (Option (List (Token K)))) : List UInt8 × ℕ :=
  jsonAnswer env 200 "OK" (some (.obj (getAllStates read)))

/-- The limit of a query, which may be no number. -/
def limitOf (query : List (String × String)) : Option ℤ :=
  let limitText := (query.lookup "limit").getD ""
  let limitRaw := strip (if limitText = "" then toString defaultOhlcvLimit else limitText)
  if limitRaw = "" then some defaultOhlcvLimit else env.int limitRaw

/-- `_handle_ohlcv` -/
def handleOhlcv (ohlcvProvider : Option (String → String → ℤ → Fetched K))
    (query : List (String × String)) : List UInt8 × ℕ :=
  match ohlcvProvider with
  | none => jsonAnswer env 501 "Not Implemented" (errorBody "ohlcv_not_enabled")
  | some fetchOhlcv =>
    let symbol := env.lower (strip ((query.lookup "symbol").getD ""))
    let timeframe := strip ((query.lookup "tf").getD "")
    if symbol = "" ∨ timeframe = "" then
      jsonAnswer env 400 "Bad Request" (errorBody "symbol_and_tf_required")
    else
      match limitOf env query with
      | none => jsonAnswer env 400 "Bad Request" (errorBody "invalid_limit")
      | some limit =>
        if ¬ (1 ≤ limit ∧ limit ≤ maxOhlcvLimit) then
          jsonAnswer env 400 "Bad Request" (errorBody "limit_out_of_range")
        else
          match fetchOhlcv symbol timeframe limit with
          | .notFound => jsonAnswer env 404 "Not Found" (errorBody "ohlcv_not_found")
          | .failed =>
            jsonAnswer env 500 "Internal Server Error" (errorBody "ohlcv_internal_error")
          | .bars bars => jsonAnswer env 200 "OK"
              (some (.obj [("symbol", .str symbol), ("timeframe", .str timeframe),
                ("limit", .int limit), ("bars", .arr bars)]))

/-- `".." in rel.replace("\\", "/").split("/")` -/
def hasParentStep (rel : String) : Bool :=
  ((rel.toList.map fun c => if c = '\\' then '/' else c).splitOn '/').contains ['.', '.']

/-- The file that a path asks for. -/
def relativePath (path : String) : String :=
  let rel := String.ofList (path.toList.dropWhile (· = '/'))
  if rel = "" then "index.html" else rel

/-- `_try_handle_static`: it may raise, or return nothing. -/
def tryHandleStatic (path : String) : Option (Option (List UInt8 × ℕ)) :=
  let rel := relativePath path
  let notFound := jsonAnswer env 404 "Not Found" (errorBody "not_found")
  if hasParentStep rel then some (some notFound)
  else
    match env.resolve rel with
    | none => none
    | some resolved =>
      match env.rootResolved with
      | none => some none
      | some rootResolved =>
        if ¬ rootResolved.isPrefixOf resolved then some (some notFound)
        else
          match env.readFile resolved with
          | .raised => none
          | .missing => some none
          | .failed => some (some
              (jsonAnswer env 500 "Internal Server Error" (errorBody "static_read_error")))
          | .bytes data => some (some
              (buildRawResponse 200 "OK" data (guessContentType env resolved), 200))

/-- The first line of a request. -/
def firstLine : List Char → List Char
  | '\r' :: '\n' :: _ => []
  | c :: text => c :: firstLine text
  | [] => []

/-- `method, target, _ = request_line.split(" ", 2)` -/
def splitRequestLine (line : List Char) : Option (String × String) :=
  match line.dropWhile (· ≠ ' ') with
  | [] => none
  | _ :: rest =>
    if ' ' ∈ rest then
      some (String.ofList (line.takeWhile (· ≠ ' ')), String.ofList (rest.takeWhile (· ≠ ' ')))
    else none

/-- `path.startswith(start)` -/
def startsWith (start path : String) : Bool := start.toList.isPrefixOf path.toList

/-- The routes below `/smc-viewer/`, and the answer where nothing else fits. -/
def route (read : Option (Option (List (Token K))))
    (ohlcvProvider : Option (String → String → ℤ → Fetched K)) (path : String)
    (query : List (String × String)) : List UInt8 × ℕ :=
  if path = "/smc-viewer/ohlcv" then handleOhlcv env ohlcvProvider query
  else if path = "/smc-viewer/snapshot" then
    match query.lookup "symbol" with
    | none => handleGetSnapshotAll env read
    | some symbol =>
      if symbol = "" then handleGetSnapshotAll env read
      else handleGetSnapshotForSymbol env read symbol
  else if startsWith "/smc-viewer/stream" path then
    jsonAnswer env 501 "Not Implemented" (errorBody "websocket_not_implemented")
  else jsonAnswer env 404 "Not Found" (errorBody "not_found")

/-- A GET request for a target. -/
def answerGet (read : Option (Option (List (Token K))))
    (ohlcvProvider : Option (String → String → ℤ → Fetched K)) (target : String) :
    Option HttpReply :=
  (env.urlsplit target).bind fun parsed =>
    let path := if parsed.1 = "" then "unknown" else parsed.1
    let flatQuery := (env.parseQs parsed.2).filterMap fun item =>
      item.2.head?.map fun value => (item.1, value)
    let routed := route env read ohlcvProvider path flatQuery
    if path = "/favicon.ico" then some ⟨buildResponse env 204 "No Content" none, 204, path⟩
    else if startsWith "/smc-viewer/" path then some ⟨routed.1, routed.2, path⟩
    else (tryHandleStatic env path).map fun static =>
      let out := static.getD routed
      ⟨out.1, out.2, path⟩

/-- `_process_http_request`, which may raise. -/
def processHttpRequest (read : Option (Option (List (Token K))))
    (ohlcvProvider : Option (String → String → ℤ → Fetched K)) (requestHead : List UInt8) :
    Option HttpReply :=
  match splitRequestLine (firstLine (env.decode requestHead)) with
  | none => some ⟨buildResponse env 400 "Bad Request" (errorBody "bad_request"), 400, "unknown"⟩
  | some (method, target) =>
    if env.upper method = "OPTIONS" then
      some ⟨buildResponse env 200 "OK" none, 200, "unknown"⟩
    else if env.upper method ≠ "GET" then
      some ⟨buildResponse env 405 "Method Not Allowed" (errorBody "method_not_allowed"), 405,
        "unknown"⟩
    else answerGet env read ohlcvProvider target

/-- The answer of `_handle_client` to a request that has been read. -/
def respond (read : Option (Option (List (Token K))))
    (ohlcvProvider : Option (String → String → ℤ → Fetched K)) (requestHead : List UInt8) :
    HttpReply :=
  (processHttpRequest env read ohlcvProvider requestHead).getD
    ⟨buildResponse env 500 "Internal Server Error" (errorBody "internal_error"), 500, "unknown"⟩

/-- What an answer is about. -/
inductive Answer (K : Type*)
  | json (status : ℕ) (reason : String) (body : Option (Json (PyFloat K)))
  | file (path : List String) (data : List UInt8)

def Answer.status : Answer K → ℕ
  | .json status _ _ => status
  | .file _ _ => 200

def corsHeaders : List (String × String) :=
  [("Connection", "close"), ("Access-Control-Allow-Origin", "*"),
    ("Access-Control-Allow-Headers", "Content-Type"),
    ("Access-Control-Allow-Methods", "GET, OPTIONS")]

/-- The message of an answer. -/
def messageOf : Answer K → Message
  | .json status reason body =>
    ⟨status, reason, ("Content-Type", "application/json; charset=utf-8") ::
      ("Content-Length", (bodyBytes env body).length.repr) :: corsHeaders, bodyBytes env body⟩
  | .file path data =>
    ⟨200, "OK", ("Content-Type", guessContentType env path) ::
      ("Content-Length", data.length.repr) :: (corsHeaders ++ [("Cache-Control", "no-store")]),
      data⟩

/-- The statuses that the server knows. -/
def statuses : List (ℕ × String) :=
  [(200, "OK"), (204, "No Content"), (400, "Bad Request"), (404, "Not Found"),
    (405, "Method Not Allowed"), (500, "Internal Server Error"), (501, "Not Implemented")]

/-- The path that a request asks for, if it is a GET of one. -/
def requestedPath (requestHead : List UInt8) : Option String :=
  ((splitRequestLine (firstLine (env.decode requestHead))).filter fun line =>
      env.upper line.1 = "GET").bind fun line =>
    (env.urlsplit line.2).map fun parsed => if parsed.1 = "" then "unknown" else parsed.1

/-- A file that is answered is the one that is asked for: no step of its path goes up, and it lies
under the root of the page. -/
def Allowed (asked : Option String) : Answer K → Prop
  | .json status reason _ => (status, reason) ∈ statuses
  | .file path data => ∃ requested ∈ asked, ∃ root, hasParentStep (relativePath requested) = false ∧
      env.resolve (relativePath requested) = some path ∧ env.rootResolved = some root ∧
      root <+: path ∧ env.readFile path = .bytes data

theorem headBytes_lines (lines : List String) :
    headBytes (lines ++ ["", ""]) =
      (lines.flatMap fun line => encodeAscii line.toList ++ crlf) ++ crlf := by
  unfold headBytes
  induction lines with
  | nil => rfl
  | cons line lines ih =>
      rw [List.cons_append, String.intercalate_cons_of_ne_nil (by simp), List.flatMap_cons,
        List.append_assoc, ← ih, String.toList_append, String.toList_append]
      unfold encodeAscii
      rw [List.map_append, List.map_append]
      rfl

theorem render_eq (m : Message) (lines : List String)
    (hlines : headLines m = lines.map String.toList) :
    render m = headBytes (lines ++ ["", ""]) ++ m.body := by
  rw [headBytes_lines, render, hlines, List.flatMap_map]

theorem buildResponse_eq (status : ℕ) (reason : String) (body : Option (Json (PyFloat K))) :
    buildResponse env status reason body = render (messageOf env (.json status reason body)) := by
  have hlines : headLines (messageOf env (.json status reason body)) =
      ["HTTP/1.1 " ++ toString status ++ " " ++ reason,
        "Content-Type: application/json; charset=utf-8",
        "Content-Length: " ++ toString (bodyBytes env body).length, "Connection: close",
        "Access-Control-Allow-Origin: *", "Access-Control-Allow-Headers: Content-Type",
        "Access-Control-Allow-Methods: GET, OPTIONS"].map String.toList := by
    simp only [headLines, statusLine_eq, messageOf, corsHeaders, List.map_cons, List.map_nil,
      fieldLine_eq, Nat.toString_eq_repr]
    rfl
  rw [render_eq _ _ hlines]
  rfl

theorem buildRawResponse_eq (path : List String) (data : List UInt8) :
    buildRawResponse 200 "OK" data (guessContentType env path) =
      render (messageOf env (.file path data)) := by
  have hlines : headLines (messageOf env (.file path data)) =
      ["HTTP/1.1 " ++ toString 200 ++ " " ++ "OK",
        "Content-Type: " ++ guessContentType env path,
        "Content-Length: " ++ toString data.length, "Connection: close",
        "Access-Control-Allow-Origin: *", "Access-Control-Allow-Headers: Content-Type",
        "Access-Control-Allow-Methods: GET, OPTIONS", "Cache-Control: no-store"].map
          String.toList := by
    simp only [headLines, statusLine_eq, messageOf, corsHeaders, List.cons_append, List.nil_append,
      List.map_cons, List.map_nil, fieldLine_eq, Nat.toString_eq_repr]
    rfl
  rw [render_eq _ _ hlines]
  rfl

theorem plain_guessContentType (path : List String) :
    Plain (guessContentType env path).toList ∧
      (guessContentType env path).toList.head? ≠ some ' ' := by
  unfold guessContentType
  cases hguess : env.guessType path with
  | none => decide
  | some guessed =>
      obtain ⟨hplain, hspace⟩ := env.guessType_plain path guessed hguess
      dsimp only
      split_ifs with hempty htext
      · decide
      · rw [String.toList_append]
        refine ⟨plain_append.mpr ⟨hplain, by decide⟩, ?_⟩
        cases hchars : guessed.toList with
        | nil => simp [hchars] at htext
        | cons c chars =>
            rw [hchars] at hspace
            exact hspace
      · exact ⟨hplain, hspace⟩

/-- A name as the server writes them. -/
def PlainName (name : String) : Prop := Plain name.toList ∧ ':' ∉ name.toList

instance (name : String) : Decidable (PlainName name) := instDecidableAnd

theorem plainField_of {name value : String} (hname : PlainName name)
    (hvalue : Plain value.toList ∧ value.toList.head? ≠ some ' ') : PlainField (name, value) :=
  ⟨hname.1, hvalue.1, hname.2, hvalue.2⟩

theorem plainField_cors : ∀ field ∈ corsHeaders, PlainField field := by
  have hplain : ∀ field ∈ corsHeaders, PlainName field.1 ∧
      Plain field.2.toList ∧ field.2.toList.head? ≠ some ' ' := by decide
  exact fun field hfield => plainField_of (hplain field hfield).1 (hplain field hfield).2

theorem plainField_length (n : ℕ) : PlainField ("Content-Length", n.repr) := by
  refine plainField_of (by decide) ?_
  rw [Nat.toList_repr]
  refine ⟨plain_digits n, fun hspace => ?_⟩
  have hdigit := Nat.isDigit_of_mem_toDigits (by decide) (by decide) (List.mem_of_head? hspace)
  cases hdigit

theorem sendable_messageOf {asked : Option String} {a : Answer K} (h : Allowed env asked a) :
    Sendable (messageOf env a) := by
  cases a with
  | json status reason body =>
      have hplain : ∀ known ∈ statuses, Plain known.2.toList := by decide
      refine ⟨hplain (status, reason) h, ?_, rfl⟩
      simp only [messageOf, List.forall_mem_cons]
      exact ⟨plainField_of (by decide) (by decide), plainField_length _, plainField_cors⟩
  | file path data =>
      have hreason : Plain "OK".toList := by decide
      refine ⟨hreason, ?_, rfl⟩
      simp only [messageOf, List.forall_mem_cons, List.forall_mem_append]
      exact ⟨plainField_of (by decide) (plain_guessContentType env path), plainField_length _,
        plainField_cors, plainField_of (by decide) (by decide), List.forall_mem_nil _⟩

theorem read_messageOf {asked : Option String} {a : Answer K} (h : Allowed env asked a) :
    HttpMessages.read (render (messageOf env a)) = some (messageOf env a, []) := by
  rw [← List.append_nil (render _), read_render (sendable_messageOf env h)]

/-- The bytes and the status are those of an answer that is allowed. -/
def IsAnswer (asked : Option String) (out : List UInt8 × ℕ) : Prop :=
  ∃ a : Answer K, Allowed env asked a ∧ out = (render (messageOf env a), a.status)

theorem isAnswer_json {asked : Option String} {status : ℕ} {reason : String}
    (h : (status, reason) ∈ statuses) (body : Option (Json (PyFloat K))) :
    IsAnswer env asked (jsonAnswer env status reason body) :=
  ⟨.json status reason body, h, Prod.ext (buildResponse_eq env status reason body) rfl⟩

theorem isAnswer_handleOhlcv {asked : Option String}
    (ohlcvProvider : Option (String → String → ℤ → Fetched K)) (query : List (String × String)) :
    IsAnswer env asked (handleOhlcv env ohlcvProvider query) := by
  have hknown : (200, "OK") ∈ statuses ∧ (400, "Bad Request") ∈ statuses ∧
      (404, "Not Found") ∈ statuses ∧ (500, "Internal Server Error") ∈ statuses ∧
      (501, "Not Implemented") ∈ statuses := by decide
  obtain ⟨hok, hbad, hmissing, herror, hnone⟩ := hknown
  unfold handleOhlcv
  split
  · exact isAnswer_json env hnone _
  · dsimp only
    split_ifs
    · exact isAnswer_json env hbad _
    · split
      · exact isAnswer_json env hbad _
      · split_ifs
        · split
          · exact isAnswer_json env hmissing _
          · exact isAnswer_json env herror _
          · exact isAnswer_json env hok _
        · exact isAnswer_json env hbad _

theorem isAnswer_route {asked : Option String} (read : Option (Option (List (Token K))))
    (ohlcvProvider : Option (String → String → ℤ → Fetched K)) (path : String)
    (query : List (String × String)) :
    IsAnswer env asked (route env read ohlcvProvider path query) := by
  have hknown : (200, "OK") ∈ statuses ∧ (404, "Not Found") ∈ statuses ∧
      (501, "Not Implemented") ∈ statuses := by decide
  obtain ⟨hok, hmissing, hnone⟩ := hknown
  unfold route
  split_ifs
  · exact isAnswer_handleOhlcv env _ _
  · split
    · exact isAnswer_json env hok _
    · split_ifs
      · exact isAnswer_json env hok _
      · unfold handleGetSnapshotForSymbol
        split
        · exact isAnswer_json env hmissing _
        · exact isAnswer_json env hok _
  · exact isAnswer_json env hnone _
  · exact isAnswer_json env hmissing _

theorem isAnswer_static {path : String} {out : List UInt8 × ℕ}
    (h : tryHandleStatic env path = some (some out)) : IsAnswer env (some path) out := by
  have hmissing : (404, "Not Found") ∈ statuses := by decide
  have herror : (500, "Internal Server Error") ∈ statuses := by decide
  unfold tryHandleStatic at h
  dsimp only at h
  by_cases hparent : hasParentStep (relativePath path) = true
  · rw [if_pos hparent, Option.some_inj, Option.some_inj] at h
    exact h ▸ isAnswer_json env hmissing _
  rw [if_neg hparent] at h
  cases hresolved : env.resolve (relativePath path) with
  | none => simp only [hresolved, reduceCtorEq] at h
  | some resolved =>
  cases hroot : env.rootResolved with
  | none => simp only [hresolved, hroot, Option.some_inj, reduceCtorEq] at h
  | some root =>
  simp only [hresolved, hroot] at h
  by_cases hbelow : root.isPrefixOf resolved = true
  · rw [if_neg (not_not_intro hbelow)] at h
    cases hfile : env.readFile resolved with
    | missing => simp only [hfile, Option.some_inj, reduceCtorEq] at h
    | raised => simp only [hfile, reduceCtorEq] at h
    | failed =>
        simp only [hfile, Option.some_inj] at h
        exact h ▸ isAnswer_json env herror _
    | bytes data =>
        simp only [hfile, Option.some_inj] at h
        refine ⟨.file resolved data, ⟨path, rfl, root, Bool.not_eq_true _ ▸ hparent, hresolved,
          hroot, List.isPrefixOf_iff_prefix.mp hbelow, hfile⟩, ?_⟩
        rw [← h, buildRawResponse_eq]
        rfl
  · rw [if_pos hbelow, Option.some_inj, Option.some_inj] at h
    exact h ▸ isAnswer_json env hmissing _

theorem isAnswer_answerGet {read : Option (Option (List (Token K)))}
    {ohlcvProvider : Option (String → String → ℤ → Fetched K)} {target : String}
    {reply : HttpReply} (h : answerGet env read ohlcvProvider target = some reply) :
    IsAnswer env ((env.urlsplit target).map fun parsed =>
      if parsed.1 = "" then "unknown" else parsed.1) (reply.bytes, reply.status) := by
  have hempty : (204, "No Content") ∈ statuses := by decide
  obtain ⟨parsed, hparsed, h⟩ := Option.bind_eq_some_iff.mp h
  rw [hparsed, Option.map_some]
  dsimp only at h
  generalize (if parsed.1 = "" then "unknown" else parsed.1) = path at h ⊢
  generalize hquery : (env.parseQs parsed.2).filterMap (fun item =>
    item.2.head?.map fun value => (item.1, value)) = query at h
  by_cases hicon : path = "/favicon.ico"
  · rw [if_pos hicon, Option.some_inj] at h
    exact h ▸ isAnswer_json env hempty none
  rw [if_neg hicon] at h
  by_cases hviewer : startsWith "/smc-viewer/" path = true
  · rw [if_pos hviewer, Option.some_inj] at h
    exact h ▸ isAnswer_route env read ohlcvProvider path query
  rw [if_neg hviewer] at h
  obtain ⟨static, hstatic, heq⟩ := Option.map_eq_some_iff.mp h
  rw [← heq]
  cases static with
  | none => exact isAnswer_route env read ohlcvProvider path query
  | some out => exact isAnswer_static env hstatic

theorem isAnswer_process {read : Option (Option (List (Token K)))}
    {ohlcvProvider : Option (String → String → ℤ → Fetched K)} {requestHead : List UInt8}
    {reply : HttpReply}
    (h : processHttpRequest env read ohlcvProvider requestHead = some reply) :
    IsAnswer env (requestedPath env requestHead) (reply.bytes, reply.status) := by
  have hknown : (200, "OK") ∈ statuses ∧ (400, "Bad Request") ∈ statuses ∧
      (405, "Method Not Allowed") ∈ statuses := by decide
  obtain ⟨hok, hbad, hmethod⟩ := hknown
  unfold processHttpRequest at h
  cases hline : splitRequestLine (firstLine (env.decode requestHead)) with
  | none =>
      simp only [hline, Option.some_inj] at h
      exact h ▸ isAnswer_json env hbad _
  | some line =>
      simp only [hline] at h
      by_cases hoptions : env.upper line.1 = "OPTIONS"
      · rw [if_pos hoptions, Option.some_inj] at h
        exact h ▸ isAnswer_json env hok none
      rw [if_neg hoptions] at h
      by_cases hget : env.upper line.1 = "GET"
      · rw [if_neg (not_not_intro hget)] at h
        have hasked : requestedPath env requestHead = (env.urlsplit line.2).map fun parsed =>
            if parsed.1 = "" then "unknown" else parsed.1 := by
          rw [requestedPath, hline, Option.filter_some, if_pos (decide_eq_true hget),
            Option.bind_some]
        rw [hasked]
        exact isAnswer_answerGet env h
      · rw [if_pos hget, Option.some_inj] at h
        exact h ▸ isAnswer_json env hmethod _

/-- Whatever the request and whatever is stored, the bytes that go back are one message, which a
client reads to its last byte with the status that is counted. It is about a value, about nothing,
or about the file that is asked for, which lies under the root of the page and to which no step of
the path goes up. -/
theorem reply_is_read_back (read : Option (Option (List (Token K))))
    (ohlcvProvider : Option (String → String → ℤ → Fetched K)) (requestHead : List UInt8) :
    ∃ a, Allowed env (requestedPath env requestHead) a ∧
      HttpMessages.read (respond env read ohlcvProvider requestHead).bytes =
        some (messageOf env a, []) ∧
      a.status = (respond env read ohlcvProvider requestHead).status := by
  have herror : (500, "Internal Server Error") ∈ statuses := by decide
  have hanswer : IsAnswer env (requestedPath env requestHead)
      ((respond env read ohlcvProvider requestHead).bytes,
      (respond env read ohlcvProvider requestHead).status) := by
    unfold respond
    cases h : processHttpRequest env read ohlcvProvider requestHead with
    | none => exact isAnswer_json env herror _
    | some reply => exact isAnswer_process env h
  obtain ⟨a, hallowed, heq⟩ := hanswer
  obtain ⟨hbytes, hstatus⟩ := Prod.mk.inj heq
  refine ⟨a, hallowed, ?_, hstatus.symm⟩
  rw [hbytes, read_messageOf env hallowed]

end ViewerHttp

end SmcPipeline
