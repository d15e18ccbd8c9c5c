import SmcPipeline.SignedPackets

/-!
# The body of the listen loop

One message of `run_fxcm_ingestor`: the bytes are decoded as UTF-8, parsed as JSON and
handed to `_process_payload`. Only `JSONDecodeError` and what `put_bars` raises are
caught for each message. The decoding, the other errors of the parser, the text of a value
nested too deep, the comparison of signatures and the cast of the times stand outside, and
what they raise ends the subscription. A message leaves the loop running exactly when it
takes none of these steps.
-/

namespace SmcPipeline.ListenLoop

open FxcmIngestor SignedPackets

/-- What `json_loads` does with a text. Besides `JSONDecodeError` the parser raises for
nesting too deep and for an integer of too many digits. -/
inductive Parsed (F : Type*)
  | decodeError
  | raised
  | value (v : Json F)

variable {F σ : Type*} (env : Runtime F) (jsonLoads : String → Parsed F)
  (sorter : OpenTimeSort F) (put : Key → Frame F → σ → σ × Bool) (hmac : HmacSettings)
  (allowedPairs : Option (List Key))

/-- From `raw_data` to the end of the round. -/
def listenMessage (status : FeedStatus) (body : ByteArray) (st : IngestorState F σ) :
    Outcome × IngestorState F σ :=
  if body.isEmpty then (rejected, st)
  else
    match String.fromUTF8? body with
    -- `UnicodeDecodeError` is no `JSONDecodeError`
    | none => (.raised, st)
    | some text =>
      match jsonLoads text with
      | .decodeError => (rejected, st)
      | .raised => (.raised, st)
      | .value (.obj payload) =>
        processPayload env sorter put hmac allowedPairs ⟨status, payload⟩ st
      | .value _ => (rejected, st)

/-- What `json_loads` does with the body, where it is called. -/
def parsedBody (body : ByteArray) : Option (Parsed F) :=
  if body.isEmpty then none else (String.fromUTF8? body).map jsonLoads

/-- The times of a row fit into `Int64`. -/
def InRange (row : Bar F) : Prop :=
  inInt64 row.openTime = true ∧ inInt64 row.closeTime = true

/-- The packet is let through to the loop over its bars. -/
def LetThrough (status : FeedStatus) (payload : List (String × Json F))
    (symbol interval : Json F) (bars : List (Json F)) : Prop :=
  packetGate env hmac payload symbol interval bars = .pass ∧
    (allowedPairs.map fun pairs => pairs.contains (pairOf env symbol interval)) ≠ some false ∧
    (isIngestAllowedByStatus env status).1 = true

/-- What a message must not be for the loop to go on. -/
structure Harmless (status : FeedStatus) (live : Key → LivePair F) (body : ByteArray) : Prop where
  decodes : body.isEmpty = true ∨ (String.fromUTF8? body).isSome = true
  parses : parsedBody jsonLoads body ≠ some .raised
  checks : ∀ payload, parsedBody jsonLoads body = some (.value (.obj payload)) →
    Checkable env hmac payload
  fits : ∀ payload symbol interval bars,
    parsedBody jsonLoads body = some (.value (.obj payload)) →
    shape env payload = some (symbol, interval, bars) →
    LetThrough env hmac allowedPairs status payload symbol interval bars →
    ∀ row ∈ ((acceptBars (live (pairOf env symbol interval))
      (bars.filterMap (incomingBar env))).2.map Prod.fst), InRange row

theorem ingestBars_eq_raised_iff {pair : Key} {bars : List (IncomingBar F)}
    {st : IngestorState F σ} :
    (ingestBars sorter put pair bars st).1 = .raised ↔
      ¬ ∀ row ∈ (acceptBars (st.live pair) bars).2.map Prod.fst, InRange row := by
  unfold ingestBars barsPayloadToDf InRange
  generalize hrows : (acceptBars (st.live pair) bars).2.map Prod.fst = rows
  cases rows with
  | nil => simp [rejected, hrows]
  | cons row rows =>
      by_cases hall : (∀ r ∈ row :: rows, inInt64 r.openTime = true ∧ inInt64 r.closeTime = true)
      · have hfits : ((row :: rows).all fun r => inInt64 r.openTime && inInt64 r.closeTime) = true := by
          simpa [List.all_eq_true] using hall
        simp only [hrows, List.isEmpty_cons, Bool.false_eq_true, if_false, if_pos hfits]
        generalize put pair ⟨false, sorter.sort (row :: rows)⟩ st.store = written
        obtain ⟨store, _ | _⟩ := written
        · exact iff_of_false (by simp [rejected]) (fun h => h hall)
        · exact iff_of_false (by simp) (fun h => h hall)
      · have hnot : ¬ ((row :: rows).all fun r => inInt64 r.openTime && inInt64 r.closeTime) = true := by
          simpa [List.all_eq_true] using hall
        simp only [hrows, List.isEmpty_cons, Bool.false_eq_true, if_false, if_neg hnot, true_iff]
        exact hall

/-- `_process_payload` raises where a check does or times do not fit. -/
theorem processPayload_eq_raised_iff {status : FeedStatus} {payload : List (String × Json F)}
    {st : IngestorState F σ} {symbol interval : Json F} {bars : List (Json F)}
    (hshape : shape env payload = some (symbol, interval, bars)) :
    (processPayload env sorter put hmac allowedPairs ⟨status, payload⟩ st).1 = .raised ↔
      ¬ Checkable env hmac payload ∨
        LetThrough env hmac allowedPairs status payload symbol interval bars ∧
          ¬ ∀ row ∈ ((acceptBars (st.live (pairOf env symbol interval))
            (bars.filterMap (incomingBar env))).2.map Prod.fst), InRange row := by
  rw [← packetGate_eq_raise_iff env hmac hshape]
  unfold processPayload LetThrough
  simp only [hshape]
  cases hgate : packetGate env hmac payload symbol interval bars with
  | reject => simp [rejected]
  | raise => simp
  | pass =>
      simp only [reduceCtorEq, false_or, true_and]
      by_cases hpair : (allowedPairs.map fun pairs =>
          pairs.contains (pairOf env symbol interval)) = some false
      · rw [if_pos hpair]
        exact iff_of_false (by simp [rejected]) (fun h => h.1.1 hpair)
      · rw [if_neg hpair]
        cases hstatus : (isIngestAllowedByStatus env status).1 with
        | false => simp [rejected]
        | true =>
            rw [Bool.not_true, if_neg Bool.false_ne_true, ingestBars_eq_raised_iff]
            exact ⟨fun h => ⟨⟨hpair, rfl⟩, h⟩, fun h => h.2⟩

theorem processPayload_eq_raised_of_no_shape {status : FeedStatus}
    {payload : List (String × Json F)} {st : IngestorState F σ} (hshape : shape env payload = none) :
    (processPayload env sorter put hmac allowedPairs ⟨status, payload⟩ st).1 = .raised ↔
      ¬ Checkable env hmac payload := by
  rw [checkable_iff_of_no_shape env hshape,
    (processPayload_of_no_shape env sorter put hmac allowedPairs ⟨status, payload⟩ hshape st).2]
  cases unprintable env (field payload "symbol") (field payload "tf") <;> simp [rejected]

/-- Messages that are no objects do nothing once they are parsed. -/
theorem harmless_of_no_object {status : FeedStatus} {live : Key → LivePair F} {body : ByteArray}
    (hdecodes : body.isEmpty = true ∨ (String.fromUTF8? body).isSome = true)
    (hparses : parsedBody jsonLoads body ≠ some .raised)
    (hobject : ∀ payload, parsedBody jsonLoads body ≠ some (.value (.obj payload))) :
    Harmless env jsonLoads hmac allowedPairs status live body :=
  ⟨hdecodes, hparses, fun payload h => absurd h (hobject payload),
    fun payload _ _ _ h => absurd h (hobject payload)⟩

/-- An object is handed to `_process_payload`. -/
theorem harmless_iff_of_object {status : FeedStatus} {body : ByteArray} {st : IngestorState F σ}
    {payload : List (String × Json F)} (hdecodes : (String.fromUTF8? body).isSome = true)
    (hobject : parsedBody jsonLoads body = some (.value (.obj payload))) :
    Harmless env jsonLoads hmac allowedPairs status st.live body ↔
      (processPayload env sorter put hmac allowedPairs ⟨status, payload⟩ st).1 ≠ .raised := by
  have hsame : ∀ payload', parsedBody jsonLoads body = some (.value (.obj payload')) →
      payload' = payload := by
    intro payload' h
    simpa using h.symm.trans hobject
  cases hshape : shape env payload with
  | none =>
      rw [Ne, processPayload_eq_raised_of_no_shape env sorter put hmac allowedPairs hshape, not_not]
      refine ⟨fun h => h.checks payload hobject, fun h => ⟨.inr hdecodes, by simp [hobject], ?_, ?_⟩⟩
      · intro payload' h'
        exact hsame payload' h' ▸ h
      · intro payload' symbol interval bars h' hshape'
        simp [hsame payload' h', hshape] at hshape'
  | some parts =>
      obtain ⟨symbol, interval, bars⟩ := parts
      rw [Ne, processPayload_eq_raised_iff env sorter put hmac allowedPairs hshape, not_or, not_and,
        not_not, not_not]
      constructor
      · intro h
        exact ⟨h.checks payload hobject, h.fits payload symbol interval bars hobject hshape⟩
      · rintro ⟨hchecks, hfits⟩
        refine ⟨.inr hdecodes, by simp [hobject], ?_, ?_⟩
        · intro payload' h'
          exact hsame payload' h' ▸ hchecks
        · intro payload' symbol' interval' bars' h hshape'
          obtain rfl := hsame payload' h
          obtain ⟨rfl, rfl, rfl⟩ : symbol = symbol' ∧ interval = interval' ∧ bars = bars' := by
            simpa [hshape] using hshape'
          exact hfits

/-- A message leaves the loop running exactly when it is harmless. -/
theorem loop_survives_iff_harmless (status : FeedStatus) (body : ByteArray)
    (st : IngestorState F σ) :
    (listenMessage env jsonLoads sorter put hmac allowedPairs status body st).1 ≠ .raised ↔
      Harmless env jsonLoads hmac allowedPairs status st.live body := by
  unfold listenMessage
  cases hempty : body.isEmpty with
  | true =>
      have hparsed : parsedBody jsonLoads body = none := by rw [parsedBody, if_pos hempty]
      exact iff_of_true (by simp [rejected]) (harmless_of_no_object env jsonLoads hmac allowedPairs
        (.inl hempty) (by simp [hparsed]) (by simp [hparsed]))
  | false =>
      have hparsed : parsedBody jsonLoads body = (String.fromUTF8? body).map jsonLoads := by
        rw [parsedBody, if_neg (by simp [hempty])]
      rw [if_neg Bool.false_ne_true]
      cases hutf : String.fromUTF8? body with
      | none =>
          refine iff_of_false (fun h => h rfl) fun h => ?_
          simpa [hempty, hutf] using h.decodes
      | some text =>
          have hdecodes : (String.fromUTF8? body).isSome = true := by simp [hutf]
          rw [hutf, Option.map_some] at hparsed
          dsimp only
          cases hjson : jsonLoads text with
          | decodeError =>
              exact iff_of_true (by simp [rejected]) (harmless_of_no_object env jsonLoads hmac
                allowedPairs (.inr hdecodes) (by simp [hparsed, hjson]) (by simp [hparsed, hjson]))
          | raised =>
              exact iff_of_false (fun h => h rfl) fun h => h.parses (by rw [hparsed, hjson])
          | value v =>
              rw [hjson] at hparsed
              cases v with
              | obj payload =>
                  exact (harmless_iff_of_object env jsonLoads sorter put hmac allowedPairs hdecodes
                    hparsed).symm
              | null | bool _ | int _ | float _ | str _ | arr _ =>
                  exact iff_of_true (by simp [rejected]) (harmless_of_no_object env jsonLoads hmac
                    allowedPairs (.inr hdecodes) (by simp [hparsed]) (by simp [hparsed]))

section FixedInputs

/-- A lone byte of UTF-16's byte order mark. -/
def strayByte : ByteArray := ⟨#[0xff]⟩

/-- It is not UTF-8, whatever the parser, the settings and the state. -/
theorem stray_byte_ends_subscription :
    ¬ ∀ (jsonLoads : String → Parsed ℤ) (status : FeedStatus) (body : ByteArray)
        (st : IngestorState ℤ ℕ),
      (listenMessage plainRuntime jsonLoads stableSort (fun _ _ store => (store, true))
        ⟨none, "sha256", false⟩ none status body st).1 ≠ .raised := by
  intro h
  refine h (fun _ => .decodeError) ⟨none, none, none⟩ strayByte (emptyState 0) ?_
  have hutf : String.fromUTF8? strayByte = none := by decide +kernel
  have hempty : strayByte.isEmpty = false := by decide +kernel
  simp [listenMessage, hutf, hempty]

end FixedInputs

end SmcPipeline.ListenLoop
