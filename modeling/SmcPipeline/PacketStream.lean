import SmcPipeline.SignedPackets

/-!
# Streams of packets and status updates

A rejected packet leaves no trace: every check of `_process_payload` that can turn a
packet down stands before the first write to the store, to the live-bar caches and to
`last_bar_close_ms`. The status that the gate reads is written by status updates
only, so deleting rejected packets changes neither what later packets find nor which
of them are rejected.
-/

namespace SmcPipeline.PacketStream

open FxcmIngestor SignedPackets

variable {F σ τ : Type*}

/-- An item of the stream; `moment` is when a packet is written. -/
inductive StreamItem (F τ : Type*)
  | status (update : FeedStatus)
  | packet (moment : τ) (payload : List (String × Json F))

structure StreamState (F σ : Type*) where
  status : FeedStatus
  ingestor : IngestorState F σ

/-- `_coerce_str` -/
def coerceStr (value : Option String) : Option String :=
  (value.map strip).filter fun s => decide (s ≠ "")

/-- `_apply_status_snapshot`, for the three states the gate reads. -/
def applyStatusSnapshot (update status : FeedStatus) : FeedStatus where
  market := (coerceStr update.market).or status.market
  price := (coerceStr update.price).or status.price
  ohlcv := (coerceStr update.ohlcv).or status.ohlcv

variable (env : Runtime F) (sorter : OpenTimeSort F) (put : τ → Key → Frame F → σ → σ × Bool)
  (hmac : HmacSettings) (allowedPairs : Option (List Key))

def step (s : StreamState F σ) : StreamItem F τ → StreamState F σ
  | .status update => { s with status := applyStatusSnapshot update s.status }
  | .packet moment payload =>
    { s with
      ingestor := (processPayload env sorter (put moment) hmac allowedPairs ⟨s.status, payload⟩
        s.ingestor).2 }

def run (s : StreamState F σ) (items : List (StreamItem F τ)) : StreamState F σ :=
  items.foldl (step env sorter put hmac allowedPairs) s

/-- With a secret set, the signature is wrong, or missing while required. -/
def badlySigned (payload : List (String × Json F)) (base : Json F) : Bool :=
  match secretOf hmac, normalizeSignature env (payload.lookup "sig") with
  | none, _ => false
  | some _, none => hmac.required
  | some secret, some sig =>
    decide (verifyHmacSignature env base (some sig) (some secret)
      (normalizedSettings env hmac).algo ≠ some true)

/-- The packet has no symbol, timeframe or list of bars, is not of an allowed pair, meets
a closed gate, or is badly signed. -/
def rejects (status : FeedStatus) (payload : List (String × Json F)) : Bool :=
  match shape env payload with
  | none => true
  | some (symbol, interval, bars) =>
    decide ((allowedPairs.map fun pairs => pairs.contains (pairOf env symbol interval)) =
        some false) ||
      !(isIngestAllowedByStatus env status).1 ||
      badlySigned env hmac payload (basePayload symbol interval (.arr bars))

/-- The HMAC gate lets no badly signed packet through. -/
theorem gate_ne_pass_of_badlySigned {payload : List (String × Json F)} {symbol interval : Json F}
    {bars : List (Json F)}
    (h : badlySigned env hmac payload (basePayload symbol interval (.arr bars)) = true) :
    packetGate env hmac payload symbol interval bars ≠ .pass := by
  refine fun hpass => ?_
  apply packetGate_eq_pass env at hpass
  revert hpass
  have hsecret : (normalizedSettings env hmac).secret.filter (fun s => decide (s ≠ "")) =
      secretOf hmac := rfl
  unfold badlySigned at h
  unfold hmacGate
  rw [hsecret]
  cases hs : secretOf hmac with
  | none =>
      rw [hs] at h
      cases h
  | some secret =>
      cases hsig : normalizeSignature env (payload.lookup "sig") with
      | none =>
          rw [hs, hsig] at h
          have hreq : (normalizedSettings env hmac).required = true := h
          simp [hreq]
      | some sig =>
          rw [hs, hsig] at h
          have hne := of_decide_eq_true h
          cases hv : verifyHmacSignature env (basePayload symbol interval (.arr bars)) (some sig)
              (some secret) (normalizedSettings env hmac).algo with
          | none => simp [hv]
          | some verified =>
              cases verified with
              | false => simp [hv]
              | true => exact absurd hv hne

/-- A rejected packet leaves the ingestor and the store as they are. -/
theorem processPayload_of_rejects {status : FeedStatus} {payload : List (String × Json F)}
    (h : rejects env hmac allowedPairs status payload = true) (moment : τ)
    (st : IngestorState F σ) :
    (processPayload env sorter (put moment) hmac allowedPairs ⟨status, payload⟩ st).2 = st := by
  unfold rejects at h
  cases hshape : shape env payload with
  | none =>
      exact (processPayload_of_no_shape env sorter (put moment) hmac allowedPairs ⟨status, payload⟩
        hshape st).1
  | some parts =>
      unfold processPayload
      obtain ⟨symbol, interval, bars⟩ := parts
      rw [hshape] at h
      simp only [Bool.or_eq_true, decide_eq_true_eq] at h
      dsimp only
      rw [hshape]
      dsimp only
      cases hgate : packetGate env hmac payload symbol interval bars with
      | reject => rfl
      | raise => rfl
      | pass =>
          dsimp only
          rcases h with (hpair | hstatus) | hsigned
          · rw [if_pos hpair]
          · rw [if_pos hstatus]
            split_ifs <;> rfl
          · exact absurd hgate (gate_ne_pass_of_badlySigned env hmac hsigned)

theorem step_of_rejects {s : StreamState F σ} {payload : List (String × Json F)}
    (h : rejects env hmac allowedPairs s.status payload = true) (moment : τ) :
    step env sorter put hmac allowedPairs s (.packet moment payload) = s := by
  have hsame := processPayload_of_rejects env sorter put hmac allowedPairs h moment s.ingestor
  simp only [step, hsame]

/-- `kept` is the stream `items` less some packets that are rejected when they arrive. -/
inductive Deletes : StreamState F σ → List (StreamItem F τ) → List (StreamItem F τ) → Prop
  | nil (s : StreamState F σ) : Deletes s [] []
  | keep {s : StreamState F σ} (item : StreamItem F τ) {items kept : List (StreamItem F τ)} :
      Deletes (step env sorter put hmac allowedPairs s item) items kept →
      Deletes s (item :: items) (item :: kept)
  | drop {s : StreamState F σ} (moment : τ) (payload : List (String × Json F))
      {items kept : List (StreamItem F τ)} :
      rejects env hmac allowedPairs s.status payload = true →
      Deletes (step env sorter put hmac allowedPairs s (.packet moment payload)) items kept →
      Deletes s (.packet moment payload :: items) kept

/-- A stream and what is left of it end with the same store, caches and last close. -/
theorem rejected_packets_do_not_interfere {s : StreamState F σ}
    {items kept : List (StreamItem F τ)}
    (h : Deletes env sorter put hmac allowedPairs s items kept) :
    run env sorter put hmac allowedPairs s kept = run env sorter put hmac allowedPairs s items := by
  induction h with
  | nil s => rfl
  | keep item _ ih => exact ih
  | @drop s moment payload items kept hrejects _ ih =>
      calc run env sorter put hmac allowedPairs s kept
          = run env sorter put hmac allowedPairs
              (step env sorter put hmac allowedPairs s (.packet moment payload)) kept := by
            rw [step_of_rejects env sorter put hmac allowedPairs hrejects]
        _ = run env sorter put hmac allowedPairs s (.packet moment payload :: items) := ih

section FixedInputs

/-- A packet with one complete bar. -/
def barPacket (openTime price : ℤ) : List (String × Json ℤ) :=
  [("symbol", .str "xauusd"), ("tf", .str "1m"), ("bars", .arr [jsonBar true openTime price])]

/-- The store of a reader who only counts rows. -/
def countRows (_ : Unit) (_ : Key) (df : Frame ℤ) (rows : ℕ) : ℕ × Bool :=
  (rows + df.rows.length, true)

def freshStream : StreamState ℤ ℕ := ⟨⟨some "unknown", none, none⟩, emptyState 0⟩

theorem closed_packet_does_not_interfere :
    run plainRuntime stableSort countRows ⟨none, "sha256", false⟩ none freshStream
        [.packet () (barPacket 60000 1), .status ⟨some "closed", none, none⟩,
          .status ⟨some "open", some "ok", none⟩, .packet () (barPacket 180000 3)] =
      run plainRuntime stableSort countRows ⟨none, "sha256", false⟩ none freshStream
        [.packet () (barPacket 60000 1), .status ⟨some "closed", none, none⟩,
          .packet () (barPacket 120000 2), .status ⟨some "open", some "ok", none⟩,
          .packet () (barPacket 180000 3)] :=
  rejected_packets_do_not_interfere _ _ _ _ _
    (.keep _ (.keep _ (.drop _ _ (by decide +kernel) (.keep _ (.keep _ (.nil _))))))

end FixedInputs

end SmcPipeline.PacketStream
