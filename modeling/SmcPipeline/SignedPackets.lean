import SmcPipeline.FxcmIngestor

/-!
# Signed packets

With `hmac_required` set, an unsigned packet is refused by the branches under
`if hmac_secret:` only. Where the configured secret is missing or blank these are
skipped and every packet passes. With a secret a packet of which a check raises (a
signature outside ASCII, or a value nested too deep for its text) has no effect, but
the exception takes the place of the refusal. The gate holds exactly when there is a
secret and the checks of every unsigned packet come to an end.
-/

namespace SmcPipeline.SignedPackets

open FxcmIngestor

variable {F σ : Type*} (env : Runtime F) (sorter : OpenTimeSort F)
  (put : Key → Frame F → σ → σ × Bool)

/-- The secret after `run_fxcm_ingestor` has stripped it, unless it is blank. -/
def secretOf (hmac : HmacSettings) : Option String :=
  (hmac.secret.map strip).filter fun s => decide (s ≠ "")

/-- The packet carries the HMAC of its base payload under the configured secret. -/
def Signed (hmac : HmacSettings) (payload : List (String × Json F)) : Prop :=
  ∃ symbol interval bars sig secret serialized,
    shape env payload = some (symbol, interval, bars) ∧
      normalizeSignature env (payload.lookup "sig") = some sig ∧
      (normalizedSettings env hmac).secret = some secret ∧
      env.jsonDumps (basePayload symbol interval (.arr bars)) = .text serialized ∧
      env.hmacHexdigest (digestName env (normalizedSettings env hmac).algo) secret serialized =
        .hex sig

/-- The signature is compared, and it, its digest or the text of the base payload does not allow
it. -/
def IncomparableSignature (hmac : HmacSettings) (payload : List (String × Json F))
    (base : Json F) : Prop :=
  ∃ secret sig, secretOf hmac = some secret ∧
    normalizeSignature env (payload.lookup "sig") = some sig ∧
    match env.jsonDumps base with
    | .failed => False
    | .raised => True
    | .text serialized =>
      match env.hmacHexdigest (digestName env (normalizedSettings env hmac).algo) secret
          serialized with
      | .failed => False
      | .raised => True
      | .hex _ => isAscii sig = false

/-- No check of the packet raises: the values that are turned into text are not too deep, and a
signature that is compared allows it. -/
structure Checkable (hmac : HmacSettings) (payload : List (String × Json F)) : Prop where
  printable : unprintable env (field payload "symbol") (field payload "tf") = false
  signature : (shape env payload).isSome = true →
    ∀ sig, payload.lookup "sig" = some sig → env.tooDeep sig = false
  comparable : ∀ symbol interval bars, shape env payload = some (symbol, interval, bars) →
    ¬ IncomparableSignature env hmac payload (basePayload symbol interval (.arr bars))

/-- One packet of a stream with the states around it. -/
structure Handled (F σ : Type*) where
  before : IngestorState F σ
  packet : Packet F
  outcome : Outcome
  after : IngestorState F σ

/-- The packets of a stream, each processed in the state the one before it left. -/
def stream (hmac : HmacSettings) (allowedPairs : Option (List Key)) :
    IngestorState F σ → List (Packet F) → List (Handled F σ)
  | _, [] => []
  | st, packet :: packets =>
    let out := processPayload env sorter put hmac allowedPairs packet st
    ⟨st, packet, out.1, out.2⟩ :: stream hmac allowedPairs out.2 packets

/-- A packet that changes anything is signed, and an unsigned one is rejected. -/
structure Gated (hmac : HmacSettings) (h : Handled F σ) : Prop where
  signed : h.after ≠ h.before → Signed env hmac h.packet.payload
  refused : ¬ Signed env hmac h.packet.payload → h.outcome = rejected

/-- Every stream of packets of a class is gated, whatever the universe filter. -/
def Enforced (hmac : HmacSettings) (P : Packet F → Prop) : Prop :=
  ∀ (allowedPairs : Option (List Key)) (st : IngestorState F σ) (packets : List (Packet F)),
    (∀ packet ∈ packets, P packet) →
    ∀ h ∈ stream env sorter put hmac allowedPairs st packets, Gated env hmac h

theorem verified_of_eq_true {base : Json F} {sig secret algo : String}
    (h : verifyHmacSignature env base (some sig) (some secret) algo = some true) :
    ∃ serialized, env.jsonDumps base = .text serialized ∧
      env.hmacHexdigest (digestName env algo) secret serialized = .hex sig := by
  simp only [verifyHmacSignature] at h
  split at h
  · cases h
  · cases hj : env.jsonDumps base with
    | failed => simp [hj] at h
    | raised => simp [hj] at h
    | text serialized =>
        simp only [hj] at h
        cases hd : env.hmacHexdigest (digestName env algo) secret serialized with
        | failed => simp [hd] at h
        | raised => simp [hd] at h
        | hex digest =>
            simp only [hd] at h
            split_ifs at h
            obtain rfl : digest = sig := of_decide_eq_true (Option.some.inj h)
            exact ⟨serialized, rfl, hd⟩

/-- Past the gate with a secret and `hmac_required`, the signature has been verified. -/
theorem verified_of_pass {hmac : HmacSettings} {base : Json F} {sig : Option String}
    {secret : String} (hreq : hmac.required = true) (hsecret : hmac.secret = some secret)
    (hne : secret ≠ "") (h : hmacGate env hmac base sig = .pass) :
    ∃ s serialized, sig = some s ∧ env.jsonDumps base = .text serialized ∧
      env.hmacHexdigest (digestName env hmac.algo) secret serialized = .hex s := by
  unfold hmacGate at h
  rw [hsecret, Option.filter_some_pos (by simpa using hne)] at h
  cases sig with
  | none => simp [hreq] at h
  | some s =>
      dsimp only at h
      split at h
      · cases h
      · rename_i hv
        obtain ⟨serialized, hj, hd⟩ := verified_of_eq_true env hv
        exact ⟨s, serialized, rfl, hj, hd⟩
      · cases h

theorem hmacGate_eq_raise_iff {hmac : HmacSettings} {payload : List (String × Json F)}
    {base : Json F} :
    hmacGate env (normalizedSettings env hmac) base
        (normalizeSignature env (payload.lookup "sig")) = .raise ↔
      IncomparableSignature env hmac payload base := by
  have hsecret : (normalizedSettings env hmac).secret.filter (fun s => decide (s ≠ "")) =
      secretOf hmac := rfl
  unfold hmacGate IncomparableSignature
  rw [hsecret]
  cases hs : secretOf hmac with
  | none => simp
  | some secret =>
      cases hsig : normalizeSignature env (payload.lookup "sig") with
      | none => cases (normalizedSettings env hmac).required <;> simp
      | some sig =>
          have hne : sig ≠ "" :=
            of_decide_eq_true (Option.filter_eq_some_iff.mp hsig).2
          cases hj : env.jsonDumps base with
          | failed => simp [verifyHmacSignature, hne, hj]
          | raised => simp [verifyHmacSignature, hne, hj]
          | text serialized =>
              cases hd : env.hmacHexdigest (digestName env (normalizedSettings env hmac).algo)
                  secret serialized with
              | failed => simp [verifyHmacSignature, hne, hj, hd]
              | raised => simp [verifyHmacSignature, hne, hj, hd]
              | hex digest =>
                  cases hascii : isAscii sig with
                  | false => simp [verifyHmacSignature, hne, hj, hd, hascii]
                  | true =>
                      by_cases hequal : digest = sig
                      · simp [verifyHmacSignature, hne, hj, hd, hascii, hequal]
                      · simp [verifyHmacSignature, hne, hj, hd, hascii, hequal]

theorem packetGate_eq_pass {hmac : HmacSettings} {payload : List (String × Json F)}
    {symbol interval : Json F} {bars : List (Json F)}
    (h : packetGate env hmac payload symbol interval bars = .pass) :
    hmacGate env (normalizedSettings env hmac) (basePayload symbol interval (.arr bars))
      (normalizeSignature env (payload.lookup "sig")) = .pass := by
  unfold packetGate at h
  cases hgate : hmacGate env (normalizedSettings env hmac) (basePayload symbol interval (.arr bars))
      (normalizeSignature env (payload.lookup "sig")) with
  | pass => rfl
  | reject =>
      rw [hgate] at h
      dsimp only at h
      split_ifs at h
  | raise =>
      rw [hgate] at h
      dsimp only at h
      split_ifs at h

/-- The gate raises exactly if a check of the packet does. -/
theorem packetGate_eq_raise_iff (hmac : HmacSettings) {payload : List (String × Json F)}
    {symbol interval : Json F} {bars : List (Json F)}
    (hshape : shape env payload = some (symbol, interval, bars)) :
    packetGate env hmac payload symbol interval bars = .raise ↔ ¬ Checkable env hmac payload := by
  obtain ⟨hsymbol, hinterval⟩ := shape_eq_some env hshape
  have hiff : Checkable env hmac payload ↔ unprintable env symbol interval = false ∧
      (payload.lookup "sig").any env.tooDeep = false ∧
      hmacGate env (normalizedSettings env hmac) (basePayload symbol interval (.arr bars))
        (normalizeSignature env (payload.lookup "sig")) ≠ .raise := by
    rw [Ne, hmacGate_eq_raise_iff]
    constructor
    · intro h
      refine ⟨by rw [← hsymbol, ← hinterval]; exact h.printable, ?_, h.comparable _ _ _ hshape⟩
      cases hsig : payload.lookup "sig" with
      | none => rfl
      | some sig => exact h.signature (by rw [hshape]; rfl) sig hsig
    · rintro ⟨hprintable, hsig, hcompare⟩
      refine ⟨by rw [hsymbol, hinterval]; exact hprintable, fun _ sig h => ?_, ?_⟩
      · rw [h] at hsig
        exact hsig
      · intro symbol' interval' bars' h
        rw [hshape] at h
        cases h
        exact hcompare
  rw [hiff]
  unfold packetGate
  cases (payload.lookup "sig").any env.tooDeep with
  | true => simp
  | false =>
      rw [if_neg Bool.false_ne_true]
      cases hmacGate env (normalizedSettings env hmac) (basePayload symbol interval (.arr bars))
          (normalizeSignature env (payload.lookup "sig")) with
      | raise => simp
      | pass => cases unprintable env symbol interval <;> simp
      | reject => cases unprintable env symbol interval <;> simp

/-- A payload without its parts is refused unless the log line raises. -/
theorem checkable_iff_of_no_shape {hmac : HmacSettings} {payload : List (String × Json F)}
    (hshape : shape env payload = none) :
    Checkable env hmac payload ↔
      unprintable env (field payload "symbol") (field payload "tf") = false := by
  refine ⟨Checkable.printable, fun h => ⟨h, fun hsome => ?_, fun _ _ _ h => ?_⟩⟩
  · simp [hshape] at hsome
  · simp [hshape] at h

/-- An unsigned packet changes nothing, and it is refused unless a check of it raises. -/
theorem refused_of_unsigned {hmac : HmacSettings} {secret : String} (hreq : hmac.required = true)
    (hsecret : secretOf hmac = some secret) {allowedPairs : Option (List Key)}
    {packet : Packet F} {st : IngestorState F σ} (hunsigned : ¬ Signed env hmac packet.payload) :
    (processPayload env sorter put hmac allowedPairs packet st).2 = st ∧
      ((processPayload env sorter put hmac allowedPairs packet st).1 = rejected ↔
        Checkable env hmac packet.payload) := by
  obtain ⟨hnorm, hne⟩ := Option.filter_eq_some_iff.mp hsecret
  cases hshape : shape env packet.payload with
  | none =>
      obtain ⟨hstate, houtcome⟩ := processPayload_of_no_shape env sorter put hmac
        allowedPairs packet hshape st
      rw [checkable_iff_of_no_shape env hshape, houtcome]
      refine ⟨hstate, ?_⟩
      cases unprintable env (field packet.payload "symbol") (field packet.payload "tf") <;>
        simp [rejected]
  | some parts =>
      obtain ⟨symbol, interval, bars⟩ := parts
      unfold processPayload
      rw [hshape]
      dsimp only
      have hraise := packetGate_eq_raise_iff env hmac hshape
      cases hgate : packetGate env hmac packet.payload symbol interval bars with
      | reject =>
          rw [hgate] at hraise
          exact ⟨rfl, iff_of_true rfl (not_not.mp fun h => by cases hraise.mpr h)⟩
      | raise => exact ⟨rfl, iff_of_false (by simp [rejected]) (hraise.mp hgate)⟩
      | pass =>
          obtain ⟨sig, serialized, hsig, hj, hd⟩ := verified_of_pass env (by exact hreq) hnorm
            (of_decide_eq_true hne) (packetGate_eq_pass env hgate)
          exact absurd ⟨symbol, interval, bars, sig, secret, serialized, hshape, hsig, hnorm, hj, hd⟩
            hunsigned

/-- The packets of a stream are processed by `_process_payload`, each in some state. -/
theorem handled_of_mem {hmac : HmacSettings} {allowedPairs : Option (List Key)}
    {st : IngestorState F σ} {packets : List (Packet F)} {h : Handled F σ}
    (hmem : h ∈ stream env sorter put hmac allowedPairs st packets) :
    h.packet ∈ packets ∧
      (h.outcome, h.after) = processPayload env sorter put hmac allowedPairs h.packet h.before := by
  induction packets generalizing st with
  | nil => cases hmem
  | cons packet packets ih =>
      simp only [stream, List.mem_cons] at hmem
      rcases hmem with rfl | hmem
      · exact ⟨List.mem_cons_self, rfl⟩
      · exact (ih hmem).imp_left (List.mem_cons_of_mem _)

theorem enforced_of_secret {hmac : HmacSettings} {secret : String} (hreq : hmac.required = true)
    (hsecret : secretOf hmac = some secret) {P : Packet F → Prop}
    (hP : ∀ packet, P packet → ¬ Signed env hmac packet.payload →
      Checkable env hmac packet.payload) : Enforced env sorter put hmac P := by
  intro allowedPairs st packets hpackets h hmem
  obtain ⟨hpacket, hout⟩ := handled_of_mem env sorter put hmem
  obtain ⟨houtcome, hafter⟩ := Prod.mk.inj hout
  refine ⟨fun hne => ?_, fun hunsigned => ?_⟩
  · by_contra hunsigned
    rw [hafter] at hne
    exact hne (refused_of_unsigned env sorter put hreq hsecret hunsigned).1
  · rw [houtcome]
    exact (refused_of_unsigned env sorter put hreq hsecret hunsigned).2.mpr
      (hP _ (hpackets _ hpacket) hunsigned)

/-- A gated unsigned packet did not raise. -/
theorem checkable_of_enforced [Inhabited σ] {hmac : HmacSettings} {secret : String}
    (hreq : hmac.required = true) (hsecret : secretOf hmac = some secret)
    {P : Packet F → Prop} (h : Enforced env sorter put hmac P) {packet : Packet F}
    (hpacket : P packet) (hunsigned : ¬ Signed env hmac packet.payload) :
    Checkable env hmac packet.payload := by
  have hgated := h none ⟨default, fun _ => ⟨none, false, none⟩, none⟩ [packet]
    (by simpa using hpacket) _ List.mem_cons_self
  exact (refused_of_unsigned env sorter put hreq hsecret hunsigned).2.mp (hgated.refused hunsigned)

/-- Every packet passes the branches on the secret. -/
theorem gate_open_of_blank {hmac : HmacSettings} (hblank : secretOf hmac = none) (base : Json F)
    (sig : Option String) : hmacGate env (normalizedSettings env hmac) base sig = .pass := by
  unfold hmacGate
  have hnone : (normalizedSettings env hmac).secret.filter (fun s => decide (s ≠ "")) = none :=
    hblank
  rw [hnone]

/-- A one-minute bar at one price, as a connector sends it. -/
def jsonBar (complete : Bool) (openTime : ℤ) (x : F) : Json F :=
  .obj [("open_time", .int openTime), ("close_time", .int (openTime + 59999)),
    ("open", .float x), ("high", .float x), ("low", .float x), ("close", .float x),
    ("volume", .float x), ("complete", .bool complete)]

/-- An unsigned packet with one live bar. -/
def liveBarPacket (x : F) : Packet F where
  status := ⟨none, none, none⟩
  payload := [("symbol", .str "eurusd"), ("tf", .str "1m"), ("bars", .arr [jsonBar false 60000 x])]

def emptyState (store : σ) : IngestorState F σ := ⟨store, fun _ => ⟨none, false, none⟩, none⟩

theorem not_signed_liveBarPacket (hmac : HmacSettings) (x : F) :
    ¬ Signed env hmac (liveBarPacket x).payload := by
  rintro ⟨_, _, _, sig, _, _, _, hsig, -⟩
  cases hsig

/-- It enters the live cache when nothing is verified. -/
theorem liveBarPacket_changes {hmac : HmacSettings} (hblank : secretOf hmac = none) (x : F)
    (store : σ) :
    (processPayload env sorter put hmac none (liveBarPacket x) (emptyState store)).2 ≠
      emptyState store := by
  have hshape : shape env (liveBarPacket x).payload =
      some (.str "eurusd", .str "1m", [jsonBar false 60000 x]) := rfl
  have hallowed : (isIngestAllowedByStatus env (liveBarPacket x).status).1 = true := by
    have hstrip : strip "" = "" := by decide
    simp [isIngestAllowedByStatus, liveBarPacket, hstrip, env.lower_empty]
  have hbar : incomingBar env (jsonBar false 60000 x) =
      some ⟨⟨60000, x, x, x, x, x, 119999, none⟩, false, false⟩ := by
    simp [incomingBar, sanitizeBar, jsonBar, List.lookup_cons, env.int_int, env.float_float]
  intro heq
  have hcache := congrArg
    (fun st => (IngestorState.live st (pairOf env (.str "eurusd") (.str "1m"))).live) heq
  have hgate : packetGate env hmac (liveBarPacket x).payload (.str "eurusd") (.str "1m")
      [jsonBar false 60000 x] = .pass := by
    have hsig : (liveBarPacket x).payload.lookup "sig" = none := rfl
    simp [packetGate, hsig, gate_open_of_blank env hblank, unprintable, env.tooDeep_str]
  simp only [processPayload, hshape, hgate, hallowed, List.filterMap_cons,
    hbar, List.filterMap_nil] at hcache
  simp [ingestBars, acceptBars, acceptBar, closing, emptyState] at hcache

theorem not_enforced_of_blank [Inhabited σ] {hmac : HmacSettings} (hblank : secretOf hmac = none)
    {P : Packet F → Prop} {x : F} (hP : P (liveBarPacket x)) : ¬ Enforced env sorter put hmac P := by
  intro h
  have hgated := h none (emptyState default) [liveBarPacket x] (by simpa using hP) _
    List.mem_cons_self
  exact not_signed_liveBarPacket env hmac x
    (hgated.signed (liveBarPacket_changes env sorter put hblank x default))

/-- With `hmac_required` set, streams of packets among which an unsigned live bar may
come are gated exactly when the configured secret is more than white space and no
check of an unsigned packet raises. -/
theorem enforced_iff_secret [Inhabited σ] (secret : Option String) (algo : String)
    (P : Packet F → Prop) (x : F) (hP : P (liveBarPacket x)) :
    Enforced env sorter put ⟨secret, algo, true⟩ P ↔
      (∃ s, secret = some s ∧ strip s ≠ "") ∧
        ∀ packet, P packet → ¬ Signed env ⟨secret, algo, true⟩ packet.payload →
          Checkable env ⟨secret, algo, true⟩ packet.payload := by
  constructor
  · intro h
    cases hs : secretOf ⟨secret, algo, true⟩ with
    | none => exact absurd h (not_enforced_of_blank env sorter put hs hP)
    | some stripped =>
        refine ⟨?_, fun packet => checkable_of_enforced env sorter put rfl hs h⟩
        obtain ⟨hmap, hne⟩ := Option.filter_eq_some_iff.mp hs
        obtain ⟨s, rfl, rfl⟩ := Option.map_eq_some_iff.mp hmap
        exact ⟨s, rfl, of_decide_eq_true hne⟩
  · rintro ⟨⟨s, rfl, hne⟩, hcheck⟩
    have hsecret : secretOf ⟨some s, algo, true⟩ = some (strip s) :=
      Option.filter_eq_some_iff.mpr ⟨rfl, decide_eq_true hne⟩
    exact enforced_of_secret env sorter put rfl hsecret hcheck

section FixedInputs

/-- Text and numbers as they are, and a digest that does not matter. -/
def plainRuntime : Runtime ℤ where
  isZero x := decide (x = 0)
  tooDeep _ := false
  str v := match v with
    | .str s => s
    | _ => ""
  lower s := String.ofList (s.toList.map Char.toLower)
  int v := match v with
    | .int i => some i
    | _ => none
  float v := match v with
    | .float x => some x
    | _ => none
  jsonDumps _ := .failed
  hmacHexdigest _ _ _ := .failed
  tooDeep_str _ := rfl
  lower_empty := by decide
  int_int _ := rfl
  float_float _ := rfl

def stableSort : OpenTimeSort ℤ where
  sort := KeyedRows.sortBy Bar.openTime
  perm := KeyedRows.sortBy_perm Bar.openTime
  sorted := KeyedRows.sortBy_pairwise Bar.openTime

/-- With a secret, streams of that unsigned packet are refused. -/
theorem unsigned_packet_refused :
    Enforced plainRuntime stableSort (fun _ _ store => (store, true) : Key → Frame ℤ → ℕ → ℕ × Bool)
      ⟨some "key", "sha256", true⟩ fun packet => packet = liveBarPacket 1 := by
  refine (enforced_iff_secret plainRuntime stableSort _ (some "key") "sha256"
    (fun packet => packet = liveBarPacket 1) 1 rfl).mpr ⟨⟨"key", rfl, by decide⟩, ?_⟩
  rintro packet rfl -
  have hsig : (liveBarPacket (1 : ℤ)).payload.lookup "sig" = none := rfl
  refine ⟨rfl, fun _ sig h => ?_, fun symbol interval bars _ => ?_⟩
  · rw [hsig] at h
    cases h
  · rintro ⟨secret, sig, -, h, -⟩
    rw [hsig] at h
    cases h

/-- The default settings: HMAC required, no secret. -/
theorem unsigned_packet_accepted :
    ¬ ∀ (secret : Option String) (algo : String),
      Enforced plainRuntime stableSort (fun _ _ store => (store, true) : Key → Frame ℤ → ℕ → ℕ × Bool)
        ⟨secret, algo, true⟩ fun _ => True :=
  fun h => not_enforced_of_blank plainRuntime stableSort _ rfl (P := fun _ => True) (x := 1) trivial
    (h none "sha256")

end FixedInputs

end SmcPipeline.SignedPackets
