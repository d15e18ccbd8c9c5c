import SmcPipeline.Debounce
import SmcPipeline.FxcmGateway
import Mathlib.Tactic.Linarith

/-!
# The gateway over whole runs

Whatever the other clients do, a client is sent what was published on its channel since it
subscribed, in order and each message once, as far as it is for the client and passes the gate.
What is refused is reported, and the reports of a kind keep their distance.
-/

namespace SmcPipeline.FxcmGateway

open FxcmIngestor FxcmValidate PubSub Runs Debounce

variable {F D K : Type*} {env : GatewayRuntime F D} {cfg : GatewayConfig}

/-- What a message is to a client. -/
def answer (env : GatewayRuntime F D) (cfg : GatewayConfig) (selection : Selection) (data : D) :
    Option (Json F) :=
  (parseMessage env data).bind fun payload =>
    (outgoing env selection payload).bind fun message =>
      if shouldGate env cfg selection message then none else some (.obj message)

/-- The message is of the pair that the client asked for. -/
def Names (selection : Selection) (message : List (String × Json F)) : Prop :=
  match selection with
  | .ohlcv symbol tf =>
    message.lookup "symbol" = some (.str symbol) ∧ message.lookup "tf" = some (.str tf)
  | .ticks symbol => message.lookup "symbol" = some (.str symbol)
  | .status => True

theorem names_outgoing {selection : Selection} {payload message : List (String × Json F)}
    (h : outgoing env selection payload = some message) : Names selection message := by
  cases selection with
  | ohlcv symbol tf =>
      simp only [outgoing] at h
      split_ifs at h with hother
      rw [not_or, not_not, not_not] at hother
      cases h
      rw [hother.1, hother.2]
      exact ⟨rfl, rfl⟩
  | ticks symbol =>
      simp only [outgoing] at h
      split_ifs at h with hother
      rw [not_not] at hother
      cases h
      rw [hother]
      rfl
  | status => trivial

theorem answer_eq_some {selection : Selection} {data : D} {m : Json F}
    (h : answer env cfg selection data = some m) :
    ∃ message, m = .obj message ∧ Names selection message ∧
      (cfg.strictEnabled = true → isValid env selection message = true) := by
  obtain ⟨payload, -, h⟩ := Option.bind_eq_some_iff.mp h
  obtain ⟨message, hout, h⟩ := Option.bind_eq_some_iff.mp h
  split_ifs at h with hgate
  cases h
  refine ⟨message, rfl, names_outgoing hout, fun hstrict => ?_⟩
  simpa [shouldGate, hstrict] using hgate

section

variable [Field K] [LinearOrder K]

@[simp] theorem clients_softValidate (selection : Selection) (payload : List (String × Json F))
    (s : Gateway F D K) : (softValidate env selection payload s).clients = s.clients := by
  unfold softValidate
  dsimp only
  split_ifs
  · rfl
  · split
    · split_ifs <;> rfl
    · rfl

@[simp] theorem broker_softValidate (selection : Selection) (payload : List (String × Json F))
    (s : Gateway F D K) : (softValidate env selection payload s).broker = s.broker := by
  unfold softValidate
  dsimp only
  split_ifs
  · rfl
  · split
    · split_ifs <;> rfl
    · rfl

variable (env cfg) in
/-- What a handler does with a message: nothing, or it sends it, or it ends. -/
theorem forward_cases (id : ℕ) (accepted : Bool) (client : GatewayClient F) (data : D)
    (s : Gateway F D K) :
    (answer env cfg client.selection data = none ∧
      (forward env cfg id accepted client data s).clients = s.clients ∧
      (forward env cfg id accepted client data s).broker = s.broker) ∨
    (∃ m, answer env cfg client.selection data = some m ∧
      (forward env cfg id accepted client data s).clients =
        Function.update s.clients id (some { client with sent := client.sent ++ [m] }) ∧
      (forward env cfg id accepted client data s).broker = s.broker) ∨
    ((forward env cfg id accepted client data s).clients =
        Function.update s.clients id (some { client with stage := .closed }) ∧
      (forward env cfg id accepted client data s).broker = s.broker.unsubscribe id) := by
  unfold forward answer
  cases parseMessage env data with
  | none => exact Or.inl ⟨rfl, rfl, rfl⟩
  | some payload =>
      dsimp only [Option.bind_some]
      cases outgoing env client.selection payload with
      | none => exact Or.inl ⟨rfl, rfl, rfl⟩
      | some message =>
          dsimp only [Option.bind_some]
          split_ifs with hgate
          · exact Or.inl ⟨rfl, clients_softValidate .., broker_softValidate ..⟩
          · refine Or.inr (Or.inl ⟨.obj message, rfl, ?_, broker_softValidate ..⟩)
            unfold setClient
            rw [clients_softValidate]
          · refine Or.inr (Or.inr ?_)
            unfold endClient setClient
            rw [clients_softValidate, broker_softValidate]
            exact ⟨rfl, rfl⟩

/-- The client next to its subscription. -/
def ClientSound (env : GatewayRuntime F D) (cfg : GatewayConfig) (b : Broker ℕ String D) (id : ℕ)
    (client : GatewayClient F) : Prop :=
  match client.stage with
  | .connected => client.sent = [] ∧ b.subscriptions id = none
  | .streaming => ∃ sub, b.subscriptions id = some sub ∧
      sub.channel = channelOf cfg client.selection ∧
      client.sent = sub.read.filterMap (answer env cfg client.selection)
  | .closed => b.subscriptions id = none ∧ ∃ read,
      read <:+: b.log (channelOf cfg client.selection) ∧
      client.sent = read.filterMap (answer env cfg client.selection)

structure Sound (env : GatewayRuntime F D) (cfg : GatewayConfig) (s : Gateway F D K) : Prop where
  delivers : s.broker.Delivers
  absent : ∀ id, s.clients id = none → s.broker.subscriptions id = none
  client : ∀ id client, s.clients id = some client → ClientSound env cfg s.broker id client

theorem clientSound_frame {b b' : Broker ℕ String D} {id : ℕ} {client : GatewayClient F}
    (h : ClientSound env cfg b id client) (hlog : b'.log = b.log)
    (hsub : b'.subscriptions id = b.subscriptions id) : ClientSound env cfg b' id client := by
  unfold ClientSound at h ⊢
  rw [hlog, hsub]
  exact h

omit [Field K] [LinearOrder K] in
/-- An action that touches one client leaves the others as they were. -/
theorem sound_update {s t : Gateway F D K} {id : ℕ} {client : GatewayClient F}
    (hs : Sound env cfg s) (hclients : t.clients = Function.update s.clients id (some client))
    (hlog : t.broker.log = s.broker.log)
    (hother : ∀ j, j ≠ id → t.broker.subscriptions j = s.broker.subscriptions j)
    (hdelivers : t.broker.Delivers) (hclient : ClientSound env cfg t.broker id client) :
    Sound env cfg t := by
  refine ⟨hdelivers, fun j hj => ?_, fun j c hj => ?_⟩
  · rw [hclients] at hj
    by_cases hid : j = id
    · rw [hid, Function.update_self] at hj
      cases hj
    · rw [Function.update_of_ne hid] at hj
      rw [hother j hid]
      exact hs.absent j hj
  · rw [hclients] at hj
    by_cases hid : j = id
    · subst hid
      rw [Function.update_self] at hj
      cases hj
      exact hclient
    · rw [Function.update_of_ne hid] at hj
      exact clientSound_frame (hs.client j c hj) hlog (hother j hid)

/-- A client that ends has been sent a part of what was published. -/
theorem clientSound_ended {b : Broker ℕ String D} (hb : b.Delivers) {id : ℕ}
    {client : GatewayClient F} (h : ClientSound env cfg b id client) :
    ClientSound env cfg (b.unsubscribe id) id { client with stage := .closed } := by
  refine ⟨Function.update_self .., ?_⟩
  unfold ClientSound at h
  cases hstage : client.stage with
  | connected =>
      rw [hstage] at h
      exact ⟨[], List.nil_infix, h.1⟩
  | streaming =>
      rw [hstage] at h
      obtain ⟨sub, hsub, hchannel, hsent⟩ := h
      exact ⟨sub.read, hchannel ▸ (hb id sub hsub).read_stretch, hsent⟩
  | closed =>
      rw [hstage] at h
      exact h.2

omit [Field K] [LinearOrder K] in
theorem sound_endClient {s : Gateway F D K} (hs : Sound env cfg s) {id : ℕ}
    {client : GatewayClient F} (hclient : s.clients id = some client) :
    Sound env cfg (endClient id client s) :=
  sound_update hs rfl rfl (fun _ hj => Function.update_of_ne hj ..)
    (Broker.delivers_unsubscribe id hs.delivers)
    (clientSound_ended hs.delivers (hs.client id client hclient))

omit [Field K] [LinearOrder K] in
theorem sound_publish {s : Gateway F D K} (hs : Sound env cfg s) (channel : String) (data : D) :
    Sound env cfg { s with broker := s.broker.publish channel data } := by
  refine ⟨Broker.delivers_publish channel data hs.delivers, fun id hid => ?_, fun id c hc => ?_⟩
  · have hnone := hs.absent id hid
    simp only [Broker.publish, hnone, Option.map_none]
  · have hold := hs.client id c hc
    unfold ClientSound at hold ⊢
    cases hstage : c.stage with
    | connected =>
        rw [hstage] at hold
        refine ⟨hold.1, ?_⟩
        simp only [Broker.publish, hold.2, Option.map_none]
    | streaming =>
        rw [hstage] at hold
        obtain ⟨sub, hsub, hchannel, hsent⟩ := hold
        refine ⟨Broker.deliver channel data sub, ?_, ?_, ?_⟩
        · simp only [Broker.publish, hsub, Option.map_some]
        · unfold Broker.deliver
          split_ifs <;> exact hchannel
        · unfold Broker.deliver
          split_ifs <;> exact hsent
    | closed =>
        rw [hstage] at hold
        obtain ⟨hnone, read, hread, hsent⟩ := hold
        refine ⟨?_, read, hread.trans (Broker.log_publish s.broker channel data _).isInfix, hsent⟩
        simp only [Broker.publish, hnone, Option.map_none]

theorem sound_forward {s : Gateway F D K} {b : Broker ℕ String D} (hs : Sound env cfg s) {id : ℕ}
    {client : GatewayClient F} (hclient : s.clients id = some client)
    (hstage : client.stage = .streaming) {data : D} (htake : s.broker.take id = some (data, b))
    (accepted : Bool) :
    Sound env cfg (forward env cfg id accepted client data { s with broker := b }) := by
  have hdelivers := Broker.delivers_take hs.delivers htake
  have hcases := forward_cases env cfg id accepted client data { s with broker := b }
  obtain ⟨sub, inbox, hsub, -, rfl⟩ := Broker.take_eq_some htake
  have hold := hs.client id client hclient
  unfold ClientSound at hold
  rw [hstage] at hold
  obtain ⟨sub', hsub', hchannel, hsent⟩ := hold
  obtain rfl : sub' = sub := Option.some.inj (hsub'.symm.trans hsub)
  have hread : (sub'.read ++ [data]).filterMap (answer env cfg client.selection) =
      client.sent ++ (answer env cfg client.selection data).toList := by
    rw [List.filterMap_append, hsent]
    cases hanswer : answer env cfg client.selection data <;> simp [hanswer]
  rcases hcases with
    ⟨hnone, hclients, hbroker⟩ | ⟨m, hm, hclients, hbroker⟩ | ⟨hclients, hbroker⟩
  · -- the message is for others, or stopped at the gate
    have hsame := hclients.trans (Function.update_eq_self_iff.mpr hclient.symm).symm
    refine sound_update hs hsame ?_ ?_ ?_ ?_
    · rw [hbroker]
    · intro j hj
      rw [hbroker]
      exact Function.update_of_ne hj ..
    · rw [hbroker]
      exact hdelivers
    · rw [hbroker]
      unfold ClientSound
      rw [hstage]
      refine ⟨_, Function.update_self .., hchannel, ?_⟩
      rw [hread, hnone, Option.toList_none, List.append_nil]
  · refine sound_update hs hclients ?_ ?_ ?_ ?_
    · rw [hbroker]
    · intro j hj
      rw [hbroker]
      exact Function.update_of_ne hj ..
    · rw [hbroker]
      exact hdelivers
    · rw [hbroker]
      unfold ClientSound
      dsimp only
      rw [hstage]
      refine ⟨_, Function.update_self .., hchannel, ?_⟩
      rw [hread, hm, Option.toList_some]
  · -- the connection is lost: what was read before counts
    refine sound_update hs hclients ?_ ?_ ?_ ?_
    · rw [hbroker]
      rfl
    · intro j hj
      rw [hbroker]
      unfold Broker.unsubscribe
      dsimp only
      rw [Function.update_of_ne hj, Function.update_of_ne hj]
    · rw [hbroker]
      exact Broker.delivers_unsubscribe id hdelivers
    · rw [hbroker]
      refine ⟨Function.update_self .., sub'.read, ?_, hsent⟩
      exact hchannel ▸ (hs.delivers id sub' hsub).read_stretch

theorem sound_step {s t : Gateway F D K} {a : GatewayAction D K} (hs : Sound env cfg s)
    (h : step env cfg s a = some t) : Sound env cfg t := by
  cases a with
  | connect id path =>
      simp only [step] at h
      cases hclient : s.clients id with
      | some client =>
          rw [hclient] at h
          cases h
      | none =>
          rw [hclient] at h
          cases hselection : selectionOf env path with
          | none =>
              rw [hselection] at h
              cases h
              exact hs
          | some selection =>
              rw [hselection] at h
              cases h
              exact sound_update hs rfl rfl (fun _ _ => rfl) hs.delivers
                ⟨rfl, hs.absent id hclient⟩
  | subscribe id =>
      simp only [step] at h
      cases hclient : s.clients id with
      | none =>
          rw [hclient] at h
          cases h
      | some client =>
          rw [hclient] at h
          dsimp only at h
          split_ifs at h with hstage
          cases h
          have hold := hs.client id client hclient
          unfold ClientSound at hold
          rw [hstage] at hold
          refine sound_update hs rfl rfl (fun _ hj => Function.update_of_ne hj ..)
            (Broker.delivers_subscribe id _ hs.delivers) ?_
          exact ⟨_, Function.update_self .., rfl, hold.1⟩
  | publish channel data =>
      cases h
      exact sound_publish hs channel data
  | handle id accepted =>
      simp only [step] at h
      cases hclient : s.clients id with
      | none =>
          rw [hclient] at h
          cases h
      | some client =>
          rw [hclient] at h
          dsimp only at h
          split_ifs at h with hstage
          obtain ⟨⟨data, b⟩, htake, rfl⟩ := Option.map_eq_some_iff.mp h
          exact sound_forward hs hclient hstage htake _
  | close id =>
      obtain ⟨client, hclient, rfl⟩ := Option.map_eq_some_iff.mp h
      exact sound_update hs rfl rfl (fun _ _ => rfl) hs.delivers (hs.client id client hclient)
  | leave id =>
      simp only [step] at h
      cases hclient : s.clients id with
      | none =>
          rw [hclient] at h
          cases h
      | some client =>
          rw [hclient] at h
          dsimp only at h
          split_ifs at h
          cases h
          exact sound_endClient hs hclient
  | fail id =>
      obtain ⟨client, hclient, rfl⟩ := Option.map_eq_some_iff.mp h
      exact sound_endClient hs hclient
  | clock now =>
      simp only [step] at h
      split_ifs at h
      cases h
      exact ⟨hs.delivers, hs.absent, hs.client⟩

omit [Field K] [LinearOrder K] in
theorem sound_start (now : K) : Sound env cfg (start now : Gateway F D K) :=
  ⟨Broker.delivers_start, fun _ _ => rfl, fun id client h => by cases h⟩

/-- Whatever the other clients and the channels do, a client has been sent what it was to be sent of
a stretch of its channel, in order and each message once; while it streams, of the stretch that
begins with its subscription, and the rest of what was published since then is in its inbox. A
message is of the pair that the client asked for, and valid in strict mode. -/
theorem clients_get_their_messages {now : K} {s : Gateway F D K}
    {actions : List (GatewayAction D K)}
    (h : Run (step env cfg) (fun _ _ => True) (start now) actions s) {id : ℕ}
    {client : GatewayClient F} (hclient : s.clients id = some client) :
    (∃ read, read <:+: s.broker.log (channelOf cfg client.selection) ∧
      client.sent = read.filterMap (answer env cfg client.selection)) ∧
    (client.stage = .streaming → ∃ sub, s.broker.subscriptions id = some sub ∧
      (s.broker.log (channelOf cfg client.selection)).drop sub.since = sub.read ++ sub.inbox ∧
      client.sent = sub.read.filterMap (answer env cfg client.selection)) ∧
    ∀ m ∈ client.sent, ∃ message, m = .obj message ∧ Names client.selection message ∧
      (cfg.strictEnabled = true → isValid env client.selection message = true) := by
  have hsound : Sound env cfg s :=
    Run.invariant (fun _ _ _ hs _ hst => sound_step hs hst) h (sound_start now)
  have hsent := hsound.client id client hclient
  have hstream : client.stage = .streaming → ∃ sub, s.broker.subscriptions id = some sub ∧
      (s.broker.log (channelOf cfg client.selection)).drop sub.since = sub.read ++ sub.inbox ∧
      client.sent = sub.read.filterMap (answer env cfg client.selection) := by
    intro hstage
    unfold ClientSound at hsent
    rw [hstage] at hsent
    obtain ⟨sub, hsub, hchannel, hsent⟩ := hsent
    exact ⟨sub, hsub, hchannel ▸ (hsound.delivers id sub hsub).2, hsent⟩
  have hread : ∃ read, read <:+: s.broker.log (channelOf cfg client.selection) ∧
      client.sent = read.filterMap (answer env cfg client.selection) := by
    have hended := clientSound_ended hsound.delivers hsent
    exact hended.2
  refine ⟨hread, hstream, fun m hm => ?_⟩
  obtain ⟨read, -, hsent⟩ := hread
  rw [hsent] at hm
  obtain ⟨data, -, hanswer⟩ := List.mem_filterMap.mp hm
  exact answer_eq_some hanswer

variable [IsStrictOrderedRing K]

/-- The reports so far. -/
def Reported (s : Gateway F D K) : Prop :=
  Debounced ((10 : ℕ) : K) s.now s.softValidateLastLogTs s.refused s.reports

variable (env) in
theorem reported_softValidate (selection : Selection) (payload : List (String × Json F))
    {s : Gateway F D K} (hs : Reported s) : Reported (softValidate env selection payload s) := by
  have hten : (0 : K) < (10 : ℕ) := Nat.cast_pos.mpr (Nat.succ_pos 9)
  unfold softValidate
  dsimp only
  split_ifs
  · exact hs
  · cases hlast : s.softValidateLastLogTs (kindOf selection) with
    | none =>
        refine hs.report hten (kindOf selection) fun t ht => ?_
        rw [hlast] at ht
        cases ht
    | some last =>
        dsimp only
        split_ifs with hsoon
        · exact hs.silent hlast hsoon
        · refine hs.report hten (kindOf selection) fun t ht => ?_
          obtain rfl : last = t := Option.some.inj (hlast.symm.trans ht)
          have hgap := not_lt.mp hsoon
          linarith

theorem reported_forward (id : ℕ) (accepted : Bool) (client : GatewayClient F) (data : D)
    {s : Gateway F D K} (hs : Reported s) :
    Reported (forward env cfg id accepted client data s) := by
  unfold forward
  cases parseMessage env data with
  | none => exact hs
  | some payload =>
      dsimp only
      cases outgoing env client.selection payload with
      | none => exact hs
      | some message =>
          have hvalidated := reported_softValidate env client.selection payload hs
          dsimp only
          split_ifs
          · exact hvalidated
          · exact hvalidated
          · exact hvalidated

theorem reported_step {s t : Gateway F D K} {a : GatewayAction D K} (hs : Reported s)
    (h : step env cfg s a = some t) : Reported t := by
  cases a with
  | connect id path =>
      simp only [step] at h
      cases hclient : s.clients id <;> cases hselection : selectionOf env path <;>
        rw [hclient, hselection] at h <;> cases h <;> exact hs
  | subscribe id =>
      simp only [step] at h
      cases hclient : s.clients id with
      | none =>
          rw [hclient] at h
          cases h
      | some client =>
          rw [hclient] at h
          dsimp only at h
          split_ifs at h
          cases h
          exact hs
  | publish channel data =>
      cases h
      exact hs
  | handle id accepted =>
      simp only [step] at h
      cases hclient : s.clients id with
      | none =>
          rw [hclient] at h
          cases h
      | some client =>
          rw [hclient] at h
          dsimp only at h
          split_ifs at h
          obtain ⟨⟨data, b⟩, -, rfl⟩ := Option.map_eq_some_iff.mp h
          exact reported_forward id _ client data hs
  | close id =>
      obtain ⟨client, -, rfl⟩ := Option.map_eq_some_iff.mp h
      exact hs
  | leave id =>
      simp only [step] at h
      cases hclient : s.clients id with
      | none =>
          rw [hclient] at h
          cases h
      | some client =>
          rw [hclient] at h
          dsimp only at h
          split_ifs at h
          cases h
          exact hs
  | fail id =>
      obtain ⟨client, -, rfl⟩ := Option.map_eq_some_iff.mp h
      exact hs
  | clock now =>
      simp only [step] at h
      split_ifs at h with hle
      cases h
      exact hs.later hle

/-- Over all clients, two reports of one kind are ten seconds apart at least, and every message
that the validator of its kind refused has a report of that kind less than ten seconds old. -/
theorem reports_are_debounced {now : K} {s : Gateway F D K} {actions : List (GatewayAction D K)}
    (h : Run (step env cfg) (fun _ _ => True) (start now) actions s) :
    (s.reports.Pairwise fun a b : String × K => a.1 = b.1 → a.2 + (10 : ℕ) ≤ b.2) ∧
      ∀ e ∈ s.refused, ∃ r ∈ s.reports, r.1 = e.1 ∧ r.2 ≤ e.2 ∧ e.2 < r.2 + (10 : ℕ) := by
  have hstart : Reported (start now : Gateway F D K) := debounced_nil _ now
  have hreported : Reported s :=
    Run.invariant (fun _ _ _ hs _ hst => reported_step hs hst) h hstart
  exact ⟨hreported.apart, hreported.covered⟩

end

section FixedInputs

/-- Messages are decoded already, and there is one path with a query. -/
def plainGateway : GatewayRuntime ℤ (Json ℤ) where
  toValidatorRuntime := plainValidator
  upper s := s
  jsonLoads := some
  urlsplit path :=
    if path = "/fxcm/ohlcv?symbol=XAUUSD&tf=1m" then some ("/fxcm/ohlcv", "symbol=XAUUSD&tf=1m")
    else some (path, "")
  parseQs query :=
    if query = "symbol=XAUUSD&tf=1m" then some [("symbol", ["XAUUSD"]), ("tf", ["1m"])]
    else some []

def strictGateway : GatewayConfig := ⟨"fxcm:ohlcv", "fxcm:price_tik", "fxcm:status", true⟩

/-- A message without bars, a bar of another symbol and a bar come to a client of the pair. -/
def goldActions : List (GatewayAction (Json ℤ) ℚ) :=
  [.connect 0 "/fxcm/ohlcv?symbol=XAUUSD&tf=1m", .subscribe 0,
    .publish "fxcm:ohlcv" (.obj [("symbol", .str "XAUUSD"), ("tf", .str "1m")]),
    .publish "fxcm:ohlcv" (.obj [("symbol", .str "EURUSD"), ("tf", .str "1m")]),
    .publish "fxcm:ohlcv" (.obj (minutePacket (.bool false))),
    .handle 0 true, .clock 5, .handle 0 true, .handle 0 true]

theorem gold_client_gets_its_bar : ∃ (s : Gateway ℤ (Json ℤ) ℚ) (client : GatewayClient ℤ),
    s.clients 0 = some client ∧ client.sent.length = 1 ∧
      ((∃ read, read <:+: s.broker.log (channelOf strictGateway client.selection) ∧
        client.sent = read.filterMap (answer plainGateway strictGateway client.selection)) ∧
      (client.stage = .streaming → ∃ sub, s.broker.subscriptions 0 = some sub ∧
        (s.broker.log (channelOf strictGateway client.selection)).drop sub.since =
          sub.read ++ sub.inbox ∧
        client.sent = sub.read.filterMap (answer plainGateway strictGateway client.selection)) ∧
      ∀ m ∈ client.sent, ∃ message, m = .obj message ∧ Names client.selection message ∧
        (strictGateway.strictEnabled = true →
          isValid plainGateway client.selection message = true)) := by
  obtain ⟨s, hrun, hone⟩ := Run.exists_of_checked (step plainGateway strictGateway)
    (fun _ _ => True) (start (0 : ℚ)) goldActions
    (fun s => decide ((s.clients 0).map (fun c => c.sent.length) = some 1)) (by decide +kernel)
  obtain ⟨client, hclient, hlength⟩ := Option.map_eq_some_iff.mp (of_decide_eq_true hone)
  exact ⟨s, client, hclient, hlength, clients_get_their_messages hrun hclient⟩

theorem gold_report_is_debounced : ∃ s : Gateway ℤ (Json ℤ) ℚ, s.refused.length = 1 ∧
    (s.reports.Pairwise fun a b : String × ℚ => a.1 = b.1 → a.2 + (10 : ℕ) ≤ b.2) ∧
      ∀ e ∈ s.refused, ∃ r ∈ s.reports, r.1 = e.1 ∧ r.2 ≤ e.2 ∧ e.2 < r.2 + (10 : ℕ) := by
  obtain ⟨s, hrun, hone⟩ := Run.exists_of_checked (step plainGateway strictGateway)
    (fun _ _ => True) (start (0 : ℚ)) goldActions (fun s => decide (s.refused.length = 1))
    (by decide +kernel)
  exact ⟨s, of_decide_eq_true hone, reports_are_debounced hrun⟩

end FixedInputs

end SmcPipeline.FxcmGateway
