import SmcPipeline.OrderedDict
import SmcPipeline.Runs

/-!
# A viewer connects

The broadcaster of `UI_v2/smc_viewer_broadcaster.py` and one handler of
`UI_v2/viewer_state_ws_server.py`, with Redis between them. The broadcaster updates its map,
saves it under the snapshot key and publishes the states one by one; the handler reads the
snapshot, sends it, subscribes and forwards the updates of its symbol. Saving, publishing
and sending succeed, and a message reaches only a handler that is subscribed. What is
published after the read and before the subscription is neither in the snapshot that was
sent nor in the updates.
-/

namespace SmcPipeline

/-- The result of `build_viewer_states_from_payload`: its symbols are in upper case. -/
structure ViewerStates (upper : String → String) (V : Type*) where
  dict : OrderedDict String V
  upper_keys : ∀ k ∈ dict.keys, upper k = k

/-- The states of the payload at work: still to be saved, or saved and still to be published. -/
inductive BroadcasterTask (V : Type*)
  | saving (states : List (String × V))
  | publishing (rest : List (String × V))

inductive HandlerStage (V : Type*)
  | connected
  | fetched (state : Option V)
  | greeted
  | streaming

structure ViewerSystem (V : Type*) where
  /-- `snapshot_by_symbol` -/
  memory : OrderedDict String V
  /-- What Redis holds under `viewer_snapshot_key`. -/
  redis : OrderedDict String V
  task : BroadcasterTask V
  /-- The messages published so far. -/
  published : List (String × V)
  stage : HandlerStage V
  /-- What the subscription has delivered and the handler has not read. -/
  inbox : List (String × V)
  /-- The state that the client was sent last. -/
  held : Option V

inductive ViewerAction (upper : String → String) (V : Type*)
  | receive (states : ViewerStates upper V)
  | save
  | publish
  | read
  | send
  | subscribe
  | forward

namespace ViewerConnect

open Runs

variable {V : Type*} (upper lower : String → String) (symbol : String)

/-- The states that have not been published yet. -/
def waiting (s : ViewerSystem V) : List (String × V) :=
  match s.task with
  | .saving states => states
  | .publishing rest => rest

/-- `get_state` -/
def getState (states : OrderedDict String V) : Option V :=
  if symbol = "" then none
  else [symbol, upper symbol, lower symbol].findSome? states.get?

/-- `_process_smc_payload_with_metrics`, `_save_viewer_snapshot`, `_publish_viewer_states` and
`_handle_client`, cut where they wait. -/
def step (s : ViewerSystem V) : ViewerAction upper V → Option (ViewerSystem V)
  | .receive states =>
    match s.task with
    | .publishing [] =>
      if states.dict.items = [] then some s
      else some { s with memory := s.memory.update states.dict, task := .saving states.dict.items }
    | _ => none
  | .save =>
    match s.task with
    | .saving states => some { s with redis := s.memory, task := .publishing states }
    | _ => none
  | .publish =>
    match s.task with
    | .publishing (m :: rest) =>
      let inbox := match s.stage with
        | .streaming => s.inbox ++ [m]
        | _ => s.inbox
      some { s with published := s.published ++ [m], inbox := inbox, task := .publishing rest }
    | _ => none
  | .read =>
    match s.stage with
    | .connected => some { s with stage := .fetched (getState upper lower symbol s.redis) }
    | _ => none
  | .send =>
    match s.stage with
    | .fetched state => some { s with stage := .greeted, held := state }
    | _ => none
  | .subscribe =>
    match s.stage with
    | .greeted => some { s with stage := .streaming }
    | _ => none
  | .forward =>
    match s.stage, s.inbox with
    | .streaming, m :: rest =>
      -- updates of other symbols are skipped
      some { s with inbox := rest, held := if upper m.1 = symbol then some m.2 else s.held }
    | _, _ => none

/-- The state of the symbol among some messages that came last. -/
def latestFor (messages : List (String × V)) : Option V :=
  (messages.filter fun m => decide (m.1 = symbol)).getLast?.map Prod.snd

/-- Every interleaving of the two parties. -/
def Interleaving (s : ViewerSystem V) (actions : List (ViewerAction upper V))
    (t : ViewerSystem V) : Prop :=
  Run (step upper lower symbol) (fun _ _ => True) s actions t

/-- Nothing has been published yet, and the handler has just accepted the connection. -/
structure Start (s : ViewerSystem V) : Prop where
  task : s.task = .publishing []
  published : s.published = []
  stage : s.stage = .connected
  inbox : s.inbox = []

variable {upper lower symbol}

@[simp] theorem latestFor_nil : latestFor symbol ([] : List (String × V)) = none := rfl

theorem latestFor_append (first second : List (String × V)) :
    latestFor symbol (first ++ second) =
      (latestFor symbol second).or (latestFor symbol first) := by
  unfold latestFor
  rw [List.filter_append, List.getLast?_append, Option.map_or]

theorem latestFor_singleton (m : String × V) :
    latestFor symbol [m] = if m.1 = symbol then some m.2 else none := by
  unfold latestFor
  by_cases h : m.1 = symbol <;> simp [h]

/-- The keys of a dict are distinct, so that the last item of a key is its item. -/
theorem latestFor_items (d : OrderedDict String V) : latestFor symbol d.items = d.get? symbol := by
  obtain ⟨items, hnodup⟩ := d
  unfold OrderedDict.get?
  dsimp only
  induction items with
  | nil => rfl
  | cons p items ih =>
      rw [List.map_cons, List.nodup_cons] at hnodup
      obtain ⟨hp, hitems⟩ := hnodup
      have hcons : latestFor symbol (p :: items) =
          (latestFor symbol items).or (latestFor symbol [p]) := latestFor_append [p] items
      rw [hcons, ih hitems, latestFor_singleton, List.find?_cons]
      by_cases hk : p.1 = symbol
      · have hnone := OrderedDict.find?_eq_none_of_notMem (hk ▸ hp)
        simp [hk, hnone]
      · simp [hk]

/-- What Redis has for the symbol once the states that are saved have been published. -/
def Saved (symbol : String) (s : ViewerSystem V) : Prop :=
  match s.task with
  | .saving _ => ∀ v, latestFor symbol s.published = some v → s.redis.get? symbol = some v
  | .publishing rest =>
    ∀ v, latestFor symbol (s.published ++ rest) = some v → s.redis.get? symbol = some v

/-- The map and Redis have the state of the symbol that was published last, or a later one
that waits; messages carry symbols in upper case; and only a subscribed handler has any. -/
structure Invariant (upper : String → String) (symbol : String) (s : ViewerSystem V) : Prop where
  memory : ∀ v, latestFor symbol (s.published ++ waiting s) = some v →
    s.memory.get? symbol = some v
  redis : Saved symbol s
  upper_waiting : ∀ m ∈ waiting s, upper m.1 = m.1
  upper_inbox : ∀ m ∈ s.inbox, upper m.1 = m.1
  unsubscribed : s.stage ≠ .streaming → s.inbox = []

theorem invariant_start {s : ViewerSystem V} (h : Start s) : Invariant upper symbol s := by
  obtain ⟨htask, hpublished, hstage, hinbox⟩ := h
  constructor
  · intro v hv
    rw [waiting, htask, hpublished] at hv
    cases hv
  · unfold Saved
    rw [htask]
    intro v hv
    rw [hpublished] at hv
    cases hv
  · intro m hm
    rw [waiting, htask] at hm
    cases hm
  · intro m hm
    rw [hinbox] at hm
    cases hm
  · intro _
    exact hinbox

theorem invariant_step {s t : ViewerSystem V} {a : ViewerAction upper V}
    (hs : Invariant upper symbol s) (h : step upper lower symbol s a = some t) :
    Invariant upper symbol t := by
  obtain ⟨memory, redis, task, published, stage, inbox, held⟩ := s
  obtain ⟨hmemory, hredis, hwaiting, hinbox, hidle⟩ := hs
  cases a with
  | receive states =>
      rcases task with rest | (_ | ⟨m, rest⟩)
      · cases h
      · simp only [step] at h
        split_ifs at h with hempty
        · cases h
          exact ⟨hmemory, hredis, hwaiting, hinbox, hidle⟩
        · cases h
          simp only [waiting, Saved, List.append_nil] at hmemory hredis
          refine ⟨?_, hredis, ?_, hinbox, hidle⟩
          · intro v hv
            simp only [waiting, latestFor_append, latestFor_items] at hv
            rw [OrderedDict.get?_update]
            cases hget : states.dict.get? symbol with
            | none =>
                rw [hget, Option.none_or] at hv
                exact hmemory v hv
            | some w =>
                rw [hget] at hv
                exact hv
          · intro m hm
            exact states.upper_keys m.1 (List.mem_map_of_mem hm)
      · cases h
  | save =>
      cases task with
      | saving states =>
          cases h
          exact ⟨hmemory, hmemory, hwaiting, hinbox, hidle⟩
      | publishing rest => cases h
  | publish =>
      rcases task with rest | (_ | ⟨m, rest⟩)
      · cases h
      · cases h
      · cases h
        simp only [waiting, Saved] at hmemory hredis hwaiting
        refine ⟨?_, ?_, ?_, ?_, ?_⟩
        · simpa [waiting] using hmemory
        · simpa [Saved] using hredis
        · intro m' hm'
          exact hwaiting m' (List.mem_cons_of_mem m hm')
        · intro m' hm'
          cases stage with
          | streaming =>
              rcases List.mem_append.mp hm' with hm' | hm'
              · exact hinbox m' hm'
              · rw [List.mem_singleton.mp hm']
                exact hwaiting m List.mem_cons_self
          | connected => exact hinbox m' hm'
          | fetched _ => exact hinbox m' hm'
          | greeted => exact hinbox m' hm'
        · intro hne
          cases stage with
          | streaming => exact absurd rfl hne
          | connected => exact hidle hne
          | fetched _ => exact hidle hne
          | greeted => exact hidle hne
  | read =>
      cases stage with
      | connected =>
          cases h
          exact ⟨hmemory, hredis, hwaiting, hinbox, fun _ => hidle (by simp)⟩
      | fetched _ => cases h
      | greeted => cases h
      | streaming => cases h
  | send =>
      cases stage with
      | fetched state =>
          cases h
          exact ⟨hmemory, hredis, hwaiting, hinbox, fun _ => hidle (by simp)⟩
      | connected => cases h
      | greeted => cases h
      | streaming => cases h
  | subscribe =>
      cases stage with
      | greeted =>
          cases h
          exact ⟨hmemory, hredis, hwaiting, hinbox, fun hne => absurd rfl hne⟩
      | connected => cases h
      | fetched _ => cases h
      | streaming => cases h
  | forward =>
      rcases stage with _ | _ | _ | _ <;> try cases h
      cases inbox with
      | nil => cases h
      | cons m rest =>
          cases h
          exact ⟨hmemory, hredis, hwaiting, fun m' hm' => hinbox m' (List.mem_cons_of_mem m hm'),
            fun hne => absurd rfl hne⟩

theorem invariant_run {s t : ViewerSystem V} {actions : List (ViewerAction upper V)}
    (h : Interleaving upper lower symbol s actions t) (hs : Invariant upper symbol s) :
    Invariant upper symbol t :=
  Run.invariant (fun _ _ _ hi _ hst => invariant_step hi hst) h hs

/-- What the client holds once the handler has forwarded what it was delivered. -/
def outlook (symbol : String) (s : ViewerSystem V) : Option V :=
  (latestFor symbol s.inbox).or s.held

/-- The messages published between two states reach the client, and a state that waited in
the first is among them or waits still. -/
def Follows (symbol : String) (s t : ViewerSystem V) : Prop :=
  ∃ new, t.published = s.published ++ new ∧
    outlook symbol t = (latestFor symbol new).or (outlook symbol s) ∧
    (latestFor symbol new = none → latestFor symbol (waiting t) = none →
      latestFor symbol (waiting s) = none)

theorem follows_refl (s : ViewerSystem V) : Follows symbol s s :=
  ⟨[], (List.append_nil _).symm, rfl, fun _ h => h⟩

theorem Follows.trans {s t u : ViewerSystem V} (h₁ : Follows symbol s t)
    (h₂ : Follows symbol t u) : Follows symbol s u := by
  obtain ⟨first, hpub, hlook, hwait⟩ := h₁
  obtain ⟨second, hpub', hlook', hwait'⟩ := h₂
  refine ⟨first ++ second, ?_, ?_, fun hnone hu => ?_⟩
  · rw [hpub', hpub, List.append_assoc]
  · rw [hlook', hlook, latestFor_append, Option.or_assoc]
  · rw [latestFor_append, Option.or_eq_none_iff] at hnone
    exact hwait hnone.2 (hwait' hnone.1 hu)

theorem follows_step {s t : ViewerSystem V} {a : ViewerAction upper V}
    (hs : Invariant upper symbol s) (hstage : s.stage = .streaming)
    (h : step upper lower symbol s a = some t) :
    Follows symbol s t ∧ t.stage = .streaming := by
  obtain ⟨memory, redis, task, published, stage, inbox, held⟩ := s
  dsimp only at hstage
  subst hstage
  cases a with
  | receive states =>
      rcases task with rest | (_ | ⟨m, rest⟩)
      · cases h
      · simp only [step] at h
        split_ifs at h
        · cases h
          exact ⟨follows_refl _, rfl⟩
        · cases h
          exact ⟨⟨[], (List.append_nil _).symm, rfl, fun _ _ => rfl⟩, rfl⟩
      · cases h
  | save =>
      cases task with
      | saving states =>
          cases h
          exact ⟨⟨[], (List.append_nil _).symm, rfl, fun _ hu => hu⟩, rfl⟩
      | publishing rest => cases h
  | publish =>
      rcases task with rest | (_ | ⟨m, rest⟩)
      · cases h
      · cases h
      · cases h
        refine ⟨⟨[m], rfl, ?_, fun hnone hu => ?_⟩, rfl⟩
        · unfold outlook
          rw [latestFor_append, Option.or_assoc]
        · have hcons : latestFor symbol (m :: rest) =
              (latestFor symbol rest).or (latestFor symbol [m]) := latestFor_append [m] rest
          exact hcons.trans (Option.or_eq_none_iff.mpr ⟨hu, hnone⟩)
  | read => cases h
  | send => cases h
  | subscribe => cases h
  | forward =>
      cases inbox with
      | nil => cases h
      | cons m rest =>
          cases h
          have hupper : upper m.1 = m.1 := hs.upper_inbox m List.mem_cons_self
          have hcons : latestFor symbol (m :: rest) =
              (latestFor symbol rest).or (latestFor symbol [m]) := latestFor_append [m] rest
          refine ⟨⟨[], (List.append_nil _).symm, ?_, fun _ hu => hu⟩, rfl⟩
          unfold outlook
          rw [hupper, hcons, Option.or_assoc, latestFor_singleton, latestFor_nil, Option.none_or]
          by_cases hm : m.1 = symbol
          · rw [if_pos hm, if_pos hm, Option.some_or]
          · rw [if_neg hm, if_neg hm, Option.none_or]

theorem follows_run {s t : ViewerSystem V} {actions : List (ViewerAction upper V)}
    (h : Interleaving upper lower symbol s actions t) (hs : Invariant upper symbol s)
    (hstage : s.stage = .streaming) : Follows symbol s t := by
  refine Run.related (I := fun s => Invariant upper symbol s ∧ s.stage = .streaming)
    (R := Follows symbol) follows_refl (fun _ _ _ => Follows.trans) ?_ ?_ h ⟨hs, hstage⟩
  · intro s a t hi _ hst
    exact ⟨invariant_step hi.1 hst, (follows_step hi.1 hi.2 hst).2⟩
  · intro s a t hi _ hst
    exact (follows_step hi.1 hi.2 hst).1

/-- Where no state of the symbol waits, Redis has the one that was published last. -/
theorem getState_eq {s : ViewerSystem V} (hs : Invariant upper symbol s) (hsymbol : symbol ≠ "")
    (hwaiting : latestFor symbol (waiting s) = none) {v : V}
    (hlatest : latestFor symbol s.published = some v) :
    getState upper lower symbol s.redis = some v := by
  have hget : s.redis.get? symbol = some v := by
    have hredis := hs.redis
    unfold Saved at hredis
    unfold waiting at hwaiting
    cases htask : s.task with
    | saving states =>
        rw [htask] at hredis
        exact hredis v hlatest
    | publishing rest =>
        rw [htask] at hredis hwaiting
        apply hredis v
        rw [latestFor_append, hwaiting, Option.none_or, hlatest]
  unfold getState
  rw [if_neg hsymbol, List.findSome?_cons, hget]

theorem subscribe_cases {s t : ViewerSystem V} (hs : Invariant upper symbol s)
    (h : step upper lower symbol s .subscribe = some t) :
    s.stage = .greeted ∧ s.inbox = [] ∧ t = { s with stage := .streaming } := by
  have hidle := hs.unsubscribed
  obtain ⟨memory, redis, task, published, stage, inbox, held⟩ := s
  cases stage with
  | greeted =>
      cases h
      exact ⟨rfl, hidle (by simp), rfl⟩
  | connected => cases h
  | fetched _ => cases h
  | streaming => cases h

/-- What a drained client holds, in terms of what was published after the subscription. -/
theorem drained_of_subscribe {s₁ s₂ : ViewerSystem V} (hs : Invariant upper symbol s₁)
    (hsub : step upper lower symbol s₁ .subscribe = some s₂) (after : List (ViewerAction upper V))
    (t : ViewerSystem V) (hafter : Interleaving upper lower symbol s₂ after t)
    (hinbox : t.inbox = []) :
    ∃ new, t.published = s₁.published ++ new ∧ t.held = (latestFor symbol new).or s₁.held ∧
      (latestFor symbol new = none → latestFor symbol (waiting t) = none →
        latestFor symbol (waiting s₁) = none) := by
  have hs₂ := invariant_step hs hsub
  obtain ⟨-, hempty, rfl⟩ := subscribe_cases hs hsub
  obtain ⟨new, hpub, hheld, hwait⟩ := follows_run hafter hs₂ rfl
  unfold outlook at hheld
  dsimp only at hheld
  rw [hinbox, hempty, latestFor_nil, Option.none_or, Option.none_or] at hheld
  exact ⟨new, hpub, hheld, hwait⟩

/-- A client that was sent the state published last has the one published last from then on. -/
theorem held_of_greeted {s₁ s₂ : ViewerSystem V} (hs : Invariant upper symbol s₁)
    (hsub : step upper lower symbol s₁ .subscribe = some s₂)
    (hheld : ∀ v, latestFor symbol s₁.published = some v → s₁.held = some v)
    {after : List (ViewerAction upper V)} {t : ViewerSystem V}
    (hafter : Interleaving upper lower symbol s₂ after t) (hinbox : t.inbox = []) {v : V}
    (hv : latestFor symbol t.published = some v) : t.held = some v := by
  obtain ⟨new, hpub, hnow, -⟩ := drained_of_subscribe hs hsub after t hafter hinbox
  rw [hpub, latestFor_append] at hv
  rw [hnow]
  cases hnew : latestFor symbol new with
  | none =>
      rw [hnew, Option.none_or] at hv
      rw [Option.none_or]
      exact hheld v hv
  | some w =>
      rw [hnew] at hv
      exact hv

/-- No state of the symbol is saved. -/
def SavesNone (symbol : String) (s : ViewerSystem V) (a : ViewerAction upper V) : Prop :=
  match a with
  | .save => latestFor symbol (waiting s) = none
  | _ => True

/-- No saved state of the symbol waits, and the handler, not yet subscribed, has read the one
that was published last. -/
def ReadLatest (symbol : String) (s : ViewerSystem V) : Prop :=
  (∀ rest, s.task = .publishing rest → latestFor symbol rest = none) ∧
    match s.stage with
    | .connected => False
    | .fetched state => ∀ v, latestFor symbol s.published = some v → state = some v
    | .greeted => ∀ v, latestFor symbol s.published = some v → s.held = some v
    | .streaming => True

/-- A state that is none of the symbol's is published, and those that wait are none either. -/
theorem latestFor_publish (published : List (String × V)) {m : String × V}
    {rest : List (String × V)} (h : latestFor symbol (m :: rest) = none) :
    latestFor symbol rest = none ∧
      latestFor symbol (published ++ [m]) = latestFor symbol published := by
  have hcons : latestFor symbol (m :: rest) =
      (latestFor symbol rest).or (latestFor symbol [m]) := latestFor_append [m] rest
  rw [hcons, Option.or_eq_none_iff] at h
  refine ⟨h.1, ?_⟩
  rw [latestFor_append, h.2, Option.none_or]

theorem readLatest_step {s t : ViewerSystem V} {a : ViewerAction upper V}
    (hs : ReadLatest symbol s) (hquiet : SavesNone symbol s a)
    (h : step upper lower symbol s a = some t) : ReadLatest symbol t := by
  obtain ⟨memory, redis, task, published, stage, inbox, held⟩ := s
  obtain ⟨hrest, hread⟩ := hs
  cases a with
  | receive states =>
      rcases task with rest | (_ | ⟨m, rest⟩)
      · cases h
      · simp only [step] at h
        split_ifs at h
        · cases h
          exact ⟨hrest, hread⟩
        · cases h
          exact ⟨fun rest heq => (nomatch heq), hread⟩
      · cases h
  | save =>
      cases task with
      | saving states =>
          cases h
          refine ⟨fun rest heq => ?_, hread⟩
          cases heq
          exact hquiet
      | publishing rest => cases h
  | publish =>
      rcases task with rest | (_ | ⟨m, rest⟩)
      · cases h
      · cases h
      · cases h
        obtain ⟨hleft, hsame⟩ := latestFor_publish published (hrest _ rfl)
        refine ⟨fun rest' heq => ?_, ?_⟩
        · cases heq
          exact hleft
        · cases stage with
          | connected => exact hread
          | fetched state =>
              dsimp only
              rw [hsame]
              exact hread
          | greeted =>
              dsimp only
              rw [hsame]
              exact hread
          | streaming => trivial
  | read =>
      cases stage with
      | connected => exact absurd hread not_false
      | fetched _ => cases h
      | greeted => cases h
      | streaming => cases h
  | send =>
      cases stage with
      | fetched state =>
          cases h
          exact ⟨hrest, hread⟩
      | connected => cases h
      | greeted => cases h
      | streaming => cases h
  | subscribe =>
      cases stage with
      | greeted =>
          cases h
          exact ⟨hrest, trivial⟩
      | connected => cases h
      | fetched _ => cases h
      | streaming => cases h
  | forward =>
      rcases stage with _ | _ | _ | _ <;> try cases h
      cases inbox with
      | nil => cases h
      | cons m rest =>
          cases h
          exact ⟨hrest, trivial⟩

theorem readLatest_read {s t : ViewerSystem V} (hs : Invariant upper symbol s)
    (hsymbol : symbol ≠ "") (hwaiting : latestFor symbol (waiting s) = none)
    (h : step upper lower symbol s .read = some t) : ReadLatest symbol t := by
  have hget : ∀ v, latestFor symbol s.published = some v →
      getState upper lower symbol s.redis = some v := fun v hv =>
    getState_eq hs hsymbol hwaiting hv
  obtain ⟨memory, redis, task, published, stage, inbox, held⟩ := s
  cases stage with
  | connected =>
      cases h
      refine ⟨fun rest heq => ?_, hget⟩
      subst heq
      exact hwaiting
  | fetched _ => cases h
  | greeted => cases h
  | streaming => cases h

/-- The client holds the state published last, in every state of every run, if no state of
the symbol waits when the handler reads the snapshot, and none is saved from then until it
subscribes. -/
theorem held_is_latest_of_quiet {s₀ r r' s₁ s₂ : ViewerSystem V}
    {before between : List (ViewerAction upper V)} (hsymbol : symbol ≠ "") (hstart : Start s₀)
    (hbefore : Interleaving upper lower symbol s₀ before r)
    (hwaiting : latestFor symbol (waiting r) = none)
    (hread : step upper lower symbol r .read = some r')
    (hbetween : Run (step upper lower symbol) (SavesNone symbol) r' between s₁)
    (hsub : step upper lower symbol s₁ .subscribe = some s₂) :
    ∀ after t, Interleaving upper lower symbol s₂ after t → t.inbox = [] →
      ∀ v, latestFor symbol t.published = some v → t.held = some v := by
  have hr := invariant_run hbefore (invariant_start hstart)
  have hs₁ : Invariant upper symbol s₁ :=
    hbetween.invariant (fun _ _ _ hi _ hst => invariant_step hi hst) (invariant_step hr hread)
  have hlatest : ReadLatest symbol s₁ :=
    hbetween.invariant (fun _ _ _ hi hok hst => readLatest_step hi hok hst)
      (readLatest_read hr hsymbol hwaiting hread)
  have hheld := hlatest.2
  rw [(subscribe_cases hs₁ hsub).1] at hheld
  exact fun after t hafter hinbox v hv => held_of_greeted hs₁ hsub hheld hafter hinbox hv

/-- After the subscription a client that has received everything holds the state published
last, in every state of every run, exactly if the snapshot that it was sent is the state
that had been published last when it subscribed. Where nothing of the symbol waits to be
published, it does exactly if a state of the symbol is published after the subscription,
or the snapshot is what Redis held when it subscribed. -/
theorem held_is_latest_iff {s₀ s₁ s₂ : ViewerSystem V} {before : List (ViewerAction upper V)}
    (hsymbol : symbol ≠ "") (hstart : Start s₀)
    (hbefore : Interleaving upper lower symbol s₀ before s₁)
    (hsub : step upper lower symbol s₁ .subscribe = some s₂) :
    ((∀ after t, Interleaving upper lower symbol s₂ after t → t.inbox = [] →
          ∀ v, latestFor symbol t.published = some v → t.held = some v) ↔
        ∀ v, latestFor symbol s₁.published = some v → s₁.held = some v) ∧
      ∀ after t, Interleaving upper lower symbol s₂ after t → t.inbox = [] →
        latestFor symbol (waiting t) = none → ∀ v, latestFor symbol t.published = some v →
        (t.held = some v ↔
          latestFor symbol (t.published.drop s₁.published.length) ≠ none ∨
            s₁.held = getState upper lower symbol s₁.redis) := by
  have hinv := invariant_run hbefore (invariant_start hstart)
  obtain ⟨-, hempty, hsame⟩ := subscribe_cases hinv hsub
  have hdrained := drained_of_subscribe hinv hsub
  refine ⟨⟨fun h v hv => ?_, fun h after t hafter hinbox v hv =>
    held_of_greeted hinv hsub h hafter hinbox hv⟩, fun after t hafter hinbox hwaiting v hv => ?_⟩
  · have hnow := h [] s₂ (.nil s₂) (by rw [hsame]; exact hempty) v (by rw [hsame]; exact hv)
    rw [hsame] at hnow
    exact hnow
  · obtain ⟨new, hpub, hheld, hwait⟩ := hdrained after t hafter hinbox
    rw [hpub, List.drop_left, hheld]
    rw [hpub, latestFor_append] at hv
    cases hnew : latestFor symbol new with
    | none =>
        rw [hnew, Option.none_or] at hv
        rw [getState_eq hinv hsymbol (hwait hnew hwaiting) hv, Option.none_or]
        simp
    | some w =>
        rw [hnew] at hv
        exact iff_of_true hv (Or.inl (by simp))

section FixedInputs

def noSymbols : ViewerSystem ℕ where
  memory := OrderedDict.empty
  redis := OrderedDict.empty
  task := .publishing []
  published := []
  stage := .connected
  inbox := []
  held := none

theorem start_noSymbols : Start noSymbols := ⟨rfl, rfl, rfl, rfl⟩

/-- A payload with one state of gold. -/
def goldState (v : ℕ) : ViewerStates id ℕ := ⟨OrderedDict.empty.set "XAUUSD" v, fun _ _ => rfl⟩

/-- The state is saved and published before the snapshot is read. -/
def publishedFirst : List (ViewerAction id ℕ) :=
  [.receive (goldState 1), .save, .publish, .read, .send]

/-- It is saved and published after the snapshot was read. -/
def publishedBetween : List (ViewerAction id ℕ) :=
  [.read, .send, .receive (goldState 1), .save, .publish]

theorem snapshot_in_time :
    ∃ s₁ s₂, Interleaving id id "XAUUSD" noSymbols publishedFirst s₁ ∧
      step id id "XAUUSD" s₁ .subscribe = some s₂ ∧
      ∀ after t, Interleaving id id "XAUUSD" s₂ after t → t.inbox = [] →
        ∀ v, latestFor "XAUUSD" t.published = some v → t.held = some v := by
  have hrun : Interleaving id id "XAUUSD" noSymbols publishedFirst
      { noSymbols with
        memory := OrderedDict.empty.set "XAUUSD" 1
        redis := OrderedDict.empty.set "XAUUSD" 1
        published := [("XAUUSD", 1)]
        stage := .greeted
        held := some 1 } := Run.of_checked rfl
  exact ⟨_, _, hrun, rfl,
    (held_is_latest_iff (by decide) start_noSymbols hrun rfl).1.mpr fun v hv => hv⟩

/-- The client holds nothing, and gold has been published. -/
theorem update_is_lost :
    ¬ ∀ (V : Type) (upper lower : String → String) (symbol : String) (s t : ViewerSystem V)
      (actions : List (ViewerAction upper V)), symbol ≠ "" → Start s →
      Interleaving upper lower symbol s actions t → t.stage = .streaming → t.inbox = [] →
      ∀ v, latestFor symbol t.published = some v → t.held = some v := by
  intro h
  have hrun : Interleaving id id "XAUUSD" noSymbols (publishedBetween ++ [.subscribe])
      { noSymbols with
        memory := OrderedDict.empty.set "XAUUSD" 1
        redis := OrderedDict.empty.set "XAUUSD" 1
        published := [("XAUUSD", 1)]
        stage := .streaming } := Run.of_checked rfl
  have hheld := h ℕ id id "XAUUSD" noSymbols _ _ (by decide) start_noSymbols hrun rfl rfl 1
    (by decide +kernel)
  cases hheld

end FixedInputs

end ViewerConnect

end SmcPipeline
