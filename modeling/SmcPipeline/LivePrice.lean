import SmcPipeline.Serializers
import SmcPipeline.SmcProducer

/-!
# Is the live price of an asset live?

The stats of a round name the tick that the store returned in it. Merged over the stats of the
rounds before, they keep the fields of an old tick once the store has dropped it, and the source
`price_stream` for a price that is the close of a bar. Both are left out exactly in the runs in
which a tick, once there, is there in every later round, and every close that is read is the
tick's mid.
-/

namespace SmcPipeline.LivePrice

open SmcProducer

variable {K : Type*}

/-- The values of a tick that the stats show. -/
structure Shown (K : Type*) where
  mid : K
  bid : Option K
  ask : Option K
  tickTs : K
  snapTs : K
  age : K
  isStale : Bool
deriving DecidableEq

def shown (view : TickView K) : Shown K :=
  ⟨view.tick.mid, view.tick.bid, view.tick.ask, view.tick.tickTs, view.tick.snapTs, view.age,
    view.isStale⟩

/-- The stats name this tick and no other, and a price from the stream is its mid. -/
structure Fresh (stats : OrderedDict String (Json (Option K))) (tick : Option (Shown K)) :
    Prop where
  mid : stats.get? "live_price_mid" = tick.map fun t => .float (some t.mid)
  bid : stats.get? "live_price_bid" = tick.map fun t => floatOrNull t.bid
  ask : stats.get? "live_price_ask" = tick.map fun t => floatOrNull t.ask
  tickTs : stats.get? "tick_ts" = tick.map fun t => .float (some t.tickTs)
  snapTs : stats.get? "tick_snap_ts" = tick.map fun t => .float (some t.snapTs)
  age : stats.get? "tick_age_sec" = tick.map fun t => .float (some t.age)
  isStale : stats.get? "tick_is_stale" = tick.map fun t => .bool t.isStale
  source : stats.get? "price_source" = some (.str "price_stream") →
    ∃ t, tick = some t ∧ stats.get? "current_price" = some (.float (some t.mid))

/-- Whether a round ends with an exception. -/
def raises (cfg : ProducerConfig) (round : Round K) : Bool :=
  match round.frame with
  | .raised => true
  | .missing => false
  | .frame last =>
    match round.hint with
    | .raised => enoughRows cfg last
    | _ => false

/-- The close that a round reads, if it is a number to `float`. -/
def closeOf (round : Round K) : Option (Option K) :=
  match round.frame with
  | .frame last => last.close
  | _ => none

/-- The tick of the last round without an exception is `held`: a round that raises gets the same
one, any other gets one if there was one, and reads no close but its mid. -/
structure Keeps (cfg : ProducerConfig) (held tick : Option (Shown K)) (round : Round K) :
    Prop where
  raised : raises cfg round = true → tick = held
  stays : raises cfg round = false → tick = none → held = none
  close : raises cfg round = false → ∀ t ∈ tick, ∀ c ∈ closeOf round, c = some t.mid

theorem floatOrNull_injective {x y : Option K} (h : floatOrNull x = floatOrNull y) : x = y := by
  cases x <;> cases y <;> simp_all [floatOrNull]

/-- The stats say which tick they are of. -/
theorem Fresh.unique {stats : OrderedDict String (Json (Option K))} {a b : Option (Shown K)}
    (ha : Fresh stats a) (hb : Fresh stats b) : a = b := by
  have hmid := ha.mid.symm.trans hb.mid
  cases a with
  | none =>
      cases b with
      | none => rfl
      | some b => cases hmid
  | some a =>
      cases b with
      | none => cases hmid
      | some b =>
          have hmid' : a.mid = b.mid := by simpa using hmid
          have hbid : floatOrNull a.bid = floatOrNull b.bid := by
            simpa using ha.bid.symm.trans hb.bid
          have hask : floatOrNull a.ask = floatOrNull b.ask := by
            simpa using ha.ask.symm.trans hb.ask
          have hts : a.tickTs = b.tickTs := by simpa using ha.tickTs.symm.trans hb.tickTs
          have hsnap : a.snapTs = b.snapTs := by simpa using ha.snapTs.symm.trans hb.snapTs
          have hage : a.age = b.age := by simpa using ha.age.symm.trans hb.age
          have hstale : a.isStale = b.isStale := by simpa using ha.isStale.symm.trans hb.isStale
          rw [Option.some.injEq, Shown.mk.injEq]
          exact ⟨hmid', floatOrNull_injective hbid, floatOrNull_injective hask, hts, hsnap, hage,
            hstale⟩

/-- The stats of a round name its tick, and its price is the close that is read or the mid. -/
structure Names (stats : OrderedDict String (Json (Option K))) (tick : Option (Shown K))
    (close : Option (Option K)) : Prop where
  mid : stats.get? "live_price_mid" = tick.map fun t => .float (some t.mid)
  bid : stats.get? "live_price_bid" = tick.map fun t => floatOrNull t.bid
  ask : stats.get? "live_price_ask" = tick.map fun t => floatOrNull t.ask
  tickTs : stats.get? "tick_ts" = tick.map fun t => .float (some t.tickTs)
  snapTs : stats.get? "tick_snap_ts" = tick.map fun t => .float (some t.snapTs)
  age : stats.get? "tick_age_sec" = tick.map fun t => .float (some t.age)
  isStale : stats.get? "tick_is_stale" = tick.map fun t => .bool t.isStale
  source : stats.get? "price_source" = tick.map fun _ => .str "price_stream"
  price : ∀ t ∈ tick, stats.get? "current_price" = some (.float (close.getD (some t.mid)))

/-- The keys of a tick in the stats. -/
def tickKeys : List String :=
  ["live_price_mid", "live_price_bid", "live_price_ask", "tick_ts", "tick_snap_ts",
    "tick_age_sec", "tick_is_stale", "price_source"]

/-- Stats that keep the keys of the tick still name it. -/
theorem Names.of_keep {stats stats' : OrderedDict String (Json (Option K))}
    {tick : Option (Shown K)} {close close' : Option (Option K)} (h : Names stats tick close)
    (hkeep : ∀ name ∈ tickKeys, stats'.get? name = stats.get? name)
    (hprice : ∀ t ∈ tick, stats'.get? "current_price" = some (.float (close'.getD (some t.mid)))) :
    Names stats' tick close' where
  mid := (hkeep _ (by decide)).trans h.mid
  bid := (hkeep _ (by decide)).trans h.bid
  ask := (hkeep _ (by decide)).trans h.ask
  tickTs := (hkeep _ (by decide)).trans h.tickTs
  snapTs := (hkeep _ (by decide)).trans h.snapTs
  age := (hkeep _ (by decide)).trans h.age
  isStale := (hkeep _ (by decide)).trans h.isStale
  source := (hkeep _ (by decide)).trans h.source
  price := hprice

theorem names_tickStats (tick : Option (TickView K)) :
    Names (tickStats tick) (tick.map shown) none := by
  cases tick with
  | none => constructor <;> first | rfl | (intro t ht; cases ht)
  | some view =>
      constructor <;>
        simp [tickStats, setAll, liveFields, shown, OrderedDict.get?_set]

theorem get?_setAll_of_notMem {items : List (String × Json (Option K))}
    {d : OrderedDict String (Json (Option K))} {name : String} (h : name ∉ items.map Prod.fst) :
    (setAll items d).get? name = d.get? name := by
  induction items generalizing d with
  | nil => rfl
  | cons item items ih =>
      rw [List.map_cons, List.mem_cons, not_or] at h
      obtain ⟨hne, hrest⟩ := h
      exact (ih hrest).trans ((OrderedDict.get?_set _ _ _ _).trans (if_neg hne))

theorem mem_keys_frameItems {cfg : ProducerConfig} {last : LastRow K}
    {price : Option (Json (Option K))} {name : String}
    (h : name ∈ (frameItems cfg last price).map Prod.fst) :
    name ∈ ["current_price", "smc_df_rows", "smc_timeframe", "volume", "timestamp"] := by
  unfold frameItems at h
  cases last.volume <;> cases last.timestamp <;> simp at h ⊢ <;> tauto

/-- The last row leaves what it does not name. -/
theorem get?_frameStats {cfg : ProducerConfig} {last : LastRow K}
    {stats : OrderedDict String (Json (Option K))} {name : String}
    (h : name ∉ ["current_price", "smc_df_rows", "smc_timeframe", "volume", "timestamp"]) :
    (frameStats cfg last stats).get? name = stats.get? name :=
  get?_setAll_of_notMem fun hmem => h (mem_keys_frameItems hmem)

theorem currentPrice_frameStats (cfg : ProducerConfig) (last : LastRow K)
    (stats : OrderedDict String (Json (Option K))) :
    (frameStats cfg last stats).get? "current_price" =
      some (((last.close.map Json.float).or (stats.get? "current_price")).getD .null) := by
  unfold frameStats frameItems
  cases last.volume <;> cases last.timestamp <;> simp [setAll, OrderedDict.get?_set]

theorem names_frameStats (cfg : ProducerConfig) (last : LastRow K)
    {stats : OrderedDict String (Json (Option K))} {tick : Option (Shown K)}
    (h : Names stats tick none) : Names (frameStats cfg last stats) tick last.close := by
  apply h.of_keep
  · intro name hname
    apply get?_frameStats
    revert name
    decide
  · intro t ht
    rw [currentPrice_frameStats, h.price t ht]
    cases last.close <;> rfl

theorem names_latency {stats : OrderedDict String (Json (Option K))} {tick : Option (Shown K)}
    {close : Option (Option K)} (h : Names stats tick close) (latency : Json (Option K)) :
    Names (stats.set "smc_latency_ms" latency) tick close := by
  have hkeep : ∀ name, name ≠ "smc_latency_ms" →
      (stats.set "smc_latency_ms" latency).get? name = stats.get? name := fun name hne =>
    (OrderedDict.get?_set _ _ _ _).trans (if_neg hne)
  apply h.of_keep
  · intro name hname
    apply hkeep
    revert name
    decide
  · intro t ht
    rw [hkeep _ (by decide)]
    exact h.price t ht

section

variable [Zero K]

/-- A round that raises has no stats, any other the stats of its tick. -/
theorem roundUpdate_spec (cfg : ProducerConfig) (tick : Option (TickView K)) (round : Round K) :
    (raises cfg round = true → (roundUpdate cfg tick round).stats = none) ∧
      (raises cfg round = false → ∃ stats, (roundUpdate cfg tick round).stats = some stats ∧
        Names stats (tick.map shown) (closeOf round)) := by
  have htick := names_tickStats tick
  unfold raises roundUpdate closeOf
  cases round.frame with
  | raised => exact ⟨fun _ => rfl, fun h => by cases h⟩
  | missing => exact ⟨fun h => (by cases h), fun _ => ⟨_, rfl, htick⟩⟩
  | frame last =>
      have hframe := names_frameStats cfg last htick
      dsimp only
      cases henough : enoughRows cfg last with
      | false =>
          cases round.hint <;> exact ⟨fun h => (by cases h), fun _ => ⟨_, rfl, hframe⟩⟩
      | true =>
          have hlatency := names_latency hframe (.float (some round.latencyMs))
          cases round.hint with
          | raised => exact ⟨fun _ => rfl, fun h => by cases h⟩
          | missing => exact ⟨fun h => (by cases h), fun _ => ⟨_, rfl, hlatency⟩⟩
          | plain hint => exact ⟨fun h => (by cases h), fun _ => ⟨_, rfl, hlatency⟩⟩

end

/-- Merged over stats that name no other tick, stats that name none leave them as they are. -/
theorem fresh_update_none {old stats : OrderedDict String (Json (Option K))}
    {close : Option (Option K)} (h : Names stats none close) :
    Fresh (old.update stats) none ↔ Fresh old none := by
  have hkeep : ∀ name, stats.get? name = none →
      (old.update stats).get? name = old.get? name := fun name hname => by
    rw [OrderedDict.get?_update, hname, Option.none_or]
  have hmid := hkeep _ h.mid
  have hbid := hkeep _ h.bid
  have hask := hkeep _ h.ask
  have hts := hkeep _ h.tickTs
  have hsnap := hkeep _ h.snapTs
  have hage := hkeep _ h.age
  have hstale := hkeep _ h.isStale
  have hsource := hkeep _ h.source
  constructor
  · intro hfresh
    refine ⟨hmid ▸ hfresh.mid, hbid ▸ hfresh.bid, hask ▸ hfresh.ask, hts ▸ hfresh.tickTs,
      hsnap ▸ hfresh.snapTs, hage ▸ hfresh.age, hstale ▸ hfresh.isStale, ?_⟩
    intro hstream
    obtain ⟨t, ht, -⟩ := hfresh.source (hsource.trans hstream)
    cases ht
  · intro hfresh
    refine ⟨hmid.trans hfresh.mid, hbid.trans hfresh.bid, hask.trans hfresh.ask,
      hts.trans hfresh.tickTs, hsnap.trans hfresh.snapTs, hage.trans hfresh.age,
      hstale.trans hfresh.isStale, ?_⟩
    intro hstream
    obtain ⟨t, ht, -⟩ := hfresh.source (hsource.symm.trans hstream)
    cases ht

/-- Stats that name a tick hide the old one; the price is from the stream where no other close
was read. -/
theorem fresh_update_some {old stats : OrderedDict String (Json (Option K))} {t : Shown K}
    {close : Option (Option K)} (h : Names stats (some t) close) :
    Fresh (old.update stats) (some t) ↔ ∀ c ∈ close, c = some t.mid := by
  have hnew : ∀ {name value}, stats.get? name = some value →
      (old.update stats).get? name = some value := fun {name value} hname => by
    rw [OrderedDict.get?_update, hname, Option.some_or]
  have hprice := hnew (h.price t rfl)
  constructor
  · intro hfresh c hc
    obtain ⟨t', ht', hmid⟩ := hfresh.source (hnew h.source)
    cases ht'
    rw [hprice, Option.mem_def.mp hc] at hmid
    simpa using hmid
  · intro hclose
    refine ⟨hnew h.mid, hnew h.bid, hnew h.ask, hnew h.tickTs, hnew h.snapTs, hnew h.age,
      hnew h.isStale, ?_⟩
    intro _
    refine ⟨t, rfl, ?_⟩
    rw [hprice]
    cases close with
    | none => rfl
    | some c => rw [hclose c rfl]; rfl

section

variable [Zero K] {cfg : ProducerConfig}

/-- Where the stats name the tick that is held, they name that of a round after it exactly where
the round keeps it. -/
theorem fresh_round_iff {old : OrderedDict String (Json (Option K))} {held : Option (Shown K)}
    (hold : Fresh old held) (tick : Option (TickView K)) (round : Round K) :
    Fresh (old.update ((roundUpdate cfg tick round).stats.getD OrderedDict.empty))
        (tick.map shown) ↔
      Keeps cfg held (tick.map shown) round := by
  obtain ⟨hraises, hnames⟩ := roundUpdate_spec cfg tick round
  cases hraised : raises cfg round with
  | true =>
      rw [hraises hraised]
      constructor
      · intro hfresh
        refine ⟨fun _ => hfresh.unique hold, ?_, ?_⟩
        · intro h
          rw [hraised] at h
          cases h
        · intro h
          rw [hraised] at h
          cases h
      · intro hkeeps
        rw [hkeeps.raised hraised]
        exact hold
  | false =>
      obtain ⟨stats, hstats, hnamed⟩ := hnames hraised
      rw [hstats, Option.getD_some]
      generalize tick.map shown = v at hnamed ⊢
      cases v with
      | none =>
          rw [fresh_update_none hnamed]
          constructor
          · intro hfresh
            refine ⟨?_, fun _ _ => hold.unique hfresh, ?_⟩
            · intro h
              rw [hraised] at h
              cases h
            · intro _ t ht
              cases ht
          · intro hkeeps
            rw [← hkeeps.stays hraised rfl]
            exact hold
      | some t =>
          rw [fresh_update_some hnamed]
          constructor
          · intro hclose
            refine ⟨?_, ?_, ?_⟩
            · intro h
              rw [hraised] at h
              cases h
            · intro _ h
              cases h
            · intro _ t' ht'
              cases ht'
              exact hclose
          · intro hkeeps
            exact hkeeps.close hraised t rfl

end

theorem fresh_started (now : K) (symbol : String) :
    Fresh (statsOf (started now) symbol) none := by
  constructor <;> first | rfl | (intro h; cases h)

section

variable [Field K] [LinearOrder K] (env : TickRuntime K) (limits : TickLimits K)
  (cfg : ProducerConfig) (symbol : String)

/-- The tick that the store has for the symbol. -/
def tickShown (s : ProducerState K) : Option (Shown K) := (tickAt limits s symbol).map shown

/-- The tick of the last round of the symbol without an exception. -/
def nextHeld (s : ProducerState K) (held : Option (Shown K)) : ProducerEvent K → Option (Shown K)
  | .round round =>
    if round.symbol = symbol ∧ raises cfg round = false then tickShown limits symbol s else held
  | _ => held

/-- The state after some events, and the tick of the last round without an exception. -/
def track (s : ProducerState K) (events : List (ProducerEvent K)) :
    ProducerState K × Option (Shown K) :=
  events.foldl (fun p e => (step env limits cfg p.1 e, nextHeld limits cfg symbol p.1 p.2 e))
    (s, none)

/-- After each round of the symbol its stats name the tick that the round got. -/
def AllFresh (s : ProducerState K) (events : List (ProducerEvent K)) : Prop :=
  ∀ past round, past ++ [.round round] <+: events → round.symbol = symbol →
    Fresh (statsOf (run env limits cfg s (past ++ [.round round])) symbol)
      (tickShown limits symbol (run env limits cfg s past))

/-- Each round of the symbol keeps the tick. -/
def AllKeep (s : ProducerState K) (events : List (ProducerEvent K)) : Prop :=
  ∀ past round, past ++ [.round round] <+: events → round.symbol = symbol →
    Keeps cfg (track env limits cfg symbol s past).2
      (tickShown limits symbol (run env limits cfg s past)) round

variable {env limits cfg symbol}

theorem run_concat (s : ProducerState K) (events : List (ProducerEvent K)) (e : ProducerEvent K) :
    run env limits cfg s (events ++ [e]) = step env limits cfg (run env limits cfg s events) e := by
  unfold run
  rw [List.foldl_append]
  rfl

variable (symbol) in
theorem track_fst (s : ProducerState K) (events : List (ProducerEvent K)) :
    (track env limits cfg symbol s events).1 = run env limits cfg s events := by
  induction events using List.reverseRecOn with
  | nil => rfl
  | append_singleton events e ih =>
      rw [run_concat, ← ih]
      unfold track
      rw [List.foldl_append]
      rfl

theorem held_concat (s : ProducerState K) (events : List (ProducerEvent K)) (e : ProducerEvent K) :
    (track env limits cfg symbol s (events ++ [e])).2 =
      nextHeld limits cfg symbol (run env limits cfg s events)
        (track env limits cfg symbol s events).2 e := by
  rw [← track_fst symbol]
  unfold track
  rw [List.foldl_append]
  rfl

/-- A round merges its stats over those of its symbol and leaves the others. -/
theorem statsOf_round (s : ProducerState K) (round : Round K) :
    statsOf (step env limits cfg s (.round round)) symbol =
      if round.symbol = symbol then
        (statsOf s symbol).update
          ((roundUpdate cfg (tickAt limits s symbol) round).stats.getD OrderedDict.empty)
      else statsOf s symbol := by
  unfold statsOf assetOf step updateAsset
  dsimp only
  rw [OrderedDict.get?_set]
  by_cases h : round.symbol = symbol
  · rw [if_pos h.symm, if_pos h, ← h]
    rfl
  · rw [if_neg (Ne.symm h), if_neg h]

theorem AllKeep.of_concat {s : ProducerState K} {events : List (ProducerEvent K)}
    {e : ProducerEvent K} (h : AllKeep env limits cfg symbol s (events ++ [e])) :
    AllKeep env limits cfg symbol s events := fun past round hpast =>
  h past round (hpast.trans (List.prefix_append _ _))

/-- Where every round keeps the tick, the stats name the tick of the last round without an
exception. -/
theorem fresh_of_allKeep (now : K) {events : List (ProducerEvent K)}
    (h : AllKeep env limits cfg symbol (started now) events) :
    Fresh (statsOf (run env limits cfg (started now) events) symbol)
      (track env limits cfg symbol (started now) events).2 := by
  induction events using List.reverseRecOn with
  | nil => exact fresh_started now symbol
  | append_singleton events e ih =>
      have hold := ih h.of_concat
      rw [run_concat, held_concat]
      cases e with
      | tick payload => exact hold
      | clock time => exact hold
      | round round =>
          rw [statsOf_round]
          unfold nextHeld
          dsimp only
          by_cases hsymbol : round.symbol = symbol
          · have hkeeps := h events round List.prefix_rfl hsymbol
            have hfresh := (fresh_round_iff hold (tickAt limits
              (run env limits cfg (started now) events) symbol) round).mpr hkeeps
            rw [if_pos hsymbol]
            by_cases hraised : raises cfg round = false
            · rw [if_pos ⟨hsymbol, hraised⟩]
              exact hfresh
            · rw [if_neg fun hboth => hraised hboth.2,
                ← hkeeps.raised (Bool.eq_true_of_not_eq_false hraised)]
              exact hfresh
          · rw [if_neg hsymbol, if_neg fun hboth => hsymbol hboth.1]
            exact hold

/-- After the rounds of a run that keep the tick, one more names its tick exactly where it keeps
it as well. -/
theorem fresh_iff_keeps (now : K) {past : List (ProducerEvent K)} {round : Round K}
    (h : AllKeep env limits cfg symbol (started now) past) (hsymbol : round.symbol = symbol) :
    Fresh (statsOf (run env limits cfg (started now) (past ++ [.round round])) symbol)
        (tickShown limits symbol (run env limits cfg (started now) past)) ↔
      Keeps cfg (track env limits cfg symbol (started now) past).2
        (tickShown limits symbol (run env limits cfg (started now) past)) round := by
  rw [run_concat, statsOf_round, if_pos hsymbol]
  exact fresh_round_iff (fresh_of_allKeep now h) _ round

/-- The stats of a symbol name the tick of each of its rounds exactly in the runs in which each
round keeps the tick. -/
theorem live_price_iff (now : K) (events : List (ProducerEvent K)) :
    AllFresh env limits cfg symbol (started now) events ↔
      AllKeep env limits cfg symbol (started now) events := by
  constructor
  · intro hfresh
    have hall : ∀ past, past <+: events → AllKeep env limits cfg symbol (started now) past := by
      intro past
      induction past using List.reverseRecOn with
      | nil =>
          intro _ past' round hprefix
          exact absurd (List.prefix_nil.mp hprefix) (by simp)
      | append_singleton past e ih =>
          intro hprefix past' round hprefix' hsymbol
          have hpast := ih ((List.prefix_append past [e]).trans hprefix)
          rcases List.prefix_concat_iff.mp hprefix' with heq | hearlier
          · obtain ⟨rfl, -⟩ := List.append_inj' heq rfl
            exact (fresh_iff_keeps now hpast hsymbol).mp
              (hfresh past' round (hprefix'.trans hprefix) hsymbol)
          · exact hpast past' round hearlier hsymbol
    exact hall events List.prefix_rfl
  · intro hkeep past round hprefix hsymbol
    apply (fresh_iff_keeps now ?_ hsymbol).mpr (hkeep past round hprefix hsymbol)
    intro past' round' hprefix'
    exact hkeep past' round' (hprefix'.trans ((List.prefix_append past _).trans hprefix))

end

def tickRuntime : TickRuntime ℚ where
  toViewerRuntime := Serializers.viewerRuntime
  lower s := s
  coerceFloat
    | .int i => some i
    | .float x => x
    | _ => none

def goldTick : List (String × Json (Option ℚ)) :=
  [("symbol", .str "xauusd"), ("mid", .int 5), ("tick_ts", .int 1000)]

/-- A round that finds no bars. -/
def bareRound : Round ℚ := ⟨"xauusd", .missing, .missing, 0, ""⟩

/-- A round that finds three bars, the last of which closes at 4. -/
def shortRound : Round ℚ := ⟨"xauusd", .frame ⟨3, some (some 4), none, none⟩, .missing, 0, ""⟩

/-- With a limit of two minutes, the price of a tick is still shown after a thousand seconds
without one; and the close of a bar is shown as a price of the stream. -/
theorem old_price_is_still_shown :
    ¬ AllFresh tickRuntime ⟨15, 120⟩ ⟨"1m", 1000⟩ "xauusd" (started 1000)
        [.tick goldTick, .round bareRound, .clock 2000, .round bareRound] ∧
      ¬ AllFresh tickRuntime ⟨15, 120⟩ ⟨"1m", 1000⟩ "xauusd" (started 1000)
        [.tick goldTick, .round shortRound] := by
  constructor
  · intro h
    have hfresh := h [.tick goldTick, .round bareRound, .clock 2000] bareRound List.prefix_rfl rfl
    have hdropped : tickShown ⟨15, 120⟩ "xauusd" (run tickRuntime ⟨15, 120⟩ ⟨"1m", 1000⟩
        (started 1000) [.tick goldTick, .round bareRound, .clock 2000]) = none := by
      decide +kernel
    have hshown : ((statsOf (run tickRuntime ⟨15, 120⟩ ⟨"1m", 1000⟩ (started 1000)
        [.tick goldTick, .round bareRound, .clock 2000, .round bareRound])
          "xauusd").get? "live_price_mid").isSome = true := by
      decide +kernel
    rw [hdropped] at hfresh
    have hnone := hfresh.mid
    change ((statsOf (run tickRuntime ⟨15, 120⟩ ⟨"1m", 1000⟩ (started 1000)
        [.tick goldTick, .round bareRound, .clock 2000, .round bareRound])
          "xauusd").get? "live_price_mid") = none at hnone
    rw [hnone] at hshown
    cases hshown
  · intro h
    have hfresh := h [.tick goldTick] shortRound List.prefix_rfl rfl
    have htick : (tickShown ⟨15, 120⟩ "xauusd" (run tickRuntime ⟨15, 120⟩ ⟨"1m", 1000⟩
        (started 1000) [.tick goldTick])).map Shown.mid = some 5 := by
      decide +kernel
    have hpast : AllKeep tickRuntime ⟨15, 120⟩ ⟨"1m", 1000⟩ "xauusd" (started 1000)
        [.tick goldTick] := by
      intro past round hprefix
      have hmem := hprefix.subset (List.mem_append_right past List.mem_cons_self)
      cases List.mem_singleton.mp hmem
    have hkeeps := (fresh_iff_keeps 1000 hpast rfl).mp hfresh
    obtain ⟨t, ht, hmid⟩ := Option.map_eq_some_iff.mp htick
    have hclose := hkeeps.close (by decide) t ht _ rfl
    rw [hmid] at hclose
    revert hclose
    decide +kernel

end SmcPipeline.LivePrice
