import SmcPipeline.FiniteHint
import SmcPipeline.LiveBars
import SmcPipeline.LivePrice
import SmcPipeline.Pipeline
import SmcPipeline.ViewerNumbers

/-!
# The messages for the browser

`json_dumps` writes NaN and the infinities as they are, and nothing on the way of the prices of a
bar filters them. So a bar without a close is seen by the browser; but where the prices of all bars
are numbers, so is every float of a message, whatever the ticks and the volumes are.
-/

namespace SmcPipeline.StrictMessages

open Candles FxcmIngestor JsonText SmcPublisher SmcEngine CleanHints PublishedNumbers
  ViewerNumbers Rounding Runs Pipeline
open SmcProducer hiding step run

variable {K : Type*}

/-- The prices of a bar are numbers; its volume may be anything. -/
structure FinitePrices (bar : Bar (PyFloat K)) : Prop where
  opn : IsNumber bar.opn
  high : IsNumber bar.high
  low : IsNumber bar.low
  close : IsNumber bar.close

/-- The bars that the ingestor keeps, in its caches and in the store, have such prices. -/
structure FiniteIngestor (st : IngestorState (PyFloat K) (Key → List (Bar (PyFloat K)))) :
    Prop where
  live : ∀ key bar, (st.live key).live = some bar → FinitePrices bar
  stored : ∀ key, ∀ bar ∈ st.store key, FinitePrices bar

theorem finite_ingestBars {sorter : OpenTimeSort (PyFloat K)} {stored : Bool} {pair : Key}
    {bars : List (IncomingBar (PyFloat K))}
    {st : IngestorState (PyFloat K) (Key → List (Bar (PyFloat K)))} (hst : FiniteIngestor st)
    (hbars : ∀ b ∈ bars, FinitePrices b.row) :
    FiniteIngestor (ingestBars sorter (putRows stored) pair bars st).2 := by
  obtain ⟨hrows, hcache⟩ := LiveBars.forall_acceptBars (hst.live pair) hbars
  have hlive : ∀ key bar, (Function.update st.live pair
      (acceptBars (st.live pair) bars).1 key).live = some bar → FinitePrices bar := by
    intro key bar hbar
    rw [Function.update_apply] at hbar
    split_ifs at hbar
    · exact hcache bar hbar
    · exact hst.live key bar hbar
  unfold ingestBars
  dsimp only
  split_ifs
  · exact ⟨hlive, hst.stored⟩
  · cases hdf : barsPayloadToDf sorter ((acceptBars (st.live pair) bars).2.map Prod.fst) with
    | none => exact ⟨hlive, hst.stored⟩
    | some df =>
        have hdfRows : ∀ bar ∈ df.rows, FinitePrices bar := by
          unfold barsPayloadToDf at hdf
          split_ifs at hdf
          cases hdf
          exact fun bar hbar => hrows bar ((sorter.perm _).mem_iff.mp hbar)
        have hstored : ∀ key, ∀ bar ∈ Function.update st.store pair (st.store pair ++ df.rows) key,
            FinitePrices bar := by
          intro key bar hbar
          rw [Function.update_apply] at hbar
          split_ifs at hbar
          · rcases List.mem_append.mp hbar with hbar | hbar
            · exact hst.stored pair bar hbar
            · exact hdfRows bar hbar
          · exact hst.stored key bar hbar
        cases stored with
        | false => exact ⟨hlive, hstored⟩
        | true => exact ⟨hlive, hstored⟩

theorem complete_rawBar {bar : Bar (PyFloat K)} (h : FinitePrices bar) :
    ∃ row, rawBar bar = some row ∧ FiniteHint.Complete row := by
  obtain ⟨⟨opn, hopn⟩, ⟨high, hhigh⟩, ⟨low, hlow⟩, ⟨close, hclose⟩⟩ := h
  refine ⟨⟨some bar.openTime, some opn, some high, some low, some close⟩, ?_,
    ⟨opn, rfl⟩, ⟨high, rfl⟩, ⟨low, rfl⟩, ⟨close, rfl⟩⟩
  unfold rawBar
  rw [hopn, hhigh, hlow, hclose]
  rfl

theorem complete_mapM_rawBar {rows : List (Bar (PyFloat K))}
    (h : ∀ bar ∈ rows, FinitePrices bar) :
    ∃ raws, rows.mapM rawBar = some raws ∧ ∀ row ∈ raws, FiniteHint.Complete row := by
  induction rows with
  | nil => exact ⟨[], rfl, by simp⟩
  | cons bar rows ih =>
      obtain ⟨hbar, hrows⟩ := List.forall_mem_cons.mp h
      obtain ⟨row, hrow, hcomplete⟩ := complete_rawBar hbar
      obtain ⟨raws, hraws, hall⟩ := ih hrows
      refine ⟨row :: raws, ?_, List.forall_mem_cons.mpr ⟨hcomplete, hall⟩⟩
      rw [List.mapM_cons, hrow, hraws]
      rfl

section

variable (u : PipelineSetup K)

/-- The bars of a packet that passes all gates. -/
def acceptedBars (packet : Packet (PyFloat K)) : List (IncomingBar (PyFloat K)) :=
  match shape u.env packet.payload with
  | none => []
  | some (symbol, interval, bars) =>
    if packetGate u.env u.hmac packet.payload symbol interval bars = .pass ∧
        (u.allowedPairs.map fun pairs => pairs.contains (pairOf u.env symbol interval)) ≠
          some false ∧
        (isIngestAllowedByStatus u.env packet.status).1 = true then
      bars.filterMap (incomingBar u.env)
    else []

/-- A packet that does not pass changes nothing. -/
theorem processPayload_cases {σ : Type*}
    (put : Key → Frame (PyFloat K) → σ → σ × Bool) (packet : Packet (PyFloat K))
    (st : IngestorState (PyFloat K) σ) :
    (processPayload u.env u.sorter put u.hmac u.allowedPairs packet st).2 = st ∨
      ∃ pair, (processPayload u.env u.sorter put u.hmac u.allowedPairs packet st).2 =
        (ingestBars u.sorter put pair (acceptedBars u packet) st).2 := by
  unfold acceptedBars
  cases hshape : shape u.env packet.payload with
  | none => exact Or.inl (processPayload_of_no_shape u.env _ _ _ _ _ hshape st).1
  | some parts =>
      obtain ⟨symbol, interval, bars⟩ := parts
      unfold processPayload
      rw [hshape]
      dsimp only
      cases hgate : packetGate u.env u.hmac packet.payload symbol interval bars with
      | reject => exact Or.inl rfl
      | raise => exact Or.inl rfl
      | pass =>
          by_cases hpair : (u.allowedPairs.map fun pairs =>
              pairs.contains (pairOf u.env symbol interval)) = some false
          · rw [if_pos hpair]
            exact Or.inl rfl
          · rw [if_neg hpair]
            cases hstatus : (isIngestAllowedByStatus u.env packet.status).1 with
            | false => exact Or.inl rfl
            | true =>
                refine Or.inr ⟨pairOf u.env symbol interval, ?_⟩
                rw [if_neg (by decide), if_pos ⟨rfl, hpair, rfl⟩]

theorem finite_processPayload {packet : Packet (PyFloat K)} (stored : Bool)
    {st : IngestorState (PyFloat K) (Key → List (Bar (PyFloat K)))} (hst : FiniteIngestor st)
    (hbars : ∀ bar ∈ acceptedBars u packet, FinitePrices bar.row) :
    FiniteIngestor
      (processPayload u.env u.sorter (putRows stored) u.hmac u.allowedPairs packet st).2 := by
  rcases processPayload_cases u (putRows stored) packet st with heq | ⟨pair, heq⟩
  · rw [heq]
    exact hst
  · rw [heq]
    exact finite_ingestBars hst hbars

end

theorem cleanField_of_notMem {name : String} (h : name ∉ "smc_hint" :: shownKeys)
    (v : Json (PyFloat K)) : CleanField name v := by
  obtain ⟨hhint, hshown⟩ := not_or.mp (fun hmem => h (List.mem_cons.mpr hmem))
  exact ⟨fun heq => absurd heq hhint, hshown⟩

theorem cleanFields_of_names {items : Items K} (names : List String)
    (hitems : items.map Prod.fst = names) (h : ∀ name ∈ names, name ∉ "smc_hint" :: shownKeys) :
    ∀ item ∈ items, CleanField item.1 item.2 := by
  intro item hitem
  apply cleanField_of_notMem
  apply h
  rw [← hitems]
  exact List.mem_map_of_mem hitem

theorem cleanStat_of_notMem {name : String} (h : name ∉ "smc_hint" :: statKeys)
    (v : Json (PyFloat K)) : CleanStat name v := by
  obtain ⟨hhint, hstat⟩ := not_or.mp (fun hmem => h (List.mem_cons.mpr hmem))
  exact ⟨fun hmem => absurd hmem hstat, hhint⟩

/-- Items whose names are not read may hold any float. -/
theorem cleanStats_of_names {items : Items K} (names : List String)
    (hitems : items.map Prod.fst = names) (h : ∀ name ∈ names, name ∉ "smc_hint" :: statKeys) :
    ∀ item ∈ items, CleanStat item.1 item.2 := by
  intro item hitem
  apply cleanStat_of_notMem
  apply h
  rw [← hitems]
  exact List.mem_map_of_mem hitem

theorem clean_tickStats (view : Option (TickView K)) :
    (tickStats (view.map liftView)).Every CleanStat := by
  cases view with
  | none => exact OrderedDict.every_empty _
  | some view =>
      have hfields : ∀ item ∈ liveFields (liftView view), CleanStat item.1 item.2 :=
        cleanStats_of_names ["live_price_mid", "live_price_bid", "live_price_ask", "tick_ts",
          "tick_snap_ts", "tick_age_sec", "tick_is_stale"] rfl (by decide)
      have hmid : CleanStat "current_price" (.float (some (.num view.tick.mid))) :=
        ⟨fun _ => Or.inr ⟨_, rfl, _, rfl⟩, by decide⟩
      have hsource : ∀ item ∈ ([("price_source", .str "price_stream")] : Items K),
          CleanStat item.1 item.2 := cleanStats_of_names ["price_source"] rfl (by decide)
      exact every_setAll (OrderedDict.every_empty _)
        (List.forall_mem_append.mpr ⟨hfields, List.forall_mem_cons.mpr ⟨hmid, hsource⟩⟩)

theorem clean_frameStats {cfg : ProducerConfig} {last : LastRow (Extended K)} {stats : Dict K}
    (hclose : ∀ close ∈ last.close, IsNumber close) (hstats : stats.Every CleanStat) :
    (frameStats cfg last stats).Every CleanStat := by
  have hprice : CleanStat "current_price"
      (((last.close.map Json.float).or (stats.get? "current_price")).getD .null) := by
    refine ⟨fun _ => ?_, by decide⟩
    cases hlast : last.close with
    | some close => exact Or.inr ⟨close, rfl, hclose close hlast⟩
    | none =>
        rcases getItem_cases hstats "current_price" with hnull | ⟨hstat, -⟩
        · exact Or.inl hnull
        · exact hstat (by decide)
  have hrows : ∀ item ∈ ([("smc_df_rows", .int last.rows), ("smc_timeframe", .str cfg.timeframe)] :
      Items K), CleanStat item.1 item.2 :=
    cleanStats_of_names ["smc_df_rows", "smc_timeframe"] rfl (by decide)
  have hvolume : "volume" ∉ "smc_hint" :: statKeys := by decide
  have htimestamp : "timestamp" ∉ "smc_hint" :: statKeys := by decide
  apply every_setAll hstats
  unfold frameItems
  rw [List.forall_mem_append, List.forall_mem_append, List.forall_mem_cons]
  refine ⟨⟨⟨hprice, hrows⟩, ?_⟩, ?_⟩
  · intro item hitem
    obtain ⟨volume, -, rfl⟩ := Option.map_eq_some_iff.mp (Option.mem_toList.mp hitem)
    exact cleanStat_of_notMem hvolume _
  · intro item hitem
    obtain ⟨timestamp, -, rfl⟩ := Option.map_eq_some_iff.mp (Option.mem_toList.mp hitem)
    exact cleanStat_of_notMem htimestamp _

/-- What a round hands to the manager. -/
structure CleanUpdate (updates : AssetUpdate (Extended K)) : Prop where
  stats : ∀ d ∈ updates.stats, d.Every CleanStat
  fields : ∀ item ∈ updates.fields, CleanField item.1 item.2

theorem clean_update {stats : Option (Dict K)} {more : Items K} (signal state hints : String)
    (hstats : ∀ d ∈ stats, d.Every CleanStat) (hmore : ∀ item ∈ more, CleanField item.1 item.2) :
    CleanUpdate (update signal state stats hints more) := by
  have hstate : ∀ item ∈ ([("signal", .str signal), ("state", .str state)] : Items K),
      CleanField item.1 item.2 := cleanFields_of_names ["signal", "state"] rfl (by decide)
  have hhints : ∀ item ∈ ([("hints", .arr [.str hints])] : Items K), CleanField item.1 item.2 :=
    cleanFields_of_names ["hints"] rfl (by decide)
  constructor
  · exact hstats
  · exact List.forall_mem_append.mpr ⟨List.forall_mem_append.mpr ⟨hstate, hmore⟩, hhints⟩

theorem clean_initAsset (symbol : String) :
    CleanManaged (SmcProducer.initAsset symbol : SmcAsset K) := by
  have hstate : ∀ item ∈ ([("symbol", .str symbol), ("state", .str "init"),
      ("signal", .str "SMC_NONE")] : Items K), CleanField item.1 item.2 :=
    cleanFields_of_names ["symbol", "state", "signal"] rfl (by decide)
  have hhint : CleanField "smc_hint" (.null : Json (PyFloat K)) := ⟨fun _ => clean_null, by decide⟩
  have hhints : ∀ item ∈ ([("hints", .arr [.str "Очікування SMC даних..."])] : Items K),
      CleanField item.1 item.2 := cleanFields_of_names ["hints"] rfl (by decide)
  unfold SmcProducer.initAsset
  constructor
  · exact OrderedDict.every_empty _
  · dsimp only
    refine every_setAll (OrderedDict.every_empty _) ?_
    exact List.forall_mem_append.mpr ⟨hstate, List.forall_mem_cons.mpr ⟨hhint, hhints⟩⟩

theorem clean_updateAsset {symbol : String} {updates : AssetUpdate (Extended K)}
    {manager : OrderedDict String (SmcAsset K)} (hmanager : CleanManager manager)
    (hupdates : CleanUpdate updates) : CleanManager (updateAsset symbol updates manager) := by
  have hcurrent : CleanManaged (assetOf manager symbol) := by
    unfold assetOf
    cases hget : manager.get? symbol with
    | none => exact clean_initAsset symbol
    | some asset => exact hmanager _ (OrderedDict.mem_items_of_get? hget)
  refine OrderedDict.every_set hmanager ⟨OrderedDict.every_update hcurrent.stats ?_, ?_⟩
  · cases hstats : updates.stats with
    | none => exact OrderedDict.every_empty _
    | some d => exact hupdates.stats d hstats
  · have hsymbol : "symbol" ∉ "smc_hint" :: shownKeys := by decide
    exact OrderedDict.every_set (every_setAll hcurrent.fields hupdates.fields)
      (cleanField_of_notMem hsymbol _)

theorem everyFloat_liftItems (items : List (String × Json K)) :
    EveryFloat IsNumber (.obj (liftItems items)) := by
  refine everyFloat_obj.mpr (List.forall_mem_map.mpr fun item _ => ?_)
  exact everyFloat_mapFloats.mpr fun x _ => ⟨x, rfl⟩

/-- The state of the broadcaster has no other floats than numbers. -/
structure CleanViewer (viewer : BroadcasterState (PyFloat K)) : Prop where
  caches : CleanCaches IsNumber viewer.caches
  snapshot : CleanStates IsNumber viewer.snapshot

theorem isJson_jsonDumps {j : Json (PyFloat K)} (h : EveryFloat IsNumber j) :
    IsJson (jsonDumps j) :=
  (jsonDumps_spec j).1.mpr ((jsonDumps_spec j).2.mpr h)

theorem isJson_snapshotText {states : OrderedDict String (Items K)}
    (h : CleanStates IsNumber states) : IsJson (snapshotText states) :=
  isJson_jsonDumps (everyFloat_obj.mpr (List.forall_mem_map.mpr h))

theorem isJson_messageText {symbol : String} {viewer : Items K}
    (h : EveryFloat IsNumber (.obj viewer)) : IsJson (messageText symbol viewer) := by
  refine isJson_jsonDumps (everyFloat_obj.mpr ?_)
  simp only [List.forall_mem_cons]
  exact ⟨everyFloat_str _, h, by simp⟩

/-- A payload that can be read gives texts that are strict JSON. -/
theorem clean_processSmcPayload (u : PipelineSetup K) {payload : Json (PyFloat K)}
    {viewer : BroadcasterState (PyFloat K)}
    (hpayload : CleanPayload IsNumber payload) (hviewer : CleanViewer viewer) :
    CleanViewer (processSmcPayload u payload viewer).1 ∧
      ∀ text ∈ (processSmcPayload u payload viewer).2, IsJson text := by
  obtain ⟨hbuilt, hcaches⟩ := clean_buildViewerStatesFromPayload u.publisher.float_float
    hpayload hviewer.caches
  unfold processSmcPayload
  dsimp only
  split
  · exact ⟨⟨hcaches, hviewer.snapshot⟩, by simp⟩
  · rename_i states hstates
    have hclean : CleanStates IsNumber states := hbuilt states hstates
    split_ifs
    · exact ⟨⟨hcaches, hviewer.snapshot⟩, by simp⟩
    · have hsnapshot : CleanStates IsNumber (viewer.snapshot.update states) :=
        OrderedDict.every_update hviewer.snapshot hclean
      refine ⟨⟨hcaches, hsnapshot⟩, List.forall_mem_cons.mpr ⟨isJson_snapshotText hsnapshot, ?_⟩⟩
      exact List.forall_mem_map.mpr fun item hitem => isJson_messageText (hclean item hitem)

/-- Every place where a price is kept. -/
structure StrictState (s : Pipeline K) : Prop where
  ingestor : FiniteIngestor s.ingestor
  manager : CleanManager s.manager
  payloads : ∀ payload ∈ s.payloads, CleanPayload IsNumber payload
  viewer : CleanViewer s.viewer
  texts : ∀ text ∈ s.texts, IsJson text

theorem strict_start (now : K) : StrictState (start now) where
  ingestor := ⟨fun key bar h => (by cases h), fun key => by simp [start]⟩
  manager := OrderedDict.every_empty _
  payloads := by simp [start]
  viewer := ⟨fun symbol c hc => (by cases hc), OrderedDict.every_empty _⟩
  texts := by simp [start]

section

variable [Field K]

theorem clean_errorUpdate (error : String) :
    CleanUpdate (errorUpdate error : AssetUpdate (Extended K)) := by
  apply clean_update
  · intro d hd
    cases hd
  · exact cleanFields_of_names ["trigger_reasons", "confidence", "visible"] rfl (by decide)

/-- What a round hands over is clean if the close of its frame and its hint are. -/
theorem clean_roundUpdate {cfg : ProducerConfig} {view : Option (TickView K)}
    {round : Round (Extended K)}
    (hclose : ∀ last, round.frame = .frame last → ∀ close ∈ last.close, IsNumber close)
    (hhint : ∀ hint, round.hint = .plain hint → Clean hint) :
    CleanUpdate (roundUpdate cfg (view.map liftView) round) := by
  have hsome : ∀ {stats : Dict K}, stats.Every CleanStat →
      ∀ d ∈ some stats, d.Every CleanStat := by
    rintro stats hstats d ⟨⟩
    exact hstats
  have hnone : ∀ item ∈ ([] : Items K), CleanField item.1 item.2 := by simp
  have hstats := clean_tickStats view
  unfold roundUpdate
  cases hframe : round.frame with
  | raised => exact clean_errorUpdate _
  | missing => exact clean_update _ _ _ (hsome hstats) hnone
  | frame last =>
      have hframeStats : (frameStats cfg last (tickStats (view.map liftView))).Every CleanStat :=
        clean_frameStats (hclose last hframe) hstats
      have hname : "smc_latency_ms" ∉ "smc_hint" :: statKeys := by decide
      have hlatency := OrderedDict.every_set hframeStats
        (cleanStat_of_notMem hname (.float (some round.latencyMs)))
      dsimp only
      split_ifs
      · cases hread : round.hint with
        | raised => exact clean_errorUpdate _
        | missing => exact clean_update _ _ _ (hsome hlatency) hnone
        | plain hint =>
            have hfield : CleanField "smc_hint" hint := ⟨fun _ => hhint hint hread, by decide⟩
            exact clean_update _ _ _ (hsome hlatency) (List.forall_mem_singleton.mpr hfield)
      · exact clean_update _ _ _ (hsome hframeStats) hnone

variable [LinearOrder K] [FloorRing K] (u : PipelineSetup K)

/-- The hint of such rows is clean. -/
theorem clean_hintRead {input : RoundInput K}
    (h : ∀ bar ∈ input.snapshot.getD [], FinitePrices bar) {hint : Json (PyFloat K)}
    (hhint : hintRead u input = .plain hint) : Clean hint := by
  unfold hintRead at hhint
  cases hsnapshot : input.snapshot with
  | none =>
      rw [hsnapshot] at hhint
      cases hhint
  | some rows =>
      rw [hsnapshot, Option.getD_some] at h
      rw [hsnapshot] at hhint
      dsimp only at hhint
      obtain ⟨raws, hraws, hcomplete⟩ := complete_mapM_rawBar h
      rw [hraws] at hhint
      dsimp only at hhint
      cases hprocess : processSnapshot u.lower u.core (snapshotOf input.symbol u.tfPrimary raws)
          input.history input.utcnow with
      | none =>
          rw [hprocess] at hhint
          cases hhint
      | some core =>
          rw [hprocess] at hhint
          cases hhint
          refine clean_hint hprocess fun row hrow => hcomplete row ?_
          exact (List.mem_filter.mp ((KeyedRows.mem_sortBy InputAdapter.timeKey).mp hrow)).1

theorem clean_roundOf {input : RoundInput K} (view : Option (TickView K))
    (hframe : ∀ bar ∈ input.frame.getD [], FinitePrices bar)
    (hsnapshot : ∀ bar ∈ input.snapshot.getD [], FinitePrices bar) :
    CleanUpdate (roundUpdate u.producer (view.map liftView) (roundOf u input)) := by
  refine clean_roundUpdate ?_ fun hint hhint => clean_hintRead u hsnapshot hhint
  intro last hlast close hclose
  unfold roundOf frameRead at hlast
  cases hrows : input.frame with
  | none =>
      rw [hrows] at hlast
      cases hlast
  | some rows =>
      rw [hrows, Option.getD_some] at hframe
      rw [hrows] at hlast
      dsimp only at hlast
      cases hget : rows.getLast? with
      | none =>
          rw [hget] at hlast
          cases hlast
      | some row =>
          rw [hget] at hlast
          cases hlast
          cases hclose
          exact (hframe row (List.mem_of_getLast? hget)).close

theorem clean_localPipelineStats (bars minReady target : ℤ) :
    ∀ item ∈ (localPipelineStats bars minReady target : Items K), CleanStat item.1 item.2 := by
  have hratio : ∀ share : K, CleanStat "pipeline_ready_ratio" (.float (some (.num share))) :=
    fun share => ⟨fun _ => Or.inr ⟨_, rfl, share, rfl⟩, by decide⟩
  have hcounts : ∀ (state : String) (ready target required : ℤ),
      ∀ item ∈ ([("pipeline_state_local", .str state), ("pipeline_ready_bars", .int ready),
        ("pipeline_required_bars", .int target),
        ("pipeline_required_bars_min", .int required)] : Items K), CleanStat item.1 item.2 :=
    fun state ready target required =>
      cleanStats_of_names ["pipeline_state_local", "pipeline_ready_bars", "pipeline_required_bars",
        "pipeline_required_bars_min"] rfl (by decide)
  exact List.forall_mem_append.mpr
    ⟨hcounts _ _ _ _, List.forall_mem_singleton.mpr (hratio _)⟩

theorem clean_applyLocalPipelineStats {lower : String → String}
    {bars minReady target : String → ℤ} {manager : OrderedDict String (SmcAsset K)}
    (hmanager : CleanManager manager) :
    CleanManager (applyLocalPipelineStats lower bars minReady target manager) := by
  unfold applyLocalPipelineStats
  refine OrderedDict.every_foldl_set hmanager (List.forall_mem_map.mpr fun item hitem => ?_)
  have hasset : CleanManaged item.2 := hmanager item hitem
  dsimp only
  constructor
  · apply every_setAll hasset.stats
    exact clean_localPipelineStats (bars (lower item.1)) (minReady (lower item.1))
      (target (lower item.1))
  · exact hasset.fields

/-- The prices of all bars that the ingestor accepts are numbers. -/
def AcceptsFinite : PipelineEvent K → Prop
  | .packet packet _ => ∀ bar ∈ acceptedBars u packet, FinitePrices bar.row
  | _ => True

/-- The rows of a round have the prices of the rows of the store. -/
theorem finite_of_readsStore {s : Pipeline K} {input : RoundInput K} (hs : StrictState s)
    (h : readsStore u s input = true) :
    (∀ bar ∈ input.frame.getD [], FinitePrices bar) ∧
      ∀ bar ∈ input.snapshot.getD [], FinitePrices bar := by
  simp only [readsStore, Bool.and_eq_true, List.all_eq_true, decide_eq_true_eq] at h
  exact ⟨fun bar hbar => hs.ingestor.stored _ bar (h.1 bar hbar),
    fun bar hbar => hs.ingestor.stored _ bar (h.2 bar hbar)⟩

/-- Each event keeps the prices numbers in every place. -/
theorem strict_step {s t : Pipeline K} {e : PipelineEvent K} (hs : StrictState s)
    (hok : AcceptsFinite u e) (h : step u s e = some t) : StrictState t := by
  cases e with
  | packet packet stored =>
      cases h
      exact { hs with ingestor := finite_processPayload u stored hs.ingestor hok }
  | tick payload =>
      cases h
      exact { hs with }
  | clock now =>
      cases h
      exact { hs with }
  | round input =>
      unfold step at h
      dsimp only at h
      split_ifs at h with henabled
      cases h
      obtain ⟨-, hreads⟩ := Bool.and_eq_true_iff.mp henabled
      obtain ⟨hframe, hsnapshot⟩ := finite_of_readsStore u hs hreads
      exact { hs with manager := clean_updateAsset hs.manager (clean_roundOf u _ hframe hsnapshot) }
  | initAsset symbol =>
      unfold step at h
      dsimp only at h
      split_ifs at h
      cases h
      exact { hs with manager := OrderedDict.every_set hs.manager (clean_initAsset symbol) }
  | removeAsset symbol =>
      unfold step at h
      dsimp only at h
      split_ifs at h
      cases h
      exact { hs with manager := OrderedDict.every_erase hs.manager symbol }
  | localStats bars minReady target =>
      unfold step at h
      dsimp only at h
      split_ifs at h
      cases h
      exact { hs with manager := clean_applyLocalPipelineStats hs.manager }
  | publish items fxcm taken =>
      unfold step at h
      dsimp only at h
      split_ifs at h
      split at h
      · cases h
        exact { hs with }
      · rename_i manager payload hpublished
        cases h
        obtain ⟨hmanager, hpayload⟩ := clean_publishSmcState u.publisher
          (everyFloat_liftItems items) (everyFloat_liftItems fxcm) hs.manager hpublished
        refine { hs with
          manager := hmanager
          payloads := ?_ }
        change ∀ j ∈ notePayload taken (sortKeys payload) s.payloads, CleanPayload IsNumber j
        unfold notePayload
        split_ifs
        · exact List.forall_mem_append.mpr
            ⟨hs.payloads, List.forall_mem_singleton.mpr (cleanPayload_sortKeys hpayload)⟩
        · exact hs.payloads
  | broadcast index =>
      obtain ⟨payload, hpayload, heq⟩ := Option.map_eq_some_iff.mp h
      cases heq
      obtain ⟨hviewer, htexts⟩ := clean_processSmcPayload u
        (hs.payloads payload (List.mem_of_getElem? hpayload)) hs.viewer
      exact { hs with
        viewer := hviewer
        texts := List.forall_mem_append.mpr ⟨hs.texts, htexts⟩ }

theorem strict_run {s t : Pipeline K} {events : List (PipelineEvent K)}
    (h : Run (step u) (fun _ e => AcceptsFinite u e) s events t) (hs : StrictState s) :
    StrictState t :=
  h.invariant (fun _ _ _ hs hok hst => strict_step u hs hok hst) hs

/-- A float that is no number is written as a word that JSON does not have; and where the prices
of all bars that the ingestor accepts are numbers, every text for the browser is strict JSON. -/
theorem texts_are_strict {now : K} {events : List (PipelineEvent K)} {s : Pipeline K}
    (h : Run (step u) (fun _ e => AcceptsFinite u e) (start now) events s) :
    (∀ j : Json (PyFloat K), IsJson (jsonDumps j) ↔ EveryFloat IsNumber j) ∧
      ∀ text ∈ s.texts, IsJson text ∧ Strict text := by
  refine ⟨fun j => (jsonDumps_spec j).1.trans (jsonDumps_spec j).2, fun text htext => ?_⟩
  have hjson := (strict_run u h (strict_start now)).texts text htext
  exact ⟨hjson, strict_of_isJson hjson⟩

end

section FixedInputs

instance (x : PyFloat K) : Decidable (IsNumber x) :=
  match x with
  | none => isFalse (by simp [IsNumber])
  | some (.num r) => isTrue ⟨r, rfl⟩
  | some .inf => isFalse (by simp [IsNumber])
  | some .negInf => isFalse (by simp [IsNumber])

instance (bar : Bar (PyFloat K)) : Decidable (FinitePrices bar) :=
  decidable_of_iff
    (IsNumber bar.opn ∧ IsNumber bar.high ∧ IsNumber bar.low ∧ IsNumber bar.close)
    ⟨fun ⟨hopn, hhigh, hlow, hclose⟩ => ⟨hopn, hhigh, hlow, hclose⟩,
      fun ⟨hopn, hhigh, hlow, hclose⟩ => ⟨hopn, hhigh, hlow, hclose⟩⟩

instance [Field K] [LinearOrder K] [FloorRing K] (u : PipelineSetup K) (e : PipelineEvent K) :
    Decidable (AcceptsFinite u e) :=
  match e with
  | .packet packet _ =>
    inferInstanceAs (Decidable (∀ bar ∈ acceptedBars u packet, FinitePrices bar.row))
  | .tick _ | .clock _ | .round _ | .initAsset _ | .removeAsset _ | .localStats _ _ _
  | .publish _ _ _ | .broadcast _ => isTrue trivial

def lowerText (s : String) : String := String.ofList (s.toList.map Char.toLower)

/-- A price that is not negative, with `n` decimals. -/
def fixedText (n : ℕ) : PyFloat ℚ → String
  | none => "nan"
  | some .inf => "inf"
  | some .negInf => "-inf"
  | some (.num x) =>
    let scaled := (roundHalfEven (x * 10 ^ n)).toNat
    String.ofList (Nat.toDigits 10 (scaled / 10 ^ n) ++
      if n = 0 then [] else '.' :: Calendar.digits n (scaled % 10 ^ n))

def exactFloat : Json (PyFloat ℚ) → Converted (PyFloat ℚ)
  | .bool b => .value (some (.num b.toNat))
  | .int i => .value (some (.num i))
  | .float x => .value x
  | _ => .rejected

def exactInt : Json (PyFloat ℚ) → Converted ℤ
  | .bool b => .value b.toNat
  | .int i => .value i
  | .float (some (.num x)) => .value (x.num.tdiv x.den)
  | .float (some _) => .overflow
  | _ => .rejected

def valueOnly {α : Type} : Converted α → Option α
  | .value a => some a
  | _ => none

def textOnly : Json (PyFloat ℚ) → String
  | .str s => s
  | _ => ""

/-- Exact arithmetic, with the defaults of the settings. -/
def exactSetup : PipelineSetup ℚ where
  env :=
    { isZero := fun x => decide (x = some (.num 0))
      tooDeep := fun _ => false
      str := textOnly
      lower := lowerText
      int := fun v => valueOnly (exactInt v)
      float := fun v => valueOnly (exactFloat v)
      jsonDumps := fun _ => .failed
      hmacHexdigest := fun _ _ _ => .failed
      tooDeep_str := fun _ => rfl
      lower_empty := by decide
      int_int := fun _ => rfl
      float_float := fun _ => rfl }
  sorter := ⟨KeyedRows.sortBy Bar.openTime, KeyedRows.sortBy_perm Bar.openTime,
    KeyedRows.sortBy_pairwise Bar.openTime⟩
  hmac := ⟨none, "sha256", false⟩
  allowedPairs := none
  ticks := LivePrice.tickRuntime
  limits := ⟨15, 120⟩
  producer := ⟨"1m", 1000⟩
  lower := lowerText
  core := smcCoreConfig ℚ
  tfPrimary := "1m"
  publisher :=
    { isZero := fun x => decide (x = some (.num 0))
      str := textOnly
      upper := fun s => String.ofList (s.toList.map Char.toUpper)
      int := exactInt
      float := exactFloat
      fromisoformat := Serializers.readIso
      int_int := fun _ => rfl
      log10 := fun _ => 0
      fixed := fixedText
      float_float := fun _ => rfl }
  channel := "ai_one:ui:smc_state"

/-- A packet with one bar. -/
def barPacket (close : PyFloat ℚ) : Packet (PyFloat ℚ) where
  status := ⟨some "open", some "ok", some "ok"⟩
  payload :=
    [("symbol", .str "XAUUSD"), ("tf", .str "1m"),
      ("bars", .arr [.obj
        [("open_time", .int 60000), ("close_time", .int 119999), ("open", .int 5),
          ("high", .int 5), ("low", .int 5), ("close", .float close), ("volume", .int 1)]])]

/-- The bar comes, the producer comes to its symbol and publishes, and the broadcaster reads. -/
def oneBar (close : PyFloat ℚ) : List (PipelineEvent ℚ) :=
  [.packet (barPacket close) true,
    .round ⟨"xauusd",
      some [⟨60000, some (.num 5), some (.num 5), some (.num 5), close, some (.num 1), 119999,
        none⟩],
      none, OrderedDict.empty, 0, .missing, 1, ""⟩,
    .publish [] [] true, .broadcast 0]

/-- A bar that closes at NaN is shown as NaN. -/
theorem nan_close_is_published :
    ¬ ∀ (u : PipelineSetup ℚ) (events : List (PipelineEvent ℚ)) (s : Pipeline ℚ),
        Run (step u) (fun _ _ => True) (start 0) events s →
        ∀ text ∈ s.texts, IsJson text ∧ Strict text := by
  intro h
  obtain ⟨s, hrun, hnan⟩ := Run.exists_of_checked (step exactSetup) (fun _ _ => True) (start 0)
    (oneBar none) (fun s => s.texts.any fun text => text.contains .nan) (by decide +kernel)
  obtain ⟨text, htext, hword⟩ := List.any_eq_true.mp hnan
  have hmem : Token.nan ∈ text := by simpa using hword
  exact (h exactSetup (oneBar none) s hrun text htext).2 _ hmem trivial

theorem number_close_is_strict :
    ∃ s : Pipeline ℚ, Run (step exactSetup) (fun _ e => AcceptsFinite exactSetup e) (start 0)
        (oneBar (some (.num 5))) s ∧ s.texts ≠ [] ∧
      ∀ text ∈ s.texts, IsJson text ∧ Strict text := by
  obtain ⟨s, hrun, htexts⟩ := Run.exists_of_checked (step exactSetup)
    (fun _ e => AcceptsFinite exactSetup e) (start 0) (oneBar (some (.num 5)))
    (fun s => !s.texts.isEmpty) (by decide +kernel)
  exact ⟨s, hrun, by simpa using htexts, (texts_are_strict exactSetup hrun).2⟩

end FixedInputs

end SmcPipeline.StrictMessages
