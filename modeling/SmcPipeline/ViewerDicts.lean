import SmcPipeline.JsonReader
import SmcPipeline.ViewerBroadcaster

/-!
# The viewer states are dicts

`build_viewer_state` makes dicts of names that it writes itself and of parts of what it is given.
So if no name occurs twice in the payload or in the caches, none does in the states, and their text
can be read back.
-/

namespace SmcPipeline.ViewerDicts

open JsonText JsonReader FxcmIngestor Serialization ViewerStateBuilder ViewerBroadcaster CleanHints

variable {F : Type*}

theorem unique_get {fields : List (String × Json F)} (h : UniqueNames (.obj fields))
    (name : String) : UniqueNames (ViewerStateBuilder.get fields name) := by
  rcases get_cases fields name with hnull | hmem
  · rw [hnull]
    exact uniqueNames_null
  · exact (uniqueNames_obj.mp h).2 _ hmem

theorem unique_empty : UniqueNames (.obj [] : Json F) := by simp

theorem unique_coerceDict {v : Json F} (h : UniqueNames v) :
    UniqueNames (.obj (coerceDict v)) := by
  cases v with
  | obj fields => exact h
  | _ => exact unique_empty

theorem unique_of_asDict {v : Json F} {fields : List (String × Json F)} (h : UniqueNames v)
    (hdict : asDict v = some fields) : UniqueNames (.obj fields) := by
  cases v with
  | obj own =>
      cases hdict
      exact h
  | _ => cases hdict

theorem unique_dicts {items : List (Json F)} (h : ∀ j ∈ items, UniqueNames j) :
    ∀ fields ∈ items.filterMap asDict, UniqueNames (.obj fields) := by
  intro fields hfields
  obtain ⟨j, hj, hdict⟩ := List.mem_filterMap.mp hfields
  exact unique_of_asDict (h j hj) hdict

theorem unique_lastDicts {v : Json F} (h : UniqueNames v) (n : ℕ) :
    ∀ fields ∈ lastDicts n v, UniqueNames (.obj fields) := by
  cases v with
  | arr items => exact unique_dicts fun j hj => uniqueNames_arr.mp h j (List.mem_of_mem_drop hj)
  | _ => exact fun fields hfields => by cases hfields

theorem unique_firstDicts {v : Json F} (h : UniqueNames v) (n : ℕ) :
    ∀ fields ∈ firstDicts n v, UniqueNames (.obj fields) := by
  cases v with
  | arr items => exact unique_dicts fun j hj => uniqueNames_arr.mp h j (List.mem_of_mem_take hj)
  | _ => exact fun fields hfields => by cases hfields

variable (env : ViewerRuntime F)

theorem unique_orElse {a b : Json F} (ha : UniqueNames a) (hb : UniqueNames b) :
    UniqueNames (orElse env a b) := by
  unfold orElse
  split_ifs
  · exact ha
  · exact hb

theorem unique_humanTime {v : Json F} (h : UniqueNames v) : UniqueNames (humanTime env v) := by
  cases v with
  | str s => exact uniqueNames_str _
  | _ => exact h

theorem unique_eventTime {v time : Json F} (h : UniqueNames v)
    (htime : eventTime env v = some time) : UniqueNames time := by
  unfold eventTime at htime
  split_ifs at htime
  · split at htime
    · obtain ⟨text, -, rfl⟩ := Option.map_eq_some_iff.mp htime
      exact uniqueNames_str _
    · cases htime
      exact h
    · cases htime
  · cases htime
    exact unique_humanTime env h

theorem unique_simplifyEvent {event : List (String × Json F)} {out : Json F}
    (h : UniqueNames (.obj event)) (hout : simplifyEvent env event = some out) :
    UniqueNames out := by
  have hget := unique_get h
  unfold simplifyEvent at hout
  obtain ⟨time, htime, hout⟩ := Option.bind_eq_some_iff.mp hout
  cases hout
  have htime := unique_eventTime env (unique_orElse env (unique_orElse env
    (unique_orElse env (hget "time") (hget "timestamp")) (hget "ts")) (hget "created_at")) htime
  have hprice := unique_orElse env (unique_orElse env (hget "price") (hget "price_level"))
    (hget "level")
  refine uniqueNames_obj.mpr ⟨by simp, ?_⟩
  simp only [List.forall_mem_cons]
  exact ⟨unique_orElse env (hget _) (hget _), hget _, hprice, htime,
    unique_orElse env (hget _) (hget _), List.forall_mem_nil _⟩

theorem unique_simplifyEvents {v : Json F} {events : List (Json F)} (h : UniqueNames v)
    (hevents : simplifyEvents env v = some events) : ∀ e ∈ events, UniqueNames e :=
  forall_of_mapM (fun _ _ hevent => unique_simplifyEvent env hevent) hevents
    (unique_lastDicts h maxEvents)

theorem unique_structureBlock {st : List (String × Json F)} {events : List (Json F)}
    (h : UniqueNames (.obj st)) (hevents : ∀ e ∈ events, UniqueNames e) :
    UniqueNames (structureBlock env st events) := by
  have hget := unique_get h
  have hlegs : ∀ leg ∈ simplifyLegs (ViewerStateBuilder.get st "legs"), UniqueNames leg := by
    refine List.forall_mem_map.mpr fun leg hleg => ?_
    have hleg := unique_get (unique_lastDicts (hget "legs") _ leg hleg)
    simp [hleg]
  have hswings : ∀ swing ∈ simplifySwings env (ViewerStateBuilder.get st "swings"),
      UniqueNames swing := by
    refine List.forall_mem_map.mpr fun swing hswing => ?_
    have hswing := unique_get (unique_lastDicts (hget "swings") _ swing hswing)
    simp [hswing, unique_humanTime env (hswing "time")]
  have hranges : ∀ range ∈ simplifyRanges env (ViewerStateBuilder.get st "ranges"),
      UniqueNames range := by
    refine List.forall_mem_map.mpr fun range hrange => ?_
    have hrange := unique_get (unique_lastDicts (hget "ranges") _ range hrange)
    simp [hrange, unique_humanTime env (hrange "start_time"),
      unique_humanTime env (hrange "end_time")]
  have hotes : ∀ zone ∈ simplifyOtes (ViewerStateBuilder.get st "ote_zones"),
      UniqueNames zone := by
    refine List.forall_mem_map.mpr fun zone hzone => ?_
    have hzone := unique_get (unique_lastDicts (hget "ote_zones") _ zone hzone)
    simp [hzone]
  refine uniqueNames_obj.mpr ⟨by simp, ?_⟩
  simp only [List.forall_mem_cons, uniqueNames_arr]
  exact ⟨hget _, hget _, hget _, hlegs, hswings, hranges, hevents, hotes, List.forall_mem_nil _⟩

theorem unique_liquidityBlock {liq : List (String × Json F)} (h : UniqueNames (.obj liq)) :
    UniqueNames (liquidityBlock env liq) := by
  have hget := unique_get h
  have hpools : ∀ pool ∈ simplifyPools env (ViewerStateBuilder.get liq "pools"),
      UniqueNames pool := by
    refine List.forall_mem_map.mpr fun pool hpool => ?_
    have hpool := unique_get (unique_firstDicts (hget "pools") _ pool hpool)
    simp [hpool, unique_orElse env (hpool "price") (hpool "level"),
      unique_orElse env (hpool "liq_type") (hpool "type"),
      unique_orElse env (hpool "type") (hpool "liq_type")]
  refine uniqueNames_obj.mpr ⟨by simp, ?_⟩
  simp only [List.forall_mem_cons, uniqueNames_arr]
  exact ⟨hget _, hpools, unique_orElse env (hget _) (by simp), List.forall_mem_nil _⟩

theorem unique_firstPrice {candidates : List (Json F)} {price : Json F}
    (hprice : firstPrice env candidates = some price) : UniqueNames price := by
  induction candidates with
  | nil =>
      cases hprice
      exact uniqueNames_null
  | cons v candidates ih =>
      unfold firstPrice at hprice
      split at hprice
      · cases ‹_ :: _ = []›
      · next heq =>
        cases heq
        exact ih hprice
      · next heq =>
        cases heq
        split at hprice
        · cases hprice
          exact uniqueNames_float _
        · exact ih hprice
        · cases hprice

/-- An entry of `pipeline_local` has a value that is no dict. -/
theorem unique_localNumber {α : Type*} {convert : Json F → Converted α} {wrap : α → Json F}
    (hwrap : ∀ a, UniqueNames (wrap a)) {name : String} {v : Json F}
    {out : List (String × Json F)} (hout : localNumber convert wrap name v = some out) :
    (out.map Prod.fst).Sublist [name] ∧ ∀ field ∈ out, UniqueNames field.2 := by
  unfold localNumber at hout
  split_ifs at hout
  · split at hout
    · cases hout
      exact ⟨List.Sublist.refl _, List.forall_mem_singleton.mpr (hwrap _)⟩
    · cases hout
  · cases hout
    exact ⟨List.nil_sublist _, List.forall_mem_nil _⟩

theorem unique_pipelineLocal {stats out : List (String × Json F)}
    (hout : pipelineLocal env stats = some out) : UniqueNames (.obj out) := by
  unfold pipelineLocal at hout
  obtain ⟨ready, hready, hout⟩ := Option.bind_eq_some_iff.mp hout
  obtain ⟨required, hrequired, hout⟩ := Option.bind_eq_some_iff.mp hout
  obtain ⟨ratio, hratio, hout⟩ := Option.bind_eq_some_iff.mp hout
  obtain ⟨hready, hready'⟩ := unique_localNumber uniqueNames_int hready
  obtain ⟨hrequired, hrequired'⟩ := unique_localNumber uniqueNames_int hrequired
  obtain ⟨hratio, hratio'⟩ := unique_localNumber uniqueNames_float hratio
  obtain ⟨stateLocal, hstate, rfl⟩ : ∃ stateLocal : List (String × Json F),
      ((stateLocal.map Prod.fst).Sublist ["state"] ∧
        ∀ field ∈ stateLocal, UniqueNames field.2) ∧
      stateLocal ++ ready ++ required ++ ratio = out := by
    refine ⟨_, ?_, Option.some.inj hout⟩
    split
    · exact ⟨List.nil_sublist _, List.forall_mem_nil _⟩
    · exact ⟨List.Sublist.refl _, List.forall_mem_singleton.mpr (uniqueNames_str _)⟩
  refine uniqueNames_obj.mpr ⟨?_, ?_⟩
  · rw [List.map_append, List.map_append, List.map_append]
    have hnames :
        (["state"] ++ ["ready_bars"] ++ ["required_bars"] ++ ["ready_ratio"]).Nodup := by decide
    exact hnames.sublist (((hstate.1.append hready).append hrequired).append hratio)
  · simp only [List.forall_mem_append]
    exact ⟨⟨⟨hstate.2, hready'⟩, hrequired'⟩, hratio'⟩

structure UniqueCache (cache : ViewerStateCache F) : Prop where
  events : ∀ e ∈ cache.lastEvents, UniqueNames e
  zones : UniqueNames (.obj cache.lastZonesRaw)
  fxcm : ∀ source ∈ cache.lastFxcmMeta, UniqueNames (.obj source)

theorem uniqueCache_empty : UniqueCache (⟨[], [], none⟩ : ViewerStateCache F) :=
  ⟨List.forall_mem_nil _, unique_empty, fun _ h => by cases h⟩

theorem unique_persistEvents {events : List (Json F)} {cache : Option (ViewerStateCache F)}
    (h : ∀ e ∈ events, UniqueNames e) (hcache : ∀ c ∈ cache, UniqueCache c) :
    (∀ e ∈ (persistEvents events cache).1, UniqueNames e) ∧
      ∀ c ∈ (persistEvents events cache).2, UniqueCache c := by
  unfold persistEvents
  split_ifs
  · refine ⟨?_, hcache⟩
    cases cache with
    | none => exact List.forall_mem_nil _
    | some c => exact (hcache c rfl).events
  · refine ⟨h, fun c hc => ?_⟩
    obtain ⟨old, hold, rfl⟩ := Option.map_eq_some_iff.mp hc
    exact { hcache old hold with events := h }

theorem unique_persistZones {zones : List (String × Json F)} {cache : Option (ViewerStateCache F)}
    (h : UniqueNames (.obj zones)) (hcache : ∀ c ∈ cache, UniqueCache c) :
    UniqueNames (.obj (persistZones zones cache).1) ∧
      ∀ c ∈ (persistZones zones cache).2, UniqueCache c := by
  unfold persistZones
  split_ifs
  · refine ⟨?_, hcache⟩
    cases cache with
    | none => exact unique_empty
    | some c => exact (hcache c rfl).zones
  · refine ⟨h, fun c hc => ?_⟩
    obtain ⟨old, hold, rfl⟩ := Option.map_eq_some_iff.mp hc
    exact { hcache old hold with zones := h }

theorem unique_resolveFxcmSource {payloadMeta : List (String × Json F)} {fxcmBlock : Json F}
    {cache : Option (ViewerStateCache F)} (hmeta : UniqueNames (.obj payloadMeta))
    (hfxcm : UniqueNames fxcmBlock) (hcache : ∀ c ∈ cache, UniqueCache c) :
    ∀ source ∈ resolveFxcmSource payloadMeta fxcmBlock cache, UniqueNames (.obj source) := by
  intro source hsource
  unfold resolveFxcmSource at hsource
  rcases Option.or_eq_some_iff.mp hsource with hsource | ⟨-, hsource⟩
  · rcases Option.or_eq_some_iff.mp hsource with hsource | ⟨-, hsource⟩
    · exact unique_of_asDict hfxcm hsource
    · exact unique_of_asDict (unique_get hmeta "fxcm") hsource
  · obtain ⟨c, hc, hsource⟩ := Option.bind_eq_some_iff.mp hsource
    exact (hcache c hc).fxcm source hsource

theorem unique_sessionOf (source : Option (List (String × Json F))) {session : Json F}
    (h : UniqueNames session) : UniqueNames (sessionOf env source session) := by
  unfold sessionOf
  split
  · exact h
  · dsimp only
    split_ifs
    · exact uniqueNames_str _
    · exact h

theorem unique_resolveSession (asset stats : List (String × Json F)) :
    UniqueNames (resolveSession env asset stats) := by
  unfold resolveSession
  split
  · exact uniqueNames_str _
  · exact uniqueNames_null

theorem unique_hintPart {asset : List (String × Json F)} (h : UniqueNames (.obj asset))
    (own name : String) : UniqueNames (.obj (hintPart env asset own name)) :=
  unique_coerceDict (unique_orElse env (unique_get h own)
    (unique_get (unique_coerceDict (unique_get h "smc_hint")) name))

/-- The fields of a state, with or without those of the feed. -/
theorem unique_viewer {fields source : List (String × Json F)}
    (h : ∀ field ∈ fields, UniqueNames field.2) (hsource : UniqueNames (.obj source))
    (hnodup : (fields.map Prod.fst ++ ["fxcm"]).Nodup) :
    UniqueNames (.obj fields) ∧ UniqueNames (.obj (fields ++ [("fxcm", .obj source)])) := by
  constructor
  · exact uniqueNames_obj.mpr ⟨(List.nodup_append.mp hnodup).1, h⟩
  · rw [uniqueNames_obj, List.map_append]
    exact ⟨hnodup, List.forall_mem_append.mpr ⟨h, List.forall_mem_singleton.mpr hsource⟩⟩

theorem unique_buildViewerState {asset : List (String × Json F)} {payloadMeta fxcmBlock : Json F}
    {cache : Option (ViewerStateCache F)} (hasset : UniqueNames (.obj asset))
    (hmeta : UniqueNames payloadMeta) (hfxcm : UniqueNames fxcmBlock)
    (hcache : ∀ c ∈ cache, UniqueCache c) :
    (∀ viewer ∈ (buildViewerState env asset payloadMeta fxcmBlock cache).1,
        UniqueNames (.obj viewer)) ∧
      ∀ c ∈ (buildViewerState env asset payloadMeta fxcmBlock cache).2, UniqueCache c := by
  have hstructure := unique_hintPart env hasset "smc_structure" "structure"
  have hliquidity := unique_hintPart env hasset "smc_liquidity" "liquidity"
  have hzones := unique_hintPart env hasset "smc_zones" "zones"
  have hmeta := unique_coerceDict hmeta
  unfold buildViewerState
  dsimp only
  cases hlocal : pipelineLocal env (coerceDict (ViewerStateBuilder.get asset "stats")) with
  | none => exact ⟨by simp, hcache⟩
  | some ownLocal =>
  cases hprice : extractPrice env asset (coerceDict (ViewerStateBuilder.get asset "stats")) with
  | none => exact ⟨by simp, hcache⟩
  | some price =>
  cases hevents : simplifyEvents env (ViewerStateBuilder.get (structureOf env asset) "events") with
  | none => exact ⟨by simp, hcache⟩
  | some rawEvents =>
      have hlocal := unique_pipelineLocal env hlocal
      have hprice := unique_firstPrice env hprice
      have hevents := unique_simplifyEvents env (unique_get hstructure "events") hevents
      obtain ⟨hevents, hcache⟩ := unique_persistEvents hevents hcache
      obtain ⟨hzones, hcache⟩ := unique_persistZones hzones hcache
      have hsource := unique_resolveFxcmSource hmeta hfxcm hcache
      have hsession := fun source => unique_sessionOf env source
        (unique_resolveSession env asset (coerceDict (ViewerStateBuilder.get asset "stats")))
      have hblocks := And.intro (unique_structureBlock env hstructure hevents)
        (unique_liquidityBlock env hliquidity)
      have hzonesBlock : ∀ zones : List (String × Json F), UniqueNames (.obj zones) →
          UniqueNames (.obj [("raw", .obj zones)]) := fun zones h =>
        uniqueNames_obj.mpr ⟨List.nodup_singleton _, List.forall_mem_singleton.mpr h⟩
      dsimp only
      generalize persistZones (hintPart env asset "smc_zones" "zones")
        (persistEvents rawEvents cache).2 = persisted at hzones hcache hsource ⊢
      have hnames : (["symbol", "payload_ts", "payload_seq", "schema", "meta", "price", "session",
          "structure", "liquidity", "zones", "pipeline_local"] ++ ["fxcm"]).Nodup := by decide
      have hfields : ∀ metaSnapshot source, UniqueNames (.obj metaSnapshot) →
          ∀ field ∈ [("symbol", Json.str (env.upper (env.str (ViewerStateBuilder.get asset
              "symbol")))),
            ("payload_ts", ViewerStateBuilder.get (coerceDict payloadMeta) "ts"),
            ("payload_seq", ViewerStateBuilder.get (coerceDict payloadMeta) "seq"),
            ("schema", .str "smc_viewer_v1"), ("meta", .obj metaSnapshot), ("price", price),
            ("session", sessionOf env source (resolveSession env asset
              (coerceDict (ViewerStateBuilder.get asset "stats")))),
            ("structure", structureBlock env (structureOf env asset)
              (persistEvents rawEvents cache).1),
            ("liquidity", liquidityBlock env (hintPart env asset "smc_liquidity" "liquidity")),
            ("zones", .obj [("raw", .obj persisted.1)]), ("pipeline_local", .obj ownLocal)],
          UniqueNames field.2 := by
        intro metaSnapshot source hsnapshot
        simp only [List.forall_mem_cons]
        exact ⟨uniqueNames_str _, unique_get hmeta _, unique_get hmeta _, uniqueNames_str _,
          hsnapshot, hprice, hsession _, hblocks.1, hblocks.2, hzonesBlock _ hzones, hlocal,
          List.forall_mem_nil _⟩
      cases hsome : resolveFxcmSource (coerceDict payloadMeta) fxcmBlock persisted.2 with
      | none =>
          split_ifs
          · exact ⟨by simp, hcache⟩
          · refine ⟨fun viewer hviewer => ?_, hcache⟩
            cases hviewer
            exact (unique_viewer (hfields _ _ hmeta) unique_empty hnames).1
      | some source =>
          have hfxcm := hsource source hsome
          have hcache : ∀ c ∈ persisted.2.map fun c =>
              { c with lastFxcmMeta := some source }, UniqueCache c := by
            intro c hc
            obtain ⟨old, hold, rfl⟩ := Option.map_eq_some_iff.mp hc
            refine { hcache old hold with fxcm := fun own hown => ?_ }
            cases hown
            exact hfxcm
          split_ifs
          · exact ⟨by simp, hcache⟩
          · refine ⟨fun viewer hviewer => ?_, hcache⟩
            cases hviewer
            have hsnapshot : UniqueNames
                (.obj (setItem (coerceDict payloadMeta) "fxcm" (.obj source))) :=
              uniqueNames_setItem hmeta hfxcm
            exact (unique_viewer (hfields _ _ hsnapshot) hfxcm hnames).2

theorem unique_metaOf {payload : List (String × Json F)}
    (h : UniqueNames (ViewerStateBuilder.get payload "meta")) :
    UniqueNames (metaOf env payload) := by
  have hmeta := unique_orElse env h unique_empty
  unfold metaOf
  split
  · next metaRaw hraw =>
    rw [hraw] at hmeta
    dsimp only
    split_ifs
    · exact uniqueNames_setItem hmeta (uniqueNames_str _)
    · exact hmeta
  · exact hmeta

def UniqueCaches (caches : String → Option (ViewerStateCache F)) : Prop :=
  ∀ symbol, ∀ c ∈ caches symbol, UniqueCache c

def UniqueStates (states : OrderedDict String (List (String × Json F))) : Prop :=
  states.Every fun _ viewer => UniqueNames (.obj viewer)

theorem unique_addAsset {payloadMeta fxcmBlock : Json F} {s : BuildState F}
    {asset : List (String × Json F)} (hasset : UniqueNames (.obj asset))
    (hmeta : UniqueNames payloadMeta) (hfxcm : UniqueNames fxcmBlock)
    (hs : UniqueStates s.result ∧ UniqueCaches s.caches) :
    UniqueStates (addAsset env payloadMeta fxcmBlock s asset).result ∧
      UniqueCaches (addAsset env payloadMeta fxcmBlock s asset).caches := by
  obtain ⟨hresult, hcaches⟩ := hs
  unfold addAsset
  cases symbolKey env asset with
  | none => exact ⟨hresult, hcaches⟩
  | some symbol =>
      have hcache : ∀ c ∈ some (cacheOf s.caches symbol), UniqueCache c := by
        intro c hc
        cases hc
        unfold cacheOf
        cases hown : s.caches symbol with
        | none => exact uniqueCache_empty
        | some own => exact hcaches symbol own hown
      obtain ⟨hviewer, hleft⟩ := unique_buildViewerState env hasset hmeta hfxcm hcache
      constructor
      · dsimp only
        cases hbuilt : (buildViewerState env asset payloadMeta fxcmBlock
            (some (cacheOf s.caches symbol))).1 with
        | none => exact hresult
        | some viewer => exact OrderedDict.every_set hresult (hviewer viewer hbuilt)
      · intro other c hc
        dsimp only at hc
        rw [Function.update_apply] at hc
        split_ifs at hc
        · exact hleft c hc
        · exact hcaches other c hc

theorem unique_addAssets {payloadMeta fxcmBlock : Json F} {s : BuildState F}
    {items : List (Json F)} (hitems : ∀ item ∈ items, UniqueNames item)
    (hmeta : UniqueNames payloadMeta) (hfxcm : UniqueNames fxcmBlock)
    (hs : UniqueStates s.result ∧ UniqueCaches s.caches) :
    UniqueStates (addAssets env payloadMeta fxcmBlock s items).2.result ∧
      UniqueCaches (addAssets env payloadMeta fxcmBlock s items).2.caches := by
  induction items generalizing s with
  | nil => exact hs
  | cons item items ih =>
      obtain ⟨hitem, hrest⟩ := List.forall_mem_cons.mp hitems
      cases item with
      | obj asset => exact ih hrest (unique_addAsset env hitem hmeta hfxcm hs)
      | _ => exact hs

/-- The states of a payload in which no name occurs twice, and what the caches keep of it. -/
theorem unique_buildViewerStatesFromPayload {payload : Json F}
    {caches : String → Option (ViewerStateCache F)} (hpayload : UniqueNames payload)
    (hcaches : UniqueCaches caches) :
    (∀ states ∈ (buildViewerStatesFromPayload env payload caches).1, UniqueStates states) ∧
      UniqueCaches (buildViewerStatesFromPayload env payload caches).2 := by
  unfold buildViewerStatesFromPayload
  cases payload with
  | obj fields =>
      dsimp only
      split
      · next items hassets =>
        have hitems := unique_orElse env (unique_get hpayload "assets") (by simp :
          UniqueNames (.arr [] : Json F))
        rw [hassets, uniqueNames_arr] at hitems
        obtain ⟨hstates, hleft⟩ := unique_addAssets env (s := ⟨OrderedDict.empty, caches⟩) hitems
          (unique_metaOf env (unique_get hpayload "meta")) (unique_get hpayload "fxcm")
          ⟨OrderedDict.every_empty _, hcaches⟩
        refine ⟨fun states hreturned => ?_, hleft⟩
        dsimp only at hreturned
        split_ifs at hreturned
        · cases hreturned
          exact hstates
        · cases hreturned
      · exact ⟨by simp, hcaches⟩
  | _ => exact ⟨by simp, hcaches⟩

end SmcPipeline.ViewerDicts
