import SmcPipeline.PublishedNumbers
import SmcPipeline.ViewerBroadcaster

/-!
# Numbers in the viewer states

`build_viewer_state` makes no float of its own: each one in a state stands in the asset, in the
payload or in the cache, except for the price and the ready ratio, which `float` makes of the
stats. So the states of a clean payload have numbers only.
-/

namespace SmcPipeline.ViewerNumbers

open JsonText FxcmIngestor Serialization ViewerStateBuilder ViewerBroadcaster CleanHints
  PublishedNumbers

variable {F : Type*} {P : F → Prop}

theorem everyFloat_get {fields : List (String × Json F)} (h : EveryFloat P (.obj fields))
    (name : String) : EveryFloat P (ViewerStateBuilder.get fields name) := by
  rcases get_cases fields name with hnull | hmem
  · rw [hnull]
    exact everyFloat_null
  · exact everyFloat_obj.mp h _ hmem

theorem everyFloat_coerceDict {v : Json F} (h : EveryFloat P v) :
    EveryFloat P (.obj (coerceDict v)) := by
  cases v with
  | obj fields => exact h
  | _ => simp [coerceDict]

theorem everyFloat_of_asDict {v : Json F} {fields : List (String × Json F)} (h : EveryFloat P v)
    (hdict : asDict v = some fields) : EveryFloat P (.obj fields) := by
  cases v with
  | obj own =>
      cases hdict
      exact h
  | _ => cases hdict

theorem everyFloat_dicts {items : List (Json F)} (h : ∀ j ∈ items, EveryFloat P j) :
    ∀ fields ∈ items.filterMap asDict, EveryFloat P (.obj fields) := by
  intro fields hfields
  obtain ⟨j, hj, hdict⟩ := List.mem_filterMap.mp hfields
  exact everyFloat_of_asDict (h j hj) hdict

theorem everyFloat_lastDicts {v : Json F} (h : EveryFloat P v) (n : ℕ) :
    ∀ fields ∈ lastDicts n v, EveryFloat P (.obj fields) := by
  cases v with
  | arr items =>
      exact everyFloat_dicts fun j hj => everyFloat_arr.mp h j (List.mem_of_mem_drop hj)
  | _ => exact fun fields hfields => by cases hfields

theorem everyFloat_firstDicts {v : Json F} (h : EveryFloat P v) (n : ℕ) :
    ∀ fields ∈ firstDicts n v, EveryFloat P (.obj fields) := by
  cases v with
  | arr items =>
      exact everyFloat_dicts fun j hj => everyFloat_arr.mp h j (List.mem_of_mem_take hj)
  | _ => exact fun fields hfields => by cases hfields

theorem everyFloat_setItem {fields : List (String × Json F)} {name : String} {v : Json F}
    (h : EveryFloat P (.obj fields)) (hv : EveryFloat P v) :
    EveryFloat P (.obj (setItem fields name v)) := by
  refine everyFloat_obj.mpr fun field hfield => ?_
  rcases mem_setItem hfield with rfl | hfield
  · exact hv
  · exact everyFloat_obj.mp h field hfield

variable (env : ViewerRuntime F)

theorem everyFloat_orElse {a b : Json F} (ha : EveryFloat P a) (hb : EveryFloat P b) :
    EveryFloat P (orElse env a b) := by
  unfold orElse
  split_ifs
  · exact ha
  · exact hb

theorem everyFloat_humanTime {v : Json F} (h : EveryFloat P v) : EveryFloat P (humanTime env v) := by
  cases v with
  | str s => exact everyFloat_str _
  | _ => exact h

theorem everyFloat_eventTime {v time : Json F} (h : EveryFloat P v)
    (htime : eventTime env v = some time) : EveryFloat P time := by
  unfold eventTime at htime
  split_ifs at htime
  · split at htime
    · obtain ⟨text, -, rfl⟩ := Option.map_eq_some_iff.mp htime
      exact everyFloat_str _
    · cases htime
      exact h
    · cases htime
  · cases htime
    exact everyFloat_humanTime env h

theorem everyFloat_simplifyEvent {event : List (String × Json F)} {out : Json F}
    (h : EveryFloat P (.obj event)) (hout : simplifyEvent env event = some out) :
    EveryFloat P out := by
  have hget := everyFloat_get h
  unfold simplifyEvent at hout
  obtain ⟨time, htime, hout⟩ := Option.bind_eq_some_iff.mp hout
  cases hout
  have htime := everyFloat_eventTime env (everyFloat_orElse env (everyFloat_orElse env
    (everyFloat_orElse env (hget "time") (hget "timestamp")) (hget "ts")) (hget "created_at")) htime
  have hprice := everyFloat_orElse env (everyFloat_orElse env (hget "price") (hget "price_level"))
    (hget "level")
  simp only [everyFloat_obj, List.forall_mem_cons]
  exact ⟨everyFloat_orElse env (hget _) (hget _), hget _, hprice, htime,
    everyFloat_orElse env (hget _) (hget _), by simp⟩

theorem everyFloat_simplifyEvents {v : Json F} {events : List (Json F)} (h : EveryFloat P v)
    (hevents : simplifyEvents env v = some events) : ∀ e ∈ events, EveryFloat P e :=
  forall_of_mapM (fun _ _ hevent => everyFloat_simplifyEvent env hevent) hevents
    (everyFloat_lastDicts h maxEvents)

theorem everyFloat_structureBlock {st : List (String × Json F)} {events : List (Json F)}
    (h : EveryFloat P (.obj st)) (hevents : ∀ e ∈ events, EveryFloat P e) :
    EveryFloat P (structureBlock env st events) := by
  have hget := everyFloat_get h
  have hlegs : ∀ leg ∈ simplifyLegs (ViewerStateBuilder.get st "legs"), EveryFloat P leg := by
    refine List.forall_mem_map.mpr fun leg hleg => ?_
    have hleg := everyFloat_get (everyFloat_lastDicts (hget "legs") _ leg hleg)
    simp [hleg]
  have hswings : ∀ swing ∈ simplifySwings env (ViewerStateBuilder.get st "swings"),
      EveryFloat P swing := by
    refine List.forall_mem_map.mpr fun swing hswing => ?_
    have hswing := everyFloat_get (everyFloat_lastDicts (hget "swings") _ swing hswing)
    simp [hswing, everyFloat_humanTime env (hswing "time")]
  have hranges : ∀ range ∈ simplifyRanges env (ViewerStateBuilder.get st "ranges"),
      EveryFloat P range := by
    refine List.forall_mem_map.mpr fun range hrange => ?_
    have hrange := everyFloat_get (everyFloat_lastDicts (hget "ranges") _ range hrange)
    simp [hrange, everyFloat_humanTime env (hrange "start_time"),
      everyFloat_humanTime env (hrange "end_time")]
  have hotes : ∀ zone ∈ simplifyOtes (ViewerStateBuilder.get st "ote_zones"),
      EveryFloat P zone := by
    refine List.forall_mem_map.mpr fun zone hzone => ?_
    have hzone := everyFloat_get (everyFloat_lastDicts (hget "ote_zones") _ zone hzone)
    simp [hzone]
  unfold structureBlock
  simp only [everyFloat_obj, List.forall_mem_cons, everyFloat_arr]
  exact ⟨hget _, hget _, hget _, hlegs, hswings, hranges, hevents, hotes, by simp⟩

theorem everyFloat_liquidityBlock {liq : List (String × Json F)} (h : EveryFloat P (.obj liq)) :
    EveryFloat P (liquidityBlock env liq) := by
  have hget := everyFloat_get h
  have hpools : ∀ pool ∈ simplifyPools env (ViewerStateBuilder.get liq "pools"),
      EveryFloat P pool := by
    refine List.forall_mem_map.mpr fun pool hpool => ?_
    have hpool := everyFloat_get (everyFloat_firstDicts (hget "pools") _ pool hpool)
    simp [hpool, everyFloat_orElse env (hpool "price") (hpool "level"),
      everyFloat_orElse env (hpool "liq_type") (hpool "type"),
      everyFloat_orElse env (hpool "type") (hpool "liq_type")]
  unfold liquidityBlock
  simp only [everyFloat_obj, List.forall_mem_cons, everyFloat_arr]
  exact ⟨hget _, hpools, everyFloat_orElse env (hget _) (by simp), by simp⟩

/-- What the cache holds has such floats only. -/
structure CleanCache (P : F → Prop) (cache : ViewerStateCache F) : Prop where
  events : ∀ e ∈ cache.lastEvents, EveryFloat P e
  zones : EveryFloat P (.obj cache.lastZonesRaw)
  fxcm : ∀ source ∈ cache.lastFxcmMeta, EveryFloat P (.obj source)

theorem cleanCache_empty : CleanCache P (⟨[], [], none⟩ : ViewerStateCache F) :=
  ⟨by simp, by simp, by simp⟩

theorem clean_persistEvents {events : List (Json F)} {cache : Option (ViewerStateCache F)}
    (h : ∀ e ∈ events, EveryFloat P e) (hcache : ∀ c ∈ cache, CleanCache P c) :
    (∀ e ∈ (persistEvents events cache).1, EveryFloat P e) ∧
      ∀ c ∈ (persistEvents events cache).2, CleanCache P c := by
  unfold persistEvents
  split_ifs
  · refine ⟨?_, hcache⟩
    cases cache with
    | none => simp
    | some c => exact (hcache c rfl).events
  · refine ⟨h, fun c hc => ?_⟩
    obtain ⟨old, hold, rfl⟩ := Option.map_eq_some_iff.mp hc
    exact { hcache old hold with events := h }

theorem clean_persistZones {zones : List (String × Json F)} {cache : Option (ViewerStateCache F)}
    (h : EveryFloat P (.obj zones)) (hcache : ∀ c ∈ cache, CleanCache P c) :
    EveryFloat P (.obj (persistZones zones cache).1) ∧
      ∀ c ∈ (persistZones zones cache).2, CleanCache P c := by
  unfold persistZones
  split_ifs
  · refine ⟨?_, hcache⟩
    cases cache with
    | none => simp
    | some c => exact (hcache c rfl).zones
  · refine ⟨h, fun c hc => ?_⟩
    obtain ⟨old, hold, rfl⟩ := Option.map_eq_some_iff.mp hc
    exact { hcache old hold with zones := h }

theorem everyFloat_resolveFxcmSource {payloadMeta : List (String × Json F)} {fxcmBlock : Json F}
    {cache : Option (ViewerStateCache F)} (hmeta : EveryFloat P (.obj payloadMeta))
    (hfxcm : EveryFloat P fxcmBlock) (hcache : ∀ c ∈ cache, CleanCache P c) :
    ∀ source ∈ resolveFxcmSource payloadMeta fxcmBlock cache, EveryFloat P (.obj source) := by
  intro source hsource
  unfold resolveFxcmSource at hsource
  rcases Option.or_eq_some_iff.mp hsource with hsource | ⟨-, hsource⟩
  · rcases Option.or_eq_some_iff.mp hsource with hsource | ⟨-, hsource⟩
    · exact everyFloat_of_asDict hfxcm hsource
    · exact everyFloat_of_asDict (everyFloat_get hmeta "fxcm") hsource
  · obtain ⟨c, hc, hsource⟩ := Option.bind_eq_some_iff.mp hsource
    exact (hcache c hc).fxcm source hsource

theorem everyFloat_sessionOf (source : Option (List (String × Json F))) {session : Json F}
    (h : EveryFloat P session) : EveryFloat P (sessionOf env source session) := by
  unfold sessionOf
  split
  · exact h
  · dsimp only
    split_ifs
    · exact everyFloat_str _
    · exact h

theorem everyFloat_resolveSession (asset stats : List (String × Json F)) :
    EveryFloat P (resolveSession env asset stats) := by
  unfold resolveSession
  split
  · exact everyFloat_str _
  · exact everyFloat_null

section

variable {env} (hfloat : ∀ x, env.float (.float x) = .value x)
include hfloat

theorem everyFloat_firstPrice {candidates : List (Json F)} {price : Json F}
    (h : ∀ v ∈ candidates, FloatOrNull v ∧ EveryFloat P v)
    (hprice : firstPrice env candidates = some price) : EveryFloat P price := by
  induction candidates with
  | nil =>
      cases hprice
      exact everyFloat_null
  | cons v candidates ih =>
      obtain ⟨⟨hv, hfloats⟩, hrest⟩ := List.forall_mem_cons.mp h
      rcases hv with rfl | ⟨x, rfl⟩
      · exact ih hrest hprice
      · unfold firstPrice at hprice
        rw [hfloat] at hprice
        cases hprice
        exact hfloats

theorem everyFloat_pipelineLocal {stats out : List (String × Json F)}
    (h : FloatOrNull (ViewerStateBuilder.get stats "pipeline_ready_ratio") ∧
      EveryFloat P (ViewerStateBuilder.get stats "pipeline_ready_ratio"))
    (hout : pipelineLocal env stats = some out) : EveryFloat P (.obj out) := by
  have hint : ∀ {name : String} {v : Json F} {fields : List (String × Json F)},
      localNumber env.int .int name v = some fields → ∀ field ∈ fields, EveryFloat P field.2 := by
    intro name v fields hfields
    unfold localNumber at hfields
    split_ifs at hfields
    · split at hfields
      · cases hfields
        simp
      · cases hfields
    · cases hfields
      simp
  unfold pipelineLocal at hout
  obtain ⟨ready, hready, hout⟩ := Option.bind_eq_some_iff.mp hout
  obtain ⟨required, hrequired, hout⟩ := Option.bind_eq_some_iff.mp hout
  obtain ⟨ratio, hratio, hout⟩ := Option.bind_eq_some_iff.mp hout
  cases hout
  have hratio : ∀ field ∈ ratio, EveryFloat P field.2 := by
    obtain ⟨hnull | ⟨x, hx⟩, hfloats⟩ := h
    · rw [hnull] at hratio
      cases hratio
      simp
    · rw [hx] at hratio hfloats
      simp only [localNumber, ViewerStateBuilder.isNumber, if_true, hfloat] at hratio
      cases hratio
      simpa using hfloats
  refine everyFloat_obj.mpr fun field hfield => ?_
  simp only [List.mem_append] at hfield
  rcases hfield with ((hfield | hfield) | hfield) | hfield
  · split at hfield
    · cases hfield
    · obtain rfl := List.mem_singleton.mp hfield
      exact everyFloat_str _
  · exact hint hready field hfield
  · exact hint hrequired field hfield
  · exact hratio field hfield

omit hfloat in
theorem clean_stat {asset : List (String × Json F)} (h : CleanAsset P asset) {name : String}
    (hname : name ∈ statKeys) :
    FloatOrNull (ViewerStateBuilder.get (coerceDict (ViewerStateBuilder.get asset "stats")) name) ∧
      EveryFloat P
        (ViewerStateBuilder.get (coerceDict (ViewerStateBuilder.get asset "stats")) name) := by
  have hnull : FloatOrNull (Json.null : Json F) ∧ EveryFloat P .null :=
    ⟨Or.inl rfl, everyFloat_null⟩
  rcases get_cases (coerceDict (ViewerStateBuilder.get asset "stats")) name with heq | hmem
  · rw [heq]
    exact hnull
  · rcases get_cases asset "stats" with heq | hstats
    · rw [heq] at hmem
      cases hmem
    · exact (h _ hstats).2.2 rfl _ hmem hname

omit hfloat in
theorem clean_price {asset : List (String × Json F)} (h : CleanAsset P asset) {name : String}
    (hname : name ∈ ["price", "last_price"]) :
    FloatOrNull (ViewerStateBuilder.get asset name) ∧
      EveryFloat P (ViewerStateBuilder.get asset name) := by
  rcases get_cases asset name with heq | hmem
  · rw [heq]
    exact ⟨Or.inl rfl, everyFloat_null⟩
  · exact (h _ hmem).1 hname

omit hfloat in
theorem everyFloat_hintPart {asset : List (String × Json F)} (h : CleanAsset P asset)
    {own : String} (hown : own ∈ partKeys) (name : String) :
    EveryFloat P (.obj (hintPart env asset own name)) := by
  have hpart : ∀ key ∈ partKeys, EveryFloat P (ViewerStateBuilder.get asset key) := by
    intro key hkey
    rcases get_cases asset key with heq | hmem
    · rw [heq]
      exact everyFloat_null
    · exact (h _ hmem).2.1 hkey
  exact everyFloat_coerceDict (everyFloat_orElse env (hpart own hown)
    (everyFloat_get (everyFloat_coerceDict (hpart "smc_hint" (by decide))) name))

/-- The state of an asset that can be read has such floats only, and so has the cache. -/
theorem clean_buildViewerState {asset : List (String × Json F)} {payloadMeta fxcmBlock : Json F}
    {cache : Option (ViewerStateCache F)} (hasset : CleanAsset P asset)
    (hmeta : EveryFloat P payloadMeta) (hfxcm : EveryFloat P fxcmBlock)
    (hcache : ∀ c ∈ cache, CleanCache P c) :
    (∀ viewer ∈ (buildViewerState env asset payloadMeta fxcmBlock cache).1,
        EveryFloat P (.obj viewer)) ∧
      ∀ c ∈ (buildViewerState env asset payloadMeta fxcmBlock cache).2, CleanCache P c := by
  have hstructure : EveryFloat P (.obj (structureOf env asset)) :=
    everyFloat_hintPart hasset (by decide) _
  have hliquidity : EveryFloat P (.obj (hintPart env asset "smc_liquidity" "liquidity")) :=
    everyFloat_hintPart hasset (by decide) _
  have hzones : EveryFloat P (.obj (hintPart env asset "smc_zones" "zones")) :=
    everyFloat_hintPart hasset (by decide) _
  have hmeta := everyFloat_coerceDict hmeta
  unfold buildViewerState
  dsimp only
  cases hlocal : pipelineLocal env (coerceDict (ViewerStateBuilder.get asset "stats")) with
  | none => exact ⟨by simp, hcache⟩
  | some ownLocal =>
  cases hprice : extractPrice env asset (coerceDict (ViewerStateBuilder.get asset "stats")) with
  | none => exact ⟨by simp, hcache⟩
  | some price =>
  cases hevents : simplifyEvents env (ViewerStateBuilder.get (structureOf env asset) "events") with
  | none => exact ⟨by simp, hcache⟩
  | some rawEvents =>
      have hlocal := everyFloat_pipelineLocal hfloat (clean_stat hasset (by decide)) hlocal
      have hprice : EveryFloat P price := by
        refine everyFloat_firstPrice hfloat ?_ hprice
        simp only [List.forall_mem_cons]
        exact ⟨clean_stat hasset (by decide), clean_price hasset (by decide),
          clean_price hasset (by decide), clean_stat hasset (by decide), by simp⟩
      have hevents := everyFloat_simplifyEvents env (everyFloat_get hstructure "events") hevents
      obtain ⟨hevents, hcache⟩ := clean_persistEvents hevents hcache
      obtain ⟨hzones, hcache⟩ := clean_persistZones hzones hcache
      have hsource := everyFloat_resolveFxcmSource hmeta hfxcm hcache
      have hsession := fun source => everyFloat_sessionOf env source
        (everyFloat_resolveSession (P := P) env asset
          (coerceDict (ViewerStateBuilder.get asset "stats")))
      have hblocks := And.intro (everyFloat_structureBlock env hstructure hevents)
        (everyFloat_liquidityBlock env hliquidity)
      dsimp only
      generalize persistZones (hintPart env asset "smc_zones" "zones")
        (persistEvents rawEvents cache).2 = persisted at hzones hcache hsource ⊢
      cases hsome : resolveFxcmSource (coerceDict payloadMeta) fxcmBlock persisted.2 with
      | none =>
          split_ifs
          · exact ⟨by simp, hcache⟩
          · refine ⟨fun viewer hviewer => ?_, hcache⟩
            cases hviewer
            simp only [List.append_nil, everyFloat_obj, List.forall_mem_cons] at hmeta hzones hlocal ⊢
            exact ⟨everyFloat_str _, everyFloat_get (everyFloat_obj.mpr hmeta) _,
              everyFloat_get (everyFloat_obj.mpr hmeta) _, everyFloat_str _, hmeta, hprice,
              hsession _, hblocks.1, hblocks.2, ⟨hzones, by simp⟩, hlocal, by simp⟩
      | some source =>
          have hcache : ∀ c ∈ persisted.2.map fun c =>
              { c with lastFxcmMeta := some source }, CleanCache P c := by
            intro c hc
            obtain ⟨old, hold, rfl⟩ := Option.map_eq_some_iff.mp hc
            refine { hcache old hold with fxcm := fun own hown => ?_ }
            cases hown
            exact hsource source hsome
          have hfxcm := hsource source hsome
          have hsnapshot : EveryFloat P
              (.obj (setItem (coerceDict payloadMeta) "fxcm" (.obj source))) :=
            everyFloat_setItem hmeta hfxcm
          split_ifs
          · exact ⟨by simp, hcache⟩
          · refine ⟨fun viewer hviewer => ?_, hcache⟩
            cases hviewer
            simp only [List.cons_append, List.nil_append, everyFloat_obj, List.forall_mem_cons]
              at hmeta hzones hlocal hfxcm hsnapshot ⊢
            exact ⟨everyFloat_str _, everyFloat_get (everyFloat_obj.mpr hmeta) _,
              everyFloat_get (everyFloat_obj.mpr hmeta) _, everyFloat_str _, hsnapshot, hprice,
              hsession _, hblocks.1, hblocks.2, ⟨hzones, by simp⟩, hlocal, hfxcm, by simp⟩

omit hfloat in
theorem everyFloat_metaOf {payload : List (String × Json F)}
    (h : EveryFloat P (ViewerStateBuilder.get payload "meta")) :
    EveryFloat P (metaOf env payload) := by
  have hmeta := everyFloat_orElse env h (by simp : EveryFloat P (.obj []))
  unfold metaOf
  split
  · rename_i metaRaw hraw
    rw [hraw] at hmeta
    dsimp only
    split_ifs
    · exact everyFloat_setItem hmeta (everyFloat_str _)
    · exact hmeta
  · exact hmeta

/-- All caches of the broadcaster. -/
def CleanCaches (P : F → Prop) (caches : String → Option (ViewerStateCache F)) : Prop :=
  ∀ symbol, ∀ c ∈ caches symbol, CleanCache P c

/-- The states by symbol. -/
def CleanStates (P : F → Prop) (states : OrderedDict String (List (String × Json F))) : Prop :=
  states.Every fun _ viewer => EveryFloat P (.obj viewer)

theorem clean_addAsset {payloadMeta fxcmBlock : Json F} {s : BuildState F}
    {asset : List (String × Json F)} (hasset : CleanAsset P asset)
    (hmeta : EveryFloat P payloadMeta) (hfxcm : EveryFloat P fxcmBlock)
    (hs : CleanStates P s.result ∧ CleanCaches P s.caches) :
    CleanStates P (addAsset env payloadMeta fxcmBlock s asset).result ∧
      CleanCaches P (addAsset env payloadMeta fxcmBlock s asset).caches := by
  obtain ⟨hresult, hcaches⟩ := hs
  unfold addAsset
  cases symbolKey env asset with
  | none => exact ⟨hresult, hcaches⟩
  | some symbol =>
      have hcache : ∀ c ∈ some (cacheOf s.caches symbol), CleanCache P c := by
        intro c hc
        cases hc
        unfold cacheOf
        cases hown : s.caches symbol with
        | none => exact cleanCache_empty
        | some own => exact hcaches symbol own hown
      obtain ⟨hviewer, hleft⟩ := clean_buildViewerState hfloat hasset hmeta hfxcm hcache
      constructor
      · dsimp only
        cases hbuilt : (buildViewerState env asset payloadMeta fxcmBlock
            (some (cacheOf s.caches symbol))).1 with
        | none => exact hresult
        | some viewer => exact OrderedDict.every_set hresult (hviewer viewer hbuilt)
      · intro other c hc
        dsimp only at hc
        rw [Function.update_apply] at hc
        split_ifs at hc
        · exact hleft c hc
        · exact hcaches other c hc

theorem clean_addAssets {payloadMeta fxcmBlock : Json F} {s : BuildState F} {items : List (Json F)}
    (hitems : ∀ asset, .obj asset ∈ items → CleanAsset P asset)
    (hmeta : EveryFloat P payloadMeta) (hfxcm : EveryFloat P fxcmBlock)
    (hs : CleanStates P s.result ∧ CleanCaches P s.caches) :
    CleanStates P (addAssets env payloadMeta fxcmBlock s items).2.result ∧
      CleanCaches P (addAssets env payloadMeta fxcmBlock s items).2.caches := by
  induction items generalizing s with
  | nil => exact hs
  | cons item items ih =>
      cases item with
      | obj asset =>
          exact ih (fun a ha => hitems a (List.mem_cons_of_mem _ ha))
            (clean_addAsset hfloat (hitems asset List.mem_cons_self) hmeta hfxcm hs)
      | _ => exact hs

/-- The states of a clean payload have such floats only. -/
theorem clean_buildViewerStatesFromPayload {payload : Json F}
    {caches : String → Option (ViewerStateCache F)} (hpayload : CleanPayload P payload)
    (hcaches : CleanCaches P caches) :
    (∀ states ∈ (buildViewerStatesFromPayload env payload caches).1, CleanStates P states) ∧
      CleanCaches P (buildViewerStatesFromPayload env payload caches).2 := by
  unfold buildViewerStatesFromPayload
  cases payload with
  | obj fields =>
      have hget : ∀ name ∈ ["meta", "fxcm"], EveryFloat P (ViewerStateBuilder.get fields name) := by
        intro name hname
        rcases get_cases fields name with hnull | hmem
        · rw [hnull]
          exact everyFloat_null
        · exact (hpayload _ hmem).1 hname
      dsimp only
      split
      · rename_i items hassets
        have hitems : ∀ asset, .obj asset ∈ items → CleanAsset P asset := by
          unfold orElse at hassets
          split_ifs at hassets
          · rcases get_cases fields "assets" with hnull | hmem
            · rw [hnull] at hassets
              cases hassets
            · exact (hpayload _ hmem).2 rfl items hassets
          · cases hassets
            simp
        obtain ⟨hstates, hleft⟩ := clean_addAssets hfloat hitems
          (everyFloat_metaOf (hget "meta" (by decide))) (hget "fxcm" (by decide))
          (s := ⟨OrderedDict.empty, caches⟩) ⟨OrderedDict.every_empty _, hcaches⟩
        refine ⟨fun states hreturned => ?_, hleft⟩
        dsimp only at hreturned
        split_ifs at hreturned
        · cases hreturned
          exact hstates
        · cases hreturned
      · exact ⟨by simp, hcaches⟩
  | _ => exact ⟨by simp, hcaches⟩

end

theorem floatOrNull_sortKeys {v : Json F} (h : FloatOrNull v) : FloatOrNull (sortKeys v) := by
  rcases h with rfl | ⟨x, rfl⟩
  · exact Or.inl rfl
  · exact Or.inr ⟨x, rfl⟩

theorem mem_coerceDict_sortKeys {v : Json F} {field : String × Json F}
    (h : field ∈ coerceDict (sortKeys v)) :
    ∃ own ∈ coerceDict v, field = (own.1, sortKeys own.2) := by
  cases v with
  | obj fields =>
      have hmem := (KeyedRows.mem_sortBy Prod.fst).mp h
      rw [sortFields_eq] at hmem
      obtain ⟨own, hown, rfl⟩ := List.mem_map.mp hmem
      exact ⟨own, hown, rfl⟩
  | _ => cases h

theorem cleanAsset_sortKeys {asset out : List (String × Json F)} (h : CleanAsset P asset)
    (hout : sortKeys (.obj asset) = .obj out) : CleanAsset P out := by
  intro field hfield
  have hmem : field ∈ coerceDict (sortKeys (.obj asset)) := by
    rw [hout]
    exact hfield
  obtain ⟨own, hown, rfl⟩ := mem_coerceDict_sortKeys hmem
  obtain ⟨hprice, hpart, hstats⟩ := h own hown
  refine ⟨fun hname => ?_, fun hname => everyFloat_sortKeys.mpr (hpart hname), fun hname => ?_⟩
  · exact ⟨floatOrNull_sortKeys (hprice hname).1, everyFloat_sortKeys.mpr (hprice hname).2⟩
  · intro item hitem hkey
    obtain ⟨stat, hstat, rfl⟩ := mem_coerceDict_sortKeys hitem
    obtain ⟨hfloat, hevery⟩ := hstats hname stat hstat hkey
    exact ⟨floatOrNull_sortKeys hfloat, everyFloat_sortKeys.mpr hevery⟩

/-- What is read from the text of a clean payload is clean. -/
theorem cleanPayload_sortKeys {payload : Json F} (h : CleanPayload P payload) :
    CleanPayload P (sortKeys payload) := by
  intro field hfield
  obtain ⟨own, hown, rfl⟩ := mem_coerceDict_sortKeys hfield
  obtain ⟨hfloats, hassets⟩ := h own hown
  refine ⟨fun hname => everyFloat_sortKeys.mpr (hfloats hname),
    fun hname items hitems asset hmem => ?_⟩
  cases hv : own.2 with
  | arr ownItems =>
      rw [hv] at hitems
      simp only [sortKeys, sortItems_eq, Json.arr.injEq] at hitems
      subst hitems
      obtain ⟨j, hj, hsorted⟩ := List.mem_map.mp hmem
      cases j with
      | obj ownAsset => exact cleanAsset_sortKeys (hassets hname ownItems hv ownAsset hj) hsorted
      | _ => cases hsorted
  | _ =>
      rw [hv] at hitems
      cases hitems

end SmcPipeline.ViewerNumbers
