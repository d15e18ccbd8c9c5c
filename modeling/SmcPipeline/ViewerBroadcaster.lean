import SmcPipeline.OrderedDict
import SmcPipeline.Serializers
import Mathlib.Logic.Function.Basic

/-!
# Viewer states from a payload

`build_viewer_states_from_payload` and `load_initial_snapshot` of
`UI_v2/smc_viewer_broadcaster.py`. An asset that cannot be built is skipped, and the assets of
one symbol have nothing to do with those of another; but a payload that is no dict, assets that
are no list and an asset that is no dict raise outside the `try` block.
-/

namespace SmcPipeline

/-- The loop over the assets: the states so far and the caches by symbol. -/
structure BuildState (F : Type*) where
  result : OrderedDict String (List (String × Json F))
  caches : String → Option (ViewerStateCache F)

structure BroadcasterState (F : Type*) where
  caches : String → Option (ViewerStateCache F)
  snapshot : OrderedDict String (List (String × Json F))

namespace ViewerBroadcaster

open FxcmIngestor Serialization ViewerStateBuilder

variable {F : Type*} (env : ViewerRuntime F)

def normalizeSmcSchemaVersion (value : String) : String :=
  if value = "smc_state_v1" then "smc_state_v1"
  else if value = "1.2" then "smc_state_v1"
  else value

/-- `meta` of a payload with its schema version normalised. -/
def metaOf (payload : List (String × Json F)) : Json F :=
  match orElse env (get payload "meta") (.obj []) with
  | .obj metaRaw =>
    let schemaRaw := get metaRaw "schema_version"
    if truthy env schemaRaw then
      .obj (setItem metaRaw "schema_version"
        (.str (normalizeSmcSchemaVersion (env.str schemaRaw))))
    else .obj metaRaw
  | metaRaw => metaRaw

/-- The symbol under which the state of an asset is kept. -/
def symbolKey (asset : List (String × Json F)) : Option String :=
  let symbolRaw := get asset "symbol"
  if truthy env symbolRaw then
    let symbol := env.upper (strip (env.str symbolRaw))
    if symbol = "" then none else some symbol
  else none

/-- The cache of a symbol, `ViewerStateCache()` where there is none. -/
def cacheOf (caches : String → Option (ViewerStateCache F)) (symbol : String) :
    ViewerStateCache F :=
  (caches symbol).getD ⟨[], [], none⟩

/-- One round of the loop on an asset that is a dict. -/
def addAsset (payloadMeta fxcmBlock : Json F) (s : BuildState F)
    (asset : List (String × Json F)) : BuildState F :=
  match symbolKey env asset with
  | none => s
  | some symbol =>
    let built := buildViewerState env asset payloadMeta fxcmBlock (some (cacheOf s.caches symbol))
    { result := (built.1.map (s.result.set symbol)).getD s.result
      caches := Function.update s.caches symbol built.2 }

/-- The loop; `false` where an asset without `get` ends it. -/
def addAssets (payloadMeta fxcmBlock : Json F) : BuildState F → List (Json F) → Bool × BuildState F
  | s, [] => (true, s)
  | s, .obj asset :: rest =>
    addAssets payloadMeta fxcmBlock (addAsset env payloadMeta fxcmBlock s asset) rest
  | s, _ :: _ => (false, s)

/-- The states by symbol, `none` where an exception is raised, and the caches after the call. -/
def buildViewerStatesFromPayload (payload : Json F)
    (caches : String → Option (ViewerStateCache F)) :
    Option (OrderedDict String (List (String × Json F))) ×
      (String → Option (ViewerStateCache F)) :=
  match payload with
  | .obj fields =>
    match orElse env (get fields "assets") (.arr []) with
    | .arr assets =>
      let looped := addAssets env (metaOf env fields) (get fields "fxcm")
        ⟨OrderedDict.empty, caches⟩ assets
      (if looped.1 then some looped.2.result else none, looped.2.caches)
    | _ => (none, caches)
  | _ => (none, caches)

/-- The map that is returned, `none` where an exception is raised. `read` is what Redis
returned, if it did, and `jsonLoads` may fail. -/
def loadInitialSnapshot (jsonLoads : String → Option (Json F)) (read : Option (Option String))
    (s : BroadcasterState F) :
    Option (OrderedDict String (List (String × Json F))) × BroadcasterState F :=
  match read with
  | none => (some OrderedDict.empty, s)
  | some none => (some OrderedDict.empty, s)
  | some (some raw) =>
    if raw = "" then (some OrderedDict.empty, s)
    else
      match jsonLoads raw with
      | none => (some OrderedDict.empty, s)
      | some payload =>
        let built := buildViewerStatesFromPayload env payload s.caches
        let s := { s with caches := built.2 }
        match built.1 with
        | none => (none, s)
        | some viewerStates =>
          if viewerStates.items = [] then (some OrderedDict.empty, s)
          else
            let snapshot := s.snapshot.update viewerStates
            (some snapshot, { s with snapshot := snapshot })

/-- The state in which `run_forever` comes to its first subscription. -/
def subscribed (jsonLoads : String → Option (Json F)) (read : Option (Option String))
    (s : BroadcasterState F) : Option (BroadcasterState F) :=
  let loaded := loadInitialSnapshot env jsonLoads read s
  loaded.1.map fun _ => loaded.2

/-- The assets of a payload that are dicts. -/
def assetDicts : Json F → List (List (String × Json F))
  | .obj fields =>
    match get fields "assets" with
    | .arr items => items.filterMap asDict
    | _ => []
  | _ => []

/-- The asset is built, whatever else there is. -/
def Accepted (asset : List (String × Json F)) : Prop :=
  ∀ payloadMeta fxcmBlock cache,
    (buildViewerState env asset payloadMeta fxcmBlock cache).1.isSome = true

/-- An asset of a symbol: its state takes the place of the last one if it is built. -/
def buildNext (payloadMeta fxcmBlock : Json F)
    (s : Option (List (String × Json F)) × Option (ViewerStateCache F))
    (asset : List (String × Json F)) :
    Option (List (String × Json F)) × Option (ViewerStateCache F) :=
  let built := buildViewerState env asset payloadMeta fxcmBlock s.2
  (built.1.or s.1, built.2)

/-- The state of a symbol after its assets, which see no asset of another symbol. -/
def stateOfSymbol (payload : Json F) (caches : String → Option (ViewerStateCache F))
    (symbol : String) : Option (List (String × Json F)) :=
  let own := (assetDicts payload).filter fun asset => symbolKey env asset = some symbol
  (own.foldl (buildNext env (metaOf env (coerceDict payload)) (get (coerceDict payload) "fxcm"))
    (none, some (cacheOf caches symbol))).1

/-- A dict whose assets are missing, empty or a list of dicts. -/
def WellShaped (payload : Json F) : Prop :=
  ∃ fields, payload = .obj fields ∧
    (truthy env (get fields "assets") = true →
      ∃ items, get fields "assets" = .arr items ∧ ∀ item ∈ items, (asDict item).isSome = true)

variable {env}

/-- Whether an asset is built depends on nothing beside it. -/
theorem accepted_iff {asset : List (String × Json F)} (payloadMeta fxcmBlock : Json F)
    (cache : Option (ViewerStateCache F)) :
    Accepted env asset ↔
      (buildViewerState env asset payloadMeta fxcmBlock cache).1.isSome = true := by
  constructor
  · intro h
    exact h payloadMeta fxcmBlock cache
  · intro h payloadMeta' fxcmBlock' cache'
    rw [buildViewerState_isSome_iff] at h ⊢
    exact h

variable (env) in
theorem isSome_cache_buildViewerState (asset : List (String × Json F))
    (payloadMeta fxcmBlock : Json F) (cache : ViewerStateCache F) :
    (buildViewerState env asset payloadMeta fxcmBlock (some cache)).2.isSome = true := by
  unfold buildViewerState persistEvents persistZones
  dsimp only
  split
  · split_ifs <;> (split <;> rfl)
  · rfl

variable (env) in
/-- What one asset does to the state and to the cache of a symbol. -/
theorem addAsset_at (payloadMeta fxcmBlock : Json F) (s : BuildState F)
    (asset : List (String × Json F)) (symbol : String) :
    ((addAsset env payloadMeta fxcmBlock s asset).result.get? symbol,
        some (cacheOf (addAsset env payloadMeta fxcmBlock s asset).caches symbol)) =
      if symbolKey env asset = some symbol then
        buildNext env payloadMeta fxcmBlock (s.result.get? symbol, some (cacheOf s.caches symbol))
          asset
      else (s.result.get? symbol, some (cacheOf s.caches symbol)) := by
  unfold addAsset
  cases hkey : symbolKey env asset with
  | none => rw [if_neg (by simp)]
  | some own =>
      dsimp only
      by_cases hown : own = symbol
      · subst hown
        obtain ⟨cache, hcache⟩ := Option.isSome_iff_exists.mp (isSome_cache_buildViewerState env
          asset payloadMeta fxcmBlock (cacheOf s.caches own))
        rw [if_pos rfl]
        unfold buildNext
        rw [hcache]
        congr 1
        · cases (buildViewerState env asset payloadMeta fxcmBlock
            (some (cacheOf s.caches own))).1 with
          | none => rfl
          | some viewer => exact OrderedDict.get?_set_self _ _ _
        · unfold cacheOf
          rw [Function.update_self]
          exact hcache.symm
      · rw [if_neg (by simpa using hown)]
        congr 1
        · cases (buildViewerState env asset payloadMeta fxcmBlock
            (some (cacheOf s.caches own))).1 with
          | none => rfl
          | some viewer =>
              exact (OrderedDict.get?_set _ _ _ _).trans (if_neg (Ne.symm hown))
        · unfold cacheOf
          rw [Function.update_of_ne (Ne.symm hown)]

variable (env) in
/-- The loop ends early exactly where an asset is no dict, and otherwise it leaves for every
symbol what its own assets leave. -/
theorem addAssets_spec (payloadMeta fxcmBlock : Json F) (s : BuildState F)
    (items : List (Json F)) :
    ((addAssets env payloadMeta fxcmBlock s items).1 = true ↔
        ∀ item ∈ items, (asDict item).isSome = true) ∧
      ((addAssets env payloadMeta fxcmBlock s items).1 = true → ∀ symbol,
        (addAssets env payloadMeta fxcmBlock s items).2.result.get? symbol =
          (((items.filterMap asDict).filter fun asset => symbolKey env asset = some symbol).foldl
            (buildNext env payloadMeta fxcmBlock)
            (s.result.get? symbol, some (cacheOf s.caches symbol))).1) := by
  induction items generalizing s with
  | nil => exact ⟨by simp [addAssets], fun _ symbol => rfl⟩
  | cons item rest ih =>
      cases item with
      | obj asset =>
          obtain ⟨hreturns, hstates⟩ := ih (addAsset env payloadMeta fxcmBlock s asset)
          constructor
          · rw [List.forall_mem_cons]
            exact hreturns.trans (by simp [asDict])
          · intro h symbol
            apply (hstates h symbol).trans
            have hstep := addAsset_at env payloadMeta fxcmBlock s asset symbol
            rw [List.filterMap_cons_some (show asDict (Json.obj asset) = some asset from rfl)]
            by_cases hkey : symbolKey env asset = some symbol
            · rw [if_pos hkey] at hstep
              rw [List.filter_cons_of_pos (by simpa using hkey), List.foldl_cons, ← hstep]
            · rw [if_neg hkey] at hstep
              rw [List.filter_cons_of_neg (by simpa using hkey), hstep]
      | _ => exact ⟨by simp [addAssets, asDict], fun h => by cases h⟩

variable (env) in
/-- Without assets the call returns nothing, and with a list of them what the loop leaves. -/
theorem build_obj (fields : List (String × Json F))
    (caches : String → Option (ViewerStateCache F)) :
    (truthy env (get fields "assets") = false ∧
        (buildViewerStatesFromPayload env (.obj fields) caches).1 = some OrderedDict.empty ∧
        assetDicts (.obj fields) = []) ∨
      (truthy env (get fields "assets") = true ∧
        ((∃ items, get fields "assets" = .arr items ∧
            (buildViewerStatesFromPayload env (.obj fields) caches).1 =
              let looped := addAssets env (metaOf env fields) (get fields "fxcm")
                ⟨OrderedDict.empty, caches⟩ items
              if looped.1 then some looped.2.result else none) ∨
          ((∀ items, get fields "assets" ≠ .arr items) ∧
            (buildViewerStatesFromPayload env (.obj fields) caches).1 = none))) := by
  unfold buildViewerStatesFromPayload orElse assetDicts
  dsimp only
  cases htruthy : truthy env (get fields "assets") with
  | false =>
      refine Or.inl ⟨rfl, rfl, ?_⟩
      cases hassets : get fields "assets" with
      | arr items =>
          rw [hassets] at htruthy
          cases items with
          | nil => rfl
          | cons item items => cases htruthy
      | _ => rfl
  | true =>
      refine Or.inr ⟨rfl, ?_⟩
      rw [if_pos rfl]
      cases hassets : get fields "assets" with
      | arr items => exact Or.inl ⟨items, rfl, rfl⟩
      | _ => exact Or.inr ⟨fun items h => (by cases h), rfl⟩

variable (env) in
/-- The call returns exactly where the payload is well shaped. -/
theorem returns_iff (payload : Json F) (caches : String → Option (ViewerStateCache F)) :
    (buildViewerStatesFromPayload env payload caches).1.isSome = true ↔
      WellShaped env payload := by
  cases payload with
  | obj fields =>
      unfold WellShaped
      rcases build_obj env fields caches with
        ⟨hempty, hbuilt, -⟩ | ⟨htruthy, ⟨items, hitems, hbuilt⟩ | ⟨hother, hbuilt⟩⟩
      · rw [hbuilt]
        exact iff_of_true rfl ⟨fields, rfl, fun h => by rw [hempty] at h; cases h⟩
      · have hloop := (addAssets_spec env (metaOf env fields) (get fields "fxcm")
          ⟨OrderedDict.empty, caches⟩ items).1
        rw [hbuilt]
        constructor
        · intro h
          refine ⟨fields, rfl, fun _ => ⟨items, hitems, hloop.mp ?_⟩⟩
          by_contra hnot
          simp [hnot] at h
        · rintro ⟨fields', heq, hdicts⟩
          cases heq
          obtain ⟨items', hitems', hall⟩ := hdicts htruthy
          rw [hitems] at hitems'
          cases hitems'
          dsimp only
          rw [if_pos (hloop.mpr hall)]
          rfl
      · rw [hbuilt]
        apply iff_of_false (by simp)
        rintro ⟨fields', heq, hdicts⟩
        cases heq
        obtain ⟨items, hitems, -⟩ := hdicts htruthy
        exact hother items hitems
  | _ =>
      apply iff_of_false (by simp [buildViewerStatesFromPayload])
      rintro ⟨fields, heq, -⟩
      cases heq

/-- What it returns then is the state of every symbol. -/
theorem returned_states {payload : Json F} {caches : String → Option (ViewerStateCache F)}
    {states : OrderedDict String (List (String × Json F))}
    (h : (buildViewerStatesFromPayload env payload caches).1 = some states) (symbol : String) :
    states.get? symbol = stateOfSymbol env payload caches symbol := by
  unfold stateOfSymbol
  cases payload with
  | obj fields =>
      rcases build_obj env fields caches with
        ⟨-, hbuilt, hdicts⟩ | ⟨-, ⟨items, hitems, hbuilt⟩ | ⟨-, hbuilt⟩⟩
      · rw [hbuilt] at h
        cases h
        rw [hdicts]
        rfl
      · rw [hbuilt] at h
        dsimp only at h
        split_ifs at h with hloop
        cases h
        have hdicts : assetDicts (.obj fields) = items.filterMap asDict := by
          unfold assetDicts
          dsimp only
          rw [hitems]
        rw [hdicts]
        exact (addAssets_spec env (metaOf env fields) (get fields "fxcm")
          ⟨OrderedDict.empty, caches⟩ items).2 hloop symbol
      · rw [hbuilt] at h
        cases h
  | _ => cases h

/-- A symbol has a state exactly where one of its assets is built. -/
theorem stateOfSymbol_isSome_iff (payload : Json F)
    (caches : String → Option (ViewerStateCache F)) (symbol : String) :
    (stateOfSymbol env payload caches symbol).isSome = true ↔
      ∃ asset ∈ assetDicts payload, symbolKey env asset = some symbol ∧ Accepted env asset := by
  have hfold : ∀ (payloadMeta fxcmBlock : Json F) (own : List (List (String × Json F)))
      (s : Option (List (String × Json F)) × Option (ViewerStateCache F)),
      (own.foldl (buildNext env payloadMeta fxcmBlock) s).1.isSome = true ↔
        s.1.isSome = true ∨ ∃ asset ∈ own, Accepted env asset := by
    intro payloadMeta fxcmBlock own
    induction own with
    | nil => simp
    | cons asset own ih =>
        intro s
        rw [List.foldl_cons, ih, List.exists_mem_cons_iff, accepted_iff payloadMeta fxcmBlock s.2]
        unfold buildNext
        dsimp only
        rw [Option.isSome_or, Bool.or_eq_true]
        tauto
  unfold stateOfSymbol
  dsimp only
  rw [hfold]
  simp only [Option.isSome_none, Bool.false_eq_true, false_or, List.mem_filter, decide_eq_true_eq]
  constructor
  · rintro ⟨asset, ⟨hmem, hkey⟩, haccepted⟩
    exact ⟨asset, hmem, hkey, haccepted⟩
  · rintro ⟨asset, hmem, hkey, haccepted⟩
    exact ⟨asset, ⟨hmem, hkey⟩, haccepted⟩

variable (env) in
/-- `load_initial_snapshot` raises exactly where the snapshot can be read and decoded and its
payload is not well shaped. -/
theorem subscribed_iff (jsonLoads : String → Option (Json F)) (read : Option (Option String))
    (s : BroadcasterState F) :
    (subscribed env jsonLoads read s).isSome = true ↔
      ∀ raw payload, read = some (some raw) → raw ≠ "" → jsonLoads raw = some payload →
        WellShaped env payload := by
  unfold subscribed loadInitialSnapshot
  dsimp only
  rw [Option.isSome_map]
  rcases read with _ | _ | raw
  · simp
  · simp
  · dsimp only
    by_cases hempty : raw = ""
    · rw [if_pos hempty]
      apply iff_of_true rfl
      intro raw' payload hraw hne
      cases hraw
      exact absurd hempty hne
    · rw [if_neg hempty]
      cases hloads : jsonLoads raw with
      | none =>
          apply iff_of_true rfl
          intro raw' payload hraw _ hpayload
          cases hraw
          rw [hloads] at hpayload
          cases hpayload
      | some payload =>
          have hreturns := returns_iff env payload s.caches
          dsimp only
          constructor
          · intro h raw' payload' hraw _ hpayload
            cases hraw
            rw [hloads] at hpayload
            cases hpayload
            apply hreturns.mp
            cases hbuilt : (buildViewerStatesFromPayload env payload s.caches).1 with
            | none => simp [hbuilt] at h
            | some states => rfl
          · intro h
            have hshaped := h raw payload rfl hempty hloads
            obtain ⟨states, hstates⟩ := Option.isSome_iff_exists.mp (hreturns.mpr hshaped)
            rw [hstates]
            dsimp only
            split_ifs <;> rfl

variable (env) in
/-- The states of all assets that can be built are returned, and the rest is skipped, exactly
where the payload is a dict whose assets are missing, empty or a list of dicts; the broadcaster
comes to its subscription exactly where a snapshot that is there is of that shape. -/
theorem broadcaster_survives_iff :
    (∀ (payload : Json F) (caches : String → Option (ViewerStateCache F)),
      (∃ states, (buildViewerStatesFromPayload env payload caches).1 = some states ∧
          ∀ symbol, states.get? symbol = stateOfSymbol env payload caches symbol ∧
            ((states.get? symbol).isSome = true ↔ ∃ asset ∈ assetDicts payload,
              symbolKey env asset = some symbol ∧ Accepted env asset)) ↔
        WellShaped env payload) ∧
      ∀ (jsonLoads : String → Option (Json F)) (read : Option (Option String))
        (s : BroadcasterState F),
        (subscribed env jsonLoads read s).isSome = true ↔
          ∀ raw payload, read = some (some raw) → raw ≠ "" → jsonLoads raw = some payload →
            WellShaped env payload := by
  constructor
  · intro payload caches
    rw [← returns_iff env payload caches]
    constructor
    · rintro ⟨states, hstates, -⟩
      rw [hstates]
      rfl
    · intro h
      obtain ⟨states, hstates⟩ := Option.isSome_iff_exists.mp h
      refine ⟨states, hstates, fun symbol => ?_⟩
      have hstate := returned_states hstates symbol
      refine ⟨hstate, ?_⟩
      rw [hstate]
      exact stateOfSymbol_isSome_iff payload caches symbol
  · exact subscribed_iff env

/-- A payload whose assets are not all dicts. -/
def strayAsset : Json (Option ℚ) :=
  .obj [("assets", .arr [.obj [("symbol", .str "XAUUSD")], .null])]

/-- With a `null` among the assets nothing is returned, and such a snapshot keeps the broadcaster
from its subscription. -/
theorem stray_asset_stops_the_broadcaster :
    (buildViewerStatesFromPayload Serializers.viewerRuntime strayAsset fun _ => none).1 = none ∧
      subscribed Serializers.viewerRuntime (fun _ => some strayAsset) (some (some "snapshot"))
        ⟨fun _ => none, OrderedDict.empty⟩ = none := by
  have hshape : ¬ WellShaped Serializers.viewerRuntime strayAsset := by
    rintro ⟨fields, heq, hdicts⟩
    cases heq
    obtain ⟨items, hitems, hall⟩ := hdicts rfl
    cases hitems
    have hnull := hall .null (by simp)
    cases hnull
  constructor
  · apply Option.not_isSome_iff_eq_none.mp
    intro h
    exact hshape ((returns_iff _ _ _).mp h)
  · apply Option.not_isSome_iff_eq_none.mp
    intro h
    exact hshape ((subscribed_iff _ _ _ _).mp h "snapshot" strayAsset rfl (by decide) rfl)

end ViewerBroadcaster

end SmcPipeline
