import SmcPipeline.CleanHints

/-!
# Numbers in the published state

Of an asset in the payload the viewer reads the prices, the parts of the hint and three of the
stats. The manager's assets are clean if these are numbers or `null` there; then so are those that
are published of them, and the manager's assets stay clean.
-/

namespace SmcPipeline.PublishedNumbers

open JsonText SmcPublisher FxcmIngestor CleanHints

variable {K : Type*}

def NumberOrNull (v : Json (PyFloat K)) : Prop := v = .null ∨ ∃ x, v = .float x ∧ IsNumber x

/-- The stats that become floats of a viewer state. -/
def statKeys : List String := ["current_price", "last_price", "pipeline_ready_ratio"]

/-- The items of an asset that become floats of a viewer state, beside its hint. -/
def shownKeys : List String :=
  ["price", "last_price", "smc_structure", "smc_liquidity", "smc_zones", "stats"]

def CleanStat (name : String) (v : Json (PyFloat K)) : Prop :=
  (name ∈ statKeys → NumberOrNull v) ∧ name ≠ "smc_hint"

/-- An item of an asset in the manager. -/
def CleanField (name : String) (v : Json (PyFloat K)) : Prop :=
  (name = "smc_hint" → Clean v) ∧ name ∉ shownKeys

structure CleanManaged (asset : SmcAsset K) : Prop where
  stats : asset.stats.Every CleanStat
  fields : asset.fields.Every CleanField

/-- The parts of the hint that are shown. -/
def partKeys : List String := ["smc_hint", "smc_structure", "smc_liquidity", "smc_zones"]

/-- An item of an asset in the payload, beside its stats. -/
def CleanShown (name : String) (v : Json (PyFloat K)) : Prop :=
  (name ∈ ["price", "last_price"] → NumberOrNull v) ∧ (name ∈ partKeys → Clean v) ∧ name ≠ "stats"

/-- An item of an asset in the payload, with floats of any kind. -/
def ReadField {F : Type*} (P : F → Prop) (name : String) (v : Json F) : Prop :=
  (name ∈ ["price", "last_price"] → FloatOrNull v ∧ EveryFloat P v) ∧
    (name ∈ partKeys → EveryFloat P v) ∧
    (name = "stats" → ∀ item ∈ Serialization.coerceDict v,
      item.1 ∈ statKeys → FloatOrNull item.2 ∧ EveryFloat P item.2)

/-- An asset whose prices and parts have such floats only. -/
def CleanAsset {F : Type*} (P : F → Prop) (asset : List (String × Json F)) : Prop :=
  ∀ field ∈ asset, ReadField P field.1 field.2

theorem numberOrNull_iff {v : Json (PyFloat K)} :
    NumberOrNull v ↔ FloatOrNull v ∧ EveryFloat IsNumber v := by
  constructor
  · rintro (rfl | ⟨x, rfl, hx⟩)
    · exact ⟨Or.inl rfl, everyFloat_null⟩
    · exact ⟨Or.inr ⟨x, rfl⟩, everyFloat_float.mpr hx⟩
  · rintro ⟨rfl | ⟨x, rfl⟩, hfloat⟩
    · exact Or.inl rfl
    · exact Or.inr ⟨x, rfl, everyFloat_float.mp hfloat⟩

theorem cleanShown_of_cleanField {name : String} {v : Json (PyFloat K)} (h : CleanField name v) :
    CleanShown name v := by
  obtain ⟨hhint, hother⟩ := h
  simp only [shownKeys, List.mem_cons, List.not_mem_nil, or_false, not_or] at hother
  obtain ⟨hprice, hlast, hstructure, hliquidity, hzones, hstats⟩ := hother
  refine ⟨fun hmem => ?_, fun hmem => ?_, hstats⟩
  · simp only [List.mem_cons, List.not_mem_nil, or_false] at hmem
    rcases hmem with rfl | rfl
    · exact absurd rfl hprice
    · exact absurd rfl hlast
  · simp only [partKeys, List.mem_cons, List.not_mem_nil, or_false] at hmem
    rcases hmem with rfl | rfl | rfl | rfl
    · exact hhint rfl
    · exact absurd rfl hstructure
    · exact absurd rfl hliquidity
    · exact absurd rfl hzones

/-- Items that the viewer does not read may hold any float. -/
theorem cleanShown_of_notMem {name : String}
    (h : name ∉ ["price", "last_price", "stats"] ++ partKeys) (v : Json (PyFloat K)) :
    CleanShown name v := by
  refine ⟨fun hmem => absurd ?_ h, fun hmem => absurd (List.mem_append_right _ hmem) h, ?_⟩
  · simp only [List.mem_cons, List.not_mem_nil, or_false] at hmem
    rcases hmem with rfl | rfl <;> simp
  · rintro rfl
    exact h (by simp)

theorem cleanShown_of_clean {name : String} {v : Json (PyFloat K)}
    (h : name ∉ ["price", "last_price", "stats"]) (hv : Clean v) : CleanShown name v := by
  simp only [List.mem_cons, List.not_mem_nil, or_false, not_or] at h
  refine ⟨fun hmem => ?_, fun _ => hv, h.2.2⟩
  simp only [List.mem_cons, List.not_mem_nil, or_false] at hmem
  exact absurd hmem (not_or.mpr ⟨h.1, h.2.1⟩)

/-- What `get` finds is an item of the dict, or `null`. -/
theorem getItem_cases {R : String → Json (PyFloat K) → Prop} {d : Dict K} (h : d.Every R)
    (name : String) : getItem d name = .null ∨ R name (getItem d name) := by
  unfold getItem
  cases hget : d.get? name with
  | none => exact Or.inl rfl
  | some v => exact Or.inr (h _ (OrderedDict.mem_items_of_get? hget))

/-- What is published of an asset can be read. -/
theorem cleanAsset_assetDict {stats asset : Dict K} (hstats : stats.Every CleanStat)
    (hasset : asset.Every CleanShown) :
    ∃ fields, assetDict stats asset = .obj fields ∧ CleanAsset IsNumber fields := by
  refine ⟨_, rfl, fun field hfield => ?_⟩
  rcases List.mem_append.mp hfield with hfield | hfield
  · obtain ⟨hprice, hpart, hname⟩ := hasset field hfield
    exact ⟨fun hmem => numberOrNull_iff.mp (hprice hmem), fun hmem => (hpart hmem).floats,
      fun heq => absurd heq hname⟩
  · obtain rfl := List.mem_singleton.mp hfield
    have hprice : "stats" ∉ ["price", "last_price"] := by decide
    have hpart : "stats" ∉ partKeys := by decide
    refine ⟨fun hmem => absurd hmem hprice, fun hmem => absurd hmem hpart, fun _ => ?_⟩
    intro item hitem hmem
    exact numberOrNull_iff.mp ((hstats item hitem).1 hmem)

theorem every_setOrPop {R : String → Json (PyFloat K) → Prop} {asset : Dict K} {name : String}
    {value : Option (Json (PyFloat K))} (h : asset.Every R) (hvalue : ∀ v ∈ value, R name v) :
    (setOrPop asset name value).Every R := by
  cases value with
  | none => exact OrderedDict.every_erase h name
  | some v => exact OrderedDict.every_set h (hvalue v rfl)

section

variable [Field K] [LinearOrder K] (env : PublishRuntime K)

theorem every_setPrice {R : String → Json (PyFloat K) → Prop} {asset : Dict K} {name : String}
    {value : Option (PyFloat K)} (h : asset.Every R) (hvalue : ∀ x ∈ value, R name (.float x))
    (htext : ∀ s, R (name ++ "_str") (.str s)) : (setPrice env name value asset).Every R := by
  unfold setPrice
  cases hfilter : value.filter positive with
  | none => exact OrderedDict.every_erase (OrderedDict.every_erase h _) _
  | some x =>
      have hset := OrderedDict.every_set h (hvalue x (Option.eq_some_of_filter_eq_some hfilter))
      dsimp only
      split_ifs
      · exact hset
      · exact OrderedDict.every_set hset (htext _)

theorem every_setLivePrice {stats asset out : Dict K} {name : String}
    (hname : name ∉ ["price", "last_price", "stats"] ++ partKeys)
    (htext : name ++ "_str" ∉ ["price", "last_price", "stats"] ++ partKeys)
    (hasset : asset.Every CleanShown) (h : setLivePrice env stats name asset = some out) :
    out.Every CleanShown := by
  obtain ⟨value, -, rfl⟩ := Option.map_eq_some_iff.mp h
  exact every_setPrice env hasset (fun x _ => cleanShown_of_notMem hname _)
    fun s => cleanShown_of_notMem htext _

/-- The price of the stats is shown only where it is a number, and nothing else that is shown of
the stats is read. -/
theorem every_showStats {stats asset out : Dict K} (hstats : stats.Every CleanStat)
    (hasset : asset.Every CleanShown) (h : showStats env stats asset = some out) :
    out.Every CleanShown := by
  unfold showStats at h
  obtain ⟨price, hprice, h⟩ := Option.bind_eq_some_iff.mp h
  obtain ⟨mid, hmid, h⟩ := Option.bind_eq_some_iff.mp h
  obtain ⟨bid, hbid, h⟩ := Option.bind_eq_some_iff.mp h
  obtain ⟨ask, hask, h⟩ := Option.bind_eq_some_iff.mp h
  obtain ⟨spread, -, h⟩ := Option.bind_eq_some_iff.mp h
  obtain ⟨age, -, h⟩ := Option.bind_eq_some_iff.mp h
  obtain ⟨volume, -, h⟩ := Option.bind_eq_some_iff.mp h
  obtain ⟨latency, -, h⟩ := Option.bind_eq_some_iff.mp h
  cases h
  have hstat : NumberOrNull (getItem stats "current_price") := by
    rcases getItem_cases hstats "current_price" with hnull | ⟨hstat, -⟩
    · exact Or.inl hnull
    · exact hstat (by decide)
  have hfloat : ∀ x ∈ price, CleanShown "price" (.float x) := by
    intro x hx
    have hnumber : IsNumber x := by
      rcases hstat with hnull | ⟨y, hy, hnumber⟩
      · rw [hnull] at hprice
        cases hprice
        cases hx
      · rw [hy] at hprice
        unfold safeFloat at hprice
        dsimp only at hprice
        rw [env.float_float] at hprice
        cases hprice
        cases hx
        exact hnumber
    exact ⟨fun _ => Or.inr ⟨x, rfl, hnumber⟩, fun hmem => absurd hmem (by decide), by decide⟩
  have hshown := every_setPrice env hasset hfloat fun s => cleanShown_of_notMem (by decide) _
  have hshown := every_setLivePrice env (by decide) (by decide) hshown hmid
  have hshown := every_setLivePrice env (by decide) (by decide) hshown hbid
  have hshown := every_setLivePrice env (by decide) (by decide) hshown hask
  have hpop : ∀ (name : String) (value : Option (Json (PyFloat K))) {asset : Dict K},
      name ∉ ["price", "last_price", "stats"] ++ partKeys → asset.Every CleanShown →
      (setOrPop asset name value).Every CleanShown :=
    fun name value _ hname hasset => every_setOrPop hasset fun v _ => cleanShown_of_notMem hname v
  have hshown := hpop "live_price_spread" ((spread.filter nonnegative).map .float) (by decide) hshown
  have hshown := hpop "tick_age_sec" ((age.filter nonnegative).map .float) (by decide) hshown
  have hshown := hpop "tick_age_str"
    ((age.filter nonnegative).map fun age => .str (formatTickAge env age)) (by decide) hshown
  exact OrderedDict.every_erase (hpop "volume" _ (by decide) hshown) _

variable [FloorRing K]

omit [Field K] [LinearOrder K] [FloorRing K] in
theorem cleanItems_plainHintOf {hint : Json (PyFloat K)} (h : Clean hint) :
    CleanItems (plainHintOf hint) := by
  cases hint with
  | obj fields => exact clean_obj.mp h
  | _ =>
      intro field hfield
      obtain rfl := List.mem_singleton.mp hfield
      have hname : "value" ∉ priceKeys := by decide
      exact ⟨priceItem_of_notMem hname _, h⟩

omit [Field K] [LinearOrder K] [FloorRing K] in
theorem clean_toPlainSmcLiquidity {value : Json (PyFloat K)} (h : Clean value) :
    ∀ v ∈ toPlainSmcLiquidity value, Clean v := by
  have hempty : Clean (.obj [("pools", .arr []), ("magnets", .arr []), ("amd_phase", .null),
      ("meta", .obj [])] : Json (PyFloat K)) := by
    refine ⟨by simp, everyItem_obj.mpr ?_⟩
    simp only [List.forall_mem_cons]
    exact ⟨⟨priceItem_of_notMem (by decide) _, by simp⟩,
      ⟨priceItem_of_notMem (by decide) _, by simp⟩, ⟨priceItem_of_notMem (by decide) _, by simp⟩,
      ⟨priceItem_of_notMem (by decide) _, by simp⟩, by simp⟩
  intro v hv
  cases value with
  | null => cases hv
  | obj fields =>
      cases hv
      exact h
  | _ =>
      cases hv
      exact hempty

/-- The parts of a clean hint are clean, and so is the hint that is left with the asset. -/
theorem clean_prepareSmcHint {hint : Json (PyFloat K)} {stats asset out : Dict K}
    {plain : Option (Items K)} (hhint : Clean hint) (hasset : asset.Every CleanShown)
    (h : prepareSmcHint env hint stats asset = some (plain, out)) :
    out.Every CleanShown ∧ ∀ fields ∈ plain, CleanItems fields := by
  have hsome : ∀ hint : Json (PyFloat K), Clean hint →
      ((referencePrice env stats (plainHintOf hint)).bind fun reference =>
        (normalizeSmcPrices env reference (plainHintOf hint)).bind fun plain =>
          let shown (name : String) : Option (Json (PyFloat K)) :=
            (some (ViewerStateBuilder.get plain name)).filter
              (ViewerStateBuilder.truthy env.toViewerRuntime)
          let asset := (asset.set "smc" (.obj plain)).set "smc_hint" (.obj plain)
          let asset := setOrPop asset "smc_structure" (shown "structure")
          let asset := setOrPop asset "smc_zones" (shown "zones")
          some (some plain, setOrPop asset "smc_liquidity"
            (toPlainSmcLiquidity (ViewerStateBuilder.get plain "liquidity")))) =
        some (plain, out) →
      out.Every CleanShown ∧ ∀ fields ∈ plain, CleanItems fields := by
    intro hint hhint h
    obtain ⟨reference, -, h⟩ := Option.bind_eq_some_iff.mp h
    obtain ⟨fields, hfields, h⟩ := Option.bind_eq_some_iff.mp h
    cases h
    have hclean : CleanItems fields :=
      keepsItems_normalizeSmcPrices env reference _ _ (cleanItems_plainHintOf hhint) hfields
    have hsmc : CleanShown "smc" (.obj fields) := cleanShown_of_notMem (by decide) _
    have hsmcHint : CleanShown "smc_hint" (.obj fields) :=
      cleanShown_of_clean (by decide) (clean_obj.mpr hclean)
    have hset := OrderedDict.every_set (OrderedDict.every_set hasset hsmc) hsmcHint
    have hpart : ∀ (key name : String) (value : Json (PyFloat K)),
        key ∉ ["price", "last_price", "stats"] →
        value ∈ (some (ViewerStateBuilder.get fields name)).filter
          (ViewerStateBuilder.truthy env.toViewerRuntime) → CleanShown key value := by
      intro key name value hkey hvalue
      cases Option.eq_some_of_filter_eq_some hvalue
      exact cleanShown_of_clean hkey (clean_get hclean name)
    have hset := every_setOrPop hset fun v hv => hpart "smc_structure" "structure" v (by decide) hv
    have hset := every_setOrPop hset fun v hv => hpart "smc_zones" "zones" v (by decide) hv
    refine ⟨every_setOrPop hset fun v hv => cleanShown_of_clean (by decide)
      (clean_toPlainSmcLiquidity (clean_get hclean "liquidity") v hv), ?_⟩
    intro fields' hfields'
    cases hfields'
    exact hclean
  cases hint with
  | null =>
      cases h
      have herase : ∀ {d : Dict K} (name : String), d.Every CleanShown →
          (d.erase name).Every CleanShown := fun name hd => OrderedDict.every_erase hd name
      exact ⟨herase _ (herase _ (herase _ (herase _ (herase _ hasset)))), by simp⟩
  | _ => exact hsome _ hhint h

omit [Field K] [LinearOrder K] [FloorRing K] in
/-- The hint that is looked for in the stats is not there. -/
theorem clean_hintOf {asset : SmcAsset K} (h : CleanManaged asset) :
    Clean (hintOf asset).1 ∧ (hintOf asset).2.Every CleanStat := by
  have hfield : Clean (getItem asset.fields "smc_hint") := by
    rcases getItem_cases h.fields "smc_hint" with hnull | ⟨hclean, -⟩
    · rw [hnull]
      exact clean_null
    · exact hclean rfl
  have hstat : getItem asset.stats "smc_hint" = .null := by
    rcases getItem_cases h.stats "smc_hint" with hnull | ⟨-, hname⟩
    · exact hnull
    · exact absurd rfl hname
  unfold hintOf
  split
  · exact ⟨hstat ▸ clean_null, OrderedDict.every_erase h.stats _⟩
  · exact ⟨hfield, h.stats⟩

/-- Publishing an asset leaves it clean, and what is published of it can be read. -/
theorem clean_publishAsset {asset kept : SmcAsset K} {published : Json (PyFloat K)}
    (hasset : CleanManaged asset) (h : publishAsset env asset = some (kept, published)) :
    CleanManaged kept ∧ ∃ fields, published = .obj fields ∧ CleanAsset IsNumber fields := by
  obtain ⟨hhint, hstats⟩ := clean_hintOf hasset
  unfold publishAsset at h
  obtain ⟨shown, hshown, h⟩ := Option.bind_eq_some_iff.mp h
  obtain ⟨⟨plain, out⟩, hprepare, h⟩ := Option.bind_eq_some_iff.mp h
  cases h
  have hasset' := every_showStats env hasset.stats
    (fun p hp => cleanShown_of_cleanField (hasset.fields p hp)) hshown
  obtain ⟨hout, hplain⟩ := clean_prepareSmcHint env hhint hasset' hprepare
  refine ⟨⟨hstats, ?_⟩, cleanAsset_assetDict hstats hout⟩
  dsimp only
  split
  · exact OrderedDict.every_set hasset.fields
      ⟨fun _ => clean_obj.mpr (hplain _ rfl), by decide⟩
  · exact hasset.fields

/-- All assets of the manager are clean. -/
def CleanManager (manager : OrderedDict String (SmcAsset K)) : Prop :=
  manager.Every fun _ asset => CleanManaged asset

theorem clean_publishAssets {assets : List (String × SmcAsset K)}
    {manager out : OrderedDict String (SmcAsset K)} {published : List (Json (PyFloat K))}
    (hassets : ∀ item ∈ assets, CleanManaged item.2) (hmanager : CleanManager manager)
    (h : publishAssets env assets manager = some (out, published)) :
    CleanManager out ∧ ∀ j ∈ published, ∃ fields, j = .obj fields ∧ CleanAsset IsNumber fields := by
  induction assets generalizing manager out published with
  | nil =>
      cases h
      exact ⟨hmanager, by simp⟩
  | cons item rest ih =>
      obtain ⟨hitem, hrest⟩ := List.forall_mem_cons.mp hassets
      unfold publishAssets at h
      obtain ⟨⟨kept, first⟩, hfirst, h⟩ := Option.bind_eq_some_iff.mp h
      obtain ⟨⟨manager', others⟩, hothers, h⟩ := Option.bind_eq_some_iff.mp h
      cases h
      obtain ⟨hkept, hread⟩ := clean_publishAsset env hitem hfirst
      obtain ⟨hout, hall⟩ := ih hrest (OrderedDict.every_set hmanager hkept) hothers
      exact ⟨hout, List.forall_mem_cons.mpr ⟨hread, hall⟩⟩

omit [Field K] [LinearOrder K] [FloorRing K] in
theorem clean_dedup {manager : OrderedDict String (SmcAsset K)} (h : CleanManager manager) :
    ∀ item ∈ (dedup env manager).items.map Prod.snd, CleanManaged item.2 := by
  have hfold : ∀ (items : List (String × SmcAsset K)) (d : OrderedDict String (String × SmcAsset K)),
      (∀ item ∈ items, CleanManaged item.2) → (d.Every fun _ item => CleanManaged item.2) →
      (items.foldl (fun dedup item =>
        let symbol := env.upper (env.str (ViewerStateBuilder.orElse env.toViewerRuntime
          (getItem item.2.fields "symbol") (.str "")))
        if symbol = "" then dedup else dedup.set symbol item) d).Every
          fun _ item => CleanManaged item.2 := by
    intro items
    induction items with
    | nil => exact fun d _ hd => hd
    | cons item items ih =>
        intro d hitems hd
        obtain ⟨hitem, hitems⟩ := List.forall_mem_cons.mp hitems
        apply ih _ hitems
        dsimp only
        split_ifs
        · exact hd
        · exact OrderedDict.every_set hd hitem
  intro item hitem
  obtain ⟨pair, hpair, rfl⟩ := List.mem_map.mp hitem
  exact hfold manager.items OrderedDict.empty h (OrderedDict.every_empty _) pair hpair

/-- An item of a payload. -/
def PayloadItem {F : Type*} (P : F → Prop) (name : String) (v : Json F) : Prop :=
  (name ∈ ["meta", "fxcm"] → EveryFloat P v) ∧
    (name = "assets" → ∀ items, v = .arr items → ∀ asset, .obj asset ∈ items → CleanAsset P asset)

/-- A payload whose assets can be read, and whose other items have such floats only. -/
def CleanPayload {F : Type*} (P : F → Prop) (payload : Json F) : Prop :=
  ∀ field ∈ Serialization.coerceDict payload, PayloadItem P field.1 field.2

omit [Field K] [LinearOrder K] [FloorRing K] in
theorem cleanPayload_payloadOf {channel : String} {items fxcm : Items K}
    {assets : List (Json (PyFloat K))} (hitems : EveryFloat IsNumber (.obj items))
    (hfxcm : EveryFloat IsNumber (.obj fxcm))
    (hassets : ∀ j ∈ assets, ∃ fields, j = .obj fields ∧ CleanAsset IsNumber fields) :
    CleanPayload IsNumber (payloadOf channel items fxcm assets) := by
  have hfloats : ∀ (name : String) (v : Json (PyFloat K)), name ≠ "assets" →
      EveryFloat IsNumber v → PayloadItem IsNumber name v :=
    fun name v hname hv => ⟨fun _ => hv, fun heq => absurd heq hname⟩
  have hmeta : EveryFloat IsNumber (.obj (if fxcm = [] then items
      else ViewerStateBuilder.setItem items "fxcm" (.obj fxcm))) := by
    split_ifs
    · exact hitems
    · refine everyFloat_obj.mpr fun field hfield => ?_
      rcases mem_setItem hfield with rfl | hfield
      · exact hfxcm
      · exact everyFloat_obj.mp hitems field hfield
  intro field hfield
  simp only [payloadOf, Serialization.coerceDict, List.cons_append, List.nil_append,
    List.mem_cons] at hfield
  rcases hfield with rfl | rfl | rfl | rfl | hfield
  · exact hfloats "type" _ (by decide) (everyFloat_str _)
  · exact hfloats "meta" _ (by decide) hmeta
  · exact hfloats "counters" _ (by decide) (by simp)
  · have hname : "assets" ∉ ["meta", "fxcm"] := by decide
    refine ⟨fun hmem => absurd hmem hname, fun _ items heq asset hasset => ?_⟩
    cases heq
    obtain ⟨fields, heq, hclean⟩ := hassets _ hasset
    cases heq
    exact hclean
  · split_ifs at hfield
    · cases hfield
    · obtain rfl := List.mem_singleton.mp hfield
      exact hfloats "fxcm" _ (by decide) hfxcm

/-- Publishing from a clean manager leaves it clean, and the payload can be read. -/
theorem clean_publishSmcState {channel : String} {items fxcm : Items K}
    {manager out : OrderedDict String (SmcAsset K)} {payload : Json (PyFloat K)}
    (hitems : EveryFloat IsNumber (.obj items)) (hfxcm : EveryFloat IsNumber (.obj fxcm))
    (hmanager : CleanManager manager)
    (h : publishSmcState env channel items fxcm manager = some (out, payload)) :
    CleanManager out ∧ CleanPayload IsNumber payload := by
  obtain ⟨⟨manager', published⟩, hpublished, heq⟩ := Option.map_eq_some_iff.mp h
  cases heq
  obtain ⟨hout, hall⟩ := clean_publishAssets env (clean_dedup env hmanager) hmanager hpublished
  exact ⟨hout, cleanPayload_payloadOf hitems hfxcm hall⟩

end

end SmcPipeline.PublishedNumbers
