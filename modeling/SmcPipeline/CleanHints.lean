import SmcPipeline.FiniteHint
import SmcPipeline.SmcPublisher

/-!
# Clean hints

A value is clean where all its floats are numbers and every price that the publisher may rescale
is a float or `null`, and not a text that `float` would read. The hint of a complete frame is clean,
and normalising its prices keeps it clean.
-/

namespace SmcPipeline.CleanHints

open JsonText SmcPublisher Serializers SmcEngine ViewerStateBuilder FxcmIngestor

variable {K : Type*}

/-- The keys whose values are rescaled. -/
def priceKeys : List String :=
  ["price", "price_level", "level", "center", "ote_min", "ote_max"] ++ rangeFields ++ zoneFields

def FloatOrNull {F : Type*} (v : Json F) : Prop := v = .null ∨ ∃ x, v = .float x

def PriceItem {F : Type*} (name : String) (v : Json F) : Prop := name ∈ priceKeys → FloatOrNull v

structure Clean (j : Json (PyFloat K)) : Prop where
  floats : EveryFloat IsNumber j
  prices : EveryItem PriceItem j

def CleanItems (fields : Items K) : Prop :=
  ∀ field ∈ fields, PriceItem field.1 field.2 ∧ Clean field.2

theorem priceItem_of_notMem {F : Type*} {name : String} (h : name ∉ priceKeys) (v : Json F) :
    PriceItem name v := fun hmem => absurd hmem h

theorem clean_obj {fields : Items K} : Clean (.obj fields) ↔ CleanItems fields := by
  constructor
  · rintro ⟨hfloats, hprices⟩ field hfield
    exact ⟨(everyItem_obj.mp hprices field hfield).1, everyFloat_obj.mp hfloats field hfield,
      (everyItem_obj.mp hprices field hfield).2⟩
  · intro h
    exact ⟨everyFloat_obj.mpr fun field hfield => (h field hfield).2.floats,
      everyItem_obj.mpr fun field hfield => ⟨(h field hfield).1, (h field hfield).2.prices⟩⟩

theorem clean_arr {items : List (Json (PyFloat K))} :
    Clean (.arr items) ↔ ∀ j ∈ items, Clean j := by
  constructor
  · rintro ⟨hfloats, hprices⟩ j hj
    exact ⟨everyFloat_arr.mp hfloats j hj, everyItem_arr.mp hprices j hj⟩
  · intro h
    exact ⟨everyFloat_arr.mpr fun j hj => (h j hj).floats,
      everyItem_arr.mpr fun j hj => (h j hj).prices⟩

theorem clean_null : Clean (.null : Json (PyFloat K)) := ⟨everyFloat_null, everyItem_null⟩

theorem clean_float {x : PyFloat K} (h : IsNumber x) : Clean (.float x) :=
  ⟨everyFloat_float.mpr h, everyItem_float x⟩

theorem mem_of_lookup {F : Type*} {fields : List (String × Json F)} {name : String} {v : Json F}
    (h : fields.lookup name = some v) : (name, v) ∈ fields := by
  induction fields with
  | nil => cases h
  | cons field fields ih =>
      obtain ⟨key, value⟩ := field
      rw [List.lookup_cons] at h
      split at h
      · rename_i heq
        cases h
        obtain rfl := eq_of_beq heq
        exact List.mem_cons_self
      · exact List.mem_cons_of_mem _ (ih h)

/-- What `get` finds is an item of the dict, or `null`. -/
theorem get_cases {F : Type*} (fields : List (String × Json F)) (name : String) :
    ViewerStateBuilder.get fields name = .null ∨
      (name, ViewerStateBuilder.get fields name) ∈ fields := by
  unfold ViewerStateBuilder.get
  cases h : fields.lookup name with
  | none => exact Or.inl rfl
  | some v => exact Or.inr (mem_of_lookup h)

theorem clean_get {fields : Items K} (h : CleanItems fields) (name : String) :
    Clean (ViewerStateBuilder.get fields name) := by
  rcases get_cases fields name with hnull | hmem
  · rw [hnull]
    exact clean_null
  · exact (h _ hmem).2

theorem mem_setItem {F : Type*} {fields : List (String × Json F)} {name : String} {v : Json F}
    {field : String × Json F} (h : field ∈ setItem fields name v) :
    field = (name, v) ∨ field ∈ fields := by
  unfold setItem at h
  split_ifs at h
  · obtain ⟨item, hitem, rfl⟩ := List.mem_map.mp h
    split_ifs
    · exact Or.inl rfl
    · exact Or.inr hitem
  · rcases List.mem_append.mp h with h | h
    · exact Or.inr h
    · exact Or.inl (List.mem_singleton.mp h)

theorem cleanItems_setItem {fields : Items K} {name : String} {v : Json (PyFloat K)}
    (h : CleanItems fields) (hprice : PriceItem name v) (hv : Clean v) :
    CleanItems (setItem fields name v) := by
  intro field hfield
  rcases mem_setItem hfield with rfl | hfield
  · exact ⟨hprice, hv⟩
  · exact h field hfield

def KeepsItems (f : Items K → Option (Items K)) : Prop :=
  ∀ fields out, CleanItems fields → f fields = some out → CleanItems out

def KeepsValue (f : Json (PyFloat K) → Option (Json (PyFloat K))) : Prop :=
  ∀ v out, Clean v → f v = some out → Clean out

theorem keepsValue_onDict {f : Items K → Option (Items K)} (h : KeepsItems f) :
    KeepsValue (onDict f) := by
  intro v out hv hout
  cases v with
  | obj fields =>
      obtain ⟨fields', hf, rfl⟩ := Option.map_eq_some_iff.mp hout
      exact clean_obj.mpr (h fields fields' (clean_obj.mp hv) hf)
  | _ =>
      cases hout
      exact hv

theorem forall_of_mapM {α β : Type*} {P : α → Prop} {Q : β → Prop} {f : α → Option β}
    (hf : ∀ a b, P a → f a = some b → Q b) {as : List α} {bs : List β} (h : as.mapM f = some bs)
    (has : ∀ a ∈ as, P a) : ∀ b ∈ bs, Q b := by
  intro b hb
  have hmem : some b ∈ as.map f := by
    rw [mapM_eq_some_iff.mp h]
    exact List.mem_map_of_mem hb
  obtain ⟨a, ha, hab⟩ := List.mem_map.mp hmem
  exact hf a b (has a ha) hab

theorem keepsValue_onDicts {f : Items K → Option (Items K)} (h : KeepsItems f) :
    KeepsValue (onDicts f) := by
  intro v out hv hout
  cases v with
  | arr items =>
      obtain ⟨items', hitems, rfl⟩ := Option.map_eq_some_iff.mp hout
      exact clean_arr.mpr (forall_of_mapM (keepsValue_onDict h) hitems (clean_arr.mp hv))
  | _ =>
      cases hout
      exact hv

theorem keepsItems_onItem {name : String} {f : Json (PyFloat K) → Option (Json (PyFloat K))}
    (hname : name ∉ priceKeys) (h : KeepsValue f) : KeepsItems (onItem name f) := by
  intro fields out hfields hout
  unfold onItem at hout
  cases hlookup : fields.lookup name with
  | none =>
      rw [hlookup] at hout
      cases hout
      exact hfields
  | some v =>
      rw [hlookup] at hout
      obtain ⟨v', hv', rfl⟩ := Option.map_eq_some_iff.mp hout
      exact cleanItems_setItem hfields (priceItem_of_notMem hname v')
        (h v v' (hfields _ (mem_of_lookup hlookup)).2 hv')

theorem keepsItems_bind {f g : Items K → Option (Items K)} (hf : KeepsItems f)
    (hg : KeepsItems g) : KeepsItems fun fields => (f fields).bind g := by
  intro fields out hfields hout
  obtain ⟨middle, hmiddle, hout⟩ := Option.bind_eq_some_iff.mp hout
  exact hg middle out (hf fields middle hfields hmiddle) hout

section

variable [Field K] [LinearOrder K] [FloorRing K] (env : PublishRuntime K)

/-- Whatever the reference is, a number is rescaled to a number. -/
theorem isNumber_rescalePrice {price reference out : PyFloat K} (h : IsNumber price)
    (hout : rescalePrice env price reference = some out) : IsNumber out := by
  obtain ⟨x, rfl⟩ := h
  rcases reference with _ | (r | _ | _)
  · cases hout
    exact ⟨x, rfl⟩
  · cases hout
    exact ⟨_, rfl⟩
  · unfold rescalePrice at hout
    dsimp only at hout
    split_ifs at hout
    cases hout
    exact ⟨x, rfl⟩
  · unfold rescalePrice at hout
    dsimp only at hout
    split_ifs at hout
    cases hout
    exact ⟨x, rfl⟩

omit [Field K] [LinearOrder K] [FloorRing K] in
/-- A value that is a float or `null` is converted to what it is. -/
theorem safeFloat_of_floatOrNull {v : Json (PyFloat K)} (h : FloatOrNull v) :
    safeFloat env v = some none ∧ v = .null ∨
      ∃ x, safeFloat env v = some (some x) ∧ v = .float x := by
  rcases h with rfl | ⟨x, rfl⟩
  · exact Or.inl ⟨rfl, rfl⟩
  · refine Or.inr ⟨x, ?_, rfl⟩
    unfold safeFloat
    dsimp only
    rw [env.float_float]

theorem keepsItems_normalizeFields (reference : PyFloat K) {names : List String}
    (hnames : ∀ name ∈ names, name ∈ priceKeys) :
    KeepsItems (normalizeFields env reference names) := by
  induction names with
  | nil =>
      intro fields out hfields hout
      cases hout
      exact hfields
  | cons name names ih =>
      obtain ⟨hname, hnames⟩ := List.forall_mem_cons.mp hnames
      intro fields out hfields hout
      unfold normalizeFields at hout
      cases hlookup : fields.lookup name with
      | none =>
          rw [hlookup] at hout
          exact ih hnames fields out hfields hout
      | some v =>
          obtain ⟨hprice, hclean⟩ := hfields _ (mem_of_lookup hlookup)
          rw [hlookup] at hout
          dsimp only at hout
          rcases safeFloat_of_floatOrNull env (hprice hname) with ⟨hfloat, -⟩ | ⟨x, hfloat, rfl⟩
          · rw [hfloat] at hout
            exact ih hnames fields out hfields hout
          · rw [hfloat] at hout
            obtain ⟨y, hy, hout⟩ := Option.bind_eq_some_iff.mp hout
            have hnumber := isNumber_rescalePrice env (everyFloat_float.mp hclean.floats) hy
            refine ih hnames _ out (cleanItems_setItem hfields ?_ (clean_float hnumber)) hout
            exact fun _ => Or.inr ⟨y, rfl⟩

theorem keepsValue_normalizeListFields (reference : PyFloat K) {names : List String}
    (hnames : ∀ name ∈ names, name ∈ priceKeys) :
    KeepsValue (normalizeListFields env reference names) :=
  keepsValue_onDicts (keepsItems_normalizeFields env reference hnames)

theorem keepsValue_normalizeLegs (reference : PyFloat K) :
    KeepsValue (normalizeLegs env reference) := by
  have hswing : KeepsValue (onDict (normalizeFields env reference ["price"])) :=
    keepsValue_onDict (keepsItems_normalizeFields env reference (by decide))
  exact keepsValue_onDicts (keepsItems_bind (keepsItems_onItem (by decide) hswing)
    (keepsItems_onItem (by decide) hswing))

theorem keepsItems_normalizeStructurePrices (reference : PyFloat K) :
    KeepsItems (normalizeStructurePrices env reference) := by
  have hlist : ∀ {name : String} {names : List String}, name ∉ priceKeys →
      (∀ n ∈ names, n ∈ priceKeys) →
      KeepsItems (onItem name (normalizeListFields env reference names)) :=
    fun hname hnames => keepsItems_onItem hname (keepsValue_normalizeListFields env reference hnames)
  have hrange : KeepsItems (onItem "active_range"
      (onDict (normalizeFields env reference rangeFields))) :=
    keepsItems_onItem (by decide)
      (keepsValue_onDict (keepsItems_normalizeFields env reference (by decide)))
  have hlegs : KeepsItems (onItem "legs" (normalizeLegs env reference)) :=
    keepsItems_onItem (by decide) (keepsValue_normalizeLegs env reference)
  exact keepsItems_bind (hlist (by decide) (by decide)) <|
    keepsItems_bind (hlist (by decide) (by decide)) <| keepsItems_bind hrange <|
    keepsItems_bind (hlist (by decide) (by decide)) <|
    keepsItems_bind (hlist (by decide) (by decide)) hlegs

theorem keepsItems_normalizeLiquidityPrices (reference : PyFloat K) :
    KeepsItems (normalizeLiquidityPrices env reference) :=
  keepsItems_bind
    (keepsItems_onItem (by decide) (keepsValue_normalizeListFields env reference (by decide)))
    (keepsItems_onItem (by decide) (keepsValue_normalizeListFields env reference (by decide)))

theorem keepsItems_normalizeZonePrices (reference : PyFloat K) :
    KeepsItems (normalizeZonePrices env reference) := by
  have hzones : ∀ key ∉ priceKeys,
      KeepsItems (onItem key (normalizeListFields env reference zoneFields)) := fun key hkey =>
    keepsItems_onItem hkey (keepsValue_normalizeListFields env reference (by decide))
  have hkeys : ∀ keys : List String, (∀ key ∈ keys, key ∉ priceKeys) →
      KeepsItems fun zones => keys.foldlM
        (fun zones key => onItem key (normalizeListFields env reference zoneFields) zones) zones := by
    intro keys hkeys
    induction keys with
    | nil =>
        intro fields out hfields hout
        cases hout
        exact hfields
    | cons key keys ih =>
        obtain ⟨hkey, hkeys⟩ := List.forall_mem_cons.mp hkeys
        exact keepsItems_bind (hzones key hkey) (ih hkeys)
  exact hkeys _ (by decide)

/-- A hint that is clean is clean with its prices normalised. -/
theorem keepsItems_normalizeSmcPrices (reference : Option (PyFloat K)) :
    KeepsItems (normalizeSmcPrices env reference) := by
  have hsame : KeepsItems (some : Items K → Option (Items K)) := by
    intro fields out hfields hout
    cases hout
    exact hfields
  cases reference with
  | none => exact hsame
  | some reference =>
      cases hzero : env.isZero reference with
      | true =>
          intro fields out hfields hout
          simp only [normalizeSmcPrices, hzero, if_true] at hout
          exact hsame fields out hfields hout
      | false =>
          have hblocks : KeepsItems fun hint =>
              (onItem "structure" (onDict (normalizeStructurePrices env reference)) hint).bind
              fun hint =>
              (onItem "liquidity" (onDict (normalizeLiquidityPrices env reference)) hint).bind
              (onItem "zones" (onDict (normalizeZonePrices env reference))) :=
            keepsItems_bind (keepsItems_onItem (by decide)
              (keepsValue_onDict (keepsItems_normalizeStructurePrices env reference))) <|
            keepsItems_bind (keepsItems_onItem (by decide)
              (keepsValue_onDict (keepsItems_normalizeLiquidityPrices env reference)))
              (keepsItems_onItem (by decide)
                (keepsValue_onDict (keepsItems_normalizeZonePrices env reference)))
          intro fields out hfields hout
          simp only [normalizeSmcPrices, hzero, Bool.false_eq_true, if_false] at hout
          exact hblocks fields out hfields hout

end

/-- The prices of a value are floats or `null`. -/
abbrev Priced (j : Json (Option K)) : Prop := EveryItem PriceItem j

@[simp] theorem priceItem_iff (name : String) (v : Json (Option K)) :
    PriceItem name v ↔ (name ∈ ["price", "price_level", "level", "center", "ote_min", "ote_max",
      "high", "low", "eq_level", "price_min", "price_max", "entry_hint", "stop_hint"] →
        v = .null ∨ ∃ x, v = .float x) := Iff.rfl

@[simp] theorem priced_optFloat (x : Option K) : Priced (optFloat x) := by
  cases x <;> simp [optFloat]

@[simp] theorem priced_optTime (ms : Option ℤ) : Priced (optTime ms : Json (Option K)) := by
  cases ms <;> simp [optTime]

@[simp] theorem priced_optText (text : Option String) :
    Priced ((text.map Json.str).getD .null : Json (Option K)) := by
  cases text <;> simp

@[simp] theorem priced_plainSwing (s : Swing K) : Priced (plainSwing s) := by simp [plainSwing]

@[simp] theorem priced_plainLeg (leg : Leg K) : Priced (plainLeg leg) := by
  cases h : leg.referencePrice <;> simp [plainLeg, h]

@[simp] theorem priced_plainRange (r : OpenRange K) : Priced (plainRange r) := by
  cases h : r.endTime <;> simp [plainRange, h]

@[simp] theorem priced_plainEvent (e : StructureEvent K) : Priced (plainEvent e) := by
  simp [plainEvent, eventFields]

@[simp] theorem priced_plainOteZone (zone : OteZone K) : Priced (plainOteZone zone) := by
  simp [plainOteZone]

@[simp] theorem priced_plainMetaValue (v : MetaValue K) : Priced (plainMetaValue v) := by
  cases v <;> simp [plainMetaValue]

theorem priced_plainStructure [Field K] [LinearOrder K] (cfg : SmcCoreConfig K)
    (snapshot : ContextInput K) (st : RangedStructureState K) :
    Priced (plainStructure (structureRecord st (FairValueGaps.structureMeta cfg snapshot st))) := by
  cases h : st.activeRange <;> simp [plainStructure, structureRecord, h, FairValueGaps.structureMeta]

@[simp] theorem priced_plainPool (pool : SmcLiquidityPool K) : Priced (plainPool pool) := by
  cases h : pool.details <;> simp [plainPool, plainPoolMeta, h]

@[simp] theorem priced_plainMagnet (magnet : SmcLiquidityMagnet K) : Priced (plainMagnet magnet) := by
  simp [plainMagnet]

theorem priced_plainLiquidity (liquidity : LiquidityWithMagnets K) :
    Priced (plainLiquidity liquidity) := by
  simp [plainLiquidity, plainSfpEvent, plainWick]

@[simp] theorem priced_plainZone (zone : Zone K) : Priced (plainZone zone) := by
  cases zone <;>
    simp [plainZone, plainZoneItems, zoneItems, orderBlockItems, breakerItems, imbalanceItems,
      plainBreakerParams]

theorem priced_plainZones (cfg : SmcCoreConfig K) (st : SmcZonesState K)
    (distances : DistanceMeta K) : Priced (plainZones cfg st distances) := by
  cases h : distances.maxDistance <;> simp [plainZones, zonesMeta, countOf, h]

theorem priced_plainHint [Field K] [LinearOrder K] [FloorRing K] {lower : String → String}
    {cfg : SmcCoreConfig K} {snapshot : ContextInput K} {store : EventHistory.Store K} {utcnow : ℤ}
    {hint : SmcHint K} (h : processSnapshot lower cfg snapshot store utcnow = some hint) :
    Priced (plainHint cfg hint) := by
  unfold processSnapshot at h
  obtain ⟨st, hst, h⟩ := Option.bind_eq_some_iff.mp h
  obtain ⟨pools, hpools, h⟩ := Option.bind_eq_some_iff.mp h
  cases h
  have hstructure := priced_plainStructure cfg snapshot st
  unfold plainHint toPlainSmcHint
  simp [hstructure, priced_plainLiquidity, priced_plainZones]

theorem clean_hint [Field K] [LinearOrder K] [FloorRing K] {lower : String → String}
    {cfg : SmcCoreConfig K} {snapshot : ContextInput K} {store : EventHistory.Store K} {utcnow : ℤ}
    {hint : SmcHint K} (h : processSnapshot lower cfg snapshot store utcnow = some hint)
    (hframe : ∀ row ∈ snapshot.frame.getD [], FiniteHint.Complete row) :
    Clean (mapFloats liftFloat (plainHint cfg hint)) := by
  constructor
  · rw [everyFloat_mapFloats]
    intro x hx
    exact isNumber_liftFloat.mpr (FiniteHint.noNaN_plainHint h hframe x hx)
  · rw [everyItem_mapFloats]
    intro item hitem hname
    rcases priced_plainHint h item hitem hname with hnull | ⟨x, hx⟩
    · rw [hnull]
      exact Or.inl rfl
    · rw [hx]
      exact Or.inr ⟨liftFloat x, rfl⟩

end SmcPipeline.CleanHints
