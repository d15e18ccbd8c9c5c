import SmcPipeline.ProducerLoop
import SmcPipeline.StrictMessages

/-!
# The assets of the producer

Whatever happens, the manager holds the assets of the loop and no other: rounds, counts and
publications change no key, and the loop adds and removes what the list of fast symbols asks for.
-/

namespace SmcPipeline.ProducerAssets

open SmcPublisher ProducerLoop ProducerReadiness Runs
open SmcProducer hiding step run

variable {K : Type*} [Field K] [LinearOrder K] [FloorRing K]

/-- The keys after an event. -/
def keysAfter (keys : String → Prop) : PipelineEvent K → String → Prop
  | .round input, key => key = input.symbol ∨ keys key
  | .initAsset symbol, key => key = symbol ∨ keys key
  | .removeAsset symbol, key => key ≠ symbol ∧ keys key
  | _, key => keys key

theorem mem_keys_foldl_set {υ : Type*} {items : List (String × υ)} {d : OrderedDict String υ}
    {key : String} :
    key ∈ (items.foldl (fun d item => d.set item.1 item.2) d).keys ↔
      key ∈ items.map Prod.fst ∨ key ∈ d.keys := by
  induction items generalizing d with
  | nil => simp
  | cons item items ih =>
      rw [List.foldl_cons, ih, OrderedDict.mem_keys_set, List.map_cons, List.mem_cons]
      tauto

theorem mem_keys_applyLocalPipelineStats {lower : String → String}
    {bars minReady target : String → ℤ} {manager : OrderedDict String (SmcAsset K)} {key : String} :
    key ∈ (Pipeline.applyLocalPipelineStats lower bars minReady target manager).keys ↔
      key ∈ manager.keys := by
  unfold Pipeline.applyLocalPipelineStats
  rw [mem_keys_foldl_set, List.map_map]
  exact or_iff_right_of_imp fun h => h

omit [Field K] [LinearOrder K] [FloorRing K] in
theorem mem_of_dedup (env : PublishRuntime K) (manager : OrderedDict String (SmcAsset K)) :
    ∀ item ∈ (dedup env manager).items, item.2 ∈ manager.items := by
  suffices h : ∀ items : List (String × SmcAsset K), ∀ d : OrderedDict String (String × SmcAsset K),
      (∀ item ∈ items, item ∈ manager.items) →
      d.Every (fun _ value => value ∈ manager.items) →
      (items.foldl (fun dedup item =>
        let symbol := env.upper (env.str (ViewerStateBuilder.orElse env.toViewerRuntime
          (getItem item.2.fields "symbol") (.str "")))
        if symbol = "" then dedup else dedup.set symbol item) d).Every
          fun _ value => value ∈ manager.items from
    h manager.items OrderedDict.empty (fun _ hitem => hitem) (OrderedDict.every_empty _)
  intro items
  induction items with
  | nil => exact fun d _ hd => hd
  | cons item items ih =>
      intro d hitems hd
      obtain ⟨hitem, hitems⟩ := List.forall_mem_cons.mp hitems
      rw [List.foldl_cons]
      apply ih _ hitems
      dsimp only
      split_ifs
      · exact hd
      · exact OrderedDict.every_set hd hitem

/-- What holds of the assets, and is kept where an asset is published, holds of all assets
afterwards; the keys stay. -/
theorem publishAssets_spec {env : PublishRuntime K} {R : String → SmcAsset K → Prop}
    (hkept : ∀ key asset kept published, R key asset →
      publishAsset env asset = some (kept, published) → R key kept)
    {assets : List (String × SmcAsset K)} {manager after : OrderedDict String (SmcAsset K)}
    {published : List (Json (PyFloat K))} (hassets : ∀ item ∈ assets, R item.1 item.2)
    (hkeys : ∀ item ∈ assets, item.1 ∈ manager.keys) (hmanager : manager.Every R)
    (h : publishAssets env assets manager = some (after, published)) :
    after.Every R ∧ ∀ key, key ∈ after.keys ↔ key ∈ manager.keys := by
  induction assets generalizing manager after published with
  | nil =>
      cases h
      exact ⟨hmanager, fun _ => Iff.rfl⟩
  | cons item assets ih =>
      obtain ⟨hitem, hassets⟩ := List.forall_mem_cons.mp hassets
      obtain ⟨hkey, hkeys⟩ := List.forall_mem_cons.mp hkeys
      obtain ⟨⟨kept, shown⟩, hone, h⟩ := Option.bind_eq_some_iff.mp h
      obtain ⟨⟨manager', others⟩, hrest, h⟩ := Option.bind_eq_some_iff.mp h
      cases h
      have hsame : ∀ key, key ∈ (manager.set item.1 kept).keys ↔ key ∈ manager.keys := by
        intro key
        rw [OrderedDict.mem_keys_set]
        exact or_iff_right_of_imp fun heq => heq ▸ hkey
      obtain ⟨hevery, hiff⟩ := ih hassets (fun item hitem => (hsame _).mpr (hkeys item hitem))
        (OrderedDict.every_set hmanager (hkept _ _ _ _ hitem hone)) hrest
      exact ⟨hevery, fun key => (hiff key).trans (hsame key)⟩

theorem publishSmcState_spec {env : PublishRuntime K} {R : String → SmcAsset K → Prop}
    (hkept : ∀ key asset kept published, R key asset →
      publishAsset env asset = some (kept, published) → R key kept)
    {channel : String} {items fxcm : Items K} {manager after : OrderedDict String (SmcAsset K)}
    {payload : Json (PyFloat K)} (hmanager : manager.Every R)
    (h : publishSmcState env channel items fxcm manager = some (after, payload)) :
    after.Every R ∧ ∀ key, key ∈ after.keys ↔ key ∈ manager.keys := by
  obtain ⟨⟨manager', published⟩, hpublished, heq⟩ := Option.map_eq_some_iff.mp h
  cases heq
  have hmem : ∀ item ∈ (dedup env manager).items.map Prod.snd, item ∈ manager.items := by
    rw [List.forall_mem_map]
    exact mem_of_dedup env manager
  exact publishAssets_spec hkept (fun item hitem => hmanager item (hmem item hitem))
    (fun item hitem => List.mem_map_of_mem (hmem item hitem)) hmanager hpublished

variable {u : PipelineSetup K}

omit [Field K] [LinearOrder K] [FloorRing K] in
theorem mem_keys_updateAsset {symbol : String} {updates : AssetUpdate (Extended K)}
    {manager : OrderedDict String (SmcAsset K)} {key : String} :
    key ∈ (updateAsset symbol updates manager).keys ↔ key = symbol ∨ key ∈ manager.keys :=
  OrderedDict.mem_keys_set _ _ _ _

/-- What an event does to the keys. -/
theorem mem_keys_step {s t : Pipeline K} {e : PipelineEvent K}
    (h : Pipeline.step u s e = some t) (key : String) :
    key ∈ t.manager.keys ↔ keysAfter (· ∈ s.manager.keys) e key := by
  cases e with
  | packet packet stored =>
      cases h
      exact Iff.rfl
  | tick payload =>
      cases h
      exact Iff.rfl
  | clock now =>
      cases h
      exact Iff.rfl
  | round input =>
      unfold Pipeline.step at h
      dsimp only at h
      split_ifs at h
      cases h
      exact mem_keys_updateAsset
  | initAsset symbol =>
      unfold Pipeline.step at h
      dsimp only at h
      split_ifs at h
      cases h
      exact OrderedDict.mem_keys_set _ _ _ _
  | removeAsset symbol =>
      unfold Pipeline.step at h
      dsimp only at h
      split_ifs at h
      cases h
      exact OrderedDict.mem_keys_erase _ _ _
  | localStats bars minReady target =>
      unfold Pipeline.step at h
      dsimp only at h
      split_ifs at h
      cases h
      exact mem_keys_applyLocalPipelineStats
  | publish items fxcm taken =>
      unfold Pipeline.step at h
      dsimp only at h
      split_ifs at h
      split at h
      · cases h
        exact Iff.rfl
      · rename_i manager payload hpublished
        cases h
        have hkept : ∀ (key : String) (asset kept : SmcAsset K) (published : Json (PyFloat K)),
            True → publishAsset u.publisher asset = some (kept, published) → True :=
          fun _ _ _ _ _ _ => trivial
        exact (publishSmcState_spec hkept (fun _ _ => trivial) hpublished).2 key
  | broadcast index =>
      obtain ⟨payload, -, heq⟩ := Option.map_eq_some_iff.mp h
      cases heq
      exact Iff.rfl

theorem mem_keys_initEvents {u : LoopSetup K} {symbols : List String} {s t : Pipeline K}
    (h : replay (Pipeline.step u.toPipelineSetup) s (initEvents u symbols) = some t)
    (key : String) :
    key ∈ t.manager.keys ↔ key ∈ symbols.map u.lower ∨ key ∈ s.manager.keys := by
  induction symbols generalizing s with
  | nil =>
      cases h
      simp
  | cons symbol symbols ih =>
      obtain ⟨r, hr, h⟩ := Option.bind_eq_some_iff.mp h
      rw [ih h, mem_keys_step hr, keysAfter, List.map_cons, List.mem_cons]
      tauto

theorem mem_keys_removeEvents {u : LoopSetup K} {symbols : List String} {s t : Pipeline K}
    (h : replay (Pipeline.step u.toPipelineSetup) s (symbols.map .removeAsset) = some t)
    (key : String) :
    key ∈ t.manager.keys ↔ key ∉ symbols ∧ key ∈ s.manager.keys := by
  induction symbols generalizing s with
  | nil =>
      cases h
      simp
  | cons symbol symbols ih =>
      obtain ⟨r, hr, h⟩ := Option.bind_eq_some_iff.mp h
      rw [ih h, mem_keys_step hr, keysAfter, List.mem_cons]
      tauto

variable {u : LoopSetup K}

/-- The manager holds the assets of the loop, which are written small. -/
structure Holds (u : LoopSetup K) (s : LoopState K) : Prop where
  keys : ∀ sym, sym ∈ s.pipeline.manager.keys ↔ sym ∈ s.assets
  lower : ∀ sym ∈ s.assets, u.lower sym = sym

/-- The assets after the list of fast symbols has been read. -/
def assetsAfter (u : LoopSetup K) (assets : List String) (fastSymbols : Option (List String)) :
    List String :=
  if fastSymbols.getD [] = [] then assets
  else u.setOrder ((fastSymbols.getD []).map u.lower)

omit [Field K] [LinearOrder K] [FloorRing K] in
theorem mem_map_lower_added {fresh assets : List String} {key : String} :
    key ∈ (u.setOrder ((fresh.map u.lower).filter fun sym => sym ∉ assets)).map u.lower ↔
      key ∈ fresh.map u.lower ∧ key ∉ assets := by
  have hlower : ∀ sym ∈ fresh.map u.lower, u.lower sym = sym := by
    rw [List.forall_mem_map]
    exact fun symbol _ => u.lower_lower symbol
  rw [List.mem_map]
  simp only [u.mem_setOrder, List.mem_filter, decide_eq_true_eq]
  constructor
  · rintro ⟨sym, ⟨hsym, hnew⟩, rfl⟩
    rw [hlower sym hsym]
    exact ⟨hsym, hnew⟩
  · exact fun ⟨hkey, hnew⟩ => ⟨key, ⟨hkey, hnew⟩, hlower key hkey⟩

theorem sync_spec {fastSymbols : Option (List String)} {s t : LoopState K} (hs : Holds u s)
    (h : sync u fastSymbols s = some t) :
    Holds u t ∧ t = { s with
      pipeline := t.pipeline
      assets := assetsAfter u s.assets fastSymbols } := by
  unfold sync at h
  unfold assetsAfter
  split at h
  · rename_i hnone
    cases h
    rw [hnone, if_pos rfl]
    exact ⟨hs, rfl⟩
  · rename_i hsome
    obtain ⟨pipeline, hreplay, heq⟩ := Option.map_eq_some_iff.mp h
    rw [replay_append] at hreplay
    obtain ⟨inited, hinit, hremove⟩ := Option.bind_eq_some_iff.mp hreplay
    cases heq
    rw [if_neg hsome]
    refine ⟨⟨fun sym => ?_, fun sym hsym => ?_⟩, rfl⟩
    · rw [mem_keys_removeEvents hremove, mem_keys_initEvents hinit, hs.keys, u.mem_setOrder,
        u.mem_setOrder, mem_map_lower_added, List.mem_filter, decide_eq_true_iff]
      tauto
    · rw [u.mem_setOrder, List.mem_map] at hsym
      obtain ⟨symbol, -, rfl⟩ := hsym
      exact u.lower_lower symbol

/-- The symbols of the rounds, as they come. -/
def roundSymbols : List (GatherEvent K) → List String
  | [] => []
  | .outside _ :: events => roundSymbols events
  | .round _ input :: events => input.symbol :: roundSymbols events

/-- The rounds are those that the tasks do side by side. -/
theorem gather_interleaved {pending : List (List String)} {s t : Pipeline K}
    {events : List (GatherEvent K)} (h : gather u pending s events = some t) :
    ∃ order, Tasks.Interleaved pending order ∧ roundSymbols events = order.map u.lower := by
  induction events generalizing pending s with
  | nil =>
      unfold gather at h
      split_ifs at h with hdone
      refine ⟨[], .done fun task htask => ?_, rfl⟩
      simpa using List.all_eq_true.mp hdone task htask
  | cons event events ih =>
      cases event with
      | outside event =>
          unfold gather at h
          split_ifs at h
          obtain ⟨r, -, h⟩ := Option.bind_eq_some_iff.mp h
          exact ih h
      | round task input =>
          unfold gather at h
          split at h
          · cases h
          · rename_i symbol rest hadvance
            split_ifs at h with hsymbol
            obtain ⟨r, -, h⟩ := Option.bind_eq_some_iff.mp h
            obtain ⟨order, horder, hrounds⟩ := ih h
            refine ⟨symbol :: order, .next hadvance horder, ?_⟩
            rw [roundSymbols, hrounds, hsymbol, List.map_cons]

/-- What the other parts keep, and the rounds of the symbols of the tasks, is kept. -/
theorem gather_invariant {I : Pipeline K → Prop} {pending : List (List String)}
    (hout : ∀ e s t, isOutside e = true → I s →
      Pipeline.step u.toPipelineSetup s e = some t → I t)
    (hround : ∀ input s t, input.symbol ∈ pending.flatten.map u.lower → I s →
      Pipeline.step u.toPipelineSetup s (.round input) = some t → I t)
    {s t : Pipeline K} {events : List (GatherEvent K)} (h : gather u pending s events = some t)
    (hs : I s) : I t := by
  induction events generalizing pending s with
  | nil =>
      unfold gather at h
      split_ifs at h
      cases h
      exact hs
  | cons event events ih =>
      cases event with
      | outside event =>
          unfold gather at h
          split_ifs at h with houtside
          obtain ⟨r, hr, h⟩ := Option.bind_eq_some_iff.mp h
          exact ih hround h (hout event s r houtside hs hr)
      | round task input =>
          unfold gather at h
          split at h
          · cases h
          · rename_i symbol rest hadvance
            split_ifs at h with hsymbol
            obtain ⟨r, hr, h⟩ := Option.bind_eq_some_iff.mp h
            have hperm := Tasks.perm_advance hadvance
            have hmem : input.symbol ∈ pending.flatten.map u.lower := by
              rw [hsymbol]
              exact List.mem_map_of_mem (hperm.mem_iff.mpr (List.mem_cons_self ..))
            refine ih (fun input s t hinput => hround input s t ?_) h (hround input s r hmem hs hr)
            have hsub := ((hperm.map u.lower).mem_iff (a := input.symbol)).mpr
            rw [List.map_cons] at hsub
            exact hsub (List.mem_cons_of_mem _ hinput)

theorem publish_cases {times : CycleTimes K} {extra fxcm : List (String × Json K)}
    {s t : LoopState K} (h : publish u times extra fxcm s = some t) :
    ∃ pipeline, Pipeline.step u.toPipelineSetup s.pipeline
        (.publish (metaOf u times.ts s.cycleSeq extra).items fxcm (times.saved || times.sent)) =
          some pipeline ∧
      t = { s with
        pipeline := pipeline
        published := if pipeline.producing then
          s.published ++ [if times.sent then some (metaOf u times.ts s.cycleSeq extra) else none]
          else s.published } := by
  obtain ⟨pipeline, hpublish, heq⟩ := Option.map_eq_some_iff.mp h
  exact ⟨pipeline, hpublish, heq.symm⟩

/-- What a cycle does: it follows the list, and then stays idle or does the rounds. -/
theorem cycle_cases {input : CycleInput K} {s t : LoopState K} (h : cycle u input s = some t) :
    ∃ r, sync u input.fastSymbols { s with cycleSeq := s.cycleSeq + 1 } = some r ∧
      ((∃ reason, publish u input.times (idleExtra reason input.times r) input.fxcm r = some t) ∨
        (input.visits.map Visit.symbol = r.assets ∧
          ∃ allow, screen u allow (assessAll (textFunctions u) u.cfg allow input.visits) input r =
            some t)) := by
  obtain ⟨r, hsync, h⟩ := Option.bind_eq_some_iff.mp h
  refine ⟨r, hsync, ?_⟩
  dsimp only at h
  split_ifs at h with hgate hvisits
  · exact Or.inr ⟨hvisits, _, h⟩
  · exact Or.inl ⟨_, h⟩

theorem screen_cases {allow : Bool} {found : Assessment} {input : CycleInput K} {s t : LoopState K}
    (h : screen u allow found input s = some t) :
    ∃ rounds noted,
      gather u (Tasks.batches u.cfg.batchSize (selected u s.assets)) s.pipeline input.gather =
        some rounds ∧
      Pipeline.step u.toPipelineSetup rounds (localStats found) = some noted ∧
      publish u input.times
        (screeningExtra u s.assets found
          (s2Meta K u.cfg.staleK allow (summarize allow found.historyBySymbol))
          s.cycleSeq input.times)
        input.fxcm
        { s with
          pipeline := noted
          pipelineMetaLast := pipelineMetaOf u s.assets found
          s2MetaLast := s2Meta K u.cfg.staleK allow (summarize allow found.historyBySymbol) } =
        some t := by
  obtain ⟨rounds, hgather, h⟩ := Option.bind_eq_some_iff.mp h
  obtain ⟨noted, hnoted, h⟩ := Option.bind_eq_some_iff.mp h
  exact ⟨rounds, noted, hgather, hnoted, h⟩

theorem mem_keys_outside {s t : Pipeline K} {e : PipelineEvent K} (hout : isOutside e = true)
    (h : Pipeline.step u.toPipelineSetup s e = some t) (key : String) :
    key ∈ t.manager.keys ↔ key ∈ s.manager.keys := by
  rw [mem_keys_step h]
  cases e <;> first | exact Iff.rfl | cases hout

theorem holds_publish {times : CycleTimes K} {extra fxcm : List (String × Json K)}
    {s t : LoopState K} (hs : Holds u s) (h : publish u times extra fxcm s = some t) :
    Holds u t ∧ t.assets = s.assets := by
  obtain ⟨pipeline, hpublish, rfl⟩ := publish_cases h
  exact ⟨⟨fun sym => (mem_keys_step hpublish sym).trans (hs.keys sym), hs.lower⟩, rfl⟩

omit [Field K] [LinearOrder K] [FloorRing K] in
theorem mem_selected {assets : List String} {sym : String} (h : sym ∈ selected u assets) :
    sym ∈ assets.map u.lower := by
  unfold selected selectSymbolsForCycle at h
  split_ifs at h
  · exact h
  · exact List.mem_of_mem_take h

omit [Field K] [LinearOrder K] [FloorRing K] in
theorem flatten_batches_selected (assets : List String) :
    (Tasks.batches u.cfg.batchSize (selected u assets)).flatten = selected u assets :=
  Tasks.flatten_batches u.cfg.batchSize_pos _

theorem holds_screen {allow : Bool} {found : Assessment} {input : CycleInput K}
    {s t : LoopState K} (hs : Holds u s) (h : screen u allow found input s = some t) :
    Holds u t ∧ t.assets = s.assets := by
  obtain ⟨rounds, noted, hgather, hnoted, hpublish⟩ := screen_cases h
  have hrounds : ∀ sym, sym ∈ rounds.manager.keys ↔ sym ∈ s.assets := by
    refine gather_invariant (I := fun p => ∀ sym, sym ∈ p.manager.keys ↔ sym ∈ s.assets)
      (fun e p q hout hp hstep sym => (mem_keys_outside hout hstep sym).trans (hp sym))
      (fun input p q hinput hp hstep sym => ?_) hgather hs.keys
    rw [mem_keys_step hstep, keysAfter, hp]
    apply or_iff_right_of_imp
    rintro rfl
    rw [flatten_batches_selected, List.mem_map] at hinput
    obtain ⟨symbol, hsymbol, heq⟩ := hinput
    obtain ⟨asset, hasset, rfl⟩ := List.mem_map.mp (mem_selected hsymbol)
    rw [← heq, u.lower_lower, hs.lower asset hasset]
    exact hasset
  have hnotedKeys : ∀ sym, sym ∈ noted.manager.keys ↔ sym ∈ s.assets :=
    fun sym => (mem_keys_step hnoted sym).trans (hrounds sym)
  have hheld : Holds u { s with
      pipeline := noted
      pipelineMetaLast := pipelineMetaOf u s.assets found
      s2MetaLast := s2Meta K u.cfg.staleK allow (summarize allow found.historyBySymbol) } :=
    ⟨hnotedKeys, hs.lower⟩
  obtain ⟨ht, hassets⟩ := holds_publish hheld hpublish
  exact ⟨ht, hassets⟩

/-- The assets after an event. -/
def nextAssets (u : LoopSetup K) (assets : List String) : LoopEvent K → List String
  | .outside _ => assets
  | .cycle input => assetsAfter u assets input.fastSymbols

theorem holds_step {s t : LoopState K} {e : LoopEvent K} (hs : Holds u s)
    (h : ProducerLoop.step u s e = some t) :
    Holds u t ∧ t.assets = nextAssets u s.assets e := by
  cases e with
  | outside event =>
      unfold ProducerLoop.step at h
      dsimp only at h
      split_ifs at h with hout
      obtain ⟨pipeline, hpipeline, rfl⟩ := Option.map_eq_some_iff.mp h
      exact ⟨⟨fun sym => (mem_keys_outside hout hpipeline sym).trans (hs.keys sym), hs.lower⟩, rfl⟩
  | cycle input =>
      unfold ProducerLoop.step at h
      dsimp only at h
      split_ifs at h
      obtain ⟨r, hsync, h⟩ := cycle_cases h
      have hcounted : Holds u { s with cycleSeq := s.cycleSeq + 1 } := ⟨hs.keys, hs.lower⟩
      obtain ⟨hr, heq⟩ := sync_spec hcounted hsync
      have hassets : r.assets = assetsAfter u s.assets input.fastSymbols := by
        rw [heq]
      rw [nextAssets, ← hassets]
      rcases h with ⟨reason, hpublish⟩ | ⟨-, allow, hscreen⟩
      · exact holds_publish hr hpublish
      · exact holds_screen hr hscreen

theorem holds_bootstrap {now : K} {assets : List String} {times : CycleTimes K}
    {fxcm : List (String × Json K)} {s : LoopState K}
    (h : bootstrap u now assets times fxcm = some s) :
    Holds u s ∧ s.assets = assets.map u.lower := by
  have hlower : ∀ sym ∈ assets.map u.lower, u.lower sym = sym := by
    rw [List.forall_mem_map]
    exact fun symbol _ => u.lower_lower symbol
  obtain ⟨pipeline, hreplay, hpublish⟩ := Option.bind_eq_some_iff.mp h
  rw [replay_append] at hreplay
  obtain ⟨inited, hinit, hnote⟩ := Option.bind_eq_some_iff.mp hreplay
  obtain ⟨noted, hnoted, hdone⟩ := Option.bind_eq_some_iff.mp hnote
  cases hdone
  have hkeys : ∀ sym, sym ∈ pipeline.manager.keys ↔ sym ∈ assets.map u.lower := by
    intro sym
    have hsame : sym ∈ pipeline.manager.keys ↔ sym ∈ inited.manager.keys :=
      mem_keys_step hnoted sym
    rw [hsame, mem_keys_initEvents hinit, List.map_congr_left hlower, List.map_id']
    exact or_iff_left (by simp [Pipeline.start, OrderedDict.keys, OrderedDict.empty])
  have hheld : Holds u
      { pipeline := pipeline
        assets := assets.map u.lower
        cycleSeq := 0
        pipelineMetaLast :=
          pipelineMetaOf u (assets.map u.lower) (bootAssessment u (assets.map u.lower))
        s2MetaLast := []
        published := [] } := ⟨hkeys, hlower⟩
  obtain ⟨hholds, hassets⟩ := holds_publish hheld hpublish
  exact ⟨hholds, hassets⟩

/-- The symbols that the loop is asked for: the last list of fast symbols that is not empty. -/
def wanted (assets : List String) (events : List (LoopEvent K)) : List String :=
  events.foldl (fun assets e => match e with
    | .outside _ => assets
    | .cycle input => if input.fastSymbols.getD [] = [] then assets else input.fastSymbols.getD [])
    assets

/-- The assets of the loop are the symbols it is asked for. -/
def Lists (u : LoopSetup K) (assets symbols : List String) : Prop :=
  ∀ sym, sym ∈ assets ↔ sym ∈ symbols.map u.lower

theorem lists_run {s t : LoopState K} {events : List (LoopEvent K)}
    (h : replay (ProducerLoop.step u) s events = some t) (hs : Holds u s) {symbols : List String}
    (hsymbols : Lists u s.assets symbols) :
    Holds u t ∧ Lists u t.assets (wanted symbols events) := by
  induction events generalizing s symbols with
  | nil =>
      cases h
      exact ⟨hs, hsymbols⟩
  | cons e events ih =>
      obtain ⟨r, hr, h⟩ := Option.bind_eq_some_iff.mp h
      obtain ⟨hholds, hassets⟩ := holds_step hs hr
      rw [wanted, List.foldl_cons, ← wanted]
      refine ih h hholds fun sym => ?_
      rw [hassets]
      cases e with
      | outside event => exact hsymbols sym
      | cycle input =>
          rw [nextAssets, assetsAfter]
          dsimp only
          split_ifs
          · exact hsymbols sym
          · exact u.mem_setOrder _ sym

/-- In every run the manager holds the symbols of the last list that was not empty, written small,
and no others; a round, a count or a publication never adds or loses one. -/
theorem manager_follows_fast_symbols {now : K} {assets : List String} {times : CycleTimes K}
    {fxcm : List (String × Json K)} {s t : LoopState K} {events : List (LoopEvent K)}
    (hboot : bootstrap u now assets times fxcm = some s)
    (hrun : replay (ProducerLoop.step u) s events = some t) (sym : String) :
    (sym ∈ t.pipeline.manager.keys ↔ sym ∈ t.assets) ∧
      (sym ∈ t.assets ↔ ∃ symbol ∈ wanted assets events, u.lower symbol = sym) := by
  obtain ⟨hs, hassets⟩ := holds_bootstrap hboot
  have hsymbols : Lists u s.assets assets := fun sym => by rw [hassets]
  obtain ⟨ht, hlists⟩ := lists_run hrun hs hsymbols
  exact ⟨ht.keys sym, (hlists sym).trans List.mem_map⟩

theorem toLower_of_isCapital {c : Char} (h : c.val ≥ 'A'.val ∧ c.val ≤ 'Z'.val) :
    c.toLower.val = c.val + ('a'.val - 'A'.val) := by
  delta Char.toLower
  rw [dif_pos h]

theorem toLower_of_not_isCapital {c : Char} (h : ¬ (c.val ≥ 'A'.val ∧ c.val ≤ 'Z'.val)) :
    c.toLower = c := by
  delta Char.toLower
  rw [dif_neg h]

theorem toLower_toLower (c : Char) : c.toLower.toLower = c.toLower := by
  by_cases h : c.val ≥ 'A'.val ∧ c.val ≤ 'Z'.val
  · refine toLower_of_not_isCapital ?_
    rw [toLower_of_isCapital h]
    obtain ⟨hfrom, hto⟩ := h
    rintro ⟨-, hupper⟩
    rw [ge_iff_le, UInt32.le_iff_toNat_le] at hfrom
    rw [UInt32.le_iff_toNat_le] at hto hupper
    rw [UInt32.toNat_add] at hupper
    change 65 ≤ c.val.toNat at hfrom
    change c.val.toNat ≤ 90 at hto
    change (c.val.toNat + 32) % 2 ^ 32 ≤ 90 at hupper
    omega
  · rw [toLower_of_not_isCapital h, toLower_of_not_isCapital h]

theorem lowerText_lowerText (s : String) :
    StrictMessages.lowerText (StrictMessages.lowerText s) = StrictMessages.lowerText s := by
  unfold StrictMessages.lowerText
  rw [String.toList_ofList, List.map_map]
  exact congrArg String.ofList (List.map_congr_left fun c _ => toLower_toLower c)

/-- Exact arithmetic, with the defaults of the settings; a set is listed in the order of the last
places. -/
def exactLoop : LoopSetup ℚ where
  toPipelineSetup := { StrictMessages.exactSetup with producer := ⟨"1m", 50⟩ }
  int := fun s => if s = "1" then some 1 else none
  cfg :=
    { oneBarConfig with
      lookback := 240
      limit := some 50
      minReadyShare := fun n => (3 * n / 5 : ℕ) }
  schemaVersion := "smc_state_v1"
  setOrder := List.dedup
  mem_setOrder := fun _ _ => List.mem_dedup
  nodup_setOrder := List.nodup_dedup
  lower_lower := lowerText_lowerText
  lookback_eq := by decide

def noTimes : CycleTimes ℚ := ⟨"", "", "", 0, true, true⟩

/-- A round of a symbol that has no rows. -/
def emptyRound (symbol : String) : GatherEvent ℚ :=
  .round 0 ⟨symbol, some [], none, OrderedDict.empty, 0, .missing, 0, ""⟩

/-- A cycle in an open market whose store is empty. -/
def emptyCycle (fastSymbols : Option (List String)) (assets rounds : List String) :
    CycleInput ℚ where
  fastSymbols := fastSymbols
  feed := ⟨some "open", some "ok", some "ok"⟩
  statusAge := none
  visits := assets.map fun symbol => ⟨symbol, some (0, [])⟩
  gather := rounds.map emptyRound
  times := noTimes
  fxcm := []

/-- The list of fast symbols names another symbol, and then cannot be read. -/
def twoLists : List (LoopEvent ℚ) :=
  [.cycle (emptyCycle (some ["EURUSD"]) ["eurusd"] ["eurusd"]),
    .cycle (emptyCycle none ["eurusd"] ["eurusd"])]

/-- A run from the start, for traces that are evaluated. -/
def runOf (u : LoopSetup K) (now : K) (assets : List String) (times : CycleTimes K)
    (events : List (LoopEvent K)) : Option (LoopState K) :=
  (bootstrap u now assets times []).bind fun s => replay (ProducerLoop.step u) s events

theorem exists_of_runOf (u : LoopSetup K) (now : K) (assets : List String) (times : CycleTimes K)
    (events : List (LoopEvent K)) (h : (runOf u now assets times events).isSome = true) :
    ∃ s t, bootstrap u now assets times [] = some s ∧
      replay (ProducerLoop.step u) s events = some t := by
  obtain ⟨t, ht⟩ := Option.isSome_iff_exists.mp h
  obtain ⟨s, hs, ht⟩ := Option.bind_eq_some_iff.mp ht
  exact ⟨s, t, hs, ht⟩

theorem manager_follows_two_lists :
    ∃ t : LoopState ℚ, "eurusd" ∈ t.pipeline.manager.keys ∧ "xauusd" ∉ t.pipeline.manager.keys := by
  obtain ⟨s, t, hboot, hrun⟩ := exists_of_runOf exactLoop 0 ["XAUUSD"] noTimes twoLists
    (by decide +kernel)
  have heur := manager_follows_fast_symbols hboot hrun "eurusd"
  have hxau := manager_follows_fast_symbols hboot hrun "xauusd"
  rw [← heur.1] at heur
  rw [← hxau.1] at hxau
  exact ⟨t, heur.2.mpr (by decide), fun hmem => absurd (hxau.2.mp hmem) (by decide)⟩

end SmcPipeline.ProducerAssets
