import SmcPipeline.ProducerAssets

/-!
# Which assets get a round

The capacity guard takes the first symbols of the list of assets. That list is the listing of a
set, which is the same in every cycle while the same fast symbols are read. So the symbols at its
front get a round in each cycle that is not idle, and the others never do.
-/

namespace SmcPipeline.ProducerRounds

open SmcPublisher ProducerLoop ProducerReadiness ProducerAssets Runs
open SmcProducer hiding step run

variable {K : Type*} [Field K] [LinearOrder K] [FloorRing K] {u : LoopSetup K}

/-- The symbols that a cycle selects of the assets. -/
def front (u : LoopSetup K) (assets : List String) : List String :=
  if u.cfg.maxAssetsPerCycle ≤ 0 then assets else assets.take u.cfg.maxAssetsPerCycle.toNat

omit [Field K] [LinearOrder K] [FloorRing K] in
theorem selected_eq {assets : List String} (h : ∀ sym ∈ assets, u.lower sym = sym) :
    selected u assets = front u assets := by
  have hlower : assets.map u.lower = assets := by
    rw [List.map_congr_left h, List.map_id']
  unfold selected selectSymbolsForCycle front
  rw [hlower]
  split_ifs <;> rfl

omit [Field K] [LinearOrder K] [FloorRing K] in
theorem map_lower_front {assets : List String} (h : ∀ sym ∈ assets, u.lower sym = sym) :
    ∀ sym ∈ front u assets, u.lower sym = sym := by
  intro sym hsym
  unfold front at hsym
  split_ifs at hsym
  · exact h sym hsym
  · exact h sym (List.mem_of_mem_take hsym)

/-- The rounds of the tasks are the selected symbols, each as often as it is selected; those of a
single task are in order. -/
theorem rounds_of_gather {assets : List String} (h : ∀ sym ∈ assets, u.lower sym = sym)
    {s t : Pipeline K} {events : List (GatherEvent K)}
    (hgather : gather u (Tasks.batches u.cfg.batchSize (selected u assets)) s events = some t) :
    (roundSymbols events).Perm (front u assets) ∧
      ((front u assets).length ≤ u.cfg.batchSize → roundSymbols events = front u assets) := by
  obtain ⟨order, horder, hrounds⟩ := gather_interleaved hgather
  have hperm := horder.perm
  rw [flatten_batches_selected, selected_eq h] at hperm
  have hsame : roundSymbols events = order := by
    rw [hrounds, List.map_congr_left, List.map_id']
    exact fun sym hsym => map_lower_front h sym (hperm.mem_iff.mp hsym)
  refine ⟨hsame ▸ hperm, fun hlength => ?_⟩
  rw [selected_eq h] at horder
  rcases Nat.eq_zero_or_pos (front u assets).length with hzero | hpos
  · have hnil := List.length_eq_zero_iff.mp hzero
    rw [hnil] at hperm ⊢
    rw [hsame, hperm.eq_nil]
  · rw [Tasks.batches_eq_single hpos hlength] at horder
    rw [hsame, horder.eq_of_single]

/-- The rounds of a cycle that is not idle are those of its selected symbols. -/
theorem rounds_of_cycle {s t : LoopState K} {input : CycleInput K} (hholds : Holds u s)
    (hcycle : cycle u input s = some t)
    (hgate : (shouldRunSmcCycle (textFunctions u) input.feed input.statusAge).1 = true) :
    t.assets = assetsAfter u s.assets input.fastSymbols ∧
      (roundSymbols input.gather).Perm (front u t.assets) ∧
      ((front u t.assets).length ≤ u.cfg.batchSize →
        roundSymbols input.gather = front u t.assets) := by
  obtain ⟨q, hsync, h⟩ := Option.bind_eq_some_iff.mp hcycle
  dsimp only at h
  rw [if_pos hgate] at h
  split_ifs at h
  have hcounted : Holds u { s with cycleSeq := s.cycleSeq + 1 } := ⟨hholds.keys, hholds.lower⟩
  obtain ⟨hq, heq⟩ := sync_spec hcounted hsync
  obtain ⟨hr, hassets⟩ := holds_screen hq h
  obtain ⟨rounds, noted, hgather, -, -⟩ := screen_cases h
  rw [hassets]
  exact ⟨by rw [heq], rounds_of_gather hq.lower hgather⟩

/-- In every cycle that is not idle, whatever ran before it, the tasks do one round for each of the
assets at the front of the list and none for another; where one batch is enough, in that order. -/
theorem holds_run {now : K} {assets : List String} {times : CycleTimes K}
    {fxcm : List (String × Json K)} {s t : LoopState K} {events : List (LoopEvent K)}
    (hboot : bootstrap u now assets times fxcm = some s)
    (hrun : replay (ProducerLoop.step u) s events = some t) : Holds u t :=
  replay_invariant (I := Holds u) (fun _ _ _ _ hs hst => (holds_step hs hst).1) hrun
    (holds_bootstrap hboot).1

theorem one_round_for_each_selected {now : K} {assets : List String} {times : CycleTimes K}
    {fxcm : List (String × Json K)} {s t r : LoopState K} {events : List (LoopEvent K)}
    {input : CycleInput K} (hboot : bootstrap u now assets times fxcm = some s)
    (hrun : replay (ProducerLoop.step u) s events = some t) (hcycle : cycle u input t = some r)
    (hgate : (shouldRunSmcCycle (textFunctions u) input.feed input.statusAge).1 = true) :
    (roundSymbols input.gather).Perm (front u r.assets) ∧
      ((front u r.assets).length ≤ u.cfg.batchSize →
        roundSymbols input.gather = front u r.assets) :=
  (rounds_of_cycle (holds_run hboot hrun) hcycle hgate).2

theorem one_round_after_two_lists :
    ∃ r : LoopState ℚ, (roundSymbols (emptyCycle none ["eurusd"] ["eurusd"]).gather).Perm
      (front exactLoop r.assets) := by
  obtain ⟨r, hr⟩ := Option.isSome_iff_exists.mp
    (show ((runOf exactLoop 0 ["XAUUSD"] noTimes twoLists).bind
      (cycle exactLoop (emptyCycle none ["eurusd"] ["eurusd"]))).isSome = true by decide +kernel)
  obtain ⟨t, ht, hcycle⟩ := Option.bind_eq_some_iff.mp hr
  obtain ⟨s, hboot, hrun⟩ := Option.bind_eq_some_iff.mp ht
  exact ⟨r, (one_round_for_each_selected hboot hrun hcycle (by decide +kernel)).1⟩

/-- The asset of a symbol, if there is one, is as it was made: nothing but its stats has changed. -/
def Untouched (sym key : String) (asset : SmcAsset K) : Prop :=
  key = sym → asset.fields = (initAsset sym : SmcAsset K).fields

omit [Field K] [LinearOrder K] [FloorRing K] in
theorem untouched_initAsset (sym symbol : String) :
    Untouched sym symbol (initAsset symbol : SmcAsset K) := by
  rintro rfl
  rfl

/-- There is no hint yet that a publication could change. -/
theorem untouched_publishAsset {env : PublishRuntime K} {sym key : String}
    {asset kept : SmcAsset K} {published : Json (PyFloat K)} (h : Untouched sym key asset)
    (hpublish : publishAsset env asset = some (kept, published)) : Untouched sym key kept := by
  intro hkey
  have hfields := h hkey
  obtain ⟨shown, -, hpublish⟩ := Option.bind_eq_some_iff.mp hpublish
  obtain ⟨⟨plain, shown'⟩, -, hpublish⟩ := Option.bind_eq_some_iff.mp hpublish
  cases hpublish
  have hnull : getItem asset.fields "smc_hint" = .null := by
    rw [hfields]
    rfl
  dsimp only
  rw [hnull]
  cases plain <;> exact hfields

theorem untouched_applyLocalPipelineStats {lower : String → String}
    {bars minReady target : String → ℤ} {sym : String} {manager : OrderedDict String (SmcAsset K)}
    (h : manager.Every (Untouched sym)) :
    (Pipeline.applyLocalPipelineStats lower bars minReady target manager).Every
      (Untouched sym) := by
  unfold Pipeline.applyLocalPipelineStats
  exact OrderedDict.every_foldl_set h
    (List.forall_mem_map.mpr fun item hitem hkey => h item hitem hkey)

/-- Only a round of its own touches an asset. -/
theorem untouched_step {sym : String} {s t : Pipeline K} {e : PipelineEvent K}
    (hround : ∀ input, e = .round input → input.symbol ≠ sym)
    (hs : s.manager.Every (Untouched sym)) (h : Pipeline.step u.toPipelineSetup s e = some t) :
    t.manager.Every (Untouched sym) := by
  cases e with
  | packet packet stored =>
      cases h
      exact hs
  | tick payload =>
      cases h
      exact hs
  | clock now =>
      cases h
      exact hs
  | round input =>
      unfold Pipeline.step at h
      dsimp only at h
      split_ifs at h
      cases h
      exact OrderedDict.every_set hs fun hkey => absurd hkey (hround input rfl)
  | initAsset symbol =>
      unfold Pipeline.step at h
      dsimp only at h
      split_ifs at h
      cases h
      exact OrderedDict.every_set hs (untouched_initAsset sym symbol)
  | removeAsset symbol =>
      unfold Pipeline.step at h
      dsimp only at h
      split_ifs at h
      cases h
      exact OrderedDict.every_erase hs symbol
  | localStats bars minReady target =>
      unfold Pipeline.step at h
      dsimp only at h
      split_ifs at h
      cases h
      exact untouched_applyLocalPipelineStats hs
  | publish items fxcm taken =>
      unfold Pipeline.step at h
      dsimp only at h
      split_ifs at h
      split at h
      · cases h
        exact hs
      · rename_i manager payload hpublished
        cases h
        have hkept : ∀ (key : String) (asset kept : SmcAsset K) (published : Json (PyFloat K)),
            Untouched sym key asset → publishAsset u.publisher asset = some (kept, published) →
              Untouched sym key kept :=
          fun _ _ _ _ huntouched hone => untouched_publishAsset huntouched hone
        exact (publishSmcState_spec hkept hs hpublished).1
  | broadcast index =>
      obtain ⟨payload, -, heq⟩ := Option.map_eq_some_iff.mp h
      cases heq
      exact hs

/-- The same for the events that are no rounds at all. -/
theorem untouched_replay {sym : String} {s t : Pipeline K} {events : List (PipelineEvent K)}
    (hevents : ∀ e ∈ events, ∀ input, e ≠ .round input) (hs : s.manager.Every (Untouched sym))
    (h : replay (Pipeline.step u.toPipelineSetup) s events = some t) :
    t.manager.Every (Untouched sym) :=
  replay_invariant (I := fun p => p.manager.Every (Untouched sym))
    (fun e he _ _ hp hpq =>
      untouched_step (fun input heq => absurd heq (hevents e he input)) hp hpq) h hs

theorem untouched_outside {sym : String} {s t : Pipeline K} {e : PipelineEvent K}
    (hout : isOutside e = true) (hs : s.manager.Every (Untouched sym))
    (h : Pipeline.step u.toPipelineSetup s e = some t) : t.manager.Every (Untouched sym) := by
  refine untouched_step (fun input heq => ?_) hs h
  rw [heq] at hout
  cases hout

theorem untouched_publish {sym : String} {times : CycleTimes K} {extra fxcm : List (String × Json K)}
    {s t : LoopState K} (hs : s.pipeline.manager.Every (Untouched sym))
    (h : publish u times extra fxcm s = some t) : t.pipeline.manager.Every (Untouched sym) := by
  obtain ⟨pipeline, hpublish, rfl⟩ := publish_cases h
  exact untouched_step (fun _ heq => by cases heq) hs hpublish

theorem untouched_sync {sym : String} {fastSymbols : Option (List String)} {s t : LoopState K}
    (hs : s.pipeline.manager.Every (Untouched sym)) (h : sync u fastSymbols s = some t) :
    t.pipeline.manager.Every (Untouched sym) := by
  unfold sync at h
  split at h
  · cases h
    exact hs
  · obtain ⟨pipeline, hreplay, heq⟩ := Option.map_eq_some_iff.mp h
    cases heq
    refine untouched_replay (fun e he input heq => ?_) hs hreplay
    subst heq
    rcases List.mem_append.mp he with he | he
    · obtain ⟨symbol, -, heq⟩ := List.mem_map.mp he
      cases heq
    · obtain ⟨symbol, -, heq⟩ := List.mem_map.mp he
      cases heq

theorem untouched_cycle {sym : String} {input : CycleInput K} {s t : LoopState K}
    (hholds : Holds u s) (hs : s.pipeline.manager.Every (Untouched sym))
    (hsym : sym ∉ front u (assetsAfter u s.assets input.fastSymbols))
    (h : cycle u input s = some t) : t.pipeline.manager.Every (Untouched sym) := by
  obtain ⟨r, hsync, h⟩ := cycle_cases h
  have hcounted : Holds u { s with cycleSeq := s.cycleSeq + 1 } := ⟨hholds.keys, hholds.lower⟩
  obtain ⟨hr, heq⟩ := sync_spec hcounted hsync
  have hassets : r.assets = assetsAfter u s.assets input.fastSymbols := by rw [heq]
  have huntouched : r.pipeline.manager.Every (Untouched sym) := by
    refine untouched_sync ?_ hsync
    exact hs
  rcases h with ⟨reason, hpublish⟩ | ⟨-, allow, hscreen⟩
  · exact untouched_publish huntouched hpublish
  · obtain ⟨rounds, noted, hgather, hnoted, hpublish⟩ := screen_cases hscreen
    have hrounds : rounds.manager.Every (Untouched sym) := by
      refine gather_invariant (I := fun p => p.manager.Every (Untouched sym))
        (fun e p q hout hp hpq => untouched_outside hout hp hpq)
        (fun input p q hinput hp hpq => untouched_step (fun input' heq hsymbol => ?_) hp hpq)
        hgather huntouched
      cases heq
      apply hsym
      rw [flatten_batches_selected, selected_eq hr.lower, List.map_congr_left
        (map_lower_front hr.lower), List.map_id', hassets, hsymbol] at hinput
      exact hinput
    have hnotedUntouched : noted.manager.Every (Untouched sym) :=
      untouched_step (fun _ heq => by cases heq) hrounds hnoted
    refine untouched_publish ?_ hpublish
    exact hnotedUntouched

theorem untouched_run {now : K} {assets : List String} {times : CycleTimes K}
    {fxcm : List (String × Json K)} {s t : LoopState K} {events : List (LoopEvent K)} {sym : String}
    (hboot : bootstrap u now assets times fxcm = some s)
    (hafter : ∀ assets input, LoopEvent.cycle input ∈ events →
      sym ∉ front u (assetsAfter u assets input.fastSymbols))
    (hrun : replay (ProducerLoop.step u) s events = some t) :
    t.pipeline.manager.Every (Untouched sym) := by
  refine (replay_invariant (I := fun s => s.pipeline.manager.Every (Untouched sym) ∧ Holds u s)
    (fun e he s t hs hst => ⟨?_, (holds_step hs.2 hst).1⟩) hrun
    ⟨?_, (holds_bootstrap hboot).1⟩).1
  · cases e with
    | outside event =>
        unfold ProducerLoop.step at hst
        dsimp only at hst
        split_ifs at hst with hout
        obtain ⟨pipeline, hpipeline, rfl⟩ := Option.map_eq_some_iff.mp hst
        exact untouched_outside hout hs.1 hpipeline
    | cycle input =>
        unfold ProducerLoop.step at hst
        dsimp only at hst
        split_ifs at hst
        exact untouched_cycle hs.2 hs.1 (hafter _ input he) hst
  · obtain ⟨pipeline, hreplay, hpublish⟩ := Option.bind_eq_some_iff.mp hboot
    refine untouched_publish ?_ hpublish
    refine untouched_replay (fun e he input heq => ?_) (OrderedDict.every_empty _) hreplay
    subst heq
    rcases List.mem_append.mp he with he | he
    · obtain ⟨symbol, -, heq⟩ := List.mem_map.mp he
      cases heq
    · cases List.mem_singleton.mp he

/-- Where each cycle reads the same fast symbols, an asset that is not at the front of their
listing gets no round in any cycle that is not idle: in every state of every run it is as it was
made but for its stats, with no hint and the signal of an asset of which nothing is known. -/
theorem capacity_guard_starves {now : K} {assets fresh : List String} {times : CycleTimes K}
    {fxcm : List (String × Json K)} {s t : LoopState K} {events : List (LoopEvent K)} {sym : String}
    (hboot : bootstrap u now assets times fxcm = some s) (hfresh : fresh ≠ [])
    (hreads : ∀ input, LoopEvent.cycle input ∈ events → input.fastSymbols = some fresh)
    (hsym : sym ∉ front u (u.setOrder (fresh.map u.lower)))
    (hrun : replay (ProducerLoop.step u) s events = some t) :
    (∀ input, LoopEvent.cycle input ∈ events →
        (shouldRunSmcCycle (textFunctions u) input.feed input.statusAge).1 = true →
        sym ∉ roundSymbols input.gather) ∧
      ∀ asset, t.pipeline.manager.get? sym = some asset →
        asset.fields = (initAsset sym : SmcAsset K).fields := by
  have hafter : ∀ assets input, LoopEvent.cycle input ∈ events →
      sym ∉ front u (assetsAfter u assets input.fastSymbols) := by
    intro assets input hinput
    rw [assetsAfter, hreads input hinput, Option.getD_some, if_neg hfresh]
    exact hsym
  refine ⟨fun input hinput hgate hround => ?_, fun asset hasset =>
    untouched_run hboot hafter hrun _ (OrderedDict.mem_items_of_get? hasset) rfl⟩
  obtain ⟨before, after, rfl⟩ := List.append_of_mem hinput
  rw [replay_append] at hrun
  obtain ⟨r, hr, hrun⟩ := Option.bind_eq_some_iff.mp hrun
  obtain ⟨q, hq, -⟩ := Option.bind_eq_some_iff.mp hrun
  unfold ProducerLoop.step at hq
  dsimp only at hq
  split_ifs at hq
  obtain ⟨hassets, hperm, -⟩ := rounds_of_cycle (holds_run hboot hr) hq hgate
  rw [hassets] at hperm
  exact hafter _ input hinput (hperm.mem_iff.mp hround)

/-- One asset a cycle. -/
def oneAssetLoop : LoopSetup ℚ :=
  { exactLoop with cfg := { exactLoop.cfg with maxAssetsPerCycle := 1 }, lookback_eq := by decide }

def sameList : List (LoopEvent ℚ) :=
  [.cycle (emptyCycle (some ["XAUUSD", "EURUSD"]) ["xauusd", "eurusd"] ["xauusd"]),
    .cycle (emptyCycle (some ["XAUUSD", "EURUSD"]) ["xauusd", "eurusd"] ["xauusd"])]

theorem second_asset_starves :
    ∃ asset : SmcAsset ℚ, asset.fields = (initAsset "eurusd" : SmcAsset ℚ).fields := by
  obtain ⟨asset, hasset⟩ := Option.isSome_iff_exists.mp
    (show ((runOf oneAssetLoop 0 ["XAUUSD", "EURUSD"] noTimes sameList).bind fun t =>
      t.pipeline.manager.get? "eurusd").isSome = true by decide +kernel)
  obtain ⟨t, ht, hasset⟩ := Option.bind_eq_some_iff.mp hasset
  obtain ⟨s, hboot, hrun⟩ := Option.bind_eq_some_iff.mp ht
  have hfresh : ["XAUUSD", "EURUSD"] ≠ [] := by decide
  refine ⟨asset, (capacity_guard_starves hboot hfresh ?_ (by decide +kernel) hrun).2 asset hasset⟩
  intro input hinput
  rcases List.mem_cons.mp hinput with heq | hinput
  · cases heq
    rfl
  · cases List.mem_singleton.mp hinput
    rfl

end SmcPipeline.ProducerRounds
