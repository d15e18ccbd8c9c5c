import SmcPipeline.ProducerAssets

/-!
# What the producer says of itself

The `meta` of each publication. Its numbers come from two loops over the same histories, and an
idle cycle repeats those of the last cycle that was not idle: among them the state, so that the
state `IDLE` that it sets first is never seen.
-/

namespace SmcPipeline.ProducerMeta

open ProducerLoop ProducerReadiness ProducerAssets Runs

variable {K : Type*}

theorem dictOf_concat (items : List (String × Json K)) (item : String × Json K) :
    dictOf (items ++ [item]) = (dictOf items).set item.1 item.2 := List.foldl_concat _ _ _ _

theorem get?_dictOf_append (a b : List (String × Json K)) (k : String) :
    (dictOf (a ++ b)).get? k = ((dictOf b).get? k).or ((dictOf a).get? k) := by
  induction b using List.reverseRecOn with
  | nil => simp [dictOf, OrderedDict.get?, OrderedDict.empty]
  | append_singleton b item ih =>
      rw [← List.append_assoc, dictOf_concat, dictOf_concat, OrderedDict.get?_set,
        OrderedDict.get?_set, ih]
      split_ifs <;> rfl

theorem get?_dictOf {items : List (String × Json K)} (h : (items.map Prod.fst).Nodup)
    (k : String) : (dictOf items).get? k = items.lookup k := by
  rw [dictOf, OrderedDict.get?_foldl_set items h]
  induction items with
  | nil => rfl
  | cons item items ih =>
      rw [List.find?_cons, List.lookup_cons]
      by_cases hk : item.1 = k
      · simp [hk]
      · have hne : (k == item.1) = false := beq_eq_false_iff_ne.mpr (Ne.symm hk)
        rw [hne, decide_eq_false hk]
        exact ih (List.nodup_cons.mp h).2

theorem get?_dictOf_eq_none {items : List (String × Json K)} {k : String}
    (h : k ∉ items.map Prod.fst) : (dictOf items).get? k = none := by
  rw [OrderedDict.get?_eq_none_iff, dictOf, mem_keys_foldl_set]
  simpa [OrderedDict.keys, OrderedDict.empty] using h

theorem get?_head (item : String × Json K) (items : List (String × Json K))
    (h : item.1 ∉ items.map Prod.fst) : (dictOf (item :: items)).get? item.1 = some item.2 := by
  rw [← List.singleton_append, get?_dictOf_append, get?_dictOf_eq_none h, Option.none_or, dictOf,
    List.foldl_cons, List.foldl_nil, OrderedDict.get?_set_self]

/-- Items of other names change nothing. -/
theorem get?_dictOf_append_left {a b : List (String × Json K)} {k : String}
    (h : k ∉ b.map Prod.fst) : (dictOf (a ++ b)).get? k = (dictOf a).get? k := by
  rw [get?_dictOf_append, get?_dictOf_eq_none h, Option.none_or]

/-- What the later items say counts. -/
theorem get?_dictOf_append_right {a b : List (String × Json K)} {k : String} {v : Json K}
    (h : (dictOf b).get? k = some v) : (dictOf (a ++ b)).get? k = some v := by
  rw [get?_dictOf_append, h, Option.some_or]

/-- The numbers of assets: all of them, those with the target length, and those with the least
length that is needed. -/
structure Numbers where
  total : ℕ
  ready : ℕ
  readyMin : ℕ
  ready_le : ready ≤ readyMin
  readyMin_le : readyMin ≤ total

theorem stateOf_ne_idle {K : Type*} (n : Numbers) :
    some (Json.str (stateOf n.ready n.readyMin n.total) : Json K) ≠ some (.str "IDLE") := by
  unfold stateOf
  split_ifs <;> simp

/-- The items of these numbers, and the state that they amount to. -/
structure Shows (n : Numbers) (m : OrderedDict String (Json K)) : Prop where
  total : m.get? "pipeline_assets_total" = some (.int n.total)
  ready : m.get? "pipeline_ready_assets" = some (.int n.ready)
  readyMin : m.get? "pipeline_ready_assets_min" = some (.int n.readyMin)
  state : m.get? "pipeline_state" = some (.str (stateOf n.ready n.readyMin n.total))

/-- The counts of the histories: the good ones are as many as the assets that are ready, and all
of them together are no more than the assets. -/
def ShowsHistories (n : Numbers) (m : OrderedDict String (Json K)) : Prop :=
  ∃ insufficient staleTail unknown : ℕ,
    m.get? "s2_ok_assets" = some (.int n.readyMin) ∧
      m.get? "s2_insufficient_assets" = some (.int insufficient) ∧
      m.get? "s2_stale_tail_assets" = some (.int staleTail) ∧
      m.get? "s2_unknown_assets" = some (.int unknown) ∧
      n.readyMin + insufficient + staleTail + unknown ≤ n.total

def pipelineNames : List String :=
  ["pipeline_assets_total", "pipeline_ready_assets", "pipeline_ready_assets_min", "pipeline_state"]

def historyNames : List String :=
  ["s2_ok_assets", "s2_insufficient_assets", "s2_stale_tail_assets", "s2_unknown_assets"]

theorem Shows.congr {n : Numbers} {m m' : OrderedDict String (Json K)} (h : Shows n m)
    (heq : ∀ name ∈ pipelineNames, m'.get? name = m.get? name) : Shows n m' := by
  obtain ⟨htotal, hready, hmin, hstate⟩ := h
  exact ⟨(heq _ (by decide)).trans htotal, (heq _ (by decide)).trans hready,
    (heq _ (by decide)).trans hmin, (heq _ (by decide)).trans hstate⟩

section

variable [Field K] [LinearOrder K] [FloorRing K] (u : LoopSetup K)

/-- What the visits to the assets can leave. -/
structure Counts (assets : List String) (found : Assessment) : Prop where
  ready_le : found.readyAssets.length ≤ found.readyAssetsMinCount
  readyMin_le : found.readyAssetsMinCount ≤ assets.length
  mins : found.mins.length = assets.length
  targets : found.targets.length = assets.length

def Counts.numbers {assets : List String} {found : Assessment} (h : Counts assets found) :
    Numbers :=
  ⟨assets.length, found.readyAssets.length, found.readyAssetsMinCount, h.ready_le, h.readyMin_le⟩

theorem counts_assessAll (env : TextFunctions) (cfg : CycleConfig) (allow : Bool)
    {visits : List Visit} {assets : List String} (h : visits.map Visit.symbol = assets) :
    Counts assets (assessAll env cfg allow visits) := by
  have hfound := assessed env cfg allow visits
  have hlength : assets.length = visits.length := by rw [← h, List.length_map]
  constructor
  · rw [hfound.ready, hfound.count]
    exact countP_isReady_le env cfg allow visits
  · rw [hfound.count, hlength]
    exact List.countP_le_length
  · rw [hfound.mins, List.length_map, hlength]
  · rw [hfound.targets, List.length_map, hlength]

omit [Field K] [LinearOrder K] [FloorRing K] in
theorem counts_bootAssessment (assets : List String) :
    Counts assets (bootAssessment u assets) :=
  ⟨le_rfl, Nat.zero_le _, List.length_map _, List.length_map _⟩

theorem shows_pipelineMetaOf {assets : List String} {found : Assessment}
    (h : Counts assets found) : Shows h.numbers (dictOf (pipelineMetaOf u assets found)) := by
  have hstate := pipelineState_eq (max 1 (minReadyAssets u.cfg assets)) h.ready_le h.readyMin_le
    h.mins h.targets
  have hready : (if (max 0 (assets.length : ℤ)) = 0 then max 0 (found.readyAssets.length : ℤ)
      else max 0 (min (found.readyAssets.length : ℤ) (max 0 (assets.length : ℤ)))) =
        found.readyAssets.length := by
    have hle := h.ready_le.trans h.readyMin_le
    split_ifs <;> omega
  have hmin : max 0 (min (found.readyAssetsMinCount : ℤ) (max 0 (assets.length : ℤ))) =
      found.readyAssetsMinCount := by
    have hle := h.readyMin_le
    omega
  have htotal : max 0 (assets.length : ℤ) = assets.length := by omega
  have hitems : pipelineMetaOf u assets found =
      [("pipeline_state", .str (stateOf found.readyAssets.length found.readyAssetsMinCount
          assets.length)),
        ("pipeline_ready_assets", .int found.readyAssets.length),
        ("pipeline_min_ready", .int (max 1 (minReadyAssets u.cfg assets))),
        ("pipeline_assets_total", .int assets.length),
        ("pipeline_ready_pct", .float (if (assets.length : ℤ) = 0 then 0
          else Rounding.roundTo 4 (((found.readyAssets.length : ℤ) : K) /
            ((assets.length : ℤ) : K)))),
        ("pipeline_ready_assets_min", .int found.readyAssetsMinCount)] ++
        ((found.mins.min?.map fun bars => ("pipeline_min_ready_bars", Json.int bars)).toList ++
          (found.targets.max?.map fun bars => ("pipeline_target_bars", Json.int bars)).toList) := by
    unfold pipelineMetaOf buildPipelineMeta
    dsimp only [Option.map_some]
    rw [hready, hmin, htotal, hstate]
    simp
  have hrest : ∀ name ∈ pipelineNames, name ∉
      ((found.mins.min?.map fun bars =>
          ("pipeline_min_ready_bars", (Json.int bars : Json K))).toList ++
        (found.targets.max?.map fun bars =>
          ("pipeline_target_bars", (Json.int bars : Json K))).toList).map Prod.fst := by
    cases found.mins.min? <;> cases found.targets.max? <;> simp [pipelineNames]
  rw [hitems]
  refine Shows.congr (m := dictOf _) ?_ fun name hname =>
    get?_dictOf_append_left (hrest name hname)
  constructor <;> rw [get?_dictOf (by simp)] <;> simp [Counts.numbers, List.lookup_cons]

theorem names_pipelineMetaOf (assets : List String) (found : Assessment) :
    ∀ name ∈ (pipelineMetaOf u assets found).map Prod.fst,
      name ∉ "cycle_seq" :: historyNames := by
  unfold pipelineMetaOf buildPipelineMeta
  cases found.mins.min? <;> cases found.targets.max? <;> simp [historyNames]

omit [LinearOrder K] [FloorRing K] in
theorem showsHistories_s2Meta {allow : Bool} {visits : List Visit} {assets : List String}
    (hvisits : visits.map Visit.symbol = assets) (hnodup : (assets.map u.lower).Nodup) :
    ShowsHistories
      (counts_assessAll (textFunctions u) u.cfg allow hvisits).numbers
      (dictOf (s2Meta K u.cfg.staleK allow
        (summarize allow (assessAll (textFunctions u) u.cfg allow visits).historyBySymbol))) := by
  have hsymbols : (visits.map fun visit => (textFunctions u).lower visit.symbol).Nodup := by
    rw [← hvisits, List.map_map] at hnodup
    exact hnodup
  obtain ⟨hok, hall⟩ := summarize_assessAll (textFunctions u) u.cfg allow hsymbols
  have hcount := (assessed (textFunctions u) u.cfg allow visits).count
  have hread : (visits.countP fun visit => visit.read.isSome) ≤ assets.length := by
    rw [← hvisits, List.length_map]
    exact List.countP_le_length
  generalize summarize allow
    (assessAll (textFunctions u) u.cfg allow visits).historyBySymbol = summary at hok hall ⊢
  refine ⟨summary.insufficient, summary.staleTail, summary.unknown, ?_, ?_, ?_, ?_, ?_⟩
  · rw [get?_dictOf (by simp [s2Meta])]
    simp [s2Meta, Counts.numbers, hok, hcount]
  · rw [get?_dictOf (by simp [s2Meta])]
    simp [s2Meta, List.lookup_cons]
  · rw [get?_dictOf (by simp [s2Meta])]
    simp [s2Meta, List.lookup_cons]
  · rw [get?_dictOf (by simp [s2Meta])]
    simp [s2Meta, List.lookup_cons]
  · have hle := hall.le.trans hread
    rw [hok, ← hcount] at hle
    exact hle

end

theorem Shows.append {n : Numbers} {before items after : List (String × Json K)}
    (h : Shows n (dictOf items)) (hafter : ∀ name ∈ pipelineNames, name ∉ after.map Prod.fst) :
    Shows n (dictOf (before ++ items ++ after)) := by
  refine Shows.congr (m := dictOf (before ++ items)) ?_ fun name hname =>
    get?_dictOf_append_left (hafter name hname)
  exact ⟨get?_dictOf_append_right h.total, get?_dictOf_append_right h.ready,
    get?_dictOf_append_right h.readyMin, get?_dictOf_append_right h.state⟩

theorem ShowsHistories.prepend {n : Numbers} {before items : List (String × Json K)}
    (h : ShowsHistories n (dictOf items)) : ShowsHistories n (dictOf (before ++ items)) := by
  obtain ⟨insufficient, staleTail, unknown, hok, hinsufficient, hstale, hunknown, hle⟩ := h
  exact ⟨insufficient, staleTail, unknown, get?_dictOf_append_right hok,
    get?_dictOf_append_right hinsufficient, get?_dictOf_append_right hstale,
    get?_dictOf_append_right hunknown, hle⟩

/-- What the publication of a cycle says: its number, the numbers of assets with their state, and
the counts of the histories unless there are none yet. -/
def Law (seq : ℕ) (m : OrderedDict String (Json K)) : Prop :=
  m.get? "cycle_seq" = some (.int seq) ∧
    ∃ n : Numbers, Shows n m ∧
      (ShowsHistories n m ∨ ∀ name ∈ historyNames, m.get? name = none)

/-- The last items for `meta`, which idle cycles repeat. -/
def Remembers (pipelineMeta s2 : List (String × Json K)) : Prop :=
  (∀ name ∈ pipelineMeta.map Prod.fst, name ∉ "cycle_seq" :: historyNames) ∧
    (∀ name ∈ s2.map Prod.fst, name ∉ "cycle_seq" :: pipelineNames) ∧
      ∃ n : Numbers, Shows n (dictOf pipelineMeta) ∧ (ShowsHistories n (dictOf s2) ∨ s2 = [])

section

variable [Field K] [LinearOrder K] [FloorRing K] {u : LoopSetup K}

omit [Field K] [LinearOrder K] [FloorRing K] in
/-- What is remembered makes a publication lawful, whatever else it holds. -/
theorem law_metaOf (ts : String) (seq : ℕ) (head more : List (String × Json K))
    {pipelineMeta s2 : List (String × Json K)} (hlast : Remembers pipelineMeta s2)
    (hseq : (dictOf head).get? "cycle_seq" = some (.int seq))
    (hhead : ∀ name ∈ historyNames, name ∉ head.map Prod.fst)
    (hmore : ∀ name ∈ "cycle_seq" :: pipelineNames ++ historyNames, name ∉ more.map Prod.fst) :
    Law seq (metaOf u ts seq (head ++ pipelineMeta ++ more ++ s2)) := by
  obtain ⟨hnames, hs2, n, hshows, hhistories⟩ := hlast
  have hsplit : ∀ base : List (String × Json K), base ++ (head ++ pipelineMeta ++ more ++ s2) =
      (base ++ head) ++ pipelineMeta ++ (more ++ s2) := by
    intro base
    simp only [List.append_assoc]
  unfold metaOf
  refine ⟨?_, n, ?_, ?_⟩
  · rw [hsplit, List.append_assoc, get?_dictOf_append_left]
    · exact get?_dictOf_append_right hseq
    · rw [List.map_append, List.map_append, List.mem_append, List.mem_append]
      rintro (hmem | hmem | hmem)
      · exact hnames _ hmem (by simp)
      · exact hmore _ (by simp) hmem
      · exact hs2 _ hmem (by simp)
  · rw [hsplit]
    refine hshows.append fun name hname => ?_
    rw [List.map_append, List.mem_append]
    rintro (hmem | hmem)
    · exact hmore name (List.mem_append_left _ (List.mem_cons_of_mem _ hname)) hmem
    · exact hs2 name hmem (List.mem_cons_of_mem _ hname)
  · rcases hhistories with hhistories | rfl
    · refine Or.inl ?_
      rw [← List.append_assoc]
      exact hhistories.prepend
    · refine Or.inr fun name hname => get?_dictOf_eq_none ?_
      simp only [List.map_append, List.mem_append, not_or]
      refine ⟨?_, ⟨⟨hhead name hname, fun hmem => hnames name hmem (List.mem_cons_of_mem _ hname)⟩,
        hmore name (List.mem_append_right _ hname)⟩, by simp⟩
      revert name
      simp [historyNames]

omit [LinearOrder K] [FloorRing K] in
theorem names_s2Meta (allow : Bool) (summary : S2Summary) :
    ∀ name ∈ (s2Meta K u.cfg.staleK allow summary).map Prod.fst,
      name ∉ "cycle_seq" :: pipelineNames := by
  simp [s2Meta, pipelineNames]

/-- After a cycle that is not idle its items are remembered. -/
theorem remembers_screen (allow : Bool) {visits : List Visit} {assets : List String}
    (hvisits : visits.map Visit.symbol = assets) (hnodup : (assets.map u.lower).Nodup) :
    Remembers (pipelineMetaOf u assets (assessAll (textFunctions u) u.cfg allow visits))
      (s2Meta K u.cfg.staleK allow
        (summarize allow (assessAll (textFunctions u) u.cfg allow visits).historyBySymbol)) :=
  ⟨names_pipelineMetaOf u assets _, names_s2Meta allow _, _,
    shows_pipelineMetaOf u (counts_assessAll (textFunctions u) u.cfg allow hvisits),
    Or.inl (showsHistories_s2Meta u hvisits hnodup)⟩

variable (u) in
theorem remembers_boot (assets : List String) :
    Remembers (pipelineMetaOf u assets (bootAssessment u assets)) ([] : List (String × Json K)) :=
  ⟨names_pipelineMetaOf u assets _, by simp, _,
    shows_pipelineMetaOf u (counts_bootAssessment u assets), Or.inr rfl⟩

omit [Field K] [LinearOrder K] [FloorRing K] in
theorem law_idleExtra {ts reason : String} {times : CycleTimes K} {s : LoopState K}
    (hlast : Remembers s.pipelineMetaLast s.s2MetaLast) :
    Law s.cycleSeq (metaOf u ts s.cycleSeq (idleExtra reason times s)) := by
  have hlaw := law_metaOf (u := u) ts s.cycleSeq
    [("cycle_seq", .int s.cycleSeq), ("cycle_started_ts", .str times.started),
      ("cycle_reason", .str "smc_idle_fxcm_status"), ("fxcm_idle_reason", .str reason),
      ("pipeline_state", .str "IDLE")] [] hlast (get?_head _ _ (by simp))
    (by simp [historyNames]) (by simp)
  rwa [List.append_nil] at hlaw

theorem law_screeningExtra {ts : String} {times : CycleTimes K} {assets : List String}
    {found : Assessment} {s2 : List (String × Json K)} {seq : ℕ}
    (hlast : Remembers (pipelineMetaOf u assets found) s2) :
    Law seq (metaOf u ts seq (screeningExtra u assets found s2 seq times)) := by
  unfold screeningExtra
  refine law_metaOf ts seq _ _ hlast (get?_head _ _ (by simp)) (by simp [historyNames]) ?_
  simp [buildCapacityMeta, historyNames, pipelineNames]

theorem law_bootExtra {ts : String} {times : CycleTimes K} {assets : List String} :
    Law 0 (metaOf u ts 0 (bootExtra u assets times)) := by
  have hlaw := law_metaOf (u := u) ts 0
    [("cycle_seq", .int (0 : ℕ)), ("cycle_started_ts", .str times.started),
      ("cycle_reason", .str "smc_bootstrap")] [] (remembers_boot u assets)
    (get?_head _ _ (by simp)) (by simp [historyNames]) (by simp)
  rwa [List.append_nil, List.append_nil] at hlaw

/-- The publications so far are those of the cycles so far, and each that Redis took is
lawful. -/
structure Told (s : LoopState K) : Prop where
  nodup : s.assets.Nodup
  law : ∀ (seq : ℕ) (m : OrderedDict String (Json K)), s.published[seq]? = some (some m) →
    Law seq m
  length : s.pipeline.producing = true → s.published.length = s.cycleSeq + 1
  last : Remembers s.pipelineMetaLast s.s2MetaLast

/-- A lawful publication of the cycle that is next. -/
theorem told_publish {times : CycleTimes K} {extra fxcm : List (String × Json K)} {s t : LoopState K}
    (hnodup : s.assets.Nodup)
    (hlaw : ∀ (seq : ℕ) (m : OrderedDict String (Json K)), s.published[seq]? = some (some m) → Law seq m)
    (hlength : s.published.length = s.cycleSeq) (hlast : Remembers s.pipelineMetaLast s.s2MetaLast)
    (hextra : Law s.cycleSeq (metaOf u times.ts s.cycleSeq extra))
    (h : publish u times extra fxcm s = some t) : Told t := by
  obtain ⟨pipeline, -, rfl⟩ := publish_cases h
  refine ⟨hnodup, fun seq m hm => ?_, fun hproducing => ?_, hlast⟩
  · have hsent : ∀ m, (if times.sent then some (metaOf u times.ts s.cycleSeq extra) else none) =
        some m → Law s.cycleSeq m := by
      intro m hm
      split_ifs at hm
      exact Option.some.inj hm ▸ hextra
    dsimp only at hm
    generalize (if times.sent then some (metaOf u times.ts s.cycleSeq extra) else none) = sent
      at hsent hm
    split_ifs at hm
    · rw [List.getElem?_append] at hm
      split_ifs at hm with hlt
      · exact hlaw seq m hm
      · obtain ⟨hindex, heq⟩ := List.getElem?_eq_some_iff.mp hm
        rw [List.length_singleton] at hindex
        have hseq : seq = s.cycleSeq := by omega
        rw [List.getElem_singleton] at heq
        rw [hseq]
        exact hsent m heq
    · exact hlaw seq m hm
  · dsimp only at hproducing ⊢
    rw [if_pos hproducing, List.length_append, hlength, List.length_singleton]

theorem producing_outside {s t : Pipeline K} {e : PipelineEvent K} (hout : isOutside e = true)
    (h : Pipeline.step u.toPipelineSetup s e = some t) : t.producing = s.producing := by
  cases e with
  | packet packet stored =>
      cases h
      rfl
  | tick payload =>
      cases h
      rfl
  | clock now =>
      cases h
      rfl
  | broadcast index =>
      obtain ⟨payload, -, heq⟩ := Option.map_eq_some_iff.mp h
      cases heq
      rfl
  | round input => cases hout
  | initAsset symbol => cases hout
  | removeAsset symbol => cases hout
  | localStats bars minReady target => cases hout
  | publish items fxcm taken => cases hout

omit [Field K] [LinearOrder K] [FloorRing K] in
theorem nodup_assetsAfter {assets : List String} (h : assets.Nodup)
    (fastSymbols : Option (List String)) : (assetsAfter u assets fastSymbols).Nodup := by
  unfold assetsAfter
  split_ifs
  · exact h
  · exact u.nodup_setOrder _

theorem told_step {s t : LoopState K} {e : LoopEvent K} (hs : Told s) (hholds : Holds u s)
    (h : ProducerLoop.step u s e = some t) : Told t := by
  cases e with
  | outside event =>
      unfold ProducerLoop.step at h
      dsimp only at h
      split_ifs at h with hout
      obtain ⟨pipeline, hpipeline, rfl⟩ := Option.map_eq_some_iff.mp h
      refine ⟨hs.nodup, hs.law, fun hproducing => hs.length ?_, hs.last⟩
      rw [← producing_outside hout hpipeline]
      exact hproducing
  | cycle input =>
      unfold ProducerLoop.step at h
      dsimp only at h
      split_ifs at h with hproducing
      obtain ⟨r, hsync, h⟩ := cycle_cases h
      have hcounted : Holds u { s with cycleSeq := s.cycleSeq + 1 } := ⟨hholds.keys, hholds.lower⟩
      obtain ⟨hr, heq⟩ := sync_spec hcounted hsync
      have hnodup : r.assets.Nodup := by
        rw [heq]
        exact nodup_assetsAfter hs.nodup input.fastSymbols
      have hpublished : r.published = s.published := by rw [heq]
      have hseq : r.cycleSeq = s.cycleSeq + 1 := by rw [heq]
      have hlast : Remembers r.pipelineMetaLast r.s2MetaLast := by
        rw [heq]
        exact hs.last
      have hlaw : ∀ (seq : ℕ) (m : OrderedDict String (Json K)),
          r.published[seq]? = some (some m) → Law seq m := by
        rw [hpublished]
        exact hs.law
      have hlength : r.published.length = r.cycleSeq := by
        rw [hpublished, hseq]
        exact hs.length hproducing
      rcases h with ⟨reason, hpublish⟩ | ⟨hvisits, allow, hscreen⟩
      · exact told_publish hnodup hlaw hlength hlast (law_idleExtra hlast) hpublish
      · obtain ⟨rounds, noted, -, -, hpublish⟩ := screen_cases hscreen
        have hlower : (r.assets.map u.lower).Nodup := by
          rw [List.map_congr_left hr.lower, List.map_id']
          exact hnodup
        have hscreened := remembers_screen (K := K) allow hvisits hlower
        exact told_publish (s := { r with
          pipeline := noted
          pipelineMetaLast := _
          s2MetaLast := _ }) hnodup hlaw hlength hscreened (law_screeningExtra hscreened) hpublish

theorem told_bootstrap {now : K} {assets : List String} {times : CycleTimes K}
    {fxcm : List (String × Json K)} {s : LoopState K} (hnodup : (assets.map u.lower).Nodup)
    (h : bootstrap u now assets times fxcm = some s) : Told s := by
  obtain ⟨pipeline, -, hpublish⟩ := Option.bind_eq_some_iff.mp h
  refine told_publish ?_ ?_ ?_ ?_ ?_ hpublish
  · exact hnodup
  · simp
  · rfl
  · exact remembers_boot u _
  · exact law_bootExtra

/-- In every run, the publications are those of the cycles one by one, but for the ones that
Redis does not take, and what they say of the assets fits together: no more are at the target
length than are ready, the state is the one these numbers amount to, and both loops over the
histories count the same. An idle cycle says so too. -/
theorem publications_are_lawful {now : K} {assets : List String} {times : CycleTimes K}
    {fxcm : List (String × Json K)} {s t : LoopState K} {events : List (LoopEvent K)}
    (hnodup : (assets.map u.lower).Nodup) (hboot : bootstrap u now assets times fxcm = some s)
    (hrun : replay (ProducerLoop.step u) s events = some t) :
    (t.pipeline.producing = true → t.published.length = t.cycleSeq + 1) ∧
      ∀ (seq : ℕ) (m : OrderedDict String (Json K)), t.published[seq]? = some (some m) →
        Law seq m ∧ m.get? "pipeline_state" ≠ some (.str "IDLE") := by
  have hboth : Told t ∧ Holds u t :=
    replay_invariant (I := fun s => Told s ∧ Holds u s)
      (fun e _ s t hs hst => ⟨told_step hs.1 hs.2 hst, (holds_step hs.2 hst).1⟩) hrun
      ⟨told_bootstrap hnodup hboot, (holds_bootstrap hboot).1⟩
  refine ⟨hboth.1.length, fun seq m hm => ⟨hboth.1.law seq m hm, ?_⟩⟩
  obtain ⟨-, n, hshows, -⟩ := hboth.1.law seq m hm
  rw [hshows.state]
  exact stateOf_ne_idle n

theorem lawful_publications_of_two_lists :
    ∃ t : LoopState ℚ, t.published.length = 3 ∧
      ∀ (seq : ℕ) (m : OrderedDict String (Json ℚ)), t.published[seq]? = some (some m) →
        Law seq m ∧ m.get? "pipeline_state" ≠ some (.str "IDLE") := by
  obtain ⟨t, ht, hlength⟩ := Option.map_eq_some_iff.mp
    (show (runOf exactLoop 0 ["XAUUSD"] noTimes twoLists).map (fun t => t.published.length) =
      some 3 by decide +kernel)
  obtain ⟨s, hboot, hrun⟩ := Option.bind_eq_some_iff.mp ht
  exact ⟨t, hlength, (publications_are_lawful (by decide) hboot hrun).2⟩

end

end SmcPipeline.ProducerMeta
