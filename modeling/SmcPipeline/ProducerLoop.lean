import SmcPipeline.Pipeline
import SmcPipeline.ProducerReadiness
import SmcPipeline.Runs
import SmcPipeline.Tasks

/-!
# The loop of the producer

`smc_producer` of `app/smc_producer.py`. A cycle follows the list of fast symbols, may stay idle by
the state of the feed, visits the assets, lets the tasks of the selected symbols run side by side,
and publishes. All that it does to the manager is done by events of the pipeline; between the
cycles and between the rounds of the tasks the other parts go on.
-/

namespace SmcPipeline

/-- The pipeline with the settings of the loop. The order in which a set of texts is listed is not
known, but it is a function of the list that the set is made of. -/
structure LoopSetup (K : Type*) extends PipelineSetup K where
  int : String → Option ℤ
  cfg : CycleConfig
  schemaVersion : String
  setOrder : List String → List String
  mem_setOrder : ∀ l s, s ∈ setOrder l ↔ s ∈ l
  nodup_setOrder : ∀ l, (setOrder l).Nodup
  lower_lower : ∀ s, lower (lower s) = lower s
  lookback_eq : producer.lookback = (ProducerReadiness.desiredLimit cfg).toNat

/-- The manager with all that follows it, the assets of the loop, its counter, the last items
for `meta`, and the `meta` of each publication so far, none for one that Redis did not take. -/
structure LoopState (K : Type*) where
  pipeline : Pipeline K
  assets : List String
  cycleSeq : ℕ
  pipelineMetaLast : List (String × Json K)
  s2MetaLast : List (String × Json K)
  published : List (Option (OrderedDict String (Json K)))

section

variable (K : Type*) [Field K] [LinearOrder K] [FloorRing K]

/-- What happens while the tasks of a cycle run: a task does the round of its next symbol, or
another part goes on. -/
inductive GatherEvent
  | outside (event : PipelineEvent K)
  | round (task : ℕ) (input : RoundInput K)

/-- The texts and numbers of the clocks of a cycle, and whether Redis takes its payload as the
snapshot and as a message. -/
structure CycleTimes where
  ts : String
  started : String
  ready : String
  computeMs : K
  saved : Bool
  sent : Bool

/-- What a cycle meets. The list of fast symbols is none where it cannot be read. -/
structure CycleInput where
  fastSymbols : Option (List String)
  feed : FeedStatus
  statusAge : Option ℚ
  visits : List Visit
  gather : List (GatherEvent K)
  times : CycleTimes K
  fxcm : List (String × Json K)

inductive LoopEvent
  | outside (event : PipelineEvent K)
  | cycle (input : CycleInput K)

end

namespace ProducerLoop

open ProducerReadiness

variable {K : Type*} [Field K] [LinearOrder K] [FloorRing K] (u : LoopSetup K)

def textFunctions : TextFunctions := ⟨u.lower, u.publisher.upper, u.int⟩

/-- The events that are not of the producer. -/
def isOutside : PipelineEvent K → Bool
  | .packet _ _ | .tick _ | .clock _ | .broadcast _ => true
  | _ => false

/-- The dict of a list of items, of which the last one of a key counts. -/
def dictOf (items : List (String × Json K)) : OrderedDict String (Json K) :=
  items.foldl (fun d item => d.set item.1 item.2) OrderedDict.empty

/-- The `meta` of a publication: its own items, then those of `meta_extra`. -/
def metaOf (ts : String) (seq : ℕ) (extra : List (String × Json K)) :
    OrderedDict String (Json K) :=
  dictOf ([("ts", .str ts), ("seq", .int seq), ("schema_version", .str u.schemaVersion)] ++ extra)

/-- `publish_smc_state`; a conversion that raises ends the task and leaves nothing, while a
message that Redis does not take is passed over. -/
def publish (times : CycleTimes K) (extra fxcm : List (String × Json K)) (s : LoopState K) :
    Option (LoopState K) :=
  let m := metaOf u times.ts s.cycleSeq extra
  (Pipeline.step u.toPipelineSetup s.pipeline
    (.publish m.items fxcm (times.saved || times.sent))).map fun pipeline =>
      { s with
        pipeline := pipeline
        published := if pipeline.producing then
          s.published ++ [if times.sent then some m else none] else s.published }

/-- `init_asset` of each symbol -/
def initEvents (symbols : List String) : List (PipelineEvent K) :=
  symbols.map fun symbol => .initAsset (u.lower symbol)

/-- The assets follow the list of fast symbols, unless that is empty. -/
def sync (fastSymbols : Option (List String)) (s : LoopState K) : Option (LoopState K) :=
  match fastSymbols.getD [] with
  | [] => some s
  | fresh =>
    let newAssets := fresh.map u.lower
    let added := u.setOrder (newAssets.filter fun sym => sym ∉ s.assets)
    let removed := u.setOrder (s.assets.filter fun sym => sym ∉ newAssets)
    (Runs.replay (Pipeline.step u.toPipelineSetup) s.pipeline
      (initEvents u added ++ removed.map .removeAsset)).map fun pipeline =>
        { s with pipeline := pipeline, assets := u.setOrder newAssets }

/-- `_apply_local_pipeline_stats` -/
def localStats (found : Assessment) : PipelineEvent K :=
  .localStats (fun sym => (found.barsBySymbol.get? sym).getD 0)
    (fun sym => (found.minReadyBarsBySymbol.get? sym).getD 0)
    (fun sym => (found.targetBarsBySymbol.get? sym).getD 0)

/-- The tasks with the symbols that are left to each. -/
def gather : List (List String) → Pipeline K → List (GatherEvent K) → Option (Pipeline K)
  | pending, s, [] => if pending.all List.isEmpty then some s else none
  | pending, s, .outside event :: events =>
    if isOutside event then
      (Pipeline.step u.toPipelineSetup s event).bind fun t => gather pending t events
    else none
  | pending, s, .round task input :: events =>
    match Tasks.advance task pending with
    | none => none
    | some (symbol, rest) =>
      if input.symbol = u.lower symbol then
        (Pipeline.step u.toPipelineSetup s (.round input)).bind fun t => gather rest t events
      else none

/-- The lookback of a batch. -/
def batchLookback (found : Assessment) (batch : List String) : ℤ :=
  ((batch.map fun sym =>
    match found.targetBarsBySymbol.get? sym with
    | none => u.cfg.lookback
    | some bars => if bars = 0 then u.cfg.lookback else bars).max?).getD 0

def selected (assets : List String) : List String :=
  (selectSymbolsForCycle (assets.map u.lower) u.cfg.maxAssetsPerCycle).1

/-- The items of `meta_extra` in an idle cycle. -/
def idleExtra (reason : String) (times : CycleTimes K) (s : LoopState K) :
    List (String × Json K) :=
  [("cycle_seq", .int s.cycleSeq), ("cycle_started_ts", .str times.started),
    ("cycle_reason", .str "smc_idle_fxcm_status"), ("fxcm_idle_reason", .str reason),
    ("pipeline_state", .str "IDLE")] ++ s.pipelineMetaLast ++ s.s2MetaLast

/-- The items of `_build_pipeline_meta` for what the visits have found. -/
def pipelineMetaOf (assets : List String) (found : Assessment) : List (String × Json K) :=
  buildPipelineMeta K assets.length found.readyAssets.length (minReadyAssets u.cfg assets)
    (some found.readyAssetsMinCount) found.mins.min? found.targets.max?

def screeningExtra (assets : List String) (found : Assessment) (s2 : List (String × Json K))
    (seq : ℕ) (times : CycleTimes K) : List (String × Json K) :=
  [("cycle_seq", .int seq), ("cycle_started_ts", .str times.started),
    ("cycle_ready_ts", .str times.ready), ("cycle_compute_ms", .float times.computeMs),
    ("cycle_duration_ms", .float times.computeMs), ("cycle_reason", .str "smc_screening")] ++
    pipelineMetaOf u assets found ++
    buildCapacityMeta K found.readySymbolsMin.length (selected u assets).length ++ s2

/-- A cycle that is not idle, after the assets have been visited. -/
def screen (allow : Bool) (found : Assessment) (input : CycleInput K) (s : LoopState K) :
    Option (LoopState K) :=
  let s2 := s2Meta K u.cfg.staleK allow (summarize allow found.historyBySymbol)
  (gather u (Tasks.batches u.cfg.batchSize (selected u s.assets)) s.pipeline input.gather).bind
    fun rounds =>
      (Pipeline.step u.toPipelineSetup rounds (localStats found)).bind fun noted =>
        publish u input.times (screeningExtra u s.assets found s2 s.cycleSeq input.times)
          input.fxcm
          { s with
            pipeline := noted
            pipelineMetaLast := pipelineMetaOf u s.assets found
            s2MetaLast := s2 }

/-- One cycle; nothing where the input is none of this state. -/
def cycle (input : CycleInput K) (s : LoopState K) : Option (LoopState K) :=
  (sync u input.fastSymbols { s with cycleSeq := s.cycleSeq + 1 }).bind fun s =>
    let gate := shouldRunSmcCycle (textFunctions u) input.feed input.statusAge
    if gate.1 then
      let allow := allowStaleTail (textFunctions u) input.feed
      if input.visits.map Visit.symbol = s.assets then
        screen u allow (assessAll (textFunctions u) u.cfg allow input.visits) input s
      else none
    else publish u input.times (idleExtra gate.2 input.times s) input.fxcm s

def step (s : LoopState K) : LoopEvent K → Option (LoopState K)
  | .outside event =>
    if isOutside event then
      (Pipeline.step u.toPipelineSetup s.pipeline event).map fun pipeline =>
        { s with pipeline := pipeline }
    else none
  | .cycle input => if s.pipeline.producing then cycle u input s else none

omit [Field K] [LinearOrder K] [FloorRing K] in
/-- A task reads as many bars as the producer is set to. -/
theorem toNat_batchLookback (allow : Bool) {visits : List Visit} {batch : List String}
    (hne : batch ≠ [])
    (hvisited : ∀ symbol ∈ batch, symbol ∈ visits.map fun visit => u.lower visit.symbol) :
    (batchLookback u (assessAll (textFunctions u) u.cfg allow visits) batch).toNat =
      u.producer.lookback := by
  rw [u.lookback_eq]
  have hpos := one_le_desiredLimit u.cfg
  have htarget : ∀ symbol ∈ batch,
      (match (assessAll (textFunctions u) u.cfg allow visits).targetBarsBySymbol.get? symbol with
        | none => u.cfg.lookback
        | some bars => if bars = 0 then u.cfg.lookback else bars) = desiredLimit u.cfg := by
    intro symbol hsymbol
    rw [targetBars_of_visited (textFunctions u) u.cfg allow (hvisited symbol hsymbol)]
    exact if_neg (by omega)
  unfold batchLookback
  rw [List.map_congr_left htarget, List.map_const',
    List.max?_replicate_of_pos (List.length_pos_iff.mpr hne)]
  rfl

/-- What is known of the assets before the first cycle. -/
def bootAssessment (assets : List String) : Assessment :=
  { noAssessment with
    barsBySymbol := assets.foldl (fun d sym => d.set sym 0) OrderedDict.empty
    minReadyBarsBySymbol :=
      assets.foldl (fun d sym => d.set sym (minBars u.cfg sym)) OrderedDict.empty
    targetBarsBySymbol :=
      assets.foldl (fun d sym => d.set sym (desiredLimit u.cfg)) OrderedDict.empty
    mins := assets.map (minBars u.cfg)
    targets := assets.map fun _ => desiredLimit u.cfg }

def bootExtra (assets : List String) (times : CycleTimes K) : List (String × Json K) :=
  [("cycle_seq", .int (0 : ℕ)), ("cycle_started_ts", .str times.started),
    ("cycle_reason", .str "smc_bootstrap")] ++ pipelineMetaOf u assets (bootAssessment u assets)

/-- The producer up to its first cycle; its manager is made for the assets that it is given. -/
def bootstrap (now : K) (assets : List String) (times : CycleTimes K)
    (fxcm : List (String × Json K)) : Option (LoopState K) :=
  let current := assets.map u.lower
  (Runs.replay (Pipeline.step u.toPipelineSetup) (Pipeline.start now)
    (initEvents u current ++ [localStats (bootAssessment u current)])).bind fun pipeline =>
      publish u times (bootExtra u current times) fxcm
        { pipeline := pipeline
          assets := current
          cycleSeq := 0
          pipelineMetaLast := pipelineMetaOf u current (bootAssessment u current)
          s2MetaLast := []
          published := [] }

end ProducerLoop

end SmcPipeline
