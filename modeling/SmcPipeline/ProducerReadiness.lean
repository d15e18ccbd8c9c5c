import SmcPipeline.KeyedRows
import SmcPipeline.Rounding
import SmcPipeline.WarmupRequester
import Mathlib.Data.String.Basic

/-!
# What a cycle of the producer knows

The first half of a cycle of `smc_producer` in `app/smc_producer.py`: the gate of the feed, the
visits to the assets, and the counts for `meta`. The history of an asset is counted twice, once
on the visit and once over the dict that the visits leave behind.
-/

namespace SmcPipeline

/-- The settings of a cycle; `limit` is that of the runtime parameters, and `minReadyShare n` is
`int(n * min_ready_pct)`. -/
structure CycleConfig where
  timeframe : String
  lookback : ℤ
  limit : Option ℤ
  minReadyShare : ℕ → ℤ
  contractMinBars : String → ℤ
  staleK : ℚ
  maxAssetsPerCycle : ℤ
  batchSize : ℕ
  batchSize_pos : 0 < batchSize

/-- A visit to an asset: the clock and the rows that the store holds, or nothing where `get_df`
raises. -/
structure Visit where
  symbol : String
  read : Option (ℤ × List HistoryRow)

/-- An item of `history_by_symbol`. -/
structure HistoryItem where
  s2 : FxcmHistoryState
  lastOpenTimeMs : Option ℤ

/-- What the visits leave behind. -/
structure Assessment where
  readyAssets : List String
  readySymbolsMin : List String
  barsBySymbol : OrderedDict String ℤ
  historyBySymbol : OrderedDict String HistoryItem
  minReadyBarsBySymbol : OrderedDict String ℤ
  targetBarsBySymbol : OrderedDict String ℤ
  mins : List ℤ
  targets : List ℤ
  readyAssetsMinCount : ℕ

/-- The counts of `s2_meta` and the active problem. -/
structure S2Summary where
  ok : ℕ
  insufficient : ℕ
  staleTail : ℕ
  unknown : ℕ
  active : Option (String × HistoryItem)

namespace ProducerReadiness

open KeyedRows WarmupRequester

variable (env : TextFunctions) (cfg : CycleConfig)

/-- `str(getattr(feed, name, "unknown") or "unknown").lower()` -/
def stateText (value : Option String) : String :=
  env.lower (match value with
    | none => "unknown"
    | some text => if text = "" then "unknown" else text)

/-- `allow_stale_tail` -/
def allowStaleTail (feed : FeedStatus) : Bool :=
  decide (stateText env feed.market ≠ "open") ||
    ["delayed", "down"].contains (stateText env feed.ohlcv)

/-- `(value or "").strip().lower()` -/
def gateText (value : Option String) : String := normalize env (value.getD "")

/-- `_should_run_smc_cycle_by_fxcm_status`; the age of the status is in seconds. -/
def shouldRunSmcCycle (feed : FeedStatus) (statusAge : Option ℚ) : Bool × String :=
  let market := gateText env feed.market
  let price := gateText env feed.price
  let ohlcv := gateText env feed.ohlcv
  if market = "closed" then
    if price = "ok" ∧ statusAge.getD 0 ≤ 60 then (true, "fxcm_market_closed_but_ticks_ok")
    else (false, "fxcm_market_closed")
  else if market = "open" then
    if price ≠ "" ∧ price ≠ "ok" then (false, "fxcm_price_" ++ price)
    else if ohlcv ≠ "" ∧ ohlcv ≠ "ok" then (true, "fxcm_ohlcv_" ++ ohlcv ++ "_ignored")
    else (true, "fxcm_ok")
  else (true, "fxcm_status_unknown")

def desiredLimit : ℤ :=
  max 1 (match cfg.limit with
    | none => cfg.lookback
    | some limit => if limit = 0 then cfg.lookback else limit)

/-- `min_bars` of an asset -/
def minBars (symbol : String) : ℤ :=
  let contractBars := cfg.contractMinBars symbol
  if 0 < contractBars then max 1 (min contractBars (desiredLimit cfg)) else desiredLimit cfg

/-- `_history_ok_for_compute` -/
def historyOkForCompute (state : HistoryState) (allowStaleTail : Bool) : Bool :=
  match state with
  | .ok => true
  | .staleTail => allowStaleTail
  | _ => false

/-- `last_open_time_ms` of a visit. A cell that `float` does not take is no time here, although
`_epoch_to_ms` takes it. -/
def lastOpenOf (rows : List HistoryRow) : Option ℤ :=
  rows.getLast?.bind fun row =>
    match rowTime row with
    | .number x => some (truncate (if 1000000000000 < x then x else x * 1000))
    | _ => none

/-- The rows that `get_df` returns for a visit. -/
def rowsRead (symbol : String) (held : List HistoryRow) : List HistoryRow :=
  getDf (fun _ _ => held) symbol cfg.timeframe (desiredLimit cfg)

/-- The item of `history_by_symbol` that a visit leaves. -/
def historyItem (symbol : String) (nowMs : ℤ) (rows : List HistoryRow) : HistoryItem :=
  ⟨classifyHistory nowMs rows.length (lastOpenOf rows) (minBars cfg (env.lower symbol))
    ((timeframeToMs env cfg.timeframe).getD 60000) cfg.staleK, lastOpenOf rows⟩

/-- One round of the loop over the assets. -/
def assess (allow : Bool) (acc : Assessment) (visit : Visit) : Assessment :=
  let sym := env.lower visit.symbol
  let minBars := minBars cfg sym
  let acc := { acc with
    minReadyBarsBySymbol := acc.minReadyBarsBySymbol.set sym minBars
    targetBarsBySymbol := acc.targetBarsBySymbol.set sym (desiredLimit cfg)
    mins := acc.mins ++ [minBars]
    targets := acc.targets ++ [desiredLimit cfg] }
  match visit.read with
  | none => { acc with barsBySymbol := acc.barsBySymbol.set sym 0 }
  | some (nowMs, held) =>
    let rows := rowsRead cfg visit.symbol held
    let item := historyItem env cfg visit.symbol nowMs rows
    let fine := historyOkForCompute item.s2.state allow
    let isReadyMin := decide (minBars ≤ rows.length) && fine
    let isReady := !rows.isEmpty && decide (desiredLimit cfg ≤ rows.length) && fine
    { acc with
      barsBySymbol := acc.barsBySymbol.set sym rows.length
      historyBySymbol := acc.historyBySymbol.set sym item
      readyAssetsMinCount := acc.readyAssetsMinCount + isReadyMin.toNat
      readySymbolsMin := acc.readySymbolsMin ++ if isReadyMin then [sym] else []
      readyAssets := acc.readyAssets ++ if isReady then [visit.symbol] else [] }

def noAssessment : Assessment :=
  ⟨[], [], OrderedDict.empty, OrderedDict.empty, OrderedDict.empty, OrderedDict.empty, [], [], 0⟩

def assessAll (allow : Bool) (visits : List Visit) : Assessment :=
  visits.foldl (assess env cfg allow) noAssessment

/-- One round of the first loop over `history_by_symbol`. -/
def count (allow : Bool) (acc : S2Summary) (item : String × HistoryItem) : S2Summary :=
  let active := acc.active.or (some item)
  match item.2.s2.state with
  | .ok => { acc with ok := acc.ok + 1 }
  | .staleTail =>
    if allow then { acc with ok := acc.ok + 1 }
    else { acc with staleTail := acc.staleTail + 1, active := active }
  | .insufficient => { acc with insufficient := acc.insufficient + 1, active := active }
  | .unknown => { acc with unknown := acc.unknown + 1, active := active }

/-- The item of the active problem, after the two loops that look for a worse one. -/
def reconsider (allow : Bool) (items : List (String × HistoryItem))
    (active : Option (String × HistoryItem)) : Option (String × HistoryItem) :=
  let stale := items.find? fun item => decide (item.2.s2.state = .staleTail) && !allow
  let active := stale.or active
  if active.map (fun item => item.2.s2.state) = some .staleTail then active
  else (items.find? fun item => decide (item.2.s2.state = .insufficient)).or active

/-- The counts over `sorted(history_by_symbol.items())`. -/
def summarize (allow : Bool) (history : OrderedDict String HistoryItem) : S2Summary :=
  let items := sortBy Prod.fst history.items
  let counted := items.foldl (count allow) ⟨0, 0, 0, 0, none⟩
  { counted with active := reconsider allow items counted.active }

def stateName : HistoryState → String
  | .ok => "ok"
  | .insufficient => "insufficient"
  | .staleTail => "stale_tail"
  | .unknown => "unknown"

def intOrNull {K : Type*} : Option ℤ → Json K
  | none => .null
  | some i => .int i

section

variable (K : Type*) [Field K]

def s2Meta (staleK : ℚ) (allow : Bool) (summary : S2Summary) : List (String × Json K) :=
  [("s2_ok_assets", .int summary.ok),
    ("s2_insufficient_assets", .int summary.insufficient),
    ("s2_stale_tail_assets", .int summary.staleTail),
    ("s2_unknown_assets", .int summary.unknown),
    ("s2_active_symbol", ((summary.active.map fun item => .str item.1)).getD .null),
    ("s2_active_state", ((summary.active.map fun item =>
      .str (stateName item.2.s2.state))).getD .null),
    ("s2_active_age_ms", intOrNull (summary.active.bind fun item => item.2.s2.ageMs)),
    ("s2_stale_k", .float (staleK : K)),
    ("s2_stale_tail_expected", .bool allow)]

variable [LinearOrder K] [FloorRing K]

/-- The state of `_build_pipeline_meta`. -/
def pipelineState (total readyTarget requiredAssets : ℤ) (readyMin minBars targetBars : Option ℤ) :
    String :=
  if targetBars.isSome && minBars.isSome then
    if readyMin.getD 0 ≤ 0 ∧ 0 < total then "COLD"
    else if total ≤ readyTarget ∧ 0 < total then "LIVE"
    else "WARMUP"
  else if readyTarget = 0 then "COLD"
  else if readyTarget < requiredAssets then "WARMUP"
  else "LIVE"

/-- `_build_pipeline_meta` -/
def buildPipelineMeta (assetsTotal readyAssets minReady : ℤ) (readyAssetsMin : Option ℤ)
    (minBars targetBars : Option ℤ) : List (String × Json K) :=
  let total := max 0 assetsTotal
  let readyTarget := if total = 0 then max 0 readyAssets else max 0 (min readyAssets total)
  let readyMin := readyAssetsMin.map fun ready => max 0 (min ready total)
  let requiredAssets := max 1 minReady
  [("pipeline_state",
      .str (pipelineState total readyTarget requiredAssets readyMin minBars targetBars)),
    ("pipeline_ready_assets", .int readyTarget),
    ("pipeline_min_ready", .int requiredAssets),
    ("pipeline_assets_total", .int total),
    ("pipeline_ready_pct",
      .float (if total = 0 then 0 else Rounding.roundTo 4 ((readyTarget : K) / (total : K))))] ++
    (readyMin.map fun ready => ("pipeline_ready_assets_min", Json.int ready)).toList ++
    (minBars.map fun bars => ("pipeline_min_ready_bars", Json.int bars)).toList ++
    (targetBars.map fun bars => ("pipeline_target_bars", Json.int bars)).toList

/-- `_build_capacity_meta` -/
def buildCapacityMeta (readyAssets processedAssets : ℤ) : List (String × Json K) :=
  [("pipeline_processed_assets", .int (max 0 processedAssets)),
    ("pipeline_skipped_assets", .int (max 0 (max 0 readyAssets - max 0 processedAssets)))]

end

/-- `min_ready_assets` -/
def minReadyAssets (assets : List String) : ℤ :=
  if assets = [] then 1 else max 1 (cfg.minReadyShare assets.length)

/-- `_select_symbols_for_cycle` -/
def selectSymbolsForCycle (readySymbols : List String) (maxPerCycle : ℤ) :
    List String × List String :=
  if maxPerCycle ≤ 0 then (readySymbols, [])
  else
    let selected := readySymbols.take maxPerCycle.toNat
    (selected, readySymbols.drop selected.length)

theorem one_le_desiredLimit : 1 ≤ desiredLimit cfg := le_max_left _ _

theorem one_le_minBars (symbol : String) : 1 ≤ minBars cfg symbol := by
  unfold minBars
  dsimp only
  split_ifs
  · exact le_max_left _ _
  · exact one_le_desiredLimit cfg

/-- A history that is good enough for a computation is long enough. -/
theorem le_of_historyOk {nowMs : ℤ} {bars : ℕ} {last : Option ℤ} {minHistoryBars tfMs : ℤ}
    {staleK : ℚ} {allow : Bool}
    (h : historyOkForCompute
      (classifyHistory nowMs bars last minHistoryBars tfMs staleK).state allow = true) :
    max 1 minHistoryBars ≤ bars := by
  by_contra hshort
  rw [not_le] at hshort
  unfold classifyHistory at h
  rw [if_pos hshort] at h
  cases h

/-- The item that a visit leaves, if it reads anything. -/
def itemOf (visit : Visit) : Option (String × HistoryItem) :=
  visit.read.map fun (nowMs, held) =>
    (env.lower visit.symbol,
      historyItem env cfg visit.symbol nowMs (rowsRead cfg visit.symbol held))

def isFine (allow : Bool) (item : String × HistoryItem) : Bool :=
  historyOkForCompute item.2.s2.state allow

/-- A visit that counts for `ready_assets_min_count`. -/
def isReadyMin (allow : Bool) (visit : Visit) : Bool :=
  ((itemOf env cfg visit).map (isFine allow)).getD false

/-- A visit that counts for `ready_assets`. -/
def isReady (allow : Bool) (visit : Visit) : Bool :=
  isReadyMin env cfg allow visit &&
    ((visit.read.map fun read =>
      decide (desiredLimit cfg ≤ (rowsRead cfg visit.symbol read.2).length)).getD false)

/-- What the visits so far have left. -/
structure Assessed (allow : Bool) (visits : List Visit) (acc : Assessment) : Prop where
  count : acc.readyAssetsMinCount = visits.countP (isReadyMin env cfg allow)
  symbols : acc.readySymbolsMin.length = acc.readyAssetsMinCount
  ready : acc.readyAssets.length = visits.countP (isReady env cfg allow)
  mins : acc.mins = visits.map fun visit => minBars cfg (env.lower visit.symbol)
  targets : acc.targets = visits.map fun _ => desiredLimit cfg
  history : (visits.map fun visit => env.lower visit.symbol).Nodup →
    acc.historyBySymbol.items = visits.filterMap (itemOf env cfg)

/-- What a visit adds, where it reads something: the length that is asked for is there already
where the history is fine. -/
theorem assess_read (allow : Bool) (acc : Assessment) {visit : Visit} {nowMs : ℤ}
    {held : List HistoryRow} (h : visit.read = some (nowMs, held)) :
    (assess env cfg allow acc visit).readyAssetsMinCount =
        acc.readyAssetsMinCount + (isReadyMin env cfg allow visit).toNat ∧
      (assess env cfg allow acc visit).readySymbolsMin =
        acc.readySymbolsMin ++
          (if isReadyMin env cfg allow visit then [env.lower visit.symbol] else []) ∧
      (assess env cfg allow acc visit).readyAssets =
        acc.readyAssets ++ (if isReady env cfg allow visit then [visit.symbol] else []) := by
  have hmin : isReadyMin env cfg allow visit = historyOkForCompute
      (historyItem env cfg visit.symbol nowMs (rowsRead cfg visit.symbol held)).s2.state allow := by
    simp [isReadyMin, itemOf, h, isFine]
  have hlong : isReadyMin env cfg allow visit = true →
      minBars cfg (env.lower visit.symbol) ≤ (rowsRead cfg visit.symbol held).length := by
    rw [hmin]
    exact fun hfine => le_trans (le_max_right _ _) (le_of_historyOk hfine)
  have hone := one_le_minBars cfg (env.lower visit.symbol)
  unfold assess isReady
  rw [h]
  dsimp only [Option.map_some, Option.getD_some]
  rw [← hmin]
  cases hfine : isReadyMin env cfg allow visit with
  | false => simp
  | true =>
      have hrows := hlong hfine
      have hne : (rowsRead cfg visit.symbol held).isEmpty = false := by
        rw [List.isEmpty_eq_false_iff]
        intro hnil
        rw [hnil, List.length_nil] at hrows
        omega
      simp [hrows, hne]

theorem keys_history {allow : Bool} {visits : List Visit} :
    ∀ k ∈ (assessAll env cfg allow visits).historyBySymbol.keys,
      k ∈ visits.map fun visit => env.lower visit.symbol := by
  induction visits using List.reverseRecOn with
  | nil => simp [assessAll, noAssessment, OrderedDict.keys, OrderedDict.empty]
  | append_singleton visits visit ih =>
      intro k hk
      rw [assessAll, List.foldl_concat, ← assessAll] at hk
      rw [List.map_append, List.mem_append]
      cases hread : visit.read with
      | none =>
          unfold assess at hk
          rw [hread] at hk
          exact Or.inl (ih k hk)
      | some read =>
          unfold assess at hk
          rw [hread] at hk
          rcases (OrderedDict.mem_keys_set _ _ _ _).mp hk with rfl | hk
          · exact Or.inr (by simp)
          · exact Or.inl (ih k hk)

/-- A symbol that is visited has the desired limit as its target. -/
theorem targetBars_of_visited (allow : Bool) {visits : List Visit} {symbol : String}
    (hsymbol : symbol ∈ visits.map fun visit => env.lower visit.symbol) :
    (assessAll env cfg allow visits).targetBarsBySymbol.get? symbol = some (desiredLimit cfg) := by
  induction visits using List.reverseRecOn with
  | nil => cases hsymbol
  | append_singleton visits visit ih =>
      have hset : (assessAll env cfg allow (visits ++ [visit])).targetBarsBySymbol =
          (assessAll env cfg allow visits).targetBarsBySymbol.set (env.lower visit.symbol)
            (desiredLimit cfg) := by
        rw [assessAll, List.foldl_concat, ← assessAll]
        unfold assess
        cases visit.read <;> rfl
      rw [hset, OrderedDict.get?_set]
      split_ifs with heq
      · rfl
      · rw [List.map_append, List.mem_append] at hsymbol
        refine ih (hsymbol.resolve_right fun hlast => heq ?_)
        exact List.mem_singleton.mp hlast

theorem assessed (allow : Bool) (visits : List Visit) :
    Assessed env cfg allow visits (assessAll env cfg allow visits) := by
  induction visits using List.reverseRecOn with
  | nil =>
      exact ⟨rfl, rfl, rfl, rfl, rfl, fun _ => rfl⟩
  | append_singleton visits visit ih =>
      have hstep : assessAll env cfg allow (visits ++ [visit]) =
          assess env cfg allow (assessAll env cfg allow visits) visit := by
        rw [assessAll, List.foldl_concat, ← assessAll]
      rw [hstep]
      have hmins : (assess env cfg allow (assessAll env cfg allow visits) visit).mins =
          (assessAll env cfg allow visits).mins ++ [minBars cfg (env.lower visit.symbol)] := by
        unfold assess
        cases visit.read <;> rfl
      have htargets : (assess env cfg allow (assessAll env cfg allow visits) visit).targets =
          (assessAll env cfg allow visits).targets ++ [desiredLimit cfg] := by
        unfold assess
        cases visit.read <;> rfl
      cases hread : visit.read with
      | none =>
          have hmin : isReadyMin env cfg allow visit = false := by simp [isReadyMin, itemOf, hread]
          have hready : isReady env cfg allow visit = false := by simp [isReady, hmin]
          have hitem : itemOf env cfg visit = none := by simp [itemOf, hread]
          refine ⟨?_, ?_, ?_, ?_, ?_, ?_⟩
          · simp [List.countP_append, hmin, assess, hread, ih.count]
          · simp [assess, hread, ih.symbols]
          · simp [List.countP_append, hready, assess, hread, ih.ready]
          · rw [hmins, ih.mins, List.map_append, List.map_singleton]
          · rw [htargets, ih.targets, List.map_append, List.map_singleton]
          · intro hnodup
            rw [List.map_append, List.nodup_append] at hnodup
            simp [List.filterMap_append, hitem, assess, hread, ih.history hnodup.1]
      | some read =>
          obtain ⟨nowMs, held⟩ := read
          obtain ⟨hcount, hsymbols, hready⟩ :=
            assess_read env cfg allow (assessAll env cfg allow visits) hread
          refine ⟨?_, ?_, ?_, ?_, ?_, ?_⟩
          · rw [hcount, ih.count, List.countP_append, List.countP_singleton]
            cases isReadyMin env cfg allow visit <;> rfl
          · rw [hcount, hsymbols, List.length_append, ih.symbols]
            cases isReadyMin env cfg allow visit <;> rfl
          · rw [hready, List.length_append, ih.ready, List.countP_append, List.countP_singleton]
            cases isReady env cfg allow visit <;> rfl
          · rw [hmins, ih.mins, List.map_append, List.map_singleton]
          · rw [htargets, ih.targets, List.map_append, List.map_singleton]
          · intro hnodup
            rw [List.map_append, List.nodup_append] at hnodup
            have hnew : env.lower visit.symbol ∉
                (assessAll env cfg allow visits).historyBySymbol.keys := by
              intro hmem
              exact hnodup.2.2 _ (keys_history env cfg _ hmem) _ (by simp) rfl
            have hitem : itemOf env cfg visit = some (env.lower visit.symbol,
                historyItem env cfg visit.symbol nowMs (rowsRead cfg visit.symbol held)) := by
              simp [itemOf, hread]
            rw [List.filterMap_append, ← ih.history hnodup.1, List.filterMap_cons_some hitem,
              List.filterMap_nil, ← OrderedDict.items_set_of_notMem hnew]
            unfold assess
            rw [hread]

/-- How bad the state of a history is; zero is no problem. -/
def rank (allow : Bool) : HistoryState → ℕ
  | .ok => 0
  | .staleTail => if allow then 0 else 3
  | .insufficient => 2
  | .unknown => 1

def rankOf (allow : Bool) (item : String × HistoryItem) : ℕ := rank allow item.2.s2.state

theorem isFine_eq (allow : Bool) (item : String × HistoryItem) :
    isFine allow item = decide (rankOf allow item = 0) := by
  unfold isFine rankOf
  cases item.2.s2.state <;> cases allow <;> rfl

/-- What the first loop has counted. -/
structure Counted (allow : Bool) (items : List (String × HistoryItem)) (acc : S2Summary) :
    Prop where
  ok : acc.ok = items.countP fun item => rankOf allow item = 0
  insufficient : acc.insufficient = items.countP fun item => rankOf allow item = 2
  staleTail : acc.staleTail = items.countP fun item => rankOf allow item = 3
  unknown : acc.unknown = items.countP fun item => rankOf allow item = 1
  active : acc.active = items.find? fun item => rankOf allow item ≠ 0

theorem Counted.next {allow : Bool} {items : List (String × HistoryItem)} {acc : S2Summary}
    (h : Counted allow items acc) (item : String × HistoryItem) :
    Counted allow (items ++ [item]) (count allow acc item) := by
  obtain ⟨hok, hinsufficient, hstale, hunknown, hactive⟩ := h
  cases hstate : item.2.s2.state with
  | ok =>
      have hrank : rankOf allow item = 0 := by rw [rankOf, hstate, rank]
      constructor <;>
        simp [count, List.countP_append, List.find?_append, *]
  | insufficient =>
      have hrank : rankOf allow item = 2 := by rw [rankOf, hstate, rank]
      constructor <;>
        simp [count, List.countP_append, List.find?_append, *]
  | staleTail =>
      cases allow with
      | true =>
          have hrank : rankOf true item = 0 := by rw [rankOf, hstate, rank, if_pos rfl]
          constructor <;>
            simp [count, List.countP_append, List.find?_append, *]
      | false =>
          have hrank : rankOf false item = 3 := by
            rw [rankOf, hstate, rank, if_neg Bool.false_ne_true]
          constructor <;>
            simp [count, List.countP_append, List.find?_append, *]
  | unknown =>
      have hrank : rankOf allow item = 1 := by rw [rankOf, hstate, rank]
      constructor <;>
        simp [count, List.countP_append, List.find?_append, *]

theorem counted (allow : Bool) (items : List (String × HistoryItem)) :
    Counted allow items (items.foldl (count allow) ⟨0, 0, 0, 0, none⟩) := by
  induction items using List.reverseRecOn with
  | nil => exact ⟨rfl, rfl, rfl, rfl, rfl⟩
  | append_singleton items item ih =>
      rw [List.foldl_concat]
      exact ih.next item

/-- The worst of the items, and of those that are equally bad the first by name; nothing where
there is no problem. -/
def IsWorst (allow : Bool) (items : List (String × HistoryItem)) :
    Option (String × HistoryItem) → Prop
  | none => ∀ item ∈ items, rankOf allow item = 0
  | some worst => worst ∈ items ∧ rankOf allow worst ≠ 0 ∧
      ∀ item ∈ items, rankOf allow item ≤ rankOf allow worst ∧
        (rankOf allow item = rankOf allow worst → worst.1 ≤ item.1)

section

variable {allow : Bool} {items : List (String × HistoryItem)}

theorem rankOf_eq_three {item : String × HistoryItem} :
    rankOf allow item = 3 ↔ (decide (item.2.s2.state = .staleTail) && !allow) = true := by
  unfold rankOf
  cases item.2.s2.state <;> cases allow <;> decide

theorem rankOf_eq_two {item : String × HistoryItem} :
    rankOf allow item = 2 ↔ decide (item.2.s2.state = .insufficient) = true := by
  unfold rankOf
  cases item.2.s2.state <;> cases allow <;> decide

theorem rankOf_le_three (allow : Bool) (item : String × HistoryItem) : rankOf allow item ≤ 3 := by
  unfold rankOf
  cases item.2.s2.state <;> cases allow <;> decide

/-- The first item of the highest rank is the worst one. -/
theorem isWorst_of_find? {p : String × HistoryItem → Bool} {n : ℕ} (hn : n ≠ 0)
    (hsorted : items.Pairwise fun a b => a.1 ≤ b.1)
    (hp : ∀ item ∈ items, p item = true ↔ rankOf allow item = n)
    (hle : ∀ item ∈ items, rankOf allow item ≤ n) {worst : String × HistoryItem}
    (h : items.find? p = some worst) : IsWorst allow items (some worst) := by
  have hmem : worst ∈ items := List.mem_of_find?_eq_some h
  have hrank : rankOf allow worst = n := (hp worst hmem).mp (List.find?_some h)
  refine ⟨hmem, hrank ▸ hn, fun item hitem => ⟨hrank ▸ hle item hitem, fun heq => ?_⟩⟩
  apply key_le_of_find? Prod.fst hsorted h hitem
  exact (hp item hitem).mpr (heq.trans hrank)

/-- The three loops together find the worst item: a stale tail that is not expected, then a
history that is too short, then one of which nothing is known. -/
theorem isWorst_reconsider (hsorted : items.Pairwise fun a b => a.1 ≤ b.1) :
    IsWorst allow items
      (reconsider allow items (items.find? fun item => rankOf allow item ≠ 0)) := by
  unfold reconsider
  dsimp only
  cases hstale : items.find? fun item => decide (item.2.s2.state = .staleTail) && !allow with
  | some worst =>
      have hstate := List.find?_some hstale
      have hstate : worst.2.s2.state = .staleTail :=
        of_decide_eq_true (Bool.and_eq_true_iff.mp hstate).1
      rw [Option.some_or, Option.map_some, hstate, if_pos rfl]
      exact isWorst_of_find? (by decide) hsorted (fun item _ => rankOf_eq_three.symm)
        (fun item _ => rankOf_le_three allow item) hstale
  | none =>
      have hthree : ∀ item ∈ items, rankOf allow item ≠ 3 := by
        intro item hitem hrank
        exact List.find?_eq_none.mp hstale item hitem (rankOf_eq_three.mp hrank)
      rw [Option.none_or]
      have hnot : (items.find? fun item => rankOf allow item ≠ 0).map
          (fun item => item.2.s2.state) ≠ some .staleTail := by
        intro hmap
        obtain ⟨item, hitem, hstate⟩ := Option.map_eq_some_iff.mp hmap
        have hmem := List.mem_of_find?_eq_some hitem
        have hrank : rankOf allow item ≠ 0 := by simpa using List.find?_some hitem
        apply hthree item hmem
        unfold rankOf at hrank ⊢
        rw [hstate] at hrank ⊢
        cases allow with
        | true => exact absurd rfl hrank
        | false => rfl
      rw [if_neg hnot]
      have htwo : ∀ item ∈ items, rankOf allow item ≤ 2 := by
        intro item hitem
        have hle := rankOf_le_three allow item
        have hne := hthree item hitem
        omega
      cases hshort : items.find? fun item => decide (item.2.s2.state = .insufficient) with
      | some worst =>
          rw [Option.some_or]
          exact isWorst_of_find? (by decide) hsorted (fun item _ => rankOf_eq_two.symm) htwo hshort
      | none =>
          have hone : ∀ item ∈ items, rankOf allow item ≤ 1 := by
            intro item hitem
            have hle := htwo item hitem
            have hne : rankOf allow item ≠ 2 := fun hrank =>
              List.find?_eq_none.mp hshort item hitem (rankOf_eq_two.mp hrank)
            omega
          rw [Option.none_or]
          cases hfirst : items.find? fun item => rankOf allow item ≠ 0 with
          | none =>
              intro item hitem
              simpa using List.find?_eq_none.mp hfirst item hitem
          | some worst =>
              refine isWorst_of_find? (by decide) hsorted (fun item hitem => ?_) hone hfirst
              have hle := hone item hitem
              rw [decide_eq_true_iff]
              omega

end

theorem IsWorst.perm {allow : Bool} {items items' : List (String × HistoryItem)}
    (hperm : items.Perm items') {worst : Option (String × HistoryItem)}
    (h : IsWorst allow items worst) : IsWorst allow items' worst := by
  cases worst with
  | none => exact fun item hitem => h item (hperm.mem_iff.mpr hitem)
  | some worst =>
      obtain ⟨hmem, hrank, hworst⟩ := h
      exact ⟨hperm.mem_iff.mp hmem, hrank, fun item hitem => hworst item (hperm.mem_iff.mpr hitem)⟩

/-- What the summary says of the histories. -/
theorem summarize_spec (allow : Bool) (history : OrderedDict String HistoryItem) :
    let summary := summarize allow history
    summary.ok = (history.items.countP fun item => rankOf allow item = 0) ∧
      summary.insufficient = (history.items.countP fun item => rankOf allow item = 2) ∧
      summary.staleTail = (history.items.countP fun item => rankOf allow item = 3) ∧
      summary.unknown = (history.items.countP fun item => rankOf allow item = 1) ∧
      IsWorst allow history.items summary.active := by
  have hperm := sortBy_perm Prod.fst history.items
  obtain ⟨hok, hinsufficient, hstale, hunknown, hactive⟩ :=
    counted allow (sortBy Prod.fst history.items)
  refine ⟨?_, ?_, ?_, ?_, ?_⟩
  · exact hok.trans (hperm.countP_eq _)
  · exact hinsufficient.trans (hperm.countP_eq _)
  · exact hstale.trans (hperm.countP_eq _)
  · exact hunknown.trans (hperm.countP_eq _)
  · apply IsWorst.perm hperm
    unfold summarize
    dsimp only
    rw [hactive]
    exact isWorst_reconsider (sortBy_pairwise Prod.fst history.items)

theorem countP_partition (allow : Bool) (items : List (String × HistoryItem)) :
    (items.countP fun item => rankOf allow item = 0) +
      (items.countP fun item => rankOf allow item = 2) +
      (items.countP fun item => rankOf allow item = 3) +
      (items.countP fun item => rankOf allow item = 1) = items.length := by
  induction items with
  | nil => rfl
  | cons item items ih =>
      have hle := rankOf_le_three allow item
      simp only [List.countP_cons, List.length_cons, decide_eq_true_eq]
      split_ifs <;> omega

/-- The two counts of the histories that are good enough agree, and the histories of all states
are those that could be read. -/
theorem summarize_assessAll (allow : Bool) {visits : List Visit}
    (hnodup : (visits.map fun visit => env.lower visit.symbol).Nodup) :
    let summary := summarize allow (assessAll env cfg allow visits).historyBySymbol
    summary.ok = visits.countP (isReadyMin env cfg allow) ∧
      summary.ok + summary.insufficient + summary.staleTail + summary.unknown =
        visits.countP fun visit => visit.read.isSome := by
  have hitems := (assessed env cfg allow visits).history hnodup
  obtain ⟨hok, hinsufficient, hstale, hunknown, -⟩ :=
    summarize_spec allow (assessAll env cfg allow visits).historyBySymbol
  dsimp only at hok hinsufficient hstale hunknown ⊢
  constructor
  · rw [hok, hitems, List.countP_filterMap]
    apply List.countP_congr
    intro visit _
    unfold isReadyMin
    cases itemOf env cfg visit with
    | none => rfl
    | some item => simp [isFine_eq]
  · rw [hok, hinsufficient, hstale, hunknown, countP_partition, hitems,
      List.length_filterMap_eq_countP]
    apply List.countP_congr
    intro visit _
    simp [itemOf]

/-- Of all histories that a cycle can read, the active problem is the worst one, the first by name
where several are equally bad; there is none only where nothing is wrong. The counts are those of
each kind of problem. -/
theorem active_problem_is_worst (allow : Bool) {visits : List Visit}
    (hnodup : (visits.map fun visit => env.lower visit.symbol).Nodup) :
    let summary := summarize allow (assessAll env cfg allow visits).historyBySymbol
    let read := visits.filterMap (itemOf env cfg)
    IsWorst allow read summary.active ∧
      summary.staleTail = (read.countP fun item => rankOf allow item = 3) ∧
      summary.insufficient = (read.countP fun item => rankOf allow item = 2) ∧
      summary.unknown = (read.countP fun item => rankOf allow item = 1) := by
  have hitems := (assessed env cfg allow visits).history hnodup
  obtain ⟨-, hinsufficient, hstale, hunknown, hworst⟩ :=
    summarize_spec allow (assessAll env cfg allow visits).historyBySymbol
  rw [hitems] at hinsufficient hstale hunknown hworst
  exact ⟨hworst, hstale, hinsufficient, hunknown⟩

/-- One bar is wanted. -/
def oneBarConfig : CycleConfig where
  timeframe := "1m"
  lookback := 1
  limit := none
  minReadyShare := fun n => n
  contractMinBars := fun _ => 0
  staleK := 3
  maxAssetsPerCycle := 4
  batchSize := 12
  batchSize_pos := by decide

/-- An asset without bars, and one whose last bar is ten minutes old. -/
def twoVisits : List Visit :=
  [⟨"eurusd", some (600000, [])⟩, ⟨"xauusd", some (600000, [⟨.number 1, .missing⟩])⟩]

theorem stale_tail_is_worst :
    let env : TextFunctions := ⟨id, id, fun s => if s = "1" then some 1 else none⟩
    IsWorst false (twoVisits.filterMap (itemOf env oneBarConfig))
      (summarize false (assessAll env oneBarConfig false twoVisits).historyBySymbol).active :=
  (active_problem_is_worst _ oneBarConfig false (by decide)).1

theorem countP_isReady_le (allow : Bool) (visits : List Visit) :
    visits.countP (isReady env cfg allow) ≤ visits.countP (isReadyMin env cfg allow) := by
  apply List.countP_mono_left
  intro visit _ hready
  exact (Bool.and_eq_true_iff.mp hready).1

/-- The state that the numbers of assets amount to. -/
def stateOf (ready readyMin total : ℕ) : String :=
  if readyMin = 0 then "COLD" else if ready = total then "LIVE" else "WARMUP"

/-- Without assets there are no bounds, and the older rule of the states gives the same. -/
theorem pipelineState_eq {total ready readyMin : ℕ} (requiredAssets : ℤ) {mins targets : List ℤ}
    (hready : ready ≤ readyMin) (hmin : readyMin ≤ total) (hmins : mins.length = total)
    (htargets : targets.length = total) :
    pipelineState total ready requiredAssets (some readyMin) mins.min? targets.max? =
      stateOf ready readyMin total := by
  unfold pipelineState stateOf
  cases total with
  | zero =>
      obtain rfl : mins = [] := List.length_eq_zero_iff.mp hmins
      obtain rfl : readyMin = 0 := Nat.le_zero.mp hmin
      obtain rfl : ready = 0 := Nat.le_zero.mp hready
      simp
  | succ total =>
      have hmins : mins.min?.isSome = true := by
        rw [List.isSome_min?_iff]
        intro hnil
        rw [hnil] at hmins
        cases hmins
      have htargets : targets.max?.isSome = true := by
        rw [List.isSome_max?_iff]
        intro hnil
        rw [hnil] at htargets
        cases htargets
      rw [hmins, htargets, Bool.and_true, if_pos rfl, Option.getD_some]
      split_ifs <;> first | rfl | omega

end ProducerReadiness

end SmcPipeline
