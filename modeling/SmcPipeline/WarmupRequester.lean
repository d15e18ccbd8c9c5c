import SmcPipeline.FxcmIngestor
import SmcPipeline.OrderedDict
import Mathlib.Data.Rat.Floor

/-!
# The warmup requester

`compute_history_status` of `app/fxcm_history_state.py` and `_run_once` of
`app/fxcm_warmup_requester.py`. A cycle visits the allowed pairs in order; a visit clears the
active issue of its pair, publishes a command, or does neither. The history is read with the
desired number of bars as its limit, so that no longer history is ever seen.
-/

namespace SmcPipeline

inductive HistoryState
  | ok
  | insufficient
  | staleTail
  | unknown
deriving DecidableEq, Repr

/-- `FxcmHistoryState` -/
structure FxcmHistoryState where
  state : HistoryState
  needsWarmup : Bool
  needsBackfill : Bool
  ageMs : Option ℤ
deriving DecidableEq, Repr

structure HistoryStatus where
  symbol : String
  timeframe : String
  barsCount : ℕ
  lastOpenTimeMs : Option ℤ
  ageMs : Option ℤ
  state : HistoryState
  needsWarmup : Bool
  needsBackfill : Bool
deriving DecidableEq, Repr

/-- A cell of `open_time` or `close_time`: a number, a timestamp or a text that names one in
milliseconds, or something that is no time. -/
inductive Epoch
  | missing
  | number (x : ℚ)
  | notFinite
  | instant (ms : ℤ)
  | other
deriving DecidableEq, Repr

/-- What is read of a row of the store. -/
structure HistoryRow where
  openTime : Epoch
  closeTime : Epoch
deriving DecidableEq, Repr

inductive CmdType
  | fxcmWarmup
  | fxcmBackfill
deriving DecidableEq, Repr

inductive RequestReason
  | prefetchHistory
  | insufficientHistory
  | staleTail
deriving DecidableEq, Repr

/-- The payload of a command. -/
structure Command where
  cmdType : CmdType
  symbol : String
  tf : String
  minHistoryBars : ℤ
  lookbackBars : ℤ
  lookbackMinutes : ℤ
  reason : RequestReason
  historyState : HistoryState
  barsCount : ℕ
  lastOpenTimeMs : Option ℤ
  market : String
  price : String
  ohlcv : String
deriving DecidableEq, Repr

/-- A call of `redis.publish`, and whether it succeeded. -/
structure Publication where
  key : String × String × CmdType
  channel : String
  command : Command
  sent : Bool
deriving DecidableEq, Repr

/-- The pairs in the order in which they are visited, the contract's minimum for a symbol
(zero where there is none) and the runtime's `limit`, if it has one that is an integer. -/
structure RequesterConfig where
  allowedPairs : List (String × String)
  minHistoryBarsBySymbol : String → ℤ
  limit : Option ℤ
  commandsChannel : String
  cooldownSec : ℤ
  staleK : ℚ

/-- The times of the last requests and every publication so far. -/
structure RequesterState where
  lastRequestMs : OrderedDict (String × String × CmdType) ℤ
  published : List Publication

/-- What a cycle meets: the clock, the bars held by the store, the state of the feed, and
whether the next publication succeeds, given how many there were. -/
structure Cycle where
  nowMs : ℤ
  store : String → String → List HistoryRow
  feed : FeedStatus
  publishOk : ℕ → Bool

/-- The string functions of the language. -/
structure TextFunctions where
  lower : String → String
  upper : String → String
  int : String → Option ℤ

namespace WarmupRequester

variable (env : TextFunctions)

/-- `s.strip().lower()` -/
def normalize (s : String) : String := env.lower (FxcmIngestor.strip s)

/-- `int(x)` -/
def truncate (x : ℚ) : ℤ := if 0 ≤ x then ⌊x⌋ else ⌈x⌉

/-- `timeframe_to_ms` -/
def timeframeToMs (timeframe : String) : Option ℤ :=
  let tf := normalize env timeframe
  match tf.toList.getLast?, env.int (String.ofList tf.toList.dropLast) with
  | some unit, some value =>
    if value ≤ 0 then none
    else if unit = 'm' then some (value * 60000)
    else if unit = 'h' then some (value * 3600000)
    else if unit = 'd' then some (value * 86400000)
    else none
  | _, _ => none

/-- `_epoch_to_ms` -/
def epochToMs : Epoch → Option ℤ
  | .number x => some (truncate (if 1000000000000 < x then x else x * 1000))
  | .instant ms => some ms
  | _ => none

/-- `row.get("open_time") or row.get("close_time")` -/
def rowTime (row : HistoryRow) : Epoch :=
  match row.openTime with
  | .missing => row.closeTime
  | .number x => if x = 0 then row.closeTime else .number x
  | e => e

def lastOpenTimeMs (rows : List HistoryRow) : Option ℤ :=
  rows.getLast?.bind fun row => epochToMs (rowTime row)

/-- `classify_history` -/
def classifyHistory (nowMs : ℤ) (barsCount : ℕ) (lastOpenTimeMs : Option ℤ)
    (minHistoryBars tfMs : ℤ) (staleK : ℚ) : FxcmHistoryState :=
  if (barsCount : ℤ) < max 1 minHistoryBars then ⟨.insufficient, true, false, none⟩
  else
    match lastOpenTimeMs with
    | none => ⟨.unknown, false, false, none⟩
    | some last =>
      let ageMs := max 0 (nowMs - last)
      let thresholdMs := truncate (staleK * (max 1 tfMs : ℤ))
      if thresholdMs < ageMs then ⟨.staleTail, false, true, some ageMs⟩
      else ⟨.ok, false, false, some ageMs⟩

/-- `store.get_df(symbol, tf, limit)` -/
def getDf (store : String → String → List HistoryRow) (symbol timeframe : String) (limit : ℤ) :
    List HistoryRow :=
  let rows := store symbol timeframe
  rows.drop (rows.length - limit.toNat)

/-- `compute_history_status` -/
def computeHistoryStatus (store : String → String → List HistoryRow) (symbol timeframe : String)
    (minHistoryBars : ℤ) (staleK : ℚ) (nowMs : ℤ) : HistoryStatus :=
  let sym := normalize env symbol
  let tf := normalize env timeframe
  let tfMs := (timeframeToMs env tf).getD 60000
  let rows := getDf store sym tf (max 1 minHistoryBars)
  let s2 := classifyHistory nowMs rows.length (lastOpenTimeMs rows) minHistoryBars tfMs staleK
  { symbol := sym
    timeframe := tf
    barsCount := rows.length
    lastOpenTimeMs := lastOpenTimeMs rows
    ageMs := s2.ageMs
    state := s2.state
    needsWarmup := s2.needsWarmup
    needsBackfill := s2.needsBackfill }

/-- `_compute_lookback_minutes` -/
def computeLookbackMinutes (tfMs minHistoryBars : ℤ) : ℤ :=
  max 1 ⌈((max 1 minHistoryBars * max 1 tfMs : ℤ) : ℚ) / 60000⌉

/-- `_desired_lookback_bars` -/
def desiredLookbackBars (limit : Option ℤ) : ℤ :=
  max 1 (match limit with
    | none => 300
    | some n => if n = 0 then 300 else n)

/-- `_bars_for_tf_from_contract` -/
def barsForTfFromContract (tfMs contract1mBars : ℤ) : ℤ :=
  if contract1mBars ≤ 0 then 0
  else
    let minutesPerBar := max 1 (((max 1 tfMs : ℤ) : ℚ) / 60000)
    max 1 ⌈(contract1mBars : ℚ) / minutesPerBar⌉

def normalizeMarketState (value : Option String) : String :=
  let raw := normalize env (value.getD "")
  if raw = "open" ∨ raw = "opened" then "open"
  else if raw = "closed" ∨ raw = "close" then "closed"
  else "unknown"

def normalizePriceState (value : Option String) : String :=
  let raw := normalize env (value.getD "")
  if raw = "ok" then "ok"
  else if raw = "stale" ∨ raw = "lag" ∨ raw = "delayed" then "lag"
  else "down"

def normalizeOhlcvState (value : Option String) : String :=
  let raw := normalize env (value.getD "")
  if raw = "ok" then "ok"
  else if raw = "lag" ∨ raw = "stale" ∨ raw = "delayed" then "delayed"
  else "down"

/-- What a visit does: clear the active issue, nothing, or ask for a command. -/
inductive Decision
  | clear
  | skip
  | request (cmdType : CmdType) (reason : RequestReason)
deriving DecidableEq, Repr

def decisionOf (tf : String) (status : HistoryStatus) (contractBarsTf : ℤ) : Decision :=
  if status.state = .ok then
    if 0 < contractBarsTf ∧ (status.barsCount : ℤ) < contractBarsTf then
      .request .fxcmWarmup .prefetchHistory
    else .clear
  else if status.needsWarmup then .request .fxcmWarmup .insufficientHistory
  else if status.needsBackfill then
    .request (if tf = "1m" then .fxcmWarmup else .fxcmBackfill) .staleTail
  else .skip

variable (cfg : RequesterConfig) (cycle : Cycle)

/-- `_rate_limit_ok` -/
def rateLimitOk (s : RequesterState) (key : String × String × CmdType) : Bool :=
  match s.lastRequestMs.get? key with
  | none => true
  | some last => decide (max 1 cfg.cooldownSec * 1000 ≤ cycle.nowMs - last)

/-- `_clear_active_issue` -/
def clearActiveIssue (s : RequesterState) (sym tf : String) : RequesterState :=
  { s with
    lastRequestMs := (s.lastRequestMs.erase (sym, tf, .fxcmWarmup)).erase (sym, tf, .fxcmBackfill) }

/-- The end of a visit that asks for a command: the rate limit and the publication. -/
def publish (s : RequesterState) (key : String × String × CmdType) (command : Command) :
    RequesterState :=
  if rateLimitOk cfg cycle s key then
    let sent := cycle.publishOk s.published.length
    { lastRequestMs := if sent then s.lastRequestMs.set key cycle.nowMs else s.lastRequestMs
      published := s.published ++ [⟨key, cfg.commandsChannel, command, sent⟩] }
  else s

/-- The number of bars of a timeframe that the contract of a symbol asks for. -/
def contractBars (sym tf : String) : ℤ :=
  barsForTfFromContract ((timeframeToMs env tf).getD 60000) (cfg.minHistoryBarsBySymbol sym)

def statusOf (sym tf : String) : HistoryStatus :=
  computeHistoryStatus env cycle.store sym tf (desiredLookbackBars cfg.limit) cfg.staleK cycle.nowMs

/-- One round of the loop of `_run_once`. -/
def visitPair (s : RequesterState) (pair : String × String) : RequesterState :=
  let sym := normalize env pair.1
  let tf := normalize env pair.2
  if sym = "" ∨ tf = "" then s
  else
    let desiredBars := desiredLookbackBars cfg.limit
    let contractBarsTf := contractBars env cfg sym tf
    let requestBars := if 0 < contractBarsTf then max desiredBars contractBarsTf else desiredBars
    let status := statusOf env cfg cycle sym tf
    match decisionOf tf status contractBarsTf with
    | .clear => clearActiveIssue s sym tf
    | .skip => s
    | .request cmdType reason =>
      publish cfg cycle s (sym, tf, cmdType)
        { cmdType := cmdType
          symbol := env.upper sym
          tf := tf
          minHistoryBars := requestBars
          lookbackBars := requestBars
          lookbackMinutes := computeLookbackMinutes ((timeframeToMs env tf).getD 60000) requestBars
          reason := reason
          historyState := status.state
          barsCount := status.barsCount
          lastOpenTimeMs := status.lastOpenTimeMs
          market := normalizeMarketState env cycle.feed.market
          price := normalizePriceState env cycle.feed.price
          ohlcv := normalizeOhlcvState env cycle.feed.ohlcv }

/-- `_run_once` -/
def runOnce (s : RequesterState) : RequesterState :=
  cfg.allowedPairs.foldl (visitPair env cfg cycle) s

/-- The publications for a pair. -/
def publicationsFor (pair : String × String) (s : RequesterState) : List Publication :=
  s.published.filter fun p => decide ((p.key.1, p.key.2.1) = pair)

/-- A pair without an active issue. -/
def Cleared (pair : String × String) (s : RequesterState) : Prop :=
  ∀ cmdType, s.lastRequestMs.get? (pair.1, pair.2, cmdType) = none

/-- The normalised pair that a visit is about. -/
def target (pair : String × String) : String × String := (normalize env pair.1, normalize env pair.2)

def decisionFor (pair : String × String) : Decision :=
  decisionOf pair.2 (statusOf env cfg cycle pair.1 pair.2) (contractBars env cfg pair.1 pair.2)

variable {env cfg cycle} {s : RequesterState} {pair k : String × String}

variable (env cfg cycle) in
/-- A visit skips, clears or publishes a command for its own pair. -/
theorem visitPair_cases (s : RequesterState) (pair : String × String) :
    (visitPair env cfg cycle s pair = s ∧
        ((target env pair).1 = "" ∨ (target env pair).2 = "" ∨
          decisionFor env cfg cycle (target env pair) = .skip)) ∨
      (decisionFor env cfg cycle (target env pair) = .clear ∧
        visitPair env cfg cycle s pair =
          clearActiveIssue s (target env pair).1 (target env pair).2) ∨
      ∃ cmdType reason command,
        decisionFor env cfg cycle (target env pair) = .request cmdType reason ∧
        visitPair env cfg cycle s pair =
          publish cfg cycle s ((target env pair).1, (target env pair).2, cmdType) command := by
  unfold visitPair decisionFor target
  dsimp only
  by_cases hempty : normalize env pair.1 = "" ∨ normalize env pair.2 = ""
  · rw [if_pos hempty]
    exact Or.inl ⟨rfl, hempty.elim Or.inl fun h => Or.inr (Or.inl h)⟩
  · rw [if_neg hempty]
    cases decisionOf (normalize env pair.2)
        (statusOf env cfg cycle (normalize env pair.1) (normalize env pair.2))
        (contractBars env cfg (normalize env pair.1) (normalize env pair.2)) with
    | clear => exact Or.inr (Or.inl ⟨rfl, rfl⟩)
    | skip => exact Or.inl ⟨rfl, Or.inr (Or.inr rfl)⟩
    | request cmdType reason => exact Or.inr (Or.inr ⟨cmdType, reason, _, rfl, rfl⟩)

variable (cfg cycle s k) in
theorem publicationsFor_publish (key : String × String × CmdType) (command : Command) :
    publicationsFor k (publish cfg cycle s key command) =
      publicationsFor k s ++
        if rateLimitOk cfg cycle s key = true ∧ (key.1, key.2.1) = k then
          [⟨key, cfg.commandsChannel, command, cycle.publishOk s.published.length⟩] else [] := by
  unfold publish publicationsFor
  by_cases hrate : rateLimitOk cfg cycle s key = true
  · by_cases hkey : (key.1, key.2.1) = k <;> simp [hrate, hkey]
  · simp [hrate]

theorem get?_publish_of_ne {key key' : String × String × CmdType} (command : Command)
    (h : key' ≠ key) :
    (publish cfg cycle s key command).lastRequestMs.get? key' = s.lastRequestMs.get? key' := by
  unfold publish
  split_ifs with hrate
  · dsimp only
    split_ifs with hsent
    · rw [OrderedDict.get?_set, if_neg h]
    · rfl
  · rfl

/-- Publishing forgets no request. -/
theorem isSome_get?_publish {key key' : String × String × CmdType} (command : Command)
    (h : (s.lastRequestMs.get? key').isSome = true) :
    ((publish cfg cycle s key command).lastRequestMs.get? key').isSome = true := by
  unfold publish
  split_ifs with hrate
  · dsimp only
    split_ifs with hsent
    · rw [OrderedDict.get?_set]
      split_ifs
      · rfl
      · exact h
    · exact h
  · exact h

theorem get?_clearActiveIssue (key : String × String × CmdType) (sym tf : String) :
    (clearActiveIssue s sym tf).lastRequestMs.get? key =
      if (key.1, key.2.1) = (sym, tf) then none else s.lastRequestMs.get? key := by
  obtain ⟨a, b, c⟩ := key
  unfold clearActiveIssue
  dsimp only
  rw [OrderedDict.get?_erase, OrderedDict.get?_erase]
  cases c <;> simp

variable (cfg cycle s) in
theorem visitPair_of_ne (h : target env pair ≠ k) :
    publicationsFor k (visitPair env cfg cycle s pair) = publicationsFor k s ∧
      ∀ cmdType, (visitPair env cfg cycle s pair).lastRequestMs.get? (k.1, k.2, cmdType) =
        s.lastRequestMs.get? (k.1, k.2, cmdType) := by
  rcases visitPair_cases env cfg cycle s pair with
    ⟨hsame, -⟩ | ⟨-, hclear⟩ | ⟨cmdType, reason, command, -, hpublish⟩
  · rw [hsame]
    exact ⟨rfl, fun _ => rfl⟩
  · rw [hclear]
    exact ⟨rfl, fun _ => by rw [get?_clearActiveIssue, if_neg fun heq => h heq.symm]⟩
  · rw [hpublish]
    refine ⟨?_, fun c => get?_publish_of_ne _ fun heq => h ?_⟩
    · rw [publicationsFor_publish, if_neg fun hboth => h hboth.2, List.append_nil]
    · cases k
      simp only [Prod.mk.injEq] at heq
      exact Prod.ext heq.1.symm heq.2.1.symm

/-- Where the decision is to clear, the pair is cleared and nothing is published for it. -/
theorem foldl_clear (hclear : decisionFor env cfg cycle k = .clear) (hsym : k.1 ≠ "")
    (htf : k.2 ≠ "") (pairs : List (String × String)) (s : RequesterState) :
    publicationsFor k (pairs.foldl (visitPair env cfg cycle) s) = publicationsFor k s ∧
      (Cleared k s ∨ (∃ p ∈ pairs, target env p = k) →
        Cleared k (pairs.foldl (visitPair env cfg cycle) s)) := by
  induction pairs generalizing s with
  | nil => exact ⟨rfl, fun h => h.elim id fun ⟨p, hp, _⟩ => by cases hp⟩
  | cons p pairs ih =>
      obtain ⟨hpub, hcleared⟩ := ih (visitPair env cfg cycle s p)
      rw [List.foldl_cons]
      by_cases hp : target env p = k
      · have hvisit : visitPair env cfg cycle s p = clearActiveIssue s k.1 k.2 := by
          rcases visitPair_cases env cfg cycle s p with
            ⟨-, h⟩ | ⟨-, h⟩ | ⟨_, _, _, h, -⟩
          · rw [hp, hclear] at h
            exact absurd h (by simp [hsym, htf])
          · rw [h, hp]
          · rw [hp, hclear] at h
            cases h
        refine ⟨by rw [hpub, hvisit]; rfl, fun _ => hcleared (Or.inl fun c => ?_)⟩
        rw [hvisit, get?_clearActiveIssue, if_pos rfl]
      · obtain ⟨hsame, hget⟩ := visitPair_of_ne cfg cycle s hp
        refine ⟨hpub.trans hsame, fun h => hcleared ?_⟩
        rcases h with h | ⟨q, hq, hqk⟩
        · exact Or.inl fun c => (hget c).trans (h c)
        · rcases List.mem_cons.mp hq with rfl | hq
          · exact absurd hqk hp
          · exact Or.inr ⟨q, hq, hqk⟩

/-- Something was published for the pair, or a request of it is remembered. -/
def Asked (k : String × String) (cmdType : CmdType) (n : ℕ) (s : RequesterState) : Prop :=
  n < (publicationsFor k s).length ∨ (s.lastRequestMs.get? (k.1, k.2, cmdType)).isSome = true

/-- Where the decision is to ask for a command, a visit asks or has asked. -/
theorem foldl_request {cmdType : CmdType} {reason : RequestReason}
    (hrequest : decisionFor env cfg cycle k = .request cmdType reason) (hsym : k.1 ≠ "")
    (htf : k.2 ≠ "") (n : ℕ) (pairs : List (String × String)) (s : RequesterState)
    (hn : n ≤ (publicationsFor k s).length)
    (h : Asked k cmdType n s ∨ ∃ p ∈ pairs, target env p = k) :
    Asked k cmdType n (pairs.foldl (visitPair env cfg cycle) s) := by
  induction pairs generalizing s with
  | nil => exact h.elim id fun ⟨p, hp, _⟩ => by cases hp
  | cons p pairs ih =>
      rw [List.foldl_cons]
      by_cases hp : target env p = k
      · obtain ⟨command, hvisit⟩ : ∃ command,
            visitPair env cfg cycle s p = publish cfg cycle s (k.1, k.2, cmdType) command := by
          rcases visitPair_cases env cfg cycle s p with
            ⟨-, h⟩ | ⟨h, -⟩ | ⟨_, _, command, h, hvisit⟩
          · rw [hp, hrequest] at h
            exact absurd h (by simp [hsym, htf])
          · rw [hp, hrequest] at h
            cases h
          · rw [hp, hrequest] at h
            cases h
            rw [hp] at hvisit
            exact ⟨command, hvisit⟩
        have hpub := publicationsFor_publish cfg cycle s k
          (k.1, k.2, cmdType) command
        refine ih _ ?_ (Or.inl ?_)
        · rw [hvisit, hpub, List.length_append]
          omega
        · rw [hvisit]
          by_cases hrate : rateLimitOk cfg cycle s (k.1, k.2, cmdType) = true
          · apply Or.inl
            rw [hpub, if_pos ⟨hrate, rfl⟩, List.length_append, List.length_singleton]
            omega
          · refine Or.inr (isSome_get?_publish command ?_)
            unfold rateLimitOk at hrate
            cases hget : s.lastRequestMs.get? (k.1, k.2, cmdType) with
            | none =>
                rw [hget] at hrate
                exact absurd rfl hrate
            | some last => rfl
      · obtain ⟨hsame, hget⟩ := visitPair_of_ne cfg cycle s hp
        apply ih _ (hsame ▸ hn)
        rcases h with h | ⟨q, hq, hqk⟩
        · apply Or.inl
          unfold Asked
          rw [hsame, hget]
          exact h
        · rcases List.mem_cons.mp hq with rfl | hq
          · exact absurd hqk hp
          · exact Or.inr ⟨q, hq, hqk⟩

end WarmupRequester

end SmcPipeline
