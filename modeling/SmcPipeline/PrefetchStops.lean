import SmcPipeline.WarmupRequester

/-!
# When prefetching stops

The history is read with the desired number of bars as its limit, and the bars so counted are
compared with the contract's number. A store that holds enough for both is then cleared if the
contract asks for no more bars than are desired; if it asks for more, the count never
reaches its number, and the command is asked for in every cycle.
-/

namespace SmcPipeline.WarmupRequester

variable {env : TextFunctions} {cfg : RequesterConfig} {cycle : Cycle} {s : RequesterState}
  {k : String × String}

variable (env cycle) in
/-- The bars that the store holds for a pair. -/
def heldRows (k : String × String) : List HistoryRow :=
  cycle.store (normalize env k.1) (normalize env k.2)

variable (env cfg cycle) in
/-- The store holds the desired and the contract's number of bars of a pair, and the last one
is at most `stale_k` bars old. -/
structure HistoryMet (k : String × String) (tfMs : ℤ) : Prop where
  supported : timeframeToMs env (normalize env k.2) = some tfMs
  bars : max (desiredLookbackBars cfg.limit) (contractBars env cfg k.1 k.2) ≤
    (heldRows env cycle k).length
  fresh : ∃ last, lastOpenTimeMs (heldRows env cycle k) = some last ∧
    ((max 0 (cycle.nowMs - last) : ℤ) : ℚ) ≤ cfg.staleK * tfMs

theorem desiredLookbackBars_pos (limit : Option ℤ) : 1 ≤ desiredLookbackBars limit :=
  le_max_left 1 _

theorem timeframeToMs_pos {timeframe : String} {tfMs : ℤ}
    (h : timeframeToMs env timeframe = some tfMs) : 1 ≤ tfMs := by
  unfold timeframeToMs at h
  dsimp only at h
  split at h
  · split_ifs at h <;> (cases h; omega)
  · cases h

theorem le_truncate {n : ℤ} {x : ℚ} (hn : 0 ≤ n) (h : (n : ℚ) ≤ x) : n ≤ truncate x := by
  have hx : 0 ≤ x := (Int.cast_nonneg hn).trans h
  unfold truncate
  rw [if_pos hx]
  exact Int.le_floor.mpr h

/-- A limit that the store reaches is the number of bars read, and the last bar is among them. -/
theorem getDf_of_le (store : String → String → List HistoryRow) (sym tf : String) {limit : ℤ}
    (hpos : 1 ≤ limit) (h : limit ≤ (store sym tf).length) :
    ((getDf store sym tf limit).length : ℤ) = limit ∧
      lastOpenTimeMs (getDf store sym tf limit) = lastOpenTimeMs (store sym tf) := by
  unfold getDf
  dsimp only
  refine ⟨by rw [List.length_drop]; omega, ?_⟩
  unfold lastOpenTimeMs
  rw [List.getLast?_drop, if_neg (by omega)]

/-- The history is ok, and as many bars are counted as are desired. -/
theorem statusOf_met {tfMs : ℤ} (h : HistoryMet env cfg cycle k tfMs) :
    (statusOf env cfg cycle k.1 k.2).state = .ok ∧
      ((statusOf env cfg cycle k.1 k.2).barsCount : ℤ) = desiredLookbackBars cfg.limit := by
  have hpos := desiredLookbackBars_pos cfg.limit
  have htf := timeframeToMs_pos h.supported
  obtain ⟨last, hlast, hage⟩ := h.fresh
  obtain ⟨hcount, hsame⟩ := getDf_of_le cycle.store (normalize env k.1)
    (normalize env k.2) hpos ((le_max_left _ _).trans h.bars)
  have hthreshold : max 0 (cycle.nowMs - last) ≤ truncate (cfg.staleK * tfMs) :=
    le_truncate (le_max_left _ _) hage
  unfold statusOf computeHistoryStatus
  dsimp only
  rw [max_eq_right hpos, h.supported, hsame]
  refine ⟨?_, hcount⟩
  unfold classifyHistory
  unfold heldRows at hlast
  rw [hlast, if_neg (by rw [hcount, max_eq_right hpos]; exact lt_irrefl _)]
  dsimp only
  rw [Option.getD_some, max_eq_right htf, if_neg (not_lt.mpr hthreshold)]

/-- The pair is cleared exactly if the contract asks for no more than is desired. -/
theorem decisionFor_met {tfMs : ℤ} (h : HistoryMet env cfg cycle k tfMs) :
    decisionFor env cfg cycle k =
      if contractBars env cfg k.1 k.2 ≤ desiredLookbackBars cfg.limit then .clear
      else .request .fxcmWarmup .prefetchHistory := by
  have hpos := desiredLookbackBars_pos cfg.limit
  obtain ⟨hstate, hcount⟩ := statusOf_met h
  unfold decisionFor decisionOf
  rw [if_pos hstate, hcount]
  split_ifs with hmore hle hle
  · omega
  · rfl
  · rfl
  · omega

/-- For a pair whose history meets both numbers a cycle publishes nothing and clears it
exactly if the contract asks for no more bars than are desired. -/
theorem prefetch_stops_iff {pair : String × String} {tfMs : ℤ} (hpair : pair ∈ cfg.allowedPairs)
    (hsym : (target env pair).1 ≠ "") (htf : (target env pair).2 ≠ "")
    (hmet : HistoryMet env cfg cycle (target env pair) tfMs) :
    (publicationsFor (target env pair) (runOnce env cfg cycle s) =
          publicationsFor (target env pair) s ∧
        Cleared (target env pair) (runOnce env cfg cycle s)) ↔
      contractBars env cfg (target env pair).1 (target env pair).2 ≤
        desiredLookbackBars cfg.limit := by
  have hdecision := decisionFor_met hmet
  unfold runOnce
  by_cases hle : contractBars env cfg (target env pair).1 (target env pair).2 ≤
      desiredLookbackBars cfg.limit
  · rw [if_pos hle] at hdecision
    obtain ⟨hpub, hcleared⟩ := foldl_clear hdecision hsym htf cfg.allowedPairs s
    exact iff_of_true ⟨hpub, hcleared (Or.inr ⟨pair, hpair, rfl⟩)⟩ hle
  · rw [if_neg hle] at hdecision
    refine iff_of_false ?_ hle
    rintro ⟨hpub, hcleared⟩
    have hasked := foldl_request hdecision hsym htf _ cfg.allowedPairs s le_rfl
      (Or.inr ⟨pair, hpair, rfl⟩)
    rcases hasked with hlt | hsome
    · rw [hpub] at hlt
      exact lt_irrefl _ hlt
    · rw [hcleared] at hsome
      cases hsome

section FixedInputs

/-- String functions as they are on the texts below. -/
def asciiText : TextFunctions where
  lower := id
  upper := fun s => if s = "xauusd" then "XAUUSD" else s
  int := fun s => if s = "1" then some 1 else none

/-- Two bars are desired; the contract asks for some number of minutes. -/
def twoDesired (contract1mBars : ℤ) : RequesterConfig where
  allowedPairs := [("xauusd", "1m")]
  minHistoryBarsBySymbol := fun _ => contract1mBars
  limit := some 2
  commandsChannel := "fxcm:commands"
  cooldownSec := 900
  staleK := 3

def barAt (ms : ℤ) : HistoryRow := ⟨.instant ms, .instant (ms + 59999)⟩

/-- Three bars, the last one a minute old. -/
def threeHeld : Cycle where
  nowMs := 240000
  store := fun _ _ => [barAt 60000, barAt 120000, barAt 180000]
  feed := ⟨none, none, none⟩
  publishOk := fun _ => true

theorem met_of_three_held {contract1mBars : ℤ}
    (h : max (desiredLookbackBars (some 2))
      (contractBars asciiText (twoDesired contract1mBars) "xauusd" "1m") ≤ 3) :
    HistoryMet asciiText (twoDesired contract1mBars) threeHeld ("xauusd", "1m") 60000 where
  supported := by decide +kernel
  bars := h
  fresh := ⟨180000, by decide +kernel, by norm_num [threeHeld, twoDesired]⟩

theorem two_bars_stop_prefetching :
    publicationsFor ("xauusd", "1m") (runOnce asciiText (twoDesired 2) threeHeld
          ⟨OrderedDict.empty, []⟩) = publicationsFor ("xauusd", "1m") ⟨OrderedDict.empty, []⟩ ∧
      Cleared ("xauusd", "1m") (runOnce asciiText (twoDesired 2) threeHeld
        ⟨OrderedDict.empty, []⟩) := by
  have htarget : target asciiText ("xauusd", "1m") = ("xauusd", "1m") := by decide +kernel
  have hiff := @prefetch_stops_iff asciiText (twoDesired 2) threeHeld ⟨OrderedDict.empty, []⟩
    ("xauusd", "1m") 60000 List.mem_cons_self (by decide +kernel) (by decide +kernel)
    (htarget ▸ met_of_three_held (by decide +kernel))
  rw [htarget] at hiff
  exact hiff.mpr (by decide +kernel)

/-- The contract asks for three bars and three are held, but two are counted. -/
theorem three_bars_keep_prefetching :
    ¬ ∀ (env : TextFunctions) (cfg : RequesterConfig) (cycle : Cycle) (s : RequesterState)
      (pair : String × String) (tfMs : ℤ), pair ∈ cfg.allowedPairs → (target env pair).1 ≠ "" →
      (target env pair).2 ≠ "" → HistoryMet env cfg cycle (target env pair) tfMs →
      publicationsFor (target env pair) (runOnce env cfg cycle s) =
          publicationsFor (target env pair) s ∧
        Cleared (target env pair) (runOnce env cfg cycle s) := by
  intro h
  have htarget : target asciiText ("xauusd", "1m") = ("xauusd", "1m") := by decide +kernel
  have hstops := h asciiText (twoDesired 3) threeHeld ⟨OrderedDict.empty, []⟩ ("xauusd", "1m")
    60000 List.mem_cons_self (by decide +kernel) (by decide +kernel)
    (htarget ▸ met_of_three_held (by decide +kernel))
  revert hstops
  rw [htarget]
  rintro ⟨hpub, -⟩
  revert hpub
  decide +kernel

end FixedInputs

end SmcPipeline.WarmupRequester
