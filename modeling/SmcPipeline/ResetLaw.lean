import SmcPipeline.RateLimit

/-!
# The reset of the requester

A history that is ok again is to let the next command through at once. The pair is cleared,
however, only where the contract asks for no more bars than are counted. A cycle that finds
the history ok and asks for more of it keeps the times of the earlier requests, and sets one
itself: what was sent since the pair was cleared last then holds the next command back.
-/

namespace SmcPipeline.WarmupRequester

variable {env : TextFunctions} {cfg : RequesterConfig} {cycles : ℕ → Cycle} {n : ℕ}
  {k : String × String} {c : CmdType}

/-- The command that a degraded history needs. -/
def neededCommand (tf : String) : HistoryState → Option CmdType
  | .insufficient => some .fxcmWarmup
  | .staleTail => some (if tf = "1m" then .fxcmWarmup else .fxcmBackfill)
  | .ok => none
  | .unknown => none

/-- The flags of a classified history go with its state. -/
theorem classifyHistory_flags (nowMs : ℤ) (barsCount : ℕ) (lastOpenTimeMs : Option ℤ)
    (minHistoryBars tfMs : ℤ) (staleK : ℚ) :
    ((classifyHistory nowMs barsCount lastOpenTimeMs minHistoryBars tfMs staleK).needsWarmup =
        decide ((classifyHistory nowMs barsCount lastOpenTimeMs minHistoryBars tfMs staleK).state =
          .insufficient)) ∧
      (classifyHistory nowMs barsCount lastOpenTimeMs minHistoryBars tfMs staleK).needsBackfill =
        decide ((classifyHistory nowMs barsCount lastOpenTimeMs minHistoryBars tfMs staleK).state =
          .staleTail) := by
  unfold classifyHistory
  split_ifs with hfew
  · exact ⟨rfl, rfl⟩
  · cases lastOpenTimeMs with
    | none => exact ⟨rfl, rfl⟩
    | some last =>
        dsimp only
        split_ifs <;> exact ⟨rfl, rfl⟩

theorem decisionFor_of_needed {cycle : Cycle}
    (h : neededCommand k.2 (statusOf env cfg cycle k.1 k.2).state = some c) :
    ∃ reason, decisionFor env cfg cycle k = .request c reason := by
  have hwarmup : (statusOf env cfg cycle k.1 k.2).needsWarmup =
      decide ((statusOf env cfg cycle k.1 k.2).state = .insufficient) :=
    (classifyHistory_flags _ _ _ _ _ _).1
  have hbackfill : (statusOf env cfg cycle k.1 k.2).needsBackfill =
      decide ((statusOf env cfg cycle k.1 k.2).state = .staleTail) :=
    (classifyHistory_flags _ _ _ _ _ _).2
  unfold decisionFor decisionOf
  rw [hwarmup, hbackfill]
  cases hstate : (statusOf env cfg cycle k.1 k.2).state with
  | ok =>
      rw [hstate] at h
      cases h
  | insufficient =>
      rw [hstate] at h
      cases h
      exact ⟨_, rfl⟩
  | staleTail =>
      rw [hstate] at h
      cases h
      exact ⟨_, rfl⟩
  | unknown =>
      rw [hstate] at h
      cases h

/-- A cycle that finds enough bars asks for no command of the pair. -/
theorem not_sentIn_of_enough (h : EnoughBars env cfg (cycles n) k) :
    ¬ SentIn env cfg cycles n (keyOf k c) := by
  rintro ⟨q, hq, hqk, -⟩
  obtain ⟨-, reason, hreason⟩ := (partSpec_cycle env cfg cycles n k c).asked q hq hqk
  rw [decisionFor_of_enough h] at hreason
  cases hreason

/-- The rate limit lets a command through when no request since the pair was cleared is
within the cooldown. -/
theorem rateLimitOk_of_settled
    (h : ∀ m < n, SentIn env cfg cycles m (keyOf k c) →
      max 1 cfg.cooldownSec * 1000 ≤ (cycles n).nowMs - (cycles m).nowMs ∨
        ∃ l, m < l ∧ l < n ∧ EnoughBars env cfg (cycles l) k) :
    rateLimitOk cfg (cycles n) (stateAt env cfg cycles n) (keyOf k c) = true := by
  unfold rateLimitOk
  cases hget : (stateAt env cfg cycles n).lastRequestMs.get? (keyOf k c) with
  | none => rfl
  | some t =>
      obtain ⟨m, hm, hsent, rfl, hclear⟩ := (remembers env cfg cycles n k c).known t hget
      rcases h m hm hsent with hwait | ⟨l, hl, hl', henough⟩
      · exact decide_eq_true hwait
      · exact absurd henough (hclear l hl hl')

/-- After a cycle that found the history ok, a cycle that finds it degraded sends the command
that is needed exactly if the first one had enough bars for the contract, or all that was
sent for the key since the pair was cleared is out of the cooldown. -/
theorem reset_iff (hvisit : Visited env cfg.allowedPairs k)
    (hok : (statusOf env cfg (cycles n) k.1 k.2).state = .ok)
    (hneeded : neededCommand k.2 (statusOf env cfg (cycles (n + 1)) k.1 k.2).state = some c)
    (hpublish : ∀ i, (cycles (n + 1)).publishOk i = true) :
    SentIn env cfg cycles (n + 1) (keyOf k c) ↔
      contractBars env cfg k.1 k.2 ≤ (statusOf env cfg (cycles n) k.1 k.2).barsCount ∨
        ∀ m ≤ n, SentIn env cfg cycles m (keyOf k c) →
          max 1 cfg.cooldownSec * 1000 ≤ (cycles (n + 1)).nowMs - (cycles m).nowMs ∨
            ∃ l, m < l ∧ l < n ∧ EnoughBars env cfg (cycles l) k := by
  constructor
  · intro hsent
    by_cases hbars : contractBars env cfg k.1 k.2 ≤
        (statusOf env cfg (cycles n) k.1 k.2).barsCount
    · exact Or.inl hbars
    · refine Or.inr fun m hm hsent' => ?_
      rcases (remembers env cfg cycles (n + 1) k c).covers m (by omega) hsent' with
        ⟨l, hl, hl', hcleared⟩ | ⟨t, ht, hle⟩
      · rcases Nat.lt_succ_iff_lt_or_eq.mp hl' with hl' | rfl
        · exact Or.inr ⟨l, hl, hl', hcleared.1⟩
        · exact absurd hcleared.1.bars hbars
      · have hwait := le_of_rateLimitOk ht (rateLimitOk_of_sentIn hsent)
        exact Or.inl (by omega)
  · intro h
    have hrate : rateLimitOk cfg (cycles (n + 1)) (stateAt env cfg cycles (n + 1))
        (keyOf k c) = true := by
      apply rateLimitOk_of_settled
      intro m hm hsent
      rcases h with hbars | hall
      · have henough : EnoughBars env cfg (cycles n) k := ⟨hok, hbars⟩
        rcases Nat.lt_succ_iff_lt_or_eq.mp hm with hm' | rfl
        · exact Or.inr ⟨n, hm', by omega, henough⟩
        · exact absurd hsent (not_sentIn_of_enough henough)
      · rcases hall m (by omega) hsent with hwait | ⟨l, hl, hl', henough⟩
        · exact Or.inl hwait
        · exact Or.inr ⟨l, hl, by omega, henough⟩
    obtain ⟨reason, hrequest⟩ := decisionFor_of_needed hneeded
    obtain ⟨q, hq, hqk⟩ := exists_publishedIn hrequest hvisit hrate
    obtain ⟨i, hi⟩ := (partSpec_cycle env cfg cycles (n + 1) k c).outcome q hq
    exact ⟨q, hq, hqk, hi.trans (hpublish i)⟩

section FixedInputs

/-- One cycle a minute; only the second one finds bars in the store. -/
def emptyThenHeld (n : ℕ) : Cycle :=
  { threeHeld with
    nowMs := 240000 + 60000 * n
    store := fun symbol tf => if n = 1 then threeHeld.store symbol tf else [] }

theorem visited_gold (contract1mBars : ℤ) :
    Visited asciiText (twoDesired contract1mBars).allowedPairs ("xauusd", "1m") :=
  ⟨⟨("xauusd", "1m"), List.mem_cons_self, by decide +kernel⟩, by decide, by decide⟩

/-- Two bars are enough for the contract: the second warmup is sent at once. -/
theorem warmup_is_sent_again :
    SentIn asciiText (twoDesired 2) emptyThenHeld 2 ("xauusd", "1m", .fxcmWarmup) :=
  (reset_iff (n := 1) (c := .fxcmWarmup) (visited_gold 2) (by decide +kernel) (by decide +kernel)
    (fun _ => rfl)).mpr (Or.inl (by decide +kernel))

/-- The contract asks for three bars: the warmup of the first cycle holds back the one of
the third, although the history was ok in between. -/
theorem warmup_is_held_back :
    ¬ ∀ (env : TextFunctions) (cfg : RequesterConfig) (cycles : ℕ → Cycle) (n : ℕ)
      (k : String × String) (c : CmdType), Visited env cfg.allowedPairs k →
      (statusOf env cfg (cycles n) k.1 k.2).state = .ok →
      neededCommand k.2 (statusOf env cfg (cycles (n + 1)) k.1 k.2).state = some c →
      (∀ i, (cycles (n + 1)).publishOk i = true) →
      SentIn env cfg cycles (n + 1) (keyOf k c) := by
  intro h
  have hsent := h asciiText (twoDesired 3) emptyThenHeld 1 ("xauusd", "1m") .fxcmWarmup
    (visited_gold 3) (by decide +kernel) (by decide +kernel) fun _ => rfl
  revert hsent
  unfold SentIn
  decide +kernel

end FixedInputs

end SmcPipeline.WarmupRequester
