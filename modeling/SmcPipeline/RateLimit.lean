import SmcPipeline.PrefetchStops

/-!
# Runs of the warmup requester

The cycles follow one another, each from the state the one before it left. What a cycle does
with one key (a pair and a type of command) is said once: it keeps the time of the last
request, forgets it, or replaces it by its own time. Of the requests of a key that were
published, the remembered time is that of the last one since the pair was cleared, so
that the distance between two of them and the law of the reset follow.
-/

namespace SmcPipeline.WarmupRequester

variable {env : TextFunctions} {cfg : RequesterConfig} {cycle : Cycle} {s : RequesterState}
  {k : String × String} {c : CmdType}

/-- The key of a pair and a type. -/
def keyOf (k : String × String) (c : CmdType) : String × String × CmdType := (k.1, k.2, c)

variable (env cfg cycle) in
/-- The history is ok and has as many bars as the contract asks for. -/
structure EnoughBars (k : String × String) : Prop where
  ok : (statusOf env cfg cycle k.1 k.2).state = .ok
  bars : contractBars env cfg k.1 k.2 ≤ (statusOf env cfg cycle k.1 k.2).barsCount

variable (env cfg cycle) in
theorem decisionFor_eq_clear_iff (k : String × String) :
    decisionFor env cfg cycle k = .clear ↔ EnoughBars env cfg cycle k := by
  unfold decisionFor decisionOf
  constructor
  · intro h
    split_ifs at h with hok hmore
    exact ⟨hok, by omega⟩
  · rintro ⟨hok, hbars⟩
    rw [if_pos hok, if_neg (by omega)]

variable (env) in
/-- The loop over the pairs comes to a pair. -/
structure Visited (pairs : List (String × String)) (k : String × String) : Prop where
  pair : ∃ p ∈ pairs, target env p = k
  symbol : k.1 ≠ ""
  timeframe : k.2 ≠ ""

variable (cfg cycle) in
/-- What becomes of the time of the last request of a key. -/
inductive Effect (clears : Prop) (key : String × String × CmdType) (s t : RequesterState)
    (new : List Publication) : Prop
  | kept (hnew : ∀ q ∈ new, q.key = key → rateLimitOk cfg cycle s key = true ∧ q.sent = false)
      (hget : t.lastRequestMs.get? key = s.lastRequestMs.get? key)
  | forgot (hclears : clears) (hget : t.lastRequestMs.get? key = none)
  | sent (hrate : rateLimitOk cfg cycle s key = true)
      (hsent : ∃ q ∈ new, q.key = key ∧ q.sent = true)
      (hget : t.lastRequestMs.get? key = some cycle.nowMs)

variable (env cfg cycle) in
/-- A part of a cycle, seen from one key: what is published, and only if it is asked for;
after a request that was sent there is none; and the time that is remembered. -/
structure PartSpec (pairs : List (String × String)) (k : String × String) (c : CmdType)
    (s t : RequesterState) (new : List Publication) : Prop where
  published : t.published = s.published ++ new
  asked : ∀ q ∈ new, q.key = keyOf k c →
    Visited env pairs k ∧ ∃ reason, decisionFor env cfg cycle k = .request c reason
  outcome : ∀ q ∈ new, ∃ i, q.sent = cycle.publishOk i
  once : new.Pairwise fun a b => a.key = keyOf k c → b.key = keyOf k c → a.sent = false
  effect : Effect cfg cycle (decisionFor env cfg cycle k = .clear) (keyOf k c) s t new

variable (cfg cycle) in
theorem rateLimitOk_congr {t : RequesterState} {key : String × String × CmdType}
    (h : t.lastRequestMs.get? key = s.lastRequestMs.get? key) :
    rateLimitOk cfg cycle t key = rateLimitOk cfg cycle s key := by
  unfold rateLimitOk
  rw [h]

variable (cfg) in
/-- Right after a request of a key the next one has to wait. -/
theorem not_rateLimitOk {key : String × String × CmdType}
    (h : s.lastRequestMs.get? key = some cycle.nowMs) : rateLimitOk cfg cycle s key = false := by
  unfold rateLimitOk
  rw [h]
  simp

variable (cfg cycle s) in
theorem published_publish (key : String × String × CmdType) (command : Command) :
    (publish cfg cycle s key command).published = s.published ++
      if rateLimitOk cfg cycle s key then
        [⟨key, cfg.commandsChannel, command, cycle.publishOk s.published.length⟩] else [] := by
  unfold publish
  split_ifs with hrate
  · rfl
  · exact (List.append_nil _).symm

theorem get?_publish_self {key : String × String × CmdType} (command : Command)
    (hrate : rateLimitOk cfg cycle s key = true) :
    (publish cfg cycle s key command).lastRequestMs.get? key =
      if cycle.publishOk s.published.length then some cycle.nowMs
      else s.lastRequestMs.get? key := by
  unfold publish
  rw [if_pos hrate]
  dsimp only
  split_ifs with hsent
  · rw [OrderedDict.get?_set, if_pos rfl]
  · rfl

variable (env cfg cycle) in
theorem partSpec_none (pairs : List (String × String)) (k : String × String) (c : CmdType)
    (s : RequesterState) : PartSpec env cfg cycle pairs k c s s [] where
  published := (List.append_nil _).symm
  asked := fun q hq => by cases hq
  outcome := fun q hq => by cases hq
  once := List.Pairwise.nil
  effect := .kept (fun q hq => by cases hq) rfl

variable (env cfg cycle) in
/-- One visit. -/
theorem partSpec_visit (k : String × String) (c : CmdType) (s : RequesterState)
    (pair : String × String) :
    ∃ new, PartSpec env cfg cycle [pair] k c s (visitPair env cfg cycle s pair) new := by
  by_cases hempty : (target env pair).1 = "" ∨ (target env pair).2 = ""
  · have hsame : visitPair env cfg cycle s pair = s := if_pos hempty
    rw [hsame]
    exact ⟨[], partSpec_none env cfg cycle [pair] k c s⟩
  obtain ⟨hsym, htf⟩ := not_or.mp hempty
  rcases visitPair_cases env cfg cycle s pair with
    ⟨hsame, -⟩ | ⟨hdecision, hclear⟩ | ⟨cmdType, reason, command, hdecision, hpublish⟩
  · rw [hsame]
    exact ⟨[], partSpec_none env cfg cycle [pair] k c s⟩
  · have hget : (visitPair env cfg cycle s pair).lastRequestMs.get? (keyOf k c) =
        if k = target env pair then none else s.lastRequestMs.get? (keyOf k c) := by
      rw [hclear]
      exact get?_clearActiveIssue (keyOf k c) (target env pair).1 (target env pair).2
    refine ⟨[], ?_, fun q hq => (by cases hq), fun q hq => (by cases hq), List.Pairwise.nil, ?_⟩
    · rw [hclear, List.append_nil]
      rfl
    · by_cases hk : k = target env pair
      · rw [if_pos hk] at hget
        exact .forgot (hk ▸ hdecision) hget
      · rw [if_neg hk] at hget
        exact .kept (fun q hq => by cases hq) hget
  · rw [hpublish]
    have hpub := published_publish cfg cycle s
      ((target env pair).1, (target env pair).2, cmdType) command
    by_cases hrate : rateLimitOk cfg cycle s
        ((target env pair).1, (target env pair).2, cmdType) = true
    · rw [if_pos hrate] at hpub
      refine ⟨_, hpub, ?_, ?_, List.pairwise_singleton _ _, ?_⟩
      · intro q hq hqk
        rw [List.mem_singleton.mp hq] at hqk
        simp only [keyOf, Prod.mk.injEq] at hqk
        obtain ⟨hsame, hsame', hc⟩ := hqk
        have hk : target env pair = k := Prod.ext hsame hsame'
        rw [hk, hc] at hdecision
        rw [hk] at hsym htf
        exact ⟨⟨⟨pair, List.mem_singleton_self _, hk⟩, hsym, htf⟩, reason, hdecision⟩
      · intro q hq
        rw [List.mem_singleton.mp hq]
        exact ⟨_, rfl⟩
      · by_cases hkey : ((target env pair).1, (target env pair).2, cmdType) = keyOf k c
        · have hget := get?_publish_self command hrate
          rw [hkey] at hrate hget ⊢
          by_cases hsent : cycle.publishOk s.published.length = true
          · rw [if_pos hsent] at hget
            exact .sent hrate ⟨_, List.mem_singleton_self _, rfl, hsent⟩ hget
          · rw [if_neg hsent] at hget
            refine .kept (fun q hq _ => ⟨hrate, ?_⟩) hget
            rw [List.mem_singleton.mp hq]
            exact Bool.eq_false_of_not_eq_true hsent
        · refine .kept (fun q hq hqk => ?_) (get?_publish_of_ne command fun heq => hkey heq.symm)
          rw [List.mem_singleton.mp hq] at hqk
          exact absurd hqk hkey
    · have hsame : publish cfg cycle s ((target env pair).1, (target env pair).2, cmdType)
          command = s := if_neg hrate
      rw [hsame]
      exact ⟨[], partSpec_none env cfg cycle [pair] k c s⟩

/-- Two parts, one after the other. -/
theorem PartSpec.trans {s t u : RequesterState} {first second : List Publication}
    {pairs pairs' : List (String × String)} (h₁ : PartSpec env cfg cycle pairs k c s t first)
    (h₂ : PartSpec env cfg cycle pairs' k c t u second) :
    PartSpec env cfg cycle (pairs ++ pairs') k c s u (first ++ second) := by
  have hasked : ∀ q ∈ first ++ second, q.key = keyOf k c →
      Visited env (pairs ++ pairs') k ∧
        ∃ reason, decisionFor env cfg cycle k = .request c reason := by
    intro q hq hqk
    rcases List.mem_append.mp hq with hq | hq
    · obtain ⟨⟨⟨p, hp, hpk⟩, hsym, htf⟩, hreason⟩ := h₁.asked q hq hqk
      exact ⟨⟨⟨p, List.mem_append_left _ hp, hpk⟩, hsym, htf⟩, hreason⟩
    · obtain ⟨⟨⟨p, hp, hpk⟩, hsym, htf⟩, hreason⟩ := h₂.asked q hq hqk
      exact ⟨⟨⟨p, List.mem_append_right _ hp, hpk⟩, hsym, htf⟩, hreason⟩
  have houtcome : ∀ q ∈ first ++ second, ∃ i, q.sent = cycle.publishOk i := fun q hq =>
    (List.mem_append.mp hq).elim (h₁.outcome q) (h₂.outcome q)
  have honce : (∀ a ∈ first, a.key = keyOf k c → a.sent = false) ∨
      (∀ b ∈ second, b.key ≠ keyOf k c) →
      (first ++ second).Pairwise fun a b => a.key = keyOf k c → b.key = keyOf k c →
        a.sent = false := by
    intro h
    refine List.pairwise_append.mpr ⟨h₁.once, h₂.once, fun a ha b hb hak hbk => ?_⟩
    rcases h with h | h
    · exact h a ha hak
    · exact absurd hbk (h b hb)
  have hpub : u.published = s.published ++ (first ++ second) := by
    rw [h₂.published, h₁.published, List.append_assoc]
  have hnone : decisionFor env cfg cycle k = .clear → ∀ q ∈ first ++ second, q.key ≠ keyOf k c := by
    intro hclear q hq hqk
    obtain ⟨-, reason, hreason⟩ := hasked q hq hqk
    rw [hclear] at hreason
    cases hreason
  cases h₁.effect with
  | kept hnew hget =>
      have hrate := rateLimitOk_congr cfg cycle hget
      refine ⟨hpub, hasked, houtcome, honce (Or.inl fun a ha hak => (hnew a ha hak).2), ?_⟩
      cases h₂.effect with
      | kept hnew' hget' =>
          refine .kept (fun q hq hqk => ?_) (hget'.trans hget)
          rcases List.mem_append.mp hq with hq | hq
          · exact hnew q hq hqk
          · exact hrate ▸ hnew' q hq hqk
      | forgot hclears hget' => exact .forgot hclears hget'
      | sent hrate' hsent' hget' =>
          obtain ⟨q, hq, hqs⟩ := hsent'
          exact .sent (hrate ▸ hrate') ⟨q, List.mem_append_right _ hq, hqs⟩ hget'
  | forgot hclears hget =>
      refine ⟨hpub, hasked, houtcome, honce (Or.inr fun b hb => hnone hclears b
        (List.mem_append_right _ hb)), .forgot hclears ?_⟩
      cases h₂.effect with
      | kept _ hget' => exact hget'.trans hget
      | forgot _ hget' => exact hget'
      | sent _ hsent' _ =>
          obtain ⟨q, hq, hqk, -⟩ := hsent'
          exact absurd hqk (hnone hclears q (List.mem_append_right _ hq))
  | sent hrate hsent hget =>
      have hwait := not_rateLimitOk cfg hget
      obtain ⟨q, hq, hqk, hqs⟩ := hsent
      have hsome : ∃ q ∈ first ++ second, q.key = keyOf k c ∧ q.sent = true :=
        ⟨q, List.mem_append_left _ hq, hqk, hqs⟩
      cases h₂.effect with
      | kept hnew' hget' =>
          have hquiet : ∀ b ∈ second, b.key ≠ keyOf k c := by
            intro b hb hbk
            have hb' := (hnew' b hb hbk).1
            rw [hwait] at hb'
            cases hb'
          exact ⟨hpub, hasked, houtcome, honce (Or.inr hquiet), .sent hrate hsome (hget'.trans hget)⟩
      | forgot hclears _ => exact absurd hqk (hnone hclears q (List.mem_append_left _ hq))
      | sent hrate' _ _ =>
          rw [hwait] at hrate'
          cases hrate'

variable (env cfg cycle) in
/-- The loop over some pairs. -/
theorem partSpec_foldl (k : String × String) (c : CmdType) (pairs : List (String × String))
    (s : RequesterState) :
    ∃ new, PartSpec env cfg cycle pairs k c s (pairs.foldl (visitPair env cfg cycle) s) new := by
  induction pairs generalizing s with
  | nil => exact ⟨[], partSpec_none env cfg cycle [] k c s⟩
  | cons p pairs ih =>
      obtain ⟨first, hfirst⟩ := partSpec_visit env cfg cycle k c s p
      obtain ⟨second, hsecond⟩ := ih (visitPair env cfg cycle s p)
      exact ⟨first ++ second, hfirst.trans hsecond⟩

/-- A command that is asked for and may be sent is published by some visit of its pair. -/
theorem exists_publication {reason : RequestReason}
    (hrequest : decisionFor env cfg cycle k = .request c reason) {pairs : List (String × String)}
    (hvisit : Visited env pairs k) (hrate : rateLimitOk cfg cycle s (keyOf k c) = true) :
    ∃ new, PartSpec env cfg cycle pairs k c s (pairs.foldl (visitPair env cfg cycle) s) new ∧
      ∃ q ∈ new, q.key = keyOf k c := by
  induction pairs generalizing s with
  | nil =>
      obtain ⟨p, hp, -⟩ := hvisit.pair
      cases hp
  | cons p pairs ih =>
      obtain ⟨first, hfirst⟩ := partSpec_visit env cfg cycle k c s p
      rw [List.foldl_cons]
      by_cases hp : target env p = k
      · obtain ⟨second, hsecond⟩ := partSpec_foldl env cfg cycle k c
          pairs (visitPair env cfg cycle s p)
        refine ⟨first ++ second, hfirst.trans hsecond, ?_⟩
        obtain ⟨command, hpublish⟩ : ∃ command,
            visitPair env cfg cycle s p = publish cfg cycle s (keyOf k c) command := by
          rcases visitPair_cases env cfg cycle s p with ⟨-, h⟩ | ⟨h, -⟩ | ⟨_, _, command, h, hv⟩
          · rw [hp, hrequest] at h
            exact absurd h (by simp [hvisit.symbol, hvisit.timeframe])
          · rw [hp, hrequest] at h
            cases h
          · rw [hp, hrequest] at h
            cases h
            rw [hp] at hv
            exact ⟨command, hv⟩
        have hpub := hfirst.published
        rw [hpublish, published_publish, if_pos hrate] at hpub
        rw [← List.append_cancel_left hpub]
        exact ⟨_, List.mem_append_left _ (List.mem_singleton_self _), rfl⟩
      · obtain ⟨-, hget⟩ := visitPair_of_ne cfg cycle s hp
        have hrest : Visited env pairs k := by
          obtain ⟨⟨q, hq, hqk⟩, hsym, htf⟩ := hvisit
          rcases List.mem_cons.mp hq with rfl | hq
          · exact absurd hqk hp
          · exact ⟨⟨q, hq, hqk⟩, hsym, htf⟩
        obtain ⟨second, hsecond, q, hq, hqk⟩ := ih (s := visitPair env cfg cycle s p) hrest
          ((rateLimitOk_congr cfg cycle (hget c)).trans hrate)
        exact ⟨first ++ second, hfirst.trans hsecond, q, List.mem_append_right _ hq, hqk⟩

section

variable (env cfg) (cycles : ℕ → Cycle)

/-- The state before the cycle `n`; at the start nothing has been requested. -/
def stateAt : ℕ → RequesterState
  | 0 => ⟨OrderedDict.empty, []⟩
  | n + 1 => runOnce env cfg (cycles n) (stateAt n)

/-- The publications of the cycle `n`, in their order. -/
def publishedIn (n : ℕ) : List Publication :=
  (stateAt env cfg cycles (n + 1)).published.drop (stateAt env cfg cycles n).published.length

/-- The cycle `n` sends a command of the key. -/
def SentIn (n : ℕ) (key : String × String × CmdType) : Prop :=
  ∃ q ∈ publishedIn env cfg cycles n, q.key = key ∧ q.sent = true

/-- The cycle `n` finds the history of a pair ok with enough bars and clears the pair. -/
def ClearedIn (n : ℕ) (k : String × String) : Prop :=
  EnoughBars env cfg (cycles n) k ∧ Cleared k (stateAt env cfg cycles (n + 1))

end

variable {cycles : ℕ → Cycle} {n : ℕ}

/-- The publications that a cycle adds are those of its loop. -/
theorem PartSpec.publishedIn_eq {new : List Publication}
    (h : PartSpec env cfg (cycles n) cfg.allowedPairs k c (stateAt env cfg cycles n)
      (runOnce env cfg (cycles n) (stateAt env cfg cycles n)) new) :
    publishedIn env cfg cycles n = new := by
  unfold publishedIn
  rw [stateAt, h.published, List.drop_left]

variable (env cfg) in
/-- What the cycle `n` does with a key. -/
theorem partSpec_cycle (cycles : ℕ → Cycle) (n : ℕ) (k : String × String) (c : CmdType) :
    PartSpec env cfg (cycles n) cfg.allowedPairs k c (stateAt env cfg cycles n)
      (stateAt env cfg cycles (n + 1)) (publishedIn env cfg cycles n) := by
  obtain ⟨new, hnew⟩ := partSpec_foldl env cfg (cycles n) k c
    cfg.allowedPairs (stateAt env cfg cycles n)
  rw [PartSpec.publishedIn_eq hnew]
  exact hnew

/-- A cycle publishes a command that it asks for and may send. -/
theorem exists_publishedIn {reason : RequestReason}
    (hrequest : decisionFor env cfg (cycles n) k = .request c reason)
    (hvisit : Visited env cfg.allowedPairs k)
    (hrate : rateLimitOk cfg (cycles n) (stateAt env cfg cycles n) (keyOf k c) = true) :
    ∃ q ∈ publishedIn env cfg cycles n, q.key = keyOf k c := by
  obtain ⟨new, hnew, hq⟩ := exists_publication hrequest hvisit hrate
  rw [PartSpec.publishedIn_eq hnew]
  exact hq

theorem decisionFor_of_enough {cycle : Cycle} (h : EnoughBars env cfg cycle k) :
    decisionFor env cfg cycle k = .clear := (decisionFor_eq_clear_iff env cfg cycle k).mpr h

/-- A cycle that finds enough bars clears the pair if it comes to it. -/
theorem clearedIn_of_enough (hvisit : Visited env cfg.allowedPairs k)
    (h : EnoughBars env cfg (cycles n) k) : ClearedIn env cfg cycles n k :=
  ⟨h, (foldl_clear (decisionFor_of_enough h) hvisit.symbol hvisit.timeframe cfg.allowedPairs
    (stateAt env cfg cycles n)).2 (Or.inr hvisit.pair)⟩

theorem SentIn.visited {key : String × String × CmdType} (h : SentIn env cfg cycles n key) :
    Visited env cfg.allowedPairs (key.1, key.2.1) := by
  obtain ⟨q, hq, hqk, -⟩ := h
  exact ((partSpec_cycle env cfg cycles n (key.1, key.2.1) key.2.2).asked q hq hqk).1

/-- The time that is remembered for a key belongs to a request that was sent and has not
been cleared since, and no later one has been sent. -/
structure Remembers (env : TextFunctions) (cfg : RequesterConfig) (cycles : ℕ → Cycle) (n : ℕ)
    (k : String × String) (c : CmdType) : Prop where
  known : ∀ t, (stateAt env cfg cycles n).lastRequestMs.get? (keyOf k c) = some t →
    ∃ m < n, SentIn env cfg cycles m (keyOf k c) ∧ (cycles m).nowMs = t ∧
      ∀ l, m < l → l < n → ¬ EnoughBars env cfg (cycles l) k
  covers : ∀ m < n, SentIn env cfg cycles m (keyOf k c) →
    (∃ l, m < l ∧ l < n ∧ ClearedIn env cfg cycles l k) ∨
      ∃ t, (stateAt env cfg cycles n).lastRequestMs.get? (keyOf k c) = some t ∧
        (cycles m).nowMs ≤ t

theorem le_of_rateLimitOk {cycle : Cycle} {s : RequesterState} {key : String × String × CmdType}
    {t : ℤ} (hget : s.lastRequestMs.get? key = some t)
    (hrate : rateLimitOk cfg cycle s key = true) : max 1 cfg.cooldownSec * 1000 ≤ cycle.nowMs - t := by
  unfold rateLimitOk at hrate
  rw [hget] at hrate
  exact of_decide_eq_true hrate

theorem remembers (env : TextFunctions) (cfg : RequesterConfig) (cycles : ℕ → Cycle) (n : ℕ)
    (k : String × String) (c : CmdType) : Remembers env cfg cycles n k c := by
  induction n with
  | zero =>
      constructor
      · intro t ht
        cases ht
      · intro m hm
        omega
  | succ n ih =>
      have hspec := partSpec_cycle env cfg cycles n k c
      cases hspec.effect with
      | kept hnew hget =>
          have hquiet : ¬ SentIn env cfg cycles n (keyOf k c) := by
            rintro ⟨q, hq, hqk, hqs⟩
            rw [(hnew q hq hqk).2] at hqs
            cases hqs
          constructor
          · intro t ht
            obtain ⟨m, hm, hsent, hnow, hclear⟩ := ih.known t (hget ▸ ht)
            refine ⟨m, by omega, hsent, hnow, fun l hl hl' => ?_⟩
            rcases Nat.lt_succ_iff_lt_or_eq.mp hl' with hl' | rfl
            · exact hclear l hl hl'
            · intro henough
              have hcleared : (stateAt env cfg cycles (l + 1)).lastRequestMs.get? (keyOf k c) =
                  none := (clearedIn_of_enough hsent.visited henough).2 c
              rw [ht] at hcleared
              cases hcleared
          · intro m hm hsent
            rcases Nat.lt_succ_iff_lt_or_eq.mp hm with hm | rfl
            · rcases ih.covers m hm hsent with ⟨l, hl, hl', hcleared⟩ | ⟨t, ht, hle⟩
              · exact Or.inl ⟨l, hl, by omega, hcleared⟩
              · exact Or.inr ⟨t, hget.trans ht, hle⟩
            · exact absurd hsent hquiet
      | forgot hclears hget =>
          constructor
          · intro t ht
            rw [hget] at ht
            cases ht
          · intro m hm hsent
            have henough := (decisionFor_eq_clear_iff env cfg (cycles n) k).mp hclears
            rcases Nat.lt_succ_iff_lt_or_eq.mp hm with hm | rfl
            · exact Or.inl ⟨n, hm, by omega, clearedIn_of_enough hsent.visited henough⟩
            · obtain ⟨q, hq, hqk, -⟩ := hsent
              obtain ⟨-, reason, hreason⟩ := hspec.asked q hq hqk
              rw [hclears] at hreason
              cases hreason
      | sent hrate hsent hget =>
          constructor
          · intro t ht
            rw [hget] at ht
            exact ⟨n, by omega, hsent, Option.some.inj ht, fun l hl hl' => by omega⟩
          · intro m hm hsent'
            rcases Nat.lt_succ_iff_lt_or_eq.mp hm with hm | rfl
            · rcases ih.covers m hm hsent' with ⟨l, hl, hl', hcleared⟩ | ⟨t, ht, hle⟩
              · exact Or.inl ⟨l, hl, by omega, hcleared⟩
              · have hwait := le_of_rateLimitOk ht hrate
                exact Or.inr ⟨_, hget, by omega⟩
            · exact Or.inr ⟨_, hget, le_rfl⟩

/-- A publication that was sent met no recent request. -/
theorem rateLimitOk_of_sentIn (h : SentIn env cfg cycles n (keyOf k c)) :
    rateLimitOk cfg (cycles n) (stateAt env cfg cycles n) (keyOf k c) = true := by
  have hspec := partSpec_cycle env cfg cycles n k c
  obtain ⟨q, hq, hqk, hqs⟩ := h
  cases hspec.effect with
  | kept hnew _ => exact (hnew q hq hqk).1
  | forgot hclears _ =>
      obtain ⟨-, reason, hreason⟩ := hspec.asked q hq hqk
      rw [hclears] at hreason
      cases hreason
  | sent hrate _ _ => exact hrate

/-- Of two requests of a key in different cycles the later one waits for the cooldown, unless
the pair is cleared in between. -/
theorem apart_of_sentIn {m : ℕ} (hmn : m < n) (hm : SentIn env cfg cycles m (keyOf k c))
    (hn : SentIn env cfg cycles n (keyOf k c)) :
    max 1 cfg.cooldownSec * 1000 ≤ (cycles n).nowMs - (cycles m).nowMs ∨
      ∃ l, m < l ∧ l < n ∧ ClearedIn env cfg cycles l k := by
  rcases (remembers env cfg cycles n k c).covers m hmn hm with hcleared | ⟨t, ht, hle⟩
  · exact Or.inr hcleared
  · have hwait := le_of_rateLimitOk ht (rateLimitOk_of_sentIn hn)
    exact Or.inl (by omega)

/-- The order of the publications: by their cycles, and within a cycle by their places. -/
def Earlier (m i n j : ℕ) : Prop := m < n ∨ m = n ∧ i < j

/-- No request of a key is sent after the place `i` of the cycle `m` and before the cycle `n`. -/
def Unsent (env : TextFunctions) (cfg : RequesterConfig) (cycles : ℕ → Cycle) (m i n : ℕ)
    (key : String × String × CmdType) : Prop :=
  ∀ l j q, Earlier m i l j → l < n → (publishedIn env cfg cycles l)[j]? = some q → q.key = key →
    q.sent = false

/-- The cooldown does not run from a request that failed. -/
theorem rateLimitOk_of_unsent (hclock : ∀ m n, m ≤ n → (cycles m).nowMs ≤ (cycles n).nowMs) {m i : ℕ}
    {p : Publication} (hp : (publishedIn env cfg cycles m)[i]? = some p)
    (hkey : p.key = keyOf k c) (hfailed : p.sent = false) (hmn : m < n)
    (hunsent : Unsent env cfg cycles m i n (keyOf k c)) :
    rateLimitOk cfg (cycles n) (stateAt env cfg cycles n) (keyOf k c) = true := by
  have hkept : ∀ d, m + 1 + d ≤ n →
      ∀ t, (stateAt env cfg cycles (m + 1 + d)).lastRequestMs.get? (keyOf k c) = some t →
        max 1 cfg.cooldownSec * 1000 ≤ (cycles m).nowMs - t := by
    intro d
    induction d with
    | zero =>
        intro hle t ht
        have hspec := partSpec_cycle env cfg cycles m k c
        have hmem := List.mem_of_getElem? hp
        cases hspec.effect with
        | kept hnew hget => exact le_of_rateLimitOk (hget ▸ ht) (hnew p hmem hkey).1
        | forgot _ hget =>
            rw [Nat.add_zero, hget] at ht
            cases ht
        | sent _ hsent _ =>
            -- the request that was sent stands neither before nor after this one
            obtain ⟨q, hq, hqk, hqs⟩ := hsent
            obtain ⟨j, hj⟩ := List.mem_iff_getElem?.mp hq
            rcases Nat.lt_trichotomy i j with hij | rfl | hji
            · rw [hunsent m j q (Or.inr ⟨rfl, hij⟩) hmn hj hqk] at hqs
              cases hqs
            · rw [hp] at hj
              cases hj
              rw [hfailed] at hqs
              cases hqs
            · obtain ⟨hi', hpi⟩ := List.getElem?_eq_some_iff.mp hp
              obtain ⟨hj', hqj⟩ := List.getElem?_eq_some_iff.mp hj
              have honce := List.pairwise_iff_getElem.mp hspec.once j i hj' hi' hji
                (hqj ▸ hqk) (hpi ▸ hkey)
              rw [hqj, hqs] at honce
              cases honce
    | succ d ih =>
        intro hle t ht
        have hspec := partSpec_cycle env cfg cycles (m + 1 + d) k c
        cases hspec.effect with
        | kept _ hget => exact ih (by omega) t (hget ▸ ht)
        | forgot _ hget =>
            rw [← Nat.add_assoc, hget] at ht
            cases ht
        | sent _ hsent _ =>
            obtain ⟨q, hq, hqk, hqs⟩ := hsent
            obtain ⟨j, hj⟩ := List.mem_iff_getElem?.mp hq
            rw [hunsent (m + 1 + d) j q (Or.inl (by omega)) (by omega) hj hqk] at hqs
            cases hqs
  have hnow : (cycles m).nowMs ≤ (cycles n).nowMs := hclock m n hmn.le
  have hend := hkept (n - (m + 1)) (by omega)
  rw [show m + 1 + (n - (m + 1)) = n by omega] at hend
  unfold rateLimitOk
  cases hget : (stateAt env cfg cycles n).lastRequestMs.get? (keyOf k c) with
  | none => rfl
  | some t =>
      have hwait := hend t hget
      exact decide_eq_true (by omega)

/-- Two requests of a key that were sent are at least the cooldown apart, unless a cycle in
between cleared their pair; and after a request that failed the command is published again
as soon as a cycle asks for it. -/
theorem rate_limited (hclock : ∀ m n, m ≤ n → (cycles m).nowMs ≤ (cycles n).nowMs) :
    (∀ m n i j p q, (publishedIn env cfg cycles m)[i]? = some p →
        (publishedIn env cfg cycles n)[j]? = some q → Earlier m i n j → p.sent = true →
        q.sent = true → p.key = q.key →
        max 1 cfg.cooldownSec * 1000 ≤ (cycles n).nowMs - (cycles m).nowMs ∨
          ∃ l, m < l ∧ l < n ∧ ClearedIn env cfg cycles l (p.key.1, p.key.2.1)) ∧
      ∀ m n i p reason, (publishedIn env cfg cycles m)[i]? = some p → p.sent = false → m < n →
        Unsent env cfg cycles m i n p.key →
        decisionFor env cfg (cycles n) (p.key.1, p.key.2.1) = .request p.key.2.2 reason →
        ∃ q ∈ publishedIn env cfg cycles n, q.key = p.key := by
  constructor
  · intro m n i j p q hp hq hearlier hps hqs hkey
    have hm : SentIn env cfg cycles m (keyOf (p.key.1, p.key.2.1) p.key.2.2) :=
      ⟨p, List.mem_of_getElem? hp, rfl, hps⟩
    rcases hearlier with hmn | ⟨rfl, hij⟩
    · exact apart_of_sentIn hmn hm ⟨q, List.mem_of_getElem? hq, hkey.symm, hqs⟩
    · have hspec := partSpec_cycle env cfg cycles m (p.key.1, p.key.2.1) p.key.2.2
      obtain ⟨hi', hpi⟩ := List.getElem?_eq_some_iff.mp hp
      obtain ⟨hj', hqj⟩ := List.getElem?_eq_some_iff.mp hq
      have honce := List.pairwise_iff_getElem.mp hspec.once i j hi' hj' hij (hpi ▸ rfl)
        (hqj ▸ hkey.symm)
      rw [hpi, hps] at honce
      cases honce
  · intro m n i p reason hp hfailed hmn hunsent hrequest
    have hrate := rateLimitOk_of_unsent (k := (p.key.1, p.key.2.1)) (c := p.key.2.2) hclock hp rfl
      hfailed hmn hunsent
    have hvisit := ((partSpec_cycle env cfg cycles m (p.key.1, p.key.2.1)
      p.key.2.2).asked p (List.mem_of_getElem? hp) rfl).1
    exact exists_publishedIn hrequest hvisit hrate

section FixedInputs

/-- The same store in every cycle, a quarter of an hour apart. -/
def quarters (n : ℕ) : Cycle := { threeHeld with nowMs := 240000 + 900000 * n }

/-- The first prefetch and the request after the cooldown. -/
theorem two_requests_are_apart :
    (max 1 (twoDesired 3).cooldownSec * 1000 ≤ (quarters 1).nowMs - (quarters 0).nowMs ∨
        ∃ l, 0 < l ∧ l < 1 ∧ ClearedIn asciiText (twoDesired 3) quarters l ("xauusd", "1m")) ∧
      (publishedIn asciiText (twoDesired 3) quarters 0).length = 1 := by
  have hclock : ∀ m n, m ≤ n → (quarters m).nowMs ≤ (quarters n).nowMs := by
    intro m n hmn
    show (240000 : ℤ) + 900000 * m ≤ 240000 + 900000 * n
    omega
  have hfirst : ((publishedIn asciiText (twoDesired 3) quarters 0)[0]?.map fun p =>
      (p.key, p.sent)) = some (("xauusd", "1m", .fxcmWarmup), true) := by decide +kernel
  have hsecond : ((publishedIn asciiText (twoDesired 3) quarters 1)[0]?.map fun p =>
      (p.key, p.sent)) = some (("xauusd", "1m", .fxcmWarmup), true) := by decide +kernel
  obtain ⟨p, hp, hpk⟩ := Option.map_eq_some_iff.mp hfirst
  obtain ⟨q, hq, hqk⟩ := Option.map_eq_some_iff.mp hsecond
  obtain ⟨hpkey, hps⟩ := Prod.mk.inj hpk
  obtain ⟨hqkey, hqs⟩ := Prod.mk.inj hqk
  have hapart := (rate_limited hclock).1 0 1 0 0 p q hp hq (Or.inl (by decide)) hps hqs
    (hpkey.trans hqkey.symm)
  rw [hpkey] at hapart
  exact ⟨hapart, by decide +kernel⟩

end FixedInputs

end SmcPipeline.WarmupRequester
