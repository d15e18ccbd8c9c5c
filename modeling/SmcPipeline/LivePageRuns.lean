import SmcPipeline.LivePage
import Mathlib.Data.Rat.Floor
import Mathlib.Algebra.Order.Field.Rat

/-!
# Runs of the page

What the page asks for goes its way whatever the messages say. From that: with answers that come in
the order of the requests the page ends with what is current, and an answer that comes late stays.
And the candle of the ticks holds exactly the ticks since it began.
-/

namespace SmcPipeline

namespace LivePages

variable {K : Type*}

def outcomeOf : Option (List (ChartBar K)) → FetchOutcome
  | none => .failed
  | some [] => .empty
  | some (_ :: _) => .bars

theorem outcomeOf_eq_bars {bars : List (ChartBar K)} (hbars : bars ≠ []) :
    outcomeOf (some bars) = .bars := by
  cases bars with
  | nil => exact absurd rfl hbars
  | cons bar bars => rfl

/-- What an event is for the requests; a message is nothing. -/
def requestOf : PageEvent K → Option RequestEvent
  | .start symbol => some (.start symbol)
  | .symbol symbol created => some (.symbol symbol created)
  | .timeframe tf created => some (.timeframe tf created)
  | .refresh => some .refresh
  | .reconnect created => some (.reconnect created)
  | .answer fetch bars created => some (.answer fetch (outcomeOf bars) created)
  | .ohlcvOpen => some .ohlcvOpen
  | .ohlcvClose => some .ohlcvClose
  | .ohlcvTimeout id created => some (.ohlcvTimeout id created)
  | .ohlcvMessage _ => none
  | .tickOpen => some .tickOpen
  | .tickClose => some .tickClose
  | .tickTimeout id created => some (.tickTimeout id created)
  | .tickMessage _ _ => none

variable {cfg : PageConfig} {s t : LivePage K}

theorem requests_handleTimeframeChange (tf : PageTimeframe) (created : Bool) (s : LivePage K) :
    (handleTimeframeChange cfg tf created s).toPageRequests =
      Requests.handleTimeframeChange cfg.wsEnabled tf created s.toPageRequests := by
  unfold handleTimeframeChange Requests.handleTimeframeChange
  split_ifs <;> rfl

theorem requests_handleRefresh (s : LivePage K) :
    (handleRefresh s).toPageRequests = Requests.handleRefresh s.toPageRequests := by
  unfold handleRefresh Requests.handleRefresh
  split_ifs <;> rfl

theorem requests_handleReconnect (created : Bool) (s : LivePage K) :
    (handleReconnect cfg created s).toPageRequests =
      Requests.handleReconnect cfg.wsEnabled created s.toPageRequests := by
  unfold handleReconnect Requests.handleReconnect
  split_ifs <;> rfl

theorem requests_handleAnswer (cfg : PageConfig) (pair : Pair)
    (bars : Option (List (ChartBar K))) (created : Bool) (s : LivePage K) :
    (handleAnswer cfg pair bars created s).toPageRequests =
      Requests.handleAnswer cfg.wsEnabled pair (outcomeOf bars) created s.toPageRequests := by
  cases bars with
  | none => rfl
  | some bars => cases bars <;> rfl

theorem requests_finishStart (symbol : String) (created : Bool) {r : PageRequests}
    (hs : s.toPageRequests = r) :
    (finishStart cfg symbol created s).toPageRequests =
      Requests.finishStart cfg.wsEnabled symbol created r := by
  rw [← hs]
  rfl

section

variable [Field K] [LinearOrder K] [FloorRing K]

theorem requests_handleTick (payload : TickPayload K) (nowMs : K) (s : LivePage K) :
    (handleTick payload nowMs s).toPageRequests = s.toPageRequests := by
  unfold handleTick
  split_ifs
  · rfl
  · cases payload.mid <;> rfl

theorem requests_handleBar (cfg : PageConfig) (s : LivePage K) (bar : BarPayload K) :
    (handleBar cfg s bar).toPageRequests = s.toPageRequests := by
  unfold handleBar
  cases barCandle s bar with
  | none => rfl
  | some c =>
      cases hcomplete : bar.complete with
      | false => rfl
      | true =>
          simp only [applyComplete, if_true]
          split_ifs <;> rfl

theorem requests_handleOhlcv (cfg : PageConfig) (payload : OhlcvPayload K) (s : LivePage K) :
    (handleOhlcv cfg payload s).toPageRequests = s.toPageRequests := by
  have hbars : ∀ (bars : List (BarPayload K)) (s : LivePage K),
      (bars.foldl (handleBar cfg) s).toPageRequests = s.toPageRequests := by
    intro bars
    induction bars with
    | nil => exact fun s => rfl
    | cons bar bars ih =>
        intro s
        rw [List.foldl_cons, ih, requests_handleBar]
  unfold handleOhlcv
  split_ifs
  · rfl
  · exact hbars payload.bars s

theorem requests_message {e : PageEvent K} (h : step cfg s e = some t) (he : requestOf e = none) :
    t.toPageRequests = s.toPageRequests := by
  cases e with
  | ohlcvMessage payload =>
      simp only [step, Option.ite_none_right_eq_some, Option.some.injEq] at h
      rw [← h.2, requests_handleOhlcv]
  | tickMessage payload nowMs =>
      simp only [step, Option.ite_none_right_eq_some, Option.some.injEq] at h
      rw [← h.2, requests_handleTick]
  | _ => cases he

theorem requests_step {e : PageEvent K} {a : RequestEvent} (h : step cfg s e = some t)
    (he : requestOf e = some a) :
    Requests.step cfg.wsEnabled s.toPageRequests a = some t.toPageRequests := by
  cases e with
  | start symbol =>
      cases he
      simp only [step, Option.ite_none_left_eq_some, Option.some.injEq] at h
      rw [Requests.step, if_neg h.1, ← h.2]
      rfl
  | symbol symbol created =>
      cases he
      simp only [step, Option.ite_none_left_eq_some, Option.some.injEq] at h
      rw [Requests.step, if_neg h.1, ← h.2]
      rfl
  | timeframe tf created =>
      cases he
      cases h
      rw [Requests.step, requests_handleTimeframeChange]
  | refresh =>
      cases he
      cases h
      rw [Requests.step, requests_handleRefresh]
  | reconnect created =>
      cases he
      cases h
      rw [Requests.step, requests_handleReconnect]
  | answer fetch bars created =>
      cases he
      simp only [step, Option.ite_none_right_eq_some, Option.some.injEq] at h
      obtain ⟨hmem, rfl⟩ := h
      rw [Requests.step, if_pos hmem]
      have hanswered := requests_handleAnswer cfg fetch.pair bars created
        { s with fetches := s.fetches.erase fetch }
      cases fetch.boot with
      | false => exact congrArg some hanswered.symm
      | true => exact congrArg some (requests_finishStart _ _ hanswered).symm
  | ohlcvOpen =>
      cases he
      obtain ⟨ohlcv, hohlcv, rfl⟩ := Option.map_eq_some_iff.mp h
      rw [Requests.step, hohlcv]
      rfl
  | ohlcvClose =>
      cases he
      obtain ⟨ohlcv, hohlcv, rfl⟩ := Option.map_eq_some_iff.mp h
      rw [Requests.step, hohlcv]
      rfl
  | ohlcvTimeout id created =>
      cases he
      obtain ⟨r, hr, rfl⟩ := Option.map_eq_some_iff.mp h
      rw [Requests.step, Reconnects.timeout, hr]
      rfl
  | tickOpen =>
      cases he
      obtain ⟨ticks, hticks, rfl⟩ := Option.map_eq_some_iff.mp h
      rw [Requests.step, hticks]
      rfl
  | tickClose =>
      cases he
      obtain ⟨ticks, hticks, rfl⟩ := Option.map_eq_some_iff.mp h
      rw [Requests.step, hticks]
      rfl
  | tickTimeout id created =>
      cases he
      obtain ⟨ticks, hticks, rfl⟩ := Option.map_eq_some_iff.mp h
      rw [Requests.step, hticks]
      rfl
  | ohlcvMessage payload => cases he
  | tickMessage payload nowMs => cases he

/-- The answers come in the order of the requests, each with bars, and no symbol is chosen before
the first one is there. -/
def InOrder (s : LivePage K) (e : PageEvent K) : Prop :=
  ∀ a ∈ requestOf e, Requests.InOrder s.toPageRequests a

instance (s : LivePage K) (e : PageEvent K) : Decidable (InOrder s e) :=
  inferInstanceAs (Decidable (∀ a ∈ requestOf e, Requests.InOrder s.toPageRequests a))

/-- Nothing is chosen, asked for or answered. -/
def IsQuiet (e : PageEvent K) : Prop := ∀ a ∈ requestOf e, Requests.IsQuiet a

instance (e : PageEvent K) : Decidable (IsQuiet e) :=
  inferInstanceAs (Decidable (∀ a ∈ requestOf e, Requests.IsQuiet a))

open Runs

theorem requests_run {ok : LivePage K → PageEvent K → Prop}
    (guard : PageRequests → RequestEvent → Prop)
    (hguard : ∀ s e, ok s e → ∀ a ∈ requestOf e, guard s.toPageRequests a)
    {events : List (PageEvent K)} (h : Run (step cfg) ok s events t) :
    Run (Requests.step cfg.wsEnabled) guard s.toPageRequests (events.filterMap requestOf)
      t.toPageRequests :=
  h.project LivePage.toPageRequests requestOf (fun _ _ _ _ hst he => requests_message hst he)
    fun s e _ a hok hst he => ⟨hguard s e hok a he, requests_step hst he⟩

/-- When the answers come in the order of the requests and none is left to come, the chart shows the
history of the pair that is current, and the sockets of bars and of ticks are for it. -/
theorem in_order_page_is_current {tf : PageTimeframe} {events : List (PageEvent K)}
    (hrun : Run (step cfg) InOrder (loaded tf) events s) (hsymbol : s.currentSymbol ≠ "")
    (hquiet : s.fetches = []) :
    s.history = some (Requests.pairOf s.toPageRequests) ∧
      (∀ h ∈ s.ohlcv.ws, h.key = Requests.pairOf s.toPageRequests) ∧
      ∀ h ∈ s.ticks.ws, h.key = s.currentSymbol := by
  have hrequests := requests_run Requests.InOrder (fun _ _ hok => hok) hrun
  have hcurrent := (Requests.current_run hrequests).2
  refine ⟨?_, (hcurrent.bars hsymbol hquiet).1, fun h hheld => (hcurrent.ticks.1 h hheld).1⟩
  have hlast := hcurrent.last hsymbol
  rw [hquiet] at hlast
  exact hlast

/-- The page shows one pair while another is current. -/
structure Stays (cfg : PageConfig) (shown current : Pair) (s : LivePage K) : Prop where
  sound : Requests.SocketsSound cfg.wsEnabled s.toPageRequests
  shown : Requests.ShowsPair shown s.toPageRequests
  current : Requests.pairOf s.toPageRequests = current

theorem stays_run {shown current : Pair} {events : List (PageEvent K)}
    (hquiet : ∀ e ∈ events, IsQuiet e) (h : replay (step cfg) s events = some t)
    (hs : Stays cfg shown current s) : Stays cfg shown current t := by
  refine replay_invariant ?_ h hs
  intro e he s t hs hst
  cases hrequest : requestOf e with
  | none =>
      have hsame := requests_message hst hrequest
      exact ⟨hsame ▸ hs.sound, hsame ▸ hs.shown, hsame ▸ hs.current⟩
  | some a =>
      have hstep := requests_step hst hrequest
      have hshows := Requests.shows_step hs.sound hs.shown (hquiet e he a hrequest) hstep
      exact ⟨Requests.sound_step hs.sound hstep, hshows.1, hshows.2.trans hs.current⟩

/-- An answer with bars for a pair that is no longer current puts the page on that pair, and there
it stays until something is chosen, asked for or answered: the chart keeps that history, the socket
of bars is for that pair, and no message with bars of that pair is shown. -/
theorem late_answer_stays {tf : PageTimeframe} {before after : List (PageEvent K)} {u : LivePage K}
    {fetch : PageFetch} {bars : List (ChartBar K)} {created : Bool}
    (hbefore : replay (step cfg) (loaded tf) before = some s)
    (hlate : fetch.pair ≠ Requests.pairOf s.toPageRequests) (hboot : fetch.boot = false)
    (hbars : bars ≠ []) (hanswer : step cfg s (.answer fetch (some bars) created) = some t)
    (hquiet : ∀ e ∈ after, IsQuiet e) (hafter : replay (step cfg) t after = some u) :
    u.history = some fetch.pair ∧ (∀ h ∈ u.ohlcv.ws, h.key = fetch.pair) ∧
      Requests.pairOf u.toPageRequests = Requests.pairOf s.toPageRequests ∧
      ∀ payload : OhlcvPayload K, payload.symbol = fetch.pair.1 → payload.tf = some fetch.pair.2 →
        handleOhlcv cfg payload u = u := by
  have hrun := requests_run (fun _ _ => True) (fun _ _ _ _ _ => trivial) (Run.of_replay hbefore)
  have hsound := hrun.invariant (I := Requests.SocketsSound cfg.wsEnabled)
    (fun _ _ _ hr _ hst => Requests.sound_step hr hst) (Requests.sound_loaded cfg.wsEnabled tf)
  have hstep := requests_step hanswer rfl
  rw [outcomeOf_eq_bars hbars] at hstep
  have hshown := Requests.shows_answer hsound hboot hstep
  have hstays := stays_run hquiet hafter
    ⟨Requests.sound_step hsound hstep, hshown.1, hshown.2⟩
  refine ⟨hstays.shown.1, hstays.shown.2.1, hstays.current, fun payload hpayload htf => ?_⟩
  have hother : payload.symbol = "" ∨ payload.symbol ≠ u.currentSymbol ∨
      payload.tf ≠ some u.currentTimeframe := by
    right
    by_contra hsame
    rw [not_or, not_not, not_not] at hsame
    apply hlate
    rw [← hstays.current]
    exact Prod.ext (hpayload.symm.trans hsame.1) (Option.some.inj (htf.symm.trans hsame.2))
  rw [handleOhlcv, if_pos hother]

/-- A history of one bar. -/
def oneBar : List (ChartBar ℚ) := [⟨some 0, 1, 1, 1, 1⟩]

/-- A symbol is chosen once the first history is there, and its history comes. -/
def answersInOrder : List (PageEvent ℚ) :=
  [.start "XAUUSD", .answer ⟨("XAUUSD", .oneMinute), true⟩ (some oneBar) true,
    .symbol "EURUSD" true, .answer ⟨("EURUSD", .oneMinute), false⟩ (some oneBar) true]

theorem second_symbol_is_current : ∃ s : LivePage ℚ,
    s.history = some ("EURUSD", .oneMinute) ∧ ∀ h ∈ s.ohlcv.ws, h.key = ("EURUSD", .oneMinute) := by
  obtain ⟨s, hrun, hs⟩ := Run.exists_of_checked (step ⟨true, true⟩) InOrder
    (loaded .oneMinute : LivePage ℚ) answersInOrder
    (fun s => s.currentSymbol = "EURUSD" ∧ s.currentTimeframe = .oneMinute ∧ s.fetches = [])
    (by decide)
  obtain ⟨hsymbol, htf, hquiet⟩ := of_decide_eq_true hs
  have hcurrent := in_order_page_is_current hrun (by rw [hsymbol]; decide) hquiet
  rw [Requests.pairOf, hsymbol, htf] at hcurrent
  exact ⟨s, hcurrent.1, hcurrent.2.1⟩

/-- Two symbols are chosen, and the history of the second comes first. -/
def secondFirst : List (PageEvent ℚ) :=
  [.start "XAUUSD", .answer ⟨("XAUUSD", .oneMinute), true⟩ (some oneBar) true,
    .symbol "EURUSD" true, .symbol "GBPUSD" true,
    .answer ⟨("GBPUSD", .oneMinute), false⟩ (some oneBar) true]

/-- The socket for the history that came last opens, and is lost. -/
def afterwards : List (PageEvent ℚ) := [.ohlcvOpen, .ohlcvClose]

theorem first_symbol_stays : ∃ u : LivePage ℚ,
    u.currentSymbol = "GBPUSD" ∧ u.history = some ("EURUSD", .oneMinute) := by
  let late : PageEvent ℚ := .answer ⟨("EURUSD", .oneMinute), false⟩ (some oneBar) true
  obtain ⟨s, hrun, hs⟩ := Run.exists_of_checked (step ⟨true, true⟩) (fun _ _ => True)
    (loaded .oneMinute : LivePage ℚ) secondFirst
    (fun s => Requests.pairOf s.toPageRequests = ("GBPUSD", .oneMinute) ∧
      ((step ⟨true, true⟩ s late).bind fun t =>
        replay (step ⟨true, true⟩) t afterwards).isSome = true) (by decide)
  obtain ⟨hpair, hafter⟩ := of_decide_eq_true hs
  obtain ⟨u, hu⟩ := Option.isSome_iff_exists.mp hafter
  obtain ⟨t, ht, hu⟩ := Option.bind_eq_some_iff.mp hu
  have hstays := late_answer_stays hrun.replay_eq (by rw [hpair]; decide) rfl
    (List.cons_ne_nil _ _) ht (by decide) hu
  exact ⟨u, congrArg Prod.fst (hstays.2.2.1.trans hpair), hstays.1⟩

/-- A tick that is taken, with the start of its candle. -/
structure TakenTick (K : Type*) where
  symbol : String
  start : ℤ
  mid : K
deriving DecidableEq, Repr

/-- The tick that an event brings, if the page takes it. -/
def takenTick (s : LivePage K) : PageEvent K → Option (TakenTick K)
  | .tickMessage payload nowMs =>
    if payload.symbol = "" ∨ payload.symbol ≠ s.currentSymbol then none
    else payload.mid.map fun mid =>
      ⟨payload.symbol, candleStart s.currentTimeframe payload nowMs, mid⟩
  | _ => none

/-- The ticks that are taken in a run. -/
def takenTicks (cfg : PageConfig) : LivePage K → List (PageEvent K) → List (TakenTick K)
  | _, [] => []
  | s, e :: events =>
    (takenTick s e).toList ++ ((step cfg s e).elim [] fun t => takenTicks cfg t events)

/-- The candle of some ticks that opens at a price. -/
def candleOf (time : ℤ) (opn : K) (ticks : List (TakenTick K)) : LiveCandle K where
  time := time
  opn := opn
  high := (ticks.map TakenTick.mid).foldl max opn
  low := (ticks.map TakenTick.mid).foldl min opn
  close := (ticks.map TakenTick.mid).getLast?.getD opn
  volume := ticks.length

/-- The candle of the ticks is that of the last ticks taken, all of which belong to it. -/
def TicksCounted (taken : List (TakenTick K)) (s : LivePage K) : Prop :=
  s.tickLiveOpenTimeSec = s.tickLiveCandle.map LiveCandle.time ∧
    ∀ c ∈ s.tickLiveCandle, ∃ ticks, ticks ≠ [] ∧ ticks <:+ taken ∧
      (∀ x ∈ ticks, x.start = c.time) ∧ c = candleOf c.time c.opn ticks ∧
      s.tickLiveVolumeCount = ticks.length

/-- The candle of the ticks is as it was, or there is none any more. -/
def CandleKept (s t : LivePage K) : Prop :=
  (t.tickLiveOpenTimeSec = s.tickLiveOpenTimeSec ∧ t.tickLiveCandle = s.tickLiveCandle ∧
      t.tickLiveVolumeCount = s.tickLiveVolumeCount) ∨
    (t.tickLiveOpenTimeSec = none ∧ t.tickLiveCandle = none)

omit [Field K] [LinearOrder K] [FloorRing K] in
theorem CandleKept.refl (s : LivePage K) : CandleKept s s := .inl ⟨rfl, rfl, rfl⟩

omit [Field K] [LinearOrder K] [FloorRing K] in
theorem CandleKept.trans {u : LivePage K} (hst : CandleKept s t) (htu : CandleKept t u) :
    CandleKept s u := by
  rcases htu with ⟨htime, hcandle, hcount⟩ | hnone
  · rcases hst with hsame | hnone
    · exact .inl ⟨htime.trans hsame.1, hcandle.trans hsame.2.1, hcount.trans hsame.2.2⟩
    · exact .inr ⟨htime.trans hnone.1, hcandle.trans hnone.2⟩
  · exact .inr hnone

omit [FloorRing K] in
theorem TicksCounted.of_kept {taken : List (TakenTick K)} (hs : TicksCounted taken s)
    (hkept : CandleKept s t) : TicksCounted taken t := by
  rcases hkept with ⟨htime, hcandle, hcount⟩ | ⟨htime, hcandle⟩
  · rw [TicksCounted, htime, hcandle, hcount]
    exact hs
  · refine ⟨by rw [htime, hcandle]; rfl, fun c hc => ?_⟩
    rw [hcandle] at hc
    cases hc

theorem kept_handleBar (cfg : PageConfig) (s : LivePage K) (bar : BarPayload K) :
    CandleKept s (handleBar cfg s bar) := by
  unfold handleBar
  cases barCandle s bar with
  | none => exact .refl s
  | some c =>
      cases bar.complete with
      | false => exact .inl ⟨rfl, rfl, rfl⟩
      | true =>
          simp only [applyComplete, if_true]
          split_ifs
          · exact .inr ⟨rfl, rfl⟩
          · exact .inl ⟨rfl, rfl, rfl⟩
          · exact .inr ⟨rfl, rfl⟩
          · exact .inl ⟨rfl, rfl, rfl⟩
          · exact .inl ⟨rfl, rfl, rfl⟩

theorem kept_handleOhlcv (cfg : PageConfig) (payload : OhlcvPayload K) (s : LivePage K) :
    CandleKept s (handleOhlcv cfg payload s) := by
  have hbars : ∀ (bars : List (BarPayload K)) (s : LivePage K),
      CandleKept s (bars.foldl (handleBar cfg) s) := by
    intro bars
    induction bars with
    | nil => exact CandleKept.refl
    | cons bar bars ih => exact fun s => (kept_handleBar cfg s bar).trans (ih _)
  unfold handleOhlcv
  split_ifs
  · exact .refl s
  · exact hbars payload.bars s

/-- An event that brings no tick leaves the candle of the ticks as it is, or drops it. -/
theorem kept_step {e : PageEvent K} (h : step cfg s e = some t) (he : takenTick s e = none) :
    CandleKept s t := by
  cases e with
  | start symbol | symbol symbol created =>
      simp only [step, Option.ite_none_left_eq_some, Option.some.injEq] at h
      rw [← h.2]
      exact .inl ⟨rfl, rfl, rfl⟩
  | timeframe tf created =>
      cases h
      unfold handleTimeframeChange
      split_ifs
      · exact .refl s
      · exact .inr ⟨rfl, rfl⟩
      · exact .inr ⟨rfl, rfl⟩
  | refresh =>
      cases h
      unfold handleRefresh
      split_ifs <;> exact .inl ⟨rfl, rfl, rfl⟩
  | reconnect created =>
      cases h
      unfold handleReconnect
      split_ifs <;> exact .inl ⟨rfl, rfl, rfl⟩
  | answer fetch bars created =>
      simp only [step, Option.ite_none_right_eq_some, Option.some.injEq] at h
      obtain ⟨-, rfl⟩ := h
      cases bars with
      | none => split_ifs <;> exact .inr ⟨rfl, rfl⟩
      | some bars =>
          cases bars with
          | nil => split_ifs <;> exact .inl ⟨rfl, rfl, rfl⟩
          | cons bar bars => split_ifs <;> exact .inl ⟨rfl, rfl, rfl⟩
  | ohlcvOpen | ohlcvClose | ohlcvTimeout | tickOpen | tickClose | tickTimeout =>
      obtain ⟨stream, -, rfl⟩ := Option.map_eq_some_iff.mp h
      exact .inl ⟨rfl, rfl, rfl⟩
  | ohlcvMessage payload =>
      simp only [step, Option.ite_none_right_eq_some, Option.some.injEq] at h
      rw [← h.2]
      exact kept_handleOhlcv cfg payload s
  | tickMessage payload nowMs =>
      simp only [step, Option.ite_none_right_eq_some, Option.some.injEq] at h
      rw [← h.2, handleTick]
      simp only [takenTick] at he
      split_ifs at he ⊢ with hother
      · exact .refl s
      · rw [Option.map_eq_none_iff.mp he]
        exact .refl s

omit [FloorRing K] in
theorem candleOf_append (time : ℤ) (opn : K) (ticks : List (TakenTick K)) (x : TakenTick K) :
    candleOf time opn (ticks ++ [x]) =
      ⟨time, opn, max (candleOf time opn ticks).high x.mid,
        min (candleOf time opn ticks).low x.mid, x.mid, ((ticks.length + 1 : ℕ) : K)⟩ := by
  simp [candleOf]

omit [FloorRing K] in
theorem tickCandle_of_live {c : LiveCandle K} {start : ℤ} (hcandle : s.tickLiveCandle = some c)
    (hlive : s.tickLiveOpenTimeSec = some start) (count : ℕ) (mid : K) :
    tickCandle s start count mid =
      ⟨c.time, c.opn, max c.high mid, min c.low mid, mid, count⟩ := by
  unfold tickCandle
  rw [hcandle]
  exact if_pos hlive

omit [FloorRing K] in
theorem tickCandle_of_new {start : ℤ} (hnew : s.tickLiveOpenTimeSec ≠ some start) (symbol : String)
    (mid : K) :
    tickCandle s start 1 mid = candleOf start (baseOpen s start mid) [⟨symbol, start, mid⟩] := by
  unfold tickCandle
  split
  · exact if_neg hnew
  · rfl

/-- A tick either goes on with the candle or begins one. -/
theorem counted_handleTick {taken : List (TakenTick K)} {payload : TickPayload K} {nowMs : K}
    {x : TakenTick K} (hs : TicksCounted taken s)
    (hx : takenTick s (.tickMessage payload nowMs) = some x) :
    TicksCounted (taken ++ [x]) (handleTick payload nowMs s) := by
  obtain ⟨htime, hcandle⟩ := hs
  simp only [takenTick, Option.ite_none_left_eq_some, Option.map_eq_some_iff] at hx
  obtain ⟨hsame, mid, hmid, rfl⟩ := hx
  rw [handleTick, if_neg hsame, hmid]
  generalize candleStart s.currentTimeframe payload nowMs = start
  dsimp only
  by_cases hlive : s.tickLiveOpenTimeSec = some start
  · obtain ⟨c, hc, rfl⟩ := Option.map_eq_some_iff.mp (htime.symm.trans hlive)
    obtain ⟨ticks, -, hsuffix, hstart, hcandleOf, hcount⟩ := hcandle c hc
    rw [if_pos hlive, tickCandle_of_live hc hlive]
    refine ⟨rfl, ?_⟩
    rintro d ⟨⟩
    refine ⟨ticks ++ [⟨payload.symbol, c.time, mid⟩], by simp, ?_, ?_, ?_, ?_⟩
    · obtain ⟨front, rfl⟩ := hsuffix
      exact ⟨front, by rw [List.append_assoc]⟩
    · intro y hy
      rcases List.mem_append.mp hy with hy | hy
      · exact hstart y hy
      · rw [List.mem_singleton.mp hy]
    · rw [candleOf_append, ← hcandleOf, hcount]
    · rw [hcount, List.length_append]
      rfl
  · rw [if_neg hlive, tickCandle_of_new hlive payload.symbol]
    refine ⟨rfl, ?_⟩
    rintro d ⟨⟩
    exact ⟨[⟨payload.symbol, start, mid⟩], List.cons_ne_nil _ _, List.suffix_append _ _,
      fun y hy => by rw [List.mem_singleton.mp hy]; rfl, rfl, rfl⟩

theorem counted_step {taken : List (TakenTick K)} {e : PageEvent K} (hs : TicksCounted taken s)
    (h : step cfg s e = some t) : TicksCounted (taken ++ (takenTick s e).toList) t := by
  cases hx : takenTick s e with
  | none =>
      rw [Option.toList_none, List.append_nil]
      exact hs.of_kept (kept_step h hx)
  | some x =>
      cases e with
      | tickMessage payload nowMs =>
          simp only [step, Option.ite_none_right_eq_some, Option.some.injEq] at h
          rw [← h.2]
          exact counted_handleTick hs hx
      | _ => cases hx

theorem counted_run {taken : List (TakenTick K)} {events : List (PageEvent K)}
    (hs : TicksCounted taken s) (h : replay (step cfg) s events = some t) :
    TicksCounted (taken ++ takenTicks cfg s events) t := by
  induction events generalizing s taken with
  | nil =>
      cases h
      rw [takenTicks, List.append_nil]
      exact hs
  | cons e events ih =>
      obtain ⟨u, hu, h⟩ := Option.bind_eq_some_iff.mp h
      rw [takenTicks, hu, ← List.append_assoc]
      exact ih (counted_step hs hu) h

/-- The candle of the ticks, whenever there is one: the last ticks that the page has taken, all of
them of that candle, with the highest and the lowest price of theirs and of the opening, the last
price as its close, and their number as its volume. The choice of another symbol does not begin a
candle, so that the ticks may be of several. -/
theorem tick_candle_counts {tf : PageTimeframe} {events : List (PageEvent K)} {c : LiveCandle K}
    (h : replay (step cfg) (loaded tf) events = some s) (hc : s.tickLiveCandle = some c) :
    ∃ ticks, ticks ≠ [] ∧ ticks <:+ takenTicks cfg (loaded tf) events ∧
      (∀ x ∈ ticks, x.start = c.time) ∧ c = candleOf c.time c.opn ticks := by
  have hloaded : TicksCounted [] (loaded tf : LivePage K) := ⟨rfl, fun c hc => by cases hc⟩
  obtain ⟨ticks, hne, hsuffix, hstart, hcandle, -⟩ := (counted_run hloaded h).2 c hc
  exact ⟨ticks, hne, hsuffix, hstart, hcandle⟩

/-- A tick of one symbol and, once another is chosen and its socket is open, one of that. -/
def twoSymbols : List (PageEvent ℚ) :=
  [.start "XAUUSD", .symbol "XAUUSD" true, .tickOpen,
    .tickMessage ⟨"XAUUSD", some 2000, some 0, none⟩ 1, .symbol "EURUSD" true, .tickOpen,
    .tickMessage ⟨"EURUSD", some 1, some 1, none⟩ 2]

theorem candle_of_two_symbols : ∃ ticks : List (TakenTick ℚ),
    ticks <:+ takenTicks ⟨true, true⟩ (loaded .oneMinute) twoSymbols ∧
      (⟨0, 2000, 2000, 1, 1, 2⟩ : LiveCandle ℚ) = candleOf 0 2000 ticks := by
  obtain ⟨s, hs, hc⟩ := Option.bind_eq_some_iff.mp
    (show ((replay (step ⟨true, true⟩) (loaded .oneMinute) twoSymbols).bind fun s =>
      s.tickLiveCandle) = some (⟨0, 2000, 2000, 1, 1, 2⟩ : LiveCandle ℚ) by decide +kernel)
  obtain ⟨ticks, -, hsuffix, -, hcandle⟩ := tick_candle_counts hs hc
  exact ⟨ticks, hsuffix, hcandle⟩

end

end LivePages

end SmcPipeline
