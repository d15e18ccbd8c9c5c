import SmcPipeline.ChartAdapter
import SmcPipeline.Frames
import SmcPipeline.Upserts
import Mathlib.Algebra.Order.Field.Rat

/-!
# The chart times of a bar

A complete bar reaches the chart over HTTP (`fetch_ohlcv` of `UI_v2/ohlcv_provider.py`, then
`normalizeOhlcvBar` of `UI_v2/web_client/app.js`) or over the OHLCV WebSocket
(`handleOhlcvWsPayload`). The first way takes the second in which the bar closes, the other one
that in which it opens. Where the two are one second, the series of candles is the list of the
bars that were delivered, each once; a bar of a longer timeframe has two times.
-/

namespace SmcPipeline.ChartTimes

open ChartAdapter KeyedRows

variable {F : Type*} (isFinite : F → Bool)

/-- A bar of the answer to `/smc-viewer/ohlcv`, with its time in milliseconds. -/
structure OhlcvBar (F : Type*) where
  time : ℤ
  opn : F
  high : F
  low : F
  close : F

/-- A sort by closing time that may permute rows of one time. -/
structure CloseTimeSort (F : Type*) where
  sort : List (Bar F) → List (Bar F)
  perm : ∀ rows, (sort rows).Perm rows
  sorted : ∀ rows, (sort rows).Pairwise fun a b => a.closeTime ≤ b.closeTime

def finitePrices (b : Bar F) : Bool :=
  isFinite b.opn && isFinite b.high && isFinite b.low && isFinite b.close

/-- `_to_millis` of an integer -/
def toMillis (value : ℤ) : ℤ := if 1000000000000 < value then value else value * 1000

/-- The loop body of `fetch_ohlcv`; a zero `close_time` is falsy. -/
def ohlcvBar (b : Bar F) : Option (OhlcvBar F) :=
  if finitePrices isFinite b then
    some ⟨toMillis (if b.closeTime ≠ 0 then b.closeTime else b.openTime), b.opn, b.high, b.low,
      b.close⟩
  else none

/-- `fetch_ohlcv` on what `get_df` returned; `none` stands for `OhlcvNotFoundError`. -/
def fetchOhlcv (sorter : CloseTimeSort F) (frame : List (Bar F)) (limit : ℤ) :
    Option (List (OhlcvBar F)) :=
  let sorted := sorter.sort frame
  let trimmed := sorted.drop (sorted.length - (max 1 limit).toNat)
  match trimmed.filterMap (ohlcvBar isFinite) with
  | [] => none
  | bars => some bars

/-- `normalizeOhlcvBar` -/
def normalizeOhlcvBar (bar : OhlcvBar F) : Option (ChartBar F) :=
  if isFinite bar.opn && isFinite bar.high && isFinite bar.low && isFinite bar.close then
    let divisor := if 1000000000000 < bar.time then 1000 else 1
    some ⟨some ((bar.time / divisor : ℤ) : ℚ), bar.opn, bar.high, bar.low, bar.close⟩
  else none

/-- `fetchOhlcv` and `pushBarsToChart`: an answer that is not ok clears the chart. -/
def poll (sorter : CloseTimeSort F) (frame : List (Bar F)) (limit : ℤ) (s : ChartState F) :
    ChartState F :=
  match fetchOhlcv isFinite sorter frame limit with
  | none => clearLiveBar (clearAll s)
  | some answer =>
    let bars := answer.filterMap (normalizeOhlcvBar isFinite)
    if bars = [] then s else setBars bars s

/-- The candle of a complete bar in `handleOhlcvWsPayload`. -/
def wsBar (b : Bar F) : Option (ChartBar F) :=
  if 0 < b.openTime ∧ finitePrices isFinite b then
    some ⟨some ((b.openTime / 1000 : ℤ) : ℚ), b.opn, b.high, b.low, b.close⟩
  else none

def handleBar (s : ChartState F) (b : Bar F) : ChartState F :=
  match wsBar isFinite b with
  | none => s
  | some bar => updateLastBar bar s

/-- A dataset that was polled, or the complete bars of a message. -/
inductive ChartDelivery (F : Type*)
  | poll (frame : List (Bar F)) (limit : ℤ)
  | ws (bars : List (Bar F))

def deliver (sorter : CloseTimeSort F) (s : ChartState F) : ChartDelivery F → ChartState F
  | .poll frame limit => poll isFinite sorter frame limit s
  | .ws bars => bars.foldl (handleBar isFinite) s

/-- The time that the chart gives to a bar that comes over HTTP. -/
def httpTime (b : Bar F) : Option ℤ :=
  (((ohlcvBar isFinite b).bind (normalizeOhlcvBar isFinite)).bind normalizeBar).map ChartCandle.time

/-- The time that it gives to one that comes over the WebSocket. -/
def wsTime (b : Bar F) : Option ℤ := ((wsBar isFinite b).bind normalizeBar).map ChartCandle.time

/-- The times of a bar fall into one second after the first 10^12 milliseconds. -/
structure OneSecond (b : Bar F) : Prop where
  positive : 0 < b.openTime
  late : 1000000000000 < b.closeTime
  second : b.closeTime / 1000 = b.openTime / 1000

variable {isFinite}

theorem normalizeOhlcvBar_of_finite {b : Bar F} (h : finitePrices isFinite b = true) (time : ℤ) :
    (normalizeOhlcvBar isFinite ⟨time, b.opn, b.high, b.low, b.close⟩).bind normalizeBar =
      some ⟨if 1000000000000 < time then time / 1000 else time, b.opn, b.high, b.low, b.close⟩ := by
  unfold finitePrices at h
  unfold normalizeOhlcvBar
  dsimp only
  rw [if_pos h]
  unfold normalizeBar
  split_ifs <;> simp

/-- Over HTTP a bar has the second of its closing time, in the unit that is guessed. -/
theorem httpTime_eq {b : Bar F} (h : finitePrices isFinite b = true) :
    httpTime isFinite b =
      let ms := toMillis (if b.closeTime ≠ 0 then b.closeTime else b.openTime)
      some (if 1000000000000 < ms then ms / 1000 else ms) := by
  unfold httpTime ohlcvBar
  rw [if_pos h, Option.bind_some, normalizeOhlcvBar_of_finite h]
  rfl

theorem wsTime_eq {b : Bar F} (h : finitePrices isFinite b = true) :
    wsTime isFinite b = if 0 < b.openTime then some (b.openTime / 1000) else none := by
  unfold wsTime wsBar
  by_cases hopen : 0 < b.openTime
  · rw [if_pos ⟨hopen, h⟩, if_pos hopen]
    simp [normalizeBar]
  · rw [if_neg fun hboth => hopen hboth.1, if_neg hopen]
    rfl

theorem httpTime_eq_wsTime_iff {b : Bar F} (h : finitePrices isFinite b = true)
    (hspan : b.openTime < b.closeTime) :
    httpTime isFinite b = wsTime isFinite b ↔ OneSecond b := by
  rw [httpTime_eq h, wsTime_eq h]
  dsimp only
  by_cases hopen : 0 < b.openTime
  · have hclose : b.closeTime ≠ 0 := by omega
    rw [if_pos hclose, if_pos hopen, Option.some.injEq]
    unfold toMillis
    constructor
    · intro heq
      split_ifs at heq with hlate hlate'
      · exact ⟨hopen, hlate, heq⟩
      · omega
      · omega
    · rintro ⟨-, hlate, hsecond⟩
      rw [if_pos hlate, if_pos hlate, hsecond]
  · rw [if_neg hopen]
    exact iff_of_false (by simp) fun h' => hopen h'.positive

/-- A bar of a minute: over HTTP it stands at the end of the minute, over the WebSocket at its
start. -/
def minuteBar : Bar ℚ := ⟨1764002100000, 2, 3, 1, 2, 5, 1764002159999, none⟩

theorem minute_bar_has_two_times :
    minuteBar.openTime < minuteBar.closeTime ∧
      httpTime (fun _ => true) minuteBar ≠ wsTime (fun _ => true) minuteBar := by
  constructor
  · decide
  · rw [httpTime_eq rfl, wsTime_eq rfl]
    decide

/-- A complete bar takes the place of the last one of its open time, or comes after it. -/
def viewBar (view : List (Bar F)) (b : Bar F) : List (Bar F) :=
  match view.getLast? with
  | none => [b]
  | some last =>
    if b.openTime = last.openTime then view.dropLast ++ [b]
    else if last.openTime < b.openTime then view ++ [b]
    else view

/-- A polled dataset takes the place of everything. -/
def view (bars : List (Bar F)) : ChartDelivery F → List (Bar F)
  | .poll frame limit => frame.drop (frame.length - (max 1 limit).toNat)
  | .ws new => new.foldl viewBar bars

/-- The candle of a bar, in the second in which it opens. -/
def candleOf (b : Bar F) : ChartCandle F := ⟨b.openTime / 1000, b.opn, b.high, b.low, b.close⟩

variable (isFinite) in
/-- Bars with finite prices, each within one second and no two in the same one. -/
structure Feed (feed : Bar F → Prop) : Prop where
  finite : ∀ b, feed b → finitePrices isFinite b = true
  oneSecond : ∀ b, feed b → OneSecond b
  apart : ∀ a b, feed a → feed b → a.openTime / 1000 = b.openTime / 1000 → a.openTime = b.openTime

/-- A frame of the store has increasing open times. -/
def FromFeed (feed : Bar F → Prop) : ChartDelivery F → Prop
  | .poll frame _ => (∀ b ∈ frame, feed b) ∧ frame.Pairwise fun a b => a.openTime < b.openTime
  | .ws bars => ∀ b ∈ bars, feed b

/-- The chart shows some bars of the feed, one candle for each. -/
structure Shows (feed : Bar F → Prop) (bars : List (Bar F)) (s : ChartState F) : Prop where
  candles : s.candles = bars.map candleOf
  lastBar : s.lastBar = (bars.map candleOf).getLast?
  feed : ∀ b ∈ bars, feed b
  increasing : bars.Pairwise fun a b => a.openTime < b.openTime

variable {feed : Bar F → Prop}

theorem Feed.second_lt_iff (h : Feed isFinite feed) {a b : Bar F} (ha : feed a) (hb : feed b) :
    a.openTime / 1000 < b.openTime / 1000 ↔ a.openTime < b.openTime := by
  have hapart := h.apart a b ha hb
  omega

theorem httpBar_eq (h : Feed isFinite feed) {b : Bar F} (hb : feed b) :
    ∃ answer bar, ohlcvBar isFinite b = some answer ∧
      normalizeOhlcvBar isFinite answer = some bar ∧ normalizeBar bar = some (candleOf b) := by
  have hfinite := h.finite b hb
  obtain ⟨hopen, hlate, hsecond⟩ := h.oneSecond b hb
  have hclose : b.closeTime ≠ 0 := by omega
  have hanswer : ohlcvBar isFinite b = some ⟨b.closeTime, b.opn, b.high, b.low, b.close⟩ := by
    unfold ohlcvBar toMillis
    rw [if_pos hfinite, if_pos hclose, if_pos hlate]
  have hcandle := normalizeOhlcvBar_of_finite hfinite b.closeTime
  rw [if_pos hlate, hsecond] at hcandle
  obtain ⟨bar, hbar, hnormal⟩ := Option.bind_eq_some_iff.mp hcandle
  exact ⟨_, bar, hanswer, hbar, hnormal⟩

/-- A sort by closing time leaves the rows of a frame where they are. -/
theorem sort_eq_self (h : Feed isFinite feed) (sorter : CloseTimeSort F) {frame : List (Bar F)}
    (hframe : ∀ b ∈ frame, feed b) (hinc : frame.Pairwise fun a b => a.openTime < b.openTime) :
    sorter.sort frame = frame := by
  have hclose : frame.Pairwise fun a b => a.closeTime < b.closeTime := by
    refine hinc.imp_of_mem fun {a b} ha hb hab => ?_
    have hlt := (h.second_lt_iff (hframe a ha) (hframe b hb)).mpr hab
    have ha' := (h.oneSecond a (hframe a ha)).second
    have hb' := (h.oneSecond b (hframe b hb)).second
    omega
  have hnodup : ((sorter.sort frame).map Bar.closeTime).Nodup :=
    ((sorter.perm frame).map Bar.closeTime).nodup_iff.mpr (nodup_of_increasing Bar.closeTime hclose)
  exact eq_of_perm Bar.closeTime (increasing_of_nodup Bar.closeTime (sorter.sorted frame) hnodup)
    hclose (sorter.perm frame)

/-- The candles of some bars of the feed that come over HTTP. -/
theorem candles_of_answer (h : Feed isFinite feed) {rows : List (Bar F)}
    (hrows : ∀ b ∈ rows, feed b) :
    ((rows.filterMap (ohlcvBar isFinite)).filterMap (normalizeOhlcvBar isFinite)).filterMap
        normalizeBar = rows.map candleOf := by
  induction rows with
  | nil => rfl
  | cons b rows ih =>
      obtain ⟨answer, bar, hanswer, hbar, hcandle⟩ := httpBar_eq h (hrows b List.mem_cons_self)
      rw [List.filterMap_cons_some hanswer, List.filterMap_cons_some hbar,
        List.filterMap_cons_some hcandle, ih fun q hq => hrows q (List.mem_cons_of_mem b hq),
        List.map_cons]

theorem candles_sorted (h : Feed isFinite feed) {rows : List (Bar F)} (hrows : ∀ b ∈ rows, feed b)
    (hinc : rows.Pairwise fun a b => a.openTime < b.openTime) :
    (rows.map candleOf).Pairwise fun a b => a.time ≤ b.time := by
  rw [List.pairwise_map]
  refine hinc.imp_of_mem fun {a b} ha hb hab => ?_
  exact ((h.second_lt_iff (hrows a ha) (hrows b hb)).mpr hab).le

theorem shows_poll (h : Feed isFinite feed) (sorter : CloseTimeSort F) {frame : List (Bar F)}
    {limit : ℤ} (hframe : FromFeed feed (.poll frame limit)) (bars : List (Bar F))
    (s : ChartState F) :
    Shows feed (view bars (.poll frame limit)) (deliver isFinite sorter s (.poll frame limit)) := by
  obtain ⟨hfeed, hinc⟩ := hframe
  have hsort := sort_eq_self h sorter hfeed hinc
  have htail := List.drop_sublist (frame.length - (max 1 limit).toNat) frame
  have hfeed' : ∀ b ∈ view bars (.poll frame limit), feed b := fun b hb =>
    hfeed b (htail.subset hb)
  have hinc' : (view bars (.poll frame limit)).Pairwise fun a b => a.openTime < b.openTime :=
    hinc.sublist htail
  have hcandles := candles_of_answer h hfeed'
  unfold deliver poll fetchOhlcv
  dsimp only
  rw [hsort]
  generalize hrows : view bars (.poll frame limit) = rows at hfeed' hinc' hcandles ⊢
  rw [show frame.drop (frame.length - (max 1 limit).toNat) = rows from hrows]
  cases hanswer : rows.filterMap (ohlcvBar isFinite) with
  | nil =>
      rw [hanswer] at hcandles
      have hnil : rows = [] := List.map_eq_nil_iff.mp hcandles.symm
      rw [hnil]
      exact ⟨rfl, rfl, fun b hb => (by cases hb), List.Pairwise.nil⟩
  | cons answer rest =>
      rw [hanswer] at hcandles
      have hne : rows ≠ [] := by
        rintro rfl
        cases hanswer
      dsimp only
      rw [if_neg fun hnil => hne (List.map_eq_nil_iff.mp (by rw [← hcandles, hnil]; rfl))]
      obtain ⟨hseries, hlast⟩ := setBars_candles
        ((answer :: rest).filterMap (normalizeOhlcvBar isFinite)) s
      rw [hcandles, sortBy_eq_self ChartCandle.time (candles_sorted h hfeed' hinc')] at hseries hlast
      exact ⟨hseries, hlast, hfeed', hinc'⟩

theorem not_older {a b : Bar F} (h : a.openTime / 1000 ≤ b.openTime / 1000) :
    ∀ last ∈ some (candleOf a), last.time ≤ (candleOf b).time := by
  intro last hlast
  cases hlast
  exact h

theorem older {a b : Bar F} (h : b.openTime / 1000 < a.openTime / 1000) :
    ¬ ∀ last ∈ some (candleOf a), last.time ≤ (candleOf b).time := fun hle =>
  (hle (candleOf a) rfl).not_gt h

/-- A complete bar over the WebSocket replaces the candle of the same bar, appends that of a
newer one, and leaves the chart when it is older. -/
theorem shows_handleBar (h : Feed isFinite feed) {bars : List (Bar F)} {s : ChartState F}
    (hs : Shows feed bars s) {b : Bar F} (hb : feed b) :
    Shows feed (viewBar bars b) (handleBar isFinite s b) := by
  obtain ⟨hcandles, hlastBar, hfeed, hinc⟩ := hs
  obtain ⟨bar, hbar, hnormal⟩ : ∃ bar, wsBar isFinite b = some bar ∧
      normalizeBar bar = some (candleOf b) := by
    unfold wsBar
    rw [if_pos ⟨(h.oneSecond b hb).positive, h.finite b hb⟩]
    refine ⟨_, rfl, ?_⟩
    simp [normalizeBar, candleOf]
  have hupdate := updateLastBar_candles hnormal s
  unfold handleBar
  rw [hbar]
  dsimp only
  rcases List.eq_nil_or_concat' bars with rfl | ⟨front, last, rfl⟩
  · rw [hlastBar] at hupdate
    rw [if_pos (by simp)] at hupdate
    obtain ⟨hseries, hlast⟩ := hupdate
    rw [hcandles] at hseries
    refine ⟨hseries, hlast, ?_, List.pairwise_singleton _ _⟩
    intro q hq
    rw [viewBar, List.getLast?_nil, List.mem_singleton] at hq
    exact hq ▸ hb
  · have hlastFeed : feed last := hfeed last (by simp)
    have hview : viewBar (front ++ [last]) b =
        if b.openTime = last.openTime then front ++ [b]
        else if last.openTime < b.openTime then front ++ [last] ++ [b] else front ++ [last] := by
      unfold viewBar
      rw [List.getLast?_concat, List.dropLast_concat]
    have hlt := h.second_lt_iff hlastFeed hb
    have hlt' := h.second_lt_iff hb hlastFeed
    have hlast? : s.lastBar = some (candleOf last) := by
      rw [hlastBar, List.map_append, List.map_singleton, List.getLast?_concat]
    have hseries? : s.candles = front.map candleOf ++ [candleOf last] := by
      rw [hcandles, List.map_append, List.map_singleton]
    have hupdateSeries : updateSeries s.candles (candleOf b) =
        if b.openTime / 1000 = last.openTime / 1000 then front.map candleOf ++ [candleOf b]
        else if last.openTime / 1000 < b.openTime / 1000 then
          front.map candleOf ++ [candleOf last] ++ [candleOf b]
        else front.map candleOf ++ [candleOf last] := by
      rw [hseries?]
      unfold updateSeries
      rw [List.getLast?_concat, List.dropLast_concat]
      rfl
    rw [hlast?] at hupdate
    obtain ⟨hfront, -, hbefore⟩ := List.pairwise_append.mp hinc
    rw [hview]
    have hmap : ∀ c : Bar F, (front ++ [c]).map candleOf = front.map candleOf ++ [candleOf c] :=
      fun c => by rw [List.map_append, List.map_singleton]
    have hfrontFeed : ∀ q ∈ front, feed q := fun q hq => hfeed q (List.mem_append_left _ hq)
    rcases lt_trichotomy (last.openTime / 1000) (b.openTime / 1000) with hsec | hsec | hsec
    · -- a newer bar
      have hopen : last.openTime < b.openTime := hlt.mp hsec
      rw [if_pos (not_older hsec.le)] at hupdate
      obtain ⟨hseries, hlast⟩ := hupdate
      rw [hupdateSeries, if_neg hsec.ne', if_pos hsec] at hseries
      rw [if_neg hopen.ne', if_pos hopen]
      refine ⟨?_, ?_, ?_, ?_⟩
      · rw [hseries, List.map_append, hmap, List.map_singleton]
      · rw [hlast, List.map_append, List.map_singleton, List.getLast?_concat]
      · intro q hq
        rcases List.mem_append.mp hq with hq | hq
        · exact hfeed q hq
        · rw [List.mem_singleton.mp hq]
          exact hb
      · rw [List.pairwise_append]
        refine ⟨hinc, List.pairwise_singleton _ _, ?_⟩
        intro q hq c hc
        rw [List.mem_singleton.mp hc]
        rcases List.mem_append.mp hq with hq | hq
        · exact (hbefore q hq last (by simp)).trans hopen
        · rw [List.mem_singleton.mp hq]
          exact hopen
    · -- the same bar
      have hopen : last.openTime = b.openTime := h.apart last b hlastFeed hb hsec
      rw [if_pos (not_older hsec.le)] at hupdate
      obtain ⟨hseries, hlast⟩ := hupdate
      rw [hupdateSeries, if_pos hsec.symm] at hseries
      rw [if_pos hopen.symm]
      refine ⟨?_, ?_, ?_, ?_⟩
      · rw [hseries, hmap]
      · rw [hlast, hmap, List.getLast?_concat]
      · intro q hq
        rcases List.mem_append.mp hq with hq | hq
        · exact hfrontFeed q hq
        · rw [List.mem_singleton.mp hq]
          exact hb
      · rw [List.pairwise_append]
        refine ⟨hfront, List.pairwise_singleton _ _, ?_⟩
        intro q hq c hc
        rw [List.mem_singleton.mp hc, ← hopen]
        exact hbefore q hq last (by simp)
    · -- an older one
      have hopen : b.openTime < last.openTime := hlt'.mp hsec
      rw [if_neg (older hsec)] at hupdate
      rw [hupdate, if_neg hopen.ne, if_neg hopen.not_gt]
      exact ⟨hcandles, hlastBar, hfeed, hinc⟩

/-- Every delivery of bars of the feed keeps the candles that are to be shown. -/
theorem shows_deliver (h : Feed isFinite feed) (sorter : CloseTimeSort F) {bars : List (Bar F)}
    {s : ChartState F} (hs : Shows feed bars s) {d : ChartDelivery F} (hd : FromFeed feed d) :
    Shows feed (view bars d) (deliver isFinite sorter s d) := by
  cases d with
  | poll frame limit => exact shows_poll h sorter hd bars s
  | ws new =>
      change ∀ b ∈ new, feed b at hd
      change Shows feed (new.foldl viewBar bars) (new.foldl (handleBar isFinite) s)
      induction new generalizing bars s with
      | nil => exact hs
      | cons b new ih =>
          exact ih (shows_handleBar h hs (hd b List.mem_cons_self)) fun q hq =>
            hd q (List.mem_cons_of_mem b hq)

theorem shows_run (h : Feed isFinite feed) (sorter : CloseTimeSort F) (ds : List (ChartDelivery F))
    (hds : ∀ d ∈ ds, FromFeed feed d) {bars : List (Bar F)} {s : ChartState F}
    (hs : Shows feed bars s) :
    Shows feed (ds.foldl view bars) (ds.foldl (deliver isFinite sorter) s) := by
  induction ds generalizing bars s with
  | nil => exact hs
  | cons d ds ih =>
      exact ih (fun e he => hds e (List.mem_cons_of_mem d he))
        (shows_deliver h sorter hs (hds d List.mem_cons_self))

theorem shows_created : Shows feed [] (created (F := F)) :=
  ⟨rfl, rfl, fun b hb => (by cases hb), List.Pairwise.nil⟩

variable (isFinite) in
/-- A bar has one time on both ways exactly where it opens and closes in one second (after the
first 10^12 milliseconds). For bars like that, no two of them in one second, every mix of
polled datasets and complete bars leaves one candle for each bar that is to be shown. -/
theorem chart_time_iff (sorter : CloseTimeSort F) :
    (∀ b : Bar F, finitePrices isFinite b = true → b.openTime < b.closeTime →
      (httpTime isFinite b = wsTime isFinite b ↔ OneSecond b)) ∧
    ∀ feed : Bar F → Prop, Feed isFinite feed →
      ∀ ds : List (ChartDelivery F), (∀ d ∈ ds, FromFeed feed d) →
        (ds.foldl (deliver isFinite sorter) created).candles =
            (ds.foldl view []).map candleOf ∧
          (ds.foldl view []).Pairwise fun a b => a.openTime < b.openTime := by
  constructor
  · intro b hfinite hspan
    exact httpTime_eq_wsTime_iff hfinite hspan
  · intro feed h ds hds
    have hshows := shows_run h sorter ds hds shows_created
    exact ⟨hshows.candles, hshows.increasing⟩

/-- A bar within one second, polled and then delivered once more. -/
def shortBar : Bar ℚ := ⟨1764002100000, 2, 3, 1, 2, 5, 1764002100999, none⟩

theorem short_bar_is_shown_once :
    httpTime (fun _ => true) shortBar = wsTime (fun _ => true) shortBar ∧
      ([.poll [shortBar] 10, .ws [shortBar]].foldl
          (deliver (fun _ => true) ⟨sortBy Bar.closeTime, sortBy_perm _, sortBy_pairwise _⟩)
          created).candles = [⟨1764002100, 2, 3, 1, 2⟩] := by
  have hsecond : OneSecond shortBar := ⟨by decide, by decide, by decide⟩
  have h := chart_time_iff (fun _ : ℚ => true)
    ⟨sortBy Bar.closeTime, sortBy_perm _, sortBy_pairwise _⟩
  constructor
  · exact (h.1 shortBar rfl (by decide)).mpr hsecond
  · apply (h.2 (fun b => b = shortBar) ⟨?_, ?_, ?_⟩ _ ?_).1
    · rintro b rfl
      rfl
    · rintro b rfl
      exact hsecond
    · rintro a b rfl rfl -
      rfl
    · intro d hd
      rcases List.mem_cons.mp hd with rfl | hd
      · exact ⟨fun b hb => List.mem_singleton.mp hb, List.pairwise_singleton _ _⟩
      · rw [List.mem_singleton.mp hd]
        exact fun b hb => List.mem_singleton.mp hb

end SmcPipeline.ChartTimes
