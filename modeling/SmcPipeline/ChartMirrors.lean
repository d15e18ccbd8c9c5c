import SmcPipeline.ChartAdapter
import SmcPipeline.Runs
import SmcPipeline.SortedSearch
import Mathlib.Algebra.Order.Ring.Int
import Mathlib.Algebra.Order.Field.Rat

/-!
# The mirrors of the candle series

The chart controller keeps by hand the dataset of the candle series, its times and its last
bar. `setBars` restores them from any state and the other calls carry them on, so that the
marker of an event is placed on a bar nearest to it. `clearAll` empties the series and the
last bar only; what follows is about the calls since the last `setBars` among which no chart
with candles is cleared.
-/

namespace SmcPipeline

/-- The candles of the controller with the span of a bar, which is an estimate. -/
structure ChartController (F : Type*) where
  chart : ChartState F
  barTimeSpanSeconds : ℤ

namespace ChartMirrors

open ChartAdapter KeyedRows Runs SortedSearch

variable {F : Type*}

inductive Call (F : Type*)
  | setBars (bars : List (ChartBar F))
  | updateLastBar (bar : ChartBar F)
  | setLiveBar (bar : ChartBar F)
  | clearLiveBar
  | clearAll

/-- `Math.round` -/
def mathRound (x : ℚ) : ℤ := ⌊x + 1 / 2⌋

/-- The loop of `updateBarTimeSpanFromBars`, on the bars from the last one back. -/
def sumSpans : List (ChartCandle F) → ℤ → ℕ → ℤ × ℕ
  | later :: earlier :: rest, total, count =>
    if count < 32 then
      let diff := later.time - earlier.time
      if 0 < diff then sumSpans (earlier :: rest) (total + diff) (count + 1)
      else sumSpans (earlier :: rest) total count
    else (total, count)
  | _, total, count => (total, count)

def updateBarTimeSpanFromBars (bars : List (ChartCandle F)) (span : ℤ) : ℤ :=
  let (total, count) := sumSpans bars.reverse 0 0
  if count = 0 then span else max 1 (mathRound (total / count))

namespace Call

def chart : Call F → ChartState F → ChartState F
  | setBars bars => ChartAdapter.setBars bars
  | updateLastBar bar => ChartAdapter.updateLastBar bar
  | setLiveBar bar => ChartAdapter.setLiveBar bar
  | clearLiveBar => ChartAdapter.clearLiveBar
  | clearAll => ChartAdapter.clearAll

/-- What the call makes of the span of a bar, on the chart before it. -/
def span : Call F → ChartState F → ℤ → ℤ
  | setBars bars, s, span => updateBarTimeSpanFromBars (ChartAdapter.setBars bars s).candles span
  | updateLastBar bar, s, span =>
    match normalizeBar bar, s.lastBar with
    | some candle, some last =>
      if last.time < candle.time then
        max 1 (mathRound ((span * 3 + (candle.time - last.time) : ℤ) / 4))
      else span
    | _, _ => span
  | _, _, span => span

def apply (call : Call F) (c : ChartController F) : ChartController F :=
  ⟨call.chart c.chart, call.span c.chart c.barTimeSpanSeconds⟩

end Call

/-- The controller when it is created. -/
def fresh : ChartController F := ⟨created, 60⟩

def runCalls (calls : List (Call F)) : ChartController F :=
  calls.foldl (fun c call => call.apply c) fresh

/-- `toUnixSeconds`, on the number of the value; it is missing where it is not finite. -/
def toUnixSeconds (num : Option ℚ) : Option ℤ :=
  num.map fun num => ⌊num / (if 1000000000000 < num then 1000 else 1)⌋

/-- One and a half spans of a bar. -/
def maxDiff (c : ChartController F) : ℚ :=
  max 1 (if c.barTimeSpanSeconds = 0 then 60 else (c.barTimeSpanSeconds : ℚ)) * (3 / 2)

def snapToNearestBarTime (c : ChartController F) (timeSec : Option ℚ) : Option ℤ :=
  timeSec.bind fun timeSec =>
    let times := c.chart.lastCandleTimes
    let target := ⌊timeSec⌋
    if times = [] then some target
    else
      (beside times target (lowerBound times target 0 times.length)).bind fun pick =>
        if maxDiff c < |((pick - target : ℤ) : ℚ)| then none else some pick

/-- The time at which `setEvents` places the marker of an event. -/
def markerTime (c : ChartController F) (time : Option ℚ) : Option ℤ :=
  (toUnixSeconds time).bind fun time => snapToNearestBarTime c (some time)

/-- The dataset, its times and the last bar are those of the series. -/
structure Mirrored (s : ChartState F) : Prop where
  dataset : s.lastCandleDataset = s.candles
  times : s.lastCandleTimes = s.candles.map ChartCandle.time
  last : s.lastBar = s.candles.getLast?

/-- The candles in the order of their seconds. -/
def InOrder (R : ℤ → ℤ → Prop) (s : ChartState F) : Prop :=
  s.candles.Pairwise fun a b => R a.time b.time

/-- The bars are of different seconds. -/
def DistinctSeconds (bars : List (ChartBar F)) : Prop :=
  ((bars.filterMap normalizeBar).map ChartCandle.time).Nodup

theorem getLast?_updateSeries {series : List (ChartCandle F)} {candle : ChartCandle F}
    (hlate : ∀ last ∈ series.getLast?, last.time ≤ candle.time) :
    (updateSeries series candle).getLast? = some candle := by
  unfold updateSeries
  cases hlast : series.getLast? with
  | none => rfl
  | some last =>
      have hle : last.time ≤ candle.time := hlate last hlast
      dsimp only
      split_ifs with heq hlt
      · exact List.getLast?_concat
      · exact List.getLast?_concat
      · omega

theorem pairwise_updateSeries {R : ℤ → ℤ → Prop} (hlt : ∀ a b, a < b → R a b)
    (hle : ∀ a b, R a b → a ≤ b) {series : List (ChartCandle F)} (candle : ChartCandle F)
    (hseries : series.Pairwise fun a b => R a.time b.time) :
    (updateSeries series candle).Pairwise fun a b => R a.time b.time := by
  rcases List.eq_nil_or_concat' series with rfl | ⟨front, last, rfl⟩
  · exact List.pairwise_singleton _ _
  obtain ⟨hfront, -, hlast⟩ := List.pairwise_append.mp hseries
  unfold updateSeries
  rw [List.getLast?_concat, List.dropLast_concat]
  dsimp only
  split_ifs with hsame hlater
  · refine List.pairwise_append.mpr ⟨hfront, List.pairwise_singleton _ _, fun a ha b hb => ?_⟩
    rw [List.mem_singleton.mp hb, hsame]
    exact hlast a ha last (List.mem_singleton_self last)
  · refine List.pairwise_append.mpr ⟨hseries, List.pairwise_singleton _ _, fun a ha b hb => ?_⟩
    rw [List.mem_singleton.mp hb]
    rcases List.mem_append.mp ha with ha | ha
    · exact hlt _ _ ((hle _ _ (hlast a ha last (List.mem_singleton_self last))).trans_lt hlater)
    · rw [List.mem_singleton.mp ha]
      exact hlt _ _ hlater
  · exact hseries

/-- The dataset is written as the series is. -/
theorem lastCandleDataset_updateDataset (candle : ChartCandle F) (s : ChartState F) :
    (updateDataset candle s).lastCandleDataset = updateSeries s.lastCandleDataset candle := by
  unfold updateDataset updateSeries
  split
  · rfl
  · split_ifs <;> rfl

theorem lastCandleTimes_updateDataset {candle : ChartCandle F} {s : ChartState F}
    (h : s.lastCandleTimes = s.lastCandleDataset.map ChartCandle.time) :
    (updateDataset candle s).lastCandleTimes =
      (updateSeries s.lastCandleDataset candle).map ChartCandle.time := by
  unfold updateDataset updateSeries
  rcases List.eq_nil_or_concat' s.lastCandleDataset with hnil | ⟨front, last, hconcat⟩
  · rw [hnil]
    rfl
  · rw [h, hconcat, List.getLast?_concat]
    dsimp only
    split_ifs with hsame hnil hlater
    · simp at hnil
    · simp
    · simp
    · rw [h, hconcat]

/-- `setBars` restores the mirrors from any state. -/
theorem mirrored_setBars (bars : List (ChartBar F)) (s : ChartState F) :
    Mirrored (setBars bars s) := by
  unfold setBars
  split_ifs
  · exact ⟨rfl, rfl, rfl⟩
  · dsimp only
    split
    · split_ifs <;> exact ⟨rfl, rfl, rfl⟩
    · exact ⟨rfl, rfl, rfl⟩

theorem mirrored_updateLastBar (bar : ChartBar F) {s : ChartState F} (h : Mirrored s) :
    Mirrored (updateLastBar bar s) := by
  unfold updateLastBar
  cases normalizeBar bar with
  | none => exact h
  | some candle =>
      dsimp only
      split_ifs with hlate
      · have htimes : s.lastCandleTimes = s.lastCandleDataset.map ChartCandle.time := by
          rw [h.dataset, h.times]
        refine ⟨?_, ?_, ?_⟩
        · rw [lastCandleDataset_updateDataset, candles_updateDataset, h.dataset]
        · refine (lastCandleTimes_updateDataset (s := { s with
            candles := updateSeries s.candles candle, lastBar := some candle }) htimes).trans ?_
          rw [candles_updateDataset, h.dataset]
        · rw [lastBar_updateDataset, candles_updateDataset, getLast?_updateSeries]
          intro last hlast
          rw [h.last, hlast] at hlate
          exact of_decide_eq_true hlate
      · exact h

/-- Clearing the chart leaves the mirrors right where there was nothing to clear. -/
theorem mirrored_clearAll_iff {s : ChartState F} (h : Mirrored s) :
    Mirrored (clearAll s) ↔ s.candles = [] := by
  constructor
  · intro hcleared
    rw [← h.dataset]
    exact hcleared.dataset
  · intro hempty
    exact ⟨h.dataset.trans hempty, by rw [clearAll, h.times, hempty], rfl⟩

/-- The calls since the last `setBars`, none of which clears a chart with candles. -/
def Keeps (c : ChartController F) : Call F → Prop
  | .setBars _ => False
  | .clearAll => c.chart.candles = []
  | _ => True

def step (c : ChartController F) (call : Call F) : Option (ChartController F) :=
  some (call.apply c)

theorem setLiveBar_candles (bar : ChartBar F) (s : ChartState F) :
    (setLiveBar bar s).candles = s.candles ∧ (setLiveBar bar s).lastBar = s.lastBar ∧
      (setLiveBar bar s).lastCandleDataset = s.lastCandleDataset ∧
      (setLiveBar bar s).lastCandleTimes = s.lastCandleTimes := by
  unfold setLiveBar
  cases normalizeBar bar <;> exact ⟨rfl, rfl, rfl, rfl⟩

theorem mirrored_call {c : ChartController F} {call : Call F} (hkeeps : Keeps c call)
    (h : Mirrored c.chart) : Mirrored (call.chart c.chart) := by
  cases call with
  | setBars bars => exact mirrored_setBars bars c.chart
  | updateLastBar bar => exact mirrored_updateLastBar bar h
  | setLiveBar bar =>
      obtain ⟨hcandles, hlast, hdataset, htimes⟩ := setLiveBar_candles bar c.chart
      exact ⟨hdataset.trans (h.dataset.trans hcandles.symm),
        htimes.trans (h.times.trans (by rw [Call.chart, hcandles])),
        hlast.trans (h.last.trans (by rw [Call.chart, hcandles]))⟩
  | clearLiveBar => exact ⟨h.dataset, h.times, h.last⟩
  | clearAll => exact (mirrored_clearAll_iff h).mpr hkeeps

theorem inOrder_updateLastBar {R : ℤ → ℤ → Prop} (hlt : ∀ a b, a < b → R a b)
    (hle : ∀ a b, R a b → a ≤ b) (bar : ChartBar F) {s : ChartState F} (h : InOrder R s) :
    InOrder R (updateLastBar bar s) := by
  unfold updateLastBar
  cases normalizeBar bar with
  | none => exact h
  | some candle =>
      dsimp only
      split_ifs
      · unfold InOrder
        rw [candles_updateDataset]
        exact pairwise_updateSeries hlt hle candle h
      · exact h

theorem inOrder_call {R : ℤ → ℤ → Prop} (hlt : ∀ a b, a < b → R a b)
    (hle : ∀ a b, R a b → a ≤ b) {c : ChartController F} {call : Call F} (hkeeps : Keeps c call)
    (h : InOrder R c.chart) : InOrder R (call.chart c.chart) := by
  cases call with
  | setBars bars => exact hkeeps.elim
  | updateLastBar bar => exact inOrder_updateLastBar hlt hle bar h
  | setLiveBar bar =>
      unfold InOrder
      rw [Call.chart, (setLiveBar_candles bar c.chart).1]
      exact h
  | clearLiveBar => exact h
  | clearAll => exact List.Pairwise.nil

/-- Over a run since the last `setBars` the mirrors and the order are kept. -/
theorem run_mirrored {R : ℤ → ℤ → Prop} (hlt : ∀ a b, a < b → R a b)
    (hle : ∀ a b, R a b → a ≤ b) {c d : ChartController F} {calls : List (Call F)}
    (hrun : Run step Keeps c calls d) (h : Mirrored c.chart ∧ InOrder R c.chart) :
    Mirrored d.chart ∧ InOrder R d.chart := by
  refine Run.invariant (I := fun c => Mirrored c.chart ∧ InOrder R c.chart) ?_ hrun h
  intro c call d hc hkeeps hstep
  obtain rfl : call.apply c = d := Option.some.inj hstep
  exact ⟨mirrored_call hkeeps hc.1, inOrder_call hlt hle hkeeps hc.2⟩

theorem inOrder_setBars (bars : List (ChartBar F)) (s : ChartState F) :
    InOrder (· ≤ ·) (setBars bars s) := by
  unfold InOrder
  rw [(setBars_candles bars s).1]
  exact sortBy_pairwise ChartCandle.time _

theorem strictlyInOrder_setBars {bars : List (ChartBar F)} (h : DistinctSeconds bars)
    (s : ChartState F) : InOrder (· < ·) (setBars bars s) := by
  have hperm := (sortBy_perm ChartCandle.time (bars.filterMap normalizeBar)).map ChartCandle.time
  have hne := List.pairwise_map.mp (hperm.nodup_iff.mpr h)
  unfold InOrder
  rw [(setBars_candles bars s).1]
  exact (sortBy_pairwise ChartCandle.time _).imp₂ (fun _ _ => lt_of_le_of_ne) hne

/-- The chart as it is created, without bars, or after a `setBars` of the bars among any calls. -/
def Filled (bars : List (ChartBar F)) (c : ChartController F) : Prop :=
  bars = [] ∧ c = fresh ∨ ∃ calls, c = (Call.setBars bars).apply (runCalls calls)

theorem Filled.chart_eq {bars : List (ChartBar F)} {c : ChartController F} (h : Filled bars c) :
    ∃ s, c.chart = setBars bars s := by
  rcases h with ⟨rfl, rfl⟩ | ⟨calls, rfl⟩
  · exact ⟨created, rfl⟩
  · exact ⟨(runCalls calls).chart, rfl⟩

/-- Where there are bars, a marker is placed on a bar nearest to the event, or dropped when that
bar is farther than one and a half spans. -/
theorem markerTime_eq {c : ChartController F} (hmirrored : Mirrored c.chart)
    (horder : InOrder (· ≤ ·) c.chart) {time : Option ℚ} {sec : ℤ}
    (hsec : toUnixSeconds time = some sec) (hbars : c.chart.candles ≠ []) :
    ∃ near, IsNearest (c.chart.candles.map ChartCandle.time) sec near ∧
      markerTime c time = if maxDiff c < |((near - sec : ℤ) : ℚ)| then none else some near := by
  have hsorted : (c.chart.candles.map ChartCandle.time).Pairwise (· ≤ ·) :=
    List.pairwise_map.mpr horder
  have htimes : c.chart.candles.map ChartCandle.time ≠ [] := List.map_eq_nil_iff.not.mpr hbars
  obtain ⟨near, hnear, hnearest⟩ :=
    beside_nearest hsorted (cuts_lowerBound_whole sec hsorted) htimes
  refine ⟨near, hnearest, ?_⟩
  rw [markerTime, hsec, Option.bind_some, snapToNearestBarTime, Option.bind_some]
  dsimp only
  rw [Int.floor_intCast, hmirrored.times, if_neg htimes, hnear, Option.bind_some]

/-- Since the last `setBars`, as long as no chart with candles is cleared, the mirrors are those of
the series, in order. The marker of an event is placed on a nearest bar or dropped. -/
theorem chart_mirrored {bars : List (ChartBar F)} {c d : ChartController F}
    {calls : List (Call F)} (hfilled : Filled bars c) (hrun : Run step Keeps c calls d) :
    Mirrored d.chart ∧ d.chart.lastCandleTimes.Pairwise (· ≤ ·) ∧
      (DistinctSeconds bars → d.chart.lastCandleTimes.Pairwise (· < ·)) ∧
      ∀ time, match toUnixSeconds time with
        | none => markerTime d time = none
        | some sec =>
          if d.chart.candles = [] then markerTime d time = some sec
          else ∃ near, IsNearest (d.chart.candles.map ChartCandle.time) sec near ∧
            markerTime d time =
              if maxDiff d < |((near - sec : ℤ) : ℚ)| then none else some near := by
  obtain ⟨s, hs⟩ := hfilled.chart_eq
  have hmirrored : Mirrored c.chart := hs ▸ mirrored_setBars bars s
  have horder : InOrder (· ≤ ·) c.chart := hs ▸ inOrder_setBars bars s
  obtain ⟨hd, hle⟩ := run_mirrored (fun _ _ => le_of_lt) (fun _ _ => id) hrun ⟨hmirrored, horder⟩
  refine ⟨hd, ?_, fun hdistinct => ?_, fun time => ?_⟩
  · rw [hd.times]
    exact List.pairwise_map.mpr hle
  · have hstrict : InOrder (· < ·) c.chart := hs ▸ strictlyInOrder_setBars hdistinct s
    rw [hd.times]
    exact List.pairwise_map.mpr
      (run_mirrored (fun _ _ => id) (fun _ _ => le_of_lt) hrun ⟨hmirrored, hstrict⟩).2
  · cases hsec : toUnixSeconds time with
    | none => rw [markerTime, hsec, Option.bind_none]
    | some sec =>
        dsimp only
        split_ifs with hempty
        · rw [markerTime, hsec, Option.bind_some, snapToNearestBarTime, Option.bind_some]
          dsimp only
          rw [Int.floor_intCast, hd.times, hempty]
          rfl
        · exact markerTime_eq hd hle hsec hempty

section FixedInputs

/-- A bar that closes where it opens. -/
def flatBar (time price : ℚ) : ChartBar ℚ := ⟨some time, price, price, price, price⟩

/-- A bar at one minute and then the next one. -/
def appended : ChartController ℚ :=
  runCalls [.setBars [flatBar 60 1], .updateLastBar (flatBar 120 1)]

theorem appended_bar_mirrored :
    Mirrored appended.chart ∧ appended.chart.lastCandleTimes.Pairwise (· < ·) := by
  have hfilled : Filled [flatBar 60 1] (runCalls [.setBars [flatBar 60 1]]) := Or.inr ⟨[], rfl⟩
  have hrun : Run step Keeps (runCalls [.setBars [flatBar 60 1]]) [.updateLastBar (flatBar 120 1)]
      appended := .cons trivial rfl (.nil _)
  obtain ⟨hmirrored, -, hstrict, -⟩ := chart_mirrored hfilled hrun
  exact ⟨hmirrored, hstrict (List.nodup_singleton _)⟩

/-- Two bars of one second stand twice in the times. On a chart without bars the marker of an event
is placed at its own second. -/
theorem twin_bars_and_empty_chart :
    ¬(runCalls [.setBars [flatBar 60 1, flatBar 60 2]]).chart.lastCandleTimes.Pairwise (· < ·) ∧
      (fresh : ChartController ℚ).chart.candles = [] ∧
        markerTime (fresh : ChartController ℚ) (some 90) = some 90 := by
  refine ⟨by decide, rfl, ?_⟩
  norm_num [markerTime, toUnixSeconds, snapToNearestBarTime, fresh, created]

end FixedInputs

end ChartMirrors

end SmcPipeline
