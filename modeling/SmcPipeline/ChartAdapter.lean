import SmcPipeline.KeyedRows
import Mathlib.Data.Rat.Floor

/-!
# The chart controller

`setBars`, `updateLastBar`, `setLiveBar`, `clearLiveBar` and `clearAll` of
`UI_v2/web_client/chart_adapter.js`, on the candles: the series of complete candles and of
the live one, the last bar, and the dataset with its times. Volumes, colours, price lines and
the viewport are left out; none of them is read for a candle.
-/

namespace SmcPipeline

/-- A bar as it is handed to the chart; the time is missing where it is not finite. -/
structure ChartBar (F : Type*) where
  time : Option ℚ
  opn : F
  high : F
  low : F
  close : F

structure ChartCandle (F : Type*) where
  time : ℤ
  opn : F
  high : F
  low : F
  close : F
deriving DecidableEq, Repr

structure ChartState (F : Type*) where
  candles : List (ChartCandle F)
  liveCandles : List (ChartCandle F)
  lastBar : Option (ChartCandle F)
  lastLiveBar : Option (ChartCandle F)
  lastCandleDataset : List (ChartCandle F)
  lastCandleTimes : List ℤ
deriving DecidableEq, Repr

namespace ChartAdapter

open KeyedRows

variable {F : Type*}

/-- The chart when it is created. -/
def created : ChartState F := ⟨[], [], none, none, [], []⟩

/-- `normalizeBar` -/
def normalizeBar (bar : ChartBar F) : Option (ChartCandle F) :=
  bar.time.map fun time => ⟨⌊time⌋, bar.opn, bar.high, bar.low, bar.close⟩

/-- `series.update` of the chart library: the last candle is replaced or a later one is
appended. An earlier one is an error. -/
def updateSeries (series : List (ChartCandle F)) (candle : ChartCandle F) : List (ChartCandle F) :=
  match series.getLast? with
  | none => [candle]
  | some last =>
    if candle.time = last.time then series.dropLast ++ [candle]
    else if last.time < candle.time then series ++ [candle]
    else series

def clearLiveBar (s : ChartState F) : ChartState F :=
  { s with liveCandles := [], lastLiveBar := none }

def setBars (bars : List (ChartBar F)) (s : ChartState F) : ChartState F :=
  if bars = [] then ⟨[], [], none, none, [], []⟩
  else
    let candleData := sortBy ChartCandle.time (bars.filterMap normalizeBar)
    let s' : ChartState F :=
      { s with
        candles := candleData
        lastBar := candleData.getLast?
        lastCandleDataset := candleData
        lastCandleTimes := candleData.map ChartCandle.time }
    match s'.lastLiveBar, s'.lastBar with
    | some live, some last => if live.time < last.time then clearLiveBar s' else s'
    | _, _ => s'

def setLiveBar (bar : ChartBar F) (s : ChartState F) : ChartState F :=
  match normalizeBar bar with
  | none => s
  | some candle =>
    let liveCandles := match s.lastLiveBar with
      | none => [candle]
      | some live =>
        if candle.time ≠ live.time then [candle] else updateSeries s.liveCandles candle
    { s with liveCandles := liveCandles, lastLiveBar := some candle }

/-- The part of `updateLastBar` on the dataset and its times. -/
def updateDataset (candle : ChartCandle F) (s : ChartState F) : ChartState F :=
  match s.lastCandleDataset.getLast? with
  | none => { s with lastCandleDataset := [candle], lastCandleTimes := [candle.time] }
  | some prev =>
    if candle.time = prev.time then
      { s with
        lastCandleDataset := s.lastCandleDataset.dropLast ++ [candle]
        lastCandleTimes :=
          if s.lastCandleTimes = [] then [] else s.lastCandleTimes.dropLast ++ [candle.time] }
    else if prev.time < candle.time then
      { s with
        lastCandleDataset := s.lastCandleDataset ++ [candle]
        lastCandleTimes := s.lastCandleTimes ++ [candle.time] }
    else s

def updateLastBar (bar : ChartBar F) (s : ChartState F) : ChartState F :=
  match normalizeBar bar with
  | none => s
  | some candle =>
    let late := match s.lastBar with
      | none => true
      | some last => decide (last.time ≤ candle.time)
    if late then
      updateDataset candle
        { s with candles := updateSeries s.candles candle, lastBar := some candle }
    else s

/-- The dataset and its times are kept. -/
def clearAll (s : ChartState F) : ChartState F :=
  { s with candles := [], liveCandles := [], lastBar := none, lastLiveBar := none }

@[simp] theorem candles_clearLiveBar (s : ChartState F) : (clearLiveBar s).candles = s.candles := rfl

@[simp] theorem lastBar_clearLiveBar (s : ChartState F) : (clearLiveBar s).lastBar = s.lastBar := rfl

@[simp] theorem candles_updateDataset (candle : ChartCandle F) (s : ChartState F) :
    (updateDataset candle s).candles = s.candles := by
  unfold updateDataset
  split
  · rfl
  · split_ifs <;> rfl

@[simp] theorem lastBar_updateDataset (candle : ChartCandle F) (s : ChartState F) :
    (updateDataset candle s).lastBar = s.lastBar := by
  unfold updateDataset
  split
  · rfl
  · split_ifs <;> rfl

/-- The series and the last bar after `setBars`. -/
theorem setBars_candles (bars : List (ChartBar F)) (s : ChartState F) :
    (setBars bars s).candles = sortBy ChartCandle.time (bars.filterMap normalizeBar) ∧
      (setBars bars s).lastBar =
        (sortBy ChartCandle.time (bars.filterMap normalizeBar)).getLast? := by
  unfold setBars
  split_ifs with hempty
  · rw [hempty]
    exact ⟨rfl, rfl⟩
  · dsimp only
    split
    · split_ifs <;> exact ⟨rfl, rfl⟩
    · exact ⟨rfl, rfl⟩

/-- A bar that is not older than the last one is written, any other is dropped. -/
theorem updateLastBar_candles {bar : ChartBar F} {candle : ChartCandle F}
    (hbar : normalizeBar bar = some candle) (s : ChartState F) :
    if ∀ last ∈ s.lastBar, last.time ≤ candle.time then
      (updateLastBar bar s).candles = updateSeries s.candles candle ∧
        (updateLastBar bar s).lastBar = some candle
    else updateLastBar bar s = s := by
  unfold updateLastBar
  rw [hbar]
  cases hlast : s.lastBar with
  | none => simp
  | some last => by_cases hle : last.time ≤ candle.time <;> simp [hle]

end ChartAdapter

end SmcPipeline
