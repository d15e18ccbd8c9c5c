import SmcPipeline.LiquidityPools
import SmcPipeline.OrderedDict
import SmcPipeline.Rounding

/-!
# Sweeps and wicks

`detect_sfp_and_wicks` of `smc_liquidity/sfp_wick.py`. Every bar is held against every level
of the structure: a bar that breaks a level and closes back inside is recorded once a level,
and any other bar with a long wick at the level is counted. The state of the two loops is
what is recorded so far.
-/

namespace SmcPipeline

/-- `_level_key`: levels that agree to four decimals share a key. -/
structure LevelKey (K : Type*) where
  source : LevelSource
  side : SwingKind
  rounded : Option K
deriving DecidableEq, Repr

/-- `_LevelInfo` -/
structure LevelInfo (K : Type*) where
  level : Option K
  side : SwingKind
  source : LevelSource
  key : LevelKey K
deriving DecidableEq, Repr

/-- An entry of `sfp_events`. -/
structure SfpEvent (K : Type*) where
  level : Option K
  side : SwingKind
  time : ℤ
  close : Option K
  source : LevelSource
deriving DecidableEq, Repr

/-- An entry of `wick_clusters`. -/
structure WickCluster (K : Type*) where
  level : Option K
  side : SwingKind
  source : LevelSource
  count : ℕ
  maxWick : K
  firstTs : ℤ
  lastTs : ℤ
deriving DecidableEq, Repr

/-- What the loops have recorded. -/
structure SweepState (K : Type*) where
  sfpEvents : List (SfpEvent K)
  sfpRecorded : List (LevelKey K)
  wickClusters : OrderedDict (LevelKey K) (WickCluster K)

namespace Sweeps

open Candles Swings OrderBlocks KeyedRows LiquidityPools Rounding

variable {K : Type*} [Field K] [LinearOrder K]

def SweepState.start : SweepState K := ⟨[], [], OrderedDict.empty⟩

section

variable [FloorRing K]

def levelInfo (level : Option K) (side : SwingKind) (source : LevelSource) : LevelInfo K :=
  ⟨level, side, source, ⟨source, side, level.map (roundTo 4)⟩⟩

/-- `_collect_levels` -/
def collectLevels (st : RangedStructureState K) : List (LevelInfo K) :=
  let swingLevels := st.swings.map fun s => levelInfo (some s.price) s.kind .swing
  let rangeLevels := match st.activeRange with
    | none => []
    | some range => [levelInfo range.high .high .range, levelInfo range.low .low .range]
  keepFirst LevelInfo.key (swingLevels ++ rangeLevels)

end

/-- `max(level.level * break_pct, MIN_BREAK_PCT)` -/
def priceTol (breakPct : K) (level : LevelInfo K) : Option K :=
  pyMax (level.level.map (· * breakPct)) (some (ratio 2 1000))

/-- The bar breaks the level and closes back inside. -/
def isSweep (breakPct : K) (row : Candle K) (level : LevelInfo K) : Bool :=
  match level.side with
  | .high =>
    atMost (Option.map₂ (fun a b : K => a + b) level.level (priceTol breakPct level)) row.high &&
      less row.close level.level
  | .low =>
    atMost row.low (Option.map₂ (fun a b : K => a - b) level.level (priceTol breakPct level)) &&
      less level.level row.close

/-- The wick on the side of the level, if it is long and ends near the level. -/
def wickAt (breakPct : K) (row : Candle K) (level : LevelInfo K) : Option K :=
  let sub := Option.map₂ fun a b : K => a - b
  let dist := Option.map₂ fun a b : K => |a - b|
  let body := pyMax (dist row.close row.opn) (some (ratio 1 1000000))
  let upperWick := pyMax (sub row.high (pyMax row.opn row.close)) (some 0)
  let lowerWick := pyMax (sub (pyMin row.opn row.close) row.low) (some 0)
  let wick := match level.side with
    | .high => upperWick
    | .low => lowerWick
  let extreme := match level.side with
    | .high => row.high
    | .low => row.low
  if atMost (body.map (· * ratio 25 10)) wick &&
      atMost (dist level.level extreme) (priceTol breakPct level) then wick
  else none

/-- `_collect_wick` -/
def collectWick (clusters : OrderedDict (LevelKey K) (WickCluster K)) (level : LevelInfo K)
    (ts : ℤ) (wickSize : K) : OrderedDict (LevelKey K) (WickCluster K) :=
  let cluster := (clusters.get? level.key).getD
    ⟨level.level, level.side, level.source, 0, 0, ts, ts⟩
  clusters.set level.key
    { cluster with count := cluster.count + 1, maxWick := max cluster.maxWick wickSize, lastTs := ts }

/-- One round of the inner loop. -/
def visitLevel (breakPct : K) (row : Candle K) (s : SweepState K) (level : LevelInfo K) :
    SweepState K :=
  if isSweep breakPct row level && !s.sfpRecorded.contains level.key then
    { s with
      sfpEvents := s.sfpEvents ++ [⟨level.level, level.side, row.time, row.close, level.source⟩]
      sfpRecorded := s.sfpRecorded ++ [level.key] }
  else
    match wickAt breakPct row level with
    | none => s
    | some wick => { s with wickClusters := collectWick s.wickClusters level row.time wick }

/-- One round of the outer loop. -/
def visitRow (breakPct : K) (levels : List (LevelInfo K)) (s : SweepState K) (row : Candle K) :
    SweepState K := levels.foldl (visitLevel breakPct row) s

/-- Both loops. -/
def visitRows (breakPct : K) (levels : List (LevelInfo K)) (rows : List (Candle K)) :
    SweepState K := rows.foldl (visitRow breakPct levels) SweepState.start

def sfpPool (bias : Bias) (event : SfpEvent K) : SmcLiquidityPool K :=
  { level := event.level
    liqType := .sfp
    strength := some 1
    nTouches := 1
    firstTime := some event.time
    lastTime := some event.time
    role := resolveRoleForBias bias .sfp (some event.side)
    sourceSwings := []
    details := .sfp event.side event.source }

def wickPool (bias : Bias) (cluster : WickCluster K) : SmcLiquidityPool K :=
  { level := cluster.level
    liqType := .wickCluster
    strength := some cluster.maxWick
    nTouches := cluster.count
    firstTime := some cluster.firstTs
    lastTime := some cluster.lastTs
    role := resolveRoleForBias bias .wickCluster (some cluster.side)
    sourceSwings := []
    details := .wickCluster cluster.side cluster.source cluster.count }

variable (cfg : SmcCoreConfig K)

/-- `break_pct` -/
def breakPctOf : K := max (toleranceOf cfg * ratio 25 100) (ratio 2 1000)

variable [FloorRing K]

/-- What `detect_sfp_and_wicks` finds: the pools it adds, the sweeps and the wicks. -/
def detectSfpAndWicks (snapshot : ContextInput K) (st : RangedStructureState K) :
    List (SmcLiquidityPool K) × List (SfpEvent K) × List (WickCluster K) :=
  if snapshot.hasPriceColumns then
    let found := visitRows (breakPctOf cfg) (collectLevels st)
      (prepared cfg.maxLookbackBars snapshot.frame)
    let wicks := found.wickClusters.items.map Prod.snd
    (found.sfpEvents.map (sfpPool st.bias) ++ wicks.map (wickPool st.bias), found.sfpEvents, wicks)
  else ([], [], [])

omit cfg [FloorRing K] in
/-- A level that is swept is a number, and so is the close that comes back. -/
theorem some_of_isSweep {breakPct : K} {row : Candle K} {level : LevelInfo K}
    (h : isSweep breakPct row level = true) :
    (∃ x, level.level = some x) ∧ ∃ x, row.close = some x := by
  unfold isSweep at h
  cases hside : level.side with
  | high =>
      simp only [hside, Bool.and_eq_true] at h
      exact (some_of_less h.2).symm
  | low =>
      simp only [hside, Bool.and_eq_true] at h
      exact some_of_less h.2

omit cfg [FloorRing K] in
/-- A wick is counted at a level that is a number. -/
theorem some_of_wickAt {breakPct : K} {row : Candle K} {level : LevelInfo K} {wick : K}
    (h : wickAt breakPct row level = some wick) : ∃ x, level.level = some x := by
  unfold wickAt at h
  dsimp only at h
  by_contra hnone
  have hlevel : level.level = none := by
    cases hlevel : level.level with
    | none => rfl
    | some x => exact absurd ⟨x, hlevel⟩ hnone
  rw [hlevel, Option.map₂_none_left, if_neg (by simp [atMost])] at h
  cases h

omit cfg [FloorRing K] in
/-- What every round keeps holds after both loops. -/
theorem visitRows_induct {P : SweepState K → Prop} (breakPct : K) (levels : List (LevelInfo K))
    (rows : List (Candle K)) (hstart : P SweepState.start)
    (hstep : ∀ s, P s → ∀ row, ∀ level ∈ levels, P (visitLevel breakPct row s level)) :
    P (visitRows breakPct levels rows) := by
  have hrow : ∀ row s, P s → ∀ ls : List (LevelInfo K), (∀ level ∈ ls, level ∈ levels) →
      P (ls.foldl (visitLevel breakPct row) s) := by
    intro row s hs ls hls
    induction ls generalizing s with
    | nil => exact hs
    | cons level ls ih =>
        exact ih _ (hstep s hs row level (hls level List.mem_cons_self))
          fun l hl => hls l (List.mem_cons_of_mem _ hl)
  unfold visitRows
  induction rows using List.reverseRecOn with
  | nil => exact hstart
  | append_singleton rows row ih =>
      rw [List.foldl_concat]
      exact hrow row _ ih levels fun _ hl => hl

end Sweeps

end SmcPipeline
