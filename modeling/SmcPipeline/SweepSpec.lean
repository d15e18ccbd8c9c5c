import SmcPipeline.Sweeps
import SmcPipeline.Extremes
import Mathlib.Data.Rat.Floor

/-!
# Sweeps and wicks, one level at a time

Levels have keys of their own, so the two loops of `detect_sfp_and_wicks` are as many
loops over the bars, one for each level. Such a loop records the first bar that sweeps
the level. Every other bar, a later sweep as well, can only be counted for its wick.
-/

namespace SmcPipeline.SweepSpec

open Candles OrderBlocks Sweeps Extremes

variable {K : Type*} [Field K] [LinearOrder K]

/-- What is recorded for one level. -/
structure LevelRecord (K : Type*) where
  swept : Bool
  events : List (SfpEvent K)
  cluster : Option (WickCluster K)

def eventOf (level : LevelInfo K) (row : Candle K) : SfpEvent K :=
  ⟨level.level, level.side, row.time, row.close, level.source⟩

def grow (level : LevelInfo K) (cluster : Option (WickCluster K)) (bar : ℤ × K) :
    WickCluster K :=
  let cluster := cluster.getD ⟨level.level, level.side, level.source, 0, 0, bar.1, bar.1⟩
  { cluster with
    count := cluster.count + 1, maxWick := max cluster.maxWick bar.2, lastTs := bar.1 }

def visit (breakPct : K) (level : LevelInfo K) (s : LevelRecord K) (row : Candle K) :
    LevelRecord K :=
  if isSweep breakPct row level && !s.swept then
    { s with swept := true, events := s.events ++ [eventOf level row] }
  else
    match wickAt breakPct row level with
    | none => s
    | some wick => { s with cluster := some (grow level s.cluster (row.time, wick)) }

/-- The times and lengths of the wicks, without the bar of the sweep. -/
def wickBars (breakPct : K) (level : LevelInfo K) (rows : List (Candle K)) : List (ℤ × K) :=
  (rows.eraseP fun row => isSweep breakPct row level).filterMap fun row =>
    (wickAt breakPct row level).map fun wick => (row.time, wick)

def clusterOf (level : LevelInfo K) (bars : List (ℤ × K)) : Option (WickCluster K) :=
  bars.foldl (fun cluster bar => some (grow level cluster bar)) none

theorem clusterOf_concat (level : LevelInfo K) (bars : List (ℤ × K)) (bar : ℤ × K) :
    clusterOf level (bars ++ [bar]) = some (grow level (clusterOf level bars) bar) :=
  List.foldl_concat ..

omit [Field K] [LinearOrder K] in
theorem filterMap_eraseP_concat {β : Type*} (p : Candle K → Bool) (f : Candle K → Option β)
    (rows : List (Candle K)) (row : Candle K) :
    ((rows ++ [row]).eraseP p).filterMap f = (rows.eraseP p).filterMap f ++
      if rows.any p = false ∧ p row = true then [] else (f row).toList := by
  have htail : [row].filterMap f = (f row).toList := by
    cases h : f row <;> simp [h]
  by_cases hany : rows.any p = true
  · obtain ⟨r, hr, hsweep⟩ := List.any_eq_true.mp hany
    rw [List.eraseP_append_left hsweep _ hr, List.filterMap_append, htail,
      if_neg (by simp [hany])]
  · have hnone : ∀ r ∈ rows, ¬ p r = true := fun r hr hp => hany (List.any_eq_true.mpr ⟨r, hr, hp⟩)
    rw [List.eraseP_append_right _ hnone, List.filterMap_append, List.eraseP_of_forall_not hnone,
      List.eraseP_cons]
    cases hrow : p row with
    | true => simp [hany]
    | false => simp [htail]

/-- A bar that is not recorded as the sweep. -/
theorem count_wick (breakPct : K) (level : LevelInfo K) (row : Candle K) (swept : Bool)
    (events : List (SfpEvent K)) (bars : List (ℤ × K)) :
    (match wickAt breakPct row level with
      | none => ⟨swept, events, clusterOf level bars⟩
      | some wick => ⟨swept, events, some (grow level (clusterOf level bars) (row.time, wick))⟩ :
        LevelRecord K) =
      ⟨swept, events, clusterOf level (bars ++
        ((wickAt breakPct row level).map fun wick => (row.time, wick)).toList)⟩ := by
  cases wickAt breakPct row level with
  | none => simp
  | some wick =>
      rw [Option.map_some, Option.toList_some, clusterOf_concat]

/-- The loop of one level. -/
theorem foldl_visit (breakPct : K) (level : LevelInfo K) (rows : List (Candle K)) :
    rows.foldl (visit breakPct level) ⟨false, [], none⟩ =
      ⟨rows.any fun row => isSweep breakPct row level,
        ((rows.find? fun row => isSweep breakPct row level).map (eventOf level)).toList,
        clusterOf level (wickBars breakPct level rows)⟩ := by
  induction rows using List.reverseRecOn with
  | nil => rfl
  | append_singleton rows row ih =>
      rw [List.foldl_concat, ih]
      unfold visit wickBars
      rw [filterMap_eraseP_concat, List.find?_append, List.any_append, List.any_cons,
        List.any_nil, Bool.or_false]
      cases hany : rows.any fun row => isSweep breakPct row level with
      | true =>
          obtain ⟨first, hfirst⟩ := List.find?_isSome.mpr (List.any_eq_true.mp hany) |>
            Option.isSome_iff_exists.mp
          simp only [hfirst, Bool.not_true, Bool.and_false, Bool.false_eq_true, if_false,
            Bool.true_or, Option.some_or, reduceCtorEq, false_and]
          exact count_wick ..
      | false =>
          have hnone : (rows.find? fun row => isSweep breakPct row level) = none := by
            simpa using hany
          cases hrow : isSweep breakPct row level with
          | true => simp [hnone, hrow]
          | false =>
              simp only [hnone, Bool.false_and, Bool.false_eq_true, if_false, Bool.or_false,
                Option.none_or, List.find?_singleton, hrow, and_false]
              exact count_wick ..

/-- A cluster counts these bars. -/
structure Summarizes (bars : List (ℤ × K)) (c : WickCluster K) : Prop where
  count : c.count = bars.length
  largest : c.maxWick ∈ bars.map Prod.snd
  bound : ∀ bar ∈ bars, bar.2 ≤ c.maxWick
  first : bars.head?.map Prod.fst = some c.firstTs
  last : bars.getLast?.map Prod.fst = some c.lastTs

theorem clusterOf_eq_none_iff (level : LevelInfo K) (bars : List (ℤ × K)) :
    clusterOf level bars = none ↔ bars = [] := by
  induction bars using List.reverseRecOn with
  | nil => exact ⟨fun _ => rfl, fun _ => rfl⟩
  | append_singleton bars bar ih =>
      rw [clusterOf_concat]
      simp

theorem summarizes_clusterOf {level : LevelInfo K} {bars : List (ℤ × K)}
    (hwicks : ∀ bar ∈ bars, 0 ≤ bar.2) {c : WickCluster K} (h : clusterOf level bars = some c) :
    Summarizes bars c := by
  induction bars using List.reverseRecOn generalizing c with
  | nil => cases h
  | append_singleton bars bar ih =>
      rw [clusterOf_concat] at h
      cases h
      have hbar : 0 ≤ bar.2 := hwicks bar (by simp)
      cases hprev : clusterOf level bars with
      | none =>
          obtain rfl := (clusterOf_eq_none_iff level bars).mp hprev
          refine ⟨rfl, ?_, fun b hb => ?_, rfl, rfl⟩
          · simp [grow, max_eq_right hbar]
          · obtain rfl : b = bar := by simpa using hb
            exact le_max_right _ _
      | some prev =>
          obtain ⟨hcount, hlargest, hbound, hfirst, -⟩ :=
            ih (fun b hb => hwicks b (List.mem_append_left _ hb)) hprev
          refine ⟨?_, ?_, fun b hb => ?_, ?_, ?_⟩
          · simp [grow, hcount]
          · rw [List.map_append, List.mem_append]
            rcases max_choice prev.maxWick bar.2 with hmax | hmax
            · exact Or.inl (by simpa [grow, hmax] using hlargest)
            · exact Or.inr (by simp [grow, hmax])
          · rcases List.mem_append.mp hb with hb | hb
            · exact (hbound b hb).trans (le_max_left _ _)
            · obtain rfl : b = bar := by simpa using hb
              exact le_max_right _ _
          · obtain ⟨b, hb, hts⟩ := Option.map_eq_some_iff.mp hfirst
            simp [List.head?_append, hb, hts, grow]
          · simp [grow]

/-- The event or cluster is about this level. -/
def ofLevel (level : LevelInfo K) (price : Option K) (side : SwingKind) (source : LevelSource) :
    Bool := decide (price = level.level ∧ side = level.side ∧ source = level.source)

def eventsOf (level : LevelInfo K) (events : List (SfpEvent K)) : List (SfpEvent K) :=
  events.filter fun e => ofLevel level e.level e.side e.source

def wicksOf (level : LevelInfo K) (wicks : List (WickCluster K)) : List (WickCluster K) :=
  wicks.filter fun c => ofLevel level c.level c.side c.source

def recordOf (level : LevelInfo K) (s : SweepState K) : LevelRecord K :=
  ⟨s.sfpRecorded.contains level.key, eventsOf level s.sfpEvents, s.wickClusters.get? level.key⟩

/-- Keys tell levels apart, and a level is told apart by what its events show. -/
structure Keyed (levels : List (LevelInfo K)) : Prop where
  nodup : (levels.map LevelInfo.key).Nodup
  key_of : ∀ l ∈ levels, ∀ l' ∈ levels, ofLevel l l'.level l'.side l'.source = true →
    l'.key = l.key

omit [Field K] in
theorem ofLevel_self (level : LevelInfo K) :
    ofLevel level level.level level.side level.source = true := by
  simp [ofLevel]

theorem recordOf_visitLevel_self (breakPct : K) (row : Candle K) (s : SweepState K)
    (level : LevelInfo K) :
    recordOf level (visitLevel breakPct row s level) =
      visit breakPct level (recordOf level s) row := by
  unfold visitLevel visit recordOf
  split_ifs with hsweep
  · simp [eventsOf, eventOf, ofLevel_self]
  · cases hwick : wickAt breakPct row level with
    | none => rfl
    | some wick =>
        simp only [collectWick, OrderedDict.get?_set_self]
        rfl

theorem recordOf_visitLevel_of_ne (breakPct : K) (row : Candle K) (s : SweepState K)
    {level other : LevelInfo K} (hkey : other.key ≠ level.key)
    (hof : ofLevel level other.level other.side other.source = false) :
    recordOf level (visitLevel breakPct row s other) = recordOf level s := by
  unfold visitLevel recordOf
  split_ifs with hsweep
  · simp [eventsOf, hof, Ne.symm hkey]
  · cases hwick : wickAt breakPct row other with
    | none => rfl
    | some wick =>
        simp only [collectWick]
        rw [OrderedDict.get?_set, if_neg (Ne.symm hkey)]

theorem recordOf_visitRow {breakPct : K} {levels : List (LevelInfo K)} (hkeyed : Keyed levels)
    (s : SweepState K) (row : Candle K) {level : LevelInfo K} (hlevel : level ∈ levels) :
    recordOf level (visitRow breakPct levels s row) =
      visit breakPct level (recordOf level s) row := by
  obtain ⟨hnodup, hkey⟩ := hkeyed
  obtain ⟨pre, post, rfl⟩ := List.append_of_mem hlevel
  have hothers : ∀ (ls : List (LevelInfo K)) (s : SweepState K),
      (∀ o ∈ ls, o ∈ pre ++ level :: post ∧ o.key ≠ level.key) →
        recordOf level (ls.foldl (visitLevel breakPct row) s) = recordOf level s := by
    intro ls
    induction ls with
    | nil => exact fun _ _ => rfl
    | cons o ls ih =>
        intro s hls
        obtain ⟨hmem, hne⟩ := hls o List.mem_cons_self
        have hof : ofLevel level o.level o.side o.source = false := by
          by_contra h
          exact hne (hkey level hlevel o hmem (by simpa using h))
        rw [List.foldl_cons, ih _ fun q hq => hls q (List.mem_cons_of_mem _ hq),
          recordOf_visitLevel_of_ne breakPct row s hne hof]
  rw [List.map_append, List.map_cons, List.nodup_append, List.nodup_cons] at hnodup
  have hpre : ∀ o ∈ pre, o ∈ pre ++ level :: post ∧ o.key ≠ level.key := by
    intro o ho
    exact ⟨List.mem_append_left _ ho,
      hnodup.2.2 _ (List.mem_map_of_mem ho) _ List.mem_cons_self⟩
  have hpost : ∀ o ∈ post, o ∈ pre ++ level :: post ∧ o.key ≠ level.key := by
    intro o ho
    refine ⟨by simp [ho], fun heq => hnodup.2.1.1 (heq ▸ List.mem_map_of_mem ho)⟩
  unfold visitRow
  rw [List.foldl_append, List.foldl_cons, hothers post _ hpost, recordOf_visitLevel_self,
    hothers pre _ hpre]

/-- Both loops, seen from one level. -/
theorem recordOf_visitRows (breakPct : K) {levels : List (LevelInfo K)} (hkeyed : Keyed levels)
    (rows : List (Candle K)) {level : LevelInfo K} (hlevel : level ∈ levels) :
    recordOf level (visitRows breakPct levels rows) =
      ⟨rows.any fun row => isSweep breakPct row level,
        ((rows.find? fun row => isSweep breakPct row level).map (eventOf level)).toList,
        clusterOf level (wickBars breakPct level rows)⟩ := by
  rw [← foldl_visit]
  unfold visitRows
  induction rows using List.reverseRecOn with
  | nil => rfl
  | append_singleton rows row ih =>
      rw [List.foldl_concat, List.foldl_concat, ← ih]
      exact recordOf_visitRow hkeyed _ row hlevel

/-- Each cluster is kept under the key of its level. -/
def Labelled (levels : List (LevelInfo K)) (s : SweepState K) : Prop :=
  s.wickClusters.Every fun k c =>
    ∃ l ∈ levels, l.key = k ∧ c.level = l.level ∧ c.side = l.side ∧ c.source = l.source

theorem labelled_visitRows (breakPct : K) {levels : List (LevelInfo K)} (hkeyed : Keyed levels)
    (rows : List (Candle K)) : Labelled levels (visitRows breakPct levels rows) := by
  refine visitRows_induct breakPct levels rows (OrderedDict.every_empty _) ?_
  intro s hs row level hlevel
  unfold visitLevel
  split_ifs
  · exact hs
  · cases wickAt breakPct row level with
    | none => exact hs
    | some wick =>
        refine OrderedDict.every_set hs ⟨level, hlevel, rfl, ?_⟩
        cases hfound : s.wickClusters.get? level.key with
        | none => exact ⟨rfl, rfl, rfl⟩
        | some cluster =>
            obtain ⟨l, hl, hkey, hsame⟩ := hs _ (OrderedDict.mem_items_of_get? hfound)
            obtain rfl := List.inj_on_of_nodup_map hkeyed.nodup hl hlevel hkey
            exact hsame

omit [Field K] in
theorem wicksOf_items {levels : List (LevelInfo K)} (hkeyed : Keyed levels) {s : SweepState K}
    (hs : Labelled levels s) {level : LevelInfo K} (hlevel : level ∈ levels) :
    wicksOf level (s.wickClusters.items.map Prod.snd) =
      (s.wickClusters.get? level.key).toList := by
  have hsame : ∀ p ∈ s.wickClusters.items,
      ofLevel level p.2.level p.2.side p.2.source = decide (p.1 = level.key) := by
    intro p hp
    obtain ⟨l, hl, hkey, hlevel', hside, hsource⟩ := hs p hp
    rw [hlevel', hside, hsource, ← hkey, Bool.eq_iff_iff, decide_eq_true_eq]
    constructor
    · exact hkeyed.key_of level hlevel l hl
    · intro h
      obtain rfl := List.inj_on_of_nodup_map hkeyed.nodup hl hlevel h
      exact ofLevel_self l
  unfold wicksOf
  rw [List.filter_map, ← OrderedDict.map_filter_items]
  congr 1
  exact List.filter_congr hsame

/-- A bar breaks the price `L` by at least `p` on a side and closes back strictly inside. -/
def sweepsBack (p L : K) (side : SwingKind) (row : Candle K) : Bool :=
  match row.close, cellOf side row with
  | some close, some extreme =>
    match side with
    | .high => decide (L + p ≤ extreme ∧ close < L)
    | .low => decide (extreme ≤ L - p ∧ L < close)
  | _, _ => false

/-- The wick of a bar on a side, if it is long for the body and ends within `p` of `L`. -/
def longWick (p L : K) (side : SwingKind) (row : Candle K) : Option K :=
  match row.opn, row.close, cellOf side row with
  | some opn, some close, some extreme =>
    let wick := match side with
      | .high => max (extreme - max opn close) 0
      | .low => max (min opn close - extreme) 0
    if max |close - opn| (ratio 1 1000000) * ratio 25 10 ≤ wick ∧ |L - extreme| ≤ p then
      some wick
    else none
  | _, _, _ => none

/-- `max(L * break_pct, MIN_BREAK_PCT)` -/
def breakTol (breakPct L : K) : K := max (L * breakPct) (ratio 2 1000)

theorem isSweep_eq {level : LevelInfo K} {L : K} (hlevel : level.level = some L) (breakPct : K)
    (row : Candle K) :
    isSweep breakPct row level = sweepsBack (breakTol breakPct L) L level.side row := by
  unfold isSweep sweepsBack breakTol priceTol
  rw [hlevel]
  cases level.side with
  | high =>
      cases hhigh : row.high <;> cases hclose : row.close <;>
        simp [cellOf, hhigh, less, atMost]
  | low =>
      cases hlow : row.low <;> cases hclose : row.close <;>
        simp [cellOf, hlow, less, atMost]

theorem wickAt_eq {level : LevelInfo K} {L : K} (hlevel : level.level = some L) (breakPct : K)
    (row : Candle K) :
    wickAt breakPct row level = longWick (breakTol breakPct L) L level.side row := by
  have hnone : ∀ x : Option K, pyMax none x = none := fun _ => rfl
  have hmissing : ∀ x : Option K, atMost none x = false := fun _ => rfl
  unfold wickAt longWick breakTol priceTol
  rw [hlevel]
  cases hopn : row.opn with
  | none => simp [hnone, hmissing]
  | some opn =>
      cases hclose : row.close with
      | none => simp [hnone, hmissing]
      | some close =>
          cases hside : level.side with
          | high => cases hhigh : row.high <;> simp [cellOf, hhigh, hnone, atMost]
          | low => cases hlow : row.low <;> simp [cellOf, hlow, hnone, atMost]

section

variable [FloorRing K]

theorem keyed_collectLevels (st : RangedStructureState K) : Keyed (collectLevels st) := by
  have hinfo : ∀ l ∈ collectLevels st, l = levelInfo l.level l.side l.source := by
    intro l hl
    have hmem := (KeyedRows.keepFirst_sublist LevelInfo.key _).subset hl
    rcases List.mem_append.mp hmem with hmem | hmem
    · obtain ⟨s, -, rfl⟩ := List.mem_map.mp hmem
      rfl
    · cases hrange : st.activeRange with
      | none => simp [hrange] at hmem
      | some range =>
          simp only [hrange, List.mem_cons, List.not_mem_nil, or_false] at hmem
          rcases hmem with rfl | rfl <;> rfl
  refine ⟨KeyedRows.keepFirst_nodup LevelInfo.key _, fun l hl l' hl' h => ?_⟩
  obtain ⟨hlevel, hside, hsource⟩ := of_decide_eq_true h
  rw [hinfo l hl, hinfo l' hl', hlevel, hside, hsource]

/-- The sweeps of a price among some bars. -/
structure SfpSpec (p L : K) (side : SwingKind) (rows : List (Candle K))
    (events : List (SfpEvent K)) : Prop where
  at_most_one : events.length ≤ 1
  exists_iff : events ≠ [] ↔ ∃ row ∈ rows, sweepsBack p L side row = true
  earliest : ∀ e ∈ events, ∃ pre row post, rows = pre ++ row :: post ∧
    sweepsBack p L side row = true ∧ (∀ q ∈ pre, sweepsBack p L side q = false) ∧
      e.time = row.time

/-- The bars with a long wick at a price, without the first bar that sweeps it. -/
def longWicks (p L : K) (side : SwingKind) (rows : List (Candle K)) : List (ℤ × K) :=
  (rows.eraseP (sweepsBack p L side)).filterMap fun row =>
    (longWick p L side row).map fun wick => (row.time, wick)

structure WickSpec (p L : K) (side : SwingKind) (rows : List (Candle K))
    (wicks : List (WickCluster K)) : Prop where
  at_most_one : wicks.length ≤ 1
  exists_iff : wicks ≠ [] ↔ longWicks p L side rows ≠ []
  summarizes : ∀ c ∈ wicks, Summarizes (longWicks p L side rows) c

omit [FloorRing K] in
theorem nonneg_of_longWick {p L : K} {side : SwingKind} {row : Candle K} {wick : K}
    (h : longWick p L side row = some wick) : 0 ≤ wick := by
  unfold longWick at h
  split at h
  · dsimp only at h
    split_ifs at h
    cases h
    cases side <;> exact le_max_right _ _
  · cases h

omit [FloorRing K] in
theorem sfpSpec_find (p L : K) (level : LevelInfo K) (rows : List (Candle K)) :
    SfpSpec p L level.side rows
      ((rows.find? (sweepsBack p L level.side)).map (eventOf level)).toList := by
  cases hfound : rows.find? (sweepsBack p L level.side) with
  | none =>
      refine ⟨by simp, ?_, fun e he => by cases he⟩
      simpa using hfound
  | some row =>
      obtain ⟨hrow, pre, post, hsplit, hpre⟩ := List.find?_eq_some_iff_append.mp hfound
      refine ⟨by simp, ?_, fun e he => ?_⟩
      · simp only [Option.map_some, Option.toList_some, ne_eq, List.cons_ne_nil,
          not_false_eq_true, true_iff]
        exact ⟨row, by simp [hsplit], hrow⟩
      · obtain rfl : e = eventOf level row := by simpa using he
        exact ⟨pre, row, post, hsplit, hrow, fun q hq => by simpa using hpre q hq, rfl⟩

omit [FloorRing K] in
theorem wickSpec_clusterOf (p L : K) (level : LevelInfo K) (rows : List (Candle K)) :
    WickSpec p L level.side rows (clusterOf level (longWicks p L level.side rows)).toList := by
  have hnonneg : ∀ bar ∈ longWicks p L level.side rows, 0 ≤ bar.2 := by
    intro bar hbar
    obtain ⟨row, -, hrow⟩ := List.mem_filterMap.mp hbar
    obtain ⟨wick, hwick, rfl⟩ := Option.map_eq_some_iff.mp hrow
    exact nonneg_of_longWick hwick
  cases hcluster : clusterOf level (longWicks p L level.side rows) with
  | none =>
      have hnone := (clusterOf_eq_none_iff level _).mp hcluster
      exact ⟨by simp, by simp [hnone], fun c hc => by cases hc⟩
  | some c =>
      have hsome : longWicks p L level.side rows ≠ [] := by
        intro hnone
        rw [(clusterOf_eq_none_iff level _).mpr hnone] at hcluster
        cases hcluster
      refine ⟨by simp, by simp [hsome], fun c' hc' => ?_⟩
      obtain rfl : c' = c := by simpa using hc'
      exact summarizes_clusterOf hnonneg hcluster

/-- What the loops leave for a level of the structure, in terms of its price. -/
theorem recordOf_level (breakPct : K) {st : RangedStructureState K} (rows : List (Candle K))
    {level : LevelInfo K} (hlevel : level ∈ collectLevels st) {L : K} (hL : level.level = some L) :
    recordOf level (visitRows breakPct (collectLevels st) rows) =
      ⟨rows.any (sweepsBack (breakTol breakPct L) L level.side),
        ((rows.find? (sweepsBack (breakTol breakPct L) L level.side)).map (eventOf level)).toList,
        clusterOf level (longWicks (breakTol breakPct L) L level.side rows)⟩ := by
  have hrecord := recordOf_visitRows breakPct (keyed_collectLevels st) rows hlevel
  simp only [wickBars, isSweep_eq hL, wickAt_eq hL] at hrecord
  exact hrecord

theorem sfpSpec_level (cfg : SmcCoreConfig K) {snapshot : ContextInput K}
    {st : RangedStructureState K} (hcols : snapshot.hasPriceColumns = true)
    {level : LevelInfo K} (hlevel : level ∈ collectLevels st) {L : K}
    (hL : level.level = some L) :
    SfpSpec (breakTol (breakPctOf cfg) L) L level.side
      (prepared cfg.maxLookbackBars snapshot.frame)
      (eventsOf level (detectSfpAndWicks cfg snapshot st).2.1) := by
  unfold detectSfpAndWicks
  rw [if_pos hcols]
  have hevents := congrArg LevelRecord.events (recordOf_level (breakPctOf cfg)
    (prepared cfg.maxLookbackBars snapshot.frame) hlevel hL)
  simp only [recordOf] at hevents
  rw [hevents]
  exact sfpSpec_find _ L level _

theorem wickSpec_level (cfg : SmcCoreConfig K) {snapshot : ContextInput K}
    {st : RangedStructureState K} (hcols : snapshot.hasPriceColumns = true)
    {level : LevelInfo K} (hlevel : level ∈ collectLevels st) {L : K}
    (hL : level.level = some L) :
    WickSpec (breakTol (breakPctOf cfg) L) L level.side
      (prepared cfg.maxLookbackBars snapshot.frame)
      (wicksOf level (detectSfpAndWicks cfg snapshot st).2.2) := by
  have hkeyed := keyed_collectLevels st
  unfold detectSfpAndWicks
  rw [if_pos hcols]
  have hcluster := congrArg LevelRecord.cluster (recordOf_level (breakPctOf cfg)
    (prepared cfg.maxLookbackBars snapshot.frame) hlevel hL)
  simp only [recordOf] at hcluster
  dsimp only
  rw [wicksOf_items hkeyed (labelled_visitRows _ hkeyed _) hlevel, hcluster]
  exact wickSpec_clusterOf _ L level _

/-- What a level of the structure gets: one event at the first bar that breaks it and
closes back, and one cluster over the other bars with a long wick at it. -/
theorem sweeps_and_wicks_of_level (cfg : SmcCoreConfig K) {snapshot : ContextInput K}
    {st : RangedStructureState K} (hcols : snapshot.hasPriceColumns = true)
    {level : LevelInfo K} (hlevel : level ∈ collectLevels st) {L : K}
    (hL : level.level = some L) :
    SfpSpec (breakTol (breakPctOf cfg) L) L level.side
        (prepared cfg.maxLookbackBars snapshot.frame)
        (eventsOf level (detectSfpAndWicks cfg snapshot st).2.1) ∧
      WickSpec (breakTol (breakPctOf cfg) L) L level.side
        (prepared cfg.maxLookbackBars snapshot.frame)
        (wicksOf level (detectSfpAndWicks cfg snapshot st).2.2) :=
  ⟨sfpSpec_level cfg hcols hlevel hL, wickSpec_level cfg hcols hlevel hL⟩

end

section FixedInputs

open StructureState Ranges

def snapshotOf (frame : List (RawBar ℚ)) : ContextInput ℚ where
  symbol := "xauusd"
  tfPrimary := "1m"
  frame := some frame
  hasPriceColumns := true
  hasHighLow := true
  hasClose := true
  pdl := none
  pdh := none

/-- The high of 100 is swept by the fourth bar; the fifth one has its wick there. -/
def sweptFrame : List (RawBar ℚ) :=
  [minuteOf 1 90 70, minuteOf 2 100 85, minuteOf 3 92 75, minuteOf 4 108 80, minuteOf 5 101 95]

def oneBarSwings : SmcCoreConfig ℚ := { smcCoreConfig ℚ with minSwingBars := 1 }

def sweptState : Option (RangedStructureState ℚ) :=
  computeStructureState id oneBarSwings (snapshotOf sweptFrame) OrderedDict.empty 0

/-- The level of the high of 100. -/
def highOf100 : LevelInfo ℚ := levelInfo (some 100) .high .swing

theorem sweptFrame_spec : ∃ st, sweptState = some st ∧
    ((eventsOf highOf100
        (detectSfpAndWicks oneBarSwings (snapshotOf sweptFrame) st).2.1).map SfpEvent.time,
      (wicksOf highOf100 (detectSfpAndWicks oneBarSwings (snapshotOf sweptFrame) st).2.2).map
        fun c => (c.count, c.firstTs, c.lastTs)) = ([240000], [(2, 120000, 300000)]) ∧
    SfpSpec (breakTol (breakPctOf oneBarSwings) 100) 100 .high
        (prepared 300 (some sweptFrame))
        (eventsOf highOf100 (detectSfpAndWicks oneBarSwings (snapshotOf sweptFrame) st).2.1) ∧
      WickSpec (breakTol (breakPctOf oneBarSwings) 100) 100 .high
        (prepared 300 (some sweptFrame))
        (wicksOf highOf100 (detectSfpAndWicks oneBarSwings (snapshotOf sweptFrame) st).2.2) := by
  have hrun : (sweptState.any fun st => decide (highOf100 ∈ collectLevels st) &&
      decide (((eventsOf highOf100
        (detectSfpAndWicks oneBarSwings (snapshotOf sweptFrame) st).2.1).map SfpEvent.time,
      (wicksOf highOf100 (detectSfpAndWicks oneBarSwings (snapshotOf sweptFrame) st).2.2).map
        fun c => (c.count, c.firstTs, c.lastTs)) = ([240000], [(2, 120000, 300000)]))) = true := by
    decide +kernel
  obtain ⟨st, hst, hboth⟩ := (Option.any_eq_true _ _).mp hrun
  obtain ⟨hlevel, hfound⟩ := Bool.and_eq_true_iff.mp hboth
  refine ⟨st, hst, of_decide_eq_true hfound, ?_⟩
  have hcols : (snapshotOf sweptFrame).hasPriceColumns = true := rfl
  exact sweeps_and_wicks_of_level oneBarSwings hcols (of_decide_eq_true hlevel) rfl

end FixedInputs

end SmcPipeline.SweepSpec
