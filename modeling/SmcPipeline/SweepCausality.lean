import SmcPipeline.SweepSpec

/-!
# Sweeps and the age of their levels

`detect_sfp_and_wicks` holds every bar of the frame against every level, whenever the
level arose. The event of a level is the first bar of the frame that breaks it and closes
back, and that bar may be older than the swing or the range the level is taken from. It
is not exactly if no older bar sweeps the level as well.
-/

namespace SmcPipeline.SweepCausality

open Candles OrderBlocks Sweeps SweepSpec

variable {K : Type*} [Field K] [LinearOrder K]

/-- The event is at the first bar that sweeps the price. -/
def AtFirstSweep (p L : K) (rows : List (Candle K)) (e : SfpEvent K) : Prop :=
  ∃ pre row post, rows = pre ++ row :: post ∧ sweepsBack p L e.side row = true ∧
    (∀ q ∈ pre, sweepsBack p L e.side q = false) ∧ e.time = row.time

/-- In the order of time the first sweep satisfies a condition on times that later times
satisfy too, exactly if no bar that fails it sweeps the price. -/
theorem first_sweep_iff {p L : K} {rows : List (Candle K)} {e : SfpEvent K}
    (htimes : rows.Pairwise fun a b => a.time ≤ b.time) (h : AtFirstSweep p L rows e)
    {P : ℤ → Prop} (hlate : ∀ t u, P t → t ≤ u → P u) :
    P e.time ↔ ∀ row ∈ rows, ¬ P row.time → sweepsBack p L e.side row = false := by
  obtain ⟨pre, row, post, rfl, hrow, hpre, htime⟩ := h
  rw [htime]
  constructor
  · intro hl q hq hearly
    rcases List.mem_append.mp hq with hq | hq
    · exact hpre q hq
    · refine absurd (hlate row.time q.time hl ?_) hearly
      rcases List.mem_cons.mp hq with rfl | hq
      · exact le_rfl
      · exact (List.pairwise_cons.mp (List.pairwise_append.mp htimes).2.1).1 q hq
  · intro hnone
    by_contra hearly
    rw [hnone row (by simp) hearly] at hrow
    cases hrow

omit [Field K] [LinearOrder K] in
theorem prepared_pairwise (maxBars : ℤ) (df : Option (List (RawBar K))) :
    (prepared maxBars df).Pairwise fun a b => a.time ≤ b.time := by
  unfold prepared prepareFrame
  cases df with
  | none => exact List.Pairwise.nil
  | some df =>
      dsimp only
      split_ifs <;> first | exact List.Pairwise.nil | exact KeyedRows.sortBy_pairwise Candle.time _

/-- Every event is about one of the levels. -/
theorem exists_level_of_mem {breakPct : K} {levels : List (LevelInfo K)}
    {rows : List (Candle K)} {e : SfpEvent K}
    (he : e ∈ (visitRows breakPct levels rows).sfpEvents) :
    ∃ level ∈ levels, ∃ L, level.level = some L ∧
      ofLevel level e.level e.side e.source = true := by
  refine visitRows_induct (P := fun s => e ∈ s.sfpEvents → ∃ level ∈ levels, ∃ L,
    level.level = some L ∧ ofLevel level e.level e.side e.source = true) breakPct levels rows
      (fun he => by cases he) (fun s hs row level hlevel he => ?_) he
  unfold visitLevel at he
  split_ifs at he with hsweep
  · rcases List.mem_append.mp he with he | he
    · exact hs he
    · obtain rfl := List.mem_singleton.mp he
      obtain ⟨⟨L, hL⟩, -⟩ := some_of_isSweep (Bool.and_eq_true_iff.mp hsweep).1
      exact ⟨level, hlevel, L, hL, ofLevel_self level⟩
  · cases hwick : wickAt breakPct row level with
    | none =>
        rw [hwick] at he
        exact hs he
    | some wick =>
        rw [hwick] at he
        exact hs he

section

variable [FloorRing K]

/-- The swing an event's level is taken from: the first of its side and rounded price. -/
def takenFrom (st : RangedStructureState K) (e : SfpEvent K) : Option (Swing K) :=
  st.swings.find? fun s =>
    (levelInfo (some s.price) s.kind .swing).key = (levelInfo e.level e.side .swing).key

theorem firstOf_collectLevels {st : RangedStructureState K} {level : LevelInfo K}
    (h : level ∈ collectLevels st) :
    ((st.swings.find? fun s => (levelInfo (some s.price) s.kind .swing).key = level.key).map
        fun s => levelInfo (some s.price) s.kind .swing) = some level ∨
      ∃ range, st.activeRange = some range ∧
        (level = levelInfo range.high .high .range ∨ level = levelInfo range.low .low .range) := by
  have hfirst : KeyedRows.firstOf LevelInfo.key level.key (collectLevels st) = some level := by
    obtain ⟨found, hfound⟩ := Option.isSome_iff_exists.mp
      ((KeyedRows.firstOf_isSome LevelInfo.key).mpr (List.mem_map_of_mem h))
    have hkey := KeyedRows.firstOf_key LevelInfo.key hfound
    have hmem := KeyedRows.firstOf_mem LevelInfo.key hfound
    rw [hfound, List.inj_on_of_nodup_map (keyed_collectLevels st).nodup hmem h hkey]
  unfold collectLevels at hfirst
  rw [KeyedRows.firstOf_keepFirst, KeyedRows.firstOf_append, Option.or_eq_some_iff] at hfirst
  rcases hfirst with hswing | ⟨-, hrange⟩
  · left
    unfold KeyedRows.firstOf at hswing
    rw [List.find?_map] at hswing
    exact hswing
  · right
    have hmem := KeyedRows.firstOf_mem LevelInfo.key hrange
    cases hactive : st.activeRange with
    | none => simp [hactive] at hmem
    | some range =>
        simp only [hactive, List.mem_cons, List.not_mem_nil, or_false] at hmem
        exact ⟨range, rfl, hmem⟩

/-- Every event is about one of the levels, at the first bar that sweeps it. -/
theorem level_of_event (cfg : SmcCoreConfig K) {snapshot : ContextInput K}
    {st : RangedStructureState K} {e : SfpEvent K}
    (he : e ∈ (detectSfpAndWicks cfg snapshot st).2.1) :
    ∃ level ∈ collectLevels st, ∃ L, level.level = some L ∧
      (e.level = level.level ∧ e.side = level.side ∧ e.source = level.source) ∧
      AtFirstSweep (breakTol (breakPctOf cfg) L) L (prepared cfg.maxLookbackBars snapshot.frame)
        e := by
  have hcols : snapshot.hasPriceColumns = true := by
    by_contra hcols
    unfold detectSfpAndWicks at he
    rw [if_neg hcols] at he
    cases he
  have hfound := he
  unfold detectSfpAndWicks at hfound
  rw [if_pos hcols] at hfound
  obtain ⟨level, hlevel, L, hL, hof⟩ := exists_level_of_mem hfound
  have hnames := of_decide_eq_true hof
  obtain ⟨pre, row, post, hsplit, hrow, hpre, htime⟩ :=
    (sfpSpec_level cfg hcols hlevel hL).earliest e (List.mem_filter.mpr ⟨he, hof⟩)
  rw [← hnames.2.1] at hrow hpre
  exact ⟨level, hlevel, L, hL, hnames, pre, row, post, hsplit, hrow, hpre, htime⟩

/-- Every event is at the first bar of the frame that sweeps its level. That is after the
swing, or not before the range, exactly if no earlier bar sweeps the level. -/
theorem event_at_first_sweep (cfg : SmcCoreConfig K) {snapshot : ContextInput K}
    {st : RangedStructureState K} {e : SfpEvent K}
    (he : e ∈ (detectSfpAndWicks cfg snapshot st).2.1) :
    ∃ L, e.level = some L ∧
      AtFirstSweep (breakTol (breakPctOf cfg) L) L (prepared cfg.maxLookbackBars snapshot.frame) e ∧
      ((e.source = .swing ∧ ∃ s, takenFrom st e = some s ∧ s.price = L ∧ s.kind = e.side ∧
          (s.time < e.time ↔ ∀ row ∈ prepared cfg.maxLookbackBars snapshot.frame,
            row.time ≤ s.time → sweepsBack (breakTol (breakPctOf cfg) L) L e.side row = false)) ∨
        (e.source = .range ∧ ∃ range, st.activeRange = some range ∧
          (range.startTime ≤ e.time ↔ ∀ row ∈ prepared cfg.maxLookbackBars snapshot.frame,
            row.time < range.startTime →
              sweepsBack (breakTol (breakPctOf cfg) L) L e.side row = false))) := by
  obtain ⟨level, hlevel, L, hL, ⟨hprice, hside, hsource⟩, hfirst⟩ := level_of_event cfg he
  have htimes := prepared_pairwise cfg.maxLookbackBars snapshot.frame
  refine ⟨L, hprice.trans hL, hfirst, ?_⟩
  rcases firstOf_collectLevels hlevel with hswing | ⟨range, hactive, hrange⟩
  · left
    obtain ⟨s, hs, rfl⟩ := Option.map_eq_some_iff.mp hswing
    refine ⟨hsource, s, ?_, Option.some.inj hL, hside.symm, ?_⟩
    · unfold takenFrom
      rw [hprice, hside]
      exact hs
    · have hlate := first_sweep_iff htimes hfirst (P := fun t => s.time < t)
        fun _ _ => lt_of_lt_of_le
      simpa only [not_lt] using hlate
  · right
    refine ⟨?_, range, hactive, ?_⟩
    · rcases hrange with rfl | rfl <;> exact hsource
    · have hlate := first_sweep_iff htimes hfirst (P := fun t => range.startTime ≤ t)
        fun _ _ => le_trans
      simpa only [not_le] using hlate

end

section FixedInputs

open StructureState Ranges

/-- The first bar goes over 100 and closes below; the high of 100 comes after it. -/
def earlyFrame : List (RawBar ℚ) :=
  [minuteOf 1 110 80, minuteOf 2 90 70, minuteOf 3 100 85, minuteOf 4 92 75]

def threeBarRange : SmcCoreConfig ℚ := { oneBarSwings with minRangeBars := 3 }

def stateOf (frame : List (RawBar ℚ)) : Option (RangedStructureState ℚ) :=
  computeStructureState id threeBarRange (snapshotOf frame) OrderedDict.empty 0

theorem swept_at_first : ∃ st, stateOf sweptFrame = some st ∧
    ∃ e ∈ (detectSfpAndWicks threeBarRange (snapshotOf sweptFrame) st).2.1,
      e.time = 240000 ∧ ∃ L, e.level = some L ∧
        AtFirstSweep (breakTol (breakPctOf threeBarRange) L) L
          (prepared 300 (some sweptFrame)) e := by
  have hrun : ((stateOf sweptFrame).any fun st =>
      (detectSfpAndWicks threeBarRange (snapshotOf sweptFrame) st).2.1.any fun e =>
        decide (e.time = 240000)) = true := by decide +kernel
  obtain ⟨st, hst, hany⟩ := (Option.any_eq_true _ _).mp hrun
  obtain ⟨e, he, htime⟩ := List.any_eq_true.mp hany
  obtain ⟨L, hL, hfirst, -⟩ := event_at_first_sweep threeBarRange he
  exact ⟨st, hst, e, he, of_decide_eq_true htime, L, hL, hfirst⟩

/-- The first bar is the event of a later swing and of a later range. -/
theorem swept_before_swing_and_range : ∃ st, stateOf earlyFrame = some st ∧
    (∃ e ∈ (detectSfpAndWicks threeBarRange (snapshotOf earlyFrame) st).2.1,
      e.source = .swing ∧ ∃ s, takenFrom st e = some s ∧ ¬ s.time < e.time) ∧
    ∃ e ∈ (detectSfpAndWicks threeBarRange (snapshotOf earlyFrame) st).2.1,
      e.source = .range ∧ ∃ range, st.activeRange = some range ∧ ¬ range.startTime ≤ e.time := by
  have hrun : ((stateOf earlyFrame).any fun st =>
      ((detectSfpAndWicks threeBarRange (snapshotOf earlyFrame) st).2.1.any fun e =>
        decide (e.source = .swing) && (takenFrom st e).any fun s => !decide (s.time < e.time)) &&
      ((detectSfpAndWicks threeBarRange (snapshotOf earlyFrame) st).2.1.any fun e =>
        decide (e.source = .range) && st.activeRange.any fun range =>
          !decide (range.startTime ≤ e.time))) = true := by decide +kernel
  obtain ⟨st, hst, hboth⟩ := (Option.any_eq_true _ _).mp hrun
  simp only [Bool.and_eq_true, List.any_eq_true, decide_eq_true_eq, Option.any_eq_true,
    Bool.not_eq_true', decide_eq_false_iff_not] at hboth
  obtain ⟨⟨e, he, hswing, s, hs, hearly⟩, e', he', hrange, range, hactive, hbefore⟩ := hboth
  exact ⟨st, hst, ⟨e, he, hswing, s, hs, hearly⟩, e', he', hrange, range, hactive, hbefore⟩

end FixedInputs

end SmcPipeline.SweepCausality
