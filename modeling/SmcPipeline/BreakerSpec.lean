import SmcPipeline.BlockCoordinates
import SmcPipeline.Breakers
import SmcPipeline.FirstHit

/-!
# What a breaker is

Three points make a PRIMARY order block a breaker: a sweep of its edge soon enough after it,
an opposite event soon enough after the sweep, and a large enough move from the one to the
other. The events are searched in the order of time, so that each search finds the first
event that fits. But the second search starts from the sweep of the first one, and the move
is only measured at the end: where the first two events do not make a breaker no others are
tried.
-/

namespace SmcPipeline.BreakerSpec

open Candles OrderBlocks Breakers KeyedRows FirstHit

variable {K : Type*}

section

variable [Field K] [LinearOrder K] (cfg : SmcCoreConfig K)

/-- The edge a sweep on the block's side runs to. -/
def sweptEdge (ob : SmcZone K) : Option K :=
  match ob.direction with
  | .short => ob.priceMax
  | .long => ob.priceMin

/-- The sweep is on the block's side, soon enough after it, and near its edge. -/
structure SweepFits (ob : SmcZone K) (sweep : SweepEvent K) : Prop where
  side : sweep.side = sweepSide ob.direction
  after : ob.originTime ≤ sweep.time
  soon : sweep.time - ob.originTime ≤ minutes cfg.breakerMaxSweepDelayMinutes
  near : ∃ edge tol, sweptEdge ob = some edge ∧ breakerTolerance cfg ob = some tol ∧
    |sweep.level - edge| ≤ tol

/-- The event is opposite to the block, soon enough after the sweep, and the block is not too
old. -/
structure EventFits (ob : SmcZone K) (sweep : SweepEvent K) (event : StructureEvent K) :
    Prop where
  opposite : event.direction = oppositeOf ob.direction
  after : sweep.time ≤ eventTime event
  soon : eventTime event - sweep.time ≤ minutes cfg.breakerMaxSweepDelayMinutes
  young : eventTime event - ob.originTime ≤ minutes cfg.breakerMaxObAgeMinutes

/-- The move from the sweep to the event is large for the ATR. -/
def Displaced (st : SmcStructureState K) (sweep : SweepEvent K) (event : StructureEvent K) :
    Prop :=
  ∃ atr, breakerAtr st = some atr ∧ 0 < atr ∧
    cfg.breakerMinDisplacementAtr * atr ≤ |event.priceLevel - sweep.level|

/-- The sweep and the event make the block a breaker. -/
structure Documented (st : SmcStructureState K) (ob : SmcZone K) (sweep : SweepEvent K)
    (event : StructureEvent K) : Prop where
  sweep_fits : SweepFits cfg ob sweep
  event_fits : EventFits cfg ob sweep event
  displaced : Displaced cfg st sweep event

end

section

variable [Field K] [LinearOrder K] {cfg : SmcCoreConfig K} {ob : SmcZone K}
  {st : SmcStructureState K} {sfpEvents : List (SfpEntry K)} {sweep : SweepEvent K}
  {event : StructureEvent K}

theorem sweepsEdge_iff (hside : sweep.side = sweepSide ob.direction) :
    sweepsEdge cfg ob sweep = true ↔
      ∃ edge tol, sweptEdge ob = some edge ∧ breakerTolerance cfg ob = some tol ∧
        |sweep.level - edge| ≤ tol := by
  have hat : sweepsEdge cfg ob sweep =
      atMost ((sweptEdge ob).map fun edge => |sweep.level - edge|) (breakerTolerance cfg ob) := by
    unfold sweepsEdge sweptEdge
    rw [hside]
    cases ob.direction <;> rfl
  rw [hat]
  cases sweptEdge ob with
  | none => simp [atMost]
  | some edge => cases breakerTolerance cfg ob <;> simp [atMost]

/-- The search for a sweep skips those of the other side and those before the block. -/
theorem findMatchingSweep_eq_search (side : SwingKind) (sweeps : List (SweepEvent K)) :
    findMatchingSweep cfg ob side sweeps =
      search (fun s => decide (s.side ≠ side ∨ s.time < ob.originTime))
        (fun s => decide (minutes cfg.breakerMaxSweepDelayMinutes < s.time - ob.originTime))
        (sweepsEdge cfg ob) sweeps := by
  induction sweeps with
  | nil => rfl
  | cons sweep sweeps ih =>
      unfold findMatchingSweep search
      rw [ih]
      by_cases hside : sweep.side = side <;> by_cases hbefore : sweep.time < ob.originTime <;>
        simp [hside, hbefore]

omit [Field K] [LinearOrder K] in
theorem findBosAfterSweep_eq_search (direction : Direction) (sweepTime originTime : ℤ)
    (events : List (StructureEvent K)) :
    findBosAfterSweep cfg direction sweepTime originTime events =
      search (fun e => decide (e.direction ≠ direction ∨ eventTime e < sweepTime))
        (fun e => decide (minutes cfg.breakerMaxSweepDelayMinutes < eventTime e - sweepTime ∨
          minutes cfg.breakerMaxObAgeMinutes < eventTime e - originTime))
        (fun _ => true) events := by
  induction events with
  | nil => rfl
  | cons event events ih =>
      unfold findBosAfterSweep search
      rw [ih]
      by_cases hdirection : event.direction = direction <;>
        by_cases hbefore : eventTime event < sweepTime <;>
        by_cases hlate : minutes cfg.breakerMaxSweepDelayMinutes < eventTime event - sweepTime <;>
        simp [hdirection, hbefore, hlate]

/-- What the first search finds is the first sweep that fits. -/
theorem findMatchingSweep_eq_some_iff :
    findMatchingSweep cfg ob (sweepSide ob.direction) (extractSweepEvents sfpEvents) =
      some sweep ↔ IsFirst (SweepFits cfg ob) (extractSweepEvents sfpEvents) sweep := by
  rw [findMatchingSweep_eq_search, search_eq_some_iff]
  · refine isFirst_congr fun s => ?_
    constructor
    · rintro ⟨hkept, htime, hhit⟩
      have hkept' := of_decide_eq_false hkept
      push Not at hkept'
      exact ⟨hkept'.1, hkept'.2, not_lt.mp (of_decide_eq_false htime),
        (sweepsEdge_iff hkept'.1).mp hhit⟩
    · intro h
      refine ⟨decide_eq_false ?_, decide_eq_false (not_lt.mpr h.soon),
        (sweepsEdge_iff h.side).mpr h.near⟩
      push Not
      exact ⟨h.side, h.after⟩
  · -- a sweep that is too late is followed by later ones
    refine (sortBy_pairwise SweepEvent.time _).imp fun hle _ hstop _ => ?_
    exact decide_eq_true ((of_decide_eq_true hstop).trans_le (sub_le_sub_right hle _))

omit [Field K] [LinearOrder K] in
/-- What the second search finds is the first event that fits. -/
theorem findBosAfterSweep_eq_some_iff :
    findBosAfterSweep cfg (oppositeOf ob.direction) sweep.time ob.originTime
        (collectBosEvents st) = some event ↔
      IsFirst (EventFits cfg ob sweep) (collectBosEvents st) event := by
  rw [findBosAfterSweep_eq_search, search_eq_some_iff]
  · refine isFirst_congr fun e => ?_
    constructor
    · rintro ⟨hkept, htime, -⟩
      have hkept' := of_decide_eq_false hkept
      have htime' := of_decide_eq_false htime
      push Not at hkept' htime'
      exact ⟨hkept'.1, hkept'.2, htime'.1, htime'.2⟩
    · intro h
      refine ⟨decide_eq_false ?_, decide_eq_false ?_, rfl⟩ <;> push Not
      · exact ⟨h.opposite, h.after⟩
      · exact ⟨h.soon, h.young⟩
  · refine (sortBy_pairwise StructureEvent.time _).imp fun {e e'} hle _ hstop _ => ?_
    have hlater : eventTime e ≤ eventTime e' := by
      unfold eventTime
      omega
    exact decide_eq_true ((of_decide_eq_true hstop).imp
      (fun h => h.trans_le (sub_le_sub_right hlater _))
      (fun h => h.trans_le (sub_le_sub_right hlater _)))

omit [Field K] [LinearOrder K] in
theorem mem_collectBosEvents :
    event ∈ collectBosEvents st ↔ event ∈ st.events ++ st.eventHistory :=
  mem_sortBy StructureEvent.time

end

section

variable {frame : List (RawBar K)} {target : ℤ}

/-- The row's timestamp is as near to the target as that of any row of the frame. -/
def IsNearest (frame : List (RawBar K)) (target : ℤ) (row : RawBar K) : Prop :=
  ∃ t, rowTimestamp row = some t ∧
    ∀ row' ∈ frame, ∃ t', rowTimestamp row' = some t' ∧ |t - target| ≤ |t' - target|

theorem nearest_of_findRow {i : ℕ} {row : RawBar K} {t : ℤ}
    (h : findRowByTimestamp frame target = some i) (hrow : frame[i]? = some row)
    (ht : rowTimestamp row = some t) :
    ∀ row' ∈ frame, ∃ t', rowTimestamp row' = some t' ∧ |t - target| ≤ |t' - target| := by
  unfold findRowByTimestamp at h
  dsimp only at h
  split_ifs at h with hnone
  obtain rfl := Option.some.inj h
  intro row' hrow'
  have hbest := best_of_argBest (a := |t - target|) (by rw [List.getElem?_map, hrow]; simp [ht])
    _ (List.mem_map_of_mem hrow')
  obtain ⟨b, hb, hle⟩ := hbest
  obtain ⟨t', ht', rfl⟩ := Option.map_eq_some_iff.mp hb
  exact ⟨t', ht', of_decide_eq_true hle⟩

/-- Where every row has a timestamp there is a nearest one. -/
theorem exists_findRow (target : ℤ) (hne : frame ≠ [])
    (htimes : ∀ row ∈ frame, (rowTimestamp row).isSome = true) :
    ∃ i row t, findRowByTimestamp frame target = some i ∧ frame[i]? = some row ∧
      rowTimestamp row = some t := by
  have hcells : frame.map (fun row => (rowTimestamp row).map fun t => |t - target|) ≠ [] := by
    simpa using hne
  have hlt : argBest (fun a b : ℤ => decide (a ≤ b))
      (frame.map fun row => (rowTimestamp row).map fun t => |t - target|) < frame.length := by
    rw [← List.length_map fun row : RawBar K => (rowTimestamp row).map fun t => |t - target|]
    exact CandidateRows.argBest_lt .long hcells
  obtain ⟨t, ht⟩ := Option.isSome_iff_exists.mp (htimes _ (List.getElem_mem hlt))
  refine ⟨_, _, t, if_neg ?_, List.getElem?_eq_getElem hlt, ht⟩
  intro hall
  have hmissing := List.all_eq_true.mp hall _ (List.mem_map_of_mem (List.getElem_mem hlt))
  rw [ht] at hmissing
  cases hmissing

end

section

variable [LinearOrder K]

theorem pyMin_ends (a b : Option K) : pyMin (pyMin a b) (pyMax a b) = pyMin a b := by
  cases a with
  | none => simp [pyMin, pyMax, less]
  | some a =>
      cases b with
      | none => simp [pyMin, pyMax, less]
      | some b => simp

theorem pyMax_ends (a b : Option K) : pyMax (pyMin a b) (pyMax a b) = pyMax a b := by
  cases a with
  | none => simp [pyMin, pyMax, less]
  | some a =>
      cases b with
      | none => simp [pyMin, pyMax, less]
      | some b => simp

end

section

variable [Field K] [LinearOrder K] (cfg : SmcCoreConfig K)

/-- The body is at least the least share of the row's range. -/
def largeBody (row : RawBar K) : Bool :=
  let sub := Option.map₂ fun a b : K => a - b
  let body := sub (pyMax row.opn row.close) (pyMin row.opn row.close)
  let fullRange := pyMax (sub row.high row.low) (some (ratio 1 1000000000))
  atMost (some cfg.breakerMinBodyPct) (Option.map₂ (fun a b : K => a / b) body fullRange)

/-- The prices of a breaker: the body of the row, or its whole range where the body is small. -/
def rowPrices (row : RawBar K) : Option K × Option K :=
  if largeBody cfg row then (pyMin row.opn row.close, pyMax row.opn row.close)
  else (pyMin row.low row.high, pyMax row.low row.high)

/-- What a breaker takes from the block, the sweep, the event and the row. -/
structure BuiltFrom (bias : Bias) (ob : SmcZone K) (sweep : SweepEvent K)
    (event : StructureEvent K) (row : RawBar K) (zone : BreakerZone K) : Prop where
  direction : zone.direction = oppositeOf ob.direction
  role : zone.role = deriveRole (oppositeOf ob.direction) bias
  block : zone.details.derivedFromObId = ob.zoneId
  sweep_time : zone.details.sweepTime = sweep.time
  sweep_level : zone.details.sweepLevel = sweep.level
  event_time : zone.details.bosTime = eventTime event
  event_type : zone.details.bosEventType = event.eventType
  time : rowTimestamp row = some zone.originTime
  prices : (zone.priceMin, zone.priceMax) = rowPrices cfg row

/-- The first sweep that fits and the first event that fits it make the block a breaker. -/
structure FirstPair (st : SmcStructureState K) (sfpEvents : List (SfpEntry K)) (ob : SmcZone K)
    (sweep : SweepEvent K) (event : StructureEvent K) : Prop where
  sweep_first : IsFirst (SweepFits cfg ob) (extractSweepEvents sfpEvents) sweep
  event_first : IsFirst (EventFits cfg ob sweep) (collectBosEvents st) event
  displaced : Displaced cfg st sweep event

/-- A breaker can be built of the snapshot's frame. -/
structure Usable (snapshot : SmcInput K) (frame : List (RawBar K)) : Prop where
  columns : snapshot.hasPriceColumns = true
  rows : frame ≠ []
  times : ∀ row ∈ frame, (rowTimestamp row).isSome = true

end

section

variable [Field K] [LinearOrder K] [FloorRing K] {cfg : SmcCoreConfig K} {lower : String → String}
  {snapshot : SmcInput K} {frame : List (RawBar K)} {ob : SmcZone K} {st : SmcStructureState K}
  {sfpEvents : List (SfpEntry K)} {sweep : SweepEvent K} {event : StructureEvent K}
  {atr : Option K} {bias : Bias} {displacement : K} {zone : BreakerZone K}

theorem buildBreakerZone_eq_some {i : ℕ}
    (h : buildBreakerZone cfg lower snapshot frame i (oppositeOf ob.direction) ob sweep event atr
      bias displacement = some zone) :
    snapshot.hasPriceColumns = true ∧
      ∃ row, frame[i]? = some row ∧ BuiltFrom cfg bias ob sweep event row zone := by
  unfold buildBreakerZone at h
  cases hrow : frame[i]? with
  | none =>
      rw [hrow] at h
      cases h
  | some row =>
      rw [hrow] at h
      cases htime : rowTimestamp row with
      | none =>
          simp only [htime] at h
          cases h
      | some t =>
          simp only [htime] at h
          by_cases hcolumns : snapshot.hasPriceColumns = true
          · rw [if_pos hcolumns] at h
            obtain rfl := Option.some.inj h
            refine ⟨hcolumns, row, rfl, rfl, rfl, rfl, rfl, rfl, rfl, rfl, htime, ?_⟩
            unfold rowPrices largeBody
            dsimp only
            split_ifs
            · rw [pyMin_ends, pyMax_ends]
            · rfl
          · rw [if_neg hcolumns] at h
            cases h

/-- A row with a timestamp gives a zone. -/
theorem exists_buildBreakerZone {i : ℕ} {row : RawBar K} {t : ℤ} {direction : Direction}
    (hcolumns : snapshot.hasPriceColumns = true) (hrow : frame[i]? = some row)
    (ht : rowTimestamp row = some t) :
    ∃ zone, buildBreakerZone cfg lower snapshot frame i direction ob sweep event atr bias
      displacement = some zone := by
  unfold buildBreakerZone
  simp only [hrow, ht, if_pos hcolumns]
  exact ⟨_, rfl⟩

variable [IsStrictOrderedRing K]

omit [FloorRing K] in
theorem displaced_iff : Displaced cfg st sweep event ↔
    ∃ displacement, calcDisplacement sweep.level event.priceLevel (breakerAtr st) =
      some displacement ∧ ¬ displacement < cfg.breakerMinDisplacementAtr := by
  unfold Displaced calcDisplacement
  cases breakerAtr st with
  | none => simp
  | some atr =>
      by_cases hpos : 0 < atr
      · simp [not_le.mpr hpos, hpos, le_div_iff₀ hpos]
      · simp [not_lt.mp hpos, hpos]

omit [IsStrictOrderedRing K] in
/-- One round gives a zone where the block is a PRIMARY order block, the first sweep and the
first event make it a breaker, and a zone can be built. -/
theorem breakerOf_eq_some_iff :
    breakerOf cfg lower snapshot frame (extractSweepEvents sfpEvents) (collectBosEvents st)
        (breakerAtr st) bias ob = some zone ↔
      ob.zoneType = .orderBlock ∧ ob.role = .primary ∧
      ∃ sweep, IsFirst (SweepFits cfg ob) (extractSweepEvents sfpEvents) sweep ∧
      ∃ event, IsFirst (EventFits cfg ob sweep) (collectBosEvents st) event ∧
      ∃ displacement, calcDisplacement sweep.level event.priceLevel (breakerAtr st) =
          some displacement ∧ ¬ displacement < cfg.breakerMinDisplacementAtr ∧
      ∃ i, findRowByTimestamp frame (eventTime event) = some i ∧
        buildBreakerZone cfg lower snapshot frame i (oppositeOf ob.direction) ob sweep event
          (breakerAtr st) bias displacement = some zone := by
  simp only [← findMatchingSweep_eq_some_iff, ← findBosAfterSweep_eq_some_iff]
  unfold breakerOf
  split_ifs with htype hrole
  · exact iff_of_false nofun fun h => htype h.1
  · exact iff_of_false nofun fun h => hrole h.2.1
  · rw [not_not] at htype hrole
    cases findMatchingSweep cfg ob (sweepSide ob.direction) (extractSweepEvents sfpEvents) with
    | none => simp
    | some sweep =>
        cases hevent : findBosAfterSweep cfg (oppositeOf ob.direction) sweep.time ob.originTime
          (collectBosEvents st) with
        | none => simp [hevent]
        | some event =>
            cases hmove : calcDisplacement sweep.level event.priceLevel (breakerAtr st) with
            | none => simp [hevent, hmove]
            | some displacement =>
                by_cases hsmall : displacement < cfg.breakerMinDisplacementAtr
                · simp [hevent, hmove, hsmall]
                · cases hrow : findRowByTimestamp frame (eventTime event) <;>
                    simp [hevent, hmove, hsmall, not_lt.mp hsmall, hrow, htype, hrole]

/-- What a zone of one round is built from. -/
theorem builtFrom_of_breakerOf
    (h : breakerOf cfg lower snapshot frame (extractSweepEvents sfpEvents) (collectBosEvents st)
      (breakerAtr st) bias ob = some zone) :
    (ob.zoneType = .orderBlock ∧ ob.role = .primary ∧ snapshot.hasPriceColumns = true) ∧
      ∃ sweep event, FirstPair cfg st sfpEvents ob sweep event ∧
        ∃ row ∈ frame, IsNearest frame (eventTime event) row ∧
          BuiltFrom cfg bias ob sweep event row zone := by
  obtain ⟨htype, hrole, sweep, hsweep, event, hevent, displacement, hmove, hlarge, i, hi, hzone⟩ :=
    breakerOf_eq_some_iff.mp h
  obtain ⟨hcolumns, row, hrow, hbuilt⟩ := buildBreakerZone_eq_some hzone
  exact ⟨⟨htype, hrole, hcolumns⟩, sweep, event,
    ⟨hsweep, hevent, displaced_iff.mpr ⟨displacement, hmove, hlarge⟩⟩, row,
    List.mem_of_getElem? hrow, ⟨_, hbuilt.time, nearest_of_findRow hi hrow hbuilt.time⟩, hbuilt⟩

/-- A block becomes a breaker exactly if its first sweep and event make it one. -/
theorem exists_breakerOf_iff (htype : ob.zoneType = .orderBlock) (hrole : ob.role = .primary) :
    (∃ zone, breakerOf cfg lower snapshot frame (extractSweepEvents sfpEvents)
        (collectBosEvents st) (breakerAtr st) bias ob = some zone) ↔
      Usable snapshot frame ∧ ∃ sweep event, FirstPair cfg st sfpEvents ob sweep event := by
  constructor
  · rintro ⟨zone, h⟩
    obtain ⟨⟨-, -, hcolumns⟩, sweep, event, hpair, row, hrow, ⟨t, -, hnearest⟩, -⟩ :=
      builtFrom_of_breakerOf h
    refine ⟨⟨hcolumns, List.ne_nil_of_mem hrow, fun row' hrow' => ?_⟩, sweep, event, hpair⟩
    obtain ⟨t', ht', -⟩ := hnearest row' hrow'
    rw [ht']
    rfl
  · rintro ⟨husable, sweep, event, hpair⟩
    obtain ⟨displacement, hmove, hlarge⟩ := displaced_iff.mp hpair.displaced
    obtain ⟨i, row, t, hi, hrow, ht⟩ :=
      exists_findRow (eventTime event) husable.rows husable.times
    obtain ⟨zone, hzone⟩ : ∃ zone, buildBreakerZone cfg lower snapshot frame i
        (oppositeOf ob.direction) ob sweep event (breakerAtr st) bias displacement = some zone :=
      exists_buildBreakerZone husable.columns hrow ht
    exact ⟨zone, breakerOf_eq_some_iff.mpr ⟨htype, hrole, sweep, hpair.sweep_first, event,
      hpair.event_first, displacement, hmove, hlarge, i, hi, hzone⟩⟩

omit [IsStrictOrderedRing K] in
theorem mem_detectBreakers {orderblocks : List (SmcZone K)} :
    zone ∈ detectBreakers cfg lower snapshot st sfpEvents orderblocks ↔
      ∃ frame, snapshot.frame = some frame ∧ ∃ ob ∈ orderblocks,
        breakerOf cfg lower snapshot frame (extractSweepEvents sfpEvents) (collectBosEvents st)
          (breakerAtr st) st.bias ob = some zone := by
  unfold detectBreakers
  cases snapshot.frame with
  | none => simp
  | some frame => simp [List.mem_filterMap]

/-- A breaker has a PRIMARY order block, a sweep and an event that make it one, and its prices
are those of the row nearest to the event. -/
theorem breakers_justified {orderblocks : List (SmcZone K)}
    (h : zone ∈ detectBreakers cfg lower snapshot st sfpEvents orderblocks) :
    ∃ frame, snapshot.frame = some frame ∧
      ∃ ob ∈ orderblocks, ob.zoneType = .orderBlock ∧ ob.role = .primary ∧
      ∃ entry ∈ sfpEvents, ∃ sweep, sweepOf entry = some sweep ∧
      ∃ event ∈ st.events ++ st.eventHistory, Documented cfg st ob sweep event ∧
      ∃ row ∈ frame, IsNearest frame (eventTime event) row ∧
        BuiltFrom cfg st.bias ob sweep event row zone := by
  obtain ⟨frame, hframe, ob, hob, hzone⟩ := mem_detectBreakers.mp h
  obtain ⟨⟨htype, hrole, -⟩, sweep, event, hpair, row, hrow, hnearest, hbuilt⟩ :=
    builtFrom_of_breakerOf hzone
  obtain ⟨entry, hentry, hsweep⟩ := mem_extractSweepEvents.mp hpair.sweep_first.mem
  exact ⟨frame, hframe, ob, hob, htype, hrole, entry, hentry, sweep, hsweep, event,
    mem_collectBosEvents.mp hpair.event_first.mem,
    ⟨hpair.sweep_first.1, hpair.event_first.1, hpair.displaced⟩, row, hrow, hnearest, hbuilt⟩

variable (cfg st sfpEvents ob) in
/-- Some sweep and some event make the block a breaker. -/
def HasPair : Prop :=
  ∃ sweep ∈ extractSweepEvents sfpEvents, ∃ event ∈ collectBosEvents st,
    Documented cfg st ob sweep event

variable (cfg lower snapshot frame st sfpEvents ob) in
/-- A zone of the block is among the breakers. -/
def Found (orderblocks : List (SmcZone K)) : Prop :=
  ∃ zone ∈ detectBreakers cfg lower snapshot st sfpEvents orderblocks,
    breakerOf cfg lower snapshot frame (extractSweepEvents sfpEvents) (collectBosEvents st)
      (breakerAtr st) st.bias ob = some zone

/-- A PRIMARY order block that some pair makes a breaker is found exactly if the first pair
makes it one. -/
theorem breaker_found_iff {orderblocks : List (SmcZone K)} (hframe : snapshot.frame = some frame)
    (husable : Usable snapshot frame) (hob : ob ∈ orderblocks)
    (htype : ob.zoneType = .orderBlock) (hrole : ob.role = .primary) :
    (HasPair cfg ob st sfpEvents → Found cfg lower snapshot frame ob st sfpEvents orderblocks) ↔
      (HasPair cfg ob st sfpEvents →
        ∃ sweep event, FirstPair cfg st sfpEvents ob sweep event) := by
  refine imp_congr_right fun _ => ?_
  constructor
  · rintro ⟨zone, -, hzone⟩
    exact ((exists_breakerOf_iff htype hrole).mp ⟨zone, hzone⟩).2
  · intro hpair
    obtain ⟨zone, hzone⟩ : ∃ zone, breakerOf cfg lower snapshot frame
        (extractSweepEvents sfpEvents) (collectBosEvents st) (breakerAtr st) st.bias ob =
        some zone := (exists_breakerOf_iff htype hrole).mpr ⟨husable, hpair⟩
    exact ⟨zone, mem_detectBreakers.mpr ⟨frame, hframe, ob, hob, hzone⟩, hzone⟩

end

section FixedInputs

/-- A SHORT block from 99 to 100. -/
def supply : SmcZone ℚ where
  zoneType := .orderBlock
  priceMin := some 99
  priceMax := some 100
  timeframe := "1m"
  originTime := 0
  direction := .short
  role := .primary
  strength := some 1
  confidence := some (1 / 2)
  components := ["orderblock", "leg_0_1"]
  zoneId := "ob_xauusd_1m_0_1"
  entryMode := .body05
  quality := .strong
  referenceLegId := "leg_0_1"
  referenceEventId := "structure_event_0"
  biasAtCreation := .short
  notes := ""
  details := ⟨some 1, some 0, some 0, .body05, .primary, .short, .bos, 2, 1, .strong⟩

/-- A rise at a minute to a price. -/
def riseTo (minute : ℤ) (price : ℚ) : StructureEvent ℚ :=
  ⟨.choch, .long, price, 60000 * minute,
    ⟨⟨0, 0, 99, .low, 3⟩, ⟨1, 60000 * minute, price, .high, 3⟩, .hh, some 100⟩⟩

def withEvents (events : List (StructureEvent ℚ)) : SmcStructureState ℚ where
  swings := []
  legs := []
  trend := .range
  atr := []
  events := events
  bias := .short
  lastChochTs := none
  eventHistory := []
  oteZones := []
  atrLast := some 1
  atrMedian := none
  snapshotStartTs := none
  snapshotEndTs := none

def fourBars : List (RawBar ℚ) :=
  [⟨some 0, some 99, some 100, some 99, some 100⟩,
    ⟨some 60000, some 100, some 101, some 99, some 100⟩,
    ⟨some 120000, some 100, some 103, some 100, some 103⟩,
    ⟨some 180000, some 103, some 104, some 102, some 103⟩]

def fourMinutes : SmcInput ℚ := ⟨"xauusd", "1m", some fourBars, true⟩

/-- The high at 100 is swept a minute after the block. -/
def sweptHigh : List (SfpEntry ℚ) := [⟨some .high, some 100, some 60000000000, some "swing"⟩]

theorem four_bars_usable : Usable fourMinutes fourBars :=
  ⟨rfl, List.cons_ne_nil _ _, by decide⟩

/-- The rise to 103 makes the block a breaker. -/
theorem supply_justified :
    ∃ zone ∈ detectBreakers (smcCoreConfig ℚ) id fourMinutes (withEvents [riseTo 2 103]) sweptHigh
        [supply],
      zone.priceMin = some 100 ∧ zone.priceMax = some 103 ∧
      ∃ frame, fourMinutes.frame = some frame ∧
        ∃ ob ∈ [supply], ob.zoneType = .orderBlock ∧ ob.role = .primary ∧
        ∃ entry ∈ sweptHigh, ∃ sweep, sweepOf entry = some sweep ∧
        ∃ event ∈ [riseTo 2 103],
          Documented (smcCoreConfig ℚ) (withEvents [riseTo 2 103]) ob sweep event ∧
        ∃ row ∈ frame, IsNearest frame (eventTime event) row ∧
          BuiltFrom (smcCoreConfig ℚ) .short ob sweep event row zone := by
  have hfound : ((detectBreakers (smcCoreConfig ℚ) id fourMinutes (withEvents [riseTo 2 103])
      sweptHigh [supply]).any fun zone =>
        decide (zone.priceMin = some 100 ∧ zone.priceMax = some 103)) = true := by decide +kernel
  obtain ⟨zone, hzone, hprices⟩ := List.any_eq_true.mp hfound
  have hprices := of_decide_eq_true hprices
  exact ⟨zone, hzone, hprices.1, hprices.2, breakers_justified hzone⟩

def sweep100 : SweepEvent ℚ := ⟨60000000000, 100, .high, some "swing"⟩

theorem sweep100_fits : SweepFits (smcCoreConfig ℚ) supply sweep100 := by
  have htol : breakerTolerance (smcCoreConfig ℚ) supply = some (3 / 20) := by
    norm_num [breakerTolerance, supply, smcCoreConfig, pyMax, ratio]
  exact ⟨rfl, by decide, by decide, 100, 3 / 20, rfl, htol, by norm_num [sweep100]⟩

theorem rise_fits {minute : ℤ} {price : ℚ} (hafter : 1 ≤ minute) (hsoon : minute ≤ 181) :
    EventFits (smcCoreConfig ℚ) supply sweep100 (riseTo minute price) := by
  refine ⟨rfl, ?_, ?_, ?_⟩ <;>
    simp only [sweep100, supply, eventTime, riseTo, minutes, smcCoreConfig] <;> omega

theorem rise_to_103_displaced {st : SmcStructureState ℚ} {minute : ℤ} (hatr : st.atrLast = some 1) :
    Displaced (smcCoreConfig ℚ) st sweep100 (riseTo minute 103) := by
  refine ⟨1, ?_, by decide, ?_⟩
  · unfold breakerAtr
    rw [hatr]
    rfl
  · change (75 / 100 : ℚ) * 1 ≤ |103 - 100|
    norm_num

/-- The first rise to 103 is found. -/
theorem supply_found :
    HasPair (smcCoreConfig ℚ) supply (withEvents [riseTo 2 103]) sweptHigh ∧
      Found (smcCoreConfig ℚ) id fourMinutes fourBars supply (withEvents [riseTo 2 103]) sweptHigh
        [supply] := by
  have hpair : HasPair (smcCoreConfig ℚ) supply (withEvents [riseTo 2 103]) sweptHigh :=
    ⟨sweep100, List.mem_cons_self, riseTo 2 103, List.mem_cons_self, sweep100_fits,
      rise_fits (by decide) (by decide), rise_to_103_displaced rfl⟩
  refine ⟨hpair, (breaker_found_iff rfl four_bars_usable List.mem_cons_self rfl rfl).mpr
    (fun _ => ?_) hpair⟩
  exact ⟨sweep100, riseTo 2 103, ⟨sweep100_fits, [], [], rfl, by simp⟩,
    ⟨rise_fits (by decide) (by decide), [], [], rfl, by simp⟩,
    rise_to_103_displaced rfl⟩

/-- The first rise after the sweep is small, and the second one is not looked at. -/
theorem small_rise_hides_large_one :
    HasPair (smcCoreConfig ℚ) supply (withEvents [riseTo 2 (1001 / 10), riseTo 3 103]) sweptHigh ∧
      detectBreakers (smcCoreConfig ℚ) id fourMinutes
        (withEvents [riseTo 2 (1001 / 10), riseTo 3 103]) sweptHigh [supply] = [] :=
  ⟨⟨sweep100, List.mem_cons_self, riseTo 3 103, List.mem_cons_of_mem _ List.mem_cons_self,
    sweep100_fits, rise_fits (by decide) (by decide), rise_to_103_displaced rfl⟩,
    by decide +kernel⟩

end FixedInputs

end SmcPipeline.BreakerSpec
