import SmcPipeline.EventMemory
import SmcPipeline.OrderBlocks

/-!
# The break that validates an order block

`detect_order_blocks` recognises the break event of a leg by the positions of its two
swings in the frame and by its label. Memory keeps events of earlier windows, whose
positions count from another bar, and it is searched from the oldest event on. An event
left over from such a window, if it matches a leg at all, matches a leg of other times
and is found first.
-/

namespace SmcPipeline.BlockBreaks

open Candles Swings StructureEngine StructureState Snapshots EventHistory EventMemory OrderBlocks
  Runs

section

variable {K : Type*} [Field K] [LinearOrder K] [FloorRing K] (lower : String → String)
  (cfg : SmcCoreConfig K) (symbol timeframe : String) (limit : ℕ)

/-- The snapshot a tick brings. -/
def snapshotInput (s : Feed K) (tick : Tick K) : SmcInput K :=
  ⟨symbol, timeframe, some (lastBars limit (s.seen ++ [tick.bar])), true⟩

/-- The order blocks of the snapshot a tick brings. -/
def blocksAt (s : Feed K) (tick : Tick K) : List (OrderBlock K) :=
  orderBlocks lower cfg (snapshotInput symbol timeframe limit s tick)
    (report lower cfg symbol timeframe limit s tick).1 tick.utcnow

/-- Every zone refers to an event that comes from a leg between the bars of the zone's own
leg. -/
def Justified (s : Feed K) (tick : Tick K) : Prop :=
  ∀ b ∈ blocksAt lower cfg symbol timeframe limit s tick,
    b.zone.referenceEventId = eventId b.breakEvent ∧
      b.breakEvent.sourceLeg.toSwing.time = b.leg.toSwing.time ∧
        b.breakEvent.sourceLeg.fromSwing.time = b.leg.fromSwing.time

/-- An event in memory before the tick that its snapshot does not emit again and that
pruning keeps. -/
structure Leftover (s : Feed K) (tick : Tick K) (e : StructureEvent K) : Prop where
  remembered : e ∈ (bucketOf lower s.store symbol timeframe).events
  silent : eventKey e ∉ (snapshotOf cfg limit (s.seen ++ [tick.bar])).events.map eventKey
  kept : e ∈ (report lower cfg symbol timeframe limit s tick).1.eventHistory

/-- The zone of a leg if `e` is its break event. -/
def blockWith (s : Feed K) (tick : Tick K) (e : StructureEvent K) (leg : Leg K) :
    Option (OrderBlock K) :=
  orderBlockOf lower cfg (snapshotInput symbol timeframe limit s tick)
    (lastBars limit (s.seen ++ [tick.bar])) tick.utcnow
    (atrOf (report lower cfg symbol timeframe limit s tick).1)
    (snapshotOf cfg limit (s.seen ++ [tick.bar])).bias (fun _ _ => some e) leg

/-- No leftover event has the direction, positions and label of a leg that can give a
zone. -/
def Clear (s : Feed K) (tick : Tick K) : Prop :=
  ∀ e, Leftover lower cfg symbol timeframe limit s tick e →
    ∀ leg ∈ (snapshotOf cfg limit (s.seen ++ [tick.bar])).legs, ∀ direction,
      legDirection leg = some direction → breaksLeg leg direction e = true →
        blockWith lower cfg symbol timeframe limit s tick e leg = none

omit [FloorRing K] in
theorem time_of_index {rows : List (Candle K)} {s s' : Swing K}
    (hs : s ∈ (ofRows cfg rows).swings) (hs' : s' ∈ (ofRows cfg rows).swings)
    (hindex : s.index = s'.index) : s.time = s'.time := by
  obtain ⟨-, -, -, -, r, hr, ht⟩ := swingAt_eq_some (mem_detectSwings.mp hs).2.2
  obtain ⟨-, -, -, -, q, hq, ht'⟩ := swingAt_eq_some (mem_detectSwings.mp hs').2.2
  rw [hindex, hq] at hr
  cases hr
  rw [ht, ht']

omit [FloorRing K] in
theorem fromSwing_mem {rows : List (Candle K)} {leg : Leg K} (h : leg ∈ (ofRows cfg rows).legs) :
    leg.fromSwing ∈ (ofRows cfg rows).swings := by
  obtain ⟨pre, post, hswings, hleg⟩ := legAt_of_mem_buildLegs h
  rw [ofRows_swings, hswings]
  exact List.mem_append_left _ (List.mem_of_getLast? hleg.from_last)

omit [FloorRing K] in
/-- Within one frame the signature of a leg determines its times. -/
theorem times_of_signature {rows : List (Candle K)} {leg leg' : Leg K}
    (h : leg ∈ (ofRows cfg rows).legs) (h' : leg' ∈ (ofRows cfg rows).legs)
    (hsig : legSignature leg = legSignature leg') :
    leg.toSwing.time = leg'.toSwing.time ∧ leg.fromSwing.time = leg'.fromSwing.time := by
  unfold legSignature at hsig
  simp only [Prod.mk.injEq] at hsig
  exact ⟨time_of_index cfg (toSwing_mem cfg h) (toSwing_mem cfg h') hsig.2.1,
    time_of_index cfg (fromSwing_mem cfg h) (fromSwing_mem cfg h') hsig.1⟩

/-- An event of an earlier snapshot that is not emitted again lies before the leg whose
positions it has. -/
theorem leftover_earlier {bars : List (RawBar K)} (hbars : Ordered bars) {e : StructureEvent K}
    (he : Emitted cfg limit bars e)
    (hsilent : eventKey e ∉ (snapshotOf cfg limit bars).events.map eventKey) {leg : Leg K}
    (hleg : leg ∈ (snapshotOf cfg limit bars).legs)
    (hsig : legSignature e.sourceLeg = legSignature leg) : e.time < leg.toSwing.time := by
  obtain ⟨past, more, rfl, hmem⟩ := he
  obtain ⟨front, rest, hcat, htimed⟩ := windows_overlap cfg.maxLookbackBars limit hbars
  generalize hnow : prepared cfg.maxLookbackBars (some (lastBars limit (past ++ more))) = now at *
  have hlate : snapshotOf cfg limit (past ++ more) = ofRows cfg now := by
    rw [← hnow]
    rfl
  have hearly : snapshotOf cfg limit past =
      ofRows cfg (prepared cfg.maxLookbackBars (some (lastBars limit past))) := rfl
  generalize prepared cfg.maxLookbackBars (some (lastBars limit past)) = early at *
  rw [hlate] at hsilent hleg
  rw [hearly] at hmem
  obtain ⟨hsource, htime, -⟩ := mem_events cfg hmem
  cases front with
  | nil =>
      -- the window has not moved, so the event is emitted again
      rw [List.nil_append] at hcat
      have hagain := (ofRows_append cfg early rest).2.2.subset hmem
      rw [hcat] at hagain
      exact absurd (List.mem_map_of_mem hagain) hsilent
  | cons first front =>
      obtain ⟨-, -, -, -, r, hr, hrt⟩ :=
        swingAt_eq_some (mem_detectSwings.mp (toSwing_mem cfg hsource)).2.2
      obtain ⟨-, -, -, -, q, hq, hqt⟩ :=
        swingAt_eq_some (mem_detectSwings.mp (toSwing_mem cfg hleg)).2.2
      have hindex : e.sourceLeg.toSwing.index = leg.toSwing.index := by
        unfold legSignature at hsig
        simp only [Prod.mk.injEq] at hsig
        exact hsig.2.1
      rw [hindex] at hr
      have hr' : (first :: front ++ now)[leg.toSwing.index]? = some r := by
        obtain ⟨hlt, -⟩ := List.getElem?_eq_some_iff.mp hr
        rw [← hcat, List.getElem?_append_left hlt, hr]
      have hq' : (first :: front ++ now)[leg.toSwing.index + (first :: front).length]? =
          some q := by
        rw [List.getElem?_append_right (Nat.le_add_left _ _), Nat.add_sub_cancel, hq]
      obtain ⟨hlt, rfl⟩ := List.getElem?_eq_some_iff.mp hr'
      obtain ⟨hlt', rfl⟩ := List.getElem?_eq_some_iff.mp hq'
      rw [htime, hrt, hqt]
      apply List.pairwise_iff_getElem.mp htimed _ _ hlt hlt'
      rw [List.length_cons]
      omega

omit [Field K] [LinearOrder K] [FloorRing K] in
theorem find?_time_le {events : List (StructureEvent K)}
    (hsorted : events.Pairwise fun a b => a.time ≤ b.time) {p : StructureEvent K → Bool}
    {e f : StructureEvent K} (hf : events.find? p = some f) (he : e ∈ events) (hp : p e = true) :
    f.time ≤ e.time := by
  obtain ⟨-, before, after, rfl, hbefore⟩ := List.find?_eq_some_iff_append.mp hf
  rcases List.mem_append.mp he with he | he
  · have hno := hbefore e he
    rw [hp] at hno
    cases hno
  · rcases List.mem_cons.mp he with rfl | he
    · exact le_rfl
    · rw [List.pairwise_append, List.pairwise_cons] at hsorted
      exact hsorted.2.1.1 e he

/-- An event of the returned history is emitted now or left over. -/
theorem mem_eventHistory {s : Feed K} {tick : Tick K} {e : StructureEvent K}
    (h : e ∈ (report lower cfg symbol timeframe limit s tick).1.eventHistory) :
    e ∈ (snapshotOf cfg limit (s.seen ++ [tick.bar])).events ∨
      Leftover lower cfg symbol timeframe limit s tick e := by
  rcases Bucket.mem_events_update h with hnew | ⟨hsilent, hold⟩
  · exact Or.inl hnew
  · exact Or.inr ⟨hold, hsilent, h⟩

theorem mem_structureEvents {s : Feed K} {tick : Tick K} {e : StructureEvent K}
    (h : e ∈ structureEvents (report lower cfg symbol timeframe limit s tick).1) :
    e ∈ (snapshotOf cfg limit (s.seen ++ [tick.bar])).events ∨
      Leftover lower cfg symbol timeframe limit s tick e := by
  unfold structureEvents at h
  split_ifs at h
  · exact Or.inl h
  · exact mem_eventHistory lower cfg symbol timeframe limit h

theorem mem_blocksAt {s : Feed K} {tick : Tick K} {b : OrderBlock K} :
    b ∈ blocksAt lower cfg symbol timeframe limit s tick ↔
      ∃ leg ∈ (snapshotOf cfg limit (s.seen ++ [tick.bar])).legs,
        orderBlockOf lower cfg (snapshotInput symbol timeframe limit s tick)
          (lastBars limit (s.seen ++ [tick.bar])) tick.utcnow
          (atrOf (report lower cfg symbol timeframe limit s tick).1)
          (snapshotOf cfg limit (s.seen ++ [tick.bar])).bias
          (legBreakEvent (structureEvents (report lower cfg symbol timeframe limit s tick).1))
          leg = some b := by
  unfold blocksAt
  rw [mem_orderBlocks]
  constructor
  · rintro ⟨frame, hframe, -, hleg⟩
    cases hframe
    exact hleg
  · exact fun hleg => ⟨_, rfl, rfl, hleg⟩

/-- A leg that a leftover event matches takes its break event from before its time. -/
theorem break_before {s : Feed K} {tick : Tick K}
    (hs : Recorded lower cfg symbol timeframe limit s) (hopens : Opens s tick)
    {e : StructureEvent K} (he : Leftover lower cfg symbol timeframe limit s tick e) {leg : Leg K}
    (hleg : leg ∈ (snapshotOf cfg limit (s.seen ++ [tick.bar])).legs) {direction : Direction}
    (hmatch : breaksLeg leg direction e = true) :
    ∃ f, legBreakEvent (structureEvents (report lower cfg symbol timeframe limit s tick).1) leg
        direction = some f ∧ f.sourceLeg.toSwing.time < leg.toSwing.time := by
  have hbars := ordered_concat hs.ordered hopens
  have hearlier := leftover_earlier cfg limit hbars (hs.emitted e he.remembered).append he.silent
    hleg (breaksLeg_iff.mp hmatch).2
  have hmem : e ∈ structureEvents (report lower cfg symbol timeframe limit s tick).1 := by
    unfold structureEvents
    rw [if_neg]
    · exact he.kept
    · rw [List.isEmpty_iff]
      exact List.ne_nil_of_mem he.kept
  have hhistory : structureEvents (report lower cfg symbol timeframe limit s tick).1 =
      (report lower cfg symbol timeframe limit s tick).1.eventHistory := by
    unfold structureEvents
    rw [if_neg]
    rw [List.isEmpty_iff]
    exact List.ne_nil_of_mem he.kept
  obtain ⟨f, hf⟩ := Option.isSome_iff_exists.mp
    (List.find?_isSome.mpr ⟨e, hmem, hmatch⟩)
  have hfirst : f.time ≤ e.time := by
    rw [hhistory] at hf hmem
    exact find?_time_le (Bucket.events_update_sorted _ _ _ _ _) hf hmem hmatch
  have htime : f.time = f.sourceLeg.toSwing.time := by
    rcases mem_structureEvents lower cfg symbol timeframe limit (List.mem_of_find?_eq_some hf) with
      hnew | hold
    · exact (mem_events cfg hnew).2.1
    · obtain ⟨past, rest, -, hpast⟩ := hs.emitted f hold.remembered
      exact (mem_events cfg hpast).2.1
  exact ⟨f, hf, by rw [← htime]; exact hfirst.trans_lt hearlier⟩

/-- In every run of the feed, the order blocks of the next snapshot are justified by their
own legs' breaks exactly when no leftover event matches a leg that can give a zone. -/
theorem justified_iff_clear {ticks : List (Tick K)} {s : Feed K}
    (hrun : Run (advance lower cfg symbol timeframe limit) Opens Feed.fresh ticks s)
    {tick : Tick K} (hopens : Opens s tick) :
    Justified lower cfg symbol timeframe limit s tick ↔
      Clear lower cfg symbol timeframe limit s tick := by
  have hs := recorded_run lower cfg symbol timeframe limit hrun
  constructor
  · intro hjust e he leg hleg direction hdirection hmatch
    obtain ⟨f, hf, hbefore⟩ := break_before lower cfg symbol timeframe limit hs hopens he hleg hmatch
    by_contra hblock
    have hsome : (blockWith lower cfg symbol timeframe limit s tick e leg).isSome = true :=
      Option.isSome_iff_ne_none.mpr hblock
    unfold blockWith at hsome
    rw [orderBlockOf_isSome _ (legBreakEvent (structureEvents
      (report lower cfg symbol timeframe limit s tick).1)) hdirection (by rw [hf]; rfl)] at hsome
    obtain ⟨b, hb⟩ := Option.isSome_iff_exists.mp hsome
    obtain ⟨⟨rfl, direction', hdirection', hbreak⟩, -⟩ := orderBlockOf_eq_some hb
    rw [hdirection] at hdirection'
    cases hdirection'
    rw [hf] at hbreak
    cases hbreak
    have htime := (hjust b ((mem_blocksAt lower cfg symbol timeframe limit).mpr ⟨_, hleg, hb⟩)).2.1
    exact absurd htime hbefore.ne
  · intro hclear b hb
    obtain ⟨leg, hleg, hb⟩ := (mem_blocksAt lower cfg symbol timeframe limit).mp hb
    obtain ⟨⟨rfl, direction, hdirection, hbreak⟩, -, hid⟩ := orderBlockOf_eq_some hb
    obtain ⟨hmem, hmatch⟩ := legBreakEvent_eq_some hbreak
    refine ⟨hid, ?_⟩
    rcases mem_structureEvents lower cfg symbol timeframe limit hmem with hnew | hold
    · exact times_of_signature cfg (mem_events cfg hnew).1 hleg (breaksLeg_iff.mp hmatch).2
    · -- a leftover event would have given no zone
      have hnone := hclear _ hold _ hleg _ hdirection hmatch
      have hsome : (blockWith lower cfg symbol timeframe limit s tick b.breakEvent b.leg).isSome =
          true := by
        unfold blockWith
        rw [orderBlockOf_isSome _ (legBreakEvent (structureEvents
          (report lower cfg symbol timeframe limit s tick).1)) hdirection (by rw [hbreak]), hb]
        rfl
      rw [hnone] at hsome
      cases hsome

end

section FixedInputs

def candleOf (n : ℤ) (opn high low close : ℚ) : Tick ℚ :=
  ⟨⟨some (60000 * n), some opn, some high, some low, some close⟩, 60000 * n⟩

/-- A stream with a break at minute 4 whose leg loses its reference with the sixth bar. -/
def settledStream : List (Tick ℚ) :=
  [candleOf 1 3 6 3 6, candleOf 2 8 8 4 4, candleOf 3 8 8 4 4, candleOf 4 9 11 9 11,
    candleOf 5 6 6 3 3]

/-- With the sixth bar the break at minute 4 is left over, no leg has its positions, and
the one order block is justified. -/
theorem sixth_bar_is_clear :
    ∃ s, Run (advance id sensitive "xauusd" "1m" 5) Opens Feed.fresh settledStream s ∧
      blocksAt id sensitive "xauusd" "1m" 5 s (candleOf 6 7 7 4 4) ≠ [] ∧
        Justified id sensitive "xauusd" "1m" 5 s (candleOf 6 7 7 4 4) ∧
          Clear id sensitive "xauusd" "1m" 5 s (candleOf 6 7 7 4 4) := by
  obtain ⟨s, hrun, hblocks⟩ := Run.exists_of_checked (advance id sensitive "xauusd" "1m" 5) Opens
    Feed.fresh settledStream (fun s => decide (Opens s (candleOf 6 7 7 4 4) ∧
      blocksAt id sensitive "xauusd" "1m" 5 s (candleOf 6 7 7 4 4) ≠ [] ∧
        ∀ b ∈ blocksAt id sensitive "xauusd" "1m" 5 s (candleOf 6 7 7 4 4),
          b.zone.referenceEventId = eventId b.breakEvent ∧
            b.breakEvent.sourceLeg.toSwing.time = b.leg.toSwing.time ∧
              b.breakEvent.sourceLeg.fromSwing.time = b.leg.fromSwing.time)) (by decide +kernel)
  obtain ⟨hopens, hsome, hjustified⟩ := of_decide_eq_true hblocks
  exact ⟨s, hrun, hsome, hjustified,
    (justified_iff_clear id sensitive "xauusd" "1m" 5 hrun hopens).mp hjustified⟩

/-- A stream that breaks to a new low at minutes 4 and 6. -/
def fallingStream : List (Tick ℚ) :=
  [candleOf 1 6 10 6 10, candleOf 2 4 8 4 8, candleOf 3 7 8 7 8, candleOf 4 3 3 2 2,
    candleOf 5 8 11 8 11, candleOf 6 4 4 1 1]

/-- With the seventh bar the leg to minute 6 takes the place of the leg to minute 4 in the
window, and the older break validates its zone. -/
theorem older_break_validates_block :
    ∃ s, Run (advance id sensitive "xauusd" "1m" 5) Opens Feed.fresh fallingStream s ∧
      Opens s (candleOf 7 9 12 9 12) ∧
      (∃ b ∈ blocksAt id sensitive "xauusd" "1m" 5 s (candleOf 7 9 12 9 12),
        b.leg.toSwing.time = 360000 ∧ b.breakEvent.sourceLeg.toSwing.time = 240000 ∧
          b.leg.fromSwing.time = 300000 ∧ b.breakEvent.sourceLeg.fromSwing.time = 180000) ∧
      ¬ Justified id sensitive "xauusd" "1m" 5 s (candleOf 7 9 12 9 12) := by
  obtain ⟨s, hrun, hblock⟩ := Run.exists_of_checked (advance id sensitive "xauusd" "1m" 5) Opens
    Feed.fresh fallingStream (fun s => decide
      (Opens s (candleOf 7 9 12 9 12) ∧
        ∃ b ∈ blocksAt id sensitive "xauusd" "1m" 5 s (candleOf 7 9 12 9 12),
          b.leg.toSwing.time = 360000 ∧ b.breakEvent.sourceLeg.toSwing.time = 240000 ∧
            b.leg.fromSwing.time = 300000 ∧ b.breakEvent.sourceLeg.fromSwing.time = 180000))
    (by decide +kernel)
  obtain ⟨hopens, b, hb, hto, hevent, hfrom⟩ := of_decide_eq_true hblock
  refine ⟨s, hrun, hopens, ⟨b, hb, hto, hevent, hfrom⟩, fun hjustified => ?_⟩
  have hsame := (hjustified b hb).2.1
  rw [hto, hevent] at hsame
  cases hsame

end FixedInputs

end SmcPipeline.BlockBreaks
