import SmcPipeline.BlockCoordinates

/-!
# The direction of an order block

`_leg_direction` reads the label of a leg, which compares its end with an older swing of the
same kind. A leg between two swings of one kind goes where its label says, and so does one
labelled HH or LL; but a leg labelled HL mostly falls from a swing high, and is taken for an
impulse up.
-/

namespace SmcPipeline.BlockDirections

open Candles Swings StructureEngine StructureState OrderBlocks Snapshots EventHistory
  CandidateRows BlockCoordinates OteZones

variable {K : Type*}

section

variable [LinearOrder K]

/-- The leg ends above its start, or below it. -/
def Goes (leg : Leg K) : Direction → Prop
  | .long => leg.fromSwing.price < leg.toSwing.price
  | .short => leg.toSwing.price < leg.fromSwing.price

/-- The leg goes the way of the zone. -/
def Aligned (b : OrderBlock K) : Prop := Goes b.leg b.zone.direction

/-- A leg between swings of two kinds that goes against its label. -/
def Crossed (leg : Leg K) : Prop :=
  leg.fromSwing.kind ≠ leg.toSwing.kind ∧
    match leg.label with
    | .hh | .hl => leg.toSwing.price < leg.fromSwing.price
    | .lh | .ll => leg.fromSwing.price < leg.toSwing.price
    | .undefined => False

/-- A leg that falls from a high to a higher low, or rises from a low to a lower high. -/
def Pullback (leg : Leg K) : Prop :=
  (leg.label = .hl ∧ leg.fromSwing.kind = .high ∧ leg.toSwing.price < leg.fromSwing.price) ∨
    (leg.label = .lh ∧ leg.fromSwing.kind = .low ∧ leg.fromSwing.price < leg.toSwing.price)

/-- A label says on which side of its reference a leg ends. -/
theorem label_spec {swings : List (Swing K)} {leg : Leg K} (h : leg ∈ buildLegs swings) :
    match leg.label with
    | .hh => leg.toSwing.kind = .high ∧ ∀ p ∈ leg.referencePrice, p < leg.toSwing.price
    | .lh => leg.toSwing.kind = .high ∧ ∀ p ∈ leg.referencePrice, leg.toSwing.price ≤ p
    | .hl => leg.toSwing.kind = .low ∧ ∀ p ∈ leg.referencePrice, p < leg.toSwing.price
    | .ll => leg.toSwing.kind = .low ∧ ∀ p ∈ leg.referencePrice, leg.toSwing.price ≤ p
    | .undefined => True := by
  obtain ⟨pre, post, -, hat⟩ := legAt_of_mem_buildLegs h
  rw [hat.label]
  unfold labelOf
  cases leg.toSwing.kind <;> cases leg.referencePrice with
  | none => trivial
  | some p =>
      dsimp only
      split_ifs with hlt <;> simp_all

/-- Between swings of one kind the reference is the start of the leg. -/
theorem reference_of_same_kind {swings : List (Swing K)} {leg : Leg K}
    (h : leg ∈ buildLegs swings) (hkind : leg.fromSwing.kind = leg.toSwing.kind) :
    leg.referencePrice = some leg.fromSwing.price := by
  obtain ⟨pre, post, -, hat⟩ := legAt_of_mem_buildLegs h
  obtain ⟨pre', rfl⟩ := List.getLast?_eq_some_iff.mp hat.from_last
  rw [hat.reference, pricesOf_concat, lastOf_remember, if_pos hkind]

/-- Apart from legs of no length, a leg goes the way of its label unless it is crossed. -/
theorem crossed_iff {swings : List (Swing K)} {leg : Leg K} (h : leg ∈ buildLegs swings)
    (hne : leg.toSwing.price ≠ leg.fromSwing.price) {direction : Direction}
    (hdirection : legDirection leg = some direction) :
    Crossed leg ↔ ¬ Goes leg direction := by
  have hlabel := label_spec h
  have hreference := reference_of_same_kind h
  unfold Crossed
  unfold legDirection at hdirection
  by_cases hkind : leg.fromSwing.kind = leg.toSwing.kind
  · -- the reference is the start, so that the label says where the leg goes
    rw [hreference hkind] at hlabel
    refine iff_of_false (fun hcrossed => hcrossed.1 hkind) (not_not_intro ?_)
    cases hl : leg.label <;> rw [hl] at hlabel hdirection <;> cases hdirection
    · exact hlabel.2 _ rfl
    · exact hlabel.2 _ rfl
    · exact lt_of_le_of_ne (hlabel.2 _ rfl) hne
    · exact lt_of_le_of_ne (hlabel.2 _ rfl) hne
  · cases hl : leg.label <;> rw [hl] at hdirection <;> cases hdirection <;>
      simp only [Goes, ne_eq, hkind, not_false_eq_true, true_and, not_lt]
    · exact ⟨le_of_lt, fun hle => lt_of_le_of_ne hle hne⟩
    · exact ⟨le_of_lt, fun hle => lt_of_le_of_ne hle hne⟩
    · exact ⟨le_of_lt, fun hle => lt_of_le_of_ne hle (Ne.symm hne)⟩
    · exact ⟨le_of_lt, fun hle => lt_of_le_of_ne hle (Ne.symm hne)⟩

/-- In a frame of complete bars only a pullback is crossed. -/
theorem pullback_of_crossed {rows : List (Candle K)} {minSeparation : ℤ} (hrows : WellFormed rows)
    {leg : Leg K} (h : leg ∈ buildLegs (detectSwings rows minSeparation)) :
    Crossed leg ↔ Pullback leg := by
  have hlabel := label_spec h
  unfold Crossed Pullback
  cases hl : leg.label with
  | hh =>
      have hle := start_le_of_hh hrows h hl
      simp only [reduceCtorEq, false_and, or_self, iff_false, not_and, not_lt]
      exact fun _ => hle
  | ll =>
      have hle := end_le_of_ll hrows h hl
      simp only [reduceCtorEq, false_and, or_self, iff_false, not_and, not_lt]
      exact fun _ => hle
  | hl =>
      rw [hl] at hlabel
      rw [hlabel.1]
      cases leg.fromSwing.kind <;> simp
  | lh =>
      rw [hl] at hlabel
      rw [hlabel.1]
      cases leg.fromSwing.kind <;> simp
  | undefined => simp

end

section

variable [Field K] [LinearOrder K] (lower : String → String) (cfg : SmcCoreConfig K)

variable {lower cfg} {snapshot : SmcInput K} {frame : List (RawBar K)} {utcnow : ℤ} {atr : K}
  {bias : Bias} {leg : Leg K} {direction : Direction} {events : List (StructureEvent K)}

/-- A zone has the direction of its leg. -/
theorem orderBlockOf_direction {breakEventOf : Leg K → Direction → Option (StructureEvent K)}
    {b : OrderBlock K}
    (h : orderBlockOf lower cfg snapshot frame utcnow atr bias breakEventOf leg = some b) :
    legDirection leg = some b.zone.direction := by
  obtain ⟨-, direction, _, _, _, hdirection, -, -, hzone⟩ := orderBlockOf_built h
  obtain ⟨-, ⟨-, hsame, -⟩, -⟩ := buildZoneFromRow_eq_some hzone
  rw [hsame, hdirection]

theorem ne_of_passes (h : Passes cfg frame atr events direction leg) :
    leg.toSwing.price ≠ leg.fromSwing.price := by
  intro heq
  have hmoves := h.moves
  rw [heq, sub_self, abs, neg_zero, sup_idem] at hmoves
  exact lt_irrefl 0 hmoves

end

section

variable [Field K] [LinearOrder K] [FloorRing K] {lower : String → String} {cfg : SmcCoreConfig K}
  {snapshot : SmcInput K} {store : Store K} {utcnow : ℤ}

variable (lower cfg snapshot store utcnow) in
/-- No such leg of the snapshot passes. -/
def NonePasses (bad : Leg K → Prop) : Prop :=
  let st := (computeStructureState lower cfg snapshot.symbol snapshot.tfPrimary store
    snapshot.frame utcnow).1
  ∀ frame, snapshot.frame = some frame → snapshot.hasPriceColumns = true →
    ∀ leg ∈ buildLegs (detectSwings (prepared cfg.maxLookbackBars snapshot.frame)
        cfg.minSwingBars),
      ∀ direction, legDirection leg = some direction → bad leg →
        ¬ Passes cfg frame (atrOf st) (structureEvents st) direction leg

theorem aligned_iff_nonePasses {bad : Leg K → Prop}
    (hbad : ∀ leg ∈ buildLegs (detectSwings (prepared cfg.maxLookbackBars snapshot.frame)
        cfg.minSwingBars), ∀ direction, legDirection leg = some direction →
      leg.toSwing.price ≠ leg.fromSwing.price → (bad leg ↔ ¬ Goes leg direction)) :
    (∀ b ∈ blocksOf lower cfg snapshot store utcnow, Aligned b) ↔
      NonePasses lower cfg snapshot store utcnow bad := by
  constructor
  · intro haligned frame hframe hcolumns leg hleg direction hdirection hleg_bad hpasses
    obtain ⟨b, hb⟩ := Option.isSome_iff_exists.mp
      ((orderBlockOf_isSome_iff hdirection).mpr hpasses)
    have hgoes := haligned b (mem_orderBlocks.mpr ⟨frame, hframe, hcolumns, leg, hleg, hb⟩)
    obtain ⟨⟨hlegeq, -⟩, -⟩ := orderBlockOf_eq_some hb
    have hsame := hdirection.symm.trans (orderBlockOf_direction hb)
    rw [Aligned, hlegeq, ← Option.some.inj hsame] at hgoes
    exact (hbad leg hleg direction hdirection (ne_of_passes hpasses)).mp hleg_bad hgoes
  · intro hnone b hb
    obtain ⟨frame, hframe, hcolumns, leg, hleg, hblock⟩ := mem_orderBlocks.mp hb
    have hdirection := orderBlockOf_direction hblock
    have hpasses := (orderBlockOf_isSome_iff hdirection).mp
      (Option.isSome_iff_exists.mpr ⟨b, hblock⟩)
    obtain ⟨⟨hlegeq, -⟩, -⟩ := orderBlockOf_eq_some hblock
    rw [Aligned, hlegeq]
    by_contra hnot
    exact hnone frame hframe hcolumns leg hleg _ hdirection
      ((hbad leg hleg _ hdirection (ne_of_passes hpasses)).mpr hnot) hpasses

/-- The zones of a snapshot go the way of their legs exactly if no crossed leg passes; in a
frame of complete bars, if no pullback does. -/
theorem directions_agree_iff :
    ((∀ b ∈ blocksOf lower cfg snapshot store utcnow, Aligned b) ↔
        NonePasses lower cfg snapshot store utcnow Crossed) ∧
      (WellFormed (prepared cfg.maxLookbackBars snapshot.frame) →
        ((∀ b ∈ blocksOf lower cfg snapshot store utcnow, Aligned b) ↔
          NonePasses lower cfg snapshot store utcnow Pullback)) := by
  constructor
  · exact aligned_iff_nonePasses fun leg hleg direction hdirection hne =>
      crossed_iff hleg hne hdirection
  · intro hrows
    refine aligned_iff_nonePasses fun leg hleg direction hdirection hne => ?_
    rw [← pullback_of_crossed hrows hleg]
    exact crossed_iff hleg hne hdirection

end

section FixedInputs

/-- The leg from the high of minute 6 to the higher low of minute 7 gives a zone upwards. -/
theorem falling_leg_gives_long_zone :
    ∃ b ∈ blocksOf id sensitive (snapshotOf "xauusd" "1m" true sixBars) OrderedDict.empty 0,
      b.zone.direction = .long ∧ b.leg.fromSwing.price = 11 ∧ b.leg.toSwing.price = 3 ∧
        ¬ Aligned b := by
  have hfound : ∃ b ∈ blocksOf id sensitive (snapshotOf "xauusd" "1m" true sixBars)
      OrderedDict.empty 0, b.zone.direction = .long ∧ b.leg.fromSwing.price = 11 ∧
        b.leg.toSwing.price = 3 := by decide +kernel
  obtain ⟨b, hb, hlong, hfrom, hto⟩ := hfound
  refine ⟨b, hb, hlong, hfrom, hto, fun haligned => ?_⟩
  rw [Aligned, hlong] at haligned
  change b.leg.fromSwing.price < b.leg.toSwing.price at haligned
  rw [hfrom, hto] at haligned
  exact absurd haligned (by decide)

end FixedInputs

end SmcPipeline.BlockDirections
