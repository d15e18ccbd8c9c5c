import SmcPipeline.EventTimes

/-!
# Legs and ranges on the way to the chart

A leg and a range pass through four representations. The plain leg has its swings where
`_simplify_legs` looks for indices, and the range is sent with `high`, `low`, `start` and `end`
where `mapRangesFromViewerState` looks for other names: no leg arrives with an index, and no
range with a bound or a time.
-/

namespace SmcPipeline.ShownStructure

open Serializers ViewerStateBuilder ViewerClient

variable {K : Type*}

/-- The hint of the asset, or the structure beside it, is the plain form of the state. -/
structure Carries (env : ViewerRuntime (Option K)) (asset : List (String × Json (Option K)))
    (st : StructureRecord K) : Prop where
  hint : ∃ liquidity zones signals hintMeta,
    get asset "smc_hint" = toPlainSmcHint st liquidity zones signals hintMeta
  structure_eq : truthy env (get asset "smc_structure") = true →
    get asset "smc_structure" = plainStructure st

/-- The legs of a viewer state with the indices they are shown at. -/
def legIndices (state : Json (Option K)) : List (Option (Json (Option K)) × Option (Json (Option K))) :=
  (itemsOf (prop (prop (some state) "structure") "legs")).map fun leg =>
    (prop (some leg) "from_index", prop (some leg) "to_index")

/-- The last `n` items -/
def lastItems {α : Type*} (n : ℕ) (xs : List α) : List α := xs.drop (xs.length - n)

/-- A range as it is to be drawn. -/
def rangeToDraw (r : OpenRange K) : ChartRange (Option K) :=
  ⟨some (.float r.low), some (.float r.high), some (r.startTime / 1000),
    r.endTime.map (· / 1000)⟩

/-- The legs arrive with the indices of their swings, the ranges with their bounds and times. -/
structure Survives (browser : Browser (Option K)) (state : Json (Option K))
    (st : StructureRecord K) : Prop where
  legs : legIndices state = (lastItems maxLegs st.legs).map fun leg =>
    (some (.int leg.fromSwing.index), some (.int leg.toSwing.index))
  ranges : mapRangesFromViewerState browser state =
    (lastItems maxRanges st.ranges).map rangeToDraw

variable {env : ViewerRuntime (Option K)} {asset : List (String × Json (Option K))}
  {st : StructureRecord K}

theorem structureOf_of_carries (h : Carries env asset st) :
    Json.obj (structureOf env asset) = plainStructure st := by
  obtain ⟨⟨liquidity, zones, signals, hintMeta, hhint⟩, hown⟩ := h
  unfold structureOf hintPart orElse
  by_cases htruthy : truthy env (get asset "smc_structure") = true
  · rw [if_pos htruthy, hown htruthy]
    rfl
  · rw [if_neg htruthy, hhint]
    rfl

/-- A state that is built has the block of the asset's structure. -/
theorem structure_of_build {payloadMeta fxcmBlock : Json (Option K)}
    {cache : Option (ViewerStateCache (Option K))} {viewer : List (String × Json (Option K))}
    (h : (buildViewerState env asset payloadMeta fxcmBlock cache).1 = some viewer) :
    ∃ events, prop (some (.obj viewer)) "structure" =
      some (structureBlock env (structureOf env asset) events) := by
  unfold buildViewerState at h
  dsimp only at h
  split at h
  · split_ifs at h
    cases h
    exact ⟨_, rfl⟩
  · cases h

theorem lastItems_eq_nil_iff {α : Type*} {n : ℕ} (hn : 0 < n) {xs : List α} :
    lastItems n xs = [] ↔ xs = [] := by
  unfold lastItems
  rw [List.drop_eq_nil_iff]
  constructor
  · intro h
    apply List.length_eq_zero_iff.mp
    omega
  · rintro rfl
    exact Nat.zero_le _

/-- Every leg is sent without an index. -/
theorem simplifyLegs_plain (legs : List (Leg K)) :
    (simplifyLegs (.arr (legs.map plainLeg))).map (fun leg =>
        (prop (some leg) "from_index", prop (some leg) "to_index")) =
      (lastItems maxLegs legs).map fun _ => (some .null, some .null) := by
  unfold simplifyLegs plainLeg
  rw [lastDicts_map, List.map_map, List.map_map]
  rfl

/-- No range is mapped to a box with a bound or a time. -/
theorem mapRange_plain (browser : Browser (Option K)) (ranges : List (OpenRange K)) :
    (simplifyRanges env (.arr (ranges.map plainRange))).map (mapRange browser) =
      (lastItems maxRanges ranges).map fun _ => ⟨none, none, none, none⟩ := by
  unfold simplifyRanges plainRange
  rw [lastDicts_map, List.map_map, List.map_map]
  rfl

section

variable {payloadMeta fxcmBlock : Json (Option K)} {cache : Option (ViewerStateCache (Option K))}
  {viewer : List (String × Json (Option K))}

theorem legIndices_of_build (h : Carries env asset st)
    (hbuild : (buildViewerState env asset payloadMeta fxcmBlock cache).1 = some viewer) :
    legIndices (.obj viewer) =
      (lastItems maxLegs st.legs).map fun _ => (some .null, some .null) := by
  obtain ⟨events, hblock⟩ := structure_of_build hbuild
  have hplain := structureOf_of_carries h
  unfold plainStructure at hplain
  rw [Json.obj.injEq] at hplain
  unfold legIndices
  rw [hblock, hplain]
  exact simplifyLegs_plain st.legs

theorem mapRanges_of_build (browser : Browser (Option K)) (h : Carries env asset st)
    (hbuild : (buildViewerState env asset payloadMeta fxcmBlock cache).1 = some viewer) :
    mapRangesFromViewerState browser (.obj viewer) =
      (lastItems maxRanges st.ranges).map fun _ => ⟨none, none, none, none⟩ := by
  obtain ⟨events, hblock⟩ := structure_of_build hbuild
  have hplain := structureOf_of_carries h
  unfold plainStructure at hplain
  rw [Json.obj.injEq] at hplain
  unfold mapRangesFromViewerState
  rw [hblock, hplain]
  exact mapRange_plain browser st.ranges

/-- Legs and ranges arrive only where there are none. -/
theorem survives_iff (browser : Browser (Option K)) (h : Carries env asset st)
    (hbuild : (buildViewerState env asset payloadMeta fxcmBlock cache).1 = some viewer) :
    Survives browser (.obj viewer) st ↔ st.legs = [] ∧ st.ranges = [] := by
  have hlegs := legIndices_of_build h hbuild
  have hranges := mapRanges_of_build browser h hbuild
  have hnil : (st.legs = [] ∧ st.ranges = []) ↔
      lastItems maxLegs st.legs = [] ∧ lastItems maxRanges st.ranges = [] :=
    and_congr (lastItems_eq_nil_iff (by decide)).symm (lastItems_eq_nil_iff (by decide)).symm
  rw [hnil]
  constructor
  · rintro ⟨hlegs', hranges'⟩
    rw [hlegs, List.map_inj_left] at hlegs'
    rw [hranges, List.map_inj_left] at hranges'
    constructor
    · apply List.eq_nil_iff_forall_not_mem.mpr
      intro leg hleg
      have hnull := hlegs' leg hleg
      cases hnull
    · apply List.eq_nil_iff_forall_not_mem.mpr
      intro r hr
      have hnone := hranges' r hr
      cases hnone
  · rintro ⟨hnolegs, hnoranges⟩
    constructor
    · rw [hlegs, hnolegs]
      rfl
    · rw [hranges, hnoranges]
      rfl

end

/-- A structure state with some legs and ranges and nothing else. -/
def smallRecord (legs : List (Leg ℚ)) (ranges : List (OpenRange ℚ)) : StructureRecord ℚ :=
  ⟨"1m", .up, [], legs, ranges, ranges.head?, .inside, [], [], [], .long, []⟩

def smallAsset (st : StructureRecord ℚ) : List (String × Json (Option ℚ)) :=
  [("symbol", .str "XAUUSD"), ("smc_hint", toPlainSmcHint st .null .null (.arr []) (.obj []))]

theorem carries_smallAsset (st : StructureRecord ℚ) :
    Carries viewerRuntime (smallAsset st) st := by
  constructor
  · exact ⟨_, _, _, _, rfl⟩
  · intro h
    cases h

theorem smallAsset_is_built (legs : List (Leg ℚ)) (ranges : List (OpenRange ℚ)) :
    ∃ viewer, (buildViewerState viewerRuntime (smallAsset (smallRecord legs ranges)) .null .null
      none).1 = some viewer := by
  have hsymbol : noSymbol viewerRuntime (smallAsset (smallRecord legs ranges)) = false := by
    change decide (FxcmIngestor.strip "XAUUSD" = "") = false
    decide
  apply Option.isSome_iff_exists.mp
  exact (buildViewerState_isSome_iff _ _ _ _ _).mpr ⟨rfl, rfl, rfl, hsymbol⟩

/-- A state without legs and ranges arrives as it is. -/
theorem empty_state_arrives :
    ∃ viewer, (buildViewerState viewerRuntime (smallAsset (smallRecord [] [])) .null .null
      none).1 = some viewer ∧
        Survives (EventTimes.fixedBrowser 0) (.obj viewer) (smallRecord [] []) := by
  obtain ⟨viewer, hviewer⟩ := smallAsset_is_built [] []
  exact ⟨viewer, hviewer, (survives_iff _ (carries_smallAsset _) hviewer).mpr ⟨rfl, rfl⟩⟩

def smallLeg : Leg ℚ :=
  ⟨⟨3, 1764001800000, 2, .low, 3⟩, ⟨8, 1764002100000, 5, .high, 3⟩, .hh, some 4⟩

def smallRange : OpenRange ℚ := ⟨some 5, some 2, some (7 / 2), 1764001800000, none, .inside⟩

/-- A leg is sent without its indices, and a range without its bounds. -/
theorem leg_and_range_are_lost :
    ∃ viewer, (buildViewerState viewerRuntime (smallAsset (smallRecord [smallLeg] [smallRange]))
      .null .null none).1 = some viewer ∧
        ¬ Survives (EventTimes.fixedBrowser 0) (.obj viewer)
          (smallRecord [smallLeg] [smallRange]) ∧
        legIndices (.obj viewer) = [(some .null, some .null)] ∧
        mapRangesFromViewerState (EventTimes.fixedBrowser 0) (.obj viewer) =
          [⟨none, none, none, none⟩] := by
  obtain ⟨viewer, hviewer⟩ := smallAsset_is_built [smallLeg] [smallRange]
  have hlegs := legIndices_of_build (carries_smallAsset _) hviewer
  have hranges := mapRanges_of_build (EventTimes.fixedBrowser 0) (carries_smallAsset _) hviewer
  refine ⟨viewer, hviewer, ?_, hlegs, hranges⟩
  intro h
  have heq := hlegs.symm.trans h.legs
  cases heq

end SmcPipeline.ShownStructure
