import SmcPipeline.BreakerSpec
import SmcPipeline.ZonesState

/-!
# The role of a breaker

A breaker is built from a PRIMARY order block, but its role is derived anew, from the bias and
its own direction, which is opposite to that of the block. Both stages read one bias, so that
the block went along with it and the breaker goes against it: no breaker of a snapshot is
PRIMARY.
-/

namespace SmcPipeline.BreakerRoles

open Candles OrderBlocks Breakers ZonesState BreakerSpec

/-- Against a PRIMARY direction the bias makes a role COUNTERTREND. -/
theorem deriveRole_opposite {direction : Direction} {bias : Bias}
    (h : deriveRole direction bias = .primary) :
    deriveRole (oppositeOf direction) bias = .countertrend := by
  cases bias <;> cases direction <;> first | rfl | cases h

variable {K : Type*}

section

variable [Field K] [LinearOrder K] {lower : String → String} {cfg : SmcCoreConfig K}
  {snapshot : SmcInput K} {utcnow : ℤ}

theorem role_of_mem_detectOrderBlocks {st : SmcStructureState K} {ob : SmcZone K}
    (h : ob ∈ detectOrderBlocks lower cfg snapshot st utcnow) :
    ob.zoneType = .orderBlock ∧ ob.role = deriveRole ob.direction st.bias := by
  obtain ⟨b, hb, rfl⟩ := List.mem_map.mp h
  obtain ⟨frame, -, -, leg, -, hleg⟩ := mem_orderBlocks.mp hb
  obtain ⟨-, direction, _, _, _, -, -, -, hzone⟩ := orderBlockOf_built hleg
  obtain ⟨-, ⟨htype, hdirection, hrole⟩, -⟩ := buildZoneFromRow_eq_some hzone
  exact ⟨htype, by rw [hrole, hdirection]⟩

end

section

/-- The entries the breaker stage reads. -/
def sfpEntries (liquidity : Option (SmcLiquidityState K)) : List (SfpEntry K) :=
  match liquidity with
  | none => []
  | some liquidity => liquidity.sfpEvents.map sfpEntry

variable [Field K] [LinearOrder K] [IsStrictOrderedRing K] [FloorRing K] {lower : String → String}
  {cfg : SmcCoreConfig K} {snapshot : ContextInput K} {st : RangedStructureState K}
  {entries : StructureMeta K} {liquidity : Option (SmcLiquidityState K)} {utcnow : ℤ}

variable (lower cfg snapshot st liquidity) in
/-- The breaker is what the loop builds from the block. -/
def ComesFrom (ob : SmcZone K) (zone : BreakerZone K) : Prop :=
  ∃ frame, snapshot.frame = some frame ∧
    breakerOf cfg lower snapshot.toSmcInput frame (extractSweepEvents (sfpEntries liquidity))
      (collectBosEvents st.toSmcStructureState) (breakerAtr st.toSmcStructureState) st.bias ob =
      some zone

/-- The breakers among the zones are those of the detector. -/
theorem breaker_mem_zones {zone : BreakerZone K} :
    Zone.breaker zone ∈ (computeZonesState lower cfg snapshot st entries liquidity utcnow).zones ↔
      ∃ ob ∈ detectOrderBlocks lower cfg snapshot.toSmcInput st.toSmcStructureState utcnow,
        ComesFrom lower cfg snapshot st liquidity ob zone := by
  unfold computeZonesState
  cases hframe : snapshot.frame with
  | none => simp [ComesFrom, hframe]
  | some frame =>
      dsimp only
      by_cases hempty : frame.isEmpty = true
      · -- no zone is built of an empty frame
        rw [if_pos hempty]
        refine iff_of_false (by simp) ?_
        rintro ⟨ob, -, frame', heq, hzone⟩
        obtain rfl := Option.some.inj (hframe.symm.trans heq)
        obtain ⟨-, -, -, -, row, hrow, -⟩ := builtFrom_of_breakerOf hzone
        rw [List.isEmpty_iff.mp hempty] at hrow
        cases hrow
      · rw [if_neg hempty]
        change Zone.breaker zone ∈ _ ++ (detectBreakers cfg lower snapshot.toSmcInput
          st.toSmcStructureState (sfpEntries liquidity) _).map Zone.breaker ++ _ ↔ _
        simp only [List.mem_append, List.mem_map, reduceCtorEq, and_false, exists_false, false_or,
          or_false, Zone.breaker.injEq, exists_eq_right, mem_detectBreakers, hframe,
          Option.some.injEq, exists_eq_left', ComesFrom]

/-- No breaker is PRIMARY, and every one of them comes from a block that is. -/
theorem role_of_comesFrom {ob : SmcZone K} {zone : BreakerZone K}
    (hob : ob ∈ detectOrderBlocks lower cfg snapshot.toSmcInput st.toSmcStructureState utcnow)
    (h : ComesFrom lower cfg snapshot st liquidity ob zone) :
    zone.role = .countertrend ∧ ob.role = .primary := by
  obtain ⟨frame, -, hzone⟩ := h
  obtain ⟨⟨-, hrole, -⟩, _, _, -, _, -, -, hbuilt⟩ := builtFrom_of_breakerOf hzone
  refine ⟨?_, hrole⟩
  rw [hbuilt.role]
  exact deriveRole_opposite ((role_of_mem_detectOrderBlocks hob).2.symm.trans hrole)

variable (lower cfg snapshot st entries liquidity utcnow) in
/-- Every breaker among the zones has the role of the block it comes from. -/
def RolesInherited : Prop :=
  ∀ zone, Zone.breaker zone ∈
      (computeZonesState lower cfg snapshot st entries liquidity utcnow).zones →
    ∀ ob ∈ detectOrderBlocks lower cfg snapshot.toSmcInput st.toSmcStructureState utcnow,
      ComesFrom lower cfg snapshot st liquidity ob zone → zone.role = ob.role

/-- Each breaker of a snapshot goes against the bias and comes from a PRIMARY block, so that
roles are inherited exactly if the sweeps and events make no PRIMARY block a breaker. -/
theorem roles_inherited_iff :
    (∀ zone, Zone.breaker zone ∈
        (computeZonesState lower cfg snapshot st entries liquidity utcnow).zones →
      zone.role = .countertrend ∧
        ∃ ob ∈ detectOrderBlocks lower cfg snapshot.toSmcInput st.toSmcStructureState utcnow,
          ComesFrom lower cfg snapshot st liquidity ob zone ∧ ob.role = .primary) ∧
      (RolesInherited lower cfg snapshot st entries liquidity utcnow ↔
        ∀ ob ∈ detectOrderBlocks lower cfg snapshot.toSmcInput st.toSmcStructureState utcnow,
          ob.role = .primary →
          ∀ frame, snapshot.frame = some frame → Usable snapshot.toSmcInput frame →
            ¬ ∃ sweep event, FirstPair cfg st.toSmcStructureState (sfpEntries liquidity) ob sweep
              event) := by
  refine ⟨fun zone hzone => ?_, fun h ob hob hrole frame hframe husable hpair => ?_,
    fun h zone hzone ob hob hfrom => ?_⟩
  · obtain ⟨ob, hob, hfrom⟩ := breaker_mem_zones.mp hzone
    obtain ⟨hcounter, hprimary⟩ := role_of_comesFrom hob hfrom
    exact ⟨hcounter, ob, hob, hfrom, hprimary⟩
  · -- the breaker of the block would be COUNTERTREND
    obtain ⟨zone, hfrom⟩ : ∃ zone, ComesFrom lower cfg snapshot st liquidity ob zone := by
      obtain ⟨zone, hzone⟩ :=
        (exists_breakerOf_iff (role_of_mem_detectOrderBlocks hob).1 hrole).mpr ⟨husable, hpair⟩
      exact ⟨zone, frame, hframe, hzone⟩
    have hsame := h zone (breaker_mem_zones.mpr ⟨ob, hob, hfrom⟩) ob hob hfrom
    rw [(role_of_comesFrom hob hfrom).1, hrole] at hsame
    cases hsame
  · obtain ⟨-, hprimary⟩ := role_of_comesFrom hob hfrom
    obtain ⟨frame, hframe, hbreaker⟩ := hfrom
    obtain ⟨husable, hpair⟩ :=
      (exists_breakerOf_iff (role_of_mem_detectOrderBlocks hob).1 hprimary).mp ⟨zone, hbreaker⟩
    exact absurd hpair (h ob hob hprimary frame hframe husable)

end

section FixedInputs

open Ranges StructureState BlockCoordinates FairValueGaps

/-- A minute after the rise to 11 the price falls through 5, where its low is swept. -/
def fallen (st : RangedStructureState ℚ) : RangedStructureState ℚ :=
  { st with
    atrLast := some 1
    events := st.events ++ [⟨.bos, .short, 4, 480000,
      ⟨⟨3, 360000, 11, .high, 1⟩, ⟨4, 420000, 3, .low, 1⟩, .ll, some 5⟩⟩] }

def sweptLow : SmcLiquidityState ℚ where
  pools := []
  amdPhase := .neutral
  barCount := 6
  symbol := "xauusd"
  primaryTf := "1m"
  bias := .long
  sfpEvents := [⟨some 5, .low, 420000, some 5, .swing⟩]
  wickClusters := []
  amdReason := ""

def sixMinutes : ContextInput ℚ where
  symbol := "xauusd"
  tfPrimary := "1m"
  frame := some sixBars
  hasPriceColumns := true
  hasHighLow := true
  hasClose := true
  pdl := none
  pdh := none

def fallenZones (st : RangedStructureState ℚ) : SmcZonesState ℚ :=
  computeZonesState id sensitive sixMinutes (fallen st)
    (structureMeta sensitive sixMinutes (fallen st)) (some sweptLow) 0

theorem fallen_has_breaker :
    ∃ st, computeStructureState id sensitive sixMinutes OrderedDict.empty 0 = some st ∧
      ∃ zone, Zone.breaker zone ∈ (fallenZones st).zones := by
  have hrun : ((computeStructureState id sensitive sixMinutes OrderedDict.empty 0).any fun st =>
      (fallenZones st).zones.any fun zone => decide (zoneType zone = .breaker)) = true := by
    decide +kernel
  obtain ⟨st, hst, hany⟩ := (Option.any_eq_true ..).mp hrun
  obtain ⟨zone, hzone, htype⟩ := List.any_eq_true.mp hany
  cases zone with
  | orderBlock _ => cases of_decide_eq_true htype
  | imbalance _ => cases of_decide_eq_true htype
  | breaker zone => exact ⟨st, hst, zone, hzone⟩

theorem fallen_breaker_spec :
    ∃ st, computeStructureState id sensitive sixMinutes OrderedDict.empty 0 = some st ∧
      ∃ zone, Zone.breaker zone ∈ (fallenZones st).zones ∧ zone.role = .countertrend ∧
        ∃ ob ∈ detectOrderBlocks id sensitive sixMinutes.toSmcInput
            (fallen st).toSmcStructureState 0,
          ComesFrom id sensitive sixMinutes (fallen st) (some sweptLow) ob zone ∧
            ob.role = .primary := by
  obtain ⟨st, hst, zone, hzone⟩ := fallen_has_breaker
  exact ⟨st, hst, zone, hzone, roles_inherited_iff.1 zone hzone⟩

/-- The breaker of a PRIMARY block is COUNTERTREND. -/
theorem breaker_is_countertrend :
    ∃ st, computeStructureState id sensitive sixMinutes OrderedDict.empty 0 = some st ∧
      ¬ RolesInherited id sensitive sixMinutes (fallen st)
        (structureMeta sensitive sixMinutes (fallen st)) (some sweptLow) 0 := by
  obtain ⟨st, hst, zone, hzone⟩ := fallen_has_breaker
  refine ⟨st, hst, fun h => ?_⟩
  obtain ⟨ob, hob, hfrom⟩ := breaker_mem_zones.mp hzone
  obtain ⟨hcounter, hprimary⟩ := role_of_comesFrom hob hfrom
  have hsame := h zone hzone ob hob hfrom
  rw [hcounter, hprimary] at hsame
  cases hsame

end FixedInputs

end SmcPipeline.BreakerRoles
