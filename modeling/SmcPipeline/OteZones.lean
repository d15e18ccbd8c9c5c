import SmcPipeline.Extremes
import SmcPipeline.StructureEngine
import Mathlib.Tactic.Linarith

/-!
# OTE zones

`build_ote_zones` of `smc_structure/ote_engine.py`. The filter reads the label of a
leg, which compares its end with the last swing of the same kind, while the zone
takes its direction from the sign of the leg itself. The two agree because no bar
between two consecutive swings of one kind is better than both.
-/

namespace SmcPipeline

inductive ZoneRole
  | primary
  | countertrend
  | neutral
deriving DecidableEq, Repr

structure OteZone (K : Type*) where
  leg : Leg K
  oteMin : K
  oteMax : K
  direction : Direction
  role : ZoneRole
deriving DecidableEq, Repr

namespace OteZones

open Candles Swings StructureEngine Extremes

variable {K : Type*}

def legTrendDirection (leg : Leg K) : Option SmcTrend :=
  match leg.label with
  | .hh => some .up
  | .ll => some .down
  | _ => none

def legsAfterMarker (legs : List (Leg K)) (marker : Option ℤ) : List (Leg K) :=
  match marker with
  | none => legs
  | some ts => legs.dropWhile fun leg => decide (leg.toSwing.time < ts)

def resolveZoneRole (bias : Option Bias) (direction : Direction) : ZoneRole :=
  match bias with
  | none => .primary
  | some .neutral => .neutral
  | some .long => if direction = .long then .primary else .countertrend
  | some .short => if direction = .short then .primary else .countertrend

def allowedTrends (trend : SmcTrend) (bias : Option Bias) : List SmcTrend :=
  let biasTrend : Option SmcTrend := match bias with
    | some .long => some .up
    | some .short => some .down
    | _ => none
  if trend = .up ∨ trend = .down then trend :: biasTrend.toList
  else if biasTrend.isSome then [.up, .down]
  else []

section

variable [Field K] [LinearOrder K] (cfg : SmcCoreConfig K)

def buildZone (leg : Leg K) (fibMin fibMax : K) : Option (OteZone K) :=
  let delta := leg.toSwing.price - leg.fromSwing.price
  if |delta| < ratio 1 1000000000 then none
  else
    let ends : K × K × Direction :=
      if 0 < delta then
        (leg.toSwing.price - delta * fibMax, leg.toSwing.price - delta * fibMin, .long)
      else
        (leg.toSwing.price + |delta| * fibMin, leg.toSwing.price + |delta| * fibMax, .short)
    if ends.1 = ends.2.1 then none
    else some ⟨leg, min ends.1 ends.2.1, max ends.1 ends.2.1, ends.2.2, .primary⟩

def legPassesAmplitudeThreshold (leg : Leg K) (atr : List (Option K)) : Bool :=
  let amplitude := |leg.toSwing.price - leg.fromSwing.price|
  let atrComponent := match valueAt atr leg.toSwing.index with
    | none => 0
    | some a => a * cfg.legMinAmplitudeAtrM1
  let pctComponent := |leg.toSwing.price| * cfg.bosMinMovePctM1
  let threshold := max atrComponent pctComponent
  if threshold = 0 then true else decide (threshold ≤ amplitude)

/-- The zone of one leg when it passes every filter. -/
def zoneOf (trend : SmcTrend) (atr : List (Option K)) (bias : Option Bias) (leg : Leg K) :
    Option (OteZone K) :=
  match legTrendDirection leg with
  | none => none
  | some legTrend =>
    let allowed := allowedTrends trend bias
    if cfg.oteTrendOnlyM1 && !allowed.isEmpty && !allowed.contains legTrend then none
    else if !legPassesAmplitudeThreshold cfg leg atr then none
    else (buildZone leg cfg.oteMin cfg.oteMax).map fun zone =>
      { zone with role := resolveZoneRole bias zone.direction }

/-- The loop over the legs, the newest first, with a limit on each side. -/
def collect (trend : SmcTrend) (atr : List (Option K)) (bias : Option Bias) (limit : ℕ) :
    List (Leg K) → List (OteZone K) × List (OteZone K) → List (OteZone K) × List (OteZone K)
  | [], sides => sides
  | leg :: legs, (long, short) =>
    match zoneOf cfg trend atr bias leg with
    | none => collect trend atr bias limit legs (long, short)
    | some zone =>
      match zone.direction with
      | .long =>
        collect trend atr bias limit legs
          (if limit ≤ long.length then long else long ++ [zone], short)
      | .short =>
        collect trend atr bias limit legs
          (long, if limit ≤ short.length then short else short ++ [zone])

def buildOteZones (legs : List (Leg K)) (trend : SmcTrend) (atr : List (Option K))
    (bias : Option Bias) (lastChochTime : Option ℤ) : List (OteZone K) :=
  if legs.isEmpty ∨ cfg.oteMax ≤ cfg.oteMin then []
  else
    let scopedLegs := legsAfterMarker legs lastChochTime
    let limit := (max 1 cfg.oteMaxActivePerSideM1).toNat
    let sides := collect cfg trend atr bias limit scopedLegs.reverse ([], [])
    sides.1.reverse ++ sides.2.reverse

theorem mem_collect {trend : SmcTrend} {atr : List (Option K)} {bias : Option Bias} {limit : ℕ}
    {legs : List (Leg K)} {sides : List (OteZone K) × List (OteZone K)} {zone : OteZone K}
    (h : zone ∈ (collect cfg trend atr bias limit legs sides).1 ∨
      zone ∈ (collect cfg trend atr bias limit legs sides).2) :
    (zone ∈ sides.1 ∨ zone ∈ sides.2) ∨
      ∃ leg ∈ legs, zoneOf cfg trend atr bias leg = some zone := by
  induction legs generalizing sides with
  | nil => exact Or.inl h
  | cons leg legs ih =>
      obtain ⟨long, short⟩ := sides
      simp only [collect] at h
      have hrest : (∃ l ∈ legs, zoneOf cfg trend atr bias l = some zone) →
          ∃ l ∈ leg :: legs, zoneOf cfg trend atr bias l = some zone := by
        rintro ⟨l, hl, hz⟩
        exact ⟨l, List.mem_cons_of_mem _ hl, hz⟩
      have hside : ∀ {side : List (OteZone K)} {new : OteZone K},
          zoneOf cfg trend atr bias leg = some new →
          zone ∈ (if limit ≤ side.length then side else side ++ [new]) →
          zone ∈ side ∨ ∃ l ∈ leg :: legs, zoneOf cfg trend atr bias l = some zone := by
        intro side new hnew hmem
        split_ifs at hmem
        · exact Or.inl hmem
        · rcases List.mem_append.mp hmem with hmem | hmem
          · exact Or.inl hmem
          · obtain rfl : zone = new := by simpa using hmem
            exact Or.inr ⟨leg, List.mem_cons_self, hnew⟩
      split at h
      · exact (ih h).imp_right hrest
      · rename_i new hnew
        split at h
        · rcases ih h with (hz | hz) | hz
          · exact (hside hnew hz).imp_left Or.inl
          · exact Or.inl (Or.inr hz)
          · exact Or.inr (hrest hz)
        · rcases ih h with (hz | hz) | hz
          · exact Or.inl (Or.inl hz)
          · exact (hside hnew hz).imp_left Or.inr
          · exact Or.inr (hrest hz)

/-- A zone comes from one of the legs. -/
theorem exists_leg_of_mem {legs : List (Leg K)} {trend : SmcTrend} {atr : List (Option K)}
    {bias : Option Bias} {lastChochTime : Option ℤ} {zone : OteZone K}
    (h : zone ∈ buildOteZones cfg legs trend atr bias lastChochTime) :
    ∃ leg ∈ legs, zoneOf cfg trend atr bias leg = some zone := by
  unfold buildOteZones at h
  split_ifs at h
  · cases h
  · simp only [List.mem_append, List.mem_reverse] at h
    rcases mem_collect cfg h with (hz | hz) | ⟨leg, hleg, hz⟩
    · cases hz
    · cases hz
    · refine ⟨leg, ?_, hz⟩
      rw [List.mem_reverse] at hleg
      unfold legsAfterMarker at hleg
      split at hleg
      · exact hleg
      · exact (List.dropWhile_suffix _).subset hleg

/-- A zone that passes the filters belongs to a leg labelled HH or LL. -/
theorem zoneOf_eq_some {trend : SmcTrend} {atr : List (Option K)} {bias : Option Bias}
    {leg : Leg K} {zone : OteZone K} (h : zoneOf cfg trend atr bias leg = some zone) :
    (leg.label = .hh ∨ leg.label = .ll) ∧
      ∃ z, buildZone leg cfg.oteMin cfg.oteMax = some z ∧
        zone = { z with role := resolveZoneRole bias z.direction } := by
  unfold zoneOf at h
  split at h
  · cases h
  · rename_i legTrend htrend
    dsimp only at h
    split_ifs at h
    obtain ⟨z, hz, rfl⟩ := Option.map_eq_some_iff.mp h
    refine ⟨?_, z, hz, rfl⟩
    unfold legTrendDirection at htrend
    cases hl : leg.label <;> simp [hl] at htrend ⊢

end

/-- Prices are finite and no bar has its low above its high. -/
def WellFormed [LinearOrder K] (rows : List (Candle K)) : Prop :=
  ∀ r ∈ rows, ∃ high low, r.high = some high ∧ r.low = some low ∧ low ≤ high

section

variable [LinearOrder K] {rows : List (Candle K)} {minSeparation : ℤ}

/-- The cell behind a swing's price. -/
theorem cell_of_swing {s : Swing K} (h : s ∈ detectSwings rows minSeparation) :
    ∃ r, rows[s.index]? = some r ∧ cellOf s.kind r = some s.price := by
  obtain ⟨-, -, hs⟩ := mem_detectSwings.mp h
  have hp := (swingAt_eq_some hs).2.2.2.1
  rw [priceAt_eq] at hp
  have hvalue := value_of_extremeAt hp
  unfold valueAt at hvalue
  rw [List.getElem?_map] at hvalue
  obtain ⟨c, hc, hcell⟩ := Option.map_eq_some_iff.mp (Option.join_eq_some_iff.mp hvalue)
  exact ⟨c, hc, hcell⟩

/-- The end of a leg is at least as good as its start when it beats the last swing
of its own kind. -/
theorem better_than_start (hrows : WellFormed rows) {leg : Leg K} {p : K}
    (hleg : leg ∈ buildLegs (detectSwings rows minSeparation))
    (hp : leg.referencePrice = some p) (hbetter : Better leg.toSwing.kind leg.toSwing.price p) :
    Better leg.toSwing.kind leg.toSwing.price leg.fromSwing.price := by
  obtain ⟨pre, post, hsw, hat⟩ := legAt_of_mem_buildLegs hleg
  rw [hat.reference] at hp
  obtain ⟨pre', s, mid, rfl, hkind, rfl, hmid⟩ := lastOf_pricesOf hp
  have hlast := hat.from_last
  rcases List.eq_nil_or_concat' mid with rfl | ⟨mid', last, rfl⟩
  · -- the reference is the start of the leg
    obtain rfl : s = leg.fromSwing := by simpa using hlast
    exact hbetter
  · have hassoc : pre' ++ s :: (mid' ++ [last]) = (pre' ++ s :: mid') ++ [last] := by simp
    rw [hassoc, List.getLast?_concat] at hlast
    obtain rfl : last = leg.fromSwing := Option.some.inj hlast
    have hsw' : detectSwings rows minSeparation =
        pre' ++ s :: ((mid' ++ [leg.fromSwing]) ++ leg.toSwing :: post) := by
      rw [hsw]
      simp
    have horder := detectSwings_pairwise rows minSeparation
    rw [hsw', List.pairwise_append] at horder
    obtain ⟨-, hrest, -⟩ := horder
    rw [List.pairwise_cons, List.pairwise_append] at hrest
    have hsf : s.index ≤ leg.fromSwing.index :=
      index_le_of_before (hrest.1 leg.fromSwing (by simp))
    have hft : leg.fromSwing.index ≤ leg.toSwing.index :=
      index_le_of_before (hrest.2.2.2 leg.fromSwing (by simp) leg.toSwing (by simp))
    have hfrom : leg.fromSwing ∈ detectSwings rows minSeparation := by
      rw [hsw']
      simp
    obtain ⟨r, hr, hcell⟩ := cell_of_swing hfrom
    obtain ⟨high, low, hhigh, hlow, hle⟩ := hrows r (List.mem_of_getElem? hr)
    have hfull : ∀ r ∈ rows, ∃ x, cellOf leg.toSwing.kind r = some x := by
      intro r' hr'
      obtain ⟨h', l', hh', hl', -⟩ := hrows r' hr'
      cases leg.toSwing.kind
      · exact ⟨h', hh'⟩
      · exact ⟨l', hl'⟩
    obtain ⟨z, hz⟩ := hfull r (List.mem_of_getElem? hr)
    have htz : Better leg.toSwing.kind leg.toSwing.price z := by
      rcases between_swings hsw' hkind hmid hfull hsf hft hr hz with h | h
      · exact (isBest_kind _).trans hbetter h
      · exact h
    have hother : leg.fromSwing.kind ≠ leg.toSwing.kind := hmid _ (by simp)
    -- the start is of the other kind: its price is on the near side of its bar
    cases hkt : leg.toSwing.kind with
    | high =>
        have hkf : leg.fromSwing.kind = .low := by
          cases hkf : leg.fromSwing.kind
          · exact absurd (hkf.trans hkt.symm) hother
          · rfl
        rw [hkt] at hz htz
        rw [hkf] at hcell
        simp only [cellOf, hhigh, hlow, Option.some.injEq] at hz hcell
        subst hz hcell
        exact hle.trans htz
    | low =>
        have hkf : leg.fromSwing.kind = .high := by
          cases hkf : leg.fromSwing.kind
          · rfl
          · exact absurd (hkf.trans hkt.symm) hother
        rw [hkt] at hz htz
        rw [hkf] at hcell
        simp only [cellOf, hhigh, hlow, Option.some.injEq] at hz hcell
        subst hz hcell
        exact htz.trans hle

theorem start_le_of_hh (hrows : WellFormed rows) {leg : Leg K}
    (hleg : leg ∈ buildLegs (detectSwings rows minSeparation)) (hh : leg.label = .hh) :
    leg.fromSwing.price ≤ leg.toSwing.price := by
  obtain ⟨pre, post, -, hat⟩ := legAt_of_mem_buildLegs hleg
  have hlabel := hat.label
  rw [hh] at hlabel
  cases hk : leg.toSwing.kind <;> cases hp : leg.referencePrice <;>
    simp only [labelOf, hk, hp] at hlabel
  · cases hlabel
  · split_ifs at hlabel with hlt
    have h := better_than_start hrows hleg hp
    rw [hk] at h
    exact h hlt.le
  · cases hlabel
  · split_ifs at hlabel

theorem end_le_of_ll (hrows : WellFormed rows) {leg : Leg K}
    (hleg : leg ∈ buildLegs (detectSwings rows minSeparation)) (hl : leg.label = .ll) :
    leg.toSwing.price ≤ leg.fromSwing.price := by
  obtain ⟨pre, post, -, hat⟩ := legAt_of_mem_buildLegs hleg
  have hlabel := hat.label
  rw [hl] at hlabel
  cases hk : leg.toSwing.kind <;> cases hp : leg.referencePrice <;>
    simp only [labelOf, hk, hp] at hlabel
  · cases hlabel
  · split_ifs at hlabel
  · cases hlabel
  · split_ifs at hlabel with hlt
    have h := better_than_start hrows hleg hp
    rw [hk] at h
    exact h (not_lt.mp hlt)

end

section

variable [Field K] [LinearOrder K] [IsStrictOrderedRing K] (cfg : SmcCoreConfig K)

/-- A zone points the way its leg goes and lies inside it. -/
structure Inside (zone : OteZone K) : Prop where
  moves : zone.leg.fromSwing.price ≠ zone.leg.toSwing.price
  long : zone.direction = .long ↔ zone.leg.fromSwing.price < zone.leg.toSwing.price
  lower : min zone.leg.fromSwing.price zone.leg.toSwing.price ≤ zone.oteMin
  proper : zone.oteMin < zone.oteMax
  upper : zone.oteMax ≤ max zone.leg.fromSwing.price zone.leg.toSwing.price

theorem buildZone_inside {leg : Leg K} {fibMin fibMax : K} (h₀ : 0 ≤ fibMin)
    (hlt : fibMin < fibMax) (h₁ : fibMax ≤ 1) {zone : OteZone K}
    (h : buildZone leg fibMin fibMax = some zone) : zone.leg = leg ∧ Inside zone := by
  unfold buildZone at h
  dsimp only at h
  set delta := leg.toSwing.price - leg.fromSwing.price with hdelta
  have htiny : (0 : K) < ratio 1 1000000000 := by
    unfold ratio
    positivity
  split_ifs at h with hsmall hpos heq heq
  · cases h
    have hmul : delta * fibMin < delta * fibMax := mul_lt_mul_of_pos_left hlt hpos
    have hle : delta * fibMax ≤ delta := mul_le_of_le_one_right hpos.le h₁
    have hnonneg : 0 ≤ delta * fibMin := mul_nonneg hpos.le h₀
    have hup : leg.fromSwing.price < leg.toSwing.price := sub_pos.mp hpos
    have hends : leg.toSwing.price - delta * fibMax < leg.toSwing.price - delta * fibMin := by
      linarith
    refine ⟨rfl, hup.ne, ⟨fun _ => hup, fun _ => rfl⟩, ?_, ?_, ?_⟩
    · rw [min_eq_left hends.le, min_eq_left hup.le]
      linarith
    · rw [min_eq_left hends.le, max_eq_right hends.le]
      exact hends
    · rw [max_eq_right hends.le, max_eq_right hup.le]
      linarith
  · cases h
    have hne : delta ≠ 0 := by
      intro hzero
      rw [hzero, abs_zero] at hsmall
      exact hsmall htiny
    have hneg : delta < 0 := lt_of_le_of_ne (not_lt.mp hpos) hne
    have habs : 0 < |delta| := abs_pos.mpr hne
    have hmul : |delta| * fibMin < |delta| * fibMax := mul_lt_mul_of_pos_left hlt habs
    have hle : |delta| * fibMax ≤ |delta| := mul_le_of_le_one_right habs.le h₁
    have hnonneg : 0 ≤ |delta| * fibMin := mul_nonneg habs.le h₀
    have hspan : |delta| = leg.fromSwing.price - leg.toSwing.price := by
      rw [abs_of_neg hneg, hdelta, neg_sub]
    have hdown : leg.toSwing.price < leg.fromSwing.price := sub_neg.mp hneg
    have hends : leg.toSwing.price + |delta| * fibMin < leg.toSwing.price + |delta| * fibMax := by
      linarith
    refine ⟨rfl, hdown.ne', ⟨(fun hd => by cases hd), fun hlt' => absurd hlt' hdown.not_gt⟩,
      ?_, ?_, ?_⟩
    · rw [min_eq_left hends.le, min_eq_right hdown.le]
      linarith
    · rw [min_eq_left hends.le, max_eq_right hends.le]
      exact hends
    · rw [max_eq_right hends.le, max_eq_left hdown.le]
      linarith

/-- Zones of a well-formed frame: the direction is the one the label names, and the
zone lies inside its leg. -/
theorem zone_follows_leg {rows : List (Candle K)} {minSeparation : ℤ} (hrows : WellFormed rows)
    (h₀ : 0 ≤ cfg.oteMin) (hlt : cfg.oteMin < cfg.oteMax) (h₁ : cfg.oteMax ≤ 1)
    {trend : SmcTrend} {atr : List (Option K)} {bias : Option Bias} {lastChochTime : Option ℤ}
    {zone : OteZone K}
    (h : zone ∈ buildOteZones cfg (buildLegs (detectSwings rows minSeparation)) trend atr bias
      lastChochTime) :
    (zone.direction = .long ↔ zone.leg.label = .hh) ∧
      (zone.direction = .short ↔ zone.leg.label = .ll) ∧
      min zone.leg.fromSwing.price zone.leg.toSwing.price ≤ zone.oteMin ∧
      zone.oteMin < zone.oteMax ∧
      zone.oteMax ≤ max zone.leg.fromSwing.price zone.leg.toSwing.price := by
  obtain ⟨leg, hleg, hzone⟩ := exists_leg_of_mem cfg h
  obtain ⟨hlabel, z, hz, rfl⟩ := zoneOf_eq_some cfg hzone
  obtain ⟨rfl, hin⟩ := buildZone_inside h₀ hlt h₁ hz
  have hbounds := And.intro hin.lower (And.intro hin.proper hin.upper)
  rcases hlabel with hl | hl
  · have hup := lt_of_le_of_ne (start_le_of_hh hrows hleg hl) hin.moves
    have hdir : z.direction = .long := hin.long.mpr hup
    exact ⟨by simp [hdir, hl], by simp [hdir, hl], hbounds⟩
  · have hdown := end_le_of_ll hrows hleg hl
    have hdir : z.direction = .short := by
      cases hd : z.direction
      · exact absurd (hin.long.mp hd) hdown.not_gt
      · rfl
    exact ⟨by simp [hdir, hl], by simp [hdir, hl], hbounds⟩

end

section FixedInputs

def candleOf (n : ℤ) (high low : ℚ) : Candle ℚ :=
  ⟨60000 * n, some low, some high, some low, some high⟩

/-- A high, a low and a higher high. -/
def risingRows : List (Candle ℚ) :=
  [candleOf 1 5 4, candleOf 2 7 5, candleOf 3 4 2, candleOf 4 11 8, candleOf 5 6 3]

def risingZones : List (OteZone ℚ) :=
  buildOteZones (smcCoreConfig ℚ) (buildLegs (detectSwings risingRows 1)) .unknown [] none none

theorem zone_follows_rising_leg :
    risingZones.length = 1 ∧
      ∀ zone ∈ risingZones,
        (zone.direction = .long ↔ zone.leg.label = .hh) ∧
          (zone.direction = .short ↔ zone.leg.label = .ll) ∧
          min zone.leg.fromSwing.price zone.leg.toSwing.price ≤ zone.oteMin ∧
          zone.oteMin < zone.oteMax ∧
          zone.oteMax ≤ max zone.leg.fromSwing.price zone.leg.toSwing.price := by
  refine ⟨by decide +kernel, fun zone hzone => ?_⟩
  refine zone_follows_leg (smcCoreConfig ℚ) ?_ (by decide +kernel) (by decide +kernel)
    (by decide +kernel) hzone
  intro r hr
  simp only [risingRows, List.mem_cons, List.not_mem_nil, or_false] at hr
  rcases hr with rfl | rfl | rfl | rfl | rfl <;> exact ⟨_, _, rfl, rfl, by norm_num⟩

end FixedInputs

end OteZones

end SmcPipeline
