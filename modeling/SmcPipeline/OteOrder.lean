import SmcPipeline.OteZones
import Mathlib.Data.List.DropRight

/-!
# The order of the OTE zones

`build_ote_zones` walks the legs from the newest to the oldest and fills two lists, one
for each side. Each of them is turned back into the order of time, and then the SHORT
list is put after the LONG list. The result is in the order of time only if the zones
of the first list end before those of the second.
-/

namespace SmcPipeline.OteOrder

open Candles StructureEngine OteZones

variable {K : Type*}

def endsAfter (marker : Option ℤ) (leg : Leg K) : Bool :=
  match marker with
  | none => true
  | some ts => decide (ts ≤ leg.toSwing.time)

/-- In the order of time the legs from the marker on are those that end at it or after. -/
theorem legsAfterMarker_eq_filter {legs : List (Leg K)} (marker : Option ℤ)
    (htimes : legs.Pairwise fun a b => a.toSwing.time ≤ b.toSwing.time) :
    legsAfterMarker legs marker = legs.filter (endsAfter marker) := by
  cases marker with
  | none => exact (List.filter_eq_self.mpr fun _ _ => rfl).symm
  | some ts =>
      induction legs with
      | nil => rfl
      | cons leg legs ih =>
          obtain ⟨hlater, hrest⟩ := List.pairwise_cons.mp htimes
          by_cases hlt : leg.toSwing.time < ts
          · have hout : endsAfter (some ts) leg = false := decide_eq_false (not_le.mpr hlt)
            rw [List.filter_cons_of_neg (by simp [hout]), ← ih hrest]
            simp only [legsAfterMarker, List.dropWhile_cons, decide_eq_true hlt, if_true]
          · have hin : ∀ l ∈ leg :: legs, endsAfter (some ts) l = true := by
              intro l hl
              refine decide_eq_true ((not_lt.mp hlt).trans ?_)
              rcases List.mem_cons.mp hl with rfl | hl
              · exact le_rfl
              · exact hlater l hl
            rw [List.filter_eq_self.mpr hin]
            simp [legsAfterMarker, hlt]

variable [Field K] [LinearOrder K] (cfg : SmcCoreConfig K)

theorem leg_of_zoneOf {trend : SmcTrend} {atr : List (Option K)} {bias : Option Bias}
    {leg : Leg K} {zone : OteZone K} (h : zoneOf cfg trend atr bias leg = some zone) :
    zone.leg = leg := by
  obtain ⟨-, z, hz, rfl⟩ := zoneOf_eq_some cfg h
  unfold buildZone at hz
  dsimp only at hz
  split_ifs at hz <;> (cases hz; rfl)

/-- The zones of one side among some legs, in the order of the legs. -/
def sideZones (trend : SmcTrend) (atr : List (Option K)) (bias : Option Bias) (d : Direction)
    (legs : List (Leg K)) : List (OteZone K) :=
  (legs.filterMap (zoneOf cfg trend atr bias)).filter fun zone => zone.direction = d

theorem sideZones_reverse (trend : SmcTrend) (atr : List (Option K)) (bias : Option Bias)
    (d : Direction) (legs : List (Leg K)) :
    sideZones cfg trend atr bias d legs.reverse = (sideZones cfg trend atr bias d legs).reverse := by
  unfold sideZones
  rw [List.filterMap_reverse, List.filter_reverse]

/-- A side takes zones while there is room. -/
theorem fill_side {β : Type*} (limit : ℕ) (side rest : List β) (zone : β) :
    (if limit ≤ side.length then side else side ++ [zone]) ++
        rest.take (limit - (if limit ≤ side.length then side else side ++ [zone]).length) =
      side ++ (zone :: rest).take (limit - side.length) := by
  split_ifs with hfull
  · rw [Nat.sub_eq_zero_of_le hfull, List.take_zero, List.take_zero]
  · have hroom : limit - side.length = limit - (side ++ [zone]).length + 1 := by
      rw [List.length_append, List.length_singleton]
      omega
    rw [hroom, List.take_succ_cons, List.append_assoc, List.singleton_append]

theorem collect_eq (trend : SmcTrend) (atr : List (Option K)) (bias : Option Bias) (limit : ℕ)
    (legs : List (Leg K)) (long short : List (OteZone K)) :
    collect cfg trend atr bias limit legs (long, short) =
      (long ++ (sideZones cfg trend atr bias .long legs).take (limit - long.length),
        short ++ (sideZones cfg trend atr bias .short legs).take (limit - short.length)) := by
  induction legs generalizing long short with
  | nil => simp [collect, sideZones]
  | cons leg legs ih =>
      simp only [collect]
      cases hzone : zoneOf cfg trend atr bias leg with
      | none =>
          have hskip : ∀ d, sideZones cfg trend atr bias d (leg :: legs) =
              sideZones cfg trend atr bias d legs := by
            intro d
            simp [sideZones, hzone]
          simp only [ih, hskip]
      | some zone =>
          have hside : ∀ d, sideZones cfg trend atr bias d (leg :: legs) =
              if zone.direction = d then zone :: sideZones cfg trend atr bias d legs
              else sideZones cfg trend atr bias d legs := by
            intro d
            simp [sideZones, hzone, List.filter_cons]
          cases hd : zone.direction with
          | long =>
              simp only [ih, hside, hd, fill_side, if_true, reduceCtorEq, if_false]
          | short =>
              simp only [ih, hside, hd, fill_side, if_true, reduceCtorEq, if_false]

/-- The side of a leg that passes every filter. -/
def sideOf (trend : SmcTrend) (atr : List (Option K)) (bias : Option Bias) (leg : Leg K) :
    Option Direction :=
  if cfg.oteMax ≤ cfg.oteMin then none
  else (zoneOf cfg trend atr bias leg).map OteZone.direction

/-- The qualifying legs of a side that end at or after the marker. -/
def qualifying (trend : SmcTrend) (atr : List (Option K)) (bias : Option Bias)
    (marker : Option ℤ) (d : Direction) (legs : List (Leg K)) : List (Leg K) :=
  (legs.filter (endsAfter marker)).filter fun leg => sideOf cfg trend atr bias leg = some d

/-- `max(1, ote_max_active_per_side_m1)` -/
def perSide : ℕ := (max 1 cfg.oteMaxActivePerSideM1).toNat

/-- Zones in the order of time, at most so many on a side, and these the latest. -/
structure Latest (trend : SmcTrend) (atr : List (Option K)) (bias : Option Bias)
    (marker : Option ℤ) (legs : List (Leg K)) (zones : List (OteZone K)) : Prop where
  sorted : zones.Pairwise fun a b => a.leg.toSwing.time ≤ b.leg.toSwing.time
  capped : ∀ d, (zones.filter fun zone => zone.direction = d).length ≤ perSide cfg
  latest : ∀ d, (zones.filter fun zone => zone.direction = d).map OteZone.leg =
    (qualifying cfg trend atr bias marker d legs).rtake (perSide cfg)

/-- The zones of a side and its qualifying legs. -/
theorem map_leg_sideZones (hlt : cfg.oteMin < cfg.oteMax) (trend : SmcTrend)
    (atr : List (Option K)) (bias : Option Bias) (d : Direction) (legs : List (Leg K)) :
    (sideZones cfg trend atr bias d legs).map OteZone.leg =
      legs.filter fun leg => sideOf cfg trend atr bias leg = some d := by
  induction legs with
  | nil => rfl
  | cons leg legs ih =>
      unfold sideZones at ih ⊢
      cases hzone : zoneOf cfg trend atr bias leg with
      | none =>
          have hside : sideOf cfg trend atr bias leg = none := by
            simp [sideOf, hzone]
          rw [List.filterMap_cons_none hzone, List.filter_cons_of_neg (by simp [hside]), ih]
      | some zone =>
          have hside : sideOf cfg trend atr bias leg = some zone.direction := by
            simp [sideOf, hlt, hzone]
          rw [List.filterMap_cons_some hzone]
          by_cases hd : zone.direction = d
          · rw [List.filter_cons_of_pos (by simpa using hd),
              List.filter_cons_of_pos (by simpa [hside] using hd), List.map_cons, ih,
              leg_of_zoneOf cfg hzone]
          · rw [List.filter_cons_of_neg (by simpa using hd),
              List.filter_cons_of_neg (by simpa [hside] using hd), ih]

/-- The latest zones of a side. -/
def latestZones (trend : SmcTrend) (atr : List (Option K)) (bias : Option Bias)
    (marker : Option ℤ) (d : Direction) (legs : List (Leg K)) : List (OteZone K) :=
  if cfg.oteMax ≤ cfg.oteMin then []
  else (sideZones cfg trend atr bias d (legs.filter (endsAfter marker))).rtake (perSide cfg)

theorem map_leg_latestZones (trend : SmcTrend) (atr : List (Option K)) (bias : Option Bias)
    (marker : Option ℤ) (d : Direction) (legs : List (Leg K)) :
    (latestZones cfg trend atr bias marker d legs).map OteZone.leg =
      (qualifying cfg trend atr bias marker d legs).rtake (perSide cfg) := by
  unfold latestZones
  split_ifs with hle
  · have hnone : qualifying cfg trend atr bias marker d legs = [] := by
      simp [qualifying, sideOf, hle]
    rw [hnone, List.rtake_nil, List.map_nil]
  · have hmap := map_leg_sideZones cfg (not_le.mp hle) trend atr bias d
      (legs.filter (endsAfter marker))
    unfold qualifying
    rw [← hmap]
    simp only [List.rtake, List.map_drop, List.length_map]

theorem direction_of_mem_latestZones {trend : SmcTrend} {atr : List (Option K)}
    {bias : Option Bias} {marker : Option ℤ} {d : Direction} {legs : List (Leg K)}
    {zone : OteZone K} (h : zone ∈ latestZones cfg trend atr bias marker d legs) :
    zone.direction = d := by
  unfold latestZones at h
  split_ifs at h
  · cases h
  · have hmem := List.mem_of_mem_drop h
    unfold sideZones at hmem
    simpa using (List.mem_filter.mp hmem).2

theorem filter_latestZones (trend : SmcTrend) (atr : List (Option K)) (bias : Option Bias)
    (marker : Option ℤ) (d d' : Direction) (legs : List (Leg K)) :
    ((latestZones cfg trend atr bias marker d legs).filter fun zone => zone.direction = d') =
      if d = d' then latestZones cfg trend atr bias marker d legs else [] := by
  split_ifs with hd
  · exact List.filter_eq_self.mpr fun zone hz => by
      simpa [hd] using direction_of_mem_latestZones cfg hz
  · exact List.filter_eq_nil_iff.mpr fun zone hz => by
      simpa [direction_of_mem_latestZones cfg hz] using hd

/-- In the order of time a side is a list of legs in the order of time. -/
theorem latestZones_pairwise {trend : SmcTrend} {atr : List (Option K)} {bias : Option Bias}
    {marker : Option ℤ} {d : Direction} {legs : List (Leg K)}
    (htimes : legs.Pairwise fun a b => a.toSwing.time ≤ b.toSwing.time) :
    (latestZones cfg trend atr bias marker d legs).Pairwise
      fun a b => a.leg.toSwing.time ≤ b.leg.toSwing.time := by
  have hlegs : ((latestZones cfg trend atr bias marker d legs).map OteZone.leg).Pairwise
      fun a b => a.toSwing.time ≤ b.toSwing.time := by
    rw [map_leg_latestZones]
    have hqualifying := (htimes.sublist List.filter_sublist).sublist
      (List.filter_sublist (p := fun leg => sideOf cfg trend atr bias leg = some d)
        (l := legs.filter (endsAfter marker)))
    exact hqualifying.sublist (List.drop_sublist _ _)
  rw [List.pairwise_map] at hlegs
  exact hlegs

/-- The zones are the latest LONG zones and then the latest SHORT zones. -/
theorem buildOteZones_eq {legs : List (Leg K)} (trend : SmcTrend) (atr : List (Option K))
    (bias : Option Bias) (marker : Option ℤ)
    (htimes : legs.Pairwise fun a b => a.toSwing.time ≤ b.toSwing.time) :
    buildOteZones cfg legs trend atr bias marker =
      latestZones cfg trend atr bias marker .long legs ++
        latestZones cfg trend atr bias marker .short legs := by
  unfold buildOteZones latestZones
  by_cases hle : cfg.oteMax ≤ cfg.oteMin
  · simp [hle]
  · by_cases hempty : legs.isEmpty = true
    · rw [List.isEmpty_iff.mp hempty]
      simp [sideZones]
    · have hopen : ¬ (legs.isEmpty = true ∨ cfg.oteMax ≤ cfg.oteMin) := by simp [hle, hempty]
      rw [if_neg hopen, legsAfterMarker_eq_filter marker htimes, if_neg hle, if_neg hle]
      simp only [collect_eq, List.nil_append, List.length_nil, Nat.sub_zero, sideZones_reverse,
        List.rtake_eq_reverse_take_reverse]
      rfl

/-- The zones obey the law exactly if the latest qualifying LONG legs end no later than
the latest qualifying SHORT legs. -/
theorem latest_iff {legs : List (Leg K)} (trend : SmcTrend) (atr : List (Option K))
    (bias : Option Bias) (marker : Option ℤ)
    (htimes : legs.Pairwise fun a b => a.toSwing.time ≤ b.toSwing.time) :
    Latest cfg trend atr bias marker legs (buildOteZones cfg legs trend atr bias marker) ↔
      ∀ a ∈ (qualifying cfg trend atr bias marker .long legs).rtake (perSide cfg),
        ∀ b ∈ (qualifying cfg trend atr bias marker .short legs).rtake (perSide cfg),
          a.toSwing.time ≤ b.toSwing.time := by
  rw [buildOteZones_eq cfg trend atr bias marker htimes, ← map_leg_latestZones,
    ← map_leg_latestZones]
  have hfilter : ∀ d, ((latestZones cfg trend atr bias marker .long legs ++
      latestZones cfg trend atr bias marker .short legs).filter fun zone => zone.direction = d) =
        latestZones cfg trend atr bias marker d legs := by
    intro d
    rw [List.filter_append, filter_latestZones, filter_latestZones]
    cases d <;> simp
  constructor
  · intro h a ha b hb
    obtain ⟨x, hx, rfl⟩ := List.mem_map.mp ha
    obtain ⟨y, hy, rfl⟩ := List.mem_map.mp hb
    exact (List.pairwise_append.mp h.sorted).2.2 x hx y hy
  · intro h
    have hlatest : ∀ d, (latestZones cfg trend atr bias marker d legs).map OteZone.leg =
        (qualifying cfg trend atr bias marker d legs).rtake (perSide cfg) :=
      fun d => map_leg_latestZones cfg trend atr bias marker d legs
    refine ⟨List.pairwise_append.mpr ⟨latestZones_pairwise cfg htimes,
      latestZones_pairwise cfg htimes, fun a ha b hb => ?_⟩, fun d => ?_, fun d => ?_⟩
    · exact h _ (List.mem_map_of_mem ha) _ (List.mem_map_of_mem hb)
    · rw [hfilter, ← List.length_map (f := OteZone.leg), hlatest]
      unfold List.rtake
      rw [List.length_drop]
      omega
    · rw [hfilter, hlatest]

section FixedInputs

def swingOf (index : ℕ) (price : ℚ) (kind : SwingKind) : Swing ℚ :=
  ⟨index, 60000 * index, price, kind, 3⟩

/-- A leg down to a lower low and a leg up to a higher high. -/
def downUp : List (Leg ℚ) :=
  [⟨swingOf 0 110 .high, swingOf 5 100 .low, .ll, some 105⟩,
    ⟨swingOf 5 100 .low, swingOf 10 120 .high, .hh, some 110⟩]

def upDown : List (Leg ℚ) :=
  [⟨swingOf 0 100 .low, swingOf 5 120 .high, .hh, some 110⟩,
    ⟨swingOf 5 120 .high, swingOf 10 90 .low, .ll, some 100⟩]

theorem upDown_latest : Latest (smcCoreConfig ℚ) .range [] (some .long) none upDown
    (buildOteZones (smcCoreConfig ℚ) upDown .range [] (some .long) none) := by
  refine (latest_iff (smcCoreConfig ℚ) .range [] (some .long) none ?_).mpr ?_
  · simp [upDown, swingOf]
  · have hlong : (qualifying (smcCoreConfig ℚ) .range [] (some .long) none .long upDown).rtake
        (perSide (smcCoreConfig ℚ)) = [upDown[0]] := by decide +kernel
    have hshort : (qualifying (smcCoreConfig ℚ) .range [] (some .long) none .short upDown).rtake
        (perSide (smcCoreConfig ℚ)) = [upDown[1]] := by decide +kernel
    intro a ha b hb
    rw [hlong, List.mem_singleton] at ha
    rw [hshort, List.mem_singleton] at hb
    subst ha hb
    decide

/-- The leg down ends first, and its zone comes second. -/
theorem downUp_not_sorted :
    (downUp.Pairwise fun a b => a.toSwing.time ≤ b.toSwing.time) ∧
      (buildOteZones (smcCoreConfig ℚ) downUp .range [] (some .long) none).map
        (fun zone => (zone.direction, zone.leg.toSwing.time)) =
          [(.long, 600000), (.short, 300000)] ∧
      ¬ Latest (smcCoreConfig ℚ) .range [] (some .long) none downUp
        (buildOteZones (smcCoreConfig ℚ) downUp .range [] (some .long) none) := by
  have hzones : (buildOteZones (smcCoreConfig ℚ) downUp .range [] (some .long) none).map
      (fun zone => (zone.direction, zone.leg.toSwing.time)) =
        [(.long, 600000), (.short, 300000)] := by decide +kernel
  refine ⟨by simp [downUp, swingOf], hzones, fun h => ?_⟩
  have hsorted : ((buildOteZones (smcCoreConfig ℚ) downUp .range [] (some .long) none).map
      fun zone => (zone.direction, zone.leg.toSwing.time)).Pairwise fun a b => a.2 ≤ b.2 := by
    rw [List.pairwise_map]
    exact h.sorted
  rw [hzones] at hsorted
  simp at hsorted

end FixedInputs

end SmcPipeline.OteOrder
