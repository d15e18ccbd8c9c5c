import SmcPipeline.BreakerRoles

/-!
# The ids of the zones

Each detector composes `zone_id` of its own prefix, of names, and of numbers set off by
underscores: a block's are the row of its candidate and the end of its leg, a breaker's the
row of its event, a gap's its place in the frame. A breaker is named after the event, so
that blocks broken by one event give breakers of one id.
-/

namespace SmcPipeline.ZoneIds

open Candles OrderBlocks Breakers FairValueGaps ZonesState BreakerSpec BreakerRoles
open StructureEngine Swings Ranges

def numbered (stem : String) (n : ℕ) : String := stem ++ "_" ++ toString n

theorem head_append {s t : String} {c : Char} (h : s.toList.head? = some c) :
    (s ++ t).toList.head? = some c := by
  rw [String.toList_append, List.head?_append, h]
  rfl

theorem head_numbered {s : String} {c : Char} (h : s.toList.head? = some c) (n : ℕ) :
    (numbered s n).toList.head? = some c := head_append (head_append h)

theorem append_cons_inj {α : Type*} {a : α} {xs ys ds es : List α} (hds : a ∉ ds) (hes : a ∉ es)
    (h : xs ++ a :: ds = ys ++ a :: es) : xs = ys ∧ ds = es := by
  rcases List.append_eq_append_iff.mp h with ⟨mid, rfl, hrest⟩ | ⟨mid, rfl, hrest⟩
  · cases mid with
    | nil => simpa using hrest
    | cons b mid =>
        obtain rfl := (List.cons.inj hrest).2
        exact absurd (by simp) hds
  · cases mid with
    | nil => simpa [eq_comm] using hrest
    | cons b mid =>
        obtain rfl := (List.cons.inj hrest).2
        exact absurd (by simp) hes

theorem numbered_inj {s t : String} {m n : ℕ} : numbered s m = numbered t n ↔ s = t ∧ m = n := by
  constructor
  · intro h
    have hlist : s.toList ++ '_' :: Nat.toDigits 10 m = t.toList ++ '_' :: Nat.toDigits 10 n := by
      simpa [numbered] using congrArg String.toList h
    obtain ⟨hstem, hdigits⟩ :=
      append_cons_inj Nat.underscore_not_in_toDigits Nat.underscore_not_in_toDigits hlist
    have hnumber := congrArg (fun digits => Nat.ofDigitChars 10 digits 0) hdigits
    exact ⟨String.toList_inj.mp hstem, by simpa using hnumber⟩
  · rintro ⟨rfl, rfl⟩
    rfl

/-- Two texts for each member coincide on the same pairs. -/
theorem nodup_map_iff {α β γ : Type*} {f : α → β} {g : α → γ} {xs : List α}
    (h : ∀ x ∈ xs, ∀ y ∈ xs, f x = f y ↔ g x = g y) : (xs.map f).Nodup ↔ (xs.map g).Nodup := by
  unfold List.Nodup
  rw [List.pairwise_map, List.pairwise_map]
  exact List.Pairwise.iff_of_mem fun {x y} hx hy => not_congr (h x hx y hy)

variable {K : Type*}

def zoneId : Zone K → String
  | .orderBlock z => z.zoneId
  | .breaker z => z.zoneId
  | .imbalance z => z.zoneId

/-- The first letter of the id. -/
def initial : SmcZoneType → Char
  | .orderBlock => 'o'
  | .breaker => 'b'
  | .imbalance => 'f'

theorem initial_inj {a b : SmcZoneType} (h : initial a = initial b) : a = b := by
  cases a <;> cases b <;> first | rfl | cases h

section

variable [Field K] [LinearOrder K] {lower : String → String} {cfg : SmcCoreConfig K}
  {snapshot : SmcInput K} {st : SmcStructureState K} {utcnow : ℤ}

variable (cfg) in
/-- The row of a block's candidate, and the bar its leg ends at. -/
def blockKey (frame : List (RawBar K)) (b : OrderBlock K) : Option ℕ × ℕ :=
  (candidateOf cfg frame b.leg, b.leg.toSwing.index)

theorem zoneId_of_buildZoneFromRow {frame : List (RawBar K)} {rowPos barCount : ℕ}
    {direction : Direction} {leg : Leg K} {bias : Bias} {atr amplitude : K}
    {e : StructureEvent K} {zone : SmcZone K}
    (h : buildZoneFromRow lower cfg snapshot frame utcnow rowPos direction leg bias atr amplitude
      barCount e = some zone) :
    zone.zoneId = numbered (numbered s!"ob_{lower snapshot.symbol}_{snapshot.tfPrimary}" rowPos)
      leg.toSwing.index := by
  unfold buildZoneFromRow at h
  cases hrow : frame[rowPos]? with
  | none =>
      rw [hrow] at h
      cases h
  | some row =>
      rw [hrow] at h
      dsimp only at h
      split_ifs at h <;> (cases h; rfl)

theorem zoneId_of_mem_orderBlocks {b : OrderBlock K}
    (h : b ∈ orderBlocks lower cfg snapshot st utcnow) :
    ∃ rowPos, blockKey cfg (snapshot.frame.getD []) b = (some rowPos, b.leg.toSwing.index) ∧
      b.zone.zoneId = numbered
        (numbered s!"ob_{lower snapshot.symbol}_{snapshot.tfPrimary}" rowPos)
        b.leg.toSwing.index := by
  obtain ⟨frame, hframe, -, leg, -, hleg⟩ := mem_orderBlocks.mp h
  obtain ⟨rfl, _, rowPos, _, _, -, hcandidate, -, hzone⟩ := orderBlockOf_built hleg
  refine ⟨rowPos, ?_, zoneId_of_buildZoneFromRow hzone⟩
  rw [hframe, blockKey, Option.getD_some, hcandidate]

/-- The ids of two blocks coincide if the rows of their candidates do, and the ends of their
legs. -/
theorem blockIds_eq_iff {a b : OrderBlock K} (ha : a ∈ orderBlocks lower cfg snapshot st utcnow)
    (hb : b ∈ orderBlocks lower cfg snapshot st utcnow) :
    a.zone.zoneId = b.zone.zoneId ↔
      blockKey cfg (snapshot.frame.getD []) a = blockKey cfg (snapshot.frame.getD []) b := by
  obtain ⟨i, hi, hida⟩ := zoneId_of_mem_orderBlocks ha
  obtain ⟨j, hj, hidb⟩ := zoneId_of_mem_orderBlocks hb
  rw [hida, hidb, hi, hj, numbered_inj, numbered_inj, Prod.mk.injEq, Option.some.injEq]
  simp

variable [FloorRing K]

/-- The row a breaker's event is found at. -/
def bosRow (frame : List (RawBar K)) (zone : BreakerZone K) : Option ℕ :=
  findRowByTimestamp frame zone.details.bosTime

theorem zoneId_of_buildBreakerZone {frame : List (RawBar K)} {i : ℕ} {direction : Direction}
    {ob : SmcZone K} {sweep : SweepEvent K} {event : StructureEvent K} {atr : Option K}
    {bias : Bias} {displacement : K} {zone : BreakerZone K}
    (h : buildBreakerZone cfg lower snapshot frame i direction ob sweep event atr bias
      displacement = some zone) :
    zone.details.bosTime = eventTime event ∧
      zone.zoneId = numbered s!"brk_{lower snapshot.symbol}_{snapshot.tfPrimary}" i := by
  unfold buildBreakerZone at h
  split at h
  · cases h
  · split at h
    · cases h
    · by_cases hcolumns : snapshot.hasPriceColumns = true
      · rw [if_pos hcolumns] at h
        obtain rfl := Option.some.inj h
        exact ⟨rfl, rfl⟩
      · rw [if_neg hcolumns] at h
        cases h

theorem zoneId_of_mem_detectBreakers {sfpEvents : List (SfpEntry K)}
    {orderblocks : List (SmcZone K)} {zone : BreakerZone K}
    (h : zone ∈ detectBreakers cfg lower snapshot st sfpEvents orderblocks) :
    ∃ rowIdx, bosRow (snapshot.frame.getD []) zone = some rowIdx ∧
      zone.zoneId = numbered s!"brk_{lower snapshot.symbol}_{snapshot.tfPrimary}" rowIdx := by
  obtain ⟨frame, hframe, ob, -, hzone⟩ := mem_detectBreakers.mp h
  obtain ⟨-, -, sweep, -, event, -, displacement, -, -, i, hi, hbuilt⟩ :=
    breakerOf_eq_some_iff.mp hzone
  obtain ⟨htime, hid⟩ := zoneId_of_buildBreakerZone hbuilt
  refine ⟨i, ?_, hid⟩
  rw [bosRow, htime, hframe, Option.getD_some, hi]

/-- The ids of two breakers coincide if their events are found at one row. -/
theorem breakerIds_eq_iff {sfpEvents : List (SfpEntry K)} {orderblocks : List (SmcZone K)}
    {a b : BreakerZone K} (ha : a ∈ detectBreakers cfg lower snapshot st sfpEvents orderblocks)
    (hb : b ∈ detectBreakers cfg lower snapshot st sfpEvents orderblocks) :
    a.zoneId = b.zoneId ↔
      bosRow (snapshot.frame.getD []) a = bosRow (snapshot.frame.getD []) b := by
  obtain ⟨i, hi, hida⟩ := zoneId_of_mem_detectBreakers ha
  obtain ⟨j, hj, hidb⟩ := zoneId_of_mem_detectBreakers hb
  rw [hida, hidb, hi, hj, numbered_inj, Option.some.injEq]
  simp

theorem zoneId_of_buildFvgZone {primaryTf : String} {atr : Option K} {bias : Bias}
    {last : Option ℤ} {idx : ℕ} {first third : RawBar K} {zone : ImbalanceZone K}
    (h : buildFvgZone cfg primaryTf atr bias last idx first third = some zone) :
    ∃ tf : String, zone.zoneId = numbered s!"fvg_{tf}_{zone.originTime}" idx := by
  unfold buildFvgZone at h
  split at h
  · dsimp only at h
    split_ifs at h <;> (cases h; exact ⟨_, rfl⟩)
  · cases h

theorem zoneId_of_mem_detectFvgZones {primaryTf : String} {bias : Bias}
    {entries : StructureMeta K} {zone : ImbalanceZone K}
    (h : zone ∈ detectFvgZones cfg primaryTf bias entries) :
    ∃ (tf : String) (idx : ℕ), zone.zoneId = numbered s!"fvg_{tf}_{zone.originTime}" idx := by
  unfold detectFvgZones at h
  split at h
  · cases h
  · obtain ⟨idx, -, hzone⟩ := List.mem_filterMap.mp h
    split at hzone
    · obtain ⟨tf, hid⟩ := zoneId_of_buildFvgZone hzone
      exact ⟨tf, idx, hid⟩
    · cases hzone

/-- Gaps have their place in the frame in their ids. -/
theorem fvgZones_nodup {primaryTf : String} {bias : Bias} {entries : StructureMeta K} :
    ((detectFvgZones cfg primaryTf bias entries).map ImbalanceZone.zoneId).Nodup := by
  unfold detectFvgZones
  split
  · exact List.nodup_nil
  · unfold scanFrame
    rw [List.map_filterMap]
    refine List.nodup_range.filterMap fun i j id hi hj => ?_
    obtain ⟨a, ha, rfl⟩ := Option.map_eq_some_iff.mp hi
    obtain ⟨b, hb, hid⟩ := Option.map_eq_some_iff.mp hj
    split at ha
    · split at hb
      · obtain ⟨tf, hida⟩ := zoneId_of_buildFvgZone ha
        obtain ⟨tf', hidb⟩ := zoneId_of_buildFvgZone hb
        rw [hida, hidb, numbered_inj] at hid
        exact hid.2.symm
      · cases hb
    · cases ha

end

section

variable [Field K] [LinearOrder K] [FloorRing K] {lower : String → String} {cfg : SmcCoreConfig K}
  {snapshot : ContextInput K} {st : RangedStructureState K} {entries : StructureMeta K}
  {liquidity : Option (SmcLiquidityState K)} {utcnow : ℤ}

variable (lower cfg snapshot st utcnow) in
def snapshotBlocks : List (OrderBlock K) :=
  orderBlocks lower cfg snapshot.toSmcInput st.toSmcStructureState utcnow

variable (lower cfg snapshot st liquidity utcnow) in
def snapshotBreakers : List (BreakerZone K) :=
  detectBreakers cfg lower snapshot.toSmcInput st.toSmcStructureState (sfpEntries liquidity)
    (detectOrderBlocks lower cfg snapshot.toSmcInput st.toSmcStructureState utcnow)

omit [Field K] [LinearOrder K] [FloorRing K] in
theorem not_empty_of_row {frame : List (RawBar K)} {i : ℕ} {row : RawBar K}
    (hframe : snapshot.frame = some frame) (hrow : frame[i]? = some row) :
    (snapshot.frame.getD []).isEmpty = false := by
  rw [hframe, Option.getD_some, List.isEmpty_eq_false_iff]
  exact List.ne_nil_of_mem (List.mem_of_getElem? hrow)

omit [FloorRing K] in
/-- Of an empty frame no block is built. -/
theorem snapshotBlocks_eq_nil (h : (snapshot.frame.getD []).isEmpty = true) :
    snapshotBlocks lower cfg snapshot st utcnow = [] := by
  refine List.eq_nil_iff_forall_not_mem.mpr fun b hb => ?_
  obtain ⟨frame, hframe, -, leg, -, hleg⟩ := mem_orderBlocks.mp hb
  obtain ⟨_, _, -, hrow, -⟩ := orderBlockOf_candidate hleg
  rw [not_empty_of_row hframe hrow] at h
  cases h

/-- Of an empty frame no breaker is built. -/
theorem snapshotBreakers_eq_nil (h : (snapshot.frame.getD []).isEmpty = true) :
    snapshotBreakers lower cfg snapshot st liquidity utcnow = [] := by
  refine List.eq_nil_iff_forall_not_mem.mpr fun zone hzone => ?_
  obtain ⟨frame, hframe, ob, -, hbreaker⟩ := mem_detectBreakers.mp hzone
  obtain ⟨-, -, _, -, _, -, _, -, -, _, -, hbuilt⟩ := breakerOf_eq_some_iff.mp hbreaker
  obtain ⟨-, _, hrow, -⟩ := buildBreakerZone_eq_some hbuilt
  rw [not_empty_of_row hframe hrow] at h
  cases h

variable (cfg snapshot st entries) in
def snapshotGaps : List (ImbalanceZone K) :=
  if (snapshot.frame.getD []).isEmpty then [] else detectFvgZones cfg st.primaryTf st.bias entries

theorem zones_eq :
    (computeZonesState lower cfg snapshot st entries liquidity utcnow).zones =
      (snapshotBlocks lower cfg snapshot st utcnow).map (fun b => Zone.orderBlock b.zone) ++
        (snapshotBreakers lower cfg snapshot st liquidity utcnow).map Zone.breaker ++
        (snapshotGaps cfg snapshot st entries).map Zone.imbalance := by
  unfold snapshotGaps
  by_cases hempty : (snapshot.frame.getD []).isEmpty = true
  · rw [snapshotBlocks_eq_nil hempty, snapshotBreakers_eq_nil hempty, if_pos hempty]
    unfold computeZonesState
    cases hframe : snapshot.frame with
    | none => rfl
    | some frame =>
        rw [hframe, Option.getD_some] at hempty
        dsimp only
        rw [if_pos hempty]
        rfl
  · rw [if_neg hempty]
    unfold computeZonesState
    cases hframe : snapshot.frame with
    | none =>
        rw [hframe] at hempty
        exact absurd rfl hempty
    | some frame =>
        rw [hframe, Option.getD_some] at hempty
        dsimp only
        rw [if_neg hempty, detectOrderBlocks, List.map_map]
        rfl

theorem mem_zones_iff {zone : Zone K} :
    zone ∈ (computeZonesState lower cfg snapshot st entries liquidity utcnow).zones ↔
      (∃ b ∈ snapshotBlocks lower cfg snapshot st utcnow, .orderBlock b.zone = zone) ∨
        (∃ z ∈ snapshotBreakers lower cfg snapshot st liquidity utcnow, .breaker z = zone) ∨
        ∃ z ∈ snapshotGaps cfg snapshot st entries, .imbalance z = zone := by
  rw [zones_eq]
  simp only [List.mem_append, List.mem_map, or_assoc]

theorem head_zoneId {zone : Zone K}
    (h : zone ∈ (computeZonesState lower cfg snapshot st entries liquidity utcnow).zones) :
    (zoneId zone).toList.head? = some (initial (zoneType zone)) := by
  rcases mem_zones_iff.mp h with ⟨b, hb, rfl⟩ | ⟨zone, hzone, rfl⟩ | ⟨zone, hzone, rfl⟩
  · obtain ⟨rowPos, -, hid⟩ := zoneId_of_mem_orderBlocks hb
    change b.zone.zoneId.toList.head? = some 'o'
    rw [hid]
    exact head_numbered (head_numbered (head_append (head_append (head_append rfl))) _) _
  · obtain ⟨rowIdx, -, hid⟩ := zoneId_of_mem_detectBreakers hzone
    change zone.zoneId.toList.head? = some 'b'
    rw [hid]
    exact head_numbered (head_append (head_append (head_append rfl))) _
  · unfold snapshotGaps at hzone
    split_ifs at hzone
    · cases hzone
    · obtain ⟨tf, idx, hid⟩ := zoneId_of_mem_detectFvgZones hzone
      change zone.zoneId.toList.head? = some 'f'
      rw [hid]
      exact head_numbered (head_append (head_append (head_append rfl))) _

/-- Zones of two detectors have different ids. -/
theorem zoneType_eq_of_zoneId_eq {a b : Zone K}
    (ha : a ∈ (computeZonesState lower cfg snapshot st entries liquidity utcnow).zones)
    (hb : b ∈ (computeZonesState lower cfg snapshot st entries liquidity utcnow).zones)
    (h : zoneId a = zoneId b) : zoneType a = zoneType b := by
  have hletters := head_zoneId ha
  rw [h, head_zoneId hb] at hletters
  exact initial_inj (Option.some.inj hletters).symm

theorem snapshotGaps_nodup :
    ((snapshotGaps cfg snapshot st entries).map ImbalanceZone.zoneId).Nodup := by
  unfold snapshotGaps
  split_ifs
  · exact List.nodup_nil
  · exact fvgZones_nodup

/-- The ids are distinct exactly if those of the blocks are, and those of the breakers. -/
theorem nodup_iff :
    ((computeZonesState lower cfg snapshot st entries liquidity utcnow).zones.map zoneId).Nodup ↔
      ((snapshotBlocks lower cfg snapshot st utcnow).map fun b => b.zone.zoneId).Nodup ∧
        ((snapshotBreakers lower cfg snapshot st liquidity utcnow).map
          BreakerZone.zoneId).Nodup := by
  have hdiffer : ∀ {a b : Zone K},
      a ∈ (computeZonesState lower cfg snapshot st entries liquidity utcnow).zones →
      b ∈ (computeZonesState lower cfg snapshot st entries liquidity utcnow).zones →
      zoneType a ≠ zoneType b → zoneId a ≠ zoneId b :=
    fun ha hb hne h => hne (zoneType_eq_of_zoneId_eq ha hb h)
  rw [zones_eq]
  simp only [List.map_append, List.map_map, List.nodup_append]
  constructor
  · rintro ⟨⟨hblocks, hbreakers, -⟩, -⟩
    exact ⟨hblocks, hbreakers⟩
  · rintro ⟨hblocks, hbreakers⟩
    refine ⟨⟨hblocks, hbreakers, fun a ha b hb => ?_⟩, snapshotGaps_nodup, fun a ha b hb => ?_⟩
    · obtain ⟨x, hx, rfl⟩ := List.mem_map.mp ha
      obtain ⟨y, hy, rfl⟩ := List.mem_map.mp hb
      exact hdiffer (mem_zones_iff.mpr (.inl ⟨x, hx, rfl⟩))
        (mem_zones_iff.mpr (.inr (.inl ⟨y, hy, rfl⟩))) nofun
    · obtain ⟨y, hy, rfl⟩ := List.mem_map.mp hb
      rcases List.mem_append.mp ha with ha | ha
      · obtain ⟨x, hx, rfl⟩ := List.mem_map.mp ha
        exact hdiffer (mem_zones_iff.mpr (.inl ⟨x, hx, rfl⟩))
          (mem_zones_iff.mpr (.inr (.inr ⟨y, hy, rfl⟩))) nofun
      · obtain ⟨x, hx, rfl⟩ := List.mem_map.mp ha
        exact hdiffer (mem_zones_iff.mpr (.inr (.inl ⟨x, hx, rfl⟩)))
          (mem_zones_iff.mpr (.inr (.inr ⟨y, hy, rfl⟩))) nofun

end

section

variable [LinearOrder K]

theorem fromSwing_mem_of_mem_legsFrom {prev : Swing K} {last : Option K × Option K}
    {swings : List (Swing K)} {leg : Leg K} (h : leg ∈ legsFrom prev last swings) :
    leg.fromSwing ∈ prev :: swings := by
  induction swings generalizing prev last with
  | nil => cases h
  | cons curr swings ih =>
      rcases List.mem_cons.mp h with rfl | h
      · exact List.mem_cons_self
      · exact List.mem_cons_of_mem prev (ih h)

/-- Each leg ends where a later one starts, or before. -/
theorem legsFrom_pairwise {prev : Swing K} {last : Option K × Option K} {swings : List (Swing K)}
    (h : swings.Pairwise Swing.before) :
    (legsFrom prev last swings).Pairwise fun a b => a.toSwing.index ≤ b.fromSwing.index := by
  induction swings generalizing prev last with
  | nil => exact List.Pairwise.nil
  | cons curr swings ih =>
      obtain ⟨hcurr, hrest⟩ := List.pairwise_cons.mp h
      refine List.Pairwise.cons (fun leg hleg => ?_) (ih hrest)
      rcases List.mem_cons.mp (fromSwing_mem_of_mem_legsFrom hleg) with heq | hmem
      · rw [heq]
      · exact index_le_of_before (hcurr _ hmem)

theorem buildLegs_pairwise {swings : List (Swing K)} (h : swings.Pairwise Swing.before) :
    (buildLegs swings).Pairwise fun a b => a.toSwing.index ≤ b.fromSwing.index := by
  cases swings with
  | nil => exact List.Pairwise.nil
  | cons first swings => exact legsFrom_pairwise (List.pairwise_cons.mp h).2

end

section

variable [Field K] [LinearOrder K] {lower : String → String} {cfg : SmcCoreConfig K}
  {snapshot : SmcInput K} {st : SmcStructureState K} {utcnow : ℤ}

/-- A block's leg does not end at the bar it starts at. -/
theorem from_ne_to_of_orderBlockOf {frame : List (RawBar K)} {atr : K} {bias : Bias}
    {breakEventOf : Leg K → Direction → Option (StructureEvent K)} {leg : Leg K}
    {b : OrderBlock K}
    (h : orderBlockOf lower cfg snapshot frame utcnow atr bias breakEventOf leg = some b) :
    leg.fromSwing.index ≠ leg.toSwing.index := by
  intro heq
  unfold orderBlockOf at h
  split at h
  · rename_i direction startPos endPos hdirection hspan
    have hsame : startPos = endPos := by
      unfold resolveLegSpan at hspan
      rw [heq] at hspan
      split at hspan
      · rename_i i j hi hj
        rw [hi] at hj
        cases hj
        simp only [min_self, max_self, Option.some.injEq, Prod.mk.injEq] at hspan
        exact hspan.1.symm.trans hspan.2
      · cases hspan
    rw [hsame, if_pos le_rfl] at h
    cases h
  · cases h

/-- The blocks of legs that follow each other end at different bars. -/
theorem blockKeys_nodup (frame : List (RawBar K))
    (hlegs : st.legs.Pairwise fun a b => a.toSwing.index ≤ b.fromSwing.index)
    (hforward : ∀ leg ∈ st.legs, leg.fromSwing.index ≤ leg.toSwing.index) :
    ((orderBlocks lower cfg snapshot st utcnow).map (blockKey cfg frame)).Nodup := by
  unfold orderBlocks
  cases snapshot.frame with
  | none => exact List.nodup_nil
  | some rows =>
      dsimp only
      split_ifs
      · unfold List.Nodup
        rw [List.pairwise_map, List.pairwise_filterMap]
        refine hlegs.imp_of_mem fun {a b} _ hb hle x hx y hy heq => ?_
        obtain ⟨rfl, -⟩ := orderBlockOf_built hx
        obtain ⟨rfl, -⟩ := orderBlockOf_built hy
        have hne := from_ne_to_of_orderBlockOf hy
        have hend : x.leg.toSwing.index = y.leg.toSwing.index := congrArg Prod.snd heq
        have hfrom := hforward y.leg hb
        omega
      · exact List.nodup_nil

end

section

variable [Field K] [LinearOrder K] [FloorRing K] {lower : String → String} {cfg : SmcCoreConfig K}
  {snapshot : ContextInput K} {st : RangedStructureState K} {utcnow : ℤ}

theorem blockKeys_nodup_of_computed {store : EventHistory.Store K}
    (h : Ranges.computeStructureState lower cfg snapshot store utcnow = some st) :
    ((snapshotBlocks lower cfg snapshot st utcnow).map
      (blockKey cfg (snapshot.frame.getD []))).Nodup := by
  have hlegs : st.legs =
      buildLegs (detectSwings (prepared cfg.maxLookbackBars snapshot.frame) cfg.minSwingBars) := by
    rw [(computeStructureState_eq_some h).1]
    rfl
  refine blockKeys_nodup _ ?_ fun leg hleg => ?_
  · rw [hlegs]
    exact buildLegs_pairwise (detectSwings_pairwise _ _)
  · rw [hlegs] at hleg
    exact (BlockCoordinates.leg_start hleg).1

/-- Zones of two detectors have different ids, and so have two gaps. Two blocks have one id exactly
if they have one candidate row and one end of their legs, two breakers exactly if their events are
at one row. All ids are distinct exactly if neither happens, and the former never happens for the
blocks of a computed structure. -/
theorem zone_ids_nodup_iff (lower : String → String) (cfg : SmcCoreConfig K)
    (snapshot : ContextInput K) (st : RangedStructureState K) (entries : StructureMeta K)
    (liquidity : Option (SmcLiquidityState K)) (utcnow : ℤ) :
    (∀ a ∈ (computeZonesState lower cfg snapshot st entries liquidity utcnow).zones,
      ∀ b ∈ (computeZonesState lower cfg snapshot st entries liquidity utcnow).zones,
        zoneId a = zoneId b → zoneType a = zoneType b) ∧
    ((imbalances (computeZonesState lower cfg snapshot st entries liquidity utcnow).zones).map
      ImbalanceZone.zoneId).Nodup ∧
    (∀ a ∈ snapshotBlocks lower cfg snapshot st utcnow,
      ∀ b ∈ snapshotBlocks lower cfg snapshot st utcnow,
        a.zone.zoneId = b.zone.zoneId ↔
          blockKey cfg (snapshot.frame.getD []) a = blockKey cfg (snapshot.frame.getD []) b) ∧
    (∀ a ∈ snapshotBreakers lower cfg snapshot st liquidity utcnow,
      ∀ b ∈ snapshotBreakers lower cfg snapshot st liquidity utcnow,
        a.zoneId = b.zoneId ↔
          bosRow (snapshot.frame.getD []) a = bosRow (snapshot.frame.getD []) b) ∧
    (((computeZonesState lower cfg snapshot st entries liquidity utcnow).zones.map zoneId).Nodup ↔
      ((snapshotBlocks lower cfg snapshot st utcnow).map
        (blockKey cfg (snapshot.frame.getD []))).Nodup ∧
      ((snapshotBreakers lower cfg snapshot st liquidity utcnow).map
        (bosRow (snapshot.frame.getD []))).Nodup) ∧
    (∀ store, Ranges.computeStructureState lower cfg snapshot store utcnow = some st →
      ((snapshotBlocks lower cfg snapshot st utcnow).map
        (blockKey cfg (snapshot.frame.getD []))).Nodup) := by
  refine ⟨fun a ha b hb => zoneType_eq_of_zoneId_eq ha hb, ?_, fun a ha b hb => blockIds_eq_iff ha hb,
    fun a ha b hb => breakerIds_eq_iff ha hb, ?_, fun store => blockKeys_nodup_of_computed⟩
  · rw [imbalances_zones]
    exact snapshotGaps_nodup
  · rw [nodup_iff]
    exact and_congr (nodup_map_iff fun a ha b hb => blockIds_eq_iff ha hb)
      (nodup_map_iff fun a ha b hb => breakerIds_eq_iff ha hb)

end

section FixedInputs

open StructureState AmdPhase

/-- Fourteen minutes of `open`, `high`, `low` and `close`. -/
def fourteenBars : List (RawBar ℚ) :=
  [⟨some 0, some 20, some 22, some 20, some 22⟩,
    ⟨some 60000, some 22, some 25, some 22, some 24⟩,
    ⟨some 120000, some 24, some 26, some 16, some 18⟩,
    ⟨some 180000, some 18, some 18, some 13, some 15⟩,
    ⟨some 240000, some 15, some 16, some 13, some 14⟩,
    ⟨some 300000, some 14, some 20, some 12, some 19⟩,
    ⟨some 360000, some 19, some 19, some 17, some 17⟩,
    ⟨some 420000, some 17, some 23, some 17, some 23⟩,
    ⟨some 480000, some 23, some 23, some 22, some 23⟩,
    ⟨some 540000, some 23, some 30, some 22, some 28⟩,
    ⟨some 600000, some 28, some 28, some 28, some 28⟩,
    ⟨some 660000, some 28, some 32, some 26, some 30⟩,
    ⟨some 720000, some 30, some 33, some 29, some 33⟩,
    ⟨some 780000, some 33, some 33, some 30, some 30⟩]

def fourteenMinutes : ContextInput ℚ where
  symbol := "xauusd"
  tfPrimary := "1m"
  frame := some fourteenBars
  hasPriceColumns := true
  hasHighLow := true
  hasClose := true
  pdl := none
  pdh := none

def fourteenZones (st : RangedStructureState ℚ) : SmcZonesState ℚ :=
  computeZonesState id sensitive fourteenMinutes st (structureMeta sensitive fourteenMinutes st)
    (some (computeLiquidityState sensitive fourteenMinutes st)) 0

/-- Two blocks of one candidate and one sweep become breakers of one event. -/
theorem breakers_share_id :
    ∃ st, Ranges.computeStructureState id sensitive fourteenMinutes OrderedDict.empty 0 =
        some st ∧ ¬ ((fourteenZones st).zones.map zoneId).Nodup := by
  have hrun : ((Ranges.computeStructureState id sensitive fourteenMinutes OrderedDict.empty 0).any
      fun st => !decide ((fourteenZones st).zones.map zoneId).Nodup) = true := by
    decide +kernel
  obtain ⟨st, hst, hsame⟩ := (Option.any_eq_true ..).mp hrun
  exact ⟨st, hst, by simpa using hsame⟩

end FixedInputs

end SmcPipeline.ZoneIds
