import SmcPipeline.SlidingWindow
import SmcPipeline.Snapshots
import Mathlib.Data.Rat.Floor

/-!
# The verdict on a swing in different snapshots

Two snapshots of a stream that start at different bars may disagree on the event of a
swing: the later one has lost the reference of a leg, the first values of the ATR, or
the break that fixed the structural bias. They agree on a settled swing: one that comes,
in the later snapshot, after a break to a new extreme, with a reference for every leg
from there on and a full ATR window.
-/

namespace SmcPipeline.EventMemory

open Candles Swings StructureEngine StructureState SlidingWindow Snapshots EventHistory Runs

variable {K : Type*}

/-- The swing has an event that says `v`. -/
def Carries (events : List (StructureEvent K)) (s : Swing K) (v : EventType × Direction) : Prop :=
  ∃ e ∈ events, e.time = s.time ∧ e.sourceLeg.toSwing.kind = s.kind ∧ verdict e = v

/-- The leg comes after a break to a new extreme, and every leg from there on has a
reference and a full ATR window. -/
def Settled (st : StructureState K) (leg : Leg K) : Prop :=
  ∃ pre y mid post, st.legs = pre ++ (y :: mid ++ leg :: post) ∧
    (∃ e ∈ st.events, e.sourceLeg = y) ∧ (y.label = .hh ∨ y.label = .ll) ∧
      ∀ z ∈ y :: mid ++ [leg], Anchored z

def Timed (rows : List (Candle K)) : Prop := rows.Pairwise fun a b => a.time < b.time

theorem Timed.index_eq {rows : List (Candle K)} (h : Timed rows) {i j : ℕ} {r q : Candle K}
    (hi : rows[i]? = some r) (hj : rows[j]? = some q) (ht : r.time = q.time) : i = j := by
  obtain ⟨hi', rfl⟩ := List.getElem?_eq_some_iff.mp hi
  obtain ⟨hj', rfl⟩ := List.getElem?_eq_some_iff.mp hj
  rcases lt_trichotomy i j with hlt | heq | hlt
  · exact absurd ht (List.pairwise_iff_getElem.mp h i j hi' hj' hlt).ne
  · exact heq
  · exact absurd ht (List.pairwise_iff_getElem.mp h j i hj' hi' hlt).ne'

section

variable [LinearOrder K] {rows : List (Candle K)} {minSeparation : ℤ}

/-- A swing is known by its time and kind. -/
theorem swing_eq (h : Timed rows) {s s' : Swing K} (hs : s ∈ detectSwings rows minSeparation)
    (hs' : s' ∈ detectSwings rows minSeparation) (ht : s.time = s'.time)
    (hk : s.kind = s'.kind) : s = s' := by
  obtain ⟨-, -, hat⟩ := mem_detectSwings.mp hs
  obtain ⟨-, -, hat'⟩ := mem_detectSwings.mp hs'
  obtain ⟨-, -, -, -, r, hr, hrt⟩ := swingAt_eq_some hat
  obtain ⟨-, -, -, -, q, hq, hqt⟩ := swingAt_eq_some hat'
  have hindex := h.index_eq hr hq (by rw [← hrt, ← hqt, ht])
  rw [hk, hindex, hat'] at hat
  exact (Option.some.inj hat).symm

theorem detectSwings_nodup (rows : List (Candle K)) (minSeparation : ℤ) :
    (detectSwings rows minSeparation).Nodup := by
  refine (detectSwings_pairwise rows minSeparation).imp fun {a b} hab => ?_
  rintro rfl
  rcases hab with hab | ⟨-, hhigh, hlow⟩
  · exact lt_irrefl _ hab
  · rw [hhigh] at hlow
    cases hlow

theorem legs_nodup (rows : List (Candle K)) (minSeparation : ℤ) :
    ((buildLegs (detectSwings rows minSeparation)).map Leg.toSwing).Nodup := by
  rw [buildLegs_toSwings]
  exact (detectSwings_nodup rows minSeparation).sublist (List.tail_sublist _)

omit [LinearOrder K] in
/-- The legs before a leg are determined by its end. -/
theorem split_unique {pre post pre' post' : List (Leg K)} {leg leg' : Leg K}
    (hn : ((pre ++ leg :: post).map Leg.toSwing).Nodup)
    (h : pre ++ leg :: post = pre' ++ leg' :: post') (hto : leg'.toSwing = leg.toSwing) :
    pre' = pre ∧ leg' = leg := by
  rw [List.map_append, List.map_cons, List.nodup_middle, List.nodup_cons, List.mem_append,
    not_or, ← hto] at hn
  have hpre : leg' ∉ pre := fun hmem => hn.1.1 (List.mem_map_of_mem hmem)
  have hpost : leg' ∉ post := fun hmem => hn.1.2 (List.mem_map_of_mem hmem)
  obtain ⟨rfl, rfl, -⟩ := (List.append_cons_inj_of_notMem hpre hpost).mp h
  exact ⟨rfl, rfl⟩

end

section

variable [Field K] [LinearOrder K] (cfg : SmcCoreConfig K)

/-- The verdict on a leg, under the bias the legs before it leave. -/
def verdictOf (rows : List (Candle K)) (pre : List (Leg K)) (leg : Leg K) :
    Option (EventType × Direction) :=
  (legEvent cfg (rows.map Candle.close) (computeAtr rows atrPeriod)
    (biasAfter cfg (rows.map Candle.close) (computeAtr rows atrPeriod) .unknown pre)
    leg).1.map verdict

theorem toSwing_mem {rows : List (Candle K)} {leg : Leg K} (h : leg ∈ (ofRows cfg rows).legs) :
    leg.toSwing ∈ (ofRows cfg rows).swings := toSwing_mem_of_mem_buildLegs h

/-- Where an event of a frame comes from. -/
theorem mem_events {rows : List (Candle K)} {e : StructureEvent K}
    (h : e ∈ (ofRows cfg rows).events) :
    e.sourceLeg ∈ (ofRows cfg rows).legs ∧ e.time = e.sourceLeg.toSwing.time ∧
      breaks cfg (rows.map Candle.close) (computeAtr rows atrPeriod) e.sourceLeg = true := by
  obtain ⟨pre, leg, post, hlegs, he⟩ := (mem_eventsFrom cfg).mp h
  obtain ⟨hbreaks, rfl, htime, -⟩ := legEvent_eq_some cfg he
  refine ⟨?_, htime, hbreaks⟩
  rw [ofRows_legs, hlegs]
  exact List.mem_append_right _ List.mem_cons_self

/-- The end of a leg carries the verdict on the leg. -/
theorem carries_iff {rows : List (Candle K)} (hrows : Timed rows) {pre post : List (Leg K)}
    {leg : Leg K} (hlegs : (ofRows cfg rows).legs = pre ++ leg :: post) {s : Swing K}
    (ht : s.time = leg.toSwing.time) (hk : s.kind = leg.toSwing.kind)
    (v : EventType × Direction) :
    Carries (ofRows cfg rows).events s v ↔ verdictOf cfg rows pre leg = some v := by
  have hleg : leg ∈ (ofRows cfg rows).legs := by
    rw [hlegs]
    exact List.mem_append_right _ List.mem_cons_self
  constructor
  · rintro ⟨e, he, het, hek, hv⟩
    obtain ⟨hmem, htime, -⟩ := mem_events cfg he
    obtain ⟨pre', leg', post', hlegs', he'⟩ := (mem_eventsFrom cfg).mp he
    obtain ⟨-, rfl, -⟩ := legEvent_eq_some cfg he'
    have hto : e.sourceLeg.toSwing = leg.toSwing :=
      swing_eq hrows (toSwing_mem cfg hmem) (toSwing_mem cfg hleg) (by rw [← htime, het, ht])
        (hek.trans hk)
    have hn := legs_nodup rows cfg.minSwingBars
    rw [← ofRows_legs cfg, hlegs] at hn
    obtain ⟨rfl, hsame⟩ := split_unique hn (hlegs.symm.trans hlegs') hto
    unfold verdictOf
    rw [← hsame, he', Option.map_some, hv]
  · intro h
    obtain ⟨e, he, hv⟩ := Option.map_eq_some_iff.mp h
    obtain ⟨-, hsource, htime, -⟩ := legEvent_eq_some cfg he
    refine ⟨e, (mem_eventsFrom cfg).mpr ⟨pre, leg, post, hlegs, he⟩, ?_, ?_, hv⟩
    · rw [htime, ht]
    · rw [hsource, hk]

/-- A swing carries one verdict at most. -/
theorem carries_unique {rows : List (Candle K)} (hrows : Timed rows) {s : Swing K}
    {v v' : EventType × Direction} (h : Carries (ofRows cfg rows).events s v)
    (h' : Carries (ofRows cfg rows).events s v') : v = v' := by
  obtain ⟨e, he, ht, hk, rfl⟩ := id h
  obtain ⟨hmem, htime, -⟩ := mem_events cfg he
  obtain ⟨pre, post, hlegs⟩ := List.append_of_mem hmem
  have hsame := carries_iff cfg hrows hlegs (ht.symm.trans htime) hk.symm
  rw [hsame] at h h'
  exact Option.some.inj (h.symm.trans h')

/-- Rows appended to a frame leave the verdicts on its swings alone. -/
theorem carries_append {rows more : List (Candle K)} (hrows : Timed (rows ++ more)) {s : Swing K}
    (hs : s ∈ (ofRows cfg rows).swings) (v : EventType × Direction) :
    Carries (ofRows cfg (rows ++ more)).events s v ↔ Carries (ofRows cfg rows).events s v := by
  obtain ⟨swings, legs, bias, hswings, hlegs, hevents⟩ := passes_append cfg rows more
  constructor
  · rintro ⟨e, he, ht, hk, hv⟩
    obtain ⟨hmem, htime, -⟩ := mem_events cfg he
    have hs' : s ∈ (ofRows cfg (rows ++ more)).swings := by
      rw [hswings]
      exact List.mem_append_left _ hs
    have hto : e.sourceLeg.toSwing = s :=
      swing_eq hrows (toSwing_mem cfg hmem) hs' (by rw [← htime, ht]) hk
    rw [hevents, List.mem_append] at he
    rcases he with he | he
    · exact ⟨e, he, ht, hk, hv⟩
    · -- a new event belongs to a leg that ends at a new swing
      obtain ⟨pre, leg, post, hsplit, he'⟩ := (mem_eventsFrom cfg).mp he
      obtain ⟨-, hsource, -⟩ := legEvent_eq_some cfg he'
      have hends : legs.map Leg.toSwing = swings := by
        have hall := buildLegs_toSwings (detectSwings (rows ++ more) cfg.minSwingBars)
        rw [← ofRows_legs cfg, ← ofRows_swings cfg, hlegs, hswings, List.map_append, ofRows_legs,
          buildLegs_toSwings, ← ofRows_swings cfg,
          List.tail_append_of_ne_nil (List.ne_nil_of_mem hs)] at hall
        exact List.append_cancel_left hall
      have hnew : s ∈ swings := by
        rw [← hends, ← hto, hsource, hsplit]
        exact List.mem_map_of_mem (List.mem_append_right _ List.mem_cons_self)
      have hn := detectSwings_nodup (rows ++ more) cfg.minSwingBars
      rw [← ofRows_swings cfg, hswings] at hn
      exact (List.disjoint_of_nodup_append hn hs hnew).elim
  · rintro ⟨e, he, hrest⟩
    refine ⟨e, ?_, hrest⟩
    rw [hevents]
    exact List.mem_append_left _ he

private theorem forall₂_append {α β : Type*} {R : α → β → Prop} {as bs : List α} {xs : List β}
    (h : List.Forall₂ R (as ++ bs) xs) :
    ∃ ys zs, xs = ys ++ zs ∧ List.Forall₂ R as ys ∧ List.Forall₂ R bs zs := by
  induction as generalizing xs with
  | nil => exact ⟨[], xs, rfl, .nil, h⟩
  | cons a as ih =>
      cases h with
      | cons hax hrest =>
          obtain ⟨ys, zs, rfl, hys, hzs⟩ := ih hrest
          exact ⟨_ :: ys, zs, rfl, .cons hax hys, hzs⟩

theorem index_lt {rows : List (Candle K)} {leg : Leg K} (h : leg ∈ (ofRows cfg rows).legs) :
    leg.toSwing.index < rows.length := index_lt_of_mem_legs h

/-- The legs with more rows in front, cut at the counterpart of one leg. -/
theorem legs_append_left (front : List (Candle K)) {rows : List (Candle K)}
    {pre post : List (Leg K)} {leg : Leg K} (h : (ofRows cfg rows).legs = pre ++ leg :: post) :
    ∃ older pre' leg' post', (ofRows cfg (front ++ rows)).legs =
        (older ++ pre') ++ leg' :: post' ∧
      List.Forall₂ (Sharpens front.length) pre pre' ∧ Sharpens front.length leg leg' := by
  obtain ⟨gone, hswings⟩ := detectSwings_append_left front rows cfg.minSwingBars
  obtain ⟨older, legs, hlegs, hsharp⟩ := buildLegs_append_left gone
    (detectSwings rows cfg.minSwingBars) front.length
  rw [← ofRows_legs cfg, h] at hsharp
  obtain ⟨pre', rest, rfl, hpre, hrest⟩ := forall₂_append hsharp
  cases hrest with
  | @cons _ leg' _ post' hleg _ =>
      refine ⟨older, pre', leg', post', ?_, hpre, hleg⟩
      rw [ofRows_legs, hswings, hlegs, List.append_assoc]

/-- An anchored leg to a new extreme has an event in both frames or in neither, in the
same direction. -/
theorem direction_append_left {front rows : List (Candle K)} (hrows : Timed (front ++ rows))
    {leg : Leg K} (hleg : leg ∈ (ofRows cfg rows).legs) (hanchored : Anchored leg)
    (hextreme : leg.label = .hh ∨ leg.label = .ll) (dir : Direction) :
    (∃ type, Carries (ofRows cfg (front ++ rows)).events leg.toSwing (type, dir)) ↔
      ∃ type, Carries (ofRows cfg rows).events leg.toSwing (type, dir) := by
  obtain ⟨pre, post, hlegs⟩ := List.append_of_mem hleg
  obtain ⟨older, pre', leg', post', hlegs', -, hsharp⟩ := legs_append_left cfg front hlegs
  have hto : leg.toSwing.time = leg'.toSwing.time ∧ leg.toSwing.kind = leg'.toSwing.kind := by
    rw [hsharp.toSwing]
    exact ⟨rfl, rfl⟩
  have hsame : (verdictOf cfg (front ++ rows) (older ++ pre') leg').map Prod.snd =
      (verdictOf cfg rows pre leg).map Prod.snd := by
    unfold verdictOf
    rw [(legEvent_sharpens (aligned_append front rows) _ hsharp hanchored
      (index_lt cfg hleg)).1]
    by_cases hbreaks : breaks cfg (rows.map Candle.close) (computeAtr rows atrPeriod) leg = true
    · exact (legEvent_fixes hbreaks hextreme _ _).2
    · unfold legEvent
      rw [if_neg hbreaks, if_neg hbreaks]
  have hexists : ∀ o : Option (EventType × Direction),
      (∃ type, o = some (type, dir)) ↔ o.map Prod.snd = some dir := by
    rintro (_ | ⟨type, dir'⟩)
    · simp
    · simp
  simp only [carries_iff cfg hrows hlegs' hto.1 hto.2,
    carries_iff cfg (hrows.sublist (List.sublist_append_right _ _)) hlegs rfl rfl]
  rw [hexists, hexists, hsame]

/-- A settled leg has the same verdict in both frames. -/
theorem verdict_append_left {front rows : List (Candle K)} (hrows : Timed (front ++ rows))
    {leg : Leg K} (hsettled : Settled (ofRows cfg rows) leg) (v : EventType × Direction) :
    Carries (ofRows cfg (front ++ rows)).events leg.toSwing v ↔
      Carries (ofRows cfg rows).events leg.toSwing v := by
  obtain ⟨pre, y, mid, post, hlegs, ⟨e, he, rfl⟩, hextreme, hanchored⟩ := hsettled
  obtain ⟨-, -, hbreaks⟩ := mem_events cfg he
  have hmem : ∀ z ∈ e.sourceLeg :: mid ++ [leg], z ∈ (ofRows cfg rows).legs := by
    intro z hz
    rw [hlegs]
    simp only [List.mem_append, List.mem_cons, List.not_mem_nil, or_false] at hz ⊢
    tauto
  have hall : ∀ z ∈ e.sourceLeg :: mid ++ [leg], Anchored z ∧ z.toSwing.index < rows.length :=
    fun z hz => ⟨hanchored z hz, index_lt cfg (hmem z hz)⟩
  have haligned := aligned_append front rows
  have hsplit : (ofRows cfg rows).legs = (pre ++ e.sourceLeg :: mid) ++ leg :: post := by
    rw [hlegs]
    simp
  obtain ⟨older, pre', leg', post', hlegs', hpre, hsharp⟩ := legs_append_left cfg front hsplit
  obtain ⟨pre', run, rfl, -, hrun⟩ := forall₂_append hpre
  cases hrun with
  | @cons _ y' _ mid' hy hmid =>
      have hto : leg.toSwing.time = leg'.toSwing.time ∧ leg.toSwing.kind = leg'.toSwing.kind := by
        rw [hsharp.toSwing]
        exact ⟨rfl, rfl⟩
      rw [carries_iff cfg hrows hlegs' hto.1 hto.2,
        carries_iff cfg (hrows.sublist (List.sublist_append_right _ _)) hsplit rfl rfl]
      have hyall := hall e.sourceLeg (by simp)
      have hlegall := hall leg (by simp)
      -- the bias is the same after the break, hence before the leg
      have hbias : biasAfter cfg ((front ++ rows).map Candle.close)
          (computeAtr (front ++ rows) atrPeriod) .unknown (older ++ (pre' ++ y' :: mid')) =
            biasAfter cfg (rows.map Candle.close) (computeAtr rows atrPeriod) .unknown
              (pre ++ e.sourceLeg :: mid) := by
        rw [← List.append_assoc, biasAfter_append, biasAfter_append cfg _ _ _ pre,
          biasAfter_cons, biasAfter_cons, (legEvent_sharpens haligned _ hy hyall.1 hyall.2).2,
          (legEvent_fixes hbreaks hextreme _ _).1]
        exact biasAfter_sharpens haligned _ hmid fun z hz => hall z (by simp [hz])
      unfold verdictOf
      rw [hbias, (legEvent_sharpens haligned _ hsharp hlegall.1 hlegall.2).1]

end

theorem carries_congr {events : List (StructureEvent K)} {s s' : Swing K}
    (ht : s.time = s'.time) (hk : s.kind = s'.kind) (v : EventType × Direction) :
    Carries events s v ↔ Carries events s' v := by
  unfold Carries
  rw [ht, hk]

theorem timed_prepared (maxBars : ℤ) (limit : ℕ) {bars : List (RawBar K)} (h : Ordered bars) :
    Timed (prepared maxBars (some (lastBars limit bars))) := by
  rw [prepared_lastBars _ _ h]
  exact h.sublist (List.drop_sublist _ _)

/-- What an earlier and a later snapshot say of a swing that both hold. -/
structure Agree (early late : StructureState K) (s s' : Swing K) : Prop where
  price : s.price = s'.price
  sameStart : s.index = s'.index → ∀ v, Carries early.events s v ↔ Carries late.events s v
  settled : ∀ leg ∈ late.legs, leg.toSwing = s' → Settled late leg →
    ∀ v, Carries early.events s v ↔ Carries late.events s v
  direction : ∀ leg ∈ late.legs, leg.toSwing = s' → Anchored leg →
    (leg.label = .hh ∨ leg.label = .ll) → ∀ dir,
      (∃ type, Carries early.events s (type, dir)) ↔ ∃ type, Carries late.events s (type, dir)

section

variable [Field K] [LinearOrder K] (cfg : SmcCoreConfig K)

theorem rows_agree {rows rest front rows' : List (Candle K)} (hcat : rows ++ rest = front ++ rows')
    (hrows : Timed (front ++ rows')) {s s' : Swing K} (hs : s ∈ (ofRows cfg rows).swings)
    (hs' : s' ∈ (ofRows cfg rows').swings) (ht : s.time = s'.time) (hk : s.kind = s'.kind) :
    Agree (ofRows cfg rows) (ofRows cfg rows') s s' := by
  have hearly : ∀ v, Carries (ofRows cfg rows).events s v ↔
      Carries (ofRows cfg (front ++ rows')).events s v := by
    intro v
    rw [← hcat] at hrows ⊢
    exact (carries_append cfg hrows hs v).symm
  have hshift : s = Swing.shift front.length s' := by
    obtain ⟨gone, hswings⟩ := detectSwings_append_left front rows' cfg.minSwingBars
    have hall : s ∈ detectSwings (front ++ rows') cfg.minSwingBars := by
      rw [← hcat]
      exact (ofRows_append cfg rows rest).1.subset hs
    have hall' : Swing.shift front.length s' ∈ detectSwings (front ++ rows') cfg.minSwingBars := by
      rw [hswings]
      exact List.mem_append_right _ (List.mem_map_of_mem hs')
    exact swing_eq hrows hall hall' ht hk
  refine ⟨by rw [hshift]; rfl, fun hindex v => ?_, ?_, ?_⟩
  · have hfront : front = [] := by
      rw [hshift] at hindex
      change s'.index + front.length = s'.index at hindex
      exact List.length_eq_zero_iff.mp (by omega)
    rw [hearly, hfront, List.nil_append]
  · rintro leg hleg rfl hsettled v
    rw [hearly, carries_congr ht hk, carries_congr ht hk]
    exact verdict_append_left cfg hrows hsettled v
  · rintro leg hleg rfl hanchored hextreme dir
    simp only [hearly, carries_congr ht hk]
    exact direction_append_left cfg hrows hleg hanchored hextreme dir

/-- Two snapshots of one stream. -/
theorem snapshots_agree (limit : ℕ) {past more : List (RawBar K)} (h : Ordered (past ++ more))
    {s s' : Swing K} (hs : s ∈ (snapshotOf cfg limit past).swings)
    (hs' : s' ∈ (snapshotOf cfg limit (past ++ more)).swings) (ht : s.time = s'.time)
    (hk : s.kind = s'.kind) :
    Agree (snapshotOf cfg limit past) (snapshotOf cfg limit (past ++ more)) s s' := by
  obtain ⟨front, rest, hcat, htimed⟩ := windows_overlap cfg.maxLookbackBars limit h
  exact rows_agree cfg hcat htimed hs hs' ht hk

/-- The verdict of an event that a snapshot emits is the one an earlier snapshot gave the
swing, if the event is settled or the two start at the same bar. -/
theorem carried_before (limit : ℕ) {past more : List (RawBar K)} (h : Ordered (past ++ more))
    {e : StructureEvent K} (he : e ∈ (snapshotOf cfg limit (past ++ more)).events) {s : Swing K}
    (hs : s ∈ (snapshotOf cfg limit past).swings) (ht : s.time = e.time)
    (hk : s.kind = e.sourceLeg.toSwing.kind)
    (hsettled : s.index = e.sourceLeg.toSwing.index ∨
      Settled (snapshotOf cfg limit (past ++ more)) e.sourceLeg) :
    Carries (snapshotOf cfg limit past).events s (verdict e) := by
  obtain ⟨hleg, htime, -⟩ := mem_events cfg he
  have hagree := snapshots_agree cfg limit h hs (toSwing_mem cfg hleg) (ht.trans htime) hk
  have hcarries : Carries (snapshotOf cfg limit (past ++ more)).events s (verdict e) :=
    ⟨e, he, ht.symm, hk.symm, rfl⟩
  rcases hsettled with hindex | hsettled
  · exact (hagree.sameStart hindex _).mpr hcarries
  · exact (hagree.settled _ hleg rfl hsettled _).mpr hcarries

/-- Some snapshot of the stream emits the event, settled. -/
def EmittedSettled (limit : ℕ) (bars : List (RawBar K)) (e : StructureEvent K) : Prop :=
  ∃ past rest, bars = past ++ rest ∧ e ∈ (snapshotOf cfg limit past).events ∧
    Settled (snapshotOf cfg limit past) e.sourceLeg

/-- Two settled events of one swing say the same. -/
theorem settled_same (limit : ℕ) {bars : List (RawBar K)} (h : Ordered bars)
    {e e' : StructureEvent K} (he : EmittedSettled cfg limit bars e)
    (he' : EmittedSettled cfg limit bars e') (ht : e.time = e'.time)
    (hk : e.sourceLeg.toSwing.kind = e'.sourceLeg.toSwing.kind) : verdict e = verdict e' := by
  have hle : ∀ {a b : StructureEvent K} {past more rest : List (RawBar K)},
      bars = past ++ more ++ rest → a ∈ (snapshotOf cfg limit past).events →
      b ∈ (snapshotOf cfg limit (past ++ more)).events →
      Settled (snapshotOf cfg limit (past ++ more)) b.sourceLeg → a.time = b.time →
      a.sourceLeg.toSwing.kind = b.sourceLeg.toSwing.kind → verdict a = verdict b := by
    intro a b past more rest hbars ha hb hsettled ht hk
    obtain ⟨hleg, htime, -⟩ := mem_events cfg ha
    have hordered : Ordered (past ++ more) := h.sublist (hbars ▸ List.sublist_append_left _ _)
    have hbefore := carried_before cfg limit hordered hb (toSwing_mem cfg hleg)
      (htime.symm.trans ht) hk (Or.inr hsettled)
    exact carries_unique cfg
      (timed_prepared _ limit (hordered.sublist (List.sublist_append_left _ _)))
      ⟨a, ha, htime, rfl, rfl⟩ hbefore
  obtain ⟨past, rest, hbars, hmem, hsettled⟩ := he
  obtain ⟨past', rest', hbars', hmem', hsettled'⟩ := he'
  rcases List.append_eq_append_iff.mp (hbars.symm.trans hbars') with ⟨more, rfl, -⟩ | ⟨more, rfl, -⟩
  · exact hle hbars' hmem hmem' hsettled' ht hk
  · exact (hle hbars hmem' hmem hsettled ht.symm hk.symm).symm

end

section

variable [Field K] [LinearOrder K] [FloorRing K] (lower : String → String)
  (cfg : SmcCoreConfig K) (symbol timeframe : String) (limit : ℕ)

/-- Snapshots agree on settled swings, and memory holds events that some snapshot emitted:
a settled one is what its swing carried from the first snapshot that confirmed it, and
two settled ones of a swing say the same. -/
structure Consistent (t : Feed K) : Prop where
  snapshots : ∀ past more rest, t.seen = past ++ more ++ rest →
    ∀ s ∈ (snapshotOf cfg limit past).swings,
      ∀ s' ∈ (snapshotOf cfg limit (past ++ more)).swings, s.time = s'.time → s.kind = s'.kind →
        Agree (snapshotOf cfg limit past) (snapshotOf cfg limit (past ++ more)) s s'
  recorded : ∀ e ∈ (bucketOf lower t.store symbol timeframe).events, ∃ past rest,
    t.seen = past ++ rest ∧ e ∈ (snapshotOf cfg limit past).events ∧
      ∀ first more, past = first ++ more → ∀ s ∈ (snapshotOf cfg limit first).swings,
        s.time = e.time → s.kind = e.sourceLeg.toSwing.kind →
          (s.index = e.sourceLeg.toSwing.index ∨
            Settled (snapshotOf cfg limit past) e.sourceLeg) →
              Carries (snapshotOf cfg limit first).events s (verdict e)
  settled : ∀ e ∈ (bucketOf lower t.store symbol timeframe).events,
    ∀ e' ∈ (bucketOf lower t.store symbol timeframe).events, e.time = e'.time →
      e.sourceLeg.toSwing.kind = e'.sourceLeg.toSwing.kind →
        EmittedSettled cfg limit t.seen e → EmittedSettled cfg limit t.seen e' →
          verdict e = verdict e'

/-- Every run of the feed leaves a consistent memory. -/
theorem memory_consistent_where_settled {ticks : List (Tick K)} {t : Feed K}
    (hrun : Run (advance lower cfg symbol timeframe limit) Opens Feed.fresh ticks t) :
    Consistent lower cfg symbol timeframe limit t := by
  obtain ⟨hordered, hemitted⟩ := recorded_run lower cfg symbol timeframe limit hrun
  refine ⟨fun past more rest hseen s hs s' hs' ht hk => ?_, fun e he => ?_, ?_⟩
  · have hstart : Ordered (past ++ more) :=
      hordered.sublist (hseen ▸ List.sublist_append_left _ _)
    exact snapshots_agree cfg limit hstart hs hs' ht hk
  · obtain ⟨past, rest, hseen, hmem⟩ := hemitted e he
    refine ⟨past, rest, hseen, hmem, ?_⟩
    rintro first more rfl s hs ht hk hsettled
    have hstart : Ordered (first ++ more) :=
      hordered.sublist (hseen ▸ List.sublist_append_left _ _)
    exact carried_before cfg limit hstart hmem hs ht hk hsettled
  · intro e _ e' _ ht hk hsettled hsettled'
    exact settled_same cfg limit hordered hsettled hsettled' ht hk

end

section FixedInputs

def tickOf (n : ℤ) (high low : ℚ) : Tick ℚ := ⟨minuteOf n high low, 60000 * n⟩

/-- Rising highs and lows, with a swing on every inner bar. -/
def zigzag (n : ℕ) : List (Tick ℚ) := (List.range n).map fun i =>
  if i % 2 = 0 then tickOf i (10 + i) (8 + i) else tickOf i (6 + i) (4 + i)

/-- The window of bars 1 to 18. -/
def zigzagState : StructureState ℚ := snapshotOf sensitive 18 ((zigzag 19).map Tick.bar)

/-- The last leg is settled by the one before it. -/
theorem zigzag_settled : ∃ e ∈ zigzagState.events, Settled zigzagState e.sourceLeg := by
  refine ⟨zigzagState.events.get ⟨13, by decide +kernel⟩, List.get_mem _ _, zigzagState.legs.take 13,
    zigzagState.legs.get ⟨13, by decide +kernel⟩, [], [], by decide +kernel,
    ⟨zigzagState.events.get ⟨12, by decide +kernel⟩, List.get_mem _ _, by decide +kernel⟩,
    by decide +kernel, ?_⟩
  unfold Anchored
  decide +kernel

theorem zigzag_memory_consistent :
    ∃ t, Run (advance id sensitive "xauusd" "1m" 18) Opens Feed.fresh (zigzag 19) t ∧
      (∃ e, EmittedSettled sensitive 18 t.seen e) ∧
        Consistent id sensitive "xauusd" "1m" 18 t := by
  obtain ⟨t, hrun, hseen⟩ := Run.exists_of_checked (advance id sensitive "xauusd" "1m" 18)
    Opens Feed.fresh (zigzag 19) (fun t => decide (t.seen = (zigzag 19).map Tick.bar))
    (by decide +kernel)
  refine ⟨t, hrun, ?_, memory_consistent_where_settled id sensitive "xauusd" "1m" 18 hrun⟩
  obtain ⟨e, he, hsettled⟩ := zigzag_settled
  refine ⟨e, (zigzag 19).map Tick.bar, [], ?_, he, hsettled⟩
  rw [List.append_nil]
  exact of_decide_eq_true hseen

/-- A stream whose first break leaves a window of six bars with the seventh. -/
def forgetful : List (Tick ℚ) :=
  [tickOf 1 5 4, tickOf 2 6 4, tickOf 3 4 3, tickOf 4 9 7, tickOf 5 2 1, tickOf 6 3 2,
    tickOf 7 9 7]

instance (events : List (StructureEvent ℚ)) (s : Swing ℚ) (v : EventType × Direction) :
    Decidable (Carries events s v) :=
  inferInstanceAs (Decidable (∃ e ∈ events, _ ∧ _ ∧ _))

/-- The low of minute 5 is confirmed as a CHOCH and becomes a BOS when the high of minute
2 leaves the window; memory keeps both. -/
theorem memory_contradicts_itself :
    ∃ t, Run (advance id sensitive "xauusd" "1m" 6) Opens Feed.fresh forgetful t ∧
      (∃ e ∈ (bucketOf id t.store "xauusd" "1m").events,
        ∃ e' ∈ (bucketOf id t.store "xauusd" "1m").events,
          e.time = e'.time ∧ e.direction = e'.direction ∧ e.priceLevel = e'.priceLevel ∧
            e.eventType ≠ e'.eventType) ∧
      ∃ s ∈ (snapshotOf sensitive 6 ((forgetful.take 6).map Tick.bar)).swings,
        ∃ s' ∈ (snapshotOf sensitive 6 (forgetful.map Tick.bar)).swings,
          s.time = s'.time ∧ s.kind = s'.kind ∧ s.price = s'.price ∧
          Carries (snapshotOf sensitive 6 ((forgetful.take 6).map Tick.bar)).events s
            (.choch, .short) ∧
          ¬ Carries (snapshotOf sensitive 6 (forgetful.map Tick.bar)).events s'
            (.choch, .short) := by
  obtain ⟨t, hrun, hmem⟩ := Run.exists_of_checked (advance id sensitive "xauusd" "1m" 6)
    Opens Feed.fresh forgetful (fun t => decide
      (∃ e ∈ (bucketOf id t.store "xauusd" "1m").events,
        ∃ e' ∈ (bucketOf id t.store "xauusd" "1m").events,
          e.time = e'.time ∧ e.direction = e'.direction ∧ e.priceLevel = e'.priceLevel ∧
            e.eventType ≠ e'.eventType)) (by decide +kernel)
  exact ⟨t, hrun, of_decide_eq_true hmem, by decide +kernel⟩

end FixedInputs

end SmcPipeline.EventMemory
