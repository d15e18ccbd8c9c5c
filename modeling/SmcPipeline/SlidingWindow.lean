import SmcPipeline.StructureState
import Mathlib.Data.List.Forall2

/-!
# A frame without its first rows

What the passes compute on `rows` compared with what they compute on `front ++ rows`.
The swings are the same, shifted. A leg may lose its reference, when the last swing of
its kind lies in front; otherwise it keeps label and reference. The ATR is the same once
its window is full. The structural bias restarts, and is the same again after a leg that
fixes it, as long as no leg loses its reference.
-/

namespace SmcPipeline.SlidingWindow

open Candles Swings StructureEngine

variable {K : Type*}

section

variable [LinearOrder K]

theorem agreeAround_append {β : Type*} (window idx : ℕ) (front rows : List β) :
    AgreeAround window idx front.length rows (front ++ rows) := by
  intro i _ _
  rw [List.getElem?_append_right (by omega)]
  congr 1
  omega

/-- The swings of a frame are the last swings of a frame with more rows in front. -/
theorem detectSwings_append_left (front rows : List (Candle K)) (minSeparation : ℤ) :
    ∃ gone, detectSwings (front ++ rows) minSeparation =
      gone ++ (detectSwings rows minSeparation).map (Swing.shift front.length) := by
  set w := windowOf minSeparation with hw
  rw [detectSwings_eq, detectSwings_eq, ← hw]
  rcases Nat.eq_zero_or_pos (rows.length - w - w) with hzero | hpos
  · rw [hzero]
    exact ⟨_, (List.append_nil _).symm⟩
  · have hlen : (front ++ rows).length - w - w = front.length + (rows.length - w - w) := by
      rw [List.length_append]
      omega
    rw [hlen, ← List.range'_append_1, List.flatMap_append, List.map_flatMap]
    refine ⟨_, congrArg (_ ++ ·) ?_⟩
    rw [Nat.add_comm w, ← List.map_add_range' w _ 1, List.flatMap_map]
    refine List.flatMap_congr fun idx hidx => ?_
    rw [List.mem_range'_1] at hidx
    rw [Nat.add_comm front.length]
    exact swingsAt_shift hidx.1 (agreeAround_append w idx front rows)

/-- The second memory of prices knows at least what the first one does. -/
def Extends (last last' : Option K × Option K) : Prop :=
  ∀ kind p, lastOf kind last = some p → lastOf kind last' = some p

/-- The same leg, seen with more rows in front. -/
structure Sharpens (d : ℕ) (leg leg' : Leg K) : Prop where
  fromSwing : leg'.fromSwing = Swing.shift d leg.fromSwing
  toSwing : leg'.toSwing = Swing.shift d leg.toSwing
  labelled : leg.label ≠ .undefined →
    leg'.label = leg.label ∧ leg'.referencePrice = leg.referencePrice

omit [LinearOrder K] in
theorem Extends.remember {last last' : Option K × Option K} (h : Extends last last') (d : ℕ)
    (s : Swing K) : Extends (remember s last) (remember (Swing.shift d s) last') := by
  intro kind p hp
  rw [lastOf_remember] at hp ⊢
  change (if s.kind = kind then some s.price else lastOf kind last') = some p
  split_ifs at hp ⊢
  · exact hp
  · exact h kind p hp

theorem legsFrom_sharpens {last last' : Option K × Option K} (h : Extends last last') (d : ℕ)
    (prev : Swing K) (swings : List (Swing K)) :
    List.Forall₂ (Sharpens d) (legsFrom prev last swings)
      (legsFrom (Swing.shift d prev) last' (swings.map (Swing.shift d))) := by
  induction swings generalizing prev last last' with
  | nil => exact .nil
  | cons curr swings ih =>
      have hprev := h.remember d prev
      refine .cons ⟨rfl, rfl, fun hlabel => ?_⟩ (ih (hprev.remember d curr) curr)
      cases hlast : lastOf curr.kind (remember prev last) with
      | none =>
          refine absurd ?_ hlabel
          simp only [hlast]
          cases curr.kind <;> rfl
      | some p =>
          have hlast' := hprev curr.kind p hlast
          simp only [Swing.shift] at hlast' ⊢
          simp only [hlast', and_self]

/-- The legs from a swing on, after any swings before it. -/
theorem legsFrom_split (prev s : Swing K) (last : Option K × Option K)
    (swings rest : List (Swing K)) :
    ∃ legs last', legsFrom prev last (swings ++ s :: rest) =
      legs ++ legsFrom s (remember s last') rest := by
  induction swings generalizing prev last with
  | nil => exact ⟨[_], remember prev last, rfl⟩
  | cons curr swings ih =>
      obtain ⟨legs, last', h⟩ := ih curr (remember curr (remember prev last))
      simp only [List.cons_append, legsFrom]
      rw [h]
      exact ⟨_ :: legs, last', rfl⟩

/-- The legs of a frame are the last legs of a frame with more rows in front, where
they may be sharper. -/
theorem buildLegs_append_left (gone swings : List (Swing K)) (d : ℕ) :
    ∃ older legs, buildLegs (gone ++ swings.map (Swing.shift d)) = older ++ legs ∧
      List.Forall₂ (Sharpens d) (buildLegs swings) legs := by
  cases swings with
  | nil => exact ⟨buildLegs (gone ++ []), [], (List.append_nil _).symm, .nil⟩
  | cons first swings =>
      have hnone : ∀ last : Option K × Option K,
          Extends (remember first (none, none)) (remember (Swing.shift d first) last) := fun last =>
        Extends.remember (fun kind p hp => by cases kind <;> cases hp) d first
      cases gone with
      | nil => exact ⟨[], _, rfl, legsFrom_sharpens (hnone _) d first swings⟩
      | cons oldest gone =>
          obtain ⟨legs, last', h⟩ := legsFrom_split oldest (Swing.shift d first)
            (remember oldest (none, none)) gone (swings.map (Swing.shift d))
          exact ⟨legs, _, h, legsFrom_sharpens (hnone last') d first swings⟩

end

section

variable [Field K] [LinearOrder K] (cfg : SmcCoreConfig K)

/-- A leg with a reference whose end has a full ATR window behind it. -/
def Anchored (leg : Leg K) : Prop := leg.label ≠ .undefined ∧ atrPeriod ≤ leg.toSwing.index

/-- The columns of a frame and of one with `d` more rows in front. -/
structure Aligned (d len : ℕ) (closes atr closes' atr' : List (Option K)) : Prop where
  closes : ∀ i, i < len → valueAt closes' (i + d) = valueAt closes i
  atr : ∀ i, i < len → atrPeriod ≤ i → valueAt atr' (i + d) = valueAt atr i

theorem aligned_append (front rows : List (Candle K)) :
    Aligned front.length rows.length (rows.map Candle.close) (computeAtr rows atrPeriod)
      ((front ++ rows).map Candle.close) (computeAtr (front ++ rows) atrPeriod) where
  closes := by
    intro i _
    unfold valueAt
    rw [List.getElem?_map, List.getElem?_map, List.getElem?_append_right (by omega)]
    simp
  atr := by
    intro i hi hfull
    refine valueAt_computeAtr_shift hi (Or.inr hfull) fun j _ _ => ?_
    rw [List.getElem?_append_right (by omega)]
    congr 1
    omega

variable {cfg} {d len : ℕ} {closes atr closes' atr' : List (Option K)}

theorem breaks_sharpens (h : Aligned d len closes atr closes' atr') {leg leg' : Leg K}
    (hs : Sharpens d leg leg') (ha : Anchored leg) (hlen : leg.toSwing.index < len) :
    breaks cfg closes' atr' leg' = breaks cfg closes atr leg := by
  obtain ⟨hlabel, href⟩ := hs.labelled ha.1
  have hindex : leg'.toSwing.index = leg.toSwing.index + d := by
    rw [hs.toSwing]
    rfl
  unfold breaks
  rw [hindex, h.closes _ hlen, h.atr _ hlen ha.2, hlabel, href]

/-- What an event says, apart from the leg it comes from. -/
def verdict (e : StructureEvent K) : EventType × Direction := (e.eventType, e.direction)

/-- The verdict on a leg depends on its label, its break and the bias. -/
theorem legEvent_congr {leg leg' : Leg K} (bias : SmcTrend)
    (hbreaks : breaks cfg closes' atr' leg' = breaks cfg closes atr leg)
    (hlabel : leg'.label = leg.label) :
    (legEvent cfg closes' atr' bias leg').1.map verdict =
        (legEvent cfg closes atr bias leg).1.map verdict ∧
      (legEvent cfg closes' atr' bias leg').2 = (legEvent cfg closes atr bias leg).2 := by
  unfold legEvent
  rw [hbreaks]
  split_ifs
  · dsimp only
    rw [hlabel, Option.map_map, Option.map_map]
    exact ⟨rfl, rfl⟩
  · exact ⟨rfl, rfl⟩

theorem legEvent_sharpens (h : Aligned d len closes atr closes' atr') {leg leg' : Leg K}
    (bias : SmcTrend) (hs : Sharpens d leg leg') (ha : Anchored leg)
    (hlen : leg.toSwing.index < len) :
    (legEvent cfg closes' atr' bias leg').1.map verdict =
        (legEvent cfg closes atr bias leg).1.map verdict ∧
      (legEvent cfg closes' atr' bias leg').2 = (legEvent cfg closes atr bias leg).2 :=
  legEvent_congr bias (breaks_sharpens h hs ha hlen) (hs.labelled ha.1).1

/-- Anchored legs move the bias in the same way. -/
theorem biasAfter_sharpens (h : Aligned d len closes atr closes' atr') {legs legs' : List (Leg K)}
    (bias : SmcTrend) (hs : List.Forall₂ (Sharpens d) legs legs')
    (ha : ∀ leg ∈ legs, Anchored leg ∧ leg.toSwing.index < len) :
    biasAfter cfg closes' atr' bias legs' = biasAfter cfg closes atr bias legs := by
  induction hs generalizing bias with
  | nil => rfl
  | @cons leg leg' legs legs' hleg _ ih =>
      obtain ⟨hanchored, hlen⟩ := ha leg List.mem_cons_self
      have hstep : (legEvent cfg closes' atr' bias leg').2 = (legEvent cfg closes atr bias leg).2 :=
        (legEvent_sharpens h bias hleg hanchored hlen).2
      rw [biasAfter_cons, biasAfter_cons, hstep]
      exact ih _ fun l hl => ha l (List.mem_cons_of_mem leg hl)

/-- A break to a new extreme fixes the bias, whatever it was. -/
theorem legEvent_fixes {leg : Leg K} (hbreaks : breaks cfg closes atr leg = true)
    (hlabel : leg.label = .hh ∨ leg.label = .ll) (bias bias' : SmcTrend) :
    (legEvent cfg closes atr bias leg).2 = (legEvent cfg closes atr bias' leg).2 ∧
      ((legEvent cfg closes atr bias leg).1.map verdict).map Prod.snd =
        ((legEvent cfg closes atr bias' leg).1.map verdict).map Prod.snd := by
  unfold legEvent
  rw [if_pos hbreaks, if_pos hbreaks]
  rcases hlabel with hlabel | hlabel <;> rw [hlabel] <;> exact ⟨rfl, rfl⟩

end

end SmcPipeline.SlidingWindow
