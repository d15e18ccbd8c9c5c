import SmcPipeline.StructureEngine

/-!
# Where the legs get their labels

`build_legs` carries the last high and low price from leg to leg and sets them from both ends of
each pair. What it compares a swing with is the price of the latest earlier swing of its kind.
-/

namespace SmcPipeline.LegLabels

open Swings StructureEngine

variable {K : Type*}

/-- The latest of some swings of a kind. -/
def latest (kind : SwingKind) (swings : List (Swing K)) : Option (Swing K) :=
  (swings.filter fun s => s.kind = kind).getLast?

theorem latest_concat (kind : SwingKind) (swings : List (Swing K)) (s : Swing K) :
    latest kind (swings ++ [s]) = if s.kind = kind then some s else latest kind swings := by
  unfold latest
  rw [List.filter_append]
  split_ifs with hkind
  · rw [List.filter_singleton, decide_eq_true hkind]
    exact List.getLast?_concat
  · rw [List.filter_singleton, decide_eq_false hkind]
    exact congrArg List.getLast? (List.append_nil _)

/-- The price that is remembered for a kind is that of its latest swing. -/
theorem lastOf_pricesOf_eq (kind : SwingKind) (swings : List (Swing K)) :
    lastOf kind (pricesOf swings) = (latest kind swings).map Swing.price := by
  induction swings using List.reverseRecOn with
  | nil => cases kind <;> rfl
  | append_singleton swings s ih =>
      rw [pricesOf_concat, lastOf_remember, latest_concat, ih]
      split_ifs <;> rfl

variable [LinearOrder K]

/-- The leg from `prev` to `curr` after some swings that end with `prev`. -/
def legTo (earlier : List (Swing K)) (prev curr : Swing K) : Leg K :=
  let reference := lastOf curr.kind (pricesOf earlier)
  ⟨prev, curr, labelOf curr.kind curr.price reference, reference⟩

theorem legsFrom_concat {first : Swing K} {last : Option K × Option K} {pre : List (Swing K)}
    (hlast : remember first last = pricesOf (pre ++ [first])) (rest : List (Swing K))
    (curr : Swing K) :
    legsFrom first last (rest ++ [curr]) = legsFrom first last rest ++
      [legTo (pre ++ first :: rest) ((first :: rest).getLast (List.cons_ne_nil first rest)) curr] := by
  induction rest generalizing first last pre with
  | nil =>
      simp only [List.nil_append, legsFrom, hlast, List.getLast_singleton]
      rfl
  | cons s rest ih =>
      have hnext : remember s (remember s (remember first last)) =
          pricesOf ((pre ++ [first]) ++ [s]) := by
        rw [pricesOf_concat, remember_remember, hlast]
      have hrest := ih hnext
      rw [List.append_assoc, List.singleton_append] at hrest
      simp only [List.cons_append, legsFrom]
      rw [hrest, List.getLast_cons (List.cons_ne_nil s rest)]

/-- One more swing gives one more leg, from the swing before it. -/
theorem buildLegs_concat (pre : List (Swing K)) (prev curr : Swing K) :
    buildLegs (pre ++ [prev] ++ [curr]) =
      buildLegs (pre ++ [prev]) ++ [legTo (pre ++ [prev]) prev curr] := by
  obtain ⟨first, rest, hlist⟩ := List.exists_cons_of_ne_nil (l := pre ++ [prev]) (by simp)
  have hfirst : remember first (remember first (none, none)) = pricesOf ([] ++ [first]) := by
    rw [remember_remember]
    rfl
  have hprev : (first :: rest).getLast (List.cons_ne_nil first rest) = prev := by
    simp only [← hlist, List.getLast_concat]
  have hlegs := legsFrom_concat hfirst rest curr
  rw [hprev, List.nil_append] at hlegs
  rw [hlist]
  exact hlegs

theorem length_buildLegs (swings : List (Swing K)) :
    (buildLegs swings).length = swings.length - 1 := by
  rw [← List.length_map Leg.toSwing, buildLegs_toSwings, List.length_tail]

theorem buildLegs_getElem? {swings : List (Swing K)} {i : ℕ} {prev curr : Swing K}
    (hprev : swings[i]? = some prev) (hcurr : swings[i + 1]? = some curr) :
    (buildLegs swings)[i]? = some (legTo (swings.take (i + 1)) prev curr) := by
  obtain ⟨hi, rfl⟩ := List.getElem?_eq_some_iff.mp hprev
  obtain ⟨hi', rfl⟩ := List.getElem?_eq_some_iff.mp hcurr
  have hsplit : swings.take (i + 1 + 1) = swings.take i ++ [swings[i]] ++ [swings[i + 1]] := by
    rw [List.take_succ_eq_append_getElem hi', List.take_succ_eq_append_getElem hi]
  obtain ⟨later, hlater⟩ := buildLegs_append (swings.take (i + 1 + 1)) (swings.drop (i + 1 + 1))
  rw [List.take_append_drop] at hlater
  have hlength : (buildLegs (swings.take i ++ [swings[i]])).length = i := by
    rw [length_buildLegs, ← List.take_succ_eq_append_getElem hi, List.length_take]
    omega
  rw [hlater, hsplit, buildLegs_concat, List.append_assoc,
    List.getElem?_append_right hlength.le, hlength, Nat.sub_self,
    List.take_succ_eq_append_getElem hi]
  rfl

/-- Each pair of adjacent swings gives one leg. It is compared with the latest swing of its
kind up to its start, and its label says how. -/
theorem legs_labelled (swings : List (Swing K)) :
    (buildLegs swings).length = swings.length - 1 ∧
      ∀ i prev curr, swings[i]? = some prev → swings[i + 1]? = some curr →
        ∃ leg, (buildLegs swings)[i]? = some leg ∧ leg.fromSwing = prev ∧ leg.toSwing = curr ∧
          leg.referencePrice = (latest curr.kind (swings.take (i + 1))).map Swing.price ∧
          match leg.referencePrice, curr.kind with
          | none, _ => leg.label = .undefined
          | some reference, .high => leg.label = if reference < curr.price then .hh else .lh
          | some reference, .low => leg.label = if reference < curr.price then .hl else .ll := by
  refine ⟨length_buildLegs swings, fun i prev curr hprev hcurr => ?_⟩
  refine ⟨_, buildLegs_getElem? hprev hcurr, rfl, rfl, lastOf_pricesOf_eq _ _, ?_⟩
  unfold legTo labelOf
  cases lastOf curr.kind (pricesOf (swings.take (i + 1))) with
  | none => cases curr.kind <;> rfl
  | some reference => cases curr.kind <;> rfl

example : (buildLegs [⟨0, 0, 100, .low, 2⟩, ⟨3, 15, 110, .high, 2⟩, ⟨6, 30, 95, .low, 2⟩,
    ⟨9, 45, (115 : ℤ), .high, 2⟩]).map (fun leg => (leg.label, leg.referencePrice)) =
      [(.undefined, none), (.ll, some 100), (.hh, some 110)] := by decide

end SmcPipeline.LegLabels
