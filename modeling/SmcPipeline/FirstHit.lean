import Mathlib.Data.List.Basic
import Mathlib.Tactic.TypeStar

/-!
# Searches that give up

A search goes down a list, passes over the elements it skips, gives up for good at one that
stops it, and takes the first of the others that is a hit. Where everything after an element
that stops the search is skipped or stops it as well, nothing is lost by giving up: what is
found is the first element that is neither skipped nor stops the search, and is a hit.
-/

namespace SmcPipeline.FirstHit

variable {α : Type*}

/-- The first element of the list with the property. -/
def IsFirst (p : α → Prop) (xs : List α) (x : α) : Prop :=
  p x ∧ ∃ before after, xs = before ++ x :: after ∧ ∀ y ∈ before, ¬ p y

theorem IsFirst.mem {p : α → Prop} {xs : List α} {x : α} (h : IsFirst p xs x) : x ∈ xs := by
  obtain ⟨-, before, after, rfl, -⟩ := h
  exact List.mem_append_right before List.mem_cons_self

theorem isFirst_congr {p q : α → Prop} (hpq : ∀ x, p x ↔ q x) {xs : List α} {x : α} :
    IsFirst p xs x ↔ IsFirst q xs x := by
  obtain rfl : p = q := funext fun x => propext (hpq x)
  rfl

theorem not_isFirst_nil {p : α → Prop} {x : α} : ¬ IsFirst p [] x := by
  rintro ⟨-, before, after, heq, -⟩
  exact List.append_ne_nil_of_right_ne_nil before (List.cons_ne_nil x after) heq.symm

theorem isFirst_cons_of_pos {p : α → Prop} {x y : α} {xs : List α} (hx : p x) :
    IsFirst p (x :: xs) y ↔ x = y := by
  constructor
  · rintro ⟨-, before, after, heq, hbefore⟩
    cases before with
    | nil => exact (List.cons.inj heq).1
    | cons z before =>
        obtain rfl := (List.cons.inj heq).1
        exact absurd hx (hbefore x List.mem_cons_self)
  · rintro rfl
    exact ⟨hx, [], xs, rfl, by simp⟩

theorem isFirst_cons_of_neg {p : α → Prop} {x y : α} {xs : List α} (hx : ¬ p x) :
    IsFirst p (x :: xs) y ↔ IsFirst p xs y := by
  constructor
  · rintro ⟨hy, before, after, heq, hbefore⟩
    cases before with
    | nil =>
        obtain rfl := (List.cons.inj heq).1
        exact absurd hy hx
    | cons z before =>
        exact ⟨hy, before, after, (List.cons.inj heq).2,
          fun w hw => hbefore w (List.mem_cons_of_mem z hw)⟩
  · rintro ⟨hy, before, after, rfl, hbefore⟩
    refine ⟨hy, x :: before, after, rfl, fun w hw => ?_⟩
    rcases List.mem_cons.mp hw with rfl | hw
    · exact hx
    · exact hbefore w hw

section

variable (skip stop hit : α → Bool)

def search : List α → Option α
  | [] => none
  | x :: xs =>
    if skip x then search xs
    else if stop x then none
    else if hit x then some x
    else search xs

/-- What the search is for. -/
structure Fits (x : α) : Prop where
  kept : skip x = false
  inTime : stop x = false
  hits : hit x = true

/-- An element that stops the search is followed by no element that fits. -/
def StopsForGood (xs : List α) : Prop :=
  xs.Pairwise fun x y => skip x = false → stop x = true → skip y = false → stop y = true

variable {skip stop hit}

theorem search_eq_some_iff {xs : List α} (h : StopsForGood skip stop xs) {y : α} :
    search skip stop hit xs = some y ↔ IsFirst (Fits skip stop hit) xs y := by
  induction xs with
  | nil => exact iff_of_false nofun not_isFirst_nil
  | cons x xs ih =>
      obtain ⟨hx, hxs⟩ := List.pairwise_cons.mp h
      unfold search
      split_ifs with hskip hstop hhit
      · rw [ih hxs, isFirst_cons_of_neg]
        intro hfits
        cases hskip.symm.trans hfits.kept
      · have hnot : ¬ Fits skip stop hit x := fun hfits => by
          cases hstop.symm.trans hfits.inTime
        rw [isFirst_cons_of_neg hnot]
        refine iff_of_false nofun fun hfirst => ?_
        have hlater := hx y hfirst.mem (eq_false_of_ne_true hskip) hstop hfirst.1.kept
        cases hlater.symm.trans hfirst.1.inTime
      · rw [isFirst_cons_of_pos
          ⟨eq_false_of_ne_true hskip, eq_false_of_ne_true hstop, hhit⟩,
          Option.some.injEq]
      · rw [ih hxs, isFirst_cons_of_neg fun hfits => hhit hfits.hits]

end

end SmcPipeline.FirstHit
