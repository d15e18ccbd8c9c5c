import Mathlib.Algebra.Order.Group.Abs
import Mathlib.Logic.Relation
import Mathlib.Tactic.Linarith

/-!
# Champions of a sorted list

One sweep over a sorted list keeps a champion in hand. A challenger within reach of the champion
meets it, and the winner goes on; any other challenger starts over as a champion of its own. The
champions lie apart. One that lost need not be within reach of a champion: it lost to one within
reach, which may have lost to another one.
-/

namespace SmcPipeline.Champions

variable {α K : Type*} [AddCommGroup K] [LinearOrder K]

section

variable (value : α → K) (reach : K) (winner : α → α → α)

/-- One round of the sweep. -/
def challenge (champions : List α) (x : α) : List α :=
  match champions.getLast? with
  | none => [x]
  | some champion =>
    if |value x - value champion| ≤ reach then champions.dropLast ++ [winner champion x]
    else champions ++ [x]

def champions (xs : List α) : List α := xs.foldl (challenge value reach winner) []

/-- The champions from one in hand on. -/
def championsFrom (champion : α) : List α → List α
  | [] => [champion]
  | x :: xs =>
    if |value x - value champion| ≤ reach then championsFrom (winner champion x) xs
    else champion :: championsFrom x xs

theorem foldl_challenge (done : List α) (champion : α) (xs : List α) :
    xs.foldl (challenge value reach winner) (done ++ [champion]) =
      done ++ championsFrom value reach winner champion xs := by
  induction xs generalizing done champion with
  | nil => rfl
  | cons x xs ih =>
      have hround : challenge value reach winner (done ++ [champion]) x =
          if |value x - value champion| ≤ reach then done ++ [winner champion x]
          else done ++ [champion] ++ [x] := by
        unfold challenge
        rw [List.getLast?_concat, List.dropLast_concat]
      rw [List.foldl_cons, hround]
      unfold championsFrom
      split_ifs
      · exact ih done (winner champion x)
      · rw [ih (done ++ [champion]) x, List.append_assoc, List.singleton_append]

theorem champions_cons (x : α) (xs : List α) :
    champions value reach winner (x :: xs) = championsFrom value reach winner x xs :=
  foldl_challenge value reach winner [] x xs

/-- The winner is one of the two. -/
def Selects : Prop := ∀ a b, winner a b = a ∨ winner a b = b

/-- The first is within reach of the second, which wins against it. -/
def LosesTo (a b : α) : Prop :=
  |value b - value a| ≤ reach ∧ (winner a b = b ∨ winner b a = b)

end

variable {value : α → K} {reach : K} {winner : α → α → α}

/-- Every element has lost its way up to a champion. -/
theorem exists_champion_from (h : Selects winner) (champion : α) (xs : List α) :
    ∀ y ∈ champion :: xs, ∃ c ∈ championsFrom value reach winner champion xs,
      Relation.ReflTransGen (LosesTo value reach winner) y c := by
  induction xs generalizing champion with
  | nil =>
      intro y hy
      exact ⟨y, hy, .refl⟩
  | cons x xs ih =>
      intro y hy
      unfold championsFrom
      split_ifs with hnear
      · -- both go on to the winner, and one of them is the winner
        have hwinner := ih (winner champion x)
        obtain ⟨c, hc, hup⟩ := hwinner _ List.mem_cons_self
        rcases List.mem_cons.mp hy with rfl | hy
        · rcases h y x with hwins | hwins
          · exact ⟨c, hc, hwins ▸ hup⟩
          · rw [hwins] at hup
            exact ⟨c, hc, .head ⟨hnear, Or.inl hwins⟩ hup⟩
        rcases List.mem_cons.mp hy with rfl | hy
        · rcases h champion y with hwins | hwins
          · rw [hwins] at hup
            exact ⟨c, hc, .head ⟨abs_sub_comm (value y) _ ▸ hnear, Or.inr hwins⟩ hup⟩
          · exact ⟨c, hc, hwins ▸ hup⟩
        · exact hwinner y (List.mem_cons_of_mem _ hy)
      · rcases List.mem_cons.mp hy with rfl | hy
        · exact ⟨y, List.mem_cons_self, .refl⟩
        · obtain ⟨c, hc, hup⟩ := ih x y hy
          exact ⟨c, List.mem_cons_of_mem _ hc, hup⟩

theorem exists_champion (h : Selects winner) {xs : List α} {y : α} (hy : y ∈ xs) :
    ∃ c ∈ champions value reach winner xs,
      Relation.ReflTransGen (LosesTo value reach winner) y c := by
  cases xs with
  | nil => cases hy
  | cons x xs =>
      rw [champions_cons]
      exact exists_champion_from h x xs y hy

variable [IsOrderedAddMonoid K]

theorem championsFrom_apart (h : Selects winner) (champion : α) {xs : List α}
    (hsorted : (champion :: xs).Pairwise fun a b => value a ≤ value b) :
    (∀ c ∈ championsFrom value reach winner champion xs, value champion ≤ value c) ∧
      (championsFrom value reach winner champion xs).Pairwise
        fun a b => reach < value b - value a := by
  induction xs generalizing champion with
  | nil => exact ⟨fun c hc => by rw [List.mem_singleton.mp hc], List.pairwise_singleton _ _⟩
  | cons x xs ih =>
      obtain ⟨hchampion, htail⟩ := List.pairwise_cons.mp hsorted
      obtain ⟨hx, hxs⟩ := List.pairwise_cons.mp htail
      have hle : value champion ≤ value x := hchampion x List.mem_cons_self
      unfold championsFrom
      split_ifs with hnear
      · have hbounds : value champion ≤ value (winner champion x) ∧
            value (winner champion x) ≤ value x := by
          rcases h champion x with hwins | hwins
          · rw [hwins]
            exact ⟨le_rfl, hle⟩
          · rw [hwins]
            exact ⟨hle, le_rfl⟩
        obtain ⟨hlow, hapart⟩ := ih (winner champion x)
          (List.pairwise_cons.mpr ⟨fun y hy => hbounds.2.trans (hx y hy), hxs⟩)
        exact ⟨fun c hc => hbounds.1.trans (hlow c hc), hapart⟩
      · obtain ⟨hlow, hapart⟩ := ih x htail
        rw [not_le, abs_of_nonneg (sub_nonneg.mpr hle)] at hnear
        refine ⟨fun c hc => ?_, List.pairwise_cons.mpr ⟨fun c hc => ?_, hapart⟩⟩
        · rcases List.mem_cons.mp hc with rfl | hc
          · exact le_rfl
          · exact hle.trans (hlow c hc)
        · exact hnear.trans_le (sub_le_sub_right (hlow c hc) _)

/-- In a sorted list the champions lie apart. -/
theorem champions_apart (h : Selects winner) {xs : List α}
    (hsorted : xs.Pairwise fun a b => value a ≤ value b) :
    (champions value reach winner xs).Pairwise fun a b => reach < value b - value a := by
  cases xs with
  | nil => exact List.Pairwise.nil
  | cons x xs =>
      rw [champions_cons]
      exact (championsFrom_apart h x hsorted).2

end SmcPipeline.Champions
