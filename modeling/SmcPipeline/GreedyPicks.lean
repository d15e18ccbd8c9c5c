import Mathlib.Data.List.Basic
import Mathlib.Order.Basic

/-!
# Greedy picks

Going down a list, one takes what clashes with nothing that is taken, until enough is taken. What
is passed over was passed over for something before it: for one that it clashes with, or because
enough was taken. In a ranked list what is taken therefore outranks what is not.
-/

namespace SmcPipeline.GreedyPicks

variable {α : Type*} (clash : α → α → Bool) (most : ℕ)

def fill (taken : List α) : List α → List α
  | [] => taken
  | x :: xs =>
    if most ≤ taken.length then taken
    else if taken.any fun y => clash y x then fill taken xs
    else fill (taken ++ [x]) xs

variable {clash most}

variable (clash most) in
/-- What is taken first stays, and the rest are elements of the list, in its order. -/
theorem exists_fill (taken xs : List α) :
    ∃ more, fill clash most taken xs = taken ++ more ∧ more.Sublist xs := by
  induction xs generalizing taken with
  | nil => exact ⟨[], (List.append_nil taken).symm, List.Sublist.refl _⟩
  | cons x xs ih =>
      unfold fill
      split_ifs
      · exact ⟨[], (List.append_nil taken).symm, List.nil_sublist _⟩
      · obtain ⟨more, hfill, hsub⟩ := ih taken
        exact ⟨more, hfill, hsub.trans (List.sublist_cons_self x xs)⟩
      · obtain ⟨more, hfill, hsub⟩ := ih (taken ++ [x])
        refine ⟨x :: more, ?_, hsub.cons_cons x⟩
        rw [hfill, List.append_assoc, List.singleton_append]

theorem mem_fill_of_taken {taken : List α} (xs : List α) {y : α} (hy : y ∈ taken) :
    y ∈ fill clash most taken xs := by
  obtain ⟨more, hfill, -⟩ := exists_fill clash most taken xs
  rw [hfill]
  exact List.mem_append_left _ hy

theorem taken_or_mem {taken xs : List α} {y : α} (hy : y ∈ fill clash most taken xs) :
    y ∈ taken ∨ y ∈ xs := by
  obtain ⟨more, hfill, hsub⟩ := exists_fill clash most taken xs
  rw [hfill] at hy
  exact (List.mem_append.mp hy).imp_right fun hmore => hsub.subset hmore

theorem length_fill_le {taken : List α} (xs : List α) (h : taken.length ≤ most) :
    (fill clash most taken xs).length ≤ most := by
  induction xs generalizing taken with
  | nil => exact h
  | cons x xs ih =>
      unfold fill
      split_ifs with hfull
      · exact h
      · exact ih h
      · refine ih ?_
        rw [List.length_append, List.length_singleton]
        omega

/-- No two that are taken clash. -/
theorem fill_pairwise {taken : List α} (xs : List α)
    (h : taken.Pairwise fun a b => clash a b = false) :
    (fill clash most taken xs).Pairwise fun a b => clash a b = false := by
  induction xs generalizing taken with
  | nil => exact h
  | cons x xs ih =>
      unfold fill
      split_ifs with hfull hclash
      · exact h
      · exact ih h
      · have hfree : ∀ y ∈ taken, clash y x = false := by
          simpa using hclash
        refine ih (List.pairwise_append.mpr ⟨h, List.pairwise_singleton _ x, ?_⟩)
        intro y hy z hz
        obtain rfl := List.mem_singleton.mp hz
        exact hfree y hy

/-- An element of a ranked list is taken, or it clashes with one that is taken and ranks no lower,
or enough is taken that ranks no lower. What was taken from the start has no rank. -/
theorem fill_outranks {before : α → α → Prop} {taken xs : List α} (hranked : xs.Pairwise before)
    {x : α} (hx : x ∈ xs) :
    x ∈ fill clash most taken xs ∨
      (∃ y ∈ fill clash most taken xs, clash y x = true ∧ (y ∈ taken ∨ before y x)) ∨
      (most ≤ (fill clash most taken xs).length ∧
        ∀ y ∈ fill clash most taken xs, y ∈ taken ∨ before y x) := by
  induction xs generalizing taken with
  | nil => cases hx
  | cons first xs ih =>
      obtain ⟨hfirst, hrest⟩ := List.pairwise_cons.mp hranked
      unfold fill
      split_ifs with hfull hclash
      · exact Or.inr (Or.inr ⟨hfull, fun y hy => Or.inl hy⟩)
      · rcases List.mem_cons.mp hx with rfl | hx
        · obtain ⟨y, hy, hyx⟩ := List.any_eq_true.mp hclash
          exact Or.inr (Or.inl ⟨y, mem_fill_of_taken xs hy, hyx, Or.inl hy⟩)
        · exact ih hrest hx
      · rcases List.mem_cons.mp hx with rfl | hx
        · exact Or.inl (mem_fill_of_taken xs (List.mem_append_right _ (List.mem_singleton_self x)))
        · have hearlier : ∀ y, y ∈ taken ++ [first] ∨ before y x → y ∈ taken ∨ before y x := by
            rintro y (hy | hy)
            · rcases List.mem_append.mp hy with hy | hy
              · exact Or.inl hy
              · exact Or.inr (List.mem_singleton.mp hy ▸ hfirst x hx)
            · exact Or.inr hy
          rcases @ih (taken ++ [first]) hrest hx with h | ⟨y, hy, hyx, hrank⟩ | ⟨hlen, hrank⟩
          · exact Or.inl h
          · exact Or.inr (Or.inl ⟨y, hy, hyx, hearlier y hrank⟩)
          · exact Or.inr (Or.inr ⟨hlen, fun y hy => hearlier y (hrank y hy)⟩)

end SmcPipeline.GreedyPicks
