import Mathlib.Data.List.Flatten
import Mathlib.Data.List.Perm.Basic
import Mathlib.Tactic.TypeStar

/-!
# Tasks that run side by side

Each task works through a list of its own. At any time any task that is not done may
do its next item, and nothing is known of which one it is. What is done is a
permutation of all items in which the items of one task keep their order.
-/

namespace SmcPipeline.Tasks

variable {α : Type*}

/-- Task `i` does its next item. -/
def advance (i : ℕ) (pending : List (List α)) : Option (α × List (List α)) :=
  match pending[i]? with
  | some (a :: rest) => some (a, pending.set i rest)
  | _ => none

/-- The orders in which the items can be done. -/
inductive Interleaved : List (List α) → List α → Prop
  | done {pending : List (List α)} : (∀ task ∈ pending, task = []) → Interleaved pending []
  | next {pending rest : List (List α)} {i : ℕ} {a : α} {order : List α} :
      advance i pending = some (a, rest) → Interleaved rest order →
      Interleaved pending (a :: order)

theorem advance_eq_some {i : ℕ} {pending next : List (List α)} {a : α}
    (h : advance i pending = some (a, next)) :
    ∃ rest, pending[i]? = some (a :: rest) ∧ next = pending.set i rest := by
  unfold advance at h
  split at h
  · rename_i b rest hi
    obtain ⟨rfl, rfl⟩ := Prod.mk.inj (Option.some.inj h)
    exact ⟨rest, hi, rfl⟩
  · cases h

theorem perm_advance {i : ℕ} {pending next : List (List α)} {a : α}
    (h : advance i pending = some (a, next)) : pending.flatten.Perm (a :: next.flatten) := by
  obtain ⟨rest, hi, rfl⟩ := advance_eq_some h
  clear h
  induction pending generalizing i with
  | nil => simp at hi
  | cons task pending ih =>
      cases i with
      | zero =>
          rw [List.getElem?_cons_zero, Option.some.injEq] at hi
          simp [hi]
      | succ i =>
          rw [List.getElem?_cons_succ] at hi
          rw [List.set_cons_succ, List.flatten_cons, List.flatten_cons]
          exact ((ih hi).append_left task).trans List.perm_middle

theorem Interleaved.perm {pending : List (List α)} {order : List α}
    (h : Interleaved pending order) : order.Perm pending.flatten := by
  induction h with
  | done hdone =>
      rw [List.flatten_eq_nil_iff.mpr hdone]
  | next hadvance _ ih => exact (ih.cons _).trans (perm_advance hadvance).symm

/-- The items of each task are done in their order. -/
theorem Interleaved.sublist {pending : List (List α)} {order : List α}
    (h : Interleaved pending order) : ∀ task ∈ pending, task.Sublist order := by
  induction h with
  | done hdone =>
      intro task htask
      rw [hdone task htask]
  | @next pending _ i _ _ hadvance _ ih =>
      obtain ⟨rest, hi, rfl⟩ := advance_eq_some hadvance
      intro task htask
      obtain ⟨j, hj, rfl⟩ := List.getElem_of_mem htask
      by_cases hij : i = j
      · subst hij
        rw [List.getElem?_eq_getElem hj, Option.some.injEq] at hi
        rw [hi]
        exact (ih rest (List.mem_iff_getElem.mpr ⟨_, by simpa using hj, by simp⟩)).cons_cons _
      · exact (ih _ (List.mem_iff_getElem.mpr
          ⟨j, by simpa using hj, List.getElem_set_ne hij _⟩)).cons _

/-- A single task does its items one after the other. -/
theorem Interleaved.eq_of_single {task order : List α} (h : Interleaved [task] order) :
    order = task := by
  have hperm : order.Perm task := by simpa using h.perm
  exact ((h.sublist task (by simp)).eq_of_length hperm.length_eq.symm).symm

/-- The slices of `n` items each, of which the last may be shorter. -/
def batches (n : ℕ) (items : List α) : List (List α) :=
  (List.range ((items.length + n - 1) / n)).map fun i => (items.drop (i * n)).take n

theorem flatten_slices (n m : ℕ) (items : List α) :
    ((List.range m).map fun i => (items.drop (i * n)).take n).flatten = items.take (m * n) := by
  induction m with
  | zero => simp
  | succ m ih =>
      rw [List.range_succ, List.map_append, List.flatten_append, ih, List.map_singleton,
        List.flatten_singleton, Nat.succ_mul, List.take_add]

/-- The batches hold all items in their order. -/
theorem flatten_batches {n : ℕ} (hn : 0 < n) (items : List α) :
    (batches n items).flatten = items := by
  rw [batches, flatten_slices]
  apply List.take_of_length_le
  have hle := Nat.lt_mul_div_succ (items.length + n - 1) hn
  rw [Nat.mul_succ, Nat.mul_comm] at hle
  omega

theorem batches_eq_single {n : ℕ} {items : List α} (hpos : 0 < items.length)
    (hle : items.length ≤ n) : batches n items = [items] := by
  have hone : (items.length + n - 1) / n = 1 := by
    rw [Nat.div_eq_iff (by omega)]
    omega
  rw [batches, hone, List.range_one, List.map_singleton, Nat.zero_mul, List.drop_zero,
    List.take_of_length_le hle]

end SmcPipeline.Tasks
