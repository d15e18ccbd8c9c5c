import Mathlib.Data.List.Sort
import Mathlib.Order.Basic

/-!
# Rows identified by a key

Lists of rows in which the same key may occur several times. Dropping duplicates
keeps either the first or the last row of a key; sorting by key is stable. What
these do to a list is stated by the row that `firstOf` finds for a key, so that
a chain of concatenations, drops and sorts is computed one step at a time.
-/

namespace SmcPipeline.KeyedRows

variable {ρ κ : Type*} (key : ρ → κ)

section

variable [DecidableEq κ]

def firstOf (k : κ) (rows : List ρ) : Option ρ := rows.find? fun r => key r = k

/-- The first row of each key, at its place. -/
def keepFirst : List ρ → List ρ
  | [] => []
  | r :: rows => r :: (keepFirst rows).filter fun q => key q ≠ key r

/-- The last row of each key, at its place. -/
def keepLast : List ρ → List ρ
  | [] => []
  | r :: rows => if key r ∈ rows.map key then keepLast rows else r :: keepLast rows

theorem firstOf_key {k : κ} {rows : List ρ} {r : ρ} (h : firstOf key k rows = some r) :
    key r = k := by
  simpa using List.find?_some h

theorem firstOf_mem {k : κ} {rows : List ρ} {r : ρ} (h : firstOf key k rows = some r) :
    r ∈ rows := List.mem_of_find?_eq_some h

theorem firstOf_eq_none {k : κ} {rows : List ρ} :
    firstOf key k rows = none ↔ k ∉ rows.map key := by
  simp [firstOf, List.find?_eq_none]

theorem firstOf_isSome {k : κ} {rows : List ρ} :
    (firstOf key k rows).isSome ↔ k ∈ rows.map key := by
  rw [← Option.ne_none_iff_isSome, ne_eq, firstOf_eq_none, not_not]

theorem firstOf_append (k : κ) (rows new : List ρ) :
    firstOf key k (rows ++ new) = (firstOf key k rows).or (firstOf key k new) :=
  List.find?_append

theorem firstOf_filter_ne {k k' : κ} (h : k ≠ k') (rows : List ρ) :
    firstOf key k (rows.filter fun q => key q ≠ k') = firstOf key k rows := by
  unfold firstOf
  rw [List.find?_filter]
  congr 1
  funext q
  by_cases hq : key q = k
  · simp [hq, h]
  · simp [hq]

theorem firstOf_keepFirst (k : κ) (rows : List ρ) :
    firstOf key k (keepFirst key rows) = firstOf key k rows := by
  induction rows with
  | nil => rfl
  | cons r rows ih =>
      by_cases h : key r = k
      · simp [keepFirst, firstOf, h]
      · have hne : k ≠ key r := Ne.symm h
        have hstep : ∀ l : List ρ, firstOf key k (r :: l) = firstOf key k l := by
          intro l
          simp [firstOf, h]
        rw [keepFirst, hstep, hstep, firstOf_filter_ne key hne, ih]

theorem mem_keepFirst_keys (k : κ) (rows : List ρ) :
    k ∈ (keepFirst key rows).map key ↔ k ∈ rows.map key := by
  rw [← firstOf_isSome, ← firstOf_isSome, firstOf_keepFirst]

theorem keepFirst_sublist (rows : List ρ) : (keepFirst key rows).Sublist rows := by
  induction rows with
  | nil => exact List.Sublist.slnil
  | cons r rows ih => exact (List.filter_sublist.trans ih).cons_cons r

theorem keepFirst_nodup (rows : List ρ) : ((keepFirst key rows).map key).Nodup := by
  induction rows with
  | nil => simp [keepFirst]
  | cons r rows ih =>
      simp only [keepFirst, List.map_cons, List.nodup_cons]
      refine ⟨?_, ih.sublist (List.filter_sublist.map key)⟩
      simp

theorem mem_keepLast_keys (k : κ) (rows : List ρ) :
    k ∈ (keepLast key rows).map key ↔ k ∈ rows.map key := by
  induction rows with
  | nil => simp [keepLast]
  | cons r rows ih =>
      simp only [keepLast, List.map_cons, List.mem_cons]
      split_ifs with h
      · rw [ih]
        refine ⟨Or.inr, ?_⟩
        rintro (rfl | h')
        · exact h
        · exact h'
      · rw [List.map_cons, List.mem_cons, ih]

/-- With distinct keys the row of a key does not depend on the order. -/
theorem firstOf_perm {rows new : List ρ} (h : rows.Perm new) (hn : (rows.map key).Nodup)
    (k : κ) : firstOf key k rows = firstOf key k new := by
  have hn' : (new.map key).Nodup := (h.map key).nodup_iff.mp hn
  cases hf : firstOf key k rows with
  | none =>
      symm
      rw [firstOf_eq_none] at hf ⊢
      exact fun hk => hf ((h.map key).mem_iff.mpr hk)
  | some r =>
      cases hg : firstOf key k new with
      | none =>
          rw [firstOf_eq_none] at hg
          refine absurd ?_ hg
          rw [← firstOf_key key hf]
          exact List.mem_map_of_mem (h.mem_iff.mp (firstOf_mem key hf))
      | some q =>
          have hq : q ∈ rows := h.mem_iff.mpr (firstOf_mem key hg)
          have hk : key r = key q := (firstOf_key key hf).trans (firstOf_key key hg).symm
          rw [List.inj_on_of_nodup_map hn (firstOf_mem key hf) hq hk]

end

section

variable [LinearOrder κ]

/-- Stable sort by key. -/
def sortBy (rows : List ρ) : List ρ := rows.insertionSort fun a b => key a ≤ key b

theorem sortBy_perm (rows : List ρ) : (sortBy key rows).Perm rows :=
  List.perm_insertionSort _ rows

instance instTotalKey : Std.Total fun a b : ρ => key a ≤ key b := ⟨fun a b => le_total (key a) (key b)⟩

instance instTransKey : IsTrans ρ fun a b : ρ => key a ≤ key b := ⟨fun _ _ _ => le_trans⟩

theorem sortBy_pairwise (rows : List ρ) :
    (sortBy key rows).Pairwise fun a b => key a ≤ key b :=
  List.pairwise_insertionSort _ rows

theorem mem_sortBy {rows : List ρ} {r : ρ} : r ∈ sortBy key rows ↔ r ∈ rows :=
  (sortBy_perm key rows).mem_iff

/-- In sorted rows the row found first has the least key. -/
theorem key_le_of_find? {rows : List ρ} (h : rows.Pairwise fun a b => key a ≤ key b)
    {p : ρ → Bool} {r q : ρ} (hr : rows.find? p = some r) (hq : q ∈ rows) (hp : p q = true) :
    key r ≤ key q := by
  obtain ⟨-, before, after, rfl, hbefore⟩ := List.find?_eq_some_iff_append.mp hr
  rcases List.mem_append.mp hq with hq | hq
  · have hno := hbefore q hq
    rw [hp] at hno
    cases hno
  · rcases List.mem_cons.mp hq with rfl | hq
    · exact le_rfl
    · rw [List.pairwise_append, List.pairwise_cons] at h
      exact h.2.1.1 q hq

theorem sortBy_eq_self {rows : List ρ} (h : rows.Pairwise fun a b => key a ≤ key b) :
    sortBy key rows = rows := h.insertionSort_eq

theorem firstOf_sortBy {rows : List ρ} (hn : (rows.map key).Nodup) (k : κ) :
    firstOf key k (sortBy key rows) = firstOf key k rows :=
  (firstOf_perm key (sortBy_perm key rows).symm hn k).symm

private theorem orderedInsert_append {r : ρ} {rows new : List ρ}
    (h : ∀ q ∈ new, key r ≤ key q) :
    (rows ++ new).orderedInsert (fun a b => key a ≤ key b) r =
      rows.orderedInsert (fun a b => key a ≤ key b) r ++ new := by
  induction rows with
  | nil =>
      cases new with
      | nil => rfl
      | cons q new => simp [List.orderedInsert, h q (by simp)]
  | cons p rows ih =>
      simp only [List.cons_append, List.orderedInsert_cons]
      split_ifs
      · rfl
      · rw [ih, List.cons_append]

/-- Rows above all others are sorted behind them. -/
theorem sortBy_append {rows new : List ρ} (h : ∀ r ∈ rows, ∀ q ∈ new, key r ≤ key q) :
    sortBy key (rows ++ new) = sortBy key rows ++ sortBy key new := by
  induction rows with
  | nil => rfl
  | cons r rows ih =>
      have hrows := ih fun p hp => h p (List.mem_cons_of_mem r hp)
      unfold sortBy at hrows ⊢
      rw [List.cons_append, List.insertionSort_cons, hrows, List.insertionSort_cons]
      refine orderedInsert_append key fun q hq => ?_
      exact h r (by simp) q ((List.mem_insertionSort _).mp hq)

end

end SmcPipeline.KeyedRows
