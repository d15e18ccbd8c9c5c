import SmcPipeline.KeyedRows
import Mathlib.Data.Prod.Lex

/-!
# Repeated upserts

An upsert appends rows and leaves one row for each key, in the order of the keys. When
the row that stays comes from an associative choice, upserting in several goes is the
same as upserting once, and the order of rows of different keys does not matter. The
choices here are the first row of a key, the last one, and the last one among those of
highest rank. A memory that keeps only the rows of highest key may be pruned after every
upsert, as long as its cut rises.
-/

namespace SmcPipeline.KeyedRows

variable {ρ κ ι : Type*} (key : ρ → κ)

theorem firstOf_eq_some_iff [DecidableEq κ] {rows : List ρ} (hn : (rows.map key).Nodup) {k : κ}
    {r : ρ} : firstOf key k rows = some r ↔ r ∈ rows ∧ key r = k := by
  constructor
  · exact fun h => ⟨firstOf_mem key h, firstOf_key key h⟩
  · rintro ⟨hr, rfl⟩
    obtain ⟨q, hq⟩ := Option.isSome_iff_exists.mp
      ((firstOf_isSome key).mpr (List.mem_map_of_mem (f := key) hr))
    rw [hq, List.inj_on_of_nodup_map hn (firstOf_mem key hq) hr (firstOf_key key hq)]

section

variable [LinearOrder κ]

theorem nodup_of_increasing {rows : List ρ} (h : rows.Pairwise fun a b => key a < key b) :
    (rows.map key).Nodup := by
  rw [List.Nodup, List.pairwise_map]
  exact h.imp fun hlt => hlt.ne

theorem increasing_of_nodup {rows : List ρ} (h : rows.Pairwise fun a b => key a ≤ key b)
    (hn : (rows.map key).Nodup) : rows.Pairwise fun a b => key a < key b := by
  rw [List.Nodup, List.pairwise_map] at hn
  exact h.imp₂ (fun _ _ hle hne => lt_of_le_of_ne hle hne) hn

theorem eq_of_perm {rows new : List ρ} (hr : rows.Pairwise fun a b => key a < key b)
    (hn : new.Pairwise fun a b => key a < key b) (h : rows.Perm new) : rows = new :=
  h.eq_of_pairwise (fun _ _ _ _ hab hba => absurd hab hba.asymm) hr hn

/-- Rows of increasing keys are determined by the row of each key. -/
theorem eq_of_firstOf {rows new : List ρ} (hr : rows.Pairwise fun a b => key a < key b)
    (hn : new.Pairwise fun a b => key a < key b)
    (h : ∀ k, firstOf key k rows = firstOf key k new) : rows = new := by
  have hmem : ∀ r, r ∈ rows ↔ r ∈ new := fun r => by
    have hiff := firstOf_eq_some_iff key (nodup_of_increasing key hr) (k := key r) (r := r)
    rw [h, firstOf_eq_some_iff key (nodup_of_increasing key hn)] at hiff
    simpa using hiff.symm
  exact eq_of_perm key hr hn ((List.perm_ext_iff_of_nodup (nodup_of_increasing key hr).of_map
    (nodup_of_increasing key hn).of_map).mpr hmem)

end

section

variable [DecidableEq κ] (op : Option ρ → Option ρ → Option ρ)

/-- The rows of a key, combined in their order. -/
def pickAt (k : κ) : List ρ → Option ρ
  | [] => none
  | r :: rows => if key r = k then op (some r) (pickAt k rows) else pickAt k rows

theorem pickAt_append [Std.Associative op] [Std.LawfulIdentity op none] (k : κ)
    (rows new : List ρ) :
    pickAt key op k (rows ++ new) = op (pickAt key op k rows) (pickAt key op k new) := by
  induction rows with
  | nil => exact (Std.LawfulLeftIdentity.left_id _).symm
  | cons r rows ih =>
      simp only [List.cons_append, pickAt, ih]
      split_ifs
      · exact (Std.Associative.assoc _ _ _).symm
      · rfl

theorem pickAt_eq_none [Std.LawfulIdentity op none] {k : κ} {rows : List ρ}
    (h : k ∉ rows.map key) : pickAt key op k rows = none := by
  induction rows with
  | nil => rfl
  | cons r rows ih =>
      rw [List.map_cons, List.mem_cons, not_or] at h
      rw [pickAt, if_neg (Ne.symm h.1), ih h.2]

/-- With distinct keys there is nothing to choose. -/
theorem pickAt_of_nodup [Std.LawfulIdentity op none] {rows : List ρ} (hn : (rows.map key).Nodup)
    (k : κ) : pickAt key op k rows = firstOf key k rows := by
  induction rows with
  | nil => rfl
  | cons r rows ih =>
      rw [List.map_cons, List.nodup_cons] at hn
      by_cases h : key r = k
      · subst h
        rw [pickAt, if_pos rfl, pickAt_eq_none key op hn.1]
        have hright : op (some r) none = some r := Std.LawfulRightIdentity.right_id _
        rw [hright]
        simp [firstOf]
      · rw [pickAt, if_neg h, ih hn.2]
        simp [firstOf, h]

end

/-- A stable sort leaves the rows of one key in their order. -/
theorem pickAt_sortBy [LinearOrder κ] (op : Option ρ → Option ρ → Option ρ) (k : κ)
    (rows : List ρ) : pickAt key op k (sortBy key rows) = pickAt key op k rows := by
  have hinsert : ∀ (r : ρ) (l : List ρ), pickAt key op k
      (l.orderedInsert (fun a b => key a ≤ key b) r) = pickAt key op k (r :: l) := by
    intro r l
    induction l with
    | nil => rfl
    | cons b l ih =>
        rw [List.orderedInsert_cons]
        split_ifs with hle
        · rfl
        · have hlt : key b < key r := lt_of_not_ge hle
          by_cases hk : key r = k
          · have hbk : key b ≠ k := by
              rw [← hk]
              exact hlt.ne
            simp only [pickAt, hk, hbk, if_true, if_false] at ih ⊢
            exact ih
          · simp only [pickAt, hk, if_false] at ih ⊢
            rw [ih]
  induction rows with
  | nil => rfl
  | cons r rows ih =>
      have hcons : sortBy key (r :: rows) =
          (sortBy key rows).orderedInsert (fun a b => key a ≤ key b) r := rfl
      rw [hcons, hinsert]
      simp only [pickAt, ih]

section

variable [DecidableEq κ]

/-- The later row, unless its rank is lower. -/
def later [LinearOrder ι] (rank : ρ → ι) : Option ρ → Option ρ → Option ρ
  | none, b => b
  | some a, none => some a
  | some a, some b => if rank a ≤ rank b then some b else some a

instance instAssociativeOr : Std.Associative (Option.or : Option ρ → Option ρ → Option ρ) :=
  ⟨fun _ _ _ => Option.or_assoc⟩

instance instIdentityOr :
    Std.LawfulIdentity (Option.or : Option ρ → Option ρ → Option ρ) none where
  left_id _ := Option.none_or
  right_id _ := Option.or_none

/-- The later row, whatever it is. -/
def latter (a b : Option ρ) : Option ρ := b.or a

instance instAssociativeLatter : Std.Associative (latter : Option ρ → Option ρ → Option ρ) :=
  ⟨fun _ _ _ => (Option.or_assoc).symm⟩

instance instIdentityLatter :
    Std.LawfulIdentity (latter : Option ρ → Option ρ → Option ρ) none where
  left_id _ := Option.or_none
  right_id _ := Option.none_or

instance instIdentityLater [LinearOrder ι] (rank : ρ → ι) :
    Std.LawfulIdentity (later rank) none where
  left_id _ := rfl
  right_id a := by cases a <;> rfl

instance instAssociativeLater [LinearOrder ι] (rank : ρ → ι) : Std.Associative (later rank) where
  assoc a b c := by
    cases a with
    | none => rfl
    | some a =>
        cases b with
        | none => cases c <;> rfl
        | some b =>
            cases c with
            | none => exact Std.LawfulRightIdentity.right_id _
            | some c =>
                by_cases hab : rank a ≤ rank b <;> by_cases hbc : rank b ≤ rank c
                · simp [later, hab, hbc, hab.trans hbc]
                · simp [later, hab, hbc]
                · simp [later, hab, hbc]
                · have hac : ¬ rank a ≤ rank c := fun h =>
                    hbc ((lt_of_not_ge hab).le.trans h)
                  simp [later, hab, hbc, hac]

theorem pickAt_or (k : κ) (rows : List ρ) : pickAt key Option.or k rows = firstOf key k rows := by
  induction rows with
  | nil => rfl
  | cons r rows ih =>
      by_cases h : key r = k
      · simp [pickAt, firstOf, h]
      · rw [pickAt, if_neg h, ih]
        simp [firstOf, h]

theorem keepLast_sublist (rows : List ρ) : (keepLast key rows).Sublist rows := by
  induction rows with
  | nil => exact List.Sublist.slnil
  | cons r rows ih =>
      rw [keepLast]
      split_ifs
      · exact ih.cons r
      · exact ih.cons_cons r

theorem keepLast_nodup (rows : List ρ) : ((keepLast key rows).map key).Nodup := by
  induction rows with
  | nil => exact List.nodup_nil
  | cons r rows ih =>
      rw [keepLast]
      split_ifs with h
      · exact ih
      · rw [List.map_cons, List.nodup_cons, mem_keepLast_keys]
        exact ⟨h, ih⟩

/-- The last row of a key. -/
def lastOf (k : κ) (rows : List ρ) : Option ρ := pickAt key latter k rows

theorem firstOf_keepLast (k : κ) (rows : List ρ) :
    firstOf key k (keepLast key rows) = lastOf key k rows := by
  induction rows with
  | nil => rfl
  | cons r rows ih =>
      have hlast : lastOf key k (r :: rows) =
          if key r = k then (lastOf key k rows).or (some r) else lastOf key k rows := rfl
      rw [hlast, ← ih, keepLast]
      by_cases hk : key r = k
      · rw [if_pos hk]
        subst hk
        split_ifs with hmem
        · obtain ⟨q, hq⟩ := Option.isSome_iff_exists.mp
            ((firstOf_isSome key).mpr ((mem_keepLast_keys key _ rows).mpr hmem))
          rw [hq, Option.some_or]
        · rw [(firstOf_eq_none key).mpr (mt (mem_keepLast_keys key _ rows).mp hmem), Option.none_or]
          simp [firstOf]
      · rw [if_neg hk]
        split_ifs
        · rfl
        · simp [firstOf, hk]

end

/-- Rows in order of their keys, of one key in order of their ranks. -/
def byRank [LinearOrder ι] (rank : ρ → ι) (r : ρ) : κ ×ₗ ι := toLex (key r, rank r)

theorem byRank_le_iff [LinearOrder κ] [LinearOrder ι] (rank : ρ → ι) {a b : ρ}
    (h : key a = key b) : byRank key rank a ≤ byRank key rank b ↔ rank a ≤ rank b := by
  simp [byRank, Prod.Lex.toLex_le_toLex, h]

/-- A row inserted among sorted ones is the last of its key unless one of them has its
rank or a higher one. -/
theorem lastOf_orderedInsert [LinearOrder κ] [LinearOrder ι] (rank : ρ → ι) (k : κ) (r : ρ)
    {rows : List ρ} (hs : rows.Pairwise fun a b => byRank key rank a ≤ byRank key rank b) :
    lastOf key k (rows.orderedInsert (fun a b => byRank key rank a ≤ byRank key rank b) r) =
      if key r = k then later rank (some r) (lastOf key k rows) else lastOf key k rows := by
  have hcons : ∀ (q : ρ) (l : List ρ), lastOf key k (q :: l) =
      if key q = k then (lastOf key k l).or (some q) else lastOf key k l := fun _ _ => rfl
  have hlater : ∀ {l : List ρ}, (∀ q ∈ l, byRank key rank r ≤ byRank key rank q) → key r = k →
      later rank (some r) (lastOf key k l) = (lastOf key k l).or (some r) := by
    intro l hl hk
    cases hlast : lastOf key k l with
    | none => rfl
    | some q =>
        rw [← firstOf_keepLast] at hlast
        have hq := (keepLast_sublist key l).subset (firstOf_mem key hlast)
        have hrank := (byRank_le_iff key rank (hk.trans (firstOf_key key hlast).symm)).mp (hl q hq)
        simp [later, hrank]
  induction rows with
  | nil => exact hcons r []
  | cons b rows ih =>
      rw [List.pairwise_cons] at hs
      rw [List.orderedInsert_cons]
      split_ifs with hle hk hk
      · have hall : ∀ q ∈ b :: rows, byRank key rank r ≤ byRank key rank q := by
          intro q hq
          rcases List.mem_cons.mp hq with rfl | hq
          · exact hle
          · exact hle.trans (hs.1 q hq)
        rw [hcons, if_pos hk, hlater hall hk]
      · rw [hcons, if_neg hk]
      · rw [hcons, ih hs.2, if_pos hk, hcons]
        by_cases hb : key b = k
        · -- `r` stands behind `b`, so it outranks it
          have hrank : ¬ rank r ≤ rank b := fun h =>
            hle ((byRank_le_iff key rank (hk.trans hb.symm)).mpr h)
          rw [if_pos hb, if_pos hb]
          cases lastOf key k rows with
          | none => simp [later, hrank]
          | some q =>
              simp only [later, Option.some_or]
              split_ifs <;> rfl
        · rw [if_neg hb, if_neg hb]
      · rw [hcons, ih hs.2, if_neg hk, hcons]

/-- Behind a sort by key and rank, the last row of a key is the last one of highest rank. -/
theorem lastOf_sortBy [LinearOrder κ] [LinearOrder ι] (rank : ρ → ι) (k : κ) (rows : List ρ) :
    lastOf key k (sortBy (byRank key rank) rows) = pickAt key (later rank) k rows := by
  induction rows with
  | nil => rfl
  | cons r rows ih =>
      have hcons : sortBy (byRank key rank) (r :: rows) = (sortBy (byRank key rank) rows).orderedInsert
          (fun a b => byRank key rank a ≤ byRank key rank b) r := rfl
      rw [hcons, lastOf_orderedInsert key rank k r (sortBy_pairwise (byRank key rank) rows), ih, pickAt]

section

variable [LinearOrder κ]

/-- The rows that an upsert leaves are in increasing order of their keys. -/
theorem increasing_keepFirst (rows : List ρ) :
    (sortBy key (keepFirst key rows)).Pairwise fun a b => key a < key b :=
  increasing_of_nodup key (sortBy_pairwise key _)
    (((sortBy_perm key _).map key).nodup_iff.mpr (keepFirst_nodup key rows))

theorem increasing_keepLast [LinearOrder ι] (rank : ρ → ι) (rows : List ρ) :
    (keepLast key (sortBy (byRank key rank) rows)).Pairwise fun a b => key a < key b := by
  refine increasing_of_nodup key ?_ (keepLast_nodup key _)
  refine ((sortBy_pairwise (byRank key rank) rows).imp fun {a b} h => ?_).sublist
    (keepLast_sublist key _)
  rcases Prod.Lex.toLex_le_toLex.mp h with h | h
  · exact h.le
  · exact h.1.le

/-- A way to leave one row for each key, with the choice it makes. -/
structure Upsert (op : Option ρ → Option ρ → Option ρ) (normal : List ρ → List ρ) : Prop where
  increasing : ∀ rows, (normal rows).Pairwise fun a b => key a < key b
  chosen : ∀ k rows, firstOf key k (normal rows) = pickAt key op k rows
  keys : ∀ k rows, k ∈ rows.map key → k ∈ (normal rows).map key

theorem upsert_keepFirst : Upsert key Option.or fun rows => sortBy key (keepFirst key rows) where
  increasing := increasing_keepFirst key
  chosen k rows := by
    rw [firstOf_sortBy key (keepFirst_nodup key rows), firstOf_keepFirst, pickAt_or]
  keys k rows h :=
    ((sortBy_perm key _).map key).mem_iff.mpr ((mem_keepFirst_keys key k rows).mpr h)

theorem upsert_keepLast [LinearOrder ι] (rank : ρ → ι) :
    Upsert key (later rank) fun rows => keepLast key (sortBy (byRank key rank) rows) where
  increasing := increasing_keepLast key rank
  chosen k rows := by rw [firstOf_keepLast, lastOf_sortBy]
  keys k rows h :=
    (mem_keepLast_keys key k _).mpr (((sortBy_perm (byRank key rank) rows).map key).mem_iff.mpr h)

theorem upsert_lastWins : Upsert key latter fun rows => sortBy key (keepLast key rows) where
  increasing rows := increasing_of_nodup key (sortBy_pairwise key _)
    (((sortBy_perm key _).map key).nodup_iff.mpr (keepLast_nodup key rows))
  chosen k rows := by
    rw [firstOf_sortBy key (keepLast_nodup key rows), firstOf_keepLast, lastOf]
  keys k rows h :=
    ((sortBy_perm key _).map key).mem_iff.mpr ((mem_keepLast_keys key k rows).mpr h)

variable {key} {op : Option ρ → Option ρ → Option ρ} {normal : List ρ → List ρ}

/-- The outcome depends on the row chosen for each key only. -/
theorem Upsert.congr (hu : Upsert key op normal) {rows new : List ρ}
    (h : ∀ k, pickAt key op k rows = pickAt key op k new) : normal rows = normal new :=
  eq_of_firstOf key (hu.increasing rows) (hu.increasing new) fun k => by
    rw [hu.chosen, hu.chosen, h]

variable [Std.LawfulIdentity op none]

theorem Upsert.pickAt_normal (hu : Upsert key op normal) (k : κ) (rows : List ρ) :
    pickAt key op k (normal rows) = pickAt key op k rows := by
  rw [pickAt_of_nodup key op (nodup_of_increasing key (hu.increasing rows)), hu.chosen]

theorem Upsert.normal_normal (hu : Upsert key op normal) (rows : List ρ) :
    normal (normal rows) = normal rows := hu.congr fun k => hu.pickAt_normal k rows

variable [Std.Associative op]

/-- Upserting in two goes is upserting once. -/
theorem Upsert.normal_append (hu : Upsert key op normal) (rows new : List ρ) :
    normal (normal rows ++ new) = normal (rows ++ new) :=
  hu.congr fun k => by rw [pickAt_append, pickAt_append, hu.pickAt_normal]

/-- It does not matter whether the new rows come sorted. -/
theorem Upsert.append_sortBy (hu : Upsert key op normal) (rows new : List ρ) :
    normal (rows ++ sortBy key new) = normal (rows ++ new) :=
  hu.congr fun k => by rw [pickAt_append, pickAt_append, pickAt_sortBy]

/-- Batches, each sorted first, are as good as all their rows at once. -/
theorem Upsert.append_batches (hu : Upsert key op normal) (rows first second : List ρ) :
    normal (normal (rows ++ sortBy key first) ++ sortBy key second) =
      normal (rows ++ sortBy key (first ++ second)) := by
  rw [hu.normal_append, hu.append_sortBy, hu.append_sortBy]
  calc normal (rows ++ sortBy key first ++ second)
      = normal (normal (rows ++ sortBy key first) ++ second) := (hu.normal_append _ _).symm
    _ = normal (normal (rows ++ first) ++ second) := by rw [hu.append_sortBy]
    _ = normal (rows ++ (first ++ second)) := by rw [hu.normal_append, List.append_assoc]

/-- The last `n` rows. -/
def latest (n : ℕ) (rows : List ρ) : List ρ := rows.drop (rows.length - n)

omit [LinearOrder κ] in
theorem latest_append {n : ℕ} {rows new : List ρ} (h : n ≤ new.length) :
    latest n (rows ++ new) = latest n new := by
  unfold latest
  rw [List.length_append, List.drop_append, List.drop_eq_nil_of_le (by omega), List.nil_append]
  congr 1
  omega

variable (key) in
/-- The rows with a key from `c` on. -/
def upFrom (c : κ) (rows : List ρ) : List ρ := rows.filter fun r => decide (c ≤ key r)

/-- In increasing order they are the last ones. -/
theorem split_upFrom {rows : List ρ} (h : rows.Pairwise fun a b => key a < key b) (c : κ) :
    ∃ low, rows = low ++ upFrom key c rows ∧ ∀ r ∈ low, key r < c := by
  induction rows with
  | nil => exact ⟨[], rfl, fun r hr => by cases hr⟩
  | cons r rows ih =>
      rw [List.pairwise_cons] at h
      by_cases hr : c ≤ key r
      · have hall : upFrom key c (r :: rows) = r :: rows := by
          refine List.filter_eq_self.mpr fun q hq => decide_eq_true ?_
          rcases List.mem_cons.mp hq with rfl | hq
          · exact hr
          · exact hr.trans (h.1 q hq).le
        exact ⟨[], hall.symm, fun q hq => by cases hq⟩
      · obtain ⟨low, hlow, hlt⟩ := ih h.2
        have hdrop : upFrom key c (r :: rows) = upFrom key c rows := by
          simp [upFrom, hr]
        refine ⟨r :: low, by rw [hdrop, List.cons_append, ← hlow], fun q hq => ?_⟩
        rcases List.mem_cons.mp hq with rfl | hq
        · exact lt_of_not_ge hr
        · exact hlt q hq

theorem upFrom_upFrom {c d : κ} (h : d ≤ c) (rows : List ρ) :
    upFrom key c (upFrom key d rows) = upFrom key c rows := by
  unfold upFrom
  rw [List.filter_filter]
  refine List.filter_congr fun r _ => ?_
  by_cases hr : c ≤ key r
  · simp [hr, h.trans hr]
  · simp [hr]

/-- A lower cut does not show when there are rows enough above a higher one. -/
theorem latest_upFrom {rows : List ρ} (h : rows.Pairwise fun a b => key a < key b) {n : ℕ}
    {c d : κ} (hcd : d ≤ c) (hn : n ≤ (upFrom key c rows).length) :
    latest n (upFrom key d rows) = latest n (upFrom key c rows) := by
  have hcut : (upFrom key d rows).Pairwise fun a b => key a < key b := h.sublist List.filter_sublist
  obtain ⟨low, hlow, -⟩ := split_upFrom hcut c
  rw [upFrom_upFrom hcd] at hlow
  rw [hlow, latest_append hn]

theorem firstOf_upFrom {c k : κ} (h : c ≤ k) (rows : List ρ) :
    firstOf key k (upFrom key c rows) = firstOf key k rows := by
  unfold firstOf upFrom
  rw [List.find?_filter]
  congr 1
  funext q
  by_cases hq : key q = k
  · simp [hq, h]
  · simp [hq]

theorem firstOf_upFrom_of_lt {c k : κ} (h : k < c) (rows : List ρ) :
    firstOf key k (upFrom key c rows) = none := by
  rw [firstOf_eq_none]
  intro hk
  obtain ⟨r, hr, rfl⟩ := List.mem_map.mp hk
  exact absurd (of_decide_eq_true (List.mem_filter.mp hr).2) (not_le.mpr h)

/-- Rows below the cut do not matter for what an upsert leaves above it. -/
theorem Upsert.upFrom_append (hu : Upsert key op normal) {low : List ρ} {c : κ}
    (hlow : ∀ r ∈ low, key r < c) (rows : List ρ) :
    upFrom key c (normal (low ++ rows)) = upFrom key c (normal rows) := by
  refine eq_of_firstOf key ((hu.increasing _).sublist List.filter_sublist)
    ((hu.increasing _).sublist List.filter_sublist) fun k => ?_
  rcases lt_or_ge k c with hk | hk
  · rw [firstOf_upFrom_of_lt hk, firstOf_upFrom_of_lt hk]
  · have hnone : pickAt key op k low = none := pickAt_eq_none key op fun hmem => by
      obtain ⟨r, hr, rfl⟩ := List.mem_map.mp hmem
      exact absurd (hlow r hr) (not_lt.mpr hk)
    rw [firstOf_upFrom hk, firstOf_upFrom hk, hu.chosen, hu.chosen, pickAt_append, hnone]
    exact Std.LawfulLeftIdentity.left_id _

omit [Std.LawfulIdentity op none] [Std.Associative op] in
/-- Rows above the cut stay above it. -/
theorem Upsert.length_le (hu : Upsert key op normal) {rows : List ρ} {c : κ}
    (hrows : rows.Pairwise fun a b => key a < key b) (hc : ∀ r ∈ rows, c ≤ key r)
    (new : List ρ) : rows.length ≤ (upFrom key c (normal (rows ++ new))).length := by
  have hsub : rows.map key ⊆ (upFrom key c (normal (rows ++ new))).map key := by
    intro k hk
    obtain ⟨r, hr, rfl⟩ := List.mem_map.mp hk
    have hkey := hu.keys (key r) (rows ++ new) (List.mem_map_of_mem (List.mem_append_left new hr))
    obtain ⟨q, hq, hqr⟩ := List.mem_map.mp hkey
    refine List.mem_map.mpr ⟨q, List.mem_filter.mpr ⟨hq, decide_eq_true ?_⟩, hqr⟩
    rw [hqr]
    exact hc r hr
  simpa using (List.subperm_of_subset (nodup_of_increasing key hrows) hsub).length_le

/-- Rows cut off by a cut that only rises, or by number, are never needed again. -/
theorem Upsert.latest_upFrom_append (hu : Upsert key op normal) {rows : List ρ}
    (hrows : rows.Pairwise fun a b => key a < key b) (new : List ρ) (n : ℕ) {c c' : κ}
    (hc : c ≤ c') :
    latest n (upFrom key c' (normal (latest n (upFrom key c rows) ++ new))) =
      latest n (upFrom key c' (normal (rows ++ new))) := by
  obtain ⟨low, hlow, hlt⟩ := split_upFrom hrows c
  set high := upFrom key c rows with hhigh
  set kept := latest n high with hkept
  have hcut : high = high.take (high.length - n) ++ kept := (List.take_append_drop _ _).symm
  have hsplit : rows = (low ++ high.take (high.length - n)) ++ kept := by
    rw [List.append_assoc, ← hcut, ← hlow]
  by_cases hnum : high.length ≤ n
  · -- nothing is cut off by number
    have htake : high.take (high.length - n) = [] := by
      rw [Nat.sub_eq_zero_of_le hnum, List.take_zero]
    rw [htake, List.append_nil] at hsplit
    rw [hsplit, List.append_assoc, hu.upFrom_append fun r hr => (hlt r hr).trans_le hc]
  · cases hk : kept with
    | nil =>
        have hzero : n = 0 := by
          have hlen := congrArg List.length hk
          rw [hkept, latest, List.length_drop, List.length_nil] at hlen
          omega
        rw [hzero]
        simp [latest]
    | cons first rest =>
        have hinc := hrows
        rw [hsplit, List.pairwise_append] at hinc
        obtain ⟨-, hkeptinc, hbefore⟩ := hinc
        have hdropped : ∀ r ∈ low ++ high.take (high.length - n), key r < key first := fun r hr =>
          hbefore r hr first (by rw [hk]; exact List.mem_cons_self)
        have habove : ∀ r ∈ kept, key first ≤ key r := by
          intro r hr
          rw [hk] at hr hkeptinc
          rcases List.mem_cons.mp hr with rfl | hr
          · exact le_rfl
          · exact ((List.pairwise_cons.mp hkeptinc).1 r hr).le
        have hlen : n ≤ (upFrom key (key first) (normal (kept ++ new))).length := by
          refine le_trans ?_ (hu.length_le hkeptinc habove new)
          rw [hkept, latest, List.length_drop]
          omega
        have hsame : upFrom key (key first) (normal (rows ++ new)) =
            upFrom key (key first) (normal (kept ++ new)) := by
          conv_lhs => rw [hsplit, List.append_assoc]
          exact hu.upFrom_append hdropped _
        rw [← hk]
        rcases le_total c' (key first) with hle | hle
        · have hlen' := hlen
          rw [← hsame] at hlen'
          rw [latest_upFrom (hu.increasing _) hle hlen, latest_upFrom (hu.increasing _) hle hlen',
            hsame]
        · rw [← upFrom_upFrom hle, ← hsame, upFrom_upFrom hle]

end

section

variable [LinearOrder κ] [LinearOrder ι] (rank : ρ → ι)

/-- The last of the rows of its key that have the highest rank among them. -/
def Wins (rows : List ρ) (r : ρ) : Prop :=
  ∃ pre post, rows = pre ++ r :: post ∧ (∀ q ∈ pre, key q = key r → rank q ≤ rank r) ∧
    ∀ q ∈ post, key q = key r → rank q < rank r

/-- The first of the rows of its key. -/
def Leads (rows : List ρ) (r : ρ) : Prop :=
  ∃ pre post, rows = pre ++ r :: post ∧ ∀ q ∈ pre, key q ≠ key r

omit [LinearOrder κ] in
theorem Wins.rank_le {rows : List ρ} {r q : ρ} (h : Wins key rank rows r) (hq : q ∈ rows)
    (hk : key q = key r) : rank q ≤ rank r := by
  obtain ⟨pre, post, rfl, hpre, hpost⟩ := h
  rcases List.mem_append.mp hq with hq | hq
  · exact hpre q hq hk
  · rcases List.mem_cons.mp hq with rfl | hq
    · exact le_rfl
    · exact (hpost q hq hk).le

omit [LinearOrder κ] in
theorem Wins.cons {rows : List ρ} {r q : ρ} (h : Wins key rank rows r)
    (hq : key q = key r → rank q ≤ rank r) : Wins key rank (q :: rows) r := by
  obtain ⟨pre, post, rfl, hpre, hpost⟩ := h
  exact ⟨q :: pre, post, rfl, List.forall_mem_cons.mpr ⟨hq, hpre⟩, hpost⟩

theorem wins_of_pickAt {rows : List ρ} {k : κ} {r : ρ}
    (h : pickAt key (later rank) k rows = some r) : key r = k ∧ Wins key rank rows r := by
  induction rows generalizing r with
  | nil => cases h
  | cons q rows ih =>
      rw [pickAt] at h
      split_ifs at h with hq
      · cases hrest : pickAt key (later rank) k rows with
        | none =>
            rw [hrest] at h
            obtain rfl : q = r := Option.some.inj h
            refine ⟨hq, [], rows, rfl, List.forall_mem_nil _, fun p hp hpk => ?_⟩
            have hu := upsert_keepLast key rank
            have hkept := (firstOf_isSome key).mpr
              (hu.keys k rows ((hpk.trans hq) ▸ List.mem_map_of_mem hp))
            rw [hu.chosen, hrest] at hkept
            cases hkept
        | some best =>
            obtain ⟨hbest, hwins⟩ := ih hrest
            rw [hrest, later] at h
            split_ifs at h with hle
            · obtain rfl : best = r := Option.some.inj h
              exact ⟨hbest, hwins.cons key rank fun _ => hle⟩
            · obtain rfl : q = r := Option.some.inj h
              refine ⟨hq, [], rows, rfl, List.forall_mem_nil _, fun p hp hpk => ?_⟩
              exact (hwins.rank_le key rank hp (hpk.trans (hq.trans hbest.symm))).trans_lt
                (not_le.mp hle)
      · obtain ⟨hr, hwins⟩ := ih h
        exact ⟨hr, hwins.cons key rank fun hk => absurd (hk.trans hr) hq⟩

omit [LinearOrder κ] in
theorem Wins.unique {rows : List ρ} {r s : ρ} (hr : Wins key rank rows r)
    (hs : Wins key rank rows s) (hk : key r = key s) : r = s := by
  obtain ⟨pre, post, rfl, hpre, hpost⟩ := hr
  obtain ⟨pre', post', heq, hpre', hpost'⟩ := hs
  rcases List.append_eq_append_iff.mp heq with ⟨mid, rfl, hmid⟩ | ⟨mid, rfl, hmid⟩
  · cases mid with
    | nil => exact (List.cons.inj hmid).1
    | cons q mid =>
        obtain ⟨rfl, rfl⟩ := List.cons.inj hmid
        exact absurd (hpre' r (by simp) hk) (not_le.mpr (hpost s (by simp) hk.symm))
  · cases mid with
    | nil => exact (List.cons.inj hmid).1.symm
    | cons q mid =>
        obtain ⟨rfl, rfl⟩ := List.cons.inj hmid
        exact absurd (hpre s (by simp) hk.symm) (not_le.mpr (hpost' r (by simp) hk))

/-- An upsert by rank leaves the rows that win. -/
theorem mem_upsert_keepLast {rows : List ρ} {r : ρ} :
    r ∈ keepLast key (sortBy (byRank key rank) rows) ↔ Wins key rank rows r := by
  have hu := upsert_keepLast key rank
  have hmem := firstOf_eq_some_iff key (nodup_of_increasing key (hu.increasing rows)) (k := key r)
    (r := r)
  rw [hu.chosen, and_iff_left rfl] at hmem
  rw [← hmem]
  constructor
  · exact fun h => (wins_of_pickAt key rank h).2
  · intro h
    obtain ⟨pre, post, rfl, hpre, hpost⟩ := id h
    have hsome := (firstOf_isSome key).mpr (hu.keys (key r) (pre ++ r :: post) (by simp))
    rw [hu.chosen] at hsome
    obtain ⟨s, hs⟩ := Option.isSome_iff_exists.mp hsome
    obtain ⟨hsk, hswins⟩ := wins_of_pickAt key rank hs
    rw [hs, hswins.unique key rank h hsk]

/-- An upsert that keeps the first row of each key. -/
theorem mem_upsert_keepFirst {rows : List ρ} {r : ρ} :
    r ∈ sortBy key (keepFirst key rows) ↔ Leads key rows r := by
  have hu := upsert_keepFirst key
  have hmem := firstOf_eq_some_iff key (nodup_of_increasing key (hu.increasing rows)) (k := key r)
    (r := r)
  rw [hu.chosen, pickAt_or, and_iff_left rfl] at hmem
  rw [← hmem, firstOf, List.find?_eq_some_iff_append]
  simp only [decide_true, true_and, Bool.not_eq_true', decide_eq_false_iff_not, Leads, ne_eq]

end

end SmcPipeline.KeyedRows
