import SmcPipeline.Swings

/-!
# Between two consecutive extremes

A bar is an extreme when it is at least as good as every bar of a window around
it, for `max` as for `min`. Between two extremes of one kind with none in
between, no bar is better than both: the best bar of the stretch would be an
extreme itself, because its window reaches no further than theirs.
-/

namespace SmcPipeline.Extremes

open Candles Swings

variable {K : Type*}

/-- `best` picks a top element for the total preorder `R` that `beats` tests. -/
structure IsBest (best : List K → Option K) (beats : K → K → Bool) (R : K → K → Prop) :
    Prop where
  mem : ∀ {xs m}, best xs = some m → m ∈ xs
  top : ∀ {xs m}, best xs = some m → ∀ y ∈ xs, R m y
  none_iff : ∀ {xs}, best xs = none ↔ xs = []
  beats_iff : ∀ {x y}, beats x y = true ↔ R x y
  trans : ∀ {x y z}, R x y → R y z → R x z
  total : ∀ x y, R x y ∨ R y x

theorem isBest_max [LinearOrder K] :
    IsBest (K := K) List.max? (fun x y => decide (y ≤ x)) fun x y => y ≤ x where
  mem h := List.max?_mem h
  top h y hy := (List.max?_eq_some_iff.mp h).2 y hy
  none_iff := List.max?_eq_none_iff
  beats_iff := decide_eq_true_iff
  trans h₁ h₂ := h₂.trans h₁
  total x y := le_total y x

theorem isBest_min [LinearOrder K] :
    IsBest (K := K) List.min? (fun x y => decide (x ≤ y)) fun x y => x ≤ y where
  mem h := List.min?_mem h
  top h y hy := (List.min?_eq_some_iff.mp h).2 y hy
  none_iff := List.min?_eq_none_iff
  beats_iff := decide_eq_true_iff
  trans h₁ h₂ := h₁.trans h₂
  total := le_total

theorem mem_slice_cells {lo hi : ℕ} {cells : List (Option K)} {x : K} :
    x ∈ (slice lo hi cells).filterMap id ↔ ∃ j, lo ≤ j ∧ j < hi ∧ valueAt cells j = some x := by
  simp only [List.mem_filterMap, id_eq, exists_eq_right]
  rw [List.mem_iff_getElem?]
  simp only [getElem?_slice]
  constructor
  · rintro ⟨i, hi'⟩
    split_ifs at hi' with hlt
    exact ⟨lo + i, by omega, by omega, by simp [valueAt, hi']⟩
  · rintro ⟨j, h₁, h₂, h₃⟩
    refine ⟨j - lo, ?_⟩
    have hj : lo + (j - lo) = j := by omega
    rw [if_pos (by omega), hj]
    exact Option.join_eq_some_iff.mp h₃

section

variable {best : List K → Option K} {beats : K → K → Bool} {R : K → K → Prop}
  {window : ℕ} {cells : List (Option K)}

theorem IsBest.refl (hR : IsBest best beats R) (x : K) : R x x := (hR.total x x).elim id id

theorem value_of_extremeAt {idx : ℕ} {x : K} (h : extremeAt best beats window cells idx = some x) :
    valueAt cells idx = some x := by
  unfold extremeAt at h
  split at h
  · split_ifs at h
    cases h
    assumption
  · cases h

/-- An extreme is at least as good as every bar of its window. -/
theorem IsBest.of_extremeAt (hR : IsBest best beats R) {idx : ℕ} {x : K}
    (h : extremeAt best beats window cells idx = some x) {j : ℕ} (h₁ : idx ≤ j + window)
    (h₂ : j ≤ idx + window) {y : K} (hy : valueAt cells j = some y) : R x y := by
  have hx := value_of_extremeAt h
  unfold extremeAt at h
  split at h
  · rename_i x' left right hx' hleft hright
    split_ifs at h with hb
    cases h
    rw [Bool.and_eq_true] at hb
    rcases lt_trichotomy j idx with hj | rfl | hj
    · have hmem := mem_slice_cells.mpr ⟨j, (by omega : idx - window ≤ j), hj, hy⟩
      exact hR.trans (hR.beats_iff.mp hb.1) (hR.top hleft y hmem)
    · rw [hx'] at hy
      cases hy
      exact hR.refl _
    · have hmem := mem_slice_cells.mpr ⟨j, (by omega : idx + 1 ≤ j),
        (by omega : j < idx + 1 + window), hy⟩
      exact hR.trans (hR.beats_iff.mp hb.2) (hR.top hright y hmem)
  · cases h

/-- In a column without missing cells that is all there is to an extreme. -/
theorem IsBest.extremeAt_of (hR : IsBest best beats R) {idx : ℕ} {x : K} (hpos : 0 < window)
    (hlo : window ≤ idx) (hhi : idx + window < cells.length)
    (hfull : ∀ j < cells.length, ∃ y, valueAt cells j = some y)
    (hx : valueAt cells idx = some x)
    (hall : ∀ j y, idx ≤ j + window → j ≤ idx + window → valueAt cells j = some y → R x y) :
    extremeAt best beats window cells idx = some x := by
  have hside : ∀ lo hi, lo < hi → hi ≤ cells.length → idx ≤ lo + window → hi ≤ idx + 1 + window →
      ∃ m, best ((slice lo hi cells).filterMap id) = some m ∧ R x m := by
    intro lo hi hlt hle h₁ h₂
    obtain ⟨y, hy⟩ := hfull lo (by omega)
    have hmem := mem_slice_cells.mpr ⟨lo, le_rfl, hlt, hy⟩
    cases hb : best ((slice lo hi cells).filterMap id) with
    | none =>
        rw [hR.none_iff.mp hb] at hmem
        cases hmem
    | some m =>
        obtain ⟨j, hj₁, hj₂, hj⟩ := mem_slice_cells.mp (hR.mem hb)
        exact ⟨m, rfl, hall j m (by omega) (by omega) hj⟩
  obtain ⟨left, hleft, hl⟩ := hside (idx - window) idx (by omega) (by omega) (by omega) (by omega)
  obtain ⟨right, hright, hr⟩ :=
    hside (idx + 1) (idx + 1 + window) (by omega) (by omega) (by omega) le_rfl
  simp only [extremeAt, hx, hleft, hright, hR.beats_iff.mpr hl, hR.beats_iff.mpr hr,
    Bool.and_self, if_true]

/-- A best bar of a stretch. -/
theorem IsBest.exists_best (hR : IsBest best beats R) (c : ℕ → K) (lo n : ℕ) :
    ∃ m, lo ≤ m ∧ m ≤ lo + n ∧ ∀ k, lo ≤ k → k ≤ lo + n → R (c m) (c k) := by
  induction n with
  | zero =>
      refine ⟨lo, le_rfl, le_rfl, fun k h₁ h₂ => ?_⟩
      obtain rfl : k = lo := by omega
      exact hR.refl _
  | succ n ih =>
      obtain ⟨m, hm₁, hm₂, hbest⟩ := ih
      rcases hR.total (c m) (c (lo + (n + 1))) with hold | hnew
      · refine ⟨m, hm₁, by omega, fun k h₁ h₂ => ?_⟩
        rcases Nat.lt_or_ge k (lo + (n + 1)) with hk | hk
        · exact hbest k h₁ (by omega)
        · obtain rfl : k = lo + (n + 1) := by omega
          exact hold
      · refine ⟨lo + (n + 1), by omega, le_rfl, fun k h₁ h₂ => ?_⟩
        rcases Nat.lt_or_ge k (lo + (n + 1)) with hk | hk
        · exact hR.trans hnew (hbest k h₁ (by omega))
        · obtain rfl : k = lo + (n + 1) := by omega
          exact hR.refl _

theorem IsBest.between_extremes (hR : IsBest best beats R) {q j : ℕ} {x y : K}
    (hpos : 0 < window) (hlo : window ≤ q) (hhi : j + window < cells.length)
    (hfull : ∀ i < cells.length, ∃ z, valueAt cells i = some z)
    (hq : extremeAt best beats window cells q = some x)
    (hj : extremeAt best beats window cells j = some y)
    (hnone : ∀ m, q < m → m < j → extremeAt best beats window cells m = none)
    {b : ℕ} (hqb : q ≤ b) (hbj : b ≤ j) {z : K} (hz : valueAt cells b = some z) :
    R x z ∨ R y z := by
  by_contra hnot
  rw [not_or] at hnot
  set c : ℕ → K := fun i => (valueAt cells i).getD x with hc
  have hvalue : ∀ i < cells.length, valueAt cells i = some (c i) := by
    intro i hi
    obtain ⟨v, hv⟩ := hfull i hi
    rw [hc]
    simp [hv]
  have hcz : c b = z := Option.some.inj ((hvalue b (by omega)).symm.trans hz)
  have hcx : c q = x := Option.some.inj ((hvalue q (by omega)).symm.trans (value_of_extremeAt hq))
  have hcy : c j = y := Option.some.inj ((hvalue j (by omega)).symm.trans (value_of_extremeAt hj))
  obtain ⟨m, hqm, hmj, hbest⟩ := hR.exists_best c q (j - q)
  have hmq : m ≠ q := fun h => hnot.1 (by
    have := hbest b hqb (by omega)
    rwa [h, hcx, hcz] at this)
  have hmj' : m ≠ j := fun h => hnot.2 (by
    have := hbest b hqb (by omega)
    rwa [h, hcy, hcz] at this)
  have hext : extremeAt best beats window cells m = some (c m) := by
    apply hR.extremeAt_of hpos (by omega) (by omega) hfull (hvalue m (by omega))
    intro i v h₁ h₂ hv
    rcases Nat.lt_or_ge i q with hiq | hiq
    · -- left of the stretch the bar lies in the window of the first extreme
      have hmx : R (c m) x := hcx ▸ hbest q le_rfl (by omega)
      exact hR.trans hmx (hR.of_extremeAt hq (by omega) (by omega) hv)
    · rcases Nat.lt_or_ge j i with hij | hij
      · have hmy : R (c m) y := hcy ▸ hbest j (by omega) (by omega)
        exact hR.trans hmy (hR.of_extremeAt hj (by omega) (by omega) hv)
      · have hiv : c i = v := Option.some.inj ((hvalue i (by omega)).symm.trans hv)
        exact hiv ▸ hbest i hiq (by omega)
  rw [hnone m (by omega) (by omega)] at hext
  cases hext

end

section

variable [LinearOrder K]

def cellOf (kind : SwingKind) (r : Candle K) : Option K :=
  match kind with
  | .high => r.high
  | .low => r.low

/-- At least as high, or at least as low. -/
def Better (kind : SwingKind) (x y : K) : Prop :=
  match kind with
  | .high => y ≤ x
  | .low => x ≤ y

def bestOf (kind : SwingKind) : List K → Option K :=
  match kind with
  | .high => List.max?
  | .low => List.min?

def beatsOf (kind : SwingKind) (x y : K) : Bool :=
  match kind with
  | .high => decide (y ≤ x)
  | .low => decide (x ≤ y)

theorem isBest_kind (kind : SwingKind) :
    IsBest (K := K) (bestOf kind) (beatsOf kind) (Better kind) := by
  cases kind
  · exact isBest_max
  · exact isBest_min

theorem priceAt_eq (kind : SwingKind) (window : ℕ) (rows : List (Candle K)) (idx : ℕ) :
    priceAt kind window rows idx =
      extremeAt (bestOf kind) (beatsOf kind) window (rows.map (cellOf kind)) idx := by
  cases kind <;> rfl

/-- Neighbours of one kind in the list of swings have no bar of that kind between
them. -/
theorem swingAt_eq_none_between {rows : List (Candle K)} {minSeparation : ℤ}
    {pre mid post : List (Swing K)} {s t : Swing K}
    (hsw : detectSwings rows minSeparation = pre ++ s :: (mid ++ t :: post))
    (hmid : ∀ z ∈ mid, z.kind ≠ t.kind) {m : ℕ} (hsm : s.index < m) (hmt : m < t.index) :
    swingAt t.kind (windowOf minSeparation) rows m = none := by
  cases hu : swingAt t.kind (windowOf minSeparation) rows m with
  | none => rfl
  | some u =>
      obtain ⟨hidx, hkind, -⟩ := swingAt_eq_some hu
      have hall := detectSwings_pairwise rows minSeparation
      have hbound : ∀ v ∈ [s, t], windowOf minSeparation ≤ v.index ∧
          v.index + windowOf minSeparation < rows.length := by
        intro v hv
        have hmem : v ∈ detectSwings rows minSeparation := by
          rw [hsw]
          simp only [List.mem_cons, List.not_mem_nil, or_false] at hv
          rcases hv with rfl | rfl <;> simp
        exact ⟨(mem_detectSwings.mp hmem).1, (mem_detectSwings.mp hmem).2.1⟩
      have hs := hbound s (by simp)
      have ht := hbound t (by simp)
      have hmem : u ∈ detectSwings rows minSeparation := by
        refine mem_detectSwings.mpr ⟨by omega, by omega, ?_⟩
        rw [hidx, hkind]
        exact hu
      rw [hsw] at hmem hall
      rw [List.pairwise_append] at hall
      obtain ⟨-, hrest, hpre⟩ := hall
      rw [List.pairwise_cons, List.pairwise_append, List.pairwise_cons] at hrest
      simp only [List.mem_append, List.mem_cons] at hmem
      rcases hmem with hm | rfl | hm | rfl | hm
      · rcases hpre u hm s List.mem_cons_self with hlt | ⟨heq, -⟩ <;> omega
      · omega
      · exact absurd hkind (hmid u hm)
      · omega
      · rcases hrest.2.2.1.1 u hm with hlt | ⟨heq, -⟩ <;> omega

/-- No bar between two consecutive swings of one kind is better than both. -/
theorem between_swings {rows : List (Candle K)} {minSeparation : ℤ}
    {pre mid post : List (Swing K)} {s t : Swing K}
    (hsw : detectSwings rows minSeparation = pre ++ s :: (mid ++ t :: post))
    (hkind : s.kind = t.kind) (hmid : ∀ z ∈ mid, z.kind ≠ t.kind)
    (hfull : ∀ r ∈ rows, ∃ x, cellOf t.kind r = some x)
    {b : ℕ} (hsb : s.index ≤ b) (hbt : b ≤ t.index) {r : Candle K} (hr : rows[b]? = some r)
    {z : K} (hz : cellOf t.kind r = some z) :
    Better t.kind s.price z ∨ Better t.kind t.price z := by
  have hmem : ∀ v ∈ [s, t], v ∈ detectSwings rows minSeparation := by
    intro v hv
    rw [hsw]
    simp only [List.mem_cons, List.not_mem_nil, or_false] at hv
    rcases hv with rfl | rfl <;> simp
  obtain ⟨hs₁, -, hs₃⟩ := mem_detectSwings.mp (hmem s (by simp))
  obtain ⟨-, ht₂, ht₃⟩ := mem_detectSwings.mp (hmem t (by simp))
  have hsp := (swingAt_eq_some hs₃).2.2.2.1
  have htp := (swingAt_eq_some ht₃).2.2.2.1
  rw [hkind] at hsp
  rw [priceAt_eq] at hsp htp
  have hcell : ∀ (i : ℕ) (x : Option K), (rows.map (cellOf t.kind))[i]? = some x → ∃ r, rows[i]? = some r ∧
      cellOf t.kind r = x := by
    intro i x hx
    rw [List.getElem?_map] at hx
    exact Option.map_eq_some_iff.mp hx
  refine (isBest_kind t.kind).between_extremes (windowOf_pos minSeparation) hs₁
    (by rw [List.length_map]; exact ht₂) ?_ hsp htp ?_ hsb hbt ?_
  · intro i hi
    obtain ⟨r', hr', hx⟩ := hcell i _ (List.getElem?_eq_getElem hi)
    obtain ⟨x, hx'⟩ := hfull r' (List.mem_of_getElem? hr')
    exact ⟨x, by simp [valueAt, List.getElem?_map, hr', hx']⟩
  · intro m h₁ h₂
    rw [← priceAt_eq]
    exact swingAt_eq_none (by omega) (swingAt_eq_none_between hsw hmid h₁ h₂)
  · simp [valueAt, List.getElem?_map, hr, hz]

end

end SmcPipeline.Extremes
