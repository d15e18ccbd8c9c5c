import SmcPipeline.Candles

/-!
# Swings

`detect_swings` of `smc_structure/swing_detector.py`: a bar is a swing high when
its high is at least the maximum of the window on either side, and a swing low
dually. Missing cells are skipped by the maxima, and a comparison with a missing
value fails.
-/

namespace SmcPipeline

inductive SwingKind
  | high
  | low
deriving DecidableEq, Repr

structure Swing (K : Type*) where
  index : ℕ
  time : ℤ
  price : K
  kind : SwingKind
  strength : ℕ
deriving DecidableEq, Repr

namespace Swings

open Candles KeyedRows

variable {K : Type*}

/-- The cell at `idx` if it beats the best cell on either side. -/
def extremeAt (best : List K → Option K) (beats : K → K → Bool) (window : ℕ)
    (cells : List (Option K)) (idx : ℕ) : Option K :=
  match valueAt cells idx, best ((slice (idx - window) idx cells).filterMap id),
      best ((slice (idx + 1) (idx + 1 + window) cells).filterMap id) with
  | some x, some left, some right => if beats x left && beats x right then some x else none
  | _, _, _ => none

section

variable [LinearOrder K]

def highAt : ℕ → List (Option K) → ℕ → Option K :=
  extremeAt List.max? fun x y => decide (y ≤ x)

def lowAt : ℕ → List (Option K) → ℕ → Option K :=
  extremeAt List.min? fun x y => decide (x ≤ y)

def priceAt (kind : SwingKind) (window : ℕ) (rows : List (Candle K)) (idx : ℕ) : Option K :=
  match kind with
  | .high => highAt window (rows.map Candle.high) idx
  | .low => lowAt window (rows.map Candle.low) idx

/-- The swing of one kind at an index, if there is one. -/
def swingAt (kind : SwingKind) (window : ℕ) (rows : List (Candle K)) (idx : ℕ) :
    Option (Swing K) :=
  match rows[idx]?, priceAt kind window rows idx with
  | some r, some p => some ⟨idx, r.time, p, kind, window⟩
  | _, _ => none

/-- One round of the loop: the high comes before the low. -/
def swingsAt (window : ℕ) (rows : List (Candle K)) (idx : ℕ) : List (Swing K) :=
  (swingAt .high window rows idx).toList ++ (swingAt .low window rows idx).toList

def detectSwings (rows : List (Candle K)) (minSeparation : ℤ) : List (Swing K) :=
  let window := (max 1 minSeparation).toNat
  let total := rows.length
  if total < window * 2 + 1 then []
  else sortBy Swing.index
    ((List.range' window (total - window - window)).flatMap (swingsAt window rows))

end

/-- `max(1, min_separation)` -/
abbrev windowOf (minSeparation : ℤ) : ℕ := (max 1 minSeparation).toNat

theorem windowOf_pos (minSeparation : ℤ) : 0 < windowOf minSeparation := by
  unfold windowOf
  omega

/-- Two columns agree around an index, the second one shifted by `d`. -/
def AgreeAround {β : Type*} (window idx d : ℕ) (xs ys : List β) : Prop :=
  ∀ i, idx ≤ i + window → i ≤ idx + window → xs[i]? = ys[i + d]?

theorem AgreeAround.map {β γ : Type*} {window idx d : ℕ} {xs ys : List β}
    (h : AgreeAround window idx d xs ys) (f : β → γ) :
    AgreeAround window idx d (xs.map f) (ys.map f) := by
  intro i h₁ h₂
  rw [List.getElem?_map, List.getElem?_map, h i h₁ h₂]

theorem extremeAt_shift (best : List K → Option K) (beats : K → K → Bool) {window idx d : ℕ}
    {xs ys : List (Option K)} (hw : window ≤ idx) (h : AgreeAround window idx d xs ys) :
    extremeAt best beats window ys (idx + d) = extremeAt best beats window xs idx := by
  have hvalue : valueAt ys (idx + d) = valueAt xs idx := by
    unfold valueAt
    rw [h idx (by omega) (by omega)]
  have hleft : slice (idx + d - window) (idx + d) ys = slice (idx - window) idx xs := by
    have hlo : idx + d - window = idx - window + d := by omega
    rw [hlo]
    exact (slice_shift fun i h₁ h₂ => h i (by omega) (by omega)).symm
  have hright : slice (idx + d + 1) (idx + d + 1 + window) ys =
      slice (idx + 1) (idx + 1 + window) xs := by
    have hlo : idx + d + 1 = idx + 1 + d := by omega
    have hhi : idx + d + 1 + window = idx + 1 + window + d := by omega
    rw [hhi, hlo]
    exact (slice_shift fun i h₁ h₂ => h i (by omega) (by omega)).symm
  unfold extremeAt
  rw [hvalue, hleft, hright]

def Swing.shift (d : ℕ) (s : Swing K) : Swing K := { s with index := s.index + d }

/-- Order of the swings in the list: by index, and the high before the low. -/
def Swing.before (a b : Swing K) : Prop :=
  a.index < b.index ∨ (a.index = b.index ∧ a.kind = .high ∧ b.kind = .low)

theorem index_le_of_before {a b : Swing K} (h : Swing.before a b) : a.index ≤ b.index := by
  rcases h with h | ⟨h, -⟩
  · exact h.le
  · exact h.le

variable [LinearOrder K]

theorem highAt_shift {window idx d : ℕ} {xs ys : List (Option K)} (hw : window ≤ idx)
    (h : AgreeAround window idx d xs ys) : highAt window ys (idx + d) = highAt window xs idx :=
  extremeAt_shift _ _ hw h

theorem lowAt_shift {window idx d : ℕ} {xs ys : List (Option K)} (hw : window ≤ idx)
    (h : AgreeAround window idx d xs ys) : lowAt window ys (idx + d) = lowAt window xs idx :=
  extremeAt_shift _ _ hw h

theorem priceAt_shift (kind : SwingKind) {window idx d : ℕ} {rows rows' : List (Candle K)}
    (hw : window ≤ idx) (h : AgreeAround window idx d rows rows') :
    priceAt kind window rows' (idx + d) = priceAt kind window rows idx := by
  cases kind
  · exact highAt_shift hw (h.map Candle.high)
  · exact lowAt_shift hw (h.map Candle.low)

theorem swingAt_shift (kind : SwingKind) {window idx d : ℕ} {rows rows' : List (Candle K)}
    (hw : window ≤ idx) (h : AgreeAround window idx d rows rows') :
    swingAt kind window rows' (idx + d) =
      (swingAt kind window rows idx).map (Swing.shift d) := by
  have hrow : rows'[idx + d]? = rows[idx]? := (h idx (by omega) (by omega)).symm
  unfold swingAt
  rw [hrow, priceAt_shift kind hw h]
  cases rows[idx]? <;> cases priceAt kind window rows idx <;> rfl

theorem swingsAt_shift {window idx d : ℕ} {rows rows' : List (Candle K)}
    (hw : window ≤ idx) (h : AgreeAround window idx d rows rows') :
    swingsAt window rows' (idx + d) = (swingsAt window rows idx).map (Swing.shift d) := by
  unfold swingsAt
  rw [swingAt_shift .high hw h, swingAt_shift .low hw h, List.map_append]
  cases swingAt .high window rows idx <;> cases swingAt .low window rows idx <;> rfl

theorem swingAt_eq_some {kind : SwingKind} {window idx : ℕ} {rows : List (Candle K)}
    {s : Swing K} (h : swingAt kind window rows idx = some s) :
    s.index = idx ∧ s.kind = kind ∧ s.strength = window ∧
      priceAt kind window rows idx = some s.price ∧
        ∃ r, rows[idx]? = some r ∧ s.time = r.time := by
  unfold swingAt at h
  split at h
  · rename_i r p hr hp
    cases h
    exact ⟨rfl, rfl, rfl, hp, r, hr, rfl⟩
  · cases h

theorem swingAt_eq_none {kind : SwingKind} {window idx : ℕ} {rows : List (Candle K)}
    (hidx : idx < rows.length) (h : swingAt kind window rows idx = none) :
    priceAt kind window rows idx = none := by
  unfold swingAt at h
  rw [List.getElem?_eq_getElem hidx] at h
  cases hp : priceAt kind window rows idx with
  | none => rfl
  | some p => simp [hp] at h

theorem mem_swingsAt {window idx : ℕ} {rows : List (Candle K)} {s : Swing K} :
    s ∈ swingsAt window rows idx ↔ swingAt s.kind window rows idx = some s := by
  unfold swingsAt
  rw [List.mem_append, Option.mem_toList, Option.mem_toList]
  constructor
  · rintro (h | h)
    · rw [(swingAt_eq_some h).2.1]
      exact h
    · rw [(swingAt_eq_some h).2.1]
      exact h
  · intro h
    cases hk : s.kind with
    | high =>
        rw [hk] at h
        exact Or.inl h
    | low =>
        rw [hk] at h
        exact Or.inr h

theorem index_of_mem_swingsAt {window idx : ℕ} {rows : List (Candle K)} {s : Swing K}
    (h : s ∈ swingsAt window rows idx) : s.index = idx :=
  (swingAt_eq_some (mem_swingsAt.mp h)).1

theorem swingsAt_pairwise (window : ℕ) (rows : List (Candle K)) (idx : ℕ) :
    (swingsAt window rows idx).Pairwise Swing.before := by
  unfold swingsAt
  cases hh : swingAt .high window rows idx with
  | none => cases swingAt .low window rows idx <;> simp
  | some a =>
      cases hl : swingAt .low window rows idx with
      | none => simp
      | some b =>
          obtain ⟨ha, hka, -⟩ := swingAt_eq_some hh
          obtain ⟨hb, hkb, -⟩ := swingAt_eq_some hl
          simp [Swing.before, ha, hb, hka, hkb]

private theorem flatMap_pairwise (window : ℕ) (rows : List (Candle K)) (start len : ℕ) :
    ((List.range' start len).flatMap (swingsAt window rows)).Pairwise Swing.before := by
  induction len generalizing start with
  | zero => simp
  | succ len ih =>
      rw [List.range'_succ, List.flatMap_cons, List.pairwise_append]
      refine ⟨swingsAt_pairwise window rows start, ih (start + 1), fun a ha b hb => ?_⟩
      obtain ⟨idx, hidx, hb'⟩ := List.mem_flatMap.mp hb
      rw [List.mem_range'_1] at hidx
      have ha' := index_of_mem_swingsAt ha
      have hb'' := index_of_mem_swingsAt hb'
      exact Or.inl (by omega)

/-- The final sort finds the list in order. -/
theorem detectSwings_eq (rows : List (Candle K)) (minSeparation : ℤ) :
    detectSwings rows minSeparation =
      (List.range' (windowOf minSeparation)
        (rows.length - windowOf minSeparation - windowOf minSeparation)).flatMap
          (swingsAt (windowOf minSeparation) rows) := by
  unfold detectSwings
  dsimp only
  split_ifs with hlen
  · have hzero : rows.length - windowOf minSeparation - windowOf minSeparation = 0 := by
      unfold windowOf
      omega
    rw [hzero]
    rfl
  · exact sortBy_eq_self Swing.index ((flatMap_pairwise _ _ _ _).imp index_le_of_before)

theorem detectSwings_pairwise (rows : List (Candle K)) (minSeparation : ℤ) :
    (detectSwings rows minSeparation).Pairwise Swing.before := by
  rw [detectSwings_eq]
  exact flatMap_pairwise _ _ _ _

theorem mem_detectSwings {rows : List (Candle K)} {minSeparation : ℤ} {s : Swing K} :
    s ∈ detectSwings rows minSeparation ↔
      windowOf minSeparation ≤ s.index ∧ s.index + windowOf minSeparation < rows.length ∧
        swingAt s.kind (windowOf minSeparation) rows s.index = some s := by
  rw [detectSwings_eq, List.mem_flatMap]
  constructor
  · rintro ⟨idx, hidx, hs⟩
    rw [List.mem_range'_1] at hidx
    rw [← index_of_mem_swingsAt hs] at hidx
    refine ⟨hidx.1, by omega, ?_⟩
    have := mem_swingsAt.mp hs
    rwa [← index_of_mem_swingsAt hs] at this
  · rintro ⟨hlo, hhi, hs⟩
    exact ⟨s.index, List.mem_range'_1.mpr ⟨hlo, by omega⟩, mem_swingsAt.mpr hs⟩

/-- Appended rows leave the swings found so far alone. -/
theorem detectSwings_append (rows more : List (Candle K)) (minSeparation : ℤ) :
    ∃ rest, detectSwings (rows ++ more) minSeparation =
      detectSwings rows minSeparation ++ rest := by
  set w := windowOf minSeparation with hw
  rw [detectSwings_eq, detectSwings_eq, ← hw]
  have hlen : (rows ++ more).length - w - w =
      (rows.length - w - w) + ((rows ++ more).length - w - w - (rows.length - w - w)) := by
    simp only [List.length_append]
    omega
  rw [hlen, ← List.range'_append_1, List.flatMap_append]
  refine ⟨_, congrArg (· ++ _) ?_⟩
  refine List.flatMap_congr fun idx hidx => ?_
  rw [List.mem_range'_1] at hidx
  have hagree : AgreeAround w idx 0 rows (rows ++ more) := by
    intro i _ hi
    rw [Nat.add_zero, List.getElem?_append_left (by omega)]
  have hshift := swingsAt_shift hidx.1 hagree
  rw [Nat.add_zero] at hshift
  rw [hshift]
  exact (List.map_congr_left fun s _ => rfl).trans (List.map_id _)

end Swings

end SmcPipeline
