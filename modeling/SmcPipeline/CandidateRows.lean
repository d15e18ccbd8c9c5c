import SmcPipeline.OrderBlocks

/-!
# The row an order block is built from

`_find_ob_candidate` goes backwards over the rows before a leg for the last candle against
its direction, and takes the one that reaches furthest where there is none. Which row that
is, and which legs give a zone, is said here in terms of the rows, the leg and the
configuration alone.
-/

namespace SmcPipeline.CandidateRows

open Candles OrderBlocks

variable {K : Type*}

theorem exists_best {β : Type*} (le : β → β → Bool) (htotal : ∀ a b, le a b = true ∨ le b a = true)
    (htrans : ∀ a b c, le a b = true → le b c = true → le a c = true) {cells : List β}
    (hne : cells ≠ []) : ∃ a ∈ cells, ∀ b ∈ cells, le a b = true := by
  induction cells with
  | nil => exact absurd rfl hne
  | cons x cells ih =>
      have hxx : le x x = true := (htotal x x).elim id id
      by_cases hcells : cells = []
      · subst hcells
        refine ⟨x, List.mem_cons_self, fun b hb => ?_⟩
        obtain rfl : b = x := by simpa using hb
        exact hxx
      · obtain ⟨a, ha, hbest⟩ := ih hcells
        rcases htotal x a with hxa | hax
        · refine ⟨x, List.mem_cons_self, fun b hb => ?_⟩
          rcases List.mem_cons.mp hb with rfl | hb
          · exact hxx
          · exact htrans x a b hxa (hbest b hb)
        · refine ⟨a, List.mem_cons_of_mem x ha, fun b hb => ?_⟩
          rcases List.mem_cons.mp hb with rfl | hb
          · exact hax
          · exact hbest b hb

/-- A search from the last number down finds the largest one with the property. -/
theorem find?_reverse_range_eq_some {p : ℕ → Bool} {n i : ℕ} :
    (List.range n).reverse.find? p = some i ↔
      p i = true ∧ i < n ∧ ∀ j, i < j → j < n → p j = false := by
  induction n with
  | zero => simp
  | succ n ih =>
      rw [List.range_succ, List.reverse_append, List.reverse_singleton, List.singleton_append,
        List.find?_cons]
      cases hn : p n with
      | true =>
          constructor
          · intro h
            obtain rfl : n = i := Option.some.inj h
            exact ⟨hn, n.lt_succ_self, fun j hlt hle => by omega⟩
          · rintro ⟨-, hlt, hlast⟩
            rcases Nat.lt_succ_iff_lt_or_eq.mp hlt with hlt | rfl
            · rw [hlast n hlt n.lt_succ_self] at hn
              cases hn
            · rfl
      | false =>
          rw [ih]
          constructor
          · rintro ⟨hi, hlt, hlast⟩
            refine ⟨hi, hlt.trans n.lt_succ_self, fun j hij hj => ?_⟩
            rcases Nat.lt_succ_iff_lt_or_eq.mp hj with hj | rfl
            · exact hlast j hij hj
            · exact hn
          · rintro ⟨hi, hlt, hlast⟩
            rcases Nat.lt_succ_iff_lt_or_eq.mp hlt with hlt | rfl
            · exact ⟨hi, hlt, fun j hij hj => hlast j hij (hj.trans n.lt_succ_self)⟩
            · rw [hi] at hn
              cases hn

section

variable [LinearOrder K] (cfg : SmcCoreConfig K)

/-- The row is one of the `ob_prelude_max_bars + 1` rows up to the start of a leg. -/
def Near (startPos pos : ℕ) : Prop :=
  (startPos : ℤ) - cfg.obPreludeMaxBars ≤ pos ∧ pos ≤ startPos

/-- The candle in this row goes against the direction. -/
def Against (frame : List (RawBar K)) (direction : Direction) (pos : ℕ) : Prop :=
  ∃ row, frame[pos]? = some row ∧ isOpposite direction row = true

/-- How far a candle reaches against the direction. -/
def reach (direction : Direction) (row : RawBar K) : Option K :=
  match direction with
  | .long => row.low
  | .short => row.high

/-- One cell lies at least as far against the direction as another one; a missing cell
comes before all others. -/
def atLeastAsFar (direction : Direction) : Option K → Option K → Bool
  | none, _ => true
  | some _, none => false
  | some a, some b =>
    match direction with
    | .long => decide (a ≤ b)
    | .short => decide (b ≤ a)

/-- No row near the start reaches further than this one. -/
def Furthest (frame : List (RawBar K)) (startPos : ℕ) (direction : Direction) (pos : ℕ) : Prop :=
  ∃ row, frame[pos]? = some row ∧ ∀ q other, Near cfg startPos q → frame[q]? = some other →
    atLeastAsFar direction (reach direction row) (reach direction other) = true

/-- The last row near the start whose candle goes against the direction, or else the first
of those that reach furthest. -/
def IsCandidate (frame : List (RawBar K)) (startPos : ℕ) (direction : Direction) (pos : ℕ) :
    Prop :=
  Near cfg startPos pos ∧
    ((Against frame direction pos ∧
        ∀ q, pos < q → q ≤ startPos → ¬ Against frame direction q) ∨
      (∀ q, Near cfg startPos q → ¬ Against frame direction q) ∧
        Furthest cfg frame startPos direction pos ∧
        ∀ q < pos, Near cfg startPos q → ¬ Furthest cfg frame startPos direction q)

/-- The first row near the start. -/
def firstNear (startPos : ℕ) : ℕ := (max 0 ((startPos : ℤ) - cfg.obPreludeMaxBars)).toNat

variable {cfg} {frame : List (RawBar K)} {startPos pos : ℕ} {direction : Direction}

variable (cfg startPos frame) in
def rowsNear : List (RawBar K) := slice (firstNear cfg startPos) (startPos + 1) frame

omit [LinearOrder K] in
theorem near_iff {q : ℕ} : Near cfg startPos q ↔ firstNear cfg startPos ≤ q ∧ q ≤ startPos := by
  unfold Near firstNear
  omega

omit [LinearOrder K] in
theorem near_add_iff {rel : ℕ} :
    Near cfg startPos (firstNear cfg startPos + rel) ↔
      rel < startPos + 1 - firstNear cfg startPos := by
  rw [near_iff]
  omega

omit [LinearOrder K] in
theorem getElem?_rowsNear {rel : ℕ} (h : Near cfg startPos (firstNear cfg startPos + rel)) :
    (rowsNear cfg frame startPos)[rel]? = frame[firstNear cfg startPos + rel]? := by
  rw [rowsNear, getElem?_slice, if_pos (near_add_iff.mp h)]

omit [LinearOrder K] in
theorem length_rowsNear (hstart : startPos < frame.length) :
    (rowsNear cfg frame startPos).length = startPos + 1 - firstNear cfg startPos := by
  rw [rowsNear, slice, List.length_take, List.length_drop]
  omega

omit [LinearOrder K] in
theorem mem_rowsNear {row : RawBar K} :
    row ∈ rowsNear cfg frame startPos ↔ ∃ q, Near cfg startPos q ∧ frame[q]? = some row := by
  rw [List.mem_iff_getElem?]
  constructor
  · rintro ⟨rel, hrel⟩
    have hrow := hrel
    rw [rowsNear, getElem?_slice] at hrow
    split_ifs at hrow with hlt
    exact ⟨_, near_add_iff.mpr hlt, hrow⟩
  · rintro ⟨q, hnear, hrow⟩
    obtain ⟨rel, rfl⟩ := Nat.exists_eq_add_of_le (near_iff.mp hnear).1
    exact ⟨rel, by rw [getElem?_rowsNear hnear, hrow]⟩

/-- How `argmin` and `argmax` compare the cells. -/
def bestOf (direction : Direction) (a b : K) : Bool :=
  match direction with
  | .long => decide (a ≤ b)
  | .short => decide (b ≤ a)

theorem argBest_bestOf (cells : List (Option K)) :
    argBest (bestOf direction) cells =
      cells.findIdx fun x => cells.all (atLeastAsFar direction x) := rfl

theorem atLeastAsFar_total (a b : Option K) :
    atLeastAsFar direction a b = true ∨ atLeastAsFar direction b a = true := by
  cases a <;> cases b <;> cases direction <;> simp [atLeastAsFar, le_total]

theorem atLeastAsFar_trans (a b c : Option K) (hab : atLeastAsFar direction a b = true)
    (hbc : atLeastAsFar direction b c = true) : atLeastAsFar direction a c = true := by
  cases a with
  | none => rfl
  | some a =>
      cases b with
      | none => cases hab
      | some b =>
          cases c with
          | none => cases hbc
          | some c =>
              cases direction <;> simp only [atLeastAsFar, decide_eq_true_eq] at hab hbc ⊢
              · exact hab.trans hbc
              · exact hbc.trans hab

/-- The cell in this place lies at least as far as all others. -/
def Wins (cells : List (Option K)) (direction : Direction) (i : ℕ) : Prop :=
  ∃ x, cells[i]? = some x ∧ ∀ y ∈ cells, atLeastAsFar direction x y = true

theorem argBest_wins (direction : Direction) {cells : List (Option K)} (hne : cells ≠ []) :
    Wins cells direction (argBest (bestOf direction) cells) ∧
      ∀ j < argBest (bestOf direction) cells, ¬ Wins cells direction j := by
  rw [argBest_bestOf]
  have hlt : (cells.findIdx fun x => cells.all (atLeastAsFar direction x)) < cells.length := by
    obtain ⟨x, hx, hbest⟩ := exists_best _ atLeastAsFar_total atLeastAsFar_trans hne
    exact List.findIdx_lt_length.mpr ⟨x, hx, List.all_eq_true.mpr hbest⟩
  refine ⟨⟨_, List.getElem?_eq_getElem hlt, List.all_eq_true.mp
    (List.findIdx_getElem (w := hlt))⟩, ?_⟩
  rintro j hj ⟨x, hx, hall⟩
  obtain ⟨hlen, rfl⟩ := List.getElem?_eq_some_iff.mp hx
  exact Bool.false_ne_true ((List.not_of_lt_findIdx hj).symm.trans (List.all_eq_true.mpr hall))

theorem argBest_lt (direction : Direction) {cells : List (Option K)} (hne : cells ≠ []) :
    argBest (bestOf direction) cells < cells.length := by
  obtain ⟨⟨x, hx, -⟩, -⟩ := argBest_wins direction hne
  exact (List.getElem?_eq_some_iff.mp hx).1

theorem argBest_eq_iff {cells : List (Option K)} (hne : cells ≠ []) {i : ℕ} :
    argBest (bestOf direction) cells = i ↔
      Wins cells direction i ∧ ∀ j < i, ¬ Wins cells direction j := by
  obtain ⟨hwins, hfirst⟩ := argBest_wins direction hne
  constructor
  · rintro rfl
    exact ⟨hwins, hfirst⟩
  · rintro ⟨hi, hnone⟩
    rcases lt_trichotomy (argBest (bestOf direction) cells) i with hlt | heq | hlt
    · exact absurd hwins (hnone _ hlt)
    · exact heq
    · exact absurd hi (hfirst _ hlt)

theorem wins_iff_furthest {rel : ℕ} (h : Near cfg startPos (firstNear cfg startPos + rel)) :
    Wins ((rowsNear cfg frame startPos).map (reach direction)) direction rel ↔
      Furthest cfg frame startPos direction (firstNear cfg startPos + rel) := by
  unfold Wins Furthest
  rw [List.getElem?_map, getElem?_rowsNear h]
  constructor
  · rintro ⟨x, hx, hall⟩
    obtain ⟨row, hrow, rfl⟩ := Option.map_eq_some_iff.mp hx
    exact ⟨row, hrow, fun q other hq hother =>
      hall _ (List.mem_map_of_mem (mem_rowsNear.mpr ⟨q, hq, hother⟩))⟩
  · rintro ⟨row, hrow, hall⟩
    refine ⟨reach direction row, by rw [hrow, Option.map_some], fun y hy => ?_⟩
    obtain ⟨other, hmem, rfl⟩ := List.mem_map.mp hy
    obtain ⟨q, hq, hother⟩ := mem_rowsNear.mp hmem
    exact hall q other hq hother

theorem against_iff {rel : ℕ} (h : Near cfg startPos (firstNear cfg startPos + rel)) :
    (rowsNear cfg frame startPos)[rel]?.any (isOpposite direction) = true ↔
      Against frame direction (firstNear cfg startPos + rel) := by
  rw [getElem?_rowsNear h, Option.any_eq_true]
  rfl

variable (cfg frame startPos direction) in
/-- The last of the rows near the start, counted from the first, that is against it. -/
def lastAgainst : Option ℕ :=
  (List.range (rowsNear cfg frame startPos).length).reverse.find? fun rel =>
    (rowsNear cfg frame startPos)[rel]?.any (isOpposite direction)

theorem lastAgainst_eq_some (hstart : startPos < frame.length) {rel : ℕ} :
    lastAgainst cfg frame startPos direction = some rel ↔
      Near cfg startPos (firstNear cfg startPos + rel) ∧
        Against frame direction (firstNear cfg startPos + rel) ∧
        ∀ q, firstNear cfg startPos + rel < q → q ≤ startPos → ¬ Against frame direction q := by
  unfold lastAgainst
  rw [find?_reverse_range_eq_some, length_rowsNear hstart]
  constructor
  · rintro ⟨hopposite, hlt, hlast⟩
    have hnear := near_add_iff.mpr hlt
    refine ⟨hnear, (against_iff hnear).mp hopposite, fun q hq hle hagainst => ?_⟩
    obtain ⟨j, rfl⟩ : ∃ j, q = firstNear cfg startPos + j :=
      Nat.exists_eq_add_of_le (by omega)
    have hj : j < startPos + 1 - firstNear cfg startPos := by omega
    have hnone := hlast j (by omega) hj
    rw [(against_iff (near_add_iff.mpr hj)).mpr hagainst] at hnone
    cases hnone
  · rintro ⟨hnear, hagainst, hlast⟩
    refine ⟨(against_iff hnear).mpr hagainst, near_add_iff.mp hnear, fun j hj hlt => ?_⟩
    refine Bool.eq_false_of_not_eq_true fun hopposite => ?_
    exact hlast (firstNear cfg startPos + j) (by omega) (by omega)
      ((against_iff (near_add_iff.mpr hlt)).mp hopposite)

theorem lastAgainst_eq_none (hstart : startPos < frame.length) :
    lastAgainst cfg frame startPos direction = none ↔
      ∀ q, Near cfg startPos q → ¬ Against frame direction q := by
  unfold lastAgainst
  simp only [List.find?_eq_none, List.mem_reverse, List.mem_range, length_rowsNear hstart]
  constructor
  · intro h q hnear hagainst
    obtain ⟨j, rfl⟩ := Nat.exists_eq_add_of_le (near_iff.mp hnear).1
    exact h j (near_add_iff.mp hnear) ((against_iff hnear).mpr hagainst)
  · intro h j hj hopposite
    have hnear := near_add_iff.mpr hj
    exact h _ hnear ((against_iff hnear).mp hopposite)

theorem argBest_eq_furthest (hstart : startPos < frame.length)
    (hne : rowsNear cfg frame startPos ≠ []) :
    firstNear cfg startPos +
        argBest (bestOf direction) ((rowsNear cfg frame startPos).map (reach direction)) = pos ↔
      Near cfg startPos pos ∧ Furthest cfg frame startPos direction pos ∧
        ∀ q < pos, Near cfg startPos q → ¬ Furthest cfg frame startPos direction q := by
  have hcells : (rowsNear cfg frame startPos).map (reach direction) ≠ [] := by simpa using hne
  have hnear : ∀ j, Wins ((rowsNear cfg frame startPos).map (reach direction)) direction j →
      Near cfg startPos (firstNear cfg startPos + j) := by
    rintro j ⟨x, hx, -⟩
    rw [near_add_iff, ← length_rowsNear hstart]
    simpa using (List.getElem?_eq_some_iff.mp hx).1
  constructor
  · rintro rfl
    obtain ⟨hwins, hfirst⟩ := argBest_wins direction hcells
    refine ⟨hnear _ hwins, (wins_iff_furthest (hnear _ hwins)).mp hwins, fun q hq hq' hfar => ?_⟩
    obtain ⟨j, rfl⟩ := Nat.exists_eq_add_of_le (near_iff.mp hq').1
    exact hfirst j (by omega) ((wins_iff_furthest hq').mpr hfar)
  · rintro ⟨hpos, hfar, hfirst⟩
    obtain ⟨i, rfl⟩ := Nat.exists_eq_add_of_le (near_iff.mp hpos).1
    refine congrArg _ ((argBest_eq_iff hcells).mpr
      ⟨(wins_iff_furthest hpos).mpr hfar, fun j hj hwins => ?_⟩)
    exact hfirst _ (by omega) (hnear j hwins) ((wins_iff_furthest (hnear j hwins)).mp hwins)

theorem findObCandidate_eq (frame : List (RawBar K)) :
    findObCandidate cfg frame startPos direction =
      if (rowsNear cfg frame startPos).isEmpty then none
      else some (firstNear cfg startPos + (lastAgainst cfg frame startPos direction).getD
        (argBest (bestOf direction) ((rowsNear cfg frame startPos).map (reach direction)))) := by
  unfold findObCandidate
  dsimp only
  change (if (rowsNear cfg frame startPos).isEmpty then none else _) = _
  split_ifs with hempty
  · rfl
  · split
    · rename_i rel hfound
      have hlast : lastAgainst cfg frame startPos direction = some rel := hfound
      rw [hlast]
      rfl
    · rename_i hfound
      have hlast : lastAgainst cfg frame startPos direction = none := hfound
      rw [hlast]
      cases direction <;> rfl

/-- `_find_ob_candidate` finds the candidate. -/
theorem findObCandidate_eq_some (hstart : startPos < frame.length) :
    findObCandidate cfg frame startPos direction = some pos ↔
      IsCandidate cfg frame startPos direction pos := by
  rw [findObCandidate_eq]
  by_cases hempty : rowsNear cfg frame startPos = []
  · refine iff_of_false (by simp [hempty]) fun h => ?_
    have hlt : pos < frame.length := h.1.2.trans_lt hstart
    have hmem := mem_rowsNear.mpr ⟨pos, h.1, List.getElem?_eq_getElem hlt⟩
    rw [hempty] at hmem
    cases hmem
  · rw [if_neg (by simpa using hempty), Option.some_inj]
    cases hlast : lastAgainst cfg frame startPos direction with
    | some rel =>
        obtain ⟨hnear, hagainst, hnone⟩ := (lastAgainst_eq_some hstart).mp hlast
        rw [Option.getD_some]
        constructor
        · rintro rfl
          exact ⟨hnear, Or.inl ⟨hagainst, hnone⟩⟩
        · rintro ⟨hpos, ⟨hagainst', hnone'⟩ | ⟨hnever, -⟩⟩
          · rcases lt_trichotomy (firstNear cfg startPos + rel) pos with hlt | heq | hlt
            · exact absurd hagainst' (hnone pos hlt hpos.2)
            · exact heq
            · exact absurd hagainst (hnone' _ hlt hnear.2)
          · exact absurd hagainst (hnever _ hnear)
    | none =>
        have hnever := (lastAgainst_eq_none hstart).mp hlast
        rw [Option.getD_none, argBest_eq_furthest hstart hempty]
        constructor
        · rintro ⟨hpos, hfar, hfirst⟩
          exact ⟨hpos, Or.inr ⟨hnever, hfar, hfirst⟩⟩
        · rintro ⟨hpos, ⟨hagainst, -⟩ | ⟨-, hfar, hfirst⟩⟩
          · exact absurd hagainst (hnever pos hpos)
          · exact ⟨hpos, hfar, hfirst⟩

end

section

variable [Field K] [LinearOrder K] {lower : String → String} (cfg : SmcCoreConfig K)

/-- The body of the candle is large for the leg, and for the candle itself. -/
def LargeBody (row : RawBar K) (amplitude : K) : Prop :=
  let sub := Option.map₂ fun a b : K => a - b
  let bodyAbs := sub (pyMax row.opn row.close) (pyMin row.opn row.close)
  let fullRange := pyMax (sub row.high row.low) (some (ratio 1 1000000000))
  less bodyAbs (some (cfg.obBodyMinPct * amplitude)) = false ∧
    less (Option.map₂ (fun a b : K => a / b) bodyAbs fullRange)
      (some cfg.obBodyDominationPct) = false

/-- What a leg must pass to give a zone of this direction: its length in bars, its size, a
candle before it and an event for it. -/
structure Passes (frame : List (RawBar K)) (atr : K) (events : List (StructureEvent K))
    (direction : Direction) (leg : Leg K) : Prop where
  spans : ∃ startPos endPos, resolveLegSpan frame leg = some (startPos, endPos) ∧
    startPos < endPos ∧ ((endPos - startPos + 1 : ℕ) : ℤ) ≤ cfg.obLegMaxBars ∧
    ∃ pos row, findObCandidate cfg frame startPos direction = some pos ∧
      frame[pos]? = some row ∧ LargeBody cfg row |leg.toSwing.price - leg.fromSwing.price|
  large : ¬ (0 < atr ∧
    |leg.toSwing.price - leg.fromSwing.price| < cfg.obLegMinAtrMul * atr)
  moves : 0 < |leg.toSwing.price - leg.fromSwing.price|
  breaks : (legBreakEvent events leg direction).isSome = true

/-- The leg is looked at, short and large enough, with a break event; this row is the
candidate before it, and its candle is large enough. -/
structure GivesZone (frame : List (RawBar K)) (atr : K) (events : List (StructureEvent K))
    (direction : Direction) (leg : Leg K) (pos : ℕ) : Prop where
  labelled : legDirection leg = some direction
  forward : leg.fromSwing.index < leg.toSwing.index
  inside : leg.toSwing.index < frame.length
  short : ((leg.toSwing.index - leg.fromSwing.index + 1 : ℕ) : ℤ) ≤ cfg.obLegMaxBars
  large : ¬ (0 < atr ∧
    |leg.toSwing.price - leg.fromSwing.price| < cfg.obLegMinAtrMul * atr)
  moves : 0 < |leg.toSwing.price - leg.fromSwing.price|
  breaks : ∃ e ∈ events, e.direction = direction ∧ legSignature e.sourceLeg = legSignature leg
  candidate : IsCandidate cfg frame leg.fromSwing.index direction pos
  body : ∃ row, frame[pos]? = some row ∧
    LargeBody cfg row |leg.toSwing.price - leg.fromSwing.price|

variable {cfg} {snapshot : SmcInput K} {frame : List (RawBar K)} {utcnow : ℤ} {atr : K}
  {bias : Bias} {leg : Leg K} {direction : Direction} {events : List (StructureEvent K)}

theorem buildZoneFromRow_isSome_iff {rowPos : ℕ} {amplitude : K} {barCount : ℕ}
    {e : StructureEvent K} :
    (buildZoneFromRow lower cfg snapshot frame utcnow rowPos direction leg bias atr amplitude
        barCount e).isSome = true ↔
      ∃ row, frame[rowPos]? = some row ∧ LargeBody cfg row amplitude := by
  unfold buildZoneFromRow LargeBody
  cases frame[rowPos]? with
  | none => simp
  | some row =>
      dsimp only
      split_ifs with habs hpct
      · simp [habs]
      · simp [hpct]
      all_goals
        exact iff_of_true rfl ⟨row, rfl, Bool.eq_false_of_not_eq_true habs,
          Bool.eq_false_of_not_eq_true hpct⟩

theorem orderBlockOf_isSome_iff (hdirection : legDirection leg = some direction) :
    (orderBlockOf lower cfg snapshot frame utcnow atr bias (legBreakEvent events) leg).isSome =
      true ↔ Passes cfg frame atr events direction leg := by
  unfold orderBlockOf
  rw [hdirection]
  cases hspan : resolveLegSpan frame leg with
  | none =>
      refine iff_of_false (by simp) fun h => ?_
      obtain ⟨startPos, endPos, hsome, -⟩ := h.spans
      cases hspan.symm.trans hsome
  | some span =>
      obtain ⟨startPos, endPos⟩ := span
      have hspans : ∀ h : Passes cfg frame atr events direction leg, startPos < endPos ∧
          ((endPos - startPos + 1 : ℕ) : ℤ) ≤ cfg.obLegMaxBars ∧
          ∃ pos row, findObCandidate cfg frame startPos direction = some pos ∧
            frame[pos]? = some row ∧
            LargeBody cfg row |leg.toSwing.price - leg.fromSwing.price| := by
        intro h
        obtain ⟨startPos', endPos', hsome, hrest⟩ := h.spans
        cases hspan.symm.trans hsome
        exact hrest
      dsimp only
      split_ifs with hle hmax hsmall hzero
      · exact iff_of_false (by simp) fun h => absurd (hspans h).1 (not_lt.mpr hle)
      · exact iff_of_false (by simp) fun h => absurd (hspans h).2.1 (not_le.mpr hmax)
      · exact iff_of_false (by simp) fun h => h.large hsmall
      · exact iff_of_false (by simp) fun h => absurd h.moves (not_lt.mpr hzero)
      · cases hcandidate : findObCandidate cfg frame startPos direction with
        | none =>
            refine iff_of_false (by simp) fun h => ?_
            obtain ⟨pos, row, hpos, -⟩ := (hspans h).2.2
            cases hcandidate.symm.trans hpos
        | some pos =>
            cases hbreak : legBreakEvent events leg direction with
            | none =>
                refine iff_of_false (by simp) fun h => ?_
                have hsome := h.breaks
                rw [hbreak] at hsome
                cases hsome
            | some e =>
                dsimp only
                rw [Option.isSome_map, buildZoneFromRow_isSome_iff]
                constructor
                · rintro ⟨row, hrow, hbody⟩
                  exact
                    { spans := ⟨startPos, endPos, hspan, not_le.mp hle, not_lt.mp hmax, pos, row,
                        hcandidate, hrow, hbody⟩
                      large := hsmall
                      moves := not_le.mp hzero
                      breaks := by rw [hbreak]; rfl }
                · intro h
                  obtain ⟨pos', row, hpos', hrow, hbody⟩ := (hspans h).2.2
                  cases hcandidate.symm.trans hpos'
                  exact ⟨row, hrow, hbody⟩

omit [Field K] [LinearOrder K] in
theorem legBreakEvent_isSome_iff : (legBreakEvent events leg direction).isSome = true ↔
    ∃ e ∈ events, e.direction = direction ∧ legSignature e.sourceLeg = legSignature leg := by
  unfold legBreakEvent
  rw [List.find?_isSome]
  exact exists_congr fun e => and_congr_right fun _ => breaksLeg_iff

omit [Field K] [LinearOrder K] in
theorem resolveLegSpan_eq_some {span : ℕ × ℕ} (hle : leg.fromSwing.index ≤ leg.toSwing.index) :
    resolveLegSpan frame leg = some span ↔
      leg.toSwing.index < frame.length ∧ span = (leg.fromSwing.index, leg.toSwing.index) := by
  unfold resolveLegSpan resolvePosition
  by_cases hto : leg.toSwing.index < frame.length
  · rw [if_pos (hle.trans_lt hto), if_pos hto]
    dsimp only
    rw [min_eq_left hle, max_eq_right hle, Option.some_inj]
    exact ⟨fun h => ⟨hto, h.symm⟩, fun h => h.2.symm⟩
  · rw [if_neg hto]
    split <;> simp_all

/-- A leg that does not go back in time gives a zone from a row exactly if the rows, the leg
and the events say so. -/
theorem orderBlockOf_row_iff (hle : leg.fromSwing.index ≤ leg.toSwing.index) {pos : ℕ} :
    (∃ b, orderBlockOf lower cfg snapshot frame utcnow atr bias (legBreakEvent events) leg =
        some b) ∧ candidateOf cfg frame leg = some pos ↔
      ∃ direction, GivesZone cfg frame atr events direction leg pos := by
  constructor
  · rintro ⟨⟨b, hb⟩, hpos⟩
    obtain ⟨direction, hdirection, hcandidate⟩ := Option.bind_eq_some_iff.mp hpos
    have hpasses := (orderBlockOf_isSome_iff hdirection).mp (Option.isSome_iff_exists.mpr ⟨b, hb⟩)
    obtain ⟨startPos, endPos, hspan, hlt, hshort, pos', row, hpos', hrow, hbody⟩ := hpasses.spans
    rw [hspan, Option.bind_some] at hcandidate
    obtain ⟨hinside, hends⟩ := (resolveLegSpan_eq_some hle).mp hspan
    obtain ⟨rfl, rfl⟩ := Prod.mk.inj hends
    obtain rfl := Option.some.inj (hcandidate.symm.trans hpos')
    exact ⟨direction,
      { labelled := hdirection
        forward := hlt
        inside := hinside
        short := hshort
        large := hpasses.large
        moves := hpasses.moves
        breaks := legBreakEvent_isSome_iff.mp hpasses.breaks
        candidate := (findObCandidate_eq_some (hle.trans_lt hinside)).mp hcandidate
        body := ⟨row, hrow, hbody⟩ }⟩
  · rintro ⟨direction, h⟩
    obtain ⟨row, hrow, hbody⟩ := h.body
    have hspan : resolveLegSpan frame leg = some (leg.fromSwing.index, leg.toSwing.index) :=
      (resolveLegSpan_eq_some hle).mpr ⟨h.inside, rfl⟩
    have hcandidate := (findObCandidate_eq_some (hle.trans_lt h.inside)).mpr h.candidate
    refine ⟨Option.isSome_iff_exists.mp ((orderBlockOf_isSome_iff h.labelled).mpr
      { spans := ⟨_, _, hspan, h.forward, h.short, pos, row, hcandidate, hrow, hbody⟩
        large := h.large
        moves := h.moves
        breaks := legBreakEvent_isSome_iff.mpr h.breaks }), ?_⟩
    simp only [candidateOf, h.labelled, hspan, Option.bind_some, hcandidate]

end

end SmcPipeline.CandidateRows
