import SmcPipeline.KeyedRows
import Mathlib.Data.Prod.Lex

/-!
# Bar frames and their merge

A frame is a table of OHLCV rows keyed by `open_time` in integer milliseconds.
The optional `is_closed` column is a property of the frame, not of a row: where a
frame that has it is concatenated with one that lacks it, the missing cells are
left empty. `_dedup_sort` and `_merge_bars` are those of `data/unified_store.py`;
the cell type of the price columns is arbitrary.
-/

namespace SmcPipeline

/-- One row. `isClosed` is `none` where the cell is missing. -/
structure Bar (α : Type*) where
  openTime : ℤ
  opn : α
  high : α
  low : α
  close : α
  volume : α
  closeTime : ℤ
  isClosed : Option Bool
deriving DecidableEq, Repr

structure Frame (α : Type*) where
  /-- `"is_closed" in df.columns` -/
  hasClosed : Bool
  rows : List (Bar α)
deriving DecidableEq, Repr

namespace Frame

open KeyedRows

variable {α : Type*}

def isEmpty (f : Frame α) : Bool := f.rows.isEmpty

def openTimes (f : Frame α) : List ℤ := f.rows.map Bar.openTime

/-- The row held for an open time, the first one if there are several. -/
def rowAt (f : Frame α) (t : ℤ) : Option (Bar α) := firstOf Bar.openTime t f.rows

def tail (f : Frame α) (limit : ℕ) : Frame α :=
  { f with rows := f.rows.drop (f.rows.length - limit) }

/-- `df.iloc[-1]` as a frame of one row. -/
def lastBar (f : Frame α) : Option (Frame α) :=
  if f.isEmpty then none else some (f.tail 1)

/-- Cells of a column the frame lacks are missing in the concatenation. -/
def padClosed (present : Bool) (rows : List (Bar α)) : List (Bar α) :=
  if present then rows else rows.map fun r => { r with isClosed := none }

def concat (a b : Frame α) : Frame α where
  hasClosed := a.hasClosed || b.hasClosed
  rows := padClosed a.hasClosed a.rows ++ padClosed b.hasClosed b.rows

/-- `False < True`, missing cells last. -/
def closedRank : Option Bool → ℕ
  | some false => 0
  | some true => 1
  | none => 2

/-- Sort key of `sort_values(["open_time", "is_closed"])`. -/
def closedKey (r : Bar α) : ℤ ×ₗ ℕ := toLex (r.openTime, closedRank r.isClosed)

/-- `sort_values(["open_time", "is_closed"]).drop_duplicates(keep="last")`, the
upsert in which a closed row wins over an open one. -/
def upsertClosed (f : Frame α) : Frame α :=
  { f with rows := keepLast Bar.openTime (sortBy closedKey f.rows) }

def dedupSort (f : Frame α) : Frame α :=
  if f.hasClosed then f.upsertClosed
  else { f with rows := sortBy Bar.openTime (keepFirst Bar.openTime f.rows) }

/-- The general path of `_merge_bars`. -/
def mergeGeneral (current new : Frame α) : Frame α :=
  if new.isEmpty then current.dedupSort
  else
    let cat := current.concat new
    (if cat.hasClosed then cat.upsertClosed else cat).dedupSort

/-- The fast path is taken when the new rows start strictly after the last one. -/
def mergeBars (current : Option (Frame α)) (new : Frame α) : Frame α :=
  match current with
  | none => new.dedupSort
  | some cur =>
    if cur.isEmpty then new.dedupSort
    else match cur.rows.getLast?, new.rows.head? with
      | some last, some first =>
        if last.openTime < first.openTime then (cur.concat new).dedupSort
        else cur.mergeGeneral new
      | _, _ => cur.mergeGeneral new

@[simp] theorem dedupSort_hasClosed (f : Frame α) : f.dedupSort.hasClosed = f.hasClosed := by
  unfold dedupSort
  split_ifs with h <;> simp [upsertClosed, h]

@[simp] theorem openTimes_nil (hasClosed : Bool) :
    (⟨hasClosed, []⟩ : Frame α).openTimes = [] := rfl

theorem openTimes_eq_nil_iff (f : Frame α) : f.openTimes = [] ↔ f.isEmpty = true := by
  simp [openTimes, isEmpty]

theorem mem_openTimes_iff (f : Frame α) (t : ℤ) : t ∈ f.openTimes ↔ (f.rowAt t).isSome :=
  (firstOf_isSome Bar.openTime).symm

@[simp] theorem padClosed_openTimes (present : Bool) (rows : List (Bar α)) :
    (padClosed present rows).map Bar.openTime = rows.map Bar.openTime := by
  cases present <;> simp [padClosed]

@[simp] theorem concat_openTimes (a b : Frame α) :
    (a.concat b).openTimes = a.openTimes ++ b.openTimes := by
  simp [openTimes, concat]

@[simp] theorem mem_openTimes_upsertClosed (f : Frame α) (t : ℤ) :
    t ∈ f.upsertClosed.openTimes ↔ t ∈ f.openTimes := by
  simp only [openTimes, upsertClosed]
  rw [mem_keepLast_keys]
  exact ((sortBy_perm closedKey f.rows).map Bar.openTime).mem_iff

@[simp] theorem mem_openTimes_dedupSort (f : Frame α) (t : ℤ) :
    t ∈ f.dedupSort.openTimes ↔ t ∈ f.openTimes := by
  unfold dedupSort
  split_ifs
  · exact mem_openTimes_upsertClosed f t
  · simp only [openTimes, List.mem_map, mem_sortBy]
    simpa [openTimes] using mem_keepFirst_keys Bar.openTime t f.rows

theorem mem_openTimes_mergeGeneral (current new : Frame α) (t : ℤ) :
    t ∈ (current.mergeGeneral new).openTimes ↔ t ∈ current.openTimes ∨ t ∈ new.openTimes := by
  unfold mergeGeneral
  split_ifs with he
  · have hnew : new.openTimes = [] := by
      simpa [isEmpty, openTimes] using he
    simp [hnew]
  · dsimp only
    split_ifs <;> simp

def openTimes? (f : Option (Frame α)) : List ℤ := (f.map openTimes).getD []

@[simp] theorem openTimes?_none : openTimes? (none : Option (Frame α)) = [] := rfl

@[simp] theorem openTimes?_some (f : Frame α) : openTimes? (some f) = f.openTimes := rfl

/-- Merging loses no open time of either frame and invents none. -/
theorem mem_openTimes_mergeBars (current : Option (Frame α)) (new : Frame α) (t : ℤ) :
    t ∈ (mergeBars current new).openTimes ↔ t ∈ openTimes? current ∨ t ∈ new.openTimes := by
  cases current with
  | none => simp [mergeBars]
  | some cur =>
      simp only [mergeBars, openTimes?_some]
      split_ifs with he
      · have hcur : cur.openTimes = [] := (openTimes_eq_nil_iff cur).mpr he
        simp [hcur]
      · split
        · split_ifs
          · simp
          · exact mem_openTimes_mergeGeneral cur new t
        · exact mem_openTimes_mergeGeneral cur new t

theorem padClosed_false_eq {rows : List (Bar α)} (h : ∀ r ∈ rows, r.isClosed = none) :
    padClosed false rows = rows := by
  simp only [padClosed, Bool.false_eq_true, if_false]
  conv_rhs => rw [← List.map_id rows]
  refine List.map_congr_left fun r hr => ?_
  simp only [id_eq]
  rw [← h r hr]

/-- No `is_closed` column: its cells are missing in every row. -/
structure Plain (f : Frame α) : Prop where
  absent : f.hasClosed = false
  cells : ∀ r ∈ f.rows, r.isClosed = none

theorem rowAt_eq_none_of_isEmpty {f : Frame α} (h : f.isEmpty = true) (t : ℤ) :
    f.rowAt t = none := by
  rw [← Option.not_isSome_iff_eq_none, ← mem_openTimes_iff, (openTimes_eq_nil_iff f).mpr h]
  exact List.not_mem_nil

theorem rowAt_dedupSort {f : Frame α} (h : f.hasClosed = false) (t : ℤ) :
    f.dedupSort.rowAt t = f.rowAt t := by
  simp only [dedupSort, h, Bool.false_eq_true, if_false, rowAt]
  rw [firstOf_sortBy Bar.openTime (keepFirst_nodup Bar.openTime f.rows), firstOf_keepFirst]

theorem plain_dedupSort {f : Frame α} (h : f.Plain) : f.dedupSort.Plain where
  absent := by simp [h.absent]
  cells r hr := by
    simp only [dedupSort, h.absent, Bool.false_eq_true, if_false, mem_sortBy] at hr
    exact h.cells r ((keepFirst_sublist Bar.openTime f.rows).subset hr)

theorem concat_eq {a b : Frame α} (ha : a.Plain) (hb : b.Plain) :
    a.concat b = ⟨false, a.rows ++ b.rows⟩ := by
  simp only [concat, ha.absent, hb.absent, padClosed_false_eq ha.cells,
    padClosed_false_eq hb.cells, Bool.or_self]

theorem plain_concat {a b : Frame α} (ha : a.Plain) (hb : b.Plain) : (a.concat b).Plain := by
  rw [concat_eq ha hb]
  refine ⟨rfl, fun r hr => ?_⟩
  rcases List.mem_append.mp hr with hr | hr
  · exact ha.cells r hr
  · exact hb.cells r hr

theorem rowAt_concat {a b : Frame α} (ha : a.Plain) (hb : b.Plain) (t : ℤ) :
    (a.concat b).rowAt t = (a.rowAt t).or (b.rowAt t) := by
  rw [concat_eq ha hb]
  exact firstOf_append Bar.openTime t a.rows b.rows

/-- Without the column a merge is one of two things. -/
theorem mergeBars_eq {cur new : Frame α} (hc : cur.Plain) (hn : new.Plain) :
    (cur.isEmpty = true ∧ mergeBars (some cur) new = new.dedupSort) ∨
      (new.isEmpty = true ∧ mergeBars (some cur) new = cur.dedupSort) ∨
      mergeBars (some cur) new = (cur.concat new).dedupSort := by
  have hgeneral : (new.isEmpty = true ∧ cur.mergeGeneral new = cur.dedupSort) ∨
      cur.mergeGeneral new = (cur.concat new).dedupSort := by
    unfold mergeGeneral
    split_ifs with he
    · exact Or.inl ⟨he, rfl⟩
    · right
      simp only [(plain_concat hc hn).absent, Bool.false_eq_true, if_false]
  unfold mergeBars
  dsimp only
  split_ifs with he
  · exact Or.inl ⟨he, rfl⟩
  · split
    · split_ifs
      · exact Or.inr (Or.inr rfl)
      · exact Or.inr hgeneral
    · exact Or.inr hgeneral

theorem plain_mergeBars {current : Option (Frame α)} {new : Frame α}
    (hc : ∀ cur, current = some cur → cur.Plain) (hn : new.Plain) :
    (mergeBars current new).Plain := by
  cases current with
  | none => exact plain_dedupSort hn
  | some cur =>
      have hcur := hc cur rfl
      rcases mergeBars_eq hcur hn with ⟨-, h⟩ | ⟨-, h⟩ | h
      · exact h ▸ plain_dedupSort hn
      · exact h ▸ plain_dedupSort hcur
      · exact h ▸ plain_dedupSort (plain_concat hcur hn)

/-- The row held for an open time wins over the new one. -/
theorem rowAt_mergeBars {current : Option (Frame α)} {new : Frame α}
    (hc : ∀ cur, current = some cur → cur.Plain) (hn : new.Plain) (t : ℤ) :
    (mergeBars current new).rowAt t = (current.bind fun cur => cur.rowAt t).or (new.rowAt t) := by
  cases current with
  | none => exact rowAt_dedupSort hn.absent t
  | some cur =>
      have hcur := hc cur rfl
      simp only [Option.bind_some]
      rcases mergeBars_eq hcur hn with ⟨he, h⟩ | ⟨he, h⟩ | h
      · rw [h, rowAt_dedupSort hn.absent, rowAt_eq_none_of_isEmpty he, Option.none_or]
      · rw [h, rowAt_dedupSort hcur.absent, rowAt_eq_none_of_isEmpty he, Option.or_none]
      · rw [h, rowAt_dedupSort (plain_concat hcur hn).absent, rowAt_concat hcur hn]

end Frame

end SmcPipeline
