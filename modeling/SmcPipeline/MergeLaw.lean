import SmcPipeline.Frames
import SmcPipeline.Upserts

/-!
# The law of a merge

`_merge_bars` has a path for rows that start after the last one, a general path that
removes duplicates twice, and two policies for duplicates. They amount to one upsert
of the held rows followed by the new ones.
-/

namespace SmcPipeline

open KeyedRows

namespace Frame

variable {α : Type*}

/-- Both frames have the `is_closed` column or neither has it. -/
def SameColumns (a b : Frame α) : Prop :=
  (a.hasClosed = true ∧ b.hasClosed = true) ∨ (a.Plain ∧ b.Plain)

/-- All that a merge is given, the held rows first. -/
def supplied (current : Option (Frame α)) (new : Frame α) : Frame α :=
  match current with
  | none => new
  | some cur => cur.concat new

def closedOf (r : Bar α) : ℕ := closedRank r.isClosed

theorem SameColumns.concat_eq {a b : Frame α} (h : SameColumns a b) :
    a.concat b = ⟨b.hasClosed, a.rows ++ b.rows⟩ := by
  rcases h with ⟨ha, hb⟩ | ⟨ha, hb⟩
  · simp [concat, padClosed, ha, hb]
  · rw [Frame.concat_eq ha hb, hb.absent]

theorem SameColumns.hasClosed_eq {a b : Frame α} (h : SameColumns a b) :
    a.hasClosed = b.hasClosed := by
  rcases h with ⟨ha, hb⟩ | ⟨ha, hb⟩
  · rw [ha, hb]
  · rw [ha.absent, hb.absent]

theorem dedupSort_rows (f : Frame α) : f.dedupSort.rows =
    if f.hasClosed then keepLast Bar.openTime (sortBy (byRank Bar.openTime closedOf) f.rows)
    else sortBy Bar.openTime (keepFirst Bar.openTime f.rows) := by
  unfold dedupSort
  split_ifs <;> rfl

/-- Once the duplicates are removed, removing them again changes nothing. -/
theorem dedupSort_upsertClosed {f : Frame α} (h : f.hasClosed = true) :
    f.upsertClosed.dedupSort = f.dedupSort := by
  have hnormal := (upsert_keepLast Bar.openTime (closedOf (α := α))).normal_normal f.rows
  have hf : f.upsertClosed.hasClosed = true := h
  simp only [dedupSort, hf, h, if_true]
  simp only [upsertClosed]
  exact congrArg (Frame.mk f.hasClosed) hnormal

theorem mergeGeneral_eq {cur new : Frame α} (h : SameColumns cur new) :
    cur.mergeGeneral new = (cur.concat new).dedupSort := by
  unfold mergeGeneral
  split_ifs with he
  · have hnew : new.rows = [] := by simpa [isEmpty] using he
    rw [h.concat_eq, hnew, List.append_nil, ← h.hasClosed_eq]
  · dsimp only
    split_ifs with hclosed
    · exact dedupSort_upsertClosed hclosed
    · rfl

theorem mergeBars_eq_dedupSort {current : Option (Frame α)} {new : Frame α}
    (h : ∀ cur ∈ current, SameColumns cur new) :
    mergeBars current new = (supplied current new).dedupSort := by
  cases current with
  | none => rfl
  | some cur =>
      have hcur := h cur rfl
      simp only [mergeBars, supplied]
      split_ifs with he
      · have hrows : cur.rows = [] := by simpa [isEmpty] using he
        rw [hcur.concat_eq, hrows, List.nil_append]
      · split
        · split_ifs
          · rfl
          · exact mergeGeneral_eq hcur
        · exact mergeGeneral_eq hcur

theorem supplied_hasClosed {current : Option (Frame α)} {new : Frame α}
    (h : ∀ cur ∈ current, SameColumns cur new) :
    (supplied current new).hasClosed = new.hasClosed := by
  cases current with
  | none => rfl
  | some cur => rw [supplied, (h cur rfl).concat_eq]

theorem increasing_dedupSort (f : Frame α) :
    f.dedupSort.rows.Pairwise fun a b => a.openTime < b.openTime := by
  rw [dedupSort_rows]
  split_ifs
  · exact increasing_keepLast Bar.openTime closedOf f.rows
  · exact increasing_keepFirst Bar.openTime f.rows

/-- Both paths of a merge are one `_dedup_sort` of the held rows and the new ones; the open
times are those of both in increasing order; with `is_closed` the row of an open time is the
last of those with the highest status, without it the first one supplied. -/
theorem merge_law (current : Option (Frame α)) (new : Frame α)
    (h : ∀ cur ∈ current, SameColumns cur new) :
    mergeBars current new = (supplied current new).dedupSort ∧
      (∀ cur ∈ current, cur.mergeGeneral new = (cur.concat new).dedupSort) ∧
      ((mergeBars current new).rows.Pairwise fun a b => a.openTime < b.openTime) ∧
      (∀ t, t ∈ (mergeBars current new).openTimes ↔
        t ∈ openTimes? current ∨ t ∈ new.openTimes) ∧
      (new.hasClosed = true → ∀ r, r ∈ (mergeBars current new).rows ↔
        Wins Bar.openTime closedOf (supplied current new).rows r) ∧
      (new.hasClosed = false → ∀ r, r ∈ (mergeBars current new).rows ↔
        Leads Bar.openTime (supplied current new).rows r) := by
  have hmerge := mergeBars_eq_dedupSort h
  refine ⟨hmerge, fun cur hcur => mergeGeneral_eq (h cur hcur), ?_,
    mem_openTimes_mergeBars current new, fun hclosed r => ?_, fun hplain r => ?_⟩
  · rw [hmerge]
    exact increasing_dedupSort _
  · rw [hmerge, dedupSort_rows, supplied_hasClosed h, hclosed, if_pos rfl, mem_upsert_keepLast]
  · rw [hmerge, dedupSort_rows, supplied_hasClosed h, hplain, if_neg Bool.false_ne_true,
      mem_upsert_keepFirst]

/-- An open row held, then its closed version and a late open one with it: the closed row stays. -/
theorem merge_law_closed :
    (⟨60, 1, 1, 1, 2, 5, 119, some true⟩ : Bar ℤ) ∈
      (mergeBars (some ⟨true, [⟨60, 1, 1, 1, 1, 4, 119, some false⟩]⟩)
        ⟨true, [⟨60, 1, 1, 1, 2, 5, 119, some true⟩, ⟨60, 1, 1, 1, 3, 6, 119, some false⟩]⟩).rows := by
  refine ((merge_law _ _ fun cur hcur => ?_).2.2.2.2.1 rfl _).mpr
    ⟨[⟨60, 1, 1, 1, 1, 4, 119, some false⟩], [⟨60, 1, 1, 1, 3, 6, 119, some false⟩], rfl, ?_, ?_⟩
  · cases hcur
    exact Or.inl ⟨rfl, rfl⟩
  · decide
  · decide

end Frame

end SmcPipeline
