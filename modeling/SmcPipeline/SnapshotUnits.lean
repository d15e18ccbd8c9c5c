import SmcPipeline.SnapshotFile
import SmcPipeline.Calendar
import Mathlib.Data.List.GetD

/-!
# The units of the times in a snapshot

`_postfix_df` takes the unit of a time column from the magnitude of its median. The present is
far enough from 1970 that a time of the last 400 days or the next 12 hours has a magnitude of its
own in each unit, and the milliseconds that come out are taken for milliseconds again. The source
rounds the median to a float; no median of such times is near a bound.
-/

namespace SmcPipeline.SnapshotUnits

open SnapshotFile

inductive TimeUnit
  | seconds
  | milliseconds
  | microseconds
  | nanoseconds
deriving DecidableEq, Repr

/-- The nanoseconds of a unit. -/
def TimeUnit.nanos : TimeUnit → ℤ
  | .seconds => 10 ^ 9
  | .milliseconds => 10 ^ 6
  | .microseconds => 10 ^ 3
  | .nanoseconds => 1

/-- A time in whole milliseconds, the rest cut off. -/
def inMillis (unit : TimeUnit) (value : ℤ) : ℤ := value * unit.nanos / 10 ^ 6

/-- The clock, in nanoseconds, shows a time of the years from 2003 to 2200. -/
def InPresent (now : ℤ) : Prop := 1041379200 * 10 ^ 9 ≤ now ∧ now < 7289654400 * 10 ^ 9

example : Calendar.secondsOf ⟨2003, 1, 1, 0, 0, 0⟩ = 1041379200 ∧
    Calendar.secondsOf ⟨2201, 1, 1, 0, 0, 0⟩ = 7289654400 := by decide

/-- `[now - 400 d, now + 12 h]` in nanoseconds -/
def Recent (now instant : ℤ) : Prop :=
  now - 400 * 24 * 3600 * 10 ^ 9 ≤ instant ∧ instant ≤ now + 12 * 3600 * 10 ^ 9

/-- The window of `_postfix_df`, in milliseconds. -/
def InWindow (nowMs ms : ℤ) : Prop :=
  nowMs - 400 * 24 * 3600 * 1000 ≤ ms ∧ ms ≤ nowMs + 12 * 3600 * 1000

/-- A clock in milliseconds of these years. -/
def InPresentMs (nowMs : ℤ) : Prop := 1041379200 * 1000 ≤ nowMs ∧ nowMs < 7289654400 * 1000

theorem inWindow_of_recent {now value : ℤ} {unit : TimeUnit}
    (h : Recent now (value * unit.nanos)) : InWindow (now / 10 ^ 6) (inMillis unit value) := by
  unfold Recent at h
  unfold InWindow inMillis
  omega

theorem inPresentMs_of_inPresent {now : ℤ} (h : InPresent now) : InPresentMs (now / 10 ^ 6) := by
  unfold InPresent at h
  unfold InPresentMs
  omega

/-- A median lies between any bounds of the values. -/
theorem median2_bounds {xs : List ℤ} {nanos lo hi : ℤ} (hxs : xs ≠ [])
    (h : ∀ x ∈ xs, lo ≤ x * nanos ∧ x * nanos ≤ hi) :
    2 * lo ≤ median2 xs * nanos ∧ median2 xs * nanos ≤ 2 * hi := by
  have hpos : 0 < xs.length := List.length_pos_iff.mpr hxs
  have hlength : (KeyedRows.sortBy id xs).length = xs.length :=
    (KeyedRows.sortBy_perm id xs).length_eq
  have hcell : ∀ i, i < xs.length → lo ≤ (KeyedRows.sortBy id xs).getD i 0 * nanos ∧
      (KeyedRows.sortBy id xs).getD i 0 * nanos ≤ hi := by
    intro i hi
    rw [List.getD_eq_getElem _ _ (hlength ▸ hi)]
    exact h _ ((KeyedRows.mem_sortBy id).mp (List.getElem_mem _))
  have hleft := hcell ((xs.length - 1) / 2) (by omega)
  have hright := hcell (xs.length / 2) (by omega)
  unfold median2
  dsimp only
  rw [add_mul]
  omega

/-- A column of recent times is turned into milliseconds. -/
theorem toMillis_median2 {nowMs : ℤ} (hnow : InPresentMs nowMs) {unit : TimeUnit} {xs : List ℤ}
    (h : ∀ x ∈ xs, InWindow nowMs (inMillis unit x)) {x : ℤ} (hx : x ∈ xs) :
    toMillis (median2 xs) x = inMillis unit x := by
  obtain ⟨hlow, hhigh⟩ := hnow
  have hbounds : ∀ x ∈ xs, 1006819200 * 10 ^ 9 ≤ x * unit.nanos ∧
      x * unit.nanos ≤ 7289697600 * 10 ^ 9 + 999999 := by
    intro x hx
    have hwindow := h x hx
    unfold InWindow inMillis at hwindow
    omega
  have hmedian := median2_bounds (List.ne_nil_of_mem hx) hbounds
  unfold toMillis inMillis
  cases unit <;> simp only [TimeUnit.nanos] at hmedian ⊢ <;> split_ifs <;> omega

variable {α : Type*}

/-- A row with its times in milliseconds. -/
def rowInMillis (openUnit closeUnit : TimeUnit) (r : Bar α) : Bar α :=
  { r with openTime := inMillis openUnit r.openTime, closeTime := inMillis closeUnit r.closeTime }

/-- The times of the columns are in the window. -/
def TimesInWindow (nowMs : ℤ) (openUnit closeUnit : TimeUnit) (rows : List (Bar α)) : Prop :=
  ∀ r ∈ rows, InWindow nowMs (inMillis openUnit r.openTime) ∧
    InWindow nowMs (inMillis closeUnit r.closeTime)

theorem normalizeTimes_eq {nowMs : ℤ} (hnow : InPresentMs nowMs) {openUnit closeUnit : TimeUnit}
    {rows : List (Bar α)} (h : TimesInWindow nowMs openUnit closeUnit rows) :
    normalizeTimes rows = rows.map (rowInMillis openUnit closeUnit) := by
  refine List.map_congr_left fun r hr => ?_
  have hopen : toMillis (median2 (rows.map Bar.openTime)) r.openTime =
      inMillis openUnit r.openTime :=
    toMillis_median2 hnow (List.forall_mem_map.mpr fun q hq => (h q hq).1) (List.mem_map_of_mem hr)
  have hclose : toMillis (median2 (rows.map Bar.closeTime)) r.closeTime =
      inMillis closeUnit r.closeTime :=
    toMillis_median2 hnow (List.forall_mem_map.mpr fun q hq => (h q hq).2) (List.mem_map_of_mem hr)
  rw [hopen, hclose]
  rfl

/-- No row is dropped, and the times are in milliseconds. -/
theorem postfixDf_eq {nowMs : ℤ} (hnow : InPresentMs nowMs) {openUnit closeUnit : TimeUnit}
    {f : Frame α} (hf : f.isEmpty = false) (h : TimesInWindow nowMs openUnit closeUnit f.rows) :
    postfixDf nowMs f = { f with rows := f.rows.map (rowInMillis openUnit closeUnit) } := by
  have hwindow : ∀ r ∈ f.rows.map (rowInMillis openUnit closeUnit), inWindow nowMs r = true := by
    refine List.forall_mem_map.mpr fun r hr => ?_
    obtain ⟨hlow, hhigh⟩ := (h r hr).1
    unfold inWindow
    rw [Bool.and_eq_true, decide_eq_true_eq, decide_eq_true_eq]
    exact ⟨hlow, hhigh⟩
  unfold postfixDf
  rw [if_neg (by rw [hf]; decide)]
  dsimp only
  rw [normalizeTimes_eq hnow h, List.filter_eq_self.mpr hwindow]
  split_ifs <;> rfl

theorem inMillis_inMillis (unit : TimeUnit) (value : ℤ) :
    inMillis .milliseconds (inMillis unit value) = inMillis unit value :=
  Int.mul_ediv_cancel _ (by decide)

theorem rowInMillis_rowInMillis (openUnit closeUnit : TimeUnit) (r : Bar α) :
    rowInMillis .milliseconds .milliseconds (rowInMillis openUnit closeUnit r) =
      rowInMillis openUnit closeUnit r := by
  simp only [rowInMillis, inMillis_inMillis]

/-- The times of a column are recent. -/
def ColumnRecent (now : ℤ) (unit : TimeUnit) (time : Bar α → ℤ) (rows : List (Bar α)) : Prop :=
  ∀ r ∈ rows, Recent now (time r * unit.nanos)

theorem timesInWindow_of_recent {now : ℤ} {openUnit closeUnit : TimeUnit} {rows : List (Bar α)}
    (hopen : ColumnRecent now openUnit Bar.openTime rows)
    (hclose : ColumnRecent now closeUnit Bar.closeTime rows) :
    TimesInWindow (now / 10 ^ 6) openUnit closeUnit rows := fun r hr =>
  ⟨inWindow_of_recent (hopen r hr), inWindow_of_recent (hclose r hr)⟩

/-- A recent time lies between 2001-11-27 and 2201-01-01. -/
theorem nanos_bounds {now x : ℤ} (hnow : InPresent now) {unit : TimeUnit}
    (h : Recent now (x * unit.nanos)) :
    1006819200 * 10 ^ 9 ≤ x * unit.nanos ∧ x * unit.nanos ≤ 7289697600 * 10 ^ 9 := by
  obtain ⟨hlow, hhigh⟩ := hnow
  unfold Recent at h
  omega

/-- In a unit a thousand times as long, or longer, a recent time is no timestamp. -/
theorem isStamp_coarser {now x k : ℤ} (hnow : InPresent now) {unit : TimeUnit}
    (h : Recent now (x * unit.nanos)) (hk : 1000 ≤ k) : isStamp (x * (k * unit.nanos)) = false := by
  obtain ⟨hlow, -⟩ := nanos_bounds hnow h
  have hbig : 1000 * (1006819200 * 10 ^ 9) ≤ k * (x * unit.nanos) :=
    mul_le_mul hk hlow (by decide) (by omega)
  unfold isStamp
  rw [mul_left_comm x k unit.nanos, Bool.and_eq_false_iff, decide_eq_false_iff_not,
    decide_eq_false_iff_not]
  omega

/-- A column of recent times is taken for dates of its unit. -/
theorem dateUnit_eq {now : ℤ} (hnow : InPresent now) {unit : TimeUnit} {xs : List ℤ} (hxs : xs ≠ [])
    (h : ∀ x ∈ xs, Recent now (x * unit.nanos)) : dateUnit xs = unit.nanos := by
  have hlarge : (xs.all fun x => decide (31536000 < x)) = true := by
    refine List.all_eq_true.mpr fun x hx => decide_eq_true ?_
    have hx := nanos_bounds hnow (h x hx)
    cases unit <;> simp only [TimeUnit.nanos] at hx <;> omega
  have hfits : (xs.all fun x => isStamp (x * unit.nanos)) = true := by
    refine List.all_eq_true.mpr fun x hx => ?_
    have hx := nanos_bounds hnow (h x hx)
    unfold isStamp
    rw [Bool.and_eq_true, decide_eq_true_eq, decide_eq_true_eq]
    omega
  have hcoarser : ∀ k : ℤ, 1000 ≤ k → (xs.all fun x => isStamp (x * (k * unit.nanos))) = false := by
    intro k hk
    obtain ⟨x, hx⟩ := List.exists_mem_of_ne_nil xs hxs
    refine List.all_eq_false.mpr ⟨x, hx, ?_⟩
    rw [isStamp_coarser hnow (h x hx) hk]
    exact Bool.false_ne_true
  unfold dateUnit stampUnits
  rw [if_pos hlarge]
  set fits : ℤ → Bool := fun unit => xs.all fun x => isStamp (x * unit)
  cases unit with
  | seconds =>
      rw [List.find?_cons_of_pos (p := fits) (a := 10 ^ 9) hfits, Option.getD_some, TimeUnit.nanos]
  | milliseconds =>
      have hseconds : fits (10 ^ 9) = false := hcoarser 1000 (by decide)
      rw [List.find?_cons_of_neg (p := fits) (by rw [hseconds]; decide),
        List.find?_cons_of_pos (p := fits) (a := 10 ^ 6) hfits, Option.getD_some, TimeUnit.nanos]
  | microseconds =>
      have hseconds : fits (10 ^ 9) = false := hcoarser 1000000 (by decide)
      have hmillis : fits (10 ^ 6) = false := hcoarser 1000 (by decide)
      rw [List.find?_cons_of_neg (p := fits) (by rw [hseconds]; decide),
        List.find?_cons_of_neg (p := fits) (by rw [hmillis]; decide),
        List.find?_cons_of_pos (p := fits) (a := 10 ^ 3) hfits, Option.getD_some, TimeUnit.nanos]
  | nanoseconds =>
      have hseconds : fits (10 ^ 9) = false := hcoarser 1000000000 (by decide)
      have hmillis : fits (10 ^ 6) = false := hcoarser 1000000 (by decide)
      have hmicros : fits (10 ^ 3) = false := hcoarser 1000 (by decide)
      rw [List.find?_cons_of_neg (p := fits) (by rw [hseconds]; decide),
        List.find?_cons_of_neg (p := fits) (by rw [hmillis]; decide),
        List.find?_cons_of_neg (p := fits) (by rw [hmicros]; decide),
        List.find?_cons_of_pos (p := fits) (a := 1) hfits, Option.getD_some, TimeUnit.nanos]

/-- A file with recent times is read in milliseconds, in whatever units its columns are. -/
theorem loadBars_eq {now : ℤ} (hnow : InPresent now) {openUnit closeUnit : TimeUnit} {f : Frame α}
    (hf : f.isEmpty = false) (hopen : ColumnRecent now openUnit Bar.openTime f.rows)
    (hclose : ColumnRecent now closeUnit Bar.closeTime f.rows) :
    loadBars (now / 10 ^ 6) (some f) =
      some { f with rows := f.rows.map (rowInMillis openUnit closeUnit) } := by
  have hrows : f.rows ≠ [] := by
    rintro hnil
    simp [Frame.isEmpty, hnil] at hf
  have hread : readJson f = { f with
      rows := f.rows.map fun r => { r with
        openTime := r.openTime * openUnit.nanos
        closeTime := r.closeTime * closeUnit.nanos } } := by
    unfold readJson
    rw [dateUnit_eq hnow (by simpa using hrows) (List.forall_mem_map.mpr hopen),
      dateUnit_eq hnow (by simpa using hrows) (List.forall_mem_map.mpr hclose)]
  have hwindow : TimesInWindow (now / 10 ^ 6) .nanoseconds .nanoseconds (readJson f).rows := by
    rw [hread]
    refine timesInWindow_of_recent (List.forall_mem_map.mpr fun r hr => ?_)
      (List.forall_mem_map.mpr fun r hr => ?_)
    · simpa [TimeUnit.nanos] using hopen r hr
    · simpa [TimeUnit.nanos] using hclose r hr
  have hne : (readJson f).isEmpty = false := by
    rw [hread]
    unfold Frame.isEmpty at hf ⊢
    rw [List.isEmpty_map, hf]
  rw [loadBars, Option.map_some, postfixDf_eq (inPresentMs_of_inPresent hnow) hne hwindow, hread,
    List.map_map]
  refine congrArg some (congrArg _ (List.map_congr_left fun r _ => ?_))
  simp [rowInMillis, inMillis, TimeUnit.nanos]

/-- Recent times come out in milliseconds, in whatever units the columns are, and no row is
dropped. Read again while they are recent, they are left as they are. -/
theorem units_recovered {now : ℤ} (hnow : InPresent now) (openUnit closeUnit : TimeUnit)
    {f : Frame α} (hf : f.isEmpty = false)
    (hopen : ColumnRecent now openUnit Bar.openTime f.rows)
    (hclose : ColumnRecent now closeUnit Bar.closeTime f.rows) :
    postfixDf (now / 10 ^ 6) f =
        { f with rows := f.rows.map (rowInMillis openUnit closeUnit) } ∧
      ∀ later, InPresent later → ColumnRecent later openUnit Bar.openTime f.rows →
        ColumnRecent later closeUnit Bar.closeTime f.rows →
        postfixDf (later / 10 ^ 6) (postfixDf (now / 10 ^ 6) f) = postfixDf (now / 10 ^ 6) f := by
  have hfirst := postfixDf_eq (inPresentMs_of_inPresent hnow) hf
    (timesInWindow_of_recent hopen hclose)
  refine ⟨hfirst, fun later hlater hopen' hclose' => ?_⟩
  have hwindow := timesInWindow_of_recent hopen' hclose'
  have hagain : TimesInWindow (later / 10 ^ 6) .milliseconds .milliseconds
      (f.rows.map (rowInMillis openUnit closeUnit)) := by
    refine List.forall_mem_map.mpr fun r hr => ?_
    simp only [rowInMillis, inMillis_inMillis]
    exact hwindow r hr
  have hne : ({ f with rows := f.rows.map (rowInMillis openUnit closeUnit) } : Frame α).isEmpty =
      false := by
    unfold Frame.isEmpty at hf ⊢
    rw [List.isEmpty_map, hf]
  rw [hfirst, postfixDf_eq (inPresentMs_of_inPresent hlater) hne hagain, List.map_map]
  congr 1
  exact List.map_congr_left fun r _ => rowInMillis_rowInMillis openUnit closeUnit r

/-- A snapshot of 2024 with its opening times in seconds and its closing times in nanoseconds. -/
def mixedSnapshot : Frame ℤ := ⟨false, [⟨1704067200, 1, 1, 1, 1, 1, 1704067259999999999, none⟩]⟩

theorem mixed_units_recovered :
    postfixDf (1704110400000000000 / 10 ^ 6) mixedSnapshot =
        ⟨false, [⟨1704067200000, 1, 1, 1, 1, 1, 1704067259999, none⟩]⟩ ∧
      postfixDf (1704110400000000000 / 10 ^ 6)
          (postfixDf (1704110400000000000 / 10 ^ 6) mixedSnapshot) =
        postfixDf (1704110400000000000 / 10 ^ 6) mixedSnapshot := by
  have hnow : InPresent 1704110400000000000 := by
    unfold InPresent
    decide
  have hopen : ColumnRecent 1704110400000000000 .seconds Bar.openTime mixedSnapshot.rows :=
    List.forall_mem_singleton.mpr (by unfold Recent; decide)
  have hclose : ColumnRecent 1704110400000000000 .nanoseconds Bar.closeTime mixedSnapshot.rows :=
    List.forall_mem_singleton.mpr (by unfold Recent; decide)
  obtain ⟨hfirst, hagain⟩ :=
    units_recovered hnow .seconds .nanoseconds (f := mixedSnapshot) rfl hopen hclose
  exact ⟨hfirst, hagain _ hnow hopen hclose⟩

end SmcPipeline.SnapshotUnits
