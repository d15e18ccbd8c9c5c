import Mathlib.Algebra.Order.Ring.Int

/-!
# Calendar times as text

The proleptic Gregorian calendar over days counted from 1970-01-01: a count of seconds as a
date and a time of day, its text of fixed width, and the way back. Years are taken to start
in March, so that the leap day is the last day of its year.
-/

namespace SmcPipeline

structure CivilTime where
  year : ℤ
  month : ℤ
  day : ℤ
  hour : ℤ
  minute : ℤ
  second : ℤ
deriving DecidableEq, Repr

namespace Calendar

/-- The years of a cycle of 400 that are over on a day of it. -/
def yearOfEra (day : ℤ) : ℤ :=
  let century := min (day / 36524) 3
  let dayOfCentury := day - 36524 * century
  let leapCycle := dayOfCentury / 1461
  100 * century + 4 * leapCycle + min ((dayOfCentury - 1461 * leapCycle) / 365) 3

/-- The first day of a year of a cycle. -/
def daysOfYears (years : ℤ) : ℤ := 365 * years + years / 4 - years / 100

/-- The first day of a month of a year that starts in March. -/
def daysOfMonths (months : ℤ) : ℤ := (153 * months + 2) / 5

def daysOfDate (year month day : ℤ) : ℤ :=
  let marchYear := if month ≤ 2 then year - 1 else year
  let era := marchYear / 400
  era * 146097 + daysOfYears (marchYear - era * 400) +
    daysOfMonths (if 2 < month then month - 3 else month + 9) + day - 1 - 719468

/-- The date of a day, with the time midnight. -/
def dateOfDays (days : ℤ) : CivilTime :=
  let era := (days + 719468) / 146097
  let dayOfEra := days + 719468 - era * 146097
  let years := yearOfEra dayOfEra
  let dayOfYear := dayOfEra - daysOfYears years
  let months := (5 * dayOfYear + 2) / 153
  let month := if months < 10 then months + 3 else months - 9
  { year := era * 400 + years + if month ≤ 2 then 1 else 0
    month := month
    day := dayOfYear - daysOfMonths months + 1
    hour := 0
    minute := 0
    second := 0 }

theorem yearOfEra_spec {d : ℤ} (h : 0 ≤ d) (h' : d < 146097) :
    (0 ≤ yearOfEra d ∧ yearOfEra d < 400) ∧
      0 ≤ d - daysOfYears (yearOfEra d) ∧ d - daysOfYears (yearOfEra d) ≤ 365 := by
  unfold yearOfEra daysOfYears
  dsimp only
  generalize hcentury : min (d / 36524) 3 = century
  have hcentury' : 0 ≤ century ∧ century ≤ 3 ∧ 0 ≤ d - 36524 * century ∧
      d - 36524 * century ≤ 36524 := by omega
  generalize hday : d - 36524 * century = dayOfCentury at hcentury' ⊢
  generalize hcycle : dayOfCentury / 1461 = cycle
  have hcycle' : 0 ≤ cycle ∧ cycle ≤ 24 ∧ 0 ≤ dayOfCentury - 1461 * cycle ∧
      dayOfCentury - 1461 * cycle ≤ 1460 := by omega
  generalize hrest : dayOfCentury - 1461 * cycle = dayOfCycle at hcycle' ⊢
  generalize hyear : min (dayOfCycle / 365) 3 = year
  have hyear' : 0 ≤ year ∧ year ≤ 3 ∧ 0 ≤ dayOfCycle - 365 * year ∧
      dayOfCycle - 365 * year ≤ 365 := by omega
  have hfour : (100 * century + 4 * cycle + year) / 4 = 25 * century + cycle := by omega
  have hhundred : (100 * century + 4 * cycle + year) / 100 = century := by omega
  rw [hfour, hhundred]
  omega

/-- The date of a day is that of the day. -/
theorem daysOfDate_dateOfDays (days : ℤ) :
    daysOfDate (dateOfDays days).year (dateOfDays days).month (dateOfDays days).day = days := by
  unfold dateOfDays
  dsimp only
  generalize hera : (days + 719468) / 146097 = era
  generalize hday : days + 719468 - era * 146097 = dayOfEra
  obtain ⟨hyears, hyear⟩ := yearOfEra_spec (d := dayOfEra) (by omega) (by omega)
  generalize hdayOfYear : dayOfEra - daysOfYears (yearOfEra dayOfEra) = dayOfYear at hyear ⊢
  generalize yearOfEra dayOfEra = years at hyears hdayOfYear ⊢
  have hmonths : 0 ≤ (5 * dayOfYear + 2) / 153 ∧ (5 * dayOfYear + 2) / 153 ≤ 11 := by omega
  generalize (5 * dayOfYear + 2) / 153 = months at hmonths ⊢
  unfold daysOfDate
  dsimp only
  by_cases hearly : months < 10
  · rw [if_pos hearly, if_neg (by omega), if_neg (by omega), if_pos (by omega)]
    have hyear400 : (era * 400 + years + 0) / 400 = era := by omega
    rw [hyear400, show era * 400 + years + 0 - era * 400 = years by omega,
      show months + 3 - 3 = months by omega]
    omega
  · rw [if_neg hearly, if_pos (by omega), if_pos (by omega), if_neg (by omega)]
    have hyear400 : (era * 400 + years + 1 - 1) / 400 = era := by omega
    rw [hyear400, show era * 400 + years + 1 - 1 - era * 400 = years by omega,
      show months - 9 + 9 = months by omega]
    omega

theorem month_dateOfDays (days : ℤ) :
    1 ≤ (dateOfDays days).month ∧ (dateOfDays days).month ≤ 12 := by
  unfold dateOfDays
  dsimp only
  generalize hera : (days + 719468) / 146097 = era
  generalize hday : days + 719468 - era * 146097 = dayOfEra
  obtain ⟨-, hyear⟩ := yearOfEra_spec (d := dayOfEra) (by omega) (by omega)
  split_ifs <;> omega

theorem day_dateOfDays (days : ℤ) :
    1 ≤ (dateOfDays days).day ∧ (dateOfDays days).day ≤ 31 := by
  unfold dateOfDays daysOfMonths
  dsimp only
  generalize hera : (days + 719468) / 146097 = era
  generalize hday : days + 719468 - era * 146097 = dayOfEra
  obtain ⟨-, hyear⟩ := yearOfEra_spec (d := dayOfEra) (by omega) (by omega)
  generalize dayOfEra - daysOfYears (yearOfEra dayOfEra) = dayOfYear at hyear ⊢
  omega

def civilTime (seconds : ℤ) : CivilTime :=
  let ofDay := seconds % 86400
  { dateOfDays (seconds / 86400) with
    hour := ofDay / 3600
    minute := ofDay / 60 % 60
    second := ofDay % 60 }

def secondsOf (c : CivilTime) : ℤ :=
  daysOfDate c.year c.month c.day * 86400 + c.hour * 3600 + c.minute * 60 + c.second

theorem secondsOf_civilTime (seconds : ℤ) : secondsOf (civilTime seconds) = seconds := by
  unfold secondsOf civilTime
  dsimp only
  rw [daysOfDate_dateOfDays]
  omega

/-- The years that need no padding. -/
def FourDigitYear (c : CivilTime) : Prop := 1000 ≤ c.year ∧ c.year ≤ 9999

/-- Fields that fit into their places in the text. -/
structure Fits (c : CivilTime) : Prop where
  year : FourDigitYear c
  month : 0 ≤ c.month ∧ c.month < 100
  day : 0 ≤ c.day ∧ c.day < 100
  hour : 0 ≤ c.hour ∧ c.hour < 100
  minute : 0 ≤ c.minute ∧ c.minute < 100
  second : 0 ≤ c.second ∧ c.second < 100

theorem fits_civilTime {seconds : ℤ} (h : FourDigitYear (civilTime seconds)) :
    Fits (civilTime seconds) := by
  have hmonth := month_dateOfDays (seconds / 86400)
  have hday := day_dateOfDays (seconds / 86400)
  refine ⟨h, ?_, ?_, ?_, ?_, ?_⟩ <;> unfold civilTime <;> dsimp only <;> omega

/-- The last `width` digits of a number. -/
def digits : ℕ → ℕ → List Char
  | 0, _ => []
  | width + 1, n => digits width (n / 10) ++ [(n % 10).digitChar]

def pushDigit (value : Option ℕ) (c : Char) : Option ℕ :=
  value.bind fun n => if c.isDigit then some (10 * n + (c.toNat - 48)) else none

def valueOf (cs : List Char) : Option ℕ := cs.foldl pushDigit (some 0)

theorem digitChar_spec {d : ℕ} (h : d < 10) :
    d.digitChar.isDigit = true ∧ d.digitChar.toNat = 48 + d := by
  match d, h with
  | 0, _ | 1, _ | 2, _ | 3, _ | 4, _ | 5, _ | 6, _ | 7, _ | 8, _ | 9, _ => exact ⟨rfl, rfl⟩

@[simp] theorem length_digits (width n : ℕ) : (digits width n).length = width := by
  induction width generalizing n with
  | zero => rfl
  | succ width ih =>
      unfold digits
      rw [List.length_append, ih, List.length_singleton]

theorem isDigit_of_mem_digits {width n : ℕ} {c : Char} (h : c ∈ digits width n) :
    c.isDigit = true := by
  induction width generalizing n with
  | zero => cases h
  | succ width ih =>
      rcases List.mem_append.mp h with h | h
      · exact ih h
      · rw [List.mem_singleton.mp h]
        exact (digitChar_spec (Nat.mod_lt n (by decide))).1

theorem digits_append {a b m n : ℕ} (h : n < 10 ^ b) :
    digits a m ++ digits b n = digits (a + b) (m * 10 ^ b + n) := by
  induction b generalizing n with
  | zero =>
      obtain rfl : n = 0 := by simpa using h
      simp [digits]
  | succ b ih =>
      have hrest : n / 10 < 10 ^ b := by
        rw [pow_succ] at h
        omega
      have hdiv : (m * 10 ^ (b + 1) + n) / 10 = m * 10 ^ b + n / 10 := by
        rw [pow_succ, ← mul_assoc, mul_comm _ 10, Nat.mul_add_div (by decide)]
      have hmod : (m * 10 ^ (b + 1) + n) % 10 = n % 10 := by
        rw [pow_succ, ← mul_assoc, mul_comm _ 10, Nat.mul_add_mod]
      rw [digits, ← List.append_assoc, ih hrest, ← Nat.add_assoc, digits, hdiv, hmod]

theorem digits_split (a b n : ℕ) :
    digits (a + b) n = digits a (n / 10 ^ b) ++ digits b (n % 10 ^ b) := by
  rw [digits_append (Nat.mod_lt n (Nat.pow_pos (by decide))), Nat.div_add_mod']

/-- A number is read back from its digits. -/
theorem valueOf_digits {width n : ℕ} (h : n < 10 ^ width) :
    valueOf (digits width n) = some n := by
  induction width generalizing n with
  | zero =>
      obtain rfl : n = 0 := by simpa using h
      rfl
  | succ width ih =>
      have hrest : n / 10 < 10 ^ width := by
        rw [pow_succ] at h
        omega
      obtain ⟨hdigit, hvalue⟩ := digitChar_spec (Nat.mod_lt n (show 0 < 10 by decide))
      have hih := ih hrest
      unfold valueOf at hih ⊢
      rw [digits, List.foldl_append, hih, List.foldl_cons, List.foldl_nil]
      unfold pushDigit
      rw [Option.bind_some, if_pos hdigit, hvalue]
      congr 1
      omega

def civilChars (sep : Char) (c : CivilTime) : List Char :=
  digits 4 c.year.toNat ++ '-' :: (digits 2 c.month.toNat ++ '-' :: (digits 2 c.day.toNat ++
    sep :: (digits 2 c.hour.toNat ++ ':' :: (digits 2 c.minute.toNat ++
      ':' :: digits 2 c.second.toNat))))

/-- `width` digits at the start of a text, and what follows them. -/
def readField (width : ℕ) (cs : List Char) : Option (ℤ × List Char) :=
  if cs.length < width then none
  else (valueOf (cs.take width)).map fun n : ℕ => ((n : ℤ), cs.drop width)

def readMark (mark : Char) : List Char → Option (List Char)
  | [] => none
  | c :: cs => if c = mark then some cs else none

/-- A calendar time at the start of a text, and what follows it. -/
def readCivil (sep : Char) (cs : List Char) : Option (CivilTime × List Char) := do
  let (year, cs) ← readField 4 cs
  let (month, cs) ← readField 2 (← readMark '-' cs)
  let (day, cs) ← readField 2 (← readMark '-' cs)
  let (hour, cs) ← readField 2 (← readMark sep cs)
  let (minute, cs) ← readField 2 (← readMark ':' cs)
  let (second, cs) ← readField 2 (← readMark ':' cs)
  return (⟨year, month, day, hour, minute, second⟩, cs)

theorem readField_digits {width : ℕ} {n : ℤ} (h : 0 ≤ n) (h' : n < (10 ^ width : ℕ))
    (rest : List Char) : readField width (digits width n.toNat ++ rest) = some (n, rest) := by
  have hlen := length_digits width n.toNat
  unfold readField
  rw [if_neg (by rw [List.length_append]; omega), List.take_left' hlen, List.drop_left' hlen,
    valueOf_digits (by omega), Option.map_some, Int.toNat_of_nonneg h]

@[simp] theorem readMark_cons (mark : Char) (cs : List Char) :
    readMark mark (mark :: cs) = some cs := if_pos rfl

/-- A calendar time is read back from its text. -/
theorem readCivil_civilChars {c : CivilTime} (h : Fits c) (sep : Char) (rest : List Char) :
    readCivil sep (civilChars sep c ++ rest) = some (c, rest) := by
  obtain ⟨hyear, hmonth, hday, hhour, hminute, hsecond⟩ := h
  unfold readCivil civilChars
  simp only [List.append_assoc, List.cons_append]
  rw [readField_digits (by have := hyear.1; omega) (by have := hyear.2; omega)]
  simp only [Option.bind_eq_bind, Option.bind_some, readMark_cons]
  rw [readField_digits hmonth.1 hmonth.2]
  simp only [Option.bind_some, readMark_cons]
  rw [readField_digits hday.1 hday.2]
  simp only [Option.bind_some, readMark_cons]
  rw [readField_digits hhour.1 hhour.2]
  simp only [Option.bind_some, readMark_cons]
  rw [readField_digits hminute.1 hminute.2]
  simp only [Option.bind_some, readMark_cons]
  rw [readField_digits hsecond.1 hsecond.2]
  rfl

end Calendar

end SmcPipeline
