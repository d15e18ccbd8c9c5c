import SmcPipeline.ChartTimes
import SmcPipeline.EpochTexts
import Mathlib.Tactic.IntervalCases

/-!
# Where the normalisers agree

An instant between 2001-09-09 and 2286 is given as a number or as text, in seconds or in
milliseconds, or as ISO text. The three normalisers agree on it unless it is the decimal text of
its milliseconds, which `_to_millis` multiplies by 1000 once more or takes for a date, or its
float seconds lie where the error of the division is not taken back, or it is the number 10^12,
which is taken for seconds.
-/

namespace SmcPipeline.EpochAgreement

open Calendar IsoFormat FloatRounding MilliFloats FxcmIngestor EpochNormalisers EpochTexts
open WarmupRequester (truncate)

/-- How an instant is given. -/
inductive Spelling
  | secondsInt
  | secondsFloat
  | secondsText (places : ℕ)
  | millisInt
  | millisFloat
  | millisText (places : ℕ)
  | iso (places : ℕ) (zone : Zone)

namespace Spelling

def value (t : ℕ) : Spelling → EpochValue
  | secondsInt => .int (t / 1000 : ℕ)
  | secondsFloat => .float (seconds t)
  | secondsText places => .text (numberText 10 (t / 1000) places (fractionOf places t))
  | millisInt => .int t
  | millisFloat => .float t
  | millisText places => .text (numberText 13 t places 0)
  | iso places zone => .text (isoText t places zone)

/-- The spelling is one of the instant, without a rest. -/
def Writes (t : ℕ) : Spelling → Prop
  | secondsInt => t % 1000 = 0
  | secondsText places => Exact places t
  | millisText places => places ≤ 6
  | iso places zone => Exact places t ∧ zone.minutes.natAbs < 1440
  | secondsFloat | millisInt | millisFloat => True

/-- Where the normalisers agree. -/
def Kept (t : ℕ) : Spelling → Prop
  | millisText _ => False
  | millisInt | millisFloat => t ≠ 1000000000000 ∧ Recovered t
  | secondsInt | secondsFloat | secondsText _ | iso _ _ => Recovered t

end Spelling

variable (env : EpochRuntime)

/-- All three give the instant. -/
def Agree (t : ℕ) (v : EpochValue) : Prop :=
  toMillis env v = some (t : ℤ) ∧ epochToMs env v = some (t : ℤ) ∧
    (normalizeEpoch env v).map (fun s => fl (1000 * s)) = some (t : ℚ)

/-- `pd.Timestamp` reads ISO text, and its `timestamp()` is the float nearest to the seconds. -/
def ReadsTimes : Prop :=
  ∀ t places zone, 1000000000000 ≤ t → t < 10000000000000 → Exact places t →
    zone.minutes.natAbs < 1440 → env.timestamp (isoText t places zone) = some (seconds t)

variable {env} {t : ℕ}

theorem usual_of_range (hlow : 1000000000000 ≤ t) (hhigh : t < 10000000000000) : Usual t := by
  refine ⟨by omega, Nat.le_of_lt_succ (Nat.log_lt_of_lt_pow (by omega) ?_)⟩
  omega

theorem fl_intCast {n : ℤ} (h : n.natAbs < 9007199254740992) : fl (n : ℚ) = n :=
  nearest_intCast (by norm_num; exact h)

theorem fl_natCast {n : ℕ} (h : n < 9007199254740992) : fl (n : ℚ) = n := by
  have hint := fl_intCast (n := (n : ℤ)) (by omega)
  rwa [Int.cast_natCast] at hint

theorem truncate_intCast (n : ℤ) : truncate (n : ℚ) = n := by
  unfold truncate
  split_ifs
  · exact Int.floor_intCast n
  · exact Int.ceil_intCast n

theorem truncate_natCast (n : ℕ) : truncate (n : ℚ) = n := by
  have hint := truncate_intCast (n : ℤ)
  rwa [Int.cast_natCast] at hint

theorem seconds_le (hlow : 1000000000000 ≤ t) (hhigh : t < 10000000000000) :
    seconds t ≤ 1000000000000 := by
  have husual := usual_of_range hlow hhigh
  obtain ⟨d, hmillis, hd, -⟩ := exists_error husual
  have hunit : unit t ≤ 1 := zpow_le_one_of_nonpos₀ one_le_two (by have := husual.small; omega)
  have herror : (d : ℚ) * unit t ≤ 500 := by
    have hd' : (d : ℚ) ≤ 500 := by exact_mod_cast (abs_le.mp (show |d| ≤ 500 by omega)).2
    have hpos := unit_pos t
    nlinarith
  have ht : (t : ℚ) < 10000000000000 := by exact_mod_cast hhigh
  rw [Int.cast_add, add_mul, Int.cast_natCast, ← husual.millis_eq] at hmillis
  linarith

/-- Seconds are not taken for milliseconds. -/
theorem floatToMs_seconds (hlow : 1000000000000 ≤ t) (hhigh : t < 10000000000000) :
    floatToMs (seconds t) = millisOf (seconds t) :=
  if_neg (not_lt.mpr (seconds_le hlow hhigh))

theorem normalizeFloat_seconds (hlow : 1000000000000 ≤ t) (hhigh : t < 10000000000000) :
    normalizeFloat (seconds t) = seconds t :=
  if_neg (not_lt.mpr (seconds_le hlow hhigh))

/-- Where each of them comes to the float seconds. -/
theorem agree_of_seconds (husual : Usual t) {v : EpochValue}
    (hmillis : toMillis env v = some (millisOf (seconds t)))
    (hepoch : epochToMs env v = some (millisOf (seconds t)))
    (hnormal : normalizeEpoch env v = some (seconds t)) : Agree env t v ↔ Recovered t := by
  unfold Agree
  rw [hmillis, hepoch, hnormal, Option.map_some, Option.some_inj, Option.some_inj,
    recovered_iff husual]
  refine ⟨fun h => h.2.2, fun h => ?_⟩
  have htruncated : millisOf (seconds t) = t := by
    unfold millisOf
    rw [mul_comm, (recovered_iff husual).mpr h, truncate_natCast]
  exact ⟨htruncated, htruncated, h⟩

theorem agree_secondsInt (hlow : 1000000000000 ≤ t) (hhigh : t < 10000000000000)
    (hwhole : t % 1000 = 0) : Agree env t (Spelling.secondsInt.value t) ↔ Recovered t := by
  have hseconds : fl ((t / 1000 : ℕ) : ℤ) = seconds t := by
    unfold seconds
    congr 1
    rw [Int.cast_natCast, eq_div_iff (by norm_num)]
    exact_mod_cast Nat.div_mul_cancel (Nat.dvd_of_mod_eq_zero hwhole)
  have hsmall : ¬(1000000000000 : ℤ) < (t / 1000 : ℕ) := by omega
  refine agree_of_seconds (usual_of_range hlow hhigh) ?_ ?_ ?_
  · rw [Spelling.value, toMillis, if_neg hsmall, hseconds]
  · rw [Spelling.value, epochToMs, hseconds, floatToMs_seconds hlow hhigh]
  · rw [Spelling.value, normalizeEpoch, if_neg hsmall, hseconds]

theorem agree_secondsFloat (hlow : 1000000000000 ≤ t) (hhigh : t < 10000000000000) :
    Agree env t (Spelling.secondsFloat.value t) ↔ Recovered t := by
  refine agree_of_seconds (usual_of_range hlow hhigh) ?_ ?_ ?_
  · rw [Spelling.value, toMillis, if_neg (not_lt.mpr (seconds_le hlow hhigh))]
  · rw [Spelling.value, epochToMs, floatToMs_seconds hlow hhigh]
  · rw [Spelling.value, normalizeEpoch, normalizeFloat_seconds hlow hhigh]

/-- The text of the seconds is no time, and is read as the float seconds. -/
theorem agree_secondsText (hlow : 1000000000000 ≤ t) (hhigh : t < 10000000000000) {places : ℕ}
    (hexact : Exact places t) :
    Agree env t ((Spelling.secondsText places).value t) ↔ Recovered t := by
  have hread : readFloat (numberText 10 (t / 1000) places (fractionOf places t)) =
      some (seconds t) := by
    rw [readFloat_numberText (by decide) (by omega) fractionOf_lt]
    unfold seconds
    congr 2
    have hpow : (10 : ℚ) ^ places ≠ 0 := pow_ne_zero _ (by norm_num)
    have hsplit : (t / 1000 * 10 ^ places + fractionOf places t) * 1000 = t * 10 ^ places := by
      rw [add_mul, fractionOf_mul hexact, mul_right_comm, ← add_mul, Nat.div_add_mod']
    rw [div_eq_div_iff hpow (by norm_num)]
    exact_mod_cast hsplit
  have hiso : fromisoformat (numberText 10 (t / 1000) places (fractionOf places t)) = none :=
    fromisoformat_ten_digits (by omega) _ _
  have hne := numberText_ne_empty (show 0 < 10 by decide) (t / 1000) places (fractionOf places t)
  refine agree_of_seconds (usual_of_range hlow hhigh) ?_ ?_ ?_
  · rw [Spelling.value, toMillis, strip_numberText, if_neg hne, replaceZ_numberText, hiso, hread]
    rfl
  · rw [Spelling.value, epochToMs, strip_numberText, if_neg hne, replaceZ_numberText, hiso, hread,
      ← floatToMs_seconds hlow hhigh]
    rfl
  · rw [Spelling.value, normalizeEpoch, strip_numberText, if_neg hne, hread]
    exact congrArg some (normalizeFloat_seconds hlow hhigh)

theorem agree_iso (hreads : ReadsTimes env) (hlow : 1000000000000 ≤ t)
    (hhigh : t < 10000000000000) {places : ℕ} {zone : Zone} (hexact : Exact places t)
    (hzone : zone.minutes.natAbs < 1440) :
    Agree env t ((Spelling.iso places zone).value t) ↔ Recovered t := by
  have htimestamp : timestampOf env ⟨t * 1000 + zone.minutes * 60000000,
      some (zone.minutes * 60000000)⟩ = seconds t := by
    unfold timestampOf seconds
    dsimp only
    rw [add_sub_cancel_right]
    congr 1
    push_cast
    ring
  have hne := isoText_ne_empty t places zone
  refine agree_of_seconds (usual_of_range hlow hhigh) ?_ ?_ ?_
  · rw [Spelling.value, toMillis, strip_isoText, if_neg hne,
      fromisoformat_isoText hlow hhigh hexact hzone]
    exact congrArg (fun x => some (millisOf x)) htimestamp
  · rw [Spelling.value, epochToMs, strip_isoText, if_neg hne,
      fromisoformat_isoText hlow hhigh hexact hzone]
    exact congrArg (fun x => some (millisOf x)) htimestamp
  · rw [Spelling.value, normalizeEpoch, strip_isoText, if_neg hne, readFloat_isoText]
    exact hreads t places zone hlow hhigh hexact hzone

/-- A product with 1000 that is a float. -/
theorem fl_thousandfold (hhigh : t < 10000000000000) : fl ((t : ℚ) * 1000) = t * 1000 := by
  have hsplit : (t : ℚ) * 1000 = ((125 * t : ℕ) : ℤ) * 2 ^ 3 := by
    push_cast
    ring
  rw [hsplit]
  exact nearest_mul_two_pow (by norm_num; omega) 3

theorem millisOf_natCast (hhigh : t < 10000000000000) : millisOf (t : ℚ) = 1000 * t := by
  have hcast : (t : ℚ) * 1000 = ((1000 * t : ℕ) : ℚ) := by
    push_cast
    ring
  unfold millisOf
  rw [fl_thousandfold hhigh, hcast, truncate_natCast]
  push_cast
  rfl

/-- Where the first two take the number as it is. -/
theorem agree_of_millis (husual : Usual t) {v : EpochValue}
    (hmillis : toMillis env v = some (t : ℤ)) (hepoch : epochToMs env v = some (t : ℤ))
    (hnormal : normalizeEpoch env v = some (seconds t)) : Agree env t v ↔ Recovered t := by
  unfold Agree
  rw [hnormal, Option.map_some, Option.some_inj, recovered_iff husual]
  exact ⟨fun h => h.2.2, fun h => ⟨hmillis, hepoch, h⟩⟩

theorem agree_millisInt (hlow : 1000000000000 ≤ t) (hhigh : t < 10000000000000) :
    Agree env t (Spelling.millisInt.value t) ↔ t ≠ 1000000000000 ∧ Recovered t := by
  have hfl : fl ((t : ℤ) : ℚ) = t := fl_intCast (by omega)
  by_cases hfirst : t = 1000000000000
  · refine iff_of_false (fun h => ?_) fun h => h.1 hfirst
    have hmillis := h.1
    rw [Spelling.value, toMillis, if_neg (by omega), hfl, millisOf_natCast hhigh,
      Option.some_inj] at hmillis
    omega
  · rw [and_iff_right hfirst]
    have hlarge : (1000000000000 : ℤ) < t := by omega
    have hlarge' : (1000000000000 : ℚ) < t := by exact_mod_cast hlarge
    refine agree_of_millis (usual_of_range hlow hhigh) ?_ ?_ ?_
    · rw [Spelling.value, toMillis, if_pos hlarge]
    · rw [Spelling.value, epochToMs, hfl, floatToMs, if_pos hlarge', truncate_natCast]
    · rw [Spelling.value, normalizeEpoch, if_pos hlarge, hfl]
      rfl

theorem agree_millisFloat (hlow : 1000000000000 ≤ t) (hhigh : t < 10000000000000) :
    Agree env t (Spelling.millisFloat.value t) ↔ t ≠ 1000000000000 ∧ Recovered t := by
  by_cases hfirst : t = 1000000000000
  · refine iff_of_false (fun h => ?_) fun h => h.1 hfirst
    have hmillis := h.1
    rw [Spelling.value, toMillis, if_neg (by rw [hfirst]; norm_num), millisOf_natCast hhigh,
      Option.some_inj] at hmillis
    omega
  · rw [and_iff_right hfirst]
    have hlarge : (1000000000000 : ℚ) < t := by exact_mod_cast (by omega)
    refine agree_of_millis (usual_of_range hlow hhigh) ?_ ?_ ?_
    · rw [Spelling.value, toMillis, if_pos hlarge, truncate_natCast]
    · rw [Spelling.value, epochToMs, floatToMs, if_pos hlarge, truncate_natCast]
    · rw [Spelling.value, normalizeEpoch, normalizeFloat, if_pos hlarge]
      rfl

theorem fields_of_real {c : CivilTime} (h : Real c) :
    (1 ≤ c.month ∧ c.month ≤ 12) ∧ (1 ≤ c.day ∧ c.day ≤ 31) := by
  have hmonth := month_dateOfDays (daysOfDate c.year c.month c.day)
  have hday := day_dateOfDays (daysOfDate c.year c.month c.day)
  have hc := h.2.1
  rw [congrArg CivilTime.month hc] at hmonth
  rw [congrArg CivilTime.day hc] at hday
  exact ⟨hmonth, hday⟩

/-- The mean year has 365.2425 days. -/
theorem daysOfYears_bounds {years : ℤ} (h : 0 ≤ years ∧ years < 400) :
    146097 * years - 700 ≤ 400 * daysOfYears years ∧
      400 * daysOfYears years ≤ 146097 * years + 400 := by
  unfold daysOfYears
  omega

theorem daysOfDate_bounds (year : ℤ) {month day : ℤ} (hmonth : 1 ≤ month ∧ month ≤ 12)
    (hday : 1 ≤ day ∧ day ≤ 31) :
    146097 * (year - 1970) - 2000 ≤ 400 * daysOfDate year month day ∧
      400 * daysOfDate year month day ≤ 146097 * (year - 1970) + 148000 := by
  unfold daysOfDate daysOfMonths
  dsimp only
  generalize hmarch : (if month ≤ 2 then year - 1 else year) = marchYear
  have hyears := daysOfYears_bounds (show 0 ≤ marchYear - marchYear / 400 * 400 ∧
    marchYear - marchYear / 400 * 400 < 400 by omega)
  generalize daysOfYears (marchYear - marchYear / 400 * 400) = days at hyears ⊢
  split_ifs at hmarch ⊢ <;> omega

/-- Digits are a local time near to the instant that they count in milliseconds in 2034 only. -/
theorem year_of_coincidence {year month day sep hour minute offset : ℤ}
    (hmonth : 1 ≤ month ∧ month ≤ 12) (hday : 1 ≤ day ∧ day ≤ 31) (hsep : 0 ≤ sep ∧ sep < 10)
    (hhour : 0 ≤ hour ∧ hour < 24) (hminute : 0 ≤ minute ∧ minute < 60)
    (hoffset : -86400 < offset ∧ offset < 86400)
    (h : 1000 * (daysOfDate year month day * 86400 + hour * 3600 + minute * 60 - offset) =
      year * 1000000000 + month * 10000000 + day * 100000 + sep * 10000 + hour * 100 + minute) :
    year = 2034 := by
  obtain ⟨hlow, hhigh⟩ := daysOfDate_bounds year hmonth hday
  generalize daysOfDate year month day = days at hlow hhigh h
  have habove : year * 1000000 ≤ days * 86400 + 172800 := by linarith
  have hbelow : days * 86400 - 172800 ≤ year * 1000000 + 130000 := by linarith
  have hbefore : year < 2035 := by linarith
  have hafter : 2033 < year := by linarith
  exact le_antisymm (Int.lt_add_one_iff.mp hbefore) hafter

/-- There the two are a number of quarters of an hour apart on no day. -/
theorem no_coincidence {month day sep hour minute offset : ℤ}
    (hmonth : 1 ≤ month ∧ month ≤ 12) (hday : 1 ≤ day ∧ day ≤ 31) (hsep : 0 ≤ sep ∧ sep < 10)
    (hhour : 0 ≤ hour ∧ hour < 24) (hminute : 0 ≤ minute ∧ minute < 60)
    (hoffset : -86400 < offset ∧ offset < 86400) (hquarters : offset % 900 = 0) :
    1000 * (daysOfDate 2034 month day * 86400 + hour * 3600 + minute * 60 - offset) ≠
      2034 * 1000000000 + month * 10000000 + day * 100000 + sep * 10000 + hour * 100 + minute := by
  intro h
  obtain ⟨hfirst, hlast⟩ := hmonth
  -- The left side is a number of whole minutes, so that the last digits are zeros.
  obtain rfl : minute = 0 := by omega
  obtain rfl : hour = 0 := by omega
  obtain rfl : sep = 0 := by omega
  have hjune : 23509 ≤ daysOfDate 2034 month day ∧ daysOfDate 2034 month day ≤ 23544 := by omega
  interval_cases month <;> norm_num [daysOfDate, daysOfYears, daysOfMonths] at h hjune <;> omega

theorem secondsOf_stampOf : secondsOf (stampOf t) =
    daysOfDate (stampOf t).year (stampOf t).month (stampOf t).day * 86400 +
      (stampOf t).hour * 3600 + (stampOf t).minute * 60 := by
  have hsecond : (stampOf t).second = 0 := rfl
  rw [secondsOf, hsecond, add_zero]

theorem clock_of_real (hreal : Real (stampOf t)) :
    (0 ≤ (stampOf t).hour ∧ (stampOf t).hour < 24) ∧
      0 ≤ (stampOf t).minute ∧ (stampOf t).minute < 60 :=
  ⟨⟨Int.natCast_nonneg _, hreal.2.2.1⟩, Int.natCast_nonneg _, hreal.2.2.2.1⟩

theorem stamp_ne (env : EpochRuntime) (hreal : Real (stampOf t)) :
    1000 * (secondsOf (stampOf t) - env.localOffset (secondsOf (stampOf t))) ≠ t := by
  intro h
  obtain ⟨hmonth, hday⟩ := fields_of_real hreal
  obtain ⟨hhour, hminute⟩ := clock_of_real hreal
  have hoffset := env.localOffset_lt (secondsOf (stampOf t))
  have hquarters := env.localOffset_quarters (secondsOf (stampOf t))
  have hdigits : (t : ℤ) = (stampOf t).year * 1000000000 + (stampOf t).month * 10000000 +
      (stampOf t).day * 100000 + (t / 10000 % 10 : ℕ) * 10000 + (stampOf t).hour * 100 +
        (stampOf t).minute := by
    unfold stampOf
    dsimp only
    omega
  have hsep : (0 : ℤ) ≤ (t / 10000 % 10 : ℕ) ∧ ((t / 10000 % 10 : ℕ) : ℤ) < 10 := by omega
  generalize env.localOffset (secondsOf (stampOf t)) = offset at h hoffset hquarters
  have hoffset' : -86400 < offset ∧ offset < 86400 := by omega
  rw [hdigits, secondsOf_stampOf] at h
  have hyear := year_of_coincidence hmonth hday hsep hhour hminute hoffset' h
  have hdays := daysOfDate_bounds (stampOf t).year hmonth hday
  have hquarter : offset % 900 = 0 := hquarters (by rw [secondsOf_stampOf]; omega)
  rw [hyear] at h
  exact no_coincidence hmonth hday hsep hhour hminute hoffset' hquarter h

/-- A whole second of local time. -/
theorem timestampOf_local {s : ℤ} (h : (s - env.localOffset s).natAbs < 9007199254740992) :
    timestampOf env ⟨s * 1000000, none⟩ = (s - env.localOffset s : ℤ) := by
  have hzero : fl (((0 : ℤ) : ℚ) / 1000000) = 0 := by
    have hint := fl_intCast (n := 0) (by decide)
    rw [Int.cast_zero] at hint ⊢
    rw [zero_div, hint]
  unfold timestampOf
  dsimp only
  rw [Int.mul_ediv_cancel _ (by decide), Int.mul_emod_left, fl_intCast h, hzero, add_zero,
    fl_intCast h]

theorem millisOf_intCast {n : ℤ} (h : (n * 1000).natAbs < 9007199254740992) :
    millisOf (n : ℚ) = 1000 * n := by
  have hfl := fl_intCast h
  rw [Int.cast_mul, Int.cast_ofNat] at hfl
  unfold millisOf
  rw [hfl, ← Int.cast_ofNat, ← Int.cast_mul, truncate_intCast, mul_comm]

theorem fromisoformat_millisText (hhigh : t < 10000000000000) {places : ℕ}
    (hplaces : places ≤ 6) : fromisoformat (numberText 13 t places 0) =
      if Real (stampOf t) then some ⟨secondsOf (stampOf t) * 1000000, none⟩ else none :=
  fromisoformat_thirteen_digits hhigh hplaces

/-- Where the text is no time, the milliseconds are multiplied by 1000 once more. -/
theorem toMillis_of_not_real (hhigh : t < 10000000000000) {places : ℕ} (hplaces : places ≤ 6)
    (hreal : ¬Real (stampOf t)) :
    toMillis env ((Spelling.millisText places).value t) = some (1000 * t : ℤ) := by
  have hread : readFloat (numberText 13 t places 0) = some (t : ℚ) := by
    have hpow : (10 : ℚ) ^ places ≠ 0 := pow_ne_zero _ (by norm_num)
    rw [readFloat_numberText (by decide) (by omega) (Nat.pow_pos (by decide)), add_zero,
      Nat.cast_mul, Nat.cast_pow, Nat.cast_ofNat, mul_div_cancel_right₀ _ hpow,
      fl_natCast (by omega)]
  rw [Spelling.value, toMillis, strip_numberText, if_neg (numberText_ne_empty (by decide) _ _ _),
    replaceZ_numberText, fromisoformat_millisText hhigh hplaces, if_neg hreal, hread]
  dsimp only
  rw [Option.map_some, millisOf_natCast hhigh]

/-- Where it is one, the local time that it names is returned. -/
theorem toMillis_of_real (hhigh : t < 10000000000000) {places : ℕ} (hplaces : places ≤ 6)
    (hreal : Real (stampOf t)) :
    toMillis env ((Spelling.millisText places).value t) =
      some (1000 * (secondsOf (stampOf t) - env.localOffset (secondsOf (stampOf t)))) := by
  obtain ⟨hmonth, hday⟩ := fields_of_real hreal
  obtain ⟨hhour, hminute⟩ := clock_of_real hreal
  have hyear : 0 ≤ (stampOf t).year ∧ (stampOf t).year < 10000 := by
    unfold stampOf
    dsimp only
    omega
  have hdays := daysOfDate_bounds (stampOf t).year hmonth hday
  have hoffset := env.localOffset_lt (secondsOf (stampOf t))
  have hbound : (secondsOf (stampOf t) - env.localOffset (secondsOf (stampOf t))).natAbs <
      1000000000000 := by
    generalize env.localOffset (secondsOf (stampOf t)) = offset at hoffset
    rw [secondsOf_stampOf]
    omega
  rw [Spelling.value, toMillis, strip_numberText, if_neg (numberText_ne_empty (by decide) _ _ _),
    replaceZ_numberText, fromisoformat_millisText hhigh hplaces, if_pos hreal]
  dsimp only
  rw [timestampOf_local (by omega), millisOf_intCast (by omega)]

/-- `_to_millis` never takes the text of milliseconds for what it is. -/
theorem toMillis_millisText (hlow : 1000000000000 ≤ t) (hhigh : t < 10000000000000) {places : ℕ}
    (hplaces : places ≤ 6) :
    toMillis env ((Spelling.millisText places).value t) ≠ some (t : ℤ) := by
  by_cases hreal : Real (stampOf t)
  · rw [toMillis_of_real hhigh hplaces hreal, ne_eq, Option.some_inj]
    exact stamp_ne env hreal
  · rw [toMillis_of_not_real hhigh hplaces hreal, ne_eq, Option.some_inj]
    omega

/-- On an instant between 2001-09-09 and 2286 the normalisers agree exactly if it is not the
decimal text of its milliseconds nor the number 10^12, and its milliseconds are recovered from the
float seconds. -/
theorem normalisers_agree_iff (hreads : ReadsTimes env) (hlow : 1000000000000 ≤ t)
    (hhigh : t < 10000000000000) {spelling : Spelling} (hwrites : spelling.Writes t) :
    Agree env t (spelling.value t) ↔ spelling.Kept t := by
  cases spelling with
  | secondsInt => exact agree_secondsInt hlow hhigh hwrites
  | secondsFloat => exact agree_secondsFloat hlow hhigh
  | secondsText places => exact agree_secondsText hlow hhigh hwrites
  | millisInt => exact agree_millisInt hlow hhigh
  | millisFloat => exact agree_millisFloat hlow hhigh
  | millisText places =>
      exact iff_of_false (fun h => toMillis_millisText hlow hhigh hwrites h.1) not_false
  | iso places zone => exact agree_iso hreads hlow hhigh hwrites.1 hwrites.2

theorem millisOf_fl_intCast {n : ℤ} (h : (n * 1000).natAbs < 9007199254740992) :
    millisOf (fl (n : ℚ)) = n * 1000 := by
  rw [fl_intCast (by omega), millisOf_intCast h, mul_comm]

/-- On integers `_to_millis` is the function of the chart's times. -/
theorem toMillis_int {n : ℤ} (h : -9000000000000 ≤ n) :
    toMillis env (.int n) = some (ChartTimes.toMillis n) := by
  rw [toMillis, ChartTimes.toMillis]
  split_ifs with hlarge
  · rfl
  · rw [millisOf_fl_intCast (by omega)]

/-- On integers `_epoch_to_ms` is the function of the warmup requests. -/
theorem epochToMs_int {n : ℤ} (h : -9000000000000 ≤ n) (h' : n < 9007199254740992) :
    epochToMs env (.int n) = WarmupRequester.epochToMs (.number n) := by
  rw [epochToMs, WarmupRequester.epochToMs, floatToMs, fl_intCast (by omega)]
  split_ifs with hlarge
  · rfl
  · have hsmall : n ≤ 1000000000000 := by exact_mod_cast not_lt.mp hlarge
    have hcast : (n : ℚ) * 1000 = (n * 1000 : ℤ) := by
      push_cast
      rfl
    rw [millisOf_intCast (by omega), hcast, truncate_intCast, mul_comm]

section FixedInputs

/-- A machine on UTC. -/
def utcRuntime : EpochRuntime where
  localOffset _ := 0
  localOffset_lt _ := by decide
  localOffset_quarters _ _ := by decide
  timestamp text := (fromisoformat (replaceZ text)).map fun dt =>
    fl ((dt.micros - dt.offset.getD 0 : ℤ) / 1000000)

theorem readsTimes_utcRuntime : ReadsTimes utcRuntime := by
  intro t places zone hlow hhigh hexact hzone
  have hread := fromisoformat_isoText hlow hhigh hexact hzone
  have hmicros : ((t * 1000 + zone.minutes * 60000000 -
      (some (zone.minutes * 60000000)).getD 0 : ℤ) : ℚ) / 1000000 = (t : ℚ) / 1000 := by
    rw [Option.getD_some, add_sub_cancel_right]
    push_cast
    ring
  unfold utcRuntime
  dsimp only
  rw [hread, Option.map_some, hmicros]
  rfl

theorem iso_instant_agrees :
    Agree utcRuntime 1712120400123 (.text "2024-04-03T07:00:00.123+02:00") := by
  have htext : (Spelling.iso 3 (.east 120)).value 1712120400123 =
      .text "2024-04-03T07:00:00.123+02:00" := by rfl
  have hwrites : (Spelling.iso 3 (.east 120)).Writes 1712120400123 :=
    ⟨⟨by decide, by decide⟩, by decide⟩
  have hkept : (Spelling.iso 3 (.east 120)).Kept 1712120400123 :=
    show Recovered 1712120400123 by decide
  rw [← htext]
  exact (normalisers_agree_iff readsTimes_utcRuntime (by decide) (by decide) hwrites).mpr hkept

theorem millis_text_is_multiplied :
    toMillis utcRuntime (.text "1700000000000") = some 1700000000000000 ∧
      ¬Agree utcRuntime 1700000000000 (.text "1700000000000") := by
  have htext : (Spelling.millisText 0).value 1700000000000 = .text "1700000000000" := by rfl
  have hmillis : toMillis utcRuntime (.text "1700000000000") = some 1700000000000000 := by
    rw [← htext]
    exact toMillis_of_not_real (by decide) (by decide) (by decide)
  refine ⟨hmillis, fun h => ?_⟩
  have hsame := hmillis.symm.trans h.1
  cases hsame

end FixedInputs

end SmcPipeline.EpochAgreement
