import SmcPipeline.EpochNormalisers
import SmcPipeline.Serializers

/-!
# The texts of an instant

The decimal text of a number of seconds or milliseconds and ISO text with `Z` or an offset, and
what `float` and `datetime.fromisoformat` read in them.
-/

namespace SmcPipeline.EpochTexts

open Calendar IsoFormat MilliFloats FxcmIngestor EpochNormalisers
open WarmupRequester (truncate)
open Serializers (isSpace_of_isDigit strip_eq_self)

/-- The decimal text of a number. -/
def numberText (width n places fraction : ℕ) : String :=
  String.ofList (digits width n ++ fractionChars places fraction)

/-- The thousandths of `t`, as a fraction of `places` digits. -/
def fractionOf (places t : ℕ) : ℕ := t % 1000 * 10 ^ places / 1000

/-- The local time at an offset of some minutes, with the fraction of its second. -/
def localChars (t places : ℕ) (minutes : ℤ) : List Char :=
  civilChars 'T' (civilTime ((t / 1000 : ℕ) + minutes * 60)) ++
    fractionChars places (fractionOf places t)

def isoText (t places : ℕ) (zone : Zone) : String :=
  String.ofList (localChars t places zone.minutes ++ zone.chars)

/-- The characters of the texts, but for `Z`. -/
def TimeChar (c : Char) : Prop := c.isDigit = true ∨ c ∈ ['-', 'T', ':', '.', '+']

theorem timeChar_digits {width n : ℕ} {c : Char} (h : c ∈ digits width n) : TimeChar c :=
  Or.inl (isDigit_of_mem_digits h)

theorem timeChar_fractionChars {places fraction : ℕ} {c : Char}
    (h : c ∈ fractionChars places fraction) : TimeChar c := by
  unfold fractionChars at h
  split_ifs at h
  · cases h
  · rcases List.mem_cons.mp h with rfl | h
    · exact Or.inr (by decide)
    · exact timeChar_digits h

theorem timeChar_numberChars {width n places fraction : ℕ} {c : Char}
    (h : c ∈ digits width n ++ fractionChars places fraction) : TimeChar c :=
  (List.mem_append.mp h).elim timeChar_digits timeChar_fractionChars

theorem isSpace_of_timeChar {c : Char} (h : TimeChar c) : isSpace c = false := by
  rcases h with h | h
  · exact isSpace_of_isDigit h
  · simp only [List.mem_cons, List.not_mem_nil, or_false] at h
    rcases h with rfl | rfl | rfl | rfl | rfl <;> decide

theorem strip_of_no_space {cs : List Char} (h : ∀ c ∈ cs, isSpace c = false) :
    strip (String.ofList cs) = String.ofList cs :=
  strip_eq_self (fun c hc => h c (List.mem_of_mem_head? hc))
    fun c hc => h c (List.mem_of_getLast? hc)

theorem ofList_ne_empty {cs : List Char} (h : cs ≠ []) : String.ofList cs ≠ "" := by
  intro hempty
  have hnil := congrArg String.toList hempty
  rw [String.toList_ofList] at hnil
  exact h hnil

/-- Characters other than `Z` are left as they are. -/
theorem expandZ_of_timeChar {cs : List Char} (h : ∀ c ∈ cs, TimeChar c) :
    cs.flatMap expandZ = cs := by
  induction cs with
  | nil => rfl
  | cons c cs ih =>
      have hne : c ≠ 'Z' := by
        rintro rfl
        exact absurd (h 'Z' List.mem_cons_self) (by unfold TimeChar; decide)
      rw [List.flatMap_cons, ih fun x hx => h x (List.mem_cons_of_mem c hx), expandZ, if_neg hne]
      rfl

theorem strip_numberText (width n places fraction : ℕ) :
    strip (numberText width n places fraction) = numberText width n places fraction :=
  strip_of_no_space fun _ hc => isSpace_of_timeChar (timeChar_numberChars hc)

theorem replaceZ_numberText (width n places fraction : ℕ) :
    replaceZ (numberText width n places fraction) = numberText width n places fraction := by
  unfold replaceZ numberText
  rw [String.toList_ofList, expandZ_of_timeChar fun _ => timeChar_numberChars]

theorem numberText_ne_empty {width : ℕ} (h : 0 < width) (n places fraction : ℕ) :
    numberText width n places fraction ≠ "" :=
  ofList_ne_empty (List.append_ne_nil_of_left_ne_nil (digits_ne_nil h n) _)

theorem takeWhile_digits (width n : ℕ) (rest : List Char) :
    (digits width n ++ rest).takeWhile Char.isDigit =
      digits width n ++ rest.takeWhile Char.isDigit :=
  List.takeWhile_append_of_pos fun _ => isDigit_of_mem_digits

theorem dropWhile_digits (width n : ℕ) (rest : List Char) :
    (digits width n ++ rest).dropWhile Char.isDigit = rest.dropWhile Char.isDigit :=
  List.dropWhile_append_of_pos fun _ => isDigit_of_mem_digits

theorem head?_ne_of_isDigit {width n : ℕ} (h : 0 < width) {rest : List Char} {c : Char}
    (hc : c.isDigit = false) : (digits width n ++ rest).head? ≠ some c := by
  intro hhead
  rw [head?_digits h hhead] at hc
  cases hc

theorem readDecimal_digits {width n places fraction : ℕ} (hwidth : 0 < width)
    (hn : n < 10 ^ width) (hfraction : fraction < 10 ^ places) :
    readDecimal (digits width n) (digits places fraction) [] =
      some (((n * 10 ^ places + fraction : ℕ) : ℚ) / 10 ^ places) := by
  have hvalue : valueOf (digits width n ++ digits places fraction) =
      some (n * 10 ^ places + fraction) := by
    rw [digits_append hfraction]
    apply valueOf_digits
    calc n * 10 ^ places + fraction < n * 10 ^ places + 10 ^ places := by omega
      _ = (n + 1) * 10 ^ places := by ring
      _ ≤ 10 ^ width * 10 ^ places := Nat.mul_le_mul_right _ hn
      _ = 10 ^ (width + places) := by rw [pow_add]
  unfold readDecimal
  rw [if_neg fun h => digits_ne_nil hwidth n h.1, hvalue, length_digits]
  simp [readExponent, div_eq_mul_inv]

theorem readUnsigned_number {width n places fraction : ℕ} (hwidth : 0 < width)
    (hn : n < 10 ^ width) (hfraction : fraction < 10 ^ places) :
    readUnsigned (digits width n ++ fractionChars places fraction) =
      some (((n * 10 ^ places + fraction : ℕ) : ℚ) / 10 ^ places) := by
  have htake := takeWhile_digits places fraction []
  have hdrop := dropWhile_digits places fraction []
  rw [List.append_nil, List.takeWhile_nil, List.append_nil] at htake
  rw [List.append_nil, List.dropWhile_nil] at hdrop
  unfold readUnsigned
  dsimp only
  rw [takeWhile_digits, dropWhile_digits, ← readDecimal_digits hwidth hn hfraction]
  unfold fractionChars
  by_cases hzero : places = 0
  · subst hzero
    rw [if_pos rfl, List.takeWhile_nil, List.dropWhile_nil, if_neg (by decide), List.append_nil]
    rfl
  · rw [if_neg hzero, List.takeWhile_cons_of_neg (by decide),
      List.dropWhile_cons_of_neg (by decide), List.head?_cons, if_pos rfl, List.tail_cons,
      List.append_nil, htake, hdrop]

/-- The decimal text of a number is read as the float nearest to it. -/
theorem readFloat_numberText {width n places fraction : ℕ} (hwidth : 0 < width)
    (hn : n < 10 ^ width) (hfraction : fraction < 10 ^ places) :
    readFloat (numberText width n places fraction) =
      some (fl (((n * 10 ^ places + fraction : ℕ) : ℚ) / 10 ^ places)) := by
  unfold readFloat
  rw [strip_numberText]
  unfold numberText
  rw [String.toList_ofList]
  dsimp only
  rw [if_neg (head?_ne_of_isDigit hwidth rfl), if_neg (head?_ne_of_isDigit hwidth rfl),
    readUnsigned_number hwidth hn hfraction]
  rfl

theorem fourDigitYear_of_range {s : ℤ} (hlow : 999000000 ≤ s) (hhigh : s < 10100000000) :
    FourDigitYear (civilTime s) := by
  have hera : (s / 86400 + 719468) / 146097 = 5 := by omega
  obtain ⟨⟨hfirst, hlast⟩, -⟩ := yearOfEra_spec (d := s / 86400 + 719468 - 5 * 146097)
    (by omega) (by omega)
  unfold FourDigitYear civilTime dateOfDays
  dsimp only
  rw [hera]
  omega

theorem timeChar_civilChars {civil : CivilTime} {c : Char} (h : c ∈ civilChars 'T' civil) :
    TimeChar c := by
  unfold civilChars at h
  simp only [List.mem_append, List.mem_cons] at h
  rcases h with h | rfl | h | rfl | h | rfl | h | rfl | h | rfl | h
  all_goals first | exact timeChar_digits h | exact Or.inr (by decide)

theorem timeChar_east {minutes : ℤ} {c : Char} (h : c ∈ (Zone.east minutes).chars) :
    TimeChar c := by
  unfold Zone.chars at h
  simp only [List.mem_append, List.mem_cons] at h
  rcases h with rfl | h | rfl | h
  · split_ifs <;> exact Or.inr (by decide)
  · exact timeChar_digits h
  · exact Or.inr (by decide)
  · exact timeChar_digits h

theorem timeChar_localChars {t places : ℕ} {minutes : ℤ} {c : Char}
    (h : c ∈ localChars t places minutes) : TimeChar c :=
  (List.mem_append.mp h).elim timeChar_civilChars timeChar_fractionChars

/-- A `Z` is read as the offset of no minutes. -/
theorem replaceZ_isoText (t places : ℕ) (zone : Zone) :
    replaceZ (isoText t places zone) =
      String.ofList (localChars t places zone.minutes ++ (Zone.east zone.minutes).chars) := by
  have hzone : zone.chars.flatMap expandZ = (Zone.east zone.minutes).chars := by
    cases zone with
    | zulu => rfl
    | east minutes => exact expandZ_of_timeChar fun _ => timeChar_east
  unfold replaceZ isoText
  rw [String.toList_ofList, List.flatMap_append, hzone,
    expandZ_of_timeChar fun _ => timeChar_localChars]

theorem strip_isoText (t places : ℕ) (zone : Zone) :
    strip (isoText t places zone) = isoText t places zone := by
  refine strip_of_no_space fun c hc => ?_
  rcases List.mem_append.mp hc with hc | hc
  · exact isSpace_of_timeChar (timeChar_localChars hc)
  · cases zone with
    | zulu =>
        rw [List.mem_singleton.mp hc]
        decide
    | east minutes => exact isSpace_of_timeChar (timeChar_east hc)

/-- The text starts with digits and a dash. -/
theorem isoText_eq (t places : ℕ) (zone : Zone) :
    ∃ n rest, isoText t places zone = String.ofList (digits 4 n ++ '-' :: rest) :=
  ⟨(civilTime ((t / 1000 : ℕ) + zone.minutes * 60)).year.toNat, _, by
    unfold isoText localChars civilChars
    rw [List.append_assoc, List.append_assoc, List.cons_append]⟩

theorem isoText_ne_empty (t places : ℕ) (zone : Zone) : isoText t places zone ≠ "" := by
  obtain ⟨n, rest, htext⟩ := isoText_eq t places zone
  rw [htext]
  exact ofList_ne_empty (List.append_ne_nil_of_left_ne_nil (digits_ne_nil (by decide) n) _)

/-- It is not the text of a number. -/
theorem readFloat_isoText (t places : ℕ) (zone : Zone) :
    readFloat (isoText t places zone) = none := by
  have hstrip := strip_isoText t places zone
  obtain ⟨n, rest, htext⟩ := isoText_eq t places zone
  rw [htext] at hstrip ⊢
  unfold readFloat
  rw [hstrip, String.toList_ofList]
  dsimp only
  rw [if_neg (head?_ne_of_isDigit (by decide) rfl), if_neg (head?_ne_of_isDigit (by decide) rfl)]
  unfold readUnsigned
  dsimp only
  rw [takeWhile_digits, dropWhile_digits, List.dropWhile_cons_of_neg (by decide),
    List.takeWhile_cons_of_neg (by decide), List.append_nil, List.head?_cons, if_neg (by decide)]
  unfold readDecimal
  rw [if_neg fun h => digits_ne_nil (by decide) n h.1]
  rfl

/-- The fraction of a second is written without a rest. -/
def Exact (places t : ℕ) : Prop := places ≤ 6 ∧ t % 1000 * 10 ^ places % 1000 = 0

theorem fractionOf_lt {places t : ℕ} : fractionOf places t < 10 ^ places := by
  unfold fractionOf
  rw [Nat.div_lt_iff_lt_mul (by decide), mul_comm (10 ^ places)]
  exact Nat.mul_lt_mul_of_pos_right (Nat.mod_lt t (by decide)) (Nat.pow_pos (by decide))

theorem fractionOf_mul {places t : ℕ} (h : Exact places t) :
    fractionOf places t * 1000 = t % 1000 * 10 ^ places := by
  unfold fractionOf
  exact Nat.div_mul_cancel (Nat.dvd_of_mod_eq_zero h.2)

/-- What `fromisoformat` reads is the instant. -/
theorem fromisoformat_isoText {t places : ℕ} {zone : Zone} (hlow : 1000000000000 ≤ t)
    (hhigh : t < 10000000000000) (hexact : Exact places t) (hzone : zone.minutes.natAbs < 1440) :
    fromisoformat (replaceZ (isoText t places zone)) =
      some ⟨t * 1000 + zone.minutes * 60000000, some (zone.minutes * 60000000)⟩ := by
  have hyear : FourDigitYear (civilTime ((t / 1000 : ℕ) + zone.minutes * 60)) :=
    fourDigitYear_of_range (by omega) (by omega)
  have hmicros : fractionOf places t * 10 ^ (6 - places) = t % 1000 * 1000 := by
    have hpow : 10 ^ places * 10 ^ (6 - places) = 1000000 := by
      rw [← pow_add, Nat.add_sub_cancel' hexact.1]
      norm_num
    have hscaled : fractionOf places t * 10 ^ (6 - places) * 1000 = t % 1000 * 1000000 := by
      rw [mul_right_comm, fractionOf_mul hexact, mul_assoc, hpow]
    omega
  rw [replaceZ_isoText, localChars, List.append_assoc,
    fromisoformat_civilChars (fits_civilTime hyear) (real_civilTime hyear) hexact.1 fractionOf_lt
      hzone, secondsOf_civilTime]
  have hcast : (fractionOf places t : ℤ) * 10 ^ (6 - places) = (t % 1000 * 1000 : ℕ) := by
    rw [← hmicros]
    push_cast
    rfl
  rw [hcast]
  congr 2
  omega

end SmcPipeline.EpochTexts
