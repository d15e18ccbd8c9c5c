import SmcPipeline.ViewerStateBuilder
import Mathlib.Data.List.TakeWhile

/-!
# `datetime.fromisoformat`

The reader of the standard library (CPython 3.11, the runtime of the project): a date with or
without dashes, any character, a clock with or without colons, and an offset. The forms that
name a week are not read here.
-/

namespace SmcPipeline.IsoFormat

open Calendar

structure Clock where
  hour : ℤ
  minute : ℤ
  second : ℤ
  micros : ℤ

/-- A fraction of a second: its first six digits count, and more may follow. The flag says whether
the text ends with them. -/
def readMicros (cs : List Char) : Option (ℤ × Bool) :=
  let places := min 6 cs.length
  (valueOf (cs.take places)).map fun n : ℕ =>
    ((n : ℤ) * 10 ^ (6 - places), (cs.drop places).all Char.isDigit)

/-- Hours, minutes and seconds of two digits. A fraction may follow each of them; a single character
after one is left over, and the flag says that nothing is. -/
def readUnits (colons : Bool) : ℕ → List Char → Option (List ℤ × ℤ × Bool)
  | 0, cs => (readMicros cs).map fun (micros, ended) => ([], micros, ended)
  | n + 1, cs => do
    let (unit, cs) ← readField 2 cs
    match cs with
    | [] => return ([unit], 0, true)
    | [_] => return ([unit], 0, false)
    | c :: cs =>
      let (units, rest) ←
        if colons ∧ c = ':' then readUnits colons n cs
        else if c = '.' ∨ c = ',' then (readMicros cs).map fun r => ([], r)
        else if colons then none
        else readUnits colons n (c :: cs)
      return (unit :: units, rest)

def readClock (cs : List Char) : Option (Clock × Bool) :=
  (readUnits (decide (cs[2]? = some ':')) 3 cs).map fun (units, micros, ended) =>
    (⟨units.getD 0 0, units.getD 1 0, units.getD 2 0, micros⟩, ended)

/-- The offset after `+` or `-`, in microseconds; it is shorter than a day. One of no whole second
is UTC. -/
def readOffset (mark : Char) (cs : List Char) : Option ℤ :=
  if mark = 'Z' then if cs = [] then some 0 else none
  else do
    let (clock, ended) ← readClock cs
    let seconds := clock.hour * 3600 + clock.minute * 60 + clock.second
    let micros := if seconds = 0 then 0 else seconds * 1000000 + clock.micros
    if ended ∧ micros < 86400000000 then return (if mark = '-' then -micros else micros) else none

def isZoneMark (c : Char) : Bool := c = '+' || c = '-' || c = 'Z'

def readTime (cs : List Char) : Option (Clock × Option ℤ) :=
  match cs.dropWhile fun c => !isZoneMark c with
  | [] => (readClock cs).bind fun (clock, ended) => if ended then some (clock, none) else none
  | mark :: zone => do
    let (clock, _) ← readClock (cs.takeWhile fun c => !isZoneMark c)
    let offset ← readOffset mark zone
    return (clock, some offset)

/-- Year, month and day at the start of a text, and what follows them. -/
def readDate (cs : List Char) : Option ((ℤ × ℤ × ℤ) × List Char) := do
  let (year, cs) ← readField 4 cs
  let dashed := decide (cs.head? = some '-')
  let (month, cs) ← readField 2 (if dashed then cs.tail else cs)
  let cs ← if dashed then readMark '-' cs else some cs
  let (day, cs) ← readField 2 cs
  return ((year, month, day), cs)

/-- The fields of a datetime: a date that exists is the date of its own day. -/
def Real (c : CivilTime) : Prop :=
  1 ≤ c.year ∧
    { dateOfDays (daysOfDate c.year c.month c.day) with
      hour := c.hour, minute := c.minute, second := c.second } = c ∧
    c.hour < 24 ∧ c.minute < 60 ∧ c.second < 60

instance : DecidablePred Real := fun _ => inferInstanceAs (Decidable (_ ∧ _))

def fromisoformat (text : String) : Option IsoTime := do
  let ((year, month, day), cs) ← readDate text.toList
  let (clock, offset) ← match cs with
    | [] => some (⟨0, 0, 0, 0⟩, none)
    | _ :: cs => readTime cs
  let c : CivilTime := ⟨year, month, day, clock.hour, clock.minute, clock.second⟩
  if Real c then return ⟨secondsOf c * 1000000 + clock.micros, offset⟩ else none

/-- A point and digits, if there are any. -/
def fractionChars (places n : ℕ) : List Char :=
  if places = 0 then [] else '.' :: digits places n

/-- UTC, or an offset of whole minutes. -/
inductive Zone
  | zulu
  | east (minutes : ℤ)

def Zone.minutes : Zone → ℤ
  | zulu => 0
  | east minutes => minutes

def Zone.chars : Zone → List Char
  | zulu => ['Z']
  | east minutes =>
    (if minutes < 0 then '-' else '+') ::
      (digits 2 (minutes.natAbs / 60) ++ ':' :: digits 2 (minutes.natAbs % 60))

def clockChars (c : CivilTime) : List Char :=
  digits 2 c.hour.toNat ++ ':' :: (digits 2 c.minute.toNat ++ ':' :: digits 2 c.second.toNat)

theorem readField_natCast {width n : ℕ} (h : n < 10 ^ width) (rest : List Char) :
    readField width (digits width n ++ rest) = some ((n : ℤ), rest) := by
  have hread := readField_digits (n := (n : ℤ)) (Int.natCast_nonneg n) (by exact_mod_cast h) rest
  rwa [Int.toNat_natCast] at hread

theorem readField_pair {n : ℤ} (h : 0 ≤ n ∧ n < 100) (rest : List Char) :
    readField 2 (digits 2 n.toNat ++ rest) = some (n, rest) :=
  readField_digits h.1 (by norm_num; exact h.2) rest

theorem readMicros_digits {places n : ℕ} (hplaces : places ≤ 6) (hn : n < 10 ^ places) :
    readMicros (digits places n) = some ((n : ℤ) * 10 ^ (6 - places), true) := by
  unfold readMicros
  rw [length_digits, min_eq_right hplaces]
  dsimp only
  rw [List.take_of_length_le (length_digits places n).le,
    List.drop_of_length_le (length_digits places n).le, valueOf_digits hn]
  rfl

/-- A text that ends after a unit. -/
theorem readUnits_last {colons : Bool} {n : ℕ} {cs : List Char} {unit : ℤ}
    (h : readField 2 cs = some (unit, [])) :
    readUnits colons (n + 1) cs = some ([unit], 0, true) := by
  rw [readUnits, h]
  rfl

/-- A unit that more than one character follows. -/
theorem readUnits_next {colons : Bool} {n : ℕ} {cs rest : List Char} {c : Char} {unit : ℤ}
    (h : readField 2 cs = some (unit, c :: rest)) (hrest : rest ≠ []) :
    readUnits colons (n + 1) cs =
      (if colons ∧ c = ':' then readUnits colons n rest
        else if c = '.' ∨ c = ',' then (readMicros rest).map fun r => ([], r)
        else if colons then none
        else readUnits colons n (c :: rest)).map fun r => (unit :: r.1, r.2) := by
  obtain ⟨d, rest, rfl⟩ := List.exists_cons_of_ne_nil hrest
  rw [readUnits, h]
  dsimp only [Option.bind_eq_bind, Option.bind_some]
  split_ifs <;> simp [Option.map_eq_bind]

theorem digits_ne_nil {width : ℕ} (h : 0 < width) (n : ℕ) : digits width n ≠ [] := by
  rw [← List.length_pos_iff, length_digits]
  exact h

/-- A clock with colons and a fraction. -/
theorem readClock_clockChars {c : CivilTime} (h : Fits c) {places n : ℕ} (hplaces : places ≤ 6)
    (hn : n < 10 ^ places) :
    readClock (clockChars c ++ fractionChars places n) =
      some (⟨c.hour, c.minute, c.second, n * 10 ^ (6 - places)⟩, true) := by
  have hhour := readField_pair h.hour (':' :: (digits 2 c.minute.toNat ++ ':' ::
    (digits 2 c.second.toNat ++ fractionChars places n)))
  have hminute := readField_pair h.minute
    (':' :: (digits 2 c.second.toNat ++ fractionChars places n))
  have hsecond := readField_pair h.second (fractionChars places n)
  have hthird : readUnits true 1 (digits 2 c.second.toNat ++ fractionChars places n) =
      some ([c.second], (n : ℤ) * 10 ^ (6 - places), true) := by
    by_cases hzero : places = 0
    · subst hzero
      obtain rfl : n = 0 := by simpa using hn
      exact readUnits_last hsecond
    · unfold fractionChars at hsecond ⊢
      rw [if_neg hzero] at hsecond ⊢
      rw [readUnits_next hsecond (digits_ne_nil (Nat.pos_of_ne_zero hzero) n), if_neg (by decide),
        if_pos (Or.inl rfl), readMicros_digits hplaces hn]
      rfl
  have hcolon : (clockChars c ++ fractionChars places n)[2]? = some ':' := by
    unfold clockChars
    rw [List.append_assoc, List.getElem?_append_right (length_digits 2 _).le, length_digits]
    rfl
  unfold readClock
  rw [hcolon]
  unfold clockChars
  simp only [List.append_assoc, List.cons_append, decide_true]
  rw [readUnits_next hhour (by simp), if_pos (by decide), readUnits_next hminute
    (List.append_ne_nil_of_left_ne_nil (digits_ne_nil (by decide) _) _), if_pos (by decide), hthird]
  rfl

theorem readOffset_east {minutes : ℤ} (h : minutes.natAbs < 1440) :
    readOffset (if minutes < 0 then '-' else '+')
      (digits 2 (minutes.natAbs / 60) ++ ':' :: digits 2 (minutes.natAbs % 60)) =
      some (minutes * 60000000) := by
  have hhour := readField_natCast (show minutes.natAbs / 60 < 10 ^ 2 by omega)
    (':' :: digits 2 (minutes.natAbs % 60))
  have hminute := readField_natCast (show minutes.natAbs % 60 < 10 ^ 2 by omega) []
  rw [List.append_nil] at hminute
  have hclock : readClock (digits 2 (minutes.natAbs / 60) ++
      ':' :: digits 2 (minutes.natAbs % 60)) =
      some (⟨(minutes.natAbs / 60 : ℕ), (minutes.natAbs % 60 : ℕ), 0, 0⟩, true) := by
    have hcolon : (digits 2 (minutes.natAbs / 60) ++ ':' ::
        digits 2 (minutes.natAbs % 60))[2]? = some ':' := by
      rw [List.getElem?_append_right (length_digits 2 _).le, length_digits]
      rfl
    unfold readClock
    rw [hcolon, decide_eq_true rfl, readUnits_next hhour (digits_ne_nil (by decide) _),
      if_pos (by decide), readUnits_last hminute]
    rfl
  have hseconds : ((minutes.natAbs / 60 : ℕ) : ℤ) * 3600 +
      ((minutes.natAbs % 60 : ℕ) : ℤ) * 60 + 0 = minutes.natAbs * 60 := by omega
  have hmicros : (if (minutes.natAbs : ℤ) * 60 = 0 then (0 : ℤ)
      else (minutes.natAbs : ℤ) * 60 * 1000000 + 0) = minutes.natAbs * 60000000 := by
    split_ifs <;> omega
  unfold readOffset
  rw [if_neg (by split_ifs <;> decide), hclock]
  dsimp only [Option.bind_eq_bind, Option.bind_some]
  rw [hseconds, hmicros, if_pos ⟨rfl, by omega⟩]
  by_cases hneg : minutes < 0
  · rw [if_pos hneg, if_pos rfl]
    exact congrArg some (by omega)
  · rw [if_neg hneg, if_neg (by decide)]
    exact congrArg some (by omega)

theorem readDate_civilChars {c : CivilTime} (h : Fits c) (rest : List Char) :
    readDate (civilChars 'T' c ++ rest) =
      some ((c.year, c.month, c.day), 'T' :: (clockChars c ++ rest)) := by
  have hyear : ∀ rest, readField 4 (digits 4 c.year.toNat ++ rest) = some (c.year, rest) :=
    readField_digits (by have := h.year.1; omega) (by have := h.year.2; norm_num; omega)
  unfold readDate civilChars clockChars
  simp only [List.append_assoc, List.cons_append]
  rw [hyear]
  simp only [Option.bind_eq_bind, Option.bind_some, List.head?_cons, decide_true, if_true,
    List.tail_cons]
  rw [readField_pair h.month]
  simp only [Option.bind_some, readMark_cons]
  rw [readField_pair h.day]
  rfl

theorem isZoneMark_of_isDigit {c : Char} (h : c.isDigit = true) : isZoneMark c = false := by
  unfold isZoneMark
  simp only [Bool.or_eq_false_iff, decide_eq_false_iff_not]
  refine ⟨⟨?_, ?_⟩, ?_⟩ <;> (rintro rfl; cases h)

theorem isZoneMark_fractionChars {places n : ℕ} {c : Char} (h : c ∈ fractionChars places n) :
    isZoneMark c = false := by
  unfold fractionChars at h
  split_ifs at h with hzero
  · cases h
  · rcases List.mem_cons.mp h with rfl | h
    · rfl
    · exact isZoneMark_of_isDigit (isDigit_of_mem_digits h)

theorem isZoneMark_clockChars {c : CivilTime} {x : Char} (h : x ∈ clockChars c) :
    isZoneMark x = false := by
  unfold clockChars at h
  simp only [List.mem_append, List.mem_cons] at h
  rcases h with h | rfl | h | rfl | h
  · exact isZoneMark_of_isDigit (isDigit_of_mem_digits h)
  · rfl
  · exact isZoneMark_of_isDigit (isDigit_of_mem_digits h)
  · rfl
  · exact isZoneMark_of_isDigit (isDigit_of_mem_digits h)

/-- A time with an offset is read back from its text. -/
theorem fromisoformat_civilChars {c : CivilTime} (h : Fits c) (hreal : Real c) {places n : ℕ}
    (hplaces : places ≤ 6) (hn : n < 10 ^ places) {minutes : ℤ} (hminutes : minutes.natAbs < 1440) :
    fromisoformat (String.ofList
      (civilChars 'T' c ++ (fractionChars places n ++ (Zone.east minutes).chars))) =
      some ⟨secondsOf c * 1000000 + n * 10 ^ (6 - places), some (minutes * 60000000)⟩ := by
  have hclock : ∀ x ∈ clockChars c ++ fractionChars places n, (!isZoneMark x) = true := by
    intro x hx
    rcases List.mem_append.mp hx with hx | hx
    · rw [isZoneMark_clockChars hx]
      rfl
    · rw [isZoneMark_fractionChars hx]
      rfl
  have hmark : (!isZoneMark (if minutes < 0 then '-' else '+')) = false := by
    split_ifs <;> decide
  unfold fromisoformat
  rw [String.toList_ofList, readDate_civilChars h]
  simp only [Option.bind_eq_bind, Option.bind_some]
  unfold readTime
  rw [← List.append_assoc, List.dropWhile_append_of_pos hclock, List.takeWhile_append_of_pos hclock,
    Zone.chars, List.dropWhile_cons_of_neg (by rw [hmark]; decide),
    List.takeWhile_cons_of_neg (by rw [hmark]; decide), List.append_nil]
  dsimp only
  rw [readClock_clockChars h hplaces hn, readOffset_east hminutes]
  simp only [Option.bind_eq_bind, Option.bind_some, Option.pure_def]
  rw [if_pos hreal]

/-- The fields of a time are those of a datetime. -/
theorem real_civilTime {seconds : ℤ} (h : FourDigitYear (civilTime seconds)) :
    Real (civilTime seconds) := by
  have hday : daysOfDate (civilTime seconds).year (civilTime seconds).month
      (civilTime seconds).day = seconds / 86400 := daysOfDate_dateOfDays _
  refine ⟨by have := h.1; omega, ?_, ?_, ?_, ?_⟩
  · rw [hday]
    rfl
  all_goals
    unfold civilTime
    dsimp only
    omega

theorem head?_digits {width n : ℕ} (h : 0 < width) {rest : List Char} {c : Char}
    (hc : (digits width n ++ rest).head? = some c) : c.isDigit = true := by
  rw [List.head?_append_of_ne_nil _ (digits_ne_nil h n)] at hc
  exact isDigit_of_mem_digits (List.mem_of_mem_head? hc)

/-- Eight digits are a date without dashes. -/
theorem readDate_digits {n : ℕ} (h : n < 100000000) (rest : List Char) :
    readDate (digits 8 n ++ rest) =
      some ((((n / 10000 : ℕ) : ℤ), ((n / 100 % 100 : ℕ) : ℤ), ((n % 100 : ℕ) : ℤ)), rest) := by
  have hsplit : digits 8 n =
      digits 4 (n / 10000) ++ (digits 2 (n / 100 % 100) ++ digits 2 (n % 100)) := by
    rw [digits_split 6 2 n, digits_split 4 2, List.append_assoc, Nat.div_div_eq_div_mul]
    rfl
  have hdash : decide ((digits 2 (n / 100 % 100) ++ (digits 2 (n % 100) ++ rest)).head? =
      some '-') = false := by
    rw [decide_eq_false_iff_not]
    intro hhead
    exact absurd (head?_digits (by decide) hhead) (by decide)
  unfold readDate
  rw [hsplit, List.append_assoc, List.append_assoc,
    readField_natCast (show n / 10000 < 10 ^ 4 by omega)]
  simp only [Option.bind_eq_bind, Option.bind_some]
  rw [hdash]
  simp only [Bool.false_eq_true, if_false]
  rw [readField_natCast (show n / 100 % 100 < 10 ^ 2 by omega)]
  simp only [Option.bind_some]
  rw [readField_natCast (show n % 100 < 10 ^ 2 by omega)]
  rfl

/-- A time without a zone mark has no offset. -/
theorem readTime_of_no_mark {cs : List Char} (h : ∀ c ∈ cs, isZoneMark c = false) :
    readTime cs =
      (readClock cs).bind fun (clock, ended) => if ended then some (clock, none) else none := by
  have hdrop : cs.dropWhile (fun c => !isZoneMark c) = [] := by
    rw [List.dropWhile_eq_nil_iff]
    intro c hc
    rw [h c hc]
    rfl
  unfold readTime
  rw [hdrop]

/-- After a date of eight digits and the ninth as separator one digit is no hour. -/
theorem fromisoformat_ten_digits {n : ℕ} (h : n < 10000000000) (places fraction : ℕ) :
    fromisoformat (String.ofList (digits 10 n ++ fractionChars places fraction)) = none := by
  have hsplit : digits 10 n = digits 8 (n / 100) ++
      [(n / 10 % 10).digitChar, (n % 10).digitChar] := by
    have htens : n % 10 ^ 2 / 10 % 10 = n / 10 % 10 := by omega
    have hunits : n % 10 ^ 2 % 10 = n % 10 := by omega
    rw [digits_split 8 2 n, ← htens, ← hunits]
    rfl
  have hnone : readField 2 ((n % 10).digitChar :: fractionChars places fraction) = none := by
    unfold readField fractionChars
    by_cases hzero : places = 0
    · rw [if_pos hzero]
      rfl
    · rw [if_neg hzero, if_neg (by simp)]
      have hvalue : valueOf [(n % 10).digitChar, '.'] = none := by
        unfold valueOf
        rw [List.foldl_cons, List.foldl_cons, List.foldl_nil]
        cases pushDigit (some 0) (n % 10).digitChar <;> rfl
      exact congrArg (Option.map _) hvalue
  have htime : readTime ((n % 10).digitChar :: fractionChars places fraction) = none := by
    rw [readTime_of_no_mark]
    · unfold readClock
      rw [readUnits, hnone]
      rfl
    · intro c hc
      rcases List.mem_cons.mp hc with rfl | hc
      · exact isZoneMark_of_isDigit (digitChar_spec (Nat.mod_lt n (by decide))).1
      · exact isZoneMark_fractionChars hc
  unfold fromisoformat
  rw [String.toList_ofList, hsplit, List.append_assoc, readDate_digits (by omega)]
  simp only [Option.bind_eq_bind, Option.bind_some, List.cons_append, List.nil_append]
  rw [htime]
  rfl

/-- The local time that thirteen digits are read as: a date of eight, one for the separator, and
hours and minutes of two. -/
def stampOf (n : ℕ) : CivilTime :=
  ⟨(n / 1000000000 : ℕ), (n / 10000000 % 100 : ℕ), (n / 100000 % 100 : ℕ), (n / 100 % 100 : ℕ),
    (n % 100 : ℕ), 0⟩

theorem readClock_four_digits (n : ℕ) {places : ℕ} (hplaces : places ≤ 6) :
    readClock (digits 2 (n / 100 % 100) ++ (digits 2 (n % 100) ++ fractionChars places 0)) =
      some (⟨(n / 100 % 100 : ℕ), (n % 100 : ℕ), 0, 0⟩, true) := by
  have hhour := readField_natCast (show n / 100 % 100 < 10 ^ 2 by omega)
    (digits 2 (n % 100) ++ fractionChars places 0)
  have hminute := readField_natCast (show n % 100 < 10 ^ 2 by omega) (fractionChars places 0)
  have hsecond : readUnits false 2 (digits 2 (n % 100) ++ fractionChars places 0) =
      some ([((n % 100 : ℕ) : ℤ)], 0, true) := by
    by_cases hzero : places = 0
    · subst hzero
      exact readUnits_last hminute
    · unfold fractionChars at hminute ⊢
      rw [if_neg hzero] at hminute ⊢
      rw [readUnits_next hminute (digits_ne_nil (Nat.pos_of_ne_zero hzero) 0), if_neg (by decide),
        if_pos (Or.inl rfl), readMicros_digits hplaces (Nat.pow_pos (by decide))]
      simp
  -- The minutes, with their first digit in view: it is neither a colon nor a point.
  have hdigit : ((n % 100 / 10 % 10).digitChar).isDigit = true :=
    (digitChar_spec (Nat.mod_lt _ (by decide))).1
  have hcons : digits 2 (n % 100) ++ fractionChars places 0 = (n % 100 / 10 % 10).digitChar ::
      ((n % 100 % 10).digitChar :: fractionChars places 0) := rfl
  generalize (n % 100 / 10 % 10).digitChar = c at hdigit hcons
  have hcolon : c ≠ ':' := by
    rintro rfl
    cases hdigit
  have hpoint : ¬(c = '.' ∨ c = ',') := by
    rintro (rfl | rfl) <;> cases hdigit
  rw [hcons] at hhour hsecond ⊢
  have hthird : (digits 2 (n / 100 % 100) ++
      c :: ((n % 100 % 10).digitChar :: fractionChars places 0))[2]? = some c := by
    rw [List.getElem?_append_right (length_digits 2 _).le, length_digits]
    rfl
  unfold readClock
  rw [hthird, decide_eq_false (by rw [Option.some_inj]; exact hcolon),
    readUnits_next hhour (List.cons_ne_nil _ _), if_neg (by simp), if_neg hpoint,
    if_neg (by decide), hsecond]
  rfl

theorem fromisoformat_thirteen_digits {n places : ℕ} (h : n < 10000000000000)
    (hplaces : places ≤ 6) :
    fromisoformat (String.ofList (digits 13 n ++ fractionChars places 0)) =
      if Real (stampOf n) then some ⟨secondsOf (stampOf n) * 1000000, none⟩ else none := by
  have hsplit : digits 13 n = digits 8 (n / 100000) ++ ((n / 10000 % 10).digitChar ::
      (digits 2 (n / 100 % 100) ++ digits 2 (n % 100))) := by
    have hsep : n % 10 ^ 5 / 10 ^ 4 % 10 = n / 10000 % 10 := by omega
    have hhour : n % 10 ^ 5 % 10 ^ 4 / 10 ^ 2 = n / 100 % 100 := by omega
    have hminute : n % 10 ^ 5 % 10 ^ 4 % 10 ^ 2 = n % 100 := by omega
    rw [digits_split 8 5 n, digits_split 1 4, digits_split 2 2, ← hsep, ← hhour, ← hminute]
    rfl
  have htime : readTime (digits 2 (n / 100 % 100) ++ (digits 2 (n % 100) ++
      fractionChars places 0)) =
      some (⟨(n / 100 % 100 : ℕ), (n % 100 : ℕ), 0, 0⟩, none) := by
    rw [readTime_of_no_mark, readClock_four_digits n hplaces]
    · rfl
    · intro c hc
      rcases List.mem_append.mp hc with hc | hc
      · exact isZoneMark_of_isDigit (isDigit_of_mem_digits hc)
      · rcases List.mem_append.mp hc with hc | hc
        · exact isZoneMark_of_isDigit (isDigit_of_mem_digits hc)
        · exact isZoneMark_fractionChars hc
  have hstamp : (⟨(n / 100000 / 10000 : ℕ), (n / 100000 / 100 % 100 : ℕ), (n / 100000 % 100 : ℕ),
      (n / 100 % 100 : ℕ), (n % 100 : ℕ), 0⟩ : CivilTime) = stampOf n := by
    unfold stampOf
    rw [Nat.div_div_eq_div_mul, Nat.div_div_eq_div_mul]
  unfold fromisoformat
  rw [String.toList_ofList, hsplit, List.append_assoc, readDate_digits (by omega)]
  simp only [Option.bind_eq_bind, Option.bind_some, List.cons_append, List.append_assoc]
  rw [htime]
  simp only [Option.bind_some, Option.pure_def]
  rw [hstamp, add_zero]

end SmcPipeline.IsoFormat
