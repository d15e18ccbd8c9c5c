import SmcPipeline.FxcmIngestor
import SmcPipeline.SignedPackets

/-!
# Two readings of a bar

`validate_fxcm_ohlcv_message` of `core/contracts/fxcm_validate.py` on a decoded object, next to
the loop of `_process_payload`. Both read seven numbers from a bar. The ingestor takes what
`int` and `float` take, which is more in most places (booleans, NaN, infinities, times in the
wrong order) and less in two (a time as text with a fraction or an exponent, and a text inside
separators that `strip` removes and `float` does not); and a `complete` that is falsy but not
`False` is complete to it.
-/

namespace SmcPipeline

/-- The ingestor's library functions, with the tests of a float and what is relied on of
`float` and `int`: NaN has no integer part, and the text of a list or a dict is no number. -/
structure ValidatorRuntime (F : Type*) extends Runtime F where
  isNan : F → Bool
  isInf : F → Bool
  int_nan : ∀ x, isNan x = true → int (.float x) = none
  float_arr : ∀ items, float (.str (FxcmIngestor.strip (str (.arr items)))) = none
  float_obj : ∀ fields, float (.str (FxcmIngestor.strip (str (.obj fields)))) = none

/-- A bar as the validator returns it. -/
structure OhlcvBar (F : Type*) where
  row : Bar F
  complete : Option Bool
  synthetic : Option Bool
  source : Option String

structure OhlcvMessage (F : Type*) where
  symbol : String
  tf : String
  bars : List (OhlcvBar F)

namespace FxcmValidate

open FxcmIngestor

variable {F : Type*} (env : ValidatorRuntime F)

/-- Python's `str` -/
def pyStr : Json F → String
  | .str s => s
  | v => env.str v

/-- `str(value or "")` -/
def textOf (v : Json F) : String := if truthy env.toRuntime v then pyStr env v else ""

/-- `_coerce_int` -/
def coerceInt : Json F → Option ℤ
  | .null => none
  | .bool _ => none
  | .int i => some i
  | .float x => if env.isNan x then none else env.int (.float x)
  | v =>
    let text := strip (pyStr env v)
    if text = "" then none else (env.float (.str text)).bind fun x => env.int (.float x)

/-- Neither NaN nor an infinity. -/
def isFinite (x : F) : Bool := !env.isNan x && !env.isInf x

/-- `_coerce_float` -/
def coerceFloat (v : Json F) : Option F :=
  let num := match v with
    | .null => none
    | .bool _ => none
    | .int i => env.float (.int i)
    | .float x => env.float (.float x)
    | v =>
      let text := strip (pyStr env v)
      if text = "" then none else env.float (.str text)
  num.filter (isFinite env)

/-- One bar of the loop. -/
def validateBar (fields : List (String × Json F)) : Option (OhlcvBar F) :=
  match coerceInt env (field fields "open_time"), coerceInt env (field fields "close_time"),
      coerceFloat env (field fields "open"), coerceFloat env (field fields "high"),
      coerceFloat env (field fields "low"), coerceFloat env (field fields "close"),
      coerceFloat env (field fields "volume") with
  | some openTime, some closeTime, some o, some h, some low, some c, some v =>
    if closeTime < openTime then none
    else
      let source := strip (textOf env (field fields "source"))
      some
        { row := ⟨openTime, o, h, low, c, v, closeTime, none⟩
          complete := (fields.lookup "complete").map (truthy env.toRuntime)
          synthetic := (fields.lookup "synthetic").map (truthy env.toRuntime)
          source := if source = "" then none else some source }
  | _, _, _, _, _, _, _ => none

def validBar : Json F → Option (OhlcvBar F)
  | .obj fields => validateBar env fields
  | _ => none

/-- `validate_fxcm_ohlcv_message` -/
def validateFxcmOhlcvMessage (obj : List (String × Json F)) : Option (OhlcvMessage F) :=
  let symbol := strip (textOf env (field obj "symbol"))
  let tf := strip (textOf env (if truthy env.toRuntime (field obj "tf") then field obj "tf"
    else field obj "timeframe"))
  match field obj "bars" with
  | .arr bars =>
    if symbol = "" ∨ tf = "" then none
    else
      let safeBars := bars.filterMap (validBar env)
      if safeBars.isEmpty then none else some ⟨symbol, tf, safeBars⟩
  | _ => none

/-- The float of a text that is not blank, without the white space around it. -/
def floatOfText (s : String) : Option F :=
  if strip s = "" then none else env.float (.str (strip s))

/-- The integer of a number, or of the text of one. -/
def wholeNumber : Json F → Option ℤ
  | .int i => some i
  | .float x => env.int (.float x)
  | .str s => (floatOfText env s).bind fun x => env.int (.float x)
  | _ => none

/-- The float of a number, or of the text of one, if it is finite. -/
def finiteNumber : Json F → Option F
  | .int i => (env.float (.int i)).filter (isFinite env)
  | .float x => (env.float (.float x)).filter (isFinite env)
  | .str s => (floatOfText env s).filter (isFinite env)
  | _ => none

def timeFields : List String := ["open_time", "close_time"]

def priceFields : List String := ["open", "high", "low", "close", "volume"]

/-- `int` takes the times of the bar, and `float` its prices and its volume. -/
def Converts (fields : List (String × Json F)) : Prop :=
  (∀ name ∈ timeFields, ((fields.lookup name).bind env.int).isSome = true) ∧
    ∀ name ∈ priceFields, ((fields.lookup name).bind env.float).isSome = true

/-- The fields are numbers or texts of numbers, the prices and the volume finite, and the bar
does not close before it opens. -/
def Numeric (fields : List (String × Json F)) : Prop :=
  (∃ opened closed, wholeNumber env (field fields "open_time") = some opened ∧
      wholeNumber env (field fields "close_time") = some closed ∧ opened ≤ closed) ∧
    ∀ name ∈ priceFields, (finiteNumber env (field fields name)).isSome = true

/-- A time that is a text is the same integer to `int` and to `float`, and a price that is
one is the same number with and without the white space around it. -/
def PlainTexts (fields : List (String × Json F)) : Prop :=
  (∀ name ∈ timeFields, ∀ s, fields.lookup name = some (.str s) →
      env.int (.str s) = wholeNumber env (.str s)) ∧
    ∀ name ∈ priceFields, ∀ s, fields.lookup name = some (.str s) →
      env.float (.str s) = floatOfText env s

/-- `complete` is absent, truthy, or `False` itself. -/
def PlainComplete (fields : List (String × Json F)) : Prop :=
  ∀ v, fields.lookup "complete" = some v → truthy env.toRuntime v = true ∨ v = .bool false

/-- Of the values that `int` and `float` take, all but the booleans. -/
def numberOrText : Json F → Bool
  | .int _ => true
  | .float _ => true
  | .str _ => true
  | _ => false

/-- What a bar that converts has to keep to: no boolean in place of a number, finite prices,
times in order, texts that are the same number to both, and a `complete` that says what it
is. -/
structure Plain (fields : List (String × Json F)) : Prop where
  kinds : ∀ name ∈ timeFields ++ priceFields, numberOrText (field fields name) = true
  finite : ∀ name ∈ priceFields, ∀ x,
    (fields.lookup name).bind env.float = some x → isFinite env x = true
  ordered : ∀ opened closed, (fields.lookup "open_time").bind env.int = some opened →
    (fields.lookup "close_time").bind env.int = some closed → opened ≤ closed
  texts : PlainTexts env fields
  complete : PlainComplete env fields

/-- A bar that converts is plain, and one that is numeric converts. -/
structure Unambiguous (fields : List (String × Json F)) : Prop where
  plain : Converts env fields → Plain env fields
  converts : Numeric env fields → Converts env fields

/-- Both keep the bar with the same numbers, complete or live for both, or neither keeps it. -/
def SameBar (bar : Json F) : Prop :=
  ((validBar env bar).map fun b => (b.row, b.complete.getD true)) =
    (incomingBar env.toRuntime bar).map fun b => (b.row, b.complete)

variable {env}

theorem bind_floatOfText (s : String) (f : F → Option ℤ) :
    (if strip s = "" then none else (env.float (.str (strip s))).bind f) =
      (floatOfText env s).bind f := by
  unfold floatOfText
  split_ifs <;> rfl

theorem floatOfText_arr (items : List (Json F)) : floatOfText env (env.str (.arr items)) = none := by
  rw [floatOfText, env.float_arr, ite_self]

theorem floatOfText_obj (fields : List (String × Json F)) :
    floatOfText env (env.str (.obj fields)) = none := by
  rw [floatOfText, env.float_obj, ite_self]

theorem coerceInt_eq (v : Json F) : coerceInt env v = wholeNumber env v := by
  unfold coerceInt wholeNumber
  cases v with
  | null => rfl
  | bool b => rfl
  | int i => rfl
  | float x =>
      dsimp only
      split_ifs with hnan
      · exact (env.int_nan x hnan).symm
      · rfl
  | str s => exact bind_floatOfText s _
  | arr items =>
      refine (bind_floatOfText _ _).trans ?_
      rw [pyStr, floatOfText_arr]
      · rfl
      · exact nofun
  | obj fields =>
      refine (bind_floatOfText _ _).trans ?_
      rw [pyStr, floatOfText_obj]
      · rfl
      · exact nofun

theorem coerceFloat_eq (v : Json F) : coerceFloat env v = finiteNumber env v := by
  cases v with
  | null => rfl
  | bool b => rfl
  | int i => rfl
  | float x => rfl
  | str s => rfl
  | arr items =>
      change (floatOfText env (env.str (.arr items))).filter (isFinite env) = none
      rw [floatOfText_arr]
      rfl
  | obj fields =>
      change (floatOfText env (env.str (.obj fields))).filter (isFinite env) = none
      rw [floatOfText_obj]
      rfl

/-- The numbers of a bar, with the ways its times and its prices are read. -/
def readBar (int : String → Option ℤ) (float : String → Option F) : Option (Bar F) :=
  match int "open_time", int "close_time", float "open", float "high", float "low",
      float "close", float "volume" with
  | some openTime, some closeTime, some o, some h, some low, some c, some v =>
    some ⟨openTime, o, h, low, c, v, closeTime, none⟩
  | _, _, _, _, _, _, _ => none

section

variable {int : String → Option ℤ} {float : String → Option F} {r : Bar F}

theorem readBar_eq_some :
    readBar int float = some r ↔
      (int "open_time" = some r.openTime ∧ int "close_time" = some r.closeTime) ∧
        (float "open" = some r.opn ∧ float "high" = some r.high ∧ float "low" = some r.low ∧
          float "close" = some r.close ∧ float "volume" = some r.volume) ∧ r.isClosed = none := by
  unfold readBar
  constructor
  · intro h
    split at h
    · cases h
      exact ⟨⟨‹_›, ‹_›⟩, ⟨‹_›, ‹_›, ‹_›, ‹_›, ‹_›⟩, rfl⟩
    · cases h
  · rintro ⟨⟨hopen, hclose⟩, ⟨ho, hh, hl, hc, hv⟩, hclosed⟩
    rw [hopen, hclose, ho, hh, hl, hc, hv, ← hclosed]

theorem isSome_readBar :
    (readBar int float).isSome = true ↔
      (∀ name ∈ timeFields, (int name).isSome = true) ∧
        ∀ name ∈ priceFields, (float name).isSome = true := by
  constructor
  · intro h
    obtain ⟨r, hr⟩ := Option.isSome_iff_exists.mp h
    obtain ⟨⟨hopen, hclose⟩, ⟨ho, hh, hl, hc, hv⟩, -⟩ := readBar_eq_some.mp hr
    simp [timeFields, priceFields, hopen, hclose, ho, hh, hl, hc, hv]
  · rintro ⟨htimes, hprices⟩
    simp only [timeFields, priceFields, List.forall_mem_cons, Option.isSome_iff_exists]
      at htimes hprices
    obtain ⟨⟨openTime, hopen⟩, ⟨closeTime, hclose⟩, -⟩ := htimes
    obtain ⟨⟨o, ho⟩, ⟨h, hh⟩, ⟨low, hl⟩, ⟨c, hc⟩, ⟨v, hv⟩, -⟩ := hprices
    exact Option.isSome_iff_exists.mpr ⟨⟨openTime, o, h, low, c, v, closeTime, none⟩,
      readBar_eq_some.mpr ⟨⟨hopen, hclose⟩, ⟨ho, hh, hl, hc, hv⟩, rfl⟩⟩

end

/-- The numbers that the ingestor reads. -/
def ingestedRow (env : ValidatorRuntime F) (fields : List (String × Json F)) : Option (Bar F) :=
  readBar (fun name => (fields.lookup name).bind env.int)
    fun name => (fields.lookup name).bind env.float

/-- The numbers that the validator reads, if they are in the order of time. -/
def validatedRow (env : ValidatorRuntime F) (fields : List (String × Json F)) : Option (Bar F) :=
  (readBar (fun name => wholeNumber env (field fields name))
    fun name => finiteNumber env (field fields name)).filter
      fun r => decide (r.openTime ≤ r.closeTime)

section

variable {fields : List (String × Json F)}

theorem ingested_eq :
    (incomingBar env.toRuntime (.obj fields)).map (fun b => (b.row, b.complete)) =
      (ingestedRow env fields).map fun row => (row, match fields.lookup "complete" with
        | some (.bool false) => false
        | _ => true) := by
  unfold incomingBar
  rw [Option.map_map]
  rfl

theorem validated_eq :
    (validBar env (.obj fields)).map (fun b => (b.row, b.complete.getD true)) =
      (validatedRow env fields).map fun row =>
        (row, ((fields.lookup "complete").map (truthy env.toRuntime)).getD true) := by
  unfold validBar validateBar validatedRow readBar
  simp only [coerceInt_eq, coerceFloat_eq]
  split
  · rename_i openTime closeTime o h low c v _ _ _ _ _ _ _
    rw [Option.filter_some]
    simp only [decide_eq_true_eq]
    by_cases hbefore : closeTime < openTime
    · rw [if_pos hbefore, if_neg (not_le.mpr hbefore)]
      rfl
    · rw [if_neg hbefore, if_pos (not_lt.mp hbefore)]
      rfl
  · rfl

theorem converts_iff : Converts env fields ↔ (ingestedRow env fields).isSome = true :=
  isSome_readBar.symm

theorem numeric_iff : Numeric env fields ↔ (validatedRow env fields).isSome = true := by
  unfold Numeric validatedRow
  constructor
  · rintro ⟨⟨opened, closed, hopened, hclosed, hle⟩, hprices⟩
    have hread : (readBar (fun name => wholeNumber env (field fields name))
        fun name => finiteNumber env (field fields name)).isSome = true :=
      isSome_readBar.mpr ⟨by simp [timeFields, hopened, hclosed], hprices⟩
    obtain ⟨r, hr⟩ := Option.isSome_iff_exists.mp hread
    obtain ⟨⟨ho, hc⟩, -⟩ := readBar_eq_some.mp hr
    obtain rfl := Option.some.inj (hopened.symm.trans ho)
    obtain rfl := Option.some.inj (hclosed.symm.trans hc)
    rw [hr, Option.filter_some, if_pos (decide_eq_true hle)]
    rfl
  · intro h
    obtain ⟨r, hr⟩ := Option.isSome_iff_exists.mp h
    obtain ⟨hr, hle⟩ := Option.filter_eq_some_iff.mp hr
    obtain ⟨⟨ho, hc⟩, -⟩ := readBar_eq_some.mp hr
    exact ⟨⟨_, _, ho, hc, of_decide_eq_true hle⟩,
      (isSome_readBar.mp (Option.isSome_iff_exists.mpr ⟨r, hr⟩)).2⟩

theorem numberOrText_of_wholeNumber {v : Json F} {t : ℤ} (h : wholeNumber env v = some t) :
    numberOrText v = true := by
  cases v with
  | null => cases h
  | bool b => cases h
  | int i => rfl
  | float x => rfl
  | str s => rfl
  | arr items => cases h
  | obj items => cases h

/-- The integer that `int` reads is the validator's too exactly if a text is whole. -/
theorem wholeNumber_eq_iff {name : String} {t : ℤ}
    (hkind : numberOrText (field fields name) = true)
    (ht : (fields.lookup name).bind env.int = some t) :
    wholeNumber env (field fields name) = some t ↔
      ∀ s, fields.lookup name = some (.str s) → env.int (.str s) = wholeNumber env (.str s) := by
  obtain ⟨v, hv, hint⟩ := Option.bind_eq_some_iff.mp ht
  rw [field, hv, Option.getD_some] at hkind ⊢
  cases v with
  | null => cases hkind
  | bool b => cases hkind
  | int i =>
      rw [env.int_int] at hint
      exact ⟨fun _ _ h => (nomatch h), fun _ => hint⟩
  | float x => exact ⟨fun _ _ h => (nomatch h), fun _ => hint⟩
  | str s =>
      constructor
      · rintro hwhole s' hs'
        cases hs'
        rw [hint, hwhole]
      · intro h
        rw [← h s rfl, hint]
  | arr items => cases hkind
  | obj items => cases hkind

theorem finite_of_finiteNumber {v : Json F} {x : F} (h : finiteNumber env v = some x) :
    numberOrText v = true ∧ isFinite env x = true := by
  unfold finiteNumber at h
  cases v with
  | null => cases h
  | bool b => cases h
  | int i => exact ⟨rfl, (Option.filter_eq_some_iff.mp h).2⟩
  | float y => exact ⟨rfl, (Option.filter_eq_some_iff.mp h).2⟩
  | str s => exact ⟨rfl, (Option.filter_eq_some_iff.mp h).2⟩
  | arr items => cases h
  | obj items => cases h

/-- A finite price that `float` reads is the validator's too exactly if a text is the same
number without the white space around it. -/
theorem finiteNumber_eq_iff {name : String} {x : F}
    (hkind : numberOrText (field fields name) = true) (hfinite : isFinite env x = true)
    (hx : (fields.lookup name).bind env.float = some x) :
    finiteNumber env (field fields name) = some x ↔
      ∀ s, fields.lookup name = some (.str s) → env.float (.str s) = floatOfText env s := by
  obtain ⟨v, hv, hfloat⟩ := Option.bind_eq_some_iff.mp hx
  rw [field, hv, Option.getD_some] at hkind ⊢
  unfold finiteNumber
  cases v with
  | null => cases hkind
  | bool b => cases hkind
  | int i =>
      exact ⟨fun _ _ h => (nomatch h), fun _ => Option.filter_eq_some_iff.mpr ⟨hfloat, hfinite⟩⟩
  | float y =>
      exact ⟨fun _ _ h => (nomatch h), fun _ => Option.filter_eq_some_iff.mpr ⟨hfloat, hfinite⟩⟩
  | str s =>
      constructor
      · rintro hread s' hs'
        cases hs'
        rw [hfloat, (Option.filter_eq_some_iff.mp hread).1]
      · intro h
        have hread : floatOfText env s = some x := by rw [← h s rfl, hfloat]
        exact Option.filter_eq_some_iff.mpr ⟨hread, hfinite⟩
  | arr items => cases hkind
  | obj items => cases hkind

/-- A price that both read is one float exactly if a text is. -/
theorem price_eq_iff {name : String} {x x' : F}
    (hx : (fields.lookup name).bind env.float = some x)
    (hx' : finiteNumber env (field fields name) = some x') :
    x' = x ↔ ∀ s, fields.lookup name = some (.str s) → env.float (.str s) = floatOfText env s := by
  obtain ⟨hkind, hfinite'⟩ := finite_of_finiteNumber hx'
  constructor
  · rintro rfl
    exact (finiteNumber_eq_iff hkind hfinite' hx).mp hx'
  · intro htext
    obtain ⟨v, hv, hfloat⟩ := Option.bind_eq_some_iff.mp hx
    rw [field, hv, Option.getD_some] at hkind hx'
    unfold finiteNumber at hx'
    cases v with
    | null => cases hkind
    | bool b => cases hkind
    | int i => exact Option.some.inj ((Option.filter_eq_some_iff.mp hx').1.symm.trans hfloat)
    | float y => exact Option.some.inj ((Option.filter_eq_some_iff.mp hx').1.symm.trans hfloat)
    | str s =>
        have hread := (Option.filter_eq_some_iff.mp hx').1
        rw [← htext s hv] at hread
        exact Option.some.inj (hread.symm.trans hfloat)
    | arr items => cases hkind
    | obj items => cases hkind

/-- Read by both, a bar has the same numbers exactly if its texts are plain. -/
theorem row_eq_iff {r r' : Bar F} (hr : ingestedRow env fields = some r)
    (hr' : validatedRow env fields = some r') : r' = r ↔ PlainTexts env fields := by
  obtain ⟨hr', -⟩ := Option.filter_eq_some_iff.mp hr'
  obtain ⟨⟨ho, hc⟩, ⟨hopn, hh, hl, hcl, hv⟩, hclosed⟩ := readBar_eq_some.mp hr
  obtain ⟨⟨ho', hc'⟩, ⟨hopn', hh', hl', hcl', hv'⟩, hclosed'⟩ := readBar_eq_some.mp hr'
  have hopen := wholeNumber_eq_iff (numberOrText_of_wholeNumber ho') ho
  have hclose := wholeNumber_eq_iff (numberOrText_of_wholeNumber hc') hc
  rw [ho', Option.some_inj] at hopen
  rw [hc', Option.some_inj] at hclose
  have htexts : PlainTexts env fields ↔
      (r'.openTime = r.openTime ∧ r'.closeTime = r.closeTime) ∧ r'.opn = r.opn ∧
        r'.high = r.high ∧ r'.low = r.low ∧ r'.close = r.close ∧ r'.volume = r.volume := by
    rw [hopen, hclose, price_eq_iff hopn hopn', price_eq_iff hh hh', price_eq_iff hl hl',
      price_eq_iff hcl hcl', price_eq_iff hv hv']
    simp [PlainTexts, timeFields, priceFields]
  rw [htexts]
  constructor
  · rintro rfl
    exact ⟨⟨rfl, rfl⟩, rfl, rfl, rfl, rfl, rfl⟩
  · rintro ⟨⟨hopenTime, hcloseTime⟩, hprices⟩
    cases r
    cases r'
    simp_all

/-- A bar that converts and is plain is numeric. -/
theorem numeric_of_plain (hconv : Converts env fields) (hplain : Plain env fields) :
    Numeric env fields := by
  obtain ⟨r, hr⟩ := Option.isSome_iff_exists.mp (converts_iff.mp hconv)
  obtain ⟨⟨ho, hc⟩, -⟩ := readBar_eq_some.mp hr
  have htime : ∀ name ∈ timeFields, ∀ t, (fields.lookup name).bind env.int = some t →
      wholeNumber env (field fields name) = some t := fun name hname t ht =>
    (wholeNumber_eq_iff (hplain.kinds name (List.mem_append_left _ hname)) ht).mpr
      (hplain.texts.1 name hname)
  refine ⟨⟨_, _, htime _ (by simp [timeFields]) _ ho, htime _ (by simp [timeFields]) _ hc,
    hplain.ordered _ _ ho hc⟩, fun name hname => ?_⟩
  obtain ⟨x, hx⟩ := Option.isSome_iff_exists.mp (hconv.2 name hname)
  exact Option.isSome_iff_exists.mpr ⟨x,
    (finiteNumber_eq_iff (hplain.kinds name (List.mem_append_right _ hname))
      (hplain.finite name hname x hx) hx).mpr (hplain.texts.2 name hname)⟩

/-- A bar that both read to the same numbers is plain if its `complete` is. -/
theorem plain_of_same {r : Bar F} (hr : ingestedRow env fields = some r)
    (hr' : validatedRow env fields = some r) (hcomplete : PlainComplete env fields) :
    Plain env fields := by
  have htexts : PlainTexts env fields := (row_eq_iff hr hr').mp rfl
  obtain ⟨hread, hle⟩ := Option.filter_eq_some_iff.mp hr'
  obtain ⟨⟨ho, hc⟩, -⟩ := readBar_eq_some.mp hr
  obtain ⟨⟨ho', hc'⟩, -⟩ := readBar_eq_some.mp hread
  have hprices := (isSome_readBar.mp (Option.isSome_iff_exists.mpr ⟨r, hread⟩)).2
  refine ⟨fun name hname => ?_, fun name hname x hx => ?_, fun opened closed hopened hclosed => ?_,
    htexts, hcomplete⟩
  · rcases List.mem_append.mp hname with htime | hprice
    · have htimes : ∀ name ∈ timeFields, (wholeNumber env (field fields name)).isSome = true :=
        (isSome_readBar.mp (Option.isSome_iff_exists.mpr ⟨r, hread⟩)).1
      obtain ⟨t, ht⟩ := Option.isSome_iff_exists.mp (htimes name htime)
      exact numberOrText_of_wholeNumber ht
    · obtain ⟨x, hx⟩ := Option.isSome_iff_exists.mp (hprices name hprice)
      exact (finite_of_finiteNumber hx).1
  · obtain ⟨x', hx'⟩ := Option.isSome_iff_exists.mp (hprices name hname)
    obtain rfl := (price_eq_iff hx hx').mpr (htexts.2 name hname)
    exact (finite_of_finiteNumber hx').2
  · obtain rfl := Option.some.inj (hopened.symm.trans ho)
    obtain rfl := Option.some.inj (hclosed.symm.trans hc)
    exact of_decide_eq_true hle

/-- The two readings of `complete` are one exactly if it is plain. -/
theorem complete_eq_iff :
    ((fields.lookup "complete").map (truthy env.toRuntime)).getD true =
        (match fields.lookup "complete" with
          | some (.bool false) => false
          | _ => true) ↔
      PlainComplete env fields := by
  unfold PlainComplete
  cases fields.lookup "complete" with
  | none => exact ⟨fun _ _ h => (nomatch h), fun _ => rfl⟩
  | some v =>
      rcases v with _ | (_ | _) | _ | _ | _ | _ | _ <;> simp [truthy]

/-- The two agree on a bar exactly if it is unambiguous. -/
theorem sameBar_iff : SameBar env (.obj fields) ↔ Unambiguous env fields := by
  unfold SameBar
  rw [ingested_eq, validated_eq]
  constructor
  · intro hsame
    refine ⟨fun hconv => ?_, fun hnum => ?_⟩
    · obtain ⟨r, hr⟩ := Option.isSome_iff_exists.mp (converts_iff.mp hconv)
      rw [hr] at hsame
      obtain ⟨r', hr', hpair⟩ := Option.map_eq_some_iff.mp hsame
      obtain ⟨rfl, hcomplete⟩ := Prod.mk.inj hpair
      exact plain_of_same hr hr' (complete_eq_iff.mp hcomplete)
    · obtain ⟨r', hr'⟩ := Option.isSome_iff_exists.mp (numeric_iff.mp hnum)
      rw [hr'] at hsame
      obtain ⟨r, hr, -⟩ := Option.map_eq_some_iff.mp hsame.symm
      exact converts_iff.mpr (Option.isSome_iff_exists.mpr ⟨r, hr⟩)
  · intro h
    by_cases hconv : Converts env fields
    · have hplain := h.plain hconv
      obtain ⟨r, hr⟩ := Option.isSome_iff_exists.mp (converts_iff.mp hconv)
      obtain ⟨r', hr'⟩ := Option.isSome_iff_exists.mp
        (numeric_iff.mp (numeric_of_plain hconv hplain))
      rw [hr, hr', (row_eq_iff hr hr').mpr hplain.texts, Option.map_some, Option.map_some,
        complete_eq_iff.mpr hplain.complete]
    · have hnum : ¬ Numeric env fields := fun hnum => hconv (h.converts hnum)
      rw [converts_iff, Option.not_isSome_iff_eq_none] at hconv
      rw [numeric_iff, Option.not_isSome_iff_eq_none] at hnum
      rw [hconv, hnum]
      rfl

end

/-- A text that is not blank comes from a truthy value. -/
theorem truthy_of_text {v : Json F} (h : strip (textOf env v) ≠ "") :
    truthy env.toRuntime v = true := by
  by_contra hfalsy
  rw [textOf, if_neg hfalsy] at h
  exact h (by decide)

/-- Of a packet with a symbol, a tf and a list of bars, the validator keeps the bars that are
valid to it and the ingestor those that are valid to it, and they agree on all bars exactly if
each is unambiguous. -/
theorem validators_agree_iff {payload : List (String × Json F)}
    {bars : List (List (String × Json F))}
    (hsymbol : strip (textOf env (field payload "symbol")) ≠ "")
    (htf : strip (textOf env (field payload "tf")) ≠ "")
    (hbars : field payload "bars" = .arr (bars.map .obj)) :
    ((validateFxcmOhlcvMessage env payload).elim [] OhlcvMessage.bars =
        (bars.map .obj).filterMap (validBar env)) ∧
      shape env.toRuntime payload =
        some (field payload "symbol", field payload "tf", bars.map .obj) ∧
      ((∀ bar ∈ bars, SameBar env (.obj bar)) ↔ ∀ bar ∈ bars, Unambiguous env bar) := by
  have htruthy := truthy_of_text htf
  refine ⟨?_, ?_, forall₂_congr fun bar _ => sameBar_iff⟩
  · unfold validateFxcmOhlcvMessage
    rw [if_pos htruthy, hbars]
    dsimp only
    rw [if_neg (not_or.mpr ⟨hsymbol, htf⟩)]
    split_ifs with hempty
    · exact (List.isEmpty_iff.mp hempty).symm
    · rfl
  · unfold shape
    rw [hbars]
    dsimp only
    rw [truthy_of_text hsymbol, htruthy]
    rfl

section FixedInputs

/-- Numbers as they are, none of them NaN or infinite, and no numbers in texts. -/
def plainValidator : ValidatorRuntime ℤ where
  toRuntime := SignedPackets.plainRuntime
  isNan _ := false
  isInf _ := false
  int_nan _ h := nomatch h
  float_arr _ := rfl
  float_obj _ := rfl

/-- A bar of one minute at a flat price. -/
def minuteBar (complete : Json ℤ) : List (String × Json ℤ) :=
  [("open_time", .int 60000), ("close_time", .int 119999), ("open", .float 100),
    ("high", .float 100), ("low", .float 100), ("close", .float 100), ("volume", .float 1),
    ("complete", complete)]

def minutePacket (complete : Json ℤ) : List (String × Json ℤ) :=
  [("symbol", .str "XAUUSD"), ("tf", .str "1m"), ("bars", .arr [.obj (minuteBar complete)])]

theorem validators_agree_on_live_bar :
    ((validateFxcmOhlcvMessage plainValidator (minutePacket (.bool false))).elim []
        OhlcvMessage.bars =
          ([minuteBar (.bool false)].map .obj).filterMap (validBar plainValidator)) ∧
      shape plainValidator.toRuntime (minutePacket (.bool false)) =
        some (.str "XAUUSD", .str "1m", [.obj (minuteBar (.bool false))]) ∧
      ((∀ bar ∈ [minuteBar (.bool false)], SameBar plainValidator (.obj bar)) ↔
        ∀ bar ∈ [minuteBar (.bool false)], Unambiguous plainValidator bar) :=
  validators_agree_iff (by decide) (by decide) rfl

/-- A `complete` that is null is live to the validator and complete to the ingestor. -/
theorem null_complete_disagrees :
    ¬ ∀ (payload : List (String × Json ℤ)) (bars : List (List (String × Json ℤ))),
      strip (textOf plainValidator (field payload "symbol")) ≠ "" →
      strip (textOf plainValidator (field payload "tf")) ≠ "" →
      field payload "bars" = .arr (bars.map .obj) →
      ∀ bar ∈ bars, SameBar plainValidator (.obj bar) := by
  intro h
  have hsame := h (minutePacket .null) [minuteBar .null] (by decide) (by decide) rfl
    (minuteBar .null) (List.mem_singleton_self _)
  have hlive : (validBar plainValidator (.obj (minuteBar .null))).map
      (fun b => b.complete.getD true) = some false := rfl
  have hcomplete : (incomingBar plainValidator.toRuntime (.obj (minuteBar .null))).map
      (fun b => b.complete) = some true := rfl
  have hflags := congrArg (Option.map Prod.snd) hsame
  rw [Option.map_map, Option.map_map] at hflags
  exact absurd (hlive.symm.trans (hflags.trans hcomplete)) (by decide)

end FixedInputs

end FxcmValidate

end SmcPipeline
