import SmcPipeline.ViewerStateBuilder
import Mathlib.Data.Rat.Floor
import Mathlib.Algebra.Order.Field.Rat

/-!
# What the page reads of a viewer state

`mapEventsFromViewerState`, `mapRangesFromViewerState` and `safeUnixSeconds` of
`UI_v2/web_client/app.js`, on a decoded viewer state. `none` stands for `undefined`.
-/

namespace SmcPipeline

/-- The conversions of the JavaScript engine: a value as a finite number, and the milliseconds
of a text that it takes for a date. -/
structure Browser (F : Type*) where
  isZero : F → Bool
  number : Json F → Option ℚ
  dateParse : String → Option ℤ

structure ChartEvent (F : Type*) where
  time : Option ℤ
  type : Option (Json F)
  direction : Option (Json F)
  price : Option (Json F)

structure ChartRange (F : Type*) where
  min : Option (Json F)
  max : Option (Json F)
  startTime : Option ℤ
  endTime : Option ℤ

namespace ViewerClient

variable {F : Type*}

/-- `value?.name` -/
def prop (value : Option (Json F)) (name : String) : Option (Json F) :=
  match value with
  | some (.obj fields) => fields.lookup name
  | _ => none

/-- `a ?? b` -/
def nullish (a b : Option (Json F)) : Option (Json F) :=
  match a with
  | none => b
  | some .null => b
  | some v => some v

/-- The items of an array; the builder sends arrays only. -/
def itemsOf : Option (Json F) → List (Json F)
  | some (.arr items) => items
  | _ => []

variable (browser : Browser F)

def isTruthy : Option (Json F) → Bool
  | none => false
  | some .null => false
  | some (.bool b) => b
  | some (.int i) => decide (i ≠ 0)
  | some (.float x) => !browser.isZero x
  | some (.str s) => decide (s ≠ "")
  | some (.arr _) => true
  | some (.obj _) => true

/-- `a || b` -/
def or (a b : Option (Json F)) : Option (Json F) := if isTruthy browser a then a else b

def safeUnixSeconds (value : Option (Json F)) : Option ℤ :=
  match value with
  | none => none
  | some .null => none
  | some v =>
    match browser.number v with
    | some direct => some ⌊direct / if 1000000000000 < direct then 1000 else 1⌋
    | none =>
      match v with
      | .str text => (browser.dateParse text).map (· / 1000)
      | _ => none

def mapEvent (evt : Json F) : ChartEvent F where
  time := safeUnixSeconds browser
    (or browser (or browser (prop (some evt) "ts") (prop (some evt) "time"))
      (prop (some evt) "timestamp"))
  type := or browser (prop (some evt) "type") (prop (some evt) "event_type")
  direction := or browser (prop (some evt) "direction") (prop (some evt) "dir")
  price := nullish (nullish (prop (some evt) "price") (prop (some evt) "level"))
    (prop (some evt) "value")

def mapEventsFromViewerState (state : Json F) : List (ChartEvent F) :=
  (itemsOf (prop (prop (some state) "structure") "events")).map (mapEvent browser)

def mapRange (range : Json F) : ChartRange F where
  min := nullish (prop (some range) "price_min") (prop (some range) "min")
  max := nullish (prop (some range) "price_max") (prop (some range) "max")
  startTime := safeUnixSeconds browser
    (or browser (or browser (prop (some range) "start_ts") (prop (some range) "from"))
      (prop (some range) "time_start"))
  endTime := safeUnixSeconds browser
    (or browser (or browser (prop (some range) "end_ts") (prop (some range) "to"))
      (prop (some range) "time_end"))

def mapRangesFromViewerState (state : Json F) : List (ChartRange F) :=
  (itemsOf (prop (prop (some state) "structure") "ranges")).map (mapRange browser)

end ViewerClient

end SmcPipeline
