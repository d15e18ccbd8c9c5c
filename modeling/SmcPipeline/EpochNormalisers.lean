import SmcPipeline.IsoFormat
import SmcPipeline.MilliFloats
import SmcPipeline.WarmupRequester

/-!
# The three normalisers of a time

`_to_millis` of `UI_v2/ohlcv_provider.py`, `_epoch_to_ms` of `app/fxcm_history_state.py` and
`_normalize_epoch` of `data/unified_store.py`. Each takes a number above 10^12 for milliseconds
and any other for seconds, and reads text as a time or as a number; they differ in the order and
in what they do with the number. Floats are binary64 numbers, finite and without a bound on the
exponent.
-/

namespace SmcPipeline

/-- A value that stands for a time; a `pd.Timestamp` and another datetime by what their
`timestamp()` returns. -/
inductive EpochValue
  | missing
  | int (n : ℤ)
  | float (x : ℚ)
  | timestamp (seconds : ℚ)
  | datetime (seconds : ℚ)
  | text (s : String)
  | other

/-- The zone of the machine, as seconds east of UTC at a local time, and
`pd.Timestamp(text).timestamp()`, which is missing where it raises. An offset is shorter than a
day and, in this century, a number of quarters of an hour. -/
structure EpochRuntime where
  localOffset : ℤ → ℤ
  localOffset_lt : ∀ s, (localOffset s).natAbs < 86400
  localOffset_quarters : ∀ s, 1000000000 ≤ s → localOffset s % 900 = 0
  timestamp : String → Option ℚ

namespace EpochNormalisers

open Calendar IsoFormat MilliFloats FxcmIngestor
open WarmupRequester (truncate)

def expandZ (c : Char) : List Char := if c = 'Z' then ['+', '0', '0', ':', '0', '0'] else [c]

/-- `text.replace("Z", "+00:00")` -/
def replaceZ (text : String) : String := String.ofList (text.toList.flatMap expandZ)

/-- What follows the digits of a number. -/
def readExponent : List Char → Option ℤ
  | [] => some 0
  | mark :: cs =>
    if mark = 'e' ∨ mark = 'E' then
      let digits := if cs.head? = some '-' ∨ cs.head? = some '+' then cs.tail else cs
      if digits = [] then none
      else (valueOf digits).map fun n : ℕ => if cs.head? = some '-' then -(n : ℤ) else n
    else none

/-- The digits before and after the point, and what follows them. -/
def readDecimal (whole fraction last : List Char) : Option ℚ :=
  if whole = [] ∧ fraction = [] then none
  else do
    let exponent ← readExponent last
    let n ← valueOf (whole ++ fraction)
    return n * 10 ^ (exponent - fraction.length)

def readUnsigned (cs : List Char) : Option ℚ :=
  let whole := cs.takeWhile Char.isDigit
  let rest := cs.dropWhile Char.isDigit
  if rest.head? = some '.' then
    readDecimal whole (rest.tail.takeWhile Char.isDigit) (rest.tail.dropWhile Char.isDigit)
  else readDecimal whole [] rest

/-- `float` of a text. The words for NaN and infinity and digits grouped by `_` are not read
here. -/
def readFloat (text : String) : Option ℚ :=
  let cs := (strip text).toList
  if cs.head? = some '-' then (readUnsigned cs.tail).map fun x => fl (-x)
  else (readUnsigned (if cs.head? = some '+' then cs.tail else cs)).map fl

variable (env : EpochRuntime)

/-- `dt.timestamp()` of a datetime that was read from text. -/
def timestampOf (dt : IsoTime) : ℚ :=
  match dt.offset with
  | some offset => fl ((dt.micros - offset : ℤ) / 1000000)
  | none =>
    let seconds := dt.micros / 1000000
    fl (fl (seconds - env.localOffset seconds : ℤ) + fl ((dt.micros % 1000000 : ℤ) / 1000000))

/-- `int(x * 1000)` -/
def millisOf (x : ℚ) : ℤ := truncate (fl (x * 1000))

/-- `_to_millis` -/
def toMillis : EpochValue → Option ℤ
  | .int n => if 1000000000000 < n then some n else some (millisOf (fl n))
  | .float x => if 1000000000000 < x then some (truncate x) else some (millisOf x)
  | .timestamp seconds | .datetime seconds => some (millisOf seconds)
  | .text s =>
    if strip s = "" then none
    else
      match fromisoformat (replaceZ s) with
      | some dt => some (millisOf (timestampOf env dt))
      | none => (readFloat s).map millisOf
  | .missing | .other => none

/-- `_epoch_to_ms` of a float -/
def floatToMs (x : ℚ) : ℤ := if 1000000000000 < x then truncate x else millisOf x

/-- `_epoch_to_ms` -/
def epochToMs : EpochValue → Option ℤ
  | .int n => some (floatToMs (fl n))
  | .float x => some (floatToMs x)
  | .timestamp seconds | .datetime seconds => some (millisOf seconds)
  | .text s =>
    if strip s = "" then none
    else
      match fromisoformat (replaceZ (strip s)) with
      | some dt => some (millisOf (timestampOf env dt))
      | none => (readFloat (strip s)).map floatToMs
  | .missing | .other => none

/-- `_normalize_epoch` of a float -/
def normalizeFloat (x : ℚ) : ℚ := if 1000000000000 < x then fl (x / 1000) else x

/-- `_normalize_epoch` -/
def normalizeEpoch : EpochValue → Option ℚ
  | .timestamp seconds => some seconds
  | .int n => if 1000000000000 < n then some (fl (fl n / 1000)) else some (fl n)
  | .float x => some (normalizeFloat x)
  | .text s =>
    if strip s = "" then none
    else
      match readFloat (strip s) with
      | some x => some (normalizeFloat x)
      | none => env.timestamp (strip s)
  | .missing | .datetime _ | .other => none

end EpochNormalisers

end SmcPipeline
