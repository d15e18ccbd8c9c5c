import SmcPipeline.Frames
import Mathlib.Algebra.Ring.Int.Defs

/-!
# Reading a snapshot file

`StorageAdapter.load_bars` reads the file with `pd.read_json`, which takes a column
whose name ends in `_time` for dates, and passes the rows through `_postfix_df`: the
unit of each time column is guessed from the magnitude of its median, and rows
outside a wide window around the present are dropped unless that drops them all.
Time columns hold integers here, so the guess is an integer comparison of twice
the median.
-/

namespace SmcPipeline.SnapshotFile

variable {α : Type*}

/-- Twice the median: the two middle values coincide for an odd length. -/
def median2 (xs : List ℤ) : ℤ :=
  let sorted := KeyedRows.sortBy id xs
  sorted.getD ((xs.length - 1) / 2) 0 + sorted.getD (xs.length / 2) 0

/-- Conversion to milliseconds chosen by the median: seconds, microseconds,
nanoseconds, or milliseconds already. -/
def toMillis (med2 x : ℤ) : ℤ :=
  if 2 * 10 ^ 9 ≤ med2 ∧ med2 < 2 * 10 ^ 11 then x * 1000
  else if 2 * 10 ^ 14 ≤ med2 ∧ med2 < 2 * 10 ^ 17 then x / 1000
  else if 2 * 10 ^ 17 ≤ med2 ∧ med2 < 2 * 10 ^ 20 then x / 1000000
  else x

def normalizeTimes (rows : List (Bar α)) : List (Bar α) :=
  let openMed := median2 (rows.map Bar.openTime)
  let closeMed := median2 (rows.map Bar.closeTime)
  rows.map fun r =>
    { r with openTime := toMillis openMed r.openTime, closeTime := toMillis closeMed r.closeTime }

/-- `[now - 400 d, now + 12 h]` -/
def inWindow (nowMs : ℤ) (r : Bar α) : Bool :=
  decide (nowMs - 400 * 24 * 3600 * 1000 ≤ r.openTime) &&
    decide (r.openTime ≤ nowMs + 12 * 3600 * 1000)

def postfixDf (nowMs : ℤ) (f : Frame α) : Frame α :=
  if f.isEmpty then f
  else
    let rows := normalizeTimes f.rows
    if rows.any (inWindow nowMs) then { f with rows := rows.filter (inWindow nowMs) }
    else { f with rows := rows }

/-- The nanoseconds of the units that `read_json` tries for dates, in this order. -/
def stampUnits : List ℤ := [10 ^ 9, 10 ^ 6, 10 ^ 3, 1]

def isStamp (nanos : ℤ) : Bool := decide (-2 ^ 63 < nanos) && decide (nanos < 2 ^ 63)

/-- The nanoseconds of the unit in which a column is read. It is taken for dates if all its
values are larger than the seconds of a year, in the first unit in which all are timestamps. -/
def dateUnit (xs : List ℤ) : ℤ :=
  if xs.all fun x => decide (31536000 < x) then
    (stampUnits.find? fun unit => xs.all fun x => isStamp (x * unit)).getD 1
  else 1

/-- `pd.read_json`, with the dates as the numbers that `pd.to_numeric` makes of them. -/
def readJson (f : Frame α) : Frame α :=
  let openUnit := dateUnit (f.rows.map Bar.openTime)
  let closeUnit := dateUnit (f.rows.map Bar.closeTime)
  { f with
    rows := f.rows.map fun r =>
      { r with openTime := r.openTime * openUnit, closeTime := r.closeTime * closeUnit } }

def loadBars (nowMs : ℤ) (file : Option (Frame α)) : Option (Frame α) :=
  file.map fun f => postfixDf nowMs (readJson f)

end SmcPipeline.SnapshotFile
