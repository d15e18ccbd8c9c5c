import SmcPipeline.Ranges
import SmcPipeline.ViewerStateBuilder

/-!
# The plain structure state

`_to_plain_value` of `smc_core/serializers.py` on the structure part of a hint: a dataclass
becomes the dict of its fields, an enumeration its name, and a timestamp its ISO text with the
offset. Floats are the cells of a frame, where a missing one is NaN.
-/

namespace SmcPipeline

/-- A range as the dataclass has it; it may have no end yet. -/
structure OpenRange (K : Type*) where
  high : Option K
  low : Option K
  eqLevel : Option K
  startTime : ℤ
  endTime : Option ℤ
  state : SmcRangeState

/-- `SmcStructureState`, with the items of its `meta`. -/
structure StructureRecord (K : Type*) where
  primaryTf : String
  trend : SmcTrend
  swings : List (Swing K)
  legs : List (Leg K)
  ranges : List (OpenRange K)
  activeRange : Option (OpenRange K)
  rangeState : SmcRangeState
  events : List (StructureEvent K)
  eventHistory : List (StructureEvent K)
  oteZones : List (OteZone K)
  bias : Bias
  metaItems : List (String × Json (Option K))

namespace Serializers

open Calendar

variable {K : Type*}

def trendName : SmcTrend → String
  | .up => "UP"
  | .down => "DOWN"
  | .range => "RANGE"
  | .unknown => "UNKNOWN"

def rangeStateName : SmcRangeState → String
  | .none => "NONE"
  | .inside => "INSIDE"
  | .devUp => "DEV_UP"
  | .devDown => "DEV_DOWN"

def kindText : SwingKind → String
  | .high => "HIGH"
  | .low => "LOW"

def labelText : LegLabel → String
  | .hh => "HH"
  | .hl => "HL"
  | .lh => "LH"
  | .ll => "LL"
  | .undefined => "UNDEFINED"

def eventTypeText : EventType → String
  | .bos => "BOS"
  | .choch => "CHOCH"

def directionText : Direction → String
  | .long => "LONG"
  | .short => "SHORT"

def biasText : Bias → String
  | .long => "LONG"
  | .short => "SHORT"
  | .neutral => "NEUTRAL"

def roleText : ZoneRole → String
  | .primary => "PRIMARY"
  | .countertrend => "COUNTERTREND"
  | .neutral => "NEUTRAL"

/-- `isoformat` of a UTC timestamp that is a number of milliseconds -/
def isoChars (ms : ℤ) : List Char :=
  civilChars 'T' (civilTime (ms / 1000)) ++
    ((if ms % 1000 = 0 then [] else '.' :: digits 6 (ms % 1000 * 1000).toNat) ++ "+00:00".toList)

def isoText (ms : ℤ) : String := String.ofList (isoChars ms)

def plainSwing (s : Swing K) : Json (Option K) :=
  .obj
    [("index", .int s.index),
      ("time", .str (isoText s.time)),
      ("price", .float (some s.price)),
      ("kind", .str (kindText s.kind)),
      ("strength", .int s.strength)]

def plainLeg (leg : Leg K) : Json (Option K) :=
  .obj
    [("from_swing", plainSwing leg.fromSwing),
      ("to_swing", plainSwing leg.toSwing),
      ("label", .str (labelText leg.label)),
      ("reference_price", (leg.referencePrice.map fun p => .float (some p)).getD .null)]

def plainRange (r : OpenRange K) : Json (Option K) :=
  .obj
    [("high", .float r.high),
      ("low", .float r.low),
      ("eq_level", .float r.eqLevel),
      ("start_time", .str (isoText r.startTime)),
      ("end_time", (r.endTime.map fun t => .str (isoText t)).getD .null),
      ("state", .str (rangeStateName r.state))]

/-- An event with the value that stands for its time. -/
def eventFields (time : Json (Option K)) (e : StructureEvent K) :
    List (String × Json (Option K)) :=
  [("event_type", .str (eventTypeText e.eventType)),
    ("direction", .str (directionText e.direction)),
    ("price_level", .float (some e.priceLevel)),
    ("time", time),
    ("source_leg", plainLeg e.sourceLeg)]

def plainEvent (e : StructureEvent K) : Json (Option K) :=
  .obj (eventFields (.str (isoText e.time)) e)

def plainOteZone (zone : OteZone K) : Json (Option K) :=
  .obj
    [("leg", plainLeg zone.leg),
      ("ote_min", .float (some zone.oteMin)),
      ("ote_max", .float (some zone.oteMax)),
      ("direction", .str (directionText zone.direction)),
      ("role", .str (roleText zone.role))]

def plainStructure (st : StructureRecord K) : Json (Option K) :=
  .obj
    [("primary_tf", .str st.primaryTf),
      ("trend", .str (trendName st.trend)),
      ("swings", .arr (st.swings.map plainSwing)),
      ("legs", .arr (st.legs.map plainLeg)),
      ("ranges", .arr (st.ranges.map plainRange)),
      ("active_range", (st.activeRange.map plainRange).getD .null),
      ("range_state", .str (rangeStateName st.rangeState)),
      ("events", .arr (st.events.map plainEvent)),
      ("event_history", .arr (st.eventHistory.map plainEvent)),
      ("ote_zones", .arr (st.oteZones.map plainOteZone)),
      ("bias", .str (biasText st.bias)),
      ("meta", .obj st.metaItems)]

/-- `to_plain_smc_hint` of a hint with a structure and its other parts plain already. -/
def toPlainSmcHint (st : StructureRecord K) (liquidity zones signals hintMeta : Json (Option K)) :
    Json (Option K) :=
  .obj
    [("structure", plainStructure st),
      ("liquidity", liquidity),
      ("zones", zones),
      ("signals", signals),
      ("meta", hintMeta)]

theorem isSpace_of_isDigit {c : Char} (h : c.isDigit = true) : FxcmIngestor.isSpace c = false := by
  have hval : 48 ≤ c.toNat ∧ c.toNat ≤ 57 := by
    unfold Char.isDigit at h
    simp only [Bool.and_eq_true, decide_eq_true_eq] at h
    exact ⟨h.1, h.2⟩
  obtain ⟨hlow, hhigh⟩ := hval
  unfold FxcmIngestor.isSpace
  simp only [Bool.or_eq_false_iff, Bool.and_eq_false_iff, decide_eq_false_iff_not]
  omega

/-- Nothing is stripped off a text that starts and ends with no space. -/
theorem strip_eq_self {cs : List Char} (hhead : ∀ c ∈ cs.head?, FxcmIngestor.isSpace c = false)
    (hlast : ∀ c ∈ cs.getLast?, FxcmIngestor.isSpace c = false) :
    FxcmIngestor.strip (String.ofList cs) = String.ofList cs := by
  have hkeep : ∀ l : List Char, (∀ c ∈ l.head?, FxcmIngestor.isSpace c = false) →
      l.dropWhile FxcmIngestor.isSpace = l := by
    intro l hl
    cases l with
    | nil => rfl
    | cons c l => exact List.dropWhile_cons_of_neg (by rw [hl c rfl]; decide)
  unfold FxcmIngestor.strip
  rw [String.toList_ofList, hkeep cs hhead, hkeep cs.reverse (by rwa [List.head?_reverse]),
    List.reverse_reverse]

/-- The text of a time starts with a digit. -/
theorem isDigit_of_mem_head? {ms : ℤ} {c : Char} (h : c ∈ (isoChars ms).head?) :
    c.isDigit = true := by
  have hne : digits 4 (civilTime (ms / 1000)).year.toNat ≠ [] := by
    rw [← List.length_pos_iff, length_digits]
    decide
  unfold isoChars civilChars at h
  rw [List.append_assoc, List.head?_append_of_ne_nil _ hne] at h
  exact isDigit_of_mem_digits (List.mem_of_mem_head? h)

/-- It ends with the offset. -/
theorem getLast?_isoChars (ms : ℤ) : (isoChars ms).getLast? = some '0' := by
  unfold isoChars
  rw [← List.append_assoc, List.getLast?_append_of_ne_nil _ (by decide)]
  decide

/-- The microseconds after the seconds, if there are any. -/
def readFraction (cs : List Char) : Option (ℤ × List Char) :=
  match readMark '.' cs with
  | none => some (0, cs)
  | some cs => readField 6 cs

/-- The texts of `isoText`. -/
def readIso (text : String) : Option IsoTime := do
  let (c, cs) ← readCivil 'T' text.toList
  let (micros, cs) ← readFraction cs
  if cs = "+00:00".toList then some ⟨secondsOf c * 1000000 + micros, some 0⟩ else none

theorem readFraction_append {ms : ℤ} (h : 0 ≤ ms) (h' : ms < 1000) :
    readFraction ((if ms = 0 then [] else '.' :: digits 6 (ms * 1000).toNat) ++
      "+00:00".toList) = some (ms * 1000, "+00:00".toList) := by
  unfold readFraction
  by_cases hzero : ms = 0
  · rw [if_pos hzero, hzero]
    rfl
  · rw [if_neg hzero, List.cons_append, readMark_cons]
    exact readField_digits (by omega) (by norm_num; omega) _

/-- A timestamp is read back from its text. -/
theorem readIso_isoText {ms : ℤ} (h : FourDigitYear (civilTime (ms / 1000))) :
    readIso (isoText ms) = some ⟨ms * 1000, some 0⟩ := by
  have hmicros : secondsOf (civilTime (ms / 1000)) * 1000000 + ms % 1000 * 1000 = ms * 1000 := by
    rw [secondsOf_civilTime]
    omega
  unfold readIso isoText isoChars
  rw [String.toList_ofList, readCivil_civilChars (fits_civilTime h)]
  simp only [Option.bind_eq_bind, Option.bind_some]
  rw [readFraction_append (Int.emod_nonneg ms (by decide)) (Int.emod_lt_of_pos ms (by decide))]
  simp only [Option.bind_some]
  rw [if_pos trivial, hmicros]

/-- Conversions on rational numbers; `none` is NaN. -/
def viewerRuntime : ViewerRuntime (Option ℚ) where
  isZero x := decide (x = some 0)
  str
    | .str s => s
    | _ => ""
  upper s := s.toUpper
  int
    | .bool b => .value b.toNat
    | .int i => .value i
    | .float (some x) => .value (x.num.tdiv x.den)
    | _ => .rejected
  float
    | .bool b => .value (some b.toNat)
    | .int i => .value (some i)
    | .float x => .value x
    | _ => .rejected
  fromisoformat := readIso
  int_int _ := rfl

end Serializers

end SmcPipeline
