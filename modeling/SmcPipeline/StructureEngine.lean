import SmcPipeline.Swings

/-!
# Legs, trend, ATR and break events

`build_legs`, `infer_trend` and `detect_events` of `smc_structure/structure_engine.py`
and `compute_atr` of `smc_structure/metrics.py`. Each pass is a recursion over its
list with the state the source keeps in local variables: the last high and low
prices for the legs, the structural bias for the events.
-/

namespace SmcPipeline

inductive SmcTrend
  | up
  | down
  | range
  | unknown
deriving DecidableEq, Repr

inductive LegLabel
  | hh
  | hl
  | lh
  | ll
  | undefined
deriving DecidableEq, Repr

inductive EventType
  | bos
  | choch
deriving DecidableEq, Repr

inductive Direction
  | long
  | short
deriving DecidableEq, Repr

inductive Bias
  | long
  | short
  | neutral
deriving DecidableEq, Repr

structure Leg (K : Type*) where
  fromSwing : Swing K
  toSwing : Swing K
  label : LegLabel
  referencePrice : Option K
deriving DecidableEq, Repr

structure StructureEvent (K : Type*) where
  eventType : EventType
  direction : Direction
  priceLevel : K
  time : ℤ
  sourceLeg : Leg K
deriving DecidableEq, Repr

namespace StructureEngine

open Candles Swings

variable {K : Type*}

/-- `last_high` and `last_low` with the price of one more swing. -/
def remember (s : Swing K) (last : Option K × Option K) : Option K × Option K :=
  match s.kind with
  | .high => (some s.price, last.2)
  | .low => (last.1, some s.price)

/-- The last price of the swing's own kind. -/
def lastOf (kind : SwingKind) (last : Option K × Option K) : Option K :=
  match kind with
  | .high => last.1
  | .low => last.2

/-- The two prices remembered after a list of swings. -/
def pricesOf (swings : List (Swing K)) : Option K × Option K :=
  swings.foldl (fun last s => remember s last) (none, none)

theorem pricesOf_concat (swings : List (Swing K)) (s : Swing K) :
    pricesOf (swings ++ [s]) = remember s (pricesOf swings) := by
  simp [pricesOf]

@[simp] theorem remember_remember (s : Swing K) (last : Option K × Option K) :
    remember s (remember s last) = remember s last := by
  unfold remember
  cases s.kind <;> rfl

theorem lastOf_remember (kind : SwingKind) (s : Swing K) (last : Option K × Option K) :
    lastOf kind (remember s last) = if s.kind = kind then some s.price else lastOf kind last := by
  unfold remember lastOf
  cases s.kind <;> cases kind <;> rfl

/-- The remembered price of a kind is that of its last swing. -/
theorem lastOf_pricesOf {kind : SwingKind} {swings : List (Swing K)} {p : K}
    (h : lastOf kind (pricesOf swings) = some p) :
    ∃ pre s mid, swings = pre ++ s :: mid ∧ s.kind = kind ∧ s.price = p ∧
      ∀ z ∈ mid, z.kind ≠ kind := by
  induction swings using List.reverseRecOn with
  | nil => cases kind <;> cases h
  | append_singleton swings last ih =>
      rw [pricesOf_concat, lastOf_remember] at h
      split_ifs at h with hk
      · cases h
        exact ⟨swings, last, [], rfl, hk, rfl, fun z hz => by cases hz⟩
      · obtain ⟨pre, s, mid, rfl, hs, hp, hmid⟩ := ih h
        refine ⟨pre, s, mid ++ [last], by simp, hs, hp, fun z hz => ?_⟩
        rcases List.mem_append.mp hz with hz | hz
        · exact hmid z hz
        · obtain rfl : z = last := by simpa using hz
          exact hk

section

variable [LinearOrder K]

def labelOf (kind : SwingKind) (price : K) (last : Option K) : LegLabel :=
  match kind, last with
  | _, none => .undefined
  | .high, some ref => if ref < price then .hh else .lh
  | .low, some ref => if ref < price then .hl else .ll

def legsFrom (prev : Swing K) (last : Option K × Option K) : List (Swing K) → List (Leg K)
  | [] => []
  | curr :: rest =>
    let last := remember prev last
    let reference := lastOf curr.kind last
    ⟨prev, curr, labelOf curr.kind curr.price reference, reference⟩ ::
      legsFrom curr (remember curr last) rest

def buildLegs : List (Swing K) → List (Leg K)
  | [] => []
  | first :: rest => legsFrom first (remember first (none, none)) rest

theorem legsFrom_append (prev : Swing K) (last : Option K × Option K)
    (swings more : List (Swing K)) :
    ∃ rest, legsFrom prev last (swings ++ more) = legsFrom prev last swings ++ rest := by
  induction swings generalizing prev last with
  | nil => exact ⟨_, rfl⟩
  | cons curr swings ih =>
      obtain ⟨rest, hrest⟩ := ih curr (remember curr (remember prev last))
      refine ⟨rest, ?_⟩
      simp only [List.cons_append, legsFrom]
      rw [hrest]

theorem buildLegs_append (swings more : List (Swing K)) :
    ∃ rest, buildLegs (swings ++ more) = buildLegs swings ++ rest := by
  cases swings with
  | nil => exact ⟨_, rfl⟩
  | cons first swings => exact legsFrom_append first _ swings more

/-- What a leg says about the swings before its end. -/
structure LegAt (pre : List (Swing K)) (leg : Leg K) : Prop where
  from_last : pre.getLast? = some leg.fromSwing
  reference : leg.referencePrice = lastOf leg.toSwing.kind (pricesOf pre)
  label : leg.label = labelOf leg.toSwing.kind leg.toSwing.price leg.referencePrice

theorem legAt_of_mem_legsFrom {prev : Swing K} {last : Option K × Option K}
    {pre rest : List (Swing K)} (hlast : remember prev last = pricesOf (pre ++ [prev]))
    {leg : Leg K} (h : leg ∈ legsFrom prev last rest) :
    ∃ mid post, rest = mid ++ leg.toSwing :: post ∧ LegAt (pre ++ prev :: mid) leg := by
  induction rest generalizing prev last pre with
  | nil => cases h
  | cons curr rest ih =>
      simp only [legsFrom, List.mem_cons] at h
      rcases h with rfl | h
      · exact ⟨[], rest, rfl, by simp, by rw [hlast], rfl⟩
      · have hnext : remember curr (remember curr (remember prev last)) =
            pricesOf ((pre ++ [prev]) ++ [curr]) := by
          rw [pricesOf_concat, remember_remember, hlast]
        obtain ⟨mid, post, hrest, hleg⟩ := ih hnext h
        refine ⟨curr :: mid, post, by rw [hrest, List.cons_append], ?_⟩
        simpa using hleg

/-- Each leg ends at a swing and starts at the one before it. -/
theorem legAt_of_mem_buildLegs {swings : List (Swing K)} {leg : Leg K}
    (h : leg ∈ buildLegs swings) :
    ∃ pre post, swings = pre ++ leg.toSwing :: post ∧ LegAt pre leg := by
  cases swings with
  | nil => cases h
  | cons first swings =>
      have hfirst : remember first (remember first (none, none)) = pricesOf ([] ++ [first]) := by
        rw [remember_remember]
        rfl
      obtain ⟨mid, post, hrest, hleg⟩ := legAt_of_mem_legsFrom hfirst h
      exact ⟨first :: mid, post, by rw [hrest, List.cons_append], hleg⟩

theorem legsFrom_toSwings (prev : Swing K) (last : Option K × Option K) (swings : List (Swing K)) :
    (legsFrom prev last swings).map Leg.toSwing = swings := by
  induction swings generalizing prev last with
  | nil => rfl
  | cons curr swings ih =>
      simp only [legsFrom, List.map_cons]
      rw [ih]

/-- There is one leg to every swing but the first. -/
theorem buildLegs_toSwings (swings : List (Swing K)) :
    (buildLegs swings).map Leg.toSwing = swings.tail := by
  cases swings with
  | nil => rfl
  | cons first swings => exact legsFrom_toSwings first _ swings

theorem toSwing_mem_of_mem_buildLegs {swings : List (Swing K)} {leg : Leg K}
    (h : leg ∈ buildLegs swings) : leg.toSwing ∈ swings := by
  obtain ⟨pre, post, rfl, -⟩ := legAt_of_mem_buildLegs h
  simp

end

def lastLabelForKind (legs : List (Leg K)) (kind : SwingKind) : Option LegLabel :=
  (legs.reverse.find? fun leg => leg.toSwing.kind = kind).map Leg.label

def inferTrend (legs : List (Leg K)) : SmcTrend :=
  let high := lastLabelForKind legs .high
  let low := lastLabelForKind legs .low
  if high = some .hh ∧ low = some .hl then .up
  else if high = some .lh ∧ low = some .ll then .down
  else if high.isSome ∨ low.isSome then .range
  else .unknown

/-- The last CHOCH, a later one of the same time winning. -/
def lastChoch (events : List (StructureEvent K)) : Option (StructureEvent K) :=
  events.foldl (fun last event =>
    if event.eventType = .choch then
      match last with
      | none => some event
      | some prev => if prev.time ≤ event.time then some event else some prev
    else last) none

def deriveBias (trend : SmcTrend) (events : List (StructureEvent K)) : Bias × Option ℤ :=
  match lastChoch events with
  | some event => (match event.direction with | .long => .long | .short => .short, some event.time)
  | none =>
    match trend with
    | .up => (.long, none)
    | .down => (.short, none)
    | _ => (.neutral, none)

section

variable [Field K] [LinearOrder K]

/-- `ATR_PERIOD_M1` -/
def atrPeriod : ℕ := 14

/-- Maximum over a row of the three ranges, skipping missing ones. -/
def trueRangeOf (high low prevClose : Option K) : Option K :=
  ([high.bind fun h => low.map fun l => h - l,
    high.bind fun h => prevClose.map fun c => |h - c|,
    low.bind fun l => prevClose.map fun c => |l - c|].filterMap id).max?

def trueRangeAt (rows : List (Candle K)) (i : ℕ) : Option K :=
  match rows[i]? with
  | none => none
  | some r =>
    let prevClose := if i = 0 then none else valueAt (rows.map Candle.close) (i - 1)
    trueRangeOf r.high r.low prevClose

/-- `rolling(window=period, min_periods=period).mean()` at one position. -/
def rollingMeanAt (period : ℕ) (xs : List (Option K)) (i : ℕ) : Option K :=
  let cells := slice (i + 1 - period) (i + 1) xs
  if i + 1 < period then none
  else if cells.all Option.isSome then some ((cells.filterMap id).sum / period) else none

def computeAtr (rows : List (Candle K)) (period : ℕ) : List (Option K) :=
  let trueRange := (List.range rows.length).map (trueRangeAt rows)
  (List.range rows.length).map (rollingMeanAt period trueRange)

/-- A true range looks at its row and the close before it. -/
theorem trueRangeAt_shift {rows rows' : List (Candle K)} {i d : ℕ} (hstart : d = 0 ∨ 0 < i)
    (hrows : ∀ j, i ≤ j + 1 → j ≤ i → rows[j]? = rows'[j + d]?) :
    trueRangeAt rows' (i + d) = trueRangeAt rows i := by
  have hrow := hrows i (by omega) le_rfl
  unfold trueRangeAt
  rw [← hrow]
  by_cases hi : i = 0
  · have hd : d = 0 := hstart.resolve_right (by omega)
    simp only [hi, hd, Nat.add_zero, if_true]
  · have hpos : i + d ≠ 0 := by omega
    have hprev : i + d - 1 = i - 1 + d := by omega
    have hclose : valueAt (rows'.map Candle.close) (i + d - 1) =
        valueAt (rows.map Candle.close) (i - 1) := by
      unfold valueAt
      rw [List.getElem?_map, List.getElem?_map, hprev, hrows (i - 1) (by omega) (by omega)]
    simp only [if_neg hi, if_neg hpos, hclose]

private theorem getElem?_trueRanges (rows : List (Candle K)) {j : ℕ} (hj : j < rows.length) :
    ((List.range rows.length).map (trueRangeAt rows))[j]? = some (trueRangeAt rows j) := by
  rw [List.getElem?_map, List.getElem?_range hj, Option.map_some]

/-- An ATR value looks at the rows of its window and the one before it; in a frame
that starts elsewhere it is the same once the window is full. -/
theorem valueAt_computeAtr_shift {rows rows' : List (Candle K)} {period i d : ℕ}
    (hi : i < rows.length) (hstart : d = 0 ∨ period ≤ i)
    (hrows : ∀ j, i ≤ j + period → j ≤ i → rows[j]? = rows'[j + d]?) :
    valueAt (computeAtr rows' period) (i + d) = valueAt (computeAtr rows period) i := by
  have hlt : ∀ j, i ≤ j + period → j ≤ i → j + d < rows'.length := by
    intro j h₁ h₂
    have hj := hrows j h₁ h₂
    rw [List.getElem?_eq_getElem (by omega)] at hj
    exact (List.getElem?_eq_some_iff.mp hj.symm).1
  have hmean : rollingMeanAt period ((List.range rows'.length).map (trueRangeAt rows')) (i + d) =
      rollingMeanAt period ((List.range rows.length).map (trueRangeAt rows)) i := by
    by_cases hfull : i + 1 < period
    · have hd : d = 0 := hstart.resolve_right (by omega)
      subst hd
      simp only [rollingMeanAt, Nat.add_zero, if_pos hfull]
    · have hslice : slice (i + 1 - period) (i + 1) ((List.range rows.length).map (trueRangeAt rows)) =
          slice (i + 1 - period + d) (i + 1 + d)
            ((List.range rows'.length).map (trueRangeAt rows')) := by
        refine slice_shift fun j h₁ h₂ => ?_
        rw [getElem?_trueRanges rows (by omega),
          getElem?_trueRanges rows' (hlt j (by omega) (by omega)), trueRangeAt_shift]
        · omega
        · exact fun k h₃ h₄ => hrows k (by omega) (by omega)
      have hhi : i + d + 1 = i + 1 + d := by omega
      have hlo : i + 1 + d - period = i + 1 - period + d := by omega
      have hfull' : ¬ i + 1 + d < period := by omega
      simp only [rollingMeanAt, hhi, hlo, if_neg hfull, if_neg hfull', hslice]
  have hlen := hlt i (by omega) le_rfl
  unfold valueAt computeAtr
  rw [List.getElem?_map, List.getElem?_map, List.getElem?_range hlen, List.getElem?_range hi,
    Option.map_some, Option.map_some, hmean]

variable (cfg : SmcCoreConfig K)

def passesBreakThreshold (close baseline : K) (atr : Option K) : Bool :=
  let delta := |close - baseline|
  let atrComponent := match atr with | none => 0 | some a => a * cfg.bosMinMoveAtrM1
  let pctComponent := |close| * cfg.bosMinMovePctM1
  decide (max atrComponent pctComponent ≤ delta)

/-- What a break of a leg with this label means under the structural bias, and the
bias after it. -/
def classify (bias : SmcTrend) (label : LegLabel) :
    Option (EventType × Direction) × SmcTrend :=
  match label with
  | .hh => (some (if bias = .down then .choch else .bos, .long), .up)
  | .ll => (some (if bias = .up then .choch else .bos, .short), .down)
  | .lh => (if bias = .down then some (.bos, .short) else none, bias)
  | .hl => (if bias = .up then some (.bos, .long) else none, bias)
  | .undefined => (none, bias)

/-- The leg breaks its reference at the close of its last bar. -/
def breaks (closes atr : List (Option K)) (leg : Leg K) : Bool :=
  match valueAt closes leg.toSwing.index, leg.referencePrice with
  | some close, some baseline =>
    decide (leg.label ≠ .undefined) &&
      passesBreakThreshold cfg close baseline (valueAt atr leg.toSwing.index)
  | _, _ => false

def legEvent (closes atr : List (Option K)) (bias : SmcTrend) (leg : Leg K) :
    Option (StructureEvent K) × SmcTrend :=
  if breaks cfg closes atr leg then
    let verdict := classify bias leg.label
    (verdict.1.map fun v => ⟨v.1, v.2, leg.toSwing.price, leg.toSwing.time, leg⟩, verdict.2)
  else (none, bias)

def eventsFrom (closes atr : List (Option K)) : SmcTrend → List (Leg K) → List (StructureEvent K)
  | _, [] => []
  | bias, leg :: legs =>
    let out := legEvent cfg closes atr bias leg
    out.1.toList ++ eventsFrom closes atr out.2 legs

def detectEvents (legs : List (Leg K)) (rows : List (Candle K)) (atr : List (Option K)) :
    List (StructureEvent K) :=
  eventsFrom cfg (rows.map Candle.close) atr .unknown legs

/-- The structural bias after some legs. -/
def biasAfter (closes atr : List (Option K)) (bias : SmcTrend) (legs : List (Leg K)) : SmcTrend :=
  legs.foldl (fun bias leg => (legEvent cfg closes atr bias leg).2) bias

@[simp] theorem biasAfter_cons (closes atr : List (Option K)) (bias : SmcTrend) (leg : Leg K)
    (legs : List (Leg K)) : biasAfter cfg closes atr bias (leg :: legs) =
      biasAfter cfg closes atr (legEvent cfg closes atr bias leg).2 legs := rfl

theorem biasAfter_append (closes atr : List (Option K)) (bias : SmcTrend)
    (legs more : List (Leg K)) : biasAfter cfg closes atr bias (legs ++ more) =
      biasAfter cfg closes atr (biasAfter cfg closes atr bias legs) more := List.foldl_append

theorem eventsFrom_append (closes atr : List (Option K)) (bias : SmcTrend)
    (legs more : List (Leg K)) :
    eventsFrom cfg closes atr bias (legs ++ more) = eventsFrom cfg closes atr bias legs ++
      eventsFrom cfg closes atr (biasAfter cfg closes atr bias legs) more := by
  induction legs generalizing bias with
  | nil => rfl
  | cons leg legs ih =>
      simp only [List.cons_append, eventsFrom, List.append_assoc, biasAfter_cons]
      rw [ih]

/-- An event is emitted at one of the legs, under the bias the legs before it leave. -/
theorem mem_eventsFrom {closes atr : List (Option K)} {bias : SmcTrend} {legs : List (Leg K)}
    {e : StructureEvent K} :
    e ∈ eventsFrom cfg closes atr bias legs ↔ ∃ pre leg post, legs = pre ++ leg :: post ∧
      (legEvent cfg closes atr (biasAfter cfg closes atr bias pre) leg).1 = some e := by
  constructor
  · intro h
    induction legs generalizing bias with
    | nil => cases h
    | cons leg legs ih =>
        simp only [eventsFrom, List.mem_append, Option.mem_toList] at h
        rcases h with h | h
        · exact ⟨[], leg, legs, rfl, h⟩
        · obtain ⟨pre, l, post, rfl, he⟩ := ih h
          exact ⟨leg :: pre, l, post, rfl, he⟩
  · rintro ⟨pre, leg, post, rfl, he⟩
    rw [eventsFrom_append, List.mem_append]
    exact Or.inr (List.mem_append_left _ (Option.mem_toList.mpr he))

/-- What an event says about its leg. -/
theorem legEvent_eq_some {closes atr : List (Option K)} {bias : SmcTrend} {leg : Leg K}
    {e : StructureEvent K} (h : (legEvent cfg closes atr bias leg).1 = some e) :
    breaks cfg closes atr leg = true ∧ e.sourceLeg = leg ∧ e.time = leg.toSwing.time ∧
      e.priceLevel = leg.toSwing.price := by
  unfold legEvent at h
  split_ifs at h with hbreaks
  · obtain ⟨v, -, rfl⟩ := Option.map_eq_some_iff.mp h
    exact ⟨hbreaks, rfl, rfl, rfl⟩

/-- Events look at the cells of their own legs only. -/
theorem eventsFrom_congr {closes closes' atr atr' : List (Option K)} (bias : SmcTrend)
    {legs : List (Leg K)}
    (hclose : ∀ leg ∈ legs, valueAt closes leg.toSwing.index = valueAt closes' leg.toSwing.index)
    (hatr : ∀ leg ∈ legs, valueAt atr leg.toSwing.index = valueAt atr' leg.toSwing.index) :
    eventsFrom cfg closes atr bias legs = eventsFrom cfg closes' atr' bias legs := by
  induction legs generalizing bias with
  | nil => rfl
  | cons leg legs ih =>
      have hleg : legEvent cfg closes atr bias leg = legEvent cfg closes' atr' bias leg := by
        unfold legEvent breaks
        rw [hclose leg List.mem_cons_self, hatr leg List.mem_cons_self]
      simp only [eventsFrom]
      rw [hleg, ih _ (fun l hl => hclose l (List.mem_cons_of_mem _ hl))
        (fun l hl => hatr l (List.mem_cons_of_mem _ hl))]

end

end StructureEngine

end SmcPipeline
