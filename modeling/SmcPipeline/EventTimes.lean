import SmcPipeline.Serializers
import SmcPipeline.ViewerClient

/-!
# The time of an event in the browser

An event leaves the pipeline with its UTC time; the builder turns that into text without an
offset, which the browser takes for local time. What arrives is the time of the event less the
offset of the client's zone.
-/

namespace SmcPipeline.EventTimes

open Calendar Serialization Serializers ViewerStateBuilder ViewerClient

variable {K : Type*}

/-- An event is given with its ISO text, or with its milliseconds. -/
inductive TimeForm
  | iso
  | epochMs
deriving DecidableEq, Repr

def timeValue (form : TimeForm) (ms : ℤ) : Json (Option K) :=
  match form with
  | .iso => .str (isoText ms)
  | .epochMs => .int ms

def timedEvent (e : TimeForm × StructureEvent K) : Json (Option K) :=
  .obj (eventFields (timeValue e.1 e.2.time) e.2)

/-- `datetime.fromisoformat` reads the text of a timestamp. -/
def ReadsIso (env : ViewerRuntime (Option K)) : Prop :=
  ∀ ms, FourDigitYear (civilTime (ms / 1000)) →
    env.fromisoformat (isoText ms) = some ⟨ms * 1000, some 0⟩

/-- The text of a date is no number, and without an offset it is local time: the zone is
`offset c` seconds east of UTC when the client's clock shows `c`. -/
structure LocalDates (browser : Browser (Option K)) (offset : CivilTime → ℤ) : Prop where
  number : ∀ c, FourDigitYear c → civilTime (secondsOf c) = c →
    browser.number (.str (humanText c)) = none
  dateParse : ∀ c, FourDigitYear c → civilTime (secondsOf c) = c →
    browser.dateParse (humanText c) = some ((secondsOf c - offset c) * 1000)

/-- The calendar time of an event. -/
def civilOf (ms : ℤ) : CivilTime := civilTime (ms / 1000)

variable {env : ViewerRuntime (Option K)} {browser : Browser (Option K)}
  {offset : CivilTime → ℤ}

theorem isoText_ne_empty (ms : ℤ) : isoText ms ≠ "" := by
  intro h
  have hlast := getLast?_isoChars ms
  have hnil : isoChars ms = [] := by
    have htoList := congrArg String.toList h
    unfold isoText at htoList
    rwa [String.toList_ofList] at htoList
  rw [hnil] at hlast
  cases hlast

theorem humanUtc_of_fourDigitYear {seconds : ℤ} (h : FourDigitYear (civilTime seconds)) :
    humanUtc seconds = some (humanText (civilTime seconds)) := by
  obtain ⟨hlow, hhigh⟩ := h
  unfold humanUtc
  exact if_pos ⟨by omega, hhigh⟩

/-- The text of a timestamp becomes the text of its calendar time. -/
theorem tryIsoToHumanUtc_isoText (hiso : ReadsIso env) {ms : ℤ} (h : FourDigitYear (civilOf ms)) :
    tryIsoToHumanUtc env (isoText ms) = some (humanText (civilOf ms)) := by
  have hstrip : FxcmIngestor.strip (isoText ms) = isoText ms := by
    apply strip_eq_self
    · intro c hc
      exact isSpace_of_isDigit (isDigit_of_mem_head? hc)
    · intro c hc
      rw [getLast?_isoChars] at hc
      cases hc
      decide
  have hoffset : withOffset (isoText ms) = isoText ms := by
    unfold withOffset isoText
    rw [String.toList_ofList, getLast?_isoChars, if_neg (by decide)]
  have hmicros : (ms * 1000 - (some (0 : ℤ)).getD 0) / 1000000 = ms / 1000 := by
    rw [Option.getD_some]
    omega
  unfold tryIsoToHumanUtc isoZToDt
  dsimp only
  rw [hstrip, if_neg (isoText_ne_empty ms), hstrip, hoffset, hiso ms h, Option.map_some,
    Option.bind_some, hmicros]
  exact humanUtc_of_fourDigitYear h

/-- The time that is sent for an event. -/
def sentTime (e : TimeForm × StructureEvent K) : Json (Option K) :=
  match e.1 with
  | .iso => .str (humanText (civilOf e.2.time))
  | .epochMs => if e.2.time = 0 then .null else .str (humanText (civilOf e.2.time))

theorem eventTime_timeValue (hiso : ReadsIso env) (e : TimeForm × StructureEvent K)
    (h : FourDigitYear (civilOf e.2.time)) :
    eventTime env (orElse env (timeValue e.1 e.2.time) .null) = some (sentTime e) := by
  obtain ⟨form, e⟩ := e
  cases form with
  | iso =>
      have htruthy : truthy env (timeValue .iso e.time) = true := by
        simp [truthy, timeValue, isoText_ne_empty]
      unfold orElse
      rw [if_pos htruthy]
      simp [eventTime, isNumber, humanTime, timeValue, sentTime, tryIsoToHumanUtc_isoText hiso h]
  | epochMs =>
      by_cases hzero : e.time = 0
      · simp [orElse, truthy, timeValue, eventTime, isNumber, humanTime, sentTime, hzero]
      · have hhuman : utcMsToHumanUtc e.time = some (humanText (civilOf e.time)) :=
          humanUtc_of_fourDigitYear h
        simp [orElse, truthy, timeValue, eventTime, isNumber, sentTime, hzero, env.int_int, hhuman]

theorem orElse_null (v : Json (Option K)) :
    orElse env (orElse env v .null) .null = orElse env v .null := by
  unfold orElse
  by_cases hv : truthy env v = true
  · rw [if_pos hv, if_pos hv]
  · rw [if_neg hv]
    exact ite_self _

/-- An event is sent with one time, under one name. -/
structure SentWith (time evt : Json (Option K)) : Prop where
  time : prop (some evt) "time" = some time
  ts : prop (some evt) "ts" = none
  timestamp : prop (some evt) "timestamp" = none

/-- An event of the hint is sent with that time. -/
theorem simplifyEvent_timedEvent (hiso : ReadsIso env) {e : TimeForm × StructureEvent K}
    (h : FourDigitYear (civilOf e.2.time)) :
    ∃ evt, simplifyEvent env (eventFields (timeValue e.1 e.2.time) e.2) = some evt ∧
      SentWith (sentTime e) evt := by
  have htime : get (eventFields (timeValue e.1 e.2.time) e.2) "time" = timeValue e.1 e.2.time := rfl
  have htimestamp : get (eventFields (timeValue e.1 e.2.time) e.2) "timestamp" = .null := rfl
  have hts : get (eventFields (timeValue e.1 e.2.time) e.2) "ts" = .null := rfl
  have hcreated : get (eventFields (timeValue e.1 e.2.time) e.2) "created_at" = .null := rfl
  unfold simplifyEvent
  rw [htime, htimestamp, hts, hcreated, orElse_null, orElse_null, eventTime_timeValue hiso e h]
  exact ⟨_, rfl, rfl, rfl, rfl⟩

/-- The browser gets the time of the event less its offset. -/
theorem safeUnixSeconds_sentTime (hdates : LocalDates browser offset)
    (e : TimeForm × StructureEvent K) (h : FourDigitYear (civilOf e.2.time)) :
    safeUnixSeconds browser (some (sentTime e)) =
      if e.1 = .epochMs ∧ e.2.time = 0 then none
      else some (e.2.time / 1000 - offset (civilOf e.2.time)) := by
  have hseconds : secondsOf (civilOf e.2.time) = e.2.time / 1000 := secondsOf_civilTime _
  have hreal : civilTime (secondsOf (civilOf e.2.time)) = civilOf e.2.time := by
    rw [hseconds]
    rfl
  have htext : safeUnixSeconds browser (some (.str (humanText (civilOf e.2.time)))) =
      some (e.2.time / 1000 - offset (civilOf e.2.time)) := by
    unfold safeUnixSeconds
    dsimp only
    rw [hdates.number _ h hreal]
    dsimp only
    rw [hdates.dateParse _ h hreal, Option.map_some, hseconds]
    congr 1
    omega
  obtain ⟨form, e⟩ := e
  cases form with
  | iso =>
      rw [if_neg (by simp)]
      exact htext
  | epochMs =>
      by_cases hzero : e.time = 0
      · rw [if_pos ⟨rfl, hzero⟩]
        simp [sentTime, hzero, safeUnixSeconds]
      · rw [if_neg (by simp [hzero])]
        simpa [sentTime, hzero] using htext

theorem humanText_ne_empty (c : CivilTime) : humanText c ≠ "" := by
  intro h
  have hnil : civilChars ' ' c = [] := by
    have htoList := congrArg String.toList h
    unfold humanText at htoList
    rwa [String.toList_ofList] at htoList
  unfold civilChars at hnil
  exact List.cons_ne_nil _ _ (List.append_eq_nil_iff.mp hnil).2

/-- The page takes the time that is sent. -/
theorem time_mapEvent {e : TimeForm × StructureEvent K} {evt : Json (Option K)}
    (h : SentWith (sentTime e) evt) :
    (mapEvent browser evt).time = safeUnixSeconds browser (some (sentTime e)) := by
  have htext : isTruthy browser (some (.str (humanText (civilOf e.2.time)))) = true :=
    decide_eq_true (humanText_ne_empty _)
  have hfirst : ∀ v, ViewerClient.or browser none v = v := fun _ => rfl
  unfold mapEvent
  dsimp only
  rw [h.ts, h.time, h.timestamp, hfirst]
  unfold sentTime
  cases e.1 with
  | iso => rw [ViewerClient.or, if_pos htext]
  | epochMs =>
      dsimp only
      split_ifs
      · rfl
      · rw [ViewerClient.or, if_pos htext]

/-- The events that are sent are the last ones. -/
def sentEvents (events : List (TimeForm × StructureEvent K)) :
    List (TimeForm × StructureEvent K) :=
  events.drop (events.length - maxEvents)

/-- Where every event has a year of four digits, the builder sends its last events. -/
theorem simplifyEvents_timedEvents (hiso : ReadsIso env)
    {events : List (TimeForm × StructureEvent K)}
    (h : ∀ e ∈ events, FourDigitYear (civilOf e.2.time)) :
    ∃ emitted, simplifyEvents env (.arr (events.map timedEvent)) = some emitted ∧
      List.Forall₂ (fun e evt => SentWith (sentTime e) evt) (sentEvents events) emitted := by
  unfold simplifyEvents timedEvent
  rw [lastDicts_map]
  change ∃ emitted, ((sentEvents events).map _).mapM _ = _ ∧ _
  have hsent : ∀ e ∈ sentEvents events, FourDigitYear (civilOf e.2.time) := fun e he =>
    h e (List.mem_of_mem_drop he)
  generalize sentEvents events = sent at hsent ⊢
  induction sent with
  | nil => exact ⟨[], rfl, .nil⟩
  | cons e rest ih =>
      obtain ⟨evt, hevt, htime⟩ := simplifyEvent_timedEvent hiso (hsent e List.mem_cons_self)
      obtain ⟨emitted, hemitted, htimes⟩ := ih fun q hq => hsent q (List.mem_cons_of_mem e hq)
      refine ⟨evt :: emitted, ?_, .cons htime htimes⟩
      rw [List.map_cons, List.mapM_cons, hevt, hemitted]
      rfl

theorem map_eq_of_forall₂ {α β γ : Type*} {f : α → γ} {g : β → γ} {as : List α} {bs : List β}
    (h : List.Forall₂ (fun a b => g b = f a) as bs) : bs.map g = as.map f := by
  induction h with
  | nil => rfl
  | cons hab _ ih => rw [List.map_cons, List.map_cons, hab, ih]

/-- The browser gets the seconds of every event that is sent exactly where the client's zone has
no offset at the times that its clock is shown, and no event is given as the millisecond 0. These
are the times of the events that the page makes of a viewer state. -/
theorem event_times_survive_iff (hiso : ReadsIso env) (hdates : LocalDates browser offset)
    {events : List (TimeForm × StructureEvent K)}
    (h : ∀ e ∈ events, FourDigitYear (civilOf e.2.time)) :
    ∃ emitted, simplifyEvents env (.arr (events.map timedEvent)) = some emitted ∧
      (emitted.map (fun evt => safeUnixSeconds browser (prop (some evt) "time")) =
          (sentEvents events).map (fun e => some (e.2.time / 1000)) ↔
        ∀ e ∈ sentEvents events,
          offset (civilOf e.2.time) = 0 ∧ ¬ (e.1 = .epochMs ∧ e.2.time = 0)) ∧
      ∀ state, prop (prop (some state) "structure") "events" = some (.arr emitted) →
        (mapEventsFromViewerState browser state).map ChartEvent.time =
          emitted.map fun evt => safeUnixSeconds browser (prop (some evt) "time") := by
  obtain ⟨emitted, hemitted, htimes⟩ := simplifyEvents_timedEvents hiso h
  have hseconds : emitted.map (fun evt => safeUnixSeconds browser (prop (some evt) "time")) =
      (sentEvents events).map fun e => safeUnixSeconds browser (some (sentTime e)) :=
    map_eq_of_forall₂ (htimes.imp fun e evt hsent => by rw [hsent.time])
  have hshown : emitted.map (fun evt => (mapEvent browser evt).time) =
      (sentEvents events).map fun e => safeUnixSeconds browser (some (sentTime e)) :=
    map_eq_of_forall₂ (htimes.imp fun e evt hsent => time_mapEvent hsent)
  refine ⟨emitted, hemitted, ?_, fun state hstate => ?_⟩
  swap
  · unfold mapEventsFromViewerState
    rw [hstate, hseconds, ← hshown, itemsOf, List.map_map]
    rfl
  rw [hseconds, List.map_inj_left]
  refine forall₂_congr fun e he => ?_
  rw [safeUnixSeconds_sentTime hdates e (h e (List.mem_of_mem_drop he))]
  by_cases hzero : e.1 = .epochMs ∧ e.2.time = 0
  · rw [if_pos hzero]
    exact iff_of_false (by simp) fun hboth => hboth.2 hzero
  · rw [if_neg hzero, Option.some.injEq]
    constructor
    · intro heq
      exact ⟨by omega, hzero⟩
    · rintro ⟨hoffset, -⟩
      omega

/-- A client whose zone has one offset. -/
def fixedBrowser (offset : ℤ) : Browser (Option ℚ) where
  isZero x := decide (x = some 0)
  number
    | .bool b => some b.toNat
    | .int i => some i
    | .float x => x
    | _ => none
  dateParse text := (readCivil ' ' text.toList).map fun read => (secondsOf read.1 - offset) * 1000

theorem localDates_fixedBrowser (offset : ℤ) :
    LocalDates (fixedBrowser offset) fun _ => offset := by
  constructor
  · intro c _ _
    rfl
  · intro c hyear hreal
    have hfits : Fits c := by
      rw [← hreal] at hyear ⊢
      exact fits_civilTime hyear
    have hread := readCivil_civilChars hfits ' ' []
    rw [List.append_nil] at hread
    unfold fixedBrowser humanText
    dsimp only
    rw [String.toList_ofList, hread, Option.map_some]

/-- A break at 2025-11-24 16:35 UTC. -/
def breakEvent : StructureEvent ℚ :=
  let low : Swing ℚ := ⟨3, 1764001800000, 2, .low, 3⟩
  let high : Swing ℚ := ⟨8, 1764002100000, 5, .high, 3⟩
  ⟨.bos, .long, 5, 1764002100000, ⟨low, high, .hh, some 4⟩⟩

theorem readsIso_viewerRuntime : ReadsIso viewerRuntime := fun _ h => readIso_isoText h

theorem fourDigitYear_breakEvent :
    ∀ e ∈ [(TimeForm.iso, breakEvent)], FourDigitYear (civilOf e.2.time) := by
  intro e he
  rw [List.mem_singleton.mp he]
  exact ⟨by decide, by decide⟩

theorem break_arrives_in_utc :
    ∃ emitted, simplifyEvents viewerRuntime (.arr [timedEvent (.iso, breakEvent)]) = some emitted ∧
      emitted.map (fun evt => safeUnixSeconds (fixedBrowser 0) (prop (some evt) "time")) =
        [some 1764002100] := by
  obtain ⟨emitted, hemitted, hiff, -⟩ := event_times_survive_iff readsIso_viewerRuntime
    (localDates_fixedBrowser 0) fourDigitYear_breakEvent
  refine ⟨emitted, hemitted, hiff.mpr ?_⟩
  intro e he
  rw [List.mem_singleton.mp he]
  exact ⟨rfl, by decide⟩

/-- Two hours east of UTC the break is shown two hours early. -/
theorem break_is_early_in_the_east :
    ∃ emitted, simplifyEvents viewerRuntime (.arr [timedEvent (.iso, breakEvent)]) = some emitted ∧
      emitted.map (fun evt => safeUnixSeconds (fixedBrowser 7200) (prop (some evt) "time")) ≠
        [some 1764002100] := by
  obtain ⟨emitted, hemitted, htimes⟩ := simplifyEvents_timedEvents readsIso_viewerRuntime
    fourDigitYear_breakEvent
  refine ⟨emitted, hemitted, ?_⟩
  have hmap : emitted.map (fun evt => safeUnixSeconds (fixedBrowser 7200)
      (prop (some evt) "time")) = _ :=
    map_eq_of_forall₂ (htimes.imp fun e evt hsent => congrArg _ hsent.time)
  intro heq
  have htime := safeUnixSeconds_sentTime (localDates_fixedBrowser 7200) (.iso, breakEvent)
    (fourDigitYear_breakEvent _ List.mem_cons_self)
  have hsent : [safeUnixSeconds (fixedBrowser 7200) (some (sentTime (.iso, breakEvent)))] =
      [some 1764002100] := hmap.symm.trans heq
  rw [htime] at hsent
  revert hsent
  decide

end SmcPipeline.EventTimes
