import SmcPipeline.BiasChanges
import Mathlib.Data.List.Chain

/-!
# BOS and CHOCH as an automaton

The structural bias of `detect_events` never leaves the function. It is unknown until
the first event and afterwards says the direction of the last one, whichever of the
four labels gave it. So the kind of an event can be read off the event before it.
-/

namespace SmcPipeline.EventAutomaton

open Candles StructureEngine BiasChanges

variable {K : Type*}

def trendOf : Direction → SmcTrend
  | .long => .up
  | .short => .down

def biasToward : Direction → Bias
  | .long => .long
  | .short => .short

/-- The structural bias after an event of this direction, or before any event. -/
def biasOf (last : Option Direction) : SmcTrend :=
  last.elim .unknown trendOf

/-- The kind of the next event, by its direction and the direction of the last one. -/
def nextType : Option Direction → Direction → EventType
  | none, _ => .bos
  | some last, d => if d = last then .bos else .choch

theorem nextType_some_eq_choch (last d : Direction) :
    nextType (some last) d = .choch ↔ d ≠ last := by
  simp [nextType]

/-- A broken leg keeps the bias without an event, or gives an event of the automaton. -/
theorem classify_biasOf (last : Option Direction) (label : LegLabel) :
    classify (biasOf last) label = (none, biasOf last) ∨
      ∃ d, classify (biasOf last) label = (some (nextType last d, d), biasOf (some d)) := by
  cases label with
  | hh => exact Or.inr ⟨.long, by cases last with | none => rfl | some d => cases d <;> rfl⟩
  | ll => exact Or.inr ⟨.short, by cases last with | none => rfl | some d => cases d <;> rfl⟩
  | lh =>
      cases last with
      | none => exact Or.inl rfl
      | some d =>
          cases d with
          | long => exact Or.inl rfl
          | short => exact Or.inr ⟨.short, rfl⟩
  | hl =>
      cases last with
      | none => exact Or.inl rfl
      | some d =>
          cases d with
          | long => exact Or.inr ⟨.long, rfl⟩
          | short => exact Or.inl rfl
  | undefined => exact Or.inl rfl

/-- The kind of each event follows from the directions. -/
def Follows : Option Direction → List (StructureEvent K) → Prop
  | _, [] => True
  | last, e :: events => e.eventType = nextType last e.direction ∧ Follows (some e.direction) events

theorem Follows.isChain {last : Option Direction} {events : List (StructureEvent K)}
    (h : Follows last events) :
    events.IsChain fun a b => b.eventType = .choch ↔ b.direction ≠ a.direction := by
  induction events generalizing last with
  | nil => exact .nil
  | cons e events ih =>
      obtain ⟨-, hrest⟩ := h
      refine List.isChain_cons.mpr ⟨fun b hb => ?_, ih hrest⟩
      cases events with
      | nil => cases hb
      | cons next events =>
          cases hb
          rw [hrest.1]
          exact nextType_some_eq_choch e.direction b.direction

/-- Between two CHOCH all events keep one direction. -/
theorem Follows.choch_isChain {last : Option Direction} {events : List (StructureEvent K)}
    (h : Follows last events) :
    (∀ d, last = some d → ∀ c ∈ (events.filter fun e => e.eventType = .choch).head?,
        c.direction ≠ d) ∧
      (events.filter fun e => e.eventType = .choch).IsChain
        fun a b => b.direction ≠ a.direction := by
  induction events generalizing last with
  | nil => exact ⟨fun d hd c hc => by simp at hc, List.IsChain.nil⟩
  | cons e events ih =>
      obtain ⟨htype, hrest⟩ := h
      obtain ⟨hhead, hchain⟩ := ih hrest
      by_cases hchoch : e.eventType = .choch
      · rw [List.filter_cons_of_pos (by simpa using hchoch)]
        refine ⟨fun d hd c hc => ?_, List.isChain_cons.mpr ⟨hhead e.direction rfl, hchain⟩⟩
        cases hc
        subst hd
        exact (nextType_some_eq_choch d e.direction).mp (htype.symm.trans hchoch)
      · rw [List.filter_cons_of_neg (by simpa using hchoch)]
        refine ⟨fun d hd c hc => ?_, hchain⟩
        subst hd
        -- a BOS repeats the direction it follows
        have hsame : e.direction = d := by
          by_contra hne
          exact hchoch (htype.trans ((nextType_some_eq_choch d e.direction).mpr hne))
        exact hsame ▸ hhead e.direction rfl c hc

theorem mem_of_lastChoch {events : List (StructureEvent K)} {c : StructureEvent K}
    (h : lastChoch events = some c) : c ∈ events := by
  induction events using List.reverseRecOn with
  | nil => cases h
  | append_singleton events q ih =>
      rw [lastChoch_concat] at h
      split_ifs at h with hq
      · cases hprev : lastChoch events with
        | none =>
            rw [hprev] at h
            cases h
            exact List.mem_append_right _ List.mem_cons_self
        | some prev =>
            simp only [hprev] at h
            split_ifs at h with hle
            · cases h
              exact List.mem_append_right _ List.mem_cons_self
            · exact List.mem_append_left _ (ih (hprev.trans h))
      · exact List.mem_append_left _ (ih h)

/-- In time order the last CHOCH has the direction of the last event. -/
theorem lastChoch_direction {events : List (StructureEvent K)} {c e : StructureEvent K}
    (hchain : events.IsChain fun a b => b.eventType = .choch ↔ b.direction ≠ a.direction)
    (htimes : events.Pairwise fun a b => a.time ≤ b.time)
    (hc : lastChoch events = some c) (he : events.getLast? = some e) :
    c.direction = e.direction := by
  induction events using List.reverseRecOn generalizing e with
  | nil => cases he
  | append_singleton events q ih =>
      obtain rfl : q = e := by simpa using he
      obtain ⟨hpre, -, hlink⟩ := List.isChain_append.mp hchain
      obtain ⟨htpre, -, hlater⟩ := List.pairwise_append.mp htimes
      rw [lastChoch_concat] at hc
      split_ifs at hc with hq
      · cases hprev : lastChoch events with
        | none =>
            rw [hprev] at hc
            cases hc
            rfl
        | some prev =>
            rw [hprev] at hc
            have hle : prev.time ≤ q.time :=
              hlater prev (mem_of_lastChoch hprev) q List.mem_cons_self
            simp only [if_pos hle] at hc
            cases hc
            rfl
      · cases hlast : events.getLast? with
        | none =>
            obtain rfl := List.getLast?_eq_none_iff.mp hlast
            cases hc
        | some p =>
            have hsame : q.direction = p.direction := by
              by_contra hne
              exact hq ((hlink p hlast q rfl).mpr hne)
            rw [ih hpre htpre hc hlast, hsame]

variable [Field K] [LinearOrder K] (cfg : SmcCoreConfig K)

theorem legEvent_biasOf (closes atr : List (Option K)) (last : Option Direction) (leg : Leg K) :
    legEvent cfg closes atr (biasOf last) leg = (none, biasOf last) ∨
      ∃ e, legEvent cfg closes atr (biasOf last) leg = (some e, biasOf (some e.direction)) ∧
        e.eventType = nextType last e.direction := by
  unfold legEvent
  split_ifs
  · rcases classify_biasOf last leg.label with h | ⟨d, h⟩
    · exact Or.inl (by rw [h]; rfl)
    · exact Or.inr ⟨⟨nextType last d, d, leg.toSwing.price, leg.toSwing.time, leg⟩,
        by rw [h]; rfl, rfl⟩
  · exact Or.inl rfl

theorem follows_eventsFrom (closes atr : List (Option K)) (last : Option Direction)
    (legs : List (Leg K)) : Follows last (eventsFrom cfg closes atr (biasOf last) legs) := by
  induction legs generalizing last with
  | nil => trivial
  | cons leg legs ih =>
      simp only [eventsFrom]
      rcases legEvent_biasOf cfg closes atr last leg with h | ⟨e, h, htype⟩
      · rw [h]
        exact ih last
      · rw [h]
        exact ⟨htype, ih (some e.direction)⟩

/-- The first event is a BOS, a later one a CHOCH exactly if its direction is new; the
CHOCH alternate, and in time order the bias is the direction of the last event. -/
theorem detectEvents_automaton (legs : List (Leg K)) (rows : List (Candle K))
    (atr : List (Option K)) :
    (∀ e, (detectEvents cfg legs rows atr)[0]? = some e → e.eventType = .bos) ∧
    (∀ i a b, (detectEvents cfg legs rows atr)[i]? = some a →
      (detectEvents cfg legs rows atr)[i + 1]? = some b →
        (b.eventType = .choch ↔ b.direction ≠ a.direction)) ∧
    ((detectEvents cfg legs rows atr).filter fun e => e.eventType = .choch).IsChain
      (fun a b => b.direction ≠ a.direction) ∧
    ∀ trend last, (detectEvents cfg legs rows atr).Pairwise (fun a b => a.time ≤ b.time) →
      (∃ e ∈ detectEvents cfg legs rows atr, e.eventType = .choch) →
      (detectEvents cfg legs rows atr).getLast? = some last →
        (deriveBias trend (detectEvents cfg legs rows atr)).1 = biasToward last.direction := by
  have hfollows : Follows none (detectEvents cfg legs rows atr) :=
    follows_eventsFrom cfg (rows.map Candle.close) atr none legs
  generalize detectEvents cfg legs rows atr = events at hfollows ⊢
  refine ⟨fun e he => ?_, fun i a b ha hb => ?_, hfollows.choch_isChain.2, ?_⟩
  · cases events with
    | nil => cases he
    | cons first events =>
        cases he
        exact hfollows.1
  · obtain ⟨hi, rfl⟩ := List.getElem?_eq_some_iff.mp hb
    obtain ⟨-, rfl⟩ := List.getElem?_eq_some_iff.mp ha
    exact List.isChain_iff_getElem.mp hfollows.isChain i hi
  · rintro trend last htimes ⟨e, he, hchoch⟩ hlast
    obtain ⟨c, hc⟩ := Option.isSome_iff_exists.mp (isSome_lastChoch he hchoch)
    rw [← lastChoch_direction hfollows.isChain htimes hc hlast]
    unfold deriveBias
    simp only [hc]
    cases c.direction <;> rfl

section FixedInputs

open StructureState

def barAt (n : ℤ) (close : ℚ) : Candle ℚ := ⟨60000 * n, none, none, none, some close⟩

def swingOf (index : ℕ) (price : ℚ) (kind : SwingKind) : Swing ℚ :=
  ⟨index, 60000 * index, price, kind, 1⟩

/-- A higher high, then a lower low. -/
def turnLegs : List (Leg ℚ) :=
  [⟨swingOf 0 3 .low, swingOf 1 9 .high, .hh, some 7⟩,
    ⟨swingOf 1 9 .high, swingOf 2 1 .low, .ll, some 3⟩]

def turnRows : List (Candle ℚ) := [barAt 0 4, barAt 1 8, barAt 2 2]

theorem turn_is_choch :
    (detectEvents sensitive turnLegs turnRows []).map (fun e => (e.eventType, e.direction)) =
        [(.bos, .long), (.choch, .short)] ∧
      (deriveBias .up (detectEvents sensitive turnLegs turnRows [])).1 = biasToward .short := by
  have hevents : detectEvents sensitive turnLegs turnRows [] =
      [⟨.bos, .long, 9, 60000, turnLegs[0]⟩, ⟨.choch, .short, 1, 120000, turnLegs[1]⟩] := by
    decide +kernel
  refine ⟨by rw [hevents]; rfl, ?_⟩
  refine (detectEvents_automaton sensitive turnLegs turnRows []).2.2.2 .up
    ⟨.choch, .short, 1, 120000, turnLegs[1]⟩ ?_ ?_ ?_
  · rw [hevents]
    simp
  · rw [hevents]
    simp
  · rw [hevents]
    rfl

end FixedInputs

end SmcPipeline.EventAutomaton
