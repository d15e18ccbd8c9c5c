import SmcPipeline.EventMemory

/-!
# When the bias changes

`_derive_bias` takes the direction of the last CHOCH, and falls back to the trend
whenever there is none. The events of a frame may then all be BOS, and the fallback
follows the trend with every new label. Otherwise the rule holds: with a CHOCH in
hand the bias stays until there is another one.
-/

namespace SmcPipeline.BiasChanges

open Candles StructureEngine StructureState EventMemory

variable {K : Type*} [Field K] [LinearOrder K] (cfg : SmcCoreConfig K)

/-- The bias that the trend alone gives. -/
def trendBias : SmcTrend → Bias
  | .up => .long
  | .down => .short
  | _ => .neutral

/-- The bias of a frame and its extension differ only if there is a new CHOCH, or the
frame has no events. -/
def ChangesByChoch (df more : List (RawBar K)) : Prop :=
  (compute cfg (some (df ++ more))).bias ≠ (compute cfg (some df)).bias →
    (∃ e ∈ (compute cfg (some (df ++ more))).events,
      e.eventType = .choch ∧ e ∉ (compute cfg (some df)).events) ∨
    (compute cfg (some df)).events = []

omit [Field K] [LinearOrder K] in
theorem lastChoch_concat (events : List (StructureEvent K)) (e : StructureEvent K) :
    lastChoch (events ++ [e]) =
      if e.eventType = .choch then
        match lastChoch events with
        | none => some e
        | some prev => if prev.time ≤ e.time then some e else some prev
      else lastChoch events := by
  unfold lastChoch
  exact List.foldl_concat ..

omit [Field K] [LinearOrder K] in
theorem lastChoch_append {events more : List (StructureEvent K)}
    (h : ∀ e ∈ more, e.eventType ≠ .choch) : lastChoch (events ++ more) = lastChoch events := by
  induction more using List.reverseRecOn with
  | nil => rw [List.append_nil]
  | append_singleton more e ih =>
      rw [← List.append_assoc, lastChoch_concat, if_neg (h e (by simp))]
      exact ih fun q hq => h q (List.mem_append_left _ hq)

omit [Field K] [LinearOrder K] in
theorem isSome_lastChoch {events : List (StructureEvent K)} {e : StructureEvent K}
    (he : e ∈ events) (hchoch : e.eventType = .choch) : (lastChoch events).isSome = true := by
  induction events using List.reverseRecOn with
  | nil => cases he
  | append_singleton events q ih =>
      rw [lastChoch_concat]
      split_ifs with hq
      · split
        · rfl
        · split_ifs <;> rfl
      · rcases List.mem_append.mp he with he | he
        · exact ih he
        · obtain rfl : e = q := by simpa using he
          exact absurd hchoch hq

omit [Field K] [LinearOrder K] in
theorem deriveBias_of_no_choch {trend : SmcTrend} {events : List (StructureEvent K)}
    (h : ∀ e ∈ events, e.eventType ≠ .choch) : (deriveBias trend events).1 = trendBias trend := by
  have hnone : lastChoch ([] ++ events) = lastChoch [] := lastChoch_append h
  rw [List.nil_append] at hnone
  unfold deriveBias
  rw [hnone]
  cases trend <;> rfl

omit [Field K] [LinearOrder K] in
/-- With a CHOCH the trend does not count. -/
theorem deriveBias_of_choch (trend trend' : SmcTrend) {events : List (StructureEvent K)}
    {e : StructureEvent K} (he : e ∈ events) (hchoch : e.eventType = .choch) :
    deriveBias trend events = deriveBias trend' events := by
  obtain ⟨last, hlast⟩ := Option.isSome_iff_exists.mp (isSome_lastChoch he hchoch)
  unfold deriveBias
  rw [hlast]

/-- The events of the new rows come from new legs. -/
theorem events_append (rows more : List (Candle K)) :
    ∃ new, (ofRows cfg (rows ++ more)).events = (ofRows cfg rows).events ++ new ∧
      ∀ e ∈ new, e ∉ (ofRows cfg rows).events := by
  obtain ⟨swings, legs, bias, -, hlegs, hevents⟩ := passes_append cfg rows more
  refine ⟨_, hevents, fun e he hold => ?_⟩
  obtain ⟨hleg, -, -⟩ := mem_events cfg hold
  obtain ⟨pre, leg, post, hsplit, hout⟩ := (mem_eventsFrom cfg).mp he
  obtain ⟨-, hsource, -, -⟩ := legEvent_eq_some cfg hout
  have hnew : e.sourceLeg ∈ legs := by
    rw [hsource, hsplit]
    simp
  have hnodup := legs_nodup (rows ++ more) cfg.minSwingBars
  rw [← ofRows_legs, hlegs, List.map_append, List.nodup_append] at hnodup
  exact hnodup.2.2 _ (List.mem_map_of_mem hleg) _ (List.mem_map_of_mem hnew) rfl

variable {cfg}

theorem bias_eq (rows : List (Candle K)) :
    (ofRows cfg rows).bias =
      (deriveBias (ofRows cfg rows).trend (ofRows cfg rows).events).1 := rfl

/-- Over bars appended within the lookback, the bias changes by a CHOCH exactly if the
frame has no events, or its extension has a CHOCH, or the two trends give one bias. -/
theorem changes_by_choch_iff {df more : List (RawBar K)}
    (hlater : ∀ b ∈ more, ∀ a ∈ df, ∀ t u, a.openTime = some t → b.openTime = some u → t ≤ u)
    (hlen : ((df ++ more).length : ℤ) ≤ cfg.maxLookbackBars) :
    ChangesByChoch cfg df more ↔
      (compute cfg (some df)).events = [] ∨
        (∃ e ∈ (compute cfg (some (df ++ more))).events, e.eventType = .choch) ∨
        trendBias (compute cfg (some (df ++ more))).trend =
          trendBias (compute cfg (some df)).trend := by
  obtain ⟨rest, hrest⟩ := prepared_append hlen hlater
  unfold ChangesByChoch compute
  rw [hrest]
  generalize prepared cfg.maxLookbackBars (some df) = rows
  obtain ⟨new, hevents, hnew⟩ := events_append cfg rows rest
  by_cases hempty : (ofRows cfg rows).events = []
  · exact iff_of_true (fun _ => Or.inr hempty) (Or.inl hempty)
  · by_cases hchoch : ∃ e ∈ (ofRows cfg (rows ++ rest)).events, e.eventType = .choch
    · refine iff_of_true (fun hne => Or.inl ?_) (Or.inr (Or.inl hchoch))
      by_contra hnone
      have hquiet : ∀ e ∈ new, e.eventType ≠ .choch := fun e he htype =>
        hnone ⟨e, hevents ▸ List.mem_append_right _ he, htype, hnew e he⟩
      obtain ⟨e, he, htype⟩ := hchoch
      have hold : e ∈ (ofRows cfg rows).events := by
        rw [hevents] at he
        exact (List.mem_append.mp he).resolve_right fun h => hquiet e h htype
      apply hne
      rw [bias_eq, bias_eq, deriveBias_of_choch _ (ofRows cfg rows).trend he htype,
        hevents]
      unfold deriveBias
      rw [lastChoch_append hquiet]
    · have hnone : ∀ e ∈ (ofRows cfg (rows ++ rest)).events, e.eventType ≠ .choch :=
        fun e he htype => hchoch ⟨e, he, htype⟩
      have hold : ∀ e ∈ (ofRows cfg rows).events, e.eventType ≠ .choch := fun e he =>
        hnone e (hevents ▸ List.mem_append_left _ he)
      rw [bias_eq, bias_eq, deriveBias_of_no_choch hnone, deriveBias_of_no_choch hold]
      constructor
      · intro h
        by_contra hnot
        rw [not_or, not_or] at hnot
        rcases h hnot.2.2 with ⟨e, he, htype, -⟩ | h
        · exact hnone e he htype
        · exact hempty h
      · rintro (h | h | h) hne
        · exact absurd h hempty
        · exact absurd h hchoch
        · exact absurd h hne

section FixedInputs

/-- A higher high and a higher low, with two BOS. -/
def upFrame : List (RawBar ℚ) := risingFrame ++ [minuteOf 6 8 5]

theorem opens_no_earlier {df more : List (RawBar ℚ)}
    (h : ∀ b ∈ more, ∀ a ∈ df, ∀ t ∈ a.openTime.toList, ∀ u ∈ b.openTime.toList, t ≤ u) :
    ∀ b ∈ more, ∀ a ∈ df, ∀ t u, a.openTime = some t → b.openTime = some u → t ≤ u :=
  fun b hb a ha t u ht hu => h b hb a ha t (by simp [ht]) u (by simp [hu])

/-- A lower high is confirmed: no event, but the trend is gone. -/
theorem bias_changes_without_choch :
    ¬ ∀ (cfg : SmcCoreConfig ℚ) (df more : List (RawBar ℚ)),
      (∀ b ∈ more, ∀ a ∈ df, ∀ t u, a.openTime = some t → b.openTime = some u → t ≤ u) →
      ((df ++ more).length : ℤ) ≤ cfg.maxLookbackBars → ChangesByChoch cfg df more := by
  intro h
  have hbias : (compute sensitive (some (upFrame ++ [minuteOf 7 7 4]))).bias ≠
      (compute sensitive (some upFrame)).bias := by decide +kernel
  rcases h sensitive upFrame [minuteOf 7 7 4] (opens_no_earlier (by decide +kernel)) (by decide) hbias with h | h
  · revert h
    decide +kernel
  · revert h
    decide +kernel

/-- Without the lower high the bias stays. -/
theorem bias_stays_without_lower_high : ChangesByChoch sensitive upFrame [minuteOf 7 9 6] :=
  (changes_by_choch_iff (opens_no_earlier (by decide +kernel)) (by decide)).mpr
    (Or.inr (Or.inr (by decide +kernel)))

end FixedInputs

end SmcPipeline.BiasChanges
