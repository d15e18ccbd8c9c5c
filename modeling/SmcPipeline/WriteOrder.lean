import SmcPipeline.UnifiedStore

/-!
# The order of write-behind over whole runs

Every action moves the write-behind structures through one of their operations or
leaves them alone, so the order invariant of a single queue operation becomes an
invariant of every run, for any number of writers and readers.

Three actions can break it. The handler of a failed save stores the popped frame
over whatever a writer has registered meanwhile and queues the key a second time;
a cancellation drops the frame in the middle of its save, whose thread may replace
the file later. `careful` names the states in which they do no harm.
-/

namespace SmcPipeline.WriteOrder

open StoreState Runs

variable {α : Type*} {cfg : StoreConfig α}

/-- A frame of the key is pending, or in the hands of the drain and not written yet. -/
def toBeWritten (w : WriteBehind α) (key : Key) : Bool :=
  (w.flushPending.get? key).isSome ||
    match w.maint with
    | .saving _ k _ false _ => decide (k = key)
    | _ => false

/-- A save fails only while no newer frame of its key is pending, and is cancelled
only when its frame is in the file already or a newer one is pending; the thread of
a cancelled save replaces the file only while a newer frame is still to be written. -/
def careful (s : StoreState α) : StoreAction α → Bool
  | .saveRaised =>
    match s.wb.maint with
    | .saving _ key _ _ _ => (s.wb.flushPending.get? key).isNone
    | _ => true
  | .stopMaintenance =>
    match s.wb.maint with
    | .saving _ key _ written _ => written || (s.wb.flushPending.get? key).isSome
    | _ => true
  | .threadWritten i => ((s.wb.threads[i]?).map fun save => toBeWritten s.wb save.1).getD true
  | _ => true

/-- A writer saves directly only when write-behind is off, and then nothing is
ever registered. -/
structure Invariant (cfg : StoreConfig α) (s : StoreState α) : Prop where
  ordered : s.wb.Ordered
  log : cfg.writeBehind = false → s.wb.log = []
  stage : ∀ w, s.mtx = some w → w.stage = .disk → cfg.writeBehind = false

theorem invariant_fresh (disk redis : Key → Option (Frame α)) :
    Invariant cfg (fresh cfg disk redis) where
  ordered := by
    refine WriteBehind.Settled.ordered ⟨?_, ?_, ?_, ?_, ?_⟩ ?_
    · intro m hm
      cases hm
    · exact List.nodup_nil
    · exact fun _ => Iff.rfl
    · intro key r hr
      cases hr
    · intro key n hn
      cases hn
    · intro final key df written left hm
      cases hm
  log _ := rfl
  stage w hw := by cases hw

/-- With an empty log no frame is in the middle of a save. -/
theorem Invariant.not_saving {s : StoreState α} (h : Invariant cfg s)
    (hcfg : cfg.writeBehind = false) (final : Bool) (key : Key) (df : Registered α)
    (written : Bool) (left : ℕ) : s.wb.maint ≠ .saving final key df written left := by
  intro hm
  have hlog := h.log hcfg
  have hnew : s.wb.newest key = none := by simp [WriteBehind.newest, hlog]
  cases hp : s.wb.flushPending.get? key with
  | none =>
      have := h.ordered.writing _ _ _ _ _ hm hp
      simp [hnew] at this
  | some r =>
      have := h.ordered.pending key r hp
      simp [hnew] at this

theorem toBeWritten_iff {w : WriteBehind α} {key : Key} :
    toBeWritten w key = true ↔ (w.flushPending.get? key).isSome ∨
      ∃ final df left, w.maint = .saving final key df false left := by
  unfold toBeWritten
  rw [Bool.or_eq_true]
  refine or_congr Iff.rfl ⟨fun h => ?_, ?_⟩
  · split at h
    · next final k df left hm =>
        obtain rfl : k = key := of_decide_eq_true h
        exact ⟨final, df, left, hm⟩
    · cases h
  · rintro ⟨final, df, left, hm⟩
    rw [hm]
    exact decide_eq_true rfl

theorem ordered_flushOp {s : StoreState α} {a : StoreAction α} {w : WriteBehind α}
    (h : s.wb.Ordered) (hcare : careful s a = true) (hop : FlushOp cfg s.wb a w) :
    w.Ordered := by
  cases hop with
  | start hw => exact WriteBehind.ordered_startMaintenance h hw
  | written hw => exact WriteBehind.ordered_saveWritten h hw
  | returned hw => exact WriteBehind.ordered_saveReturned h hw
  | raised hw =>
      refine WriteBehind.ordered_saveRaised h hw fun final key df written left hm => ?_
      simpa [careful, hm] using hcare
  | elapsed hw => exact WriteBehind.ordered_backoffElapsed h hw
  | stop hw =>
      refine WriteBehind.ordered_stopMaintenance cfg.profile h hw
        fun final key df written left hm => ?_
      simpa [careful, hm] using hcare
  | thread i hw =>
      refine WriteBehind.ordered_threadWritten h hw fun save hsave => toBeWritten_iff.mp ?_
      simpa [careful, hsave] using hcare

private theorem writerAt_stage (kind : WriterKind) (key : Key) (frame : Frame α) :
    (writerAt kind key frame).stage ≠ .disk := by
  unfold writerAt
  dsimp only
  split_ifs <;> simp

theorem invariant_step {s t : StoreState α} {a : StoreAction α} (h : Invariant cfg s)
    (hcare : careful s a = true) (hst : step cfg s a = some t) : Invariant cfg t := by
  cases step_effect cfg hst with
  | idle => exact ⟨h.ordered, h.log, h.stage⟩
  | put now key bars =>
      refine ⟨h.ordered, h.log, fun w hw hstage => ?_⟩
      cases hw
      exact (writerAt_stage _ _ _ hstage).elim
  | trim now key limit current =>
      refine ⟨h.ordered, h.log, fun w hw hstage => ?_⟩
      cases hw
      exact (writerAt_stage _ _ _ hstage).elim
  | publish =>
      refine ⟨h.ordered, h.log, fun w hw hstage => ?_⟩
      cases hw
      cases hstage
  | register kind key frame hm hcfg =>
      refine ⟨WriteBehind.ordered_register h.ordered kind key frame _, ?_, fun w hw => ?_⟩
      · simp [hcfg]
      · cases hw
  | bypass kind key frame hm hcfg => exact ⟨h.ordered, h.log, fun _ _ _ => hcfg⟩
  | saved ok kind key frame hm =>
      have hcfg := h.stage _ hm rfl
      have hidle := h.not_saving hcfg
      cases ok with
      | false => exact ⟨h.ordered, h.log, fun w hw => by cases hw⟩
      | true =>
          exact ⟨WriteBehind.ordered_saveDirect h.ordered key frame hidle, h.log,
            fun w hw => by cases hw⟩
  | store => exact ⟨h.ordered, h.log, h.stage⟩
  | wake now hm =>
      have hset := h.ordered.settled_of_idle (by simp [hm])
      exact ⟨hset.drainFlushQueue cfg.profile false, by simpa using h.log, h.stage⟩
  | flush hop =>
      exact ⟨ordered_flushOp h.ordered hcare hop, by simpa only [hop.log] using h.log, h.stage⟩

theorem invariant_run {s t : StoreState α} {as : List (StoreAction α)}
    (h : Run (step cfg) (fun s a => careful s a = true) s as t) (hs : Invariant cfg s) : Invariant cfg t :=
  h.invariant (fun _ _ _ => invariant_step) hs

/-- `_drain_flush_queue` is between its first and its last await. -/
def Draining (w : WriteBehind α) : Prop :=
  match w.maint with
  | .saving _ _ _ _ _ => True
  | .backoff _ => True
  | _ => False

/-- For each frame `m` registered so far: nothing older is pending for its key,
and nothing older is on disk unless `m` or a newer frame is still pending or in
the hands of the drain; between drains the queue lists each pending key once. -/
structure NeverBackwards (w : WriteBehind α) : Prop where
  pending : ∀ m ∈ w.log, ∀ r, w.flushPending.get? m.key = some r → m.stamp ≤ r.stamp
  disk : ∀ m ∈ w.log, ∀ r, w.disk m.key = some r → r.stamp < m.stamp →
    ∃ n, m.stamp ≤ n ∧ (w.PendingAt m.key n ∨ w.Writing m.key n)
  queue : ¬ Draining w → w.flushQ.Nodup ∧ ∀ key, key ∈ w.flushQ ↔ key ∈ w.flushPending.keys

theorem neverBackwards_of_ordered {w : WriteBehind α} (h : w.Ordered) : NeverBackwards w where
  pending m hm r hr := by
    obtain ⟨n, hn, hle⟩ := h.stamped.le_newest hm
    rw [h.pending _ _ hr] at hn
    cases hn
    exact hle
  disk m hm r hr hlt := by
    obtain ⟨n, hn, hle⟩ := h.stamped.le_newest hm
    rcases h.held _ _ hn with hp | hw | ⟨r', hr', hs⟩
    · exact ⟨n, hle, Or.inl hp⟩
    · exact ⟨n, hle, Or.inr hw⟩
    · rw [hr] at hr'
      cases hr'
      omega
  queue _ := ⟨h.nodup, h.queued⟩

/-- Writers, readers and a single drain: the maintenance task is never cancelled. -/
def Uncancelled (_ : StoreState α) (a : StoreAction α) : Prop := a.isStop = false

/-- A failing save finds no newer frame registered since its key was popped. -/
def NotOvertaken (s : StoreState α) (a : StoreAction α) : Prop :=
  Uncancelled s a ∧ careful s a = true

instance (s : StoreState α) (a : StoreAction α) : Decidable (Uncancelled s a) :=
  inferInstanceAs (Decidable (_ = _))

instance (s : StoreState α) (a : StoreAction α) : Decidable (NotOvertaken s a) :=
  inferInstanceAs (Decidable (_ ∧ _))

theorem never_backwards {disk redis : Key → Option (Frame α)} {as : List (StoreAction α)}
    {s : StoreState α} (h : Run (step cfg) NotOvertaken (fresh cfg disk redis) as s) :
    NeverBackwards s.wb := by
  have hrun := h.weaken fun _ _ hg => hg.2
  exact neverBackwards_of_ordered (invariant_run hrun (invariant_fresh disk redis)).ordered

section FixedInputs

/-- One bar a minute, all prices equal to the minute's number. -/
def minuteBar (n : ℤ) : Bar ℤ := ⟨60000 * n, n, n, n, n, 1, 60000 * n + 59999, none⟩

def minutes (ns : List ℤ) : Frame ℤ := ⟨false, ns.map minuteBar⟩

def smallConfig : StoreConfig ℤ where
  estimateBytes f := f.rows.length

def gold : Key := ("xauusd", "1m")

/-- A store over an empty directory. -/
abbrev blank : StoreState ℤ := fresh smallConfig (fun _ => none) fun _ => none

/-- A whole call of `put_bars`. -/
def putCall (now : ℚ) (key : Key) (bars : Frame ℤ) : List (StoreAction ℤ) :=
  [.putBars now key bars, .writerRedis true, .writerResume]

/-- The save of the first frame fails while nothing newer is pending. -/
def retried : List (StoreAction ℤ) :=
  [.startMaintenance] ++ putCall 0 gold (minutes [1]) ++
    [.wake 1, .saveRaised, .backoffElapsed] ++ putCall 2 gold (minutes [2]) ++
    [.wake 3, .saveWritten, .saveReturned]

theorem never_backwards_retried :
    ∃ s, Run (step smallConfig) NotOvertaken blank
        retried s ∧ NeverBackwards s.wb := by
  obtain ⟨s, hrun, -⟩ := Run.exists_of_checked (step smallConfig) NotOvertaken
    blank
    retried (fun s => s.wb.flushQ.isEmpty) (by decide +kernel)
  exact ⟨s, hrun, never_backwards hrun⟩

/-- A writer registers while the save of the same key is under way, and the save
fails: the frame registered first is pending again and the key is queued twice. -/
theorem goes_backwards :
    ¬ ∀ (cfg : StoreConfig ℤ) (disk redis : Key → Option (Frame ℤ))
        (as : List (StoreAction ℤ)) (s : StoreState ℤ),
      Run (step cfg) Uncancelled (fresh cfg disk redis) as s → NeverBackwards s.wb := by
  intro h
  obtain ⟨s, hrun, hp⟩ := Run.exists_of_checked (step smallConfig) Uncancelled
    blank
    ([.startMaintenance] ++ putCall 0 gold (minutes [1]) ++ [.wake 1] ++
      putCall 2 gold (minutes [2]) ++ [.saveRaised, .backoffElapsed])
    (fun s => decide (s.wb.log.map Registration.stamp = [2, 1]) &&
      s.wb.log.all (fun m => decide (m.key = gold)) &&
      decide ((s.wb.flushPending.get? gold).map Registered.stamp = some 1))
    (by decide +kernel)
  simp only [Bool.and_eq_true, decide_eq_true_eq, List.all_eq_true] at hp
  obtain ⟨⟨hlog, hkeys⟩, hpending⟩ := hp
  obtain ⟨m, hm, hstamp⟩ : ∃ m ∈ s.wb.log, m.stamp = 2 := by
    have : 2 ∈ s.wb.log.map Registration.stamp := by simp [hlog]
    simpa using this
  obtain ⟨r, hr, hrs⟩ := Option.map_eq_some_iff.mp hpending
  have hle := (h _ _ _ _ _ hrun).pending m hm r (by rw [hkeys m hm, hr])
  omega

end FixedInputs

end SmcPipeline.WriteOrder
