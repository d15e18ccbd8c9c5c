import SmcPipeline.WriteOrder

/-!
# Reads and accepted writes

`get_df` and `warmup` await Redis and the disk and only then store what they have
assembled, without the lock. A `put_bars` that runs in between updates RAM first
and is overwritten by a frame that was read before it. The law is stated for one
key; other keys may be read, written and evicted meanwhile.
-/

namespace SmcPipeline.ReadThrough

open StoreState Runs WriteOrder

variable {α : Type*} (cfg : StoreConfig α) (key : Key)

/-- The key a suspended read is about to store and the open times of the rows it
holds. -/
def gathered : Reader α → Option (Key × List ℤ)
  | .getPut k _ last disk => some (k, Frame.openTimes? disk ++ Frame.openTimes? last)
  | .warmPut symbol _ interval barsNeeded df =>
    some ((symbol, interval),
      Frame.openTimes? (df.map fun f => if barsNeeded = 0 then f else f.tail barsNeeded))
  | _ => none

/-- No TTL expiry and no eviction of the key, and no trimming once something has
been accepted for it. -/
def undisturbed (s : StoreState α) (a : StoreAction α) : Bool :=
  (match step cfg s a with
    | none => true
    | some t => decide (t.ram.removalsOf key = s.ram.removalsOf key)) &&
  match a with
  | .enforceTailLimit _ k _ => decide (k = key → s.accepted key = [])
  | _ => true

/-- A read of the key that resumes holds no rows or all the open times accepted so
far. -/
def upToDate (s : StoreState α) : StoreAction α → Bool
  | .finishRead _ id =>
    match gathered (s.readers id) with
    | none => true
    | some (k, xs) => decide (k = key → xs = [] ∨ ∀ x ∈ s.accepted key, x ∈ xs)
  | _ => true

def Undisturbed (s : StoreState α) (a : StoreAction α) : Prop := undisturbed cfg key s a = true

def ReadsUpToDate (s : StoreState α) (a : StoreAction α) : Prop :=
  Undisturbed cfg key s a ∧ upToDate key s a = true

instance (s : StoreState α) (a : StoreAction α) : Decidable (Undisturbed cfg key s a) :=
  inferInstanceAs (Decidable (_ = _))

instance (s : StoreState α) (a : StoreAction α) : Decidable (ReadsUpToDate cfg key s a) :=
  inferInstanceAs (Decidable (_ ∧ _))

/-- RAM holds every open time accepted for the key. -/
def Held (s : StoreState α) : Prop :=
  ∀ x ∈ s.accepted key, x ∈ Frame.openTimes? (s.ram.frameAt key)

variable {cfg key}

theorem Undisturbed.removals {s t : StoreState α} {a : StoreAction α}
    (h : Undisturbed cfg key s a) (hst : step cfg s a = some t) :
    t.ram.removalsOf key = s.ram.removalsOf key := by
  simp only [Undisturbed, undisturbed, hst, Bool.and_eq_true] at h
  exact of_decide_eq_true h.1

theorem Undisturbed.trimmed {s : StoreState α} {now : ℚ} {k : Key} {limit : ℕ}
    (h : Undisturbed cfg key s (.enforceTailLimit now k limit)) (hk : k = key) :
    s.accepted key = [] := by
  simp only [Undisturbed, undisturbed, Bool.and_eq_true] at h
  exact of_decide_eq_true h.2 hk

private theorem openTimes?_filter (f : Option (Frame α)) :
    Frame.openTimes? (f.filter fun f => !f.isEmpty) = Frame.openTimes? f := by
  cases f with
  | none => rfl
  | some f =>
      cases hf : f.isEmpty with
      | false => simp [Option.filter, hf]
      | true =>
          have hnil : f.openTimes = [] := (Frame.openTimes_eq_nil_iff f).mpr hf
          simp [Option.filter, hf, hnil]

theorem mem_openTimes_assemble (last disk : Option (Frame α)) (x : ℤ) :
    x ∈ (assemble last disk).openTimes ↔
      x ∈ Frame.openTimes? disk ++ Frame.openTimes? last := by
  rw [← openTimes?_filter disk, ← openTimes?_filter last]
  unfold assemble
  cases disk.filter fun f => !f.isEmpty <;> cases last.filter fun f => !f.isEmpty <;> simp

/-- A read stores what it has gathered, if that is anything. -/
theorem gathered_of_aboutToPut {r : Reader α} {k : Key} {f : Frame α}
    (h : aboutToPut r = some (k, f)) :
    ∃ xs, gathered r = some (k, xs) ∧ xs ≠ [] ∧ ∀ x ∈ xs, x ∈ f.openTimes := by
  unfold aboutToPut at h
  split at h
  · rename_i k' limit last disk
    split_ifs at h with he
    cases h
    refine ⟨_, rfl, fun hnil => he ?_, fun x hx => (mem_openTimes_assemble last disk x).mpr hx⟩
    rw [← Frame.openTimes_eq_nil_iff, List.eq_nil_iff_forall_not_mem]
    intro x hx
    have hx' := (mem_openTimes_assemble last disk x).mp hx
    rw [hnil] at hx'
    cases hx'
  · rename_i symbol symbols interval barsNeeded df
    obtain ⟨g, hg, hk⟩ := Option.map_eq_some_iff.mp h
    cases hk
    unfold warmed at hg
    obtain ⟨d, hd, rfl⟩ := Option.map_eq_some_iff.mp hg
    obtain ⟨rfl, hne⟩ := Option.filter_eq_some_iff.mp hd
    refine ⟨_, rfl, ?_, ?_⟩
    · simp only [Option.map_some, Frame.openTimes?_some]
      rw [ne_eq, Frame.openTimes_eq_nil_iff]
      split_ifs with hn
      · simpa using hne
      · simp only [Frame.isEmpty, Frame.tail, List.isEmpty_iff, List.drop_eq_nil_iff] at hne ⊢
        have hlen : 0 < d.rows.length := List.length_pos_iff.mpr (by simpa using hne)
        omega
    · intro x hx
      simpa using hx
  · cases h

theorem held_step {s t : StoreState α} {a : StoreAction α} (h : Held key s)
    (hok : ReadsUpToDate cfg key s a) (hst : step cfg s a = some t) : Held key t := by
  have hsame := hok.1.removals hst
  cases step_effect cfg hst with
  | idle _ ram _ _ hkept =>
      intro x hx
      have hframe := hkept.frames key hsame
      rw [hframe]
      exact h x hx
  | put now k bars _ _ =>
      intro x hx
      have hframe := RamLayer.frameAt_get_put cfg hsame
      change x ∈ Function.update s.accepted k _ key at hx
      refine (congrArg (x ∈ Frame.openTimes? ·) hframe).mpr ?_
      split_ifs with hk
      · subst hk
        have hget := RamLayer.get_eq_frameAt cfg (RamLayer.removalsOf_get_of_put cfg hsame)
        rw [Frame.openTimes?_some, Frame.mem_openTimes_mergeBars, hget]
        rw [Function.update_self, List.mem_append] at hx
        exact hx.imp_left (h x)
      · rw [Function.update_of_ne hk] at hx
        exact h x hx
  | trim now k limit current _ _ =>
      intro x hx
      by_cases hk : k = key
      · have hempty : s.accepted key = [] := hok.1.trimmed hk
        change x ∈ s.accepted key at hx
        rw [hempty] at hx
        cases hx
      · have hframe := RamLayer.frameAt_get_put cfg hsame
        rw [if_neg (Ne.symm hk)] at hframe
        exact (congrArg (x ∈ Frame.openTimes? ·) hframe).mpr (h x hx)
  | publish => exact h
  | register => exact h
  | bypass => exact h
  | saved => exact h
  | store now id k f readers hput =>
      intro x hx
      have hframe := RamLayer.frameAt_put cfg hsame
      refine (congrArg (x ∈ Frame.openTimes? ·) hframe).mpr ?_
      split_ifs with hk
      · obtain ⟨xs, hxs, hne, hmem⟩ := gathered_of_aboutToPut hput
        have hread := hok.2
        simp only [upToDate, hxs] at hread
        rcases of_decide_eq_true hread hk.symm with hnil | hall
        · exact (hne hnil).elim
        · exact hmem x (hall x hx)
      · exact h x hx
  | wake now _ =>
      intro x hx
      rw [(RamLayer.kept_sweep cfg now s.ram).frames key hsame]
      exact h x hx
  | flush => exact h

/-- A later `put_bars` that does not find the entry expired hands everything
accepted to the disk queue. -/
theorem later_put_covers {s t : StoreState α} (h : Held key s) {now : ℚ} {bars : Frame α}
    (hne : bars.isEmpty = false) (hok : Undisturbed cfg key s (.putBars now key bars))
    (hst : step cfg s (.putBars now key bars) = some t) :
    ∃ w, t.mtx = some w ∧ w.key = key ∧ ∀ x ∈ s.accepted key, x ∈ w.frame.openTimes := by
  have hsame := hok.removals hst
  simp only [step, putBars, hne, Bool.false_eq_true, if_false] at hst
  split at hst
  · cases hst
  · cases hst
    refine ⟨_, rfl, rfl, fun x hx => ?_⟩
    have hget := RamLayer.get_eq_frameAt cfg (RamLayer.removalsOf_get_of_put cfg hsame)
    change x ∈ (Frame.mergeBars (s.ram.get cfg now key).1 bars).openTimes
    rw [Frame.mem_openTimes_mergeBars, hget]
    exact Or.inl (h x hx)

/-- Accepted open times stay in RAM, and the next `put_bars` writes them on. -/
def KeepsAccepted (cfg : StoreConfig α) (key : Key) (s : StoreState α) : Prop :=
  Held key s ∧ ∀ now bars t, bars.isEmpty = false →
    Undisturbed cfg key s (.putBars now key bars) →
    step cfg s (.putBars now key bars) = some t →
    ∃ w, t.mtx = some w ∧ w.key = key ∧ ∀ x ∈ s.accepted key, x ∈ w.frame.openTimes

theorem reads_keep_accepted {disk redis : Key → Option (Frame α)} {as : List (StoreAction α)}
    {s : StoreState α} (h : Run (step cfg) (ReadsUpToDate cfg key) (fresh cfg disk redis) as s) :
    KeepsAccepted cfg key s := by
  have hheld : Held key s := h.invariant (fun _ _ _ => held_step) (fun x hx => by cases hx)
  exact ⟨hheld, fun _ _ _ hne hok hst => later_put_covers hheld hne hok hst⟩

section FixedInputs

/-- A miss, up to the frame being read from the disk. -/
def missedRead (now : ℚ) (id : ℕ) : List (StoreAction ℤ) :=
  [.getDf now id gold 0, .readRedis id true, .loadBars 0 id]

theorem reads_keep_accepted_after_miss :
    ∃ s, Run (step smallConfig) (ReadsUpToDate smallConfig gold)
        (fresh smallConfig (fun _ => some (minutes [1])) fun _ => none)
        (missedRead 0 0 ++ [.finishRead 0 0] ++ putCall 1 gold (minutes [2]) ++
          [.getDf 2 1 gold 0]) s ∧
      KeepsAccepted smallConfig gold s := by
  obtain ⟨s, hrun, -⟩ := Run.exists_of_checked (step smallConfig) (ReadsUpToDate smallConfig gold)
    (fresh smallConfig (fun _ => some (minutes [1])) fun _ => none)
    (missedRead 0 0 ++ [.finishRead 0 0] ++ putCall 1 gold (minutes [2]) ++
      [.getDf 2 1 gold 0])
    (fun s => decide (s.accepted gold = [120000])) (by decide +kernel)
  exact ⟨s, hrun, reads_keep_accepted hrun⟩

/-- The read began before the write and ends after it. -/
theorem read_undoes_write :
    ¬ ∀ (cfg : StoreConfig ℤ) (key : Key) (disk redis : Key → Option (Frame ℤ))
        (as : List (StoreAction ℤ)) (s : StoreState ℤ),
      Run (step cfg) (Undisturbed cfg key) (fresh cfg disk redis) as s →
        KeepsAccepted cfg key s := by
  intro h
  obtain ⟨s, hrun, hp⟩ := Run.exists_of_checked (step smallConfig) (Undisturbed smallConfig gold)
    (fresh smallConfig (fun _ => some (minutes [1])) fun _ => none)
    (missedRead 0 0 ++ putCall 1 gold (minutes [2]) ++ [.finishRead 2 0])
    (fun s => decide (s.accepted gold = [120000]) &&
      decide (Frame.openTimes? (s.ram.frameAt gold) = [60000])) (by decide +kernel)
  simp only [Bool.and_eq_true, decide_eq_true_eq] at hp
  have hmem := (h _ _ _ _ _ _ hrun).1 120000 (by simp [hp.1])
  rw [hp.2] at hmem
  simp at hmem

end FixedInputs

end SmcPipeline.ReadThrough
