import SmcPipeline.WriteOrder

/-!
# History on disk

`put_bars` merges the new bars with what `RamLayer.get` still returns and then
replaces the whole snapshot by the result. What keeps the history of the file is
therefore the RAM layer: the frames on their way to the disk form a chain, from
the file over the save under way and the pending frame to the frame in a writer's
hands, in which each one covers the ones before it, as long as every `put_bars`
finds the newest of them in RAM.
-/

namespace SmcPipeline.DiskHistory

open StoreState Runs WriteOrder

variable {α : Type*} {cfg : StoreConfig α}

def onDisk (w : WriteBehind α) (key : Key) : List ℤ :=
  Frame.openTimes? ((w.disk key).map Registered.frame)

def inFlight (w : WriteBehind α) (key : Key) : List ℤ :=
  match w.maint with
  | .saving _ k df _ _ => if k = key then df.frame.openTimes else []
  | _ => []

def queued (w : WriteBehind α) (key : Key) : List ℤ :=
  Frame.openTimes? ((w.flushPending.get? key).map Registered.frame)

def known (w : WriteBehind α) (key : Key) : List ℤ :=
  onDisk w key ++ inFlight w key ++ queued w key

/-- Open times of the RAM entry of a key that has not outlived its TTL. -/
def unexpired (now : ℚ) (key : Key) (ram : RamLayer α) : List ℤ :=
  match ram.store.get? key with
  | none => []
  | some e => if e.expired now then [] else e.df.openTimes

/-- The runs in question: saves succeed, nothing is cancelled, nobody trims. -/
def incremental : StoreAction α → Bool
  | .enforceTailLimit _ _ _ => false
  | .saveRaised => false
  | .stopMaintenance => false
  | .threadWritten _ => false
  | _ => true

def historyInRam (s : StoreState α) : StoreAction α → Bool
  | .putBars now key bars =>
    bars.isEmpty ||
      decide (∀ x ∈ known s.wb key, x ∈ bars.openTimes ∨ x ∈ unexpired now key s.ram)
  | _ => true

def Incremental (_ : StoreState α) (a : StoreAction α) : Prop := incremental a = true

/-- A `put_bars` call with a frame that is not empty brings or finds in RAM, unexpired,
every open time that the snapshot, the save under way or the pending frame of its key
holds. -/
def HistoryInRam (s : StoreState α) (a : StoreAction α) : Prop :=
  Incremental s a ∧ historyInRam s a = true

instance (s : StoreState α) (a : StoreAction α) : Decidable (Incremental s a) :=
  inferInstanceAs (Decidable (_ = _))

instance (s : StoreState α) (a : StoreAction α) : Decidable (HistoryInRam s a) :=
  inferInstanceAs (Decidable (_ ∧ _))

theorem mem_unexpired (cfg : StoreConfig α) {now : ℚ} {key : Key} {ram : RamLayer α} {x : ℤ} :
    x ∈ unexpired now key ram ↔ x ∈ Frame.openTimes? (ram.get cfg now key).1 := by
  unfold unexpired RamLayer.get
  cases ram.store.get? key with
  | none => rfl
  | some e =>
      dsimp only
      split_ifs <;> rfl

/-- A registered frame covers everything owed by the registrations up to its own. -/
def Covers (log : List Registration) (key : Key) (r : Registered α) : Prop :=
  r.stamp ≤ log.length ∧
    ∀ m ∈ log, m.key = key → m.stamp ≤ r.stamp → ∀ x ∈ m.owed, x ∈ r.frame.openTimes

structure Chain (s : StoreState α) : Prop where
  flight : ∀ final key df written left, s.wb.maint = .saving final key df written left →
    ∀ x ∈ onDisk s.wb key, x ∈ df.frame.openTimes
  written : ∀ final key df left, s.wb.maint = .saving final key df true left →
    s.wb.disk key = some df
  pending : ∀ key r, s.wb.flushPending.get? key = some r →
    ∀ x, x ∈ onDisk s.wb key ∨ x ∈ inFlight s.wb key → x ∈ r.frame.openTimes
  writer : ∀ w, s.mtx = some w → ∀ x ∈ known s.wb w.key, x ∈ w.frame.openTimes
  accepted : ∀ key, ∀ x ∈ s.accepted key, x ∈ known s.wb key ∨
    ∃ w, s.mtx = some w ∧ w.key = key ∧ x ∈ w.frame.openTimes
  owed : ∀ m ∈ s.wb.log, ∀ x ∈ m.owed, x ∈ s.accepted m.key
  diskCovers : ∀ key r, s.wb.disk key = some r → Covers s.wb.log key r
  flightCovers : ∀ final key df written left,
    s.wb.maint = .saving final key df written left → Covers s.wb.log key df
  pendingCovers : ∀ key r, s.wb.flushPending.get? key = some r → Covers s.wb.log key r

theorem Covers.cons {log : List Registration} {key : Key} {r : Registered α}
    (h : Covers log key r) (key' : Key) (owed : List ℤ) :
    Covers (⟨key', log.length + 1, owed⟩ :: log) key r := by
  refine ⟨h.1.trans (by simp), fun m hm hk hle => ?_⟩
  rcases List.mem_cons.mp hm with rfl | hm
  · have := h.1
    dsimp only at hle
    omega
  · exact h.2 m hm hk hle

theorem mem_onDisk {w : WriteBehind α} {key : Key} {r : Registered α} {x : ℤ}
    (h : w.disk key = some r) : x ∈ onDisk w key ↔ x ∈ r.frame.openTimes := by
  simp [onDisk, h]

theorem mem_queued {w : WriteBehind α} {key : Key} {r : Registered α} {x : ℤ}
    (h : w.flushPending.get? key = some r) : x ∈ queued w key ↔ x ∈ r.frame.openTimes := by
  simp [queued, h]

theorem inFlight_of_idle {w : WriteBehind α} (key : Key)
    (h : ∀ final key df written left, w.maint ≠ .saving final key df written left) :
    inFlight w key = [] := by
  unfold inFlight
  split
  · rename_i hm
    exact (h _ _ _ _ _ hm).elim
  · rfl

theorem mem_inFlight {w : WriteBehind α} {final : Bool} {key key' : Key} {df : Registered α}
    {written : Bool} {left : ℕ} {x : ℤ} (h : w.maint = .saving final key df written left) :
    x ∈ inFlight w key' ↔ key = key' ∧ x ∈ df.frame.openTimes := by
  unfold inFlight
  rw [h]
  dsimp only
  split_ifs with hk <;> simp [hk]

theorem mem_known {w : WriteBehind α} {key : Key} {x : ℤ} :
    x ∈ known w key ↔ x ∈ onDisk w key ∨ x ∈ inFlight w key ∨ x ∈ queued w key := by
  simp [known]

/-- The drain loop moves frames along without losing an open time, once the frame
of the save it comes from is in the file. -/
theorem mem_known_advanced {w v : WriteBehind α} (h : WriteBehind.Advanced w v)
    (hwritten : ∀ final key df written left, w.maint = .saving final key df written left →
      w.disk key = some df) (key : Key) (x : ℤ) : x ∈ known v key ↔ x ∈ known w key := by
  have hflight : x ∈ inFlight w key → x ∈ onDisk w key := by
    intro hx
    unfold inFlight at hx
    split at hx
    · rename_i f k df written left hm
      split_ifs at hx with hk
      · subst hk
        exact (mem_onDisk (hwritten _ _ _ _ _ hm)).mpr hx
      · cases hx
    · cases hx
  simp only [mem_known]
  cases h with
  | left hdisk hpending hidle =>
      rw [inFlight_of_idle key hidle]
      simp only [onDisk, queued, hdisk, hpending, List.not_mem_nil, false_or]
      constructor
      · exact Or.imp_right Or.inr
      · rintro (hx | hx | hx)
        · exact Or.inl hx
        · exact Or.inl (hflight hx)
        · exact Or.inr hx
  | popped final k df rounds hdisk hget hpending hm =>
      rw [mem_inFlight hm]
      have hd : onDisk v key = onDisk w key := by simp only [onDisk, hdisk]
      by_cases hk : k = key
      · subst hk
        have hnone : queued v k = [] := by simp [queued, hpending, OrderedDict.get?_erase_self]
        rw [hd, hnone, mem_queued hget]
        constructor
        · rintro (hx | ⟨-, hx⟩ | hx)
          · exact Or.inl hx
          · exact Or.inr (Or.inr hx)
          · cases hx
        · rintro (hx | hx | hx)
          · exact Or.inl hx
          · exact Or.inl (hflight hx)
          · exact Or.inr (Or.inl ⟨rfl, hx⟩)
      · have hq : queued v key = queued w key := by
          simp only [queued, hpending, OrderedDict.get?_erase_of_ne _ (Ne.symm hk)]
        rw [hd, hq]
        constructor
        · rintro (hx | ⟨hkk, -⟩ | hx)
          · exact Or.inl hx
          · exact (hk hkk).elim
          · exact Or.inr (Or.inr hx)
        · rintro (hx | hx | hx)
          · exact Or.inl hx
          · exact Or.inl (hflight hx)
          · exact Or.inr (Or.inr hx)

theorem chain_advanced {s : StoreState α} {v : WriteBehind α} (h : Chain s)
    (hwritten : ∀ final key df written left, s.wb.maint = .saving final key df written left →
      s.wb.disk key = some df)
    (hadv : WriteBehind.Advanced s.wb v) (hlog : v.log = s.wb.log) (ram : RamLayer α) :
    Chain { s with ram := ram, wb := v } := by
  have hknown := mem_known_advanced hadv hwritten
  have hdisk : v.disk = s.wb.disk := by cases hadv <;> assumption
  have honDisk : ∀ key, onDisk v key = onDisk s.wb key := fun key => by
    simp only [onDisk, hdisk]
  have hold : ∀ key r, v.flushPending.get? key = some r → s.wb.flushPending.get? key = some r := by
    intro key r hr
    cases hadv with
    | left _ hpending _ => rwa [hpending] at hr
    | popped _ k df _ _ _ hpending _ =>
        rw [hpending, OrderedDict.get?_erase] at hr
        split_ifs at hr
        exact hr
  have hnew : ∀ final key df written left, v.maint = .saving final key df written left →
      s.wb.flushPending.get? key = some df ∧ v.flushPending.get? key = none := by
    intro final key df written left hm
    cases hadv with
    | left _ _ hidle => exact (hidle _ _ _ _ _ hm).elim
    | popped _ k _ _ _ hget hpending hm' =>
        rw [hm] at hm'
        cases hm'
        exact ⟨hget, by rw [hpending, OrderedDict.get?_erase_self]⟩
  have hfresh : ∀ final key df left, v.maint ≠ .saving final key df true left := by
    intro final key df left hm
    cases hadv with
    | left _ _ hidle => exact hidle _ _ _ _ _ hm
    | popped _ _ _ _ _ _ _ hm' =>
        rw [hm] at hm'
        cases hm'
  refine ⟨?_, fun final key df left hm => (hfresh _ _ _ _ hm).elim, ?_, ?_, ?_, ?_, ?_, ?_, ?_⟩
  · intro final key df written left hm x hx
    rw [honDisk] at hx
    exact h.pending key df (hnew _ _ _ _ _ hm).1 x (Or.inl hx)
  · intro key r hr x hx
    refine h.pending key r (hold key r hr) x (Or.inl ?_)
    rcases hx with hx | hx
    · rwa [honDisk] at hx
    · dsimp only at hx hr
      unfold inFlight at hx
      split at hx
      · rename_i hm
        split_ifs at hx with hk
        · subst hk
          rw [(hnew _ _ _ _ _ hm).2] at hr
          cases hr
        · cases hx
      · cases hx
  · exact fun w hw x hx => h.writer w hw x ((hknown _ _).mp hx)
  · exact fun key x hx => (h.accepted key x hx).imp_left (hknown key x).mpr
  · intro m hm
    exact h.owed m (hlog ▸ hm)
  · intro key r hr
    dsimp only at hr ⊢
    rw [hlog]
    exact h.diskCovers key r (hdisk ▸ hr)
  · intro final key df written left hm
    dsimp only
    rw [hlog]
    exact h.pendingCovers key df (hnew _ _ _ _ _ hm).1
  · intro key r hr
    dsimp only
    rw [hlog]
    exact h.pendingCovers key r (hold key r hr)

/-- The file is replaced by a frame that covers it. -/
theorem chain_saveWritten {s : StoreState α} {v : WriteBehind α} (h : Chain s)
    (hs : s.wb.saveWritten = some v) :
    Chain { s with wb := v } ∧ ∀ key, ∀ x ∈ onDisk s.wb key, x ∈ onDisk v key := by
  unfold WriteBehind.saveWritten at hs
  split at hs
  · rename_i final k df left hm
    cases hs
    have hsub : ∀ x ∈ onDisk s.wb k, x ∈ df.frame.openTimes := h.flight _ _ _ _ _ hm
    have hdisk : ∀ key x, x ∈ onDisk { s.wb with
        disk := Function.update s.wb.disk k (some df)
        maint := .saving final k df true left } key →
        x ∈ onDisk s.wb key ∨ x ∈ inFlight s.wb key := by
      intro key x hx
      by_cases hk : key = k
      · subst hk
        exact Or.inr ((mem_inFlight hm).mpr ⟨rfl, by simpa [onDisk] using hx⟩)
      · exact Or.inl (by simpa [onDisk, Function.update_of_ne hk] using hx)
    have hkeeps : ∀ key, ∀ x ∈ onDisk s.wb key, x ∈ onDisk { s.wb with
        disk := Function.update s.wb.disk k (some df)
        maint := .saving final k df true left } key := by
      intro key x hx
      by_cases hk : key = k
      · subst hk
        simpa [onDisk] using hsub x hx
      · simpa [onDisk, Function.update_of_ne hk] using hx
    have hflight : ∀ key x, x ∈ inFlight { s.wb with
        disk := Function.update s.wb.disk k (some df)
        maint := .saving final k df true left } key ↔ x ∈ inFlight s.wb key := by
      intro key x
      rw [mem_inFlight hm, mem_inFlight rfl]
    refine ⟨⟨?_, ?_, ?_, ?_, ?_, h.owed, ?_, ?_, h.pendingCovers⟩, hkeeps⟩
    · intro final' key df' written left' hm' x hx
      cases hm'
      rcases hdisk k x hx with hx | hx
      · exact hsub x hx
      · exact ((mem_inFlight hm).mp hx).2
    · intro final' key df' left' hm'
      cases hm'
      exact Function.update_self _ _ _
    · intro key r hr x hx
      apply h.pending key r hr x
      rcases hx with hx | hx
      · exact hdisk key x hx
      · exact Or.inr ((hflight key x).mp hx)
    · intro w hw x hx
      refine h.writer w hw x (mem_known.mpr ?_)
      rcases mem_known.mp hx with hx | hx | hx
      · exact (hdisk _ x hx).imp_right Or.inl
      · exact Or.inr (Or.inl ((hflight _ x).mp hx))
      · exact Or.inr (Or.inr hx)
    · intro key x hx
      refine (h.accepted key x hx).imp_left fun hx => mem_known.mpr ?_
      rcases mem_known.mp hx with hx | hx | hx
      · exact Or.inl (hkeeps key x hx)
      · exact Or.inr (Or.inl ((hflight key x).mpr hx))
      · exact Or.inr (Or.inr hx)
    · intro key r hr
      by_cases hk : key = k
      · subst hk
        obtain rfl : df = r := by simpa using hr
        exact h.flightCovers _ _ _ _ _ hm
      · exact h.diskCovers key r (by simpa [Function.update_of_ne hk] using hr)
    · intro final' key df' written left' hm'
      cases hm'
      exact h.flightCovers _ _ _ _ _ hm
  · cases hs

theorem chain_register {s : StoreState α} (h : Chain s) {kind : WriterKind} {key : Key}
    {frame : Frame α} (hm : s.mtx = some ⟨kind, key, frame, .resume⟩) :
    Chain { s.registerFlush kind key frame with mtx := none } := by
  have hcover : ∀ x ∈ known s.wb key, x ∈ frame.openTimes := h.writer _ hm
  have haccepted : ∀ x ∈ s.accepted key, x ∈ frame.openTimes := by
    intro x hx
    rcases h.accepted key x hx with hx | ⟨w, hw, -, hx⟩
    · exact hcover x hx
    · rw [hm] at hw
      cases hw
      exact hx
  have hget : ∀ key' r,
      (s.wb.register kind key frame (s.accepted key)).flushPending.get? key' = some r →
        (key' = key ∧ r = ⟨frame, s.wb.log.length + 1⟩) ∨
          (key' ≠ key ∧ s.wb.flushPending.get? key' = some r) := by
    intro key' r hr
    change (s.wb.flushPending.set key _).get? key' = some r at hr
    rw [OrderedDict.get?_set] at hr
    split_ifs at hr with hk
    · exact Or.inl ⟨hk, (Option.some.inj hr).symm⟩
    · exact Or.inr ⟨hk, hr⟩
  refine ⟨h.flight, h.written, ?_, (fun w hw => by cases hw), ?_, ?_, ?_, ?_, ?_⟩
  · intro key' r hr x hx
    rcases hget key' r hr with ⟨rfl, rfl⟩ | ⟨-, hr⟩
    · exact hcover x (mem_known.mpr (hx.imp_right Or.inl))
    · exact h.pending key' r hr x hx
  · intro key' x hx
    refine Or.inl (mem_known.mpr ?_)
    by_cases hk : key' = key
    · subst hk
      refine Or.inr (Or.inr ((mem_queued (OrderedDict.get?_set_self _ _ _)).mpr ?_))
      exact haccepted x hx
    · have hq : queued (s.wb.register kind key frame (s.accepted key)) key' =
          queued s.wb key' := by
        change Frame.openTimes? (((s.wb.flushPending.set key _).get? key').map _) = _
        rw [OrderedDict.get?_set, if_neg hk]
        rfl
      rcases h.accepted key' x hx with hx | ⟨w, hw, hwk, -⟩
      · exact (mem_known.mp hx).imp_right (Or.imp_right fun hx => hq ▸ hx)
      · rw [hm] at hw
        cases hw
        exact (hk hwk.symm).elim
  · intro m hmem
    rcases List.mem_cons.mp hmem with rfl | hmem
    · exact fun x hx => hx
    · exact h.owed m hmem
  · exact fun key' r hr => (h.diskCovers key' r hr).cons key _
  · exact fun final key' df written left hm' => (h.flightCovers _ _ _ _ _ hm').cons key _
  · intro key' r hr
    rcases hget key' r hr with ⟨rfl, rfl⟩ | ⟨-, hr⟩
    · refine ⟨le_rfl, fun m hmem hk _ x hx => ?_⟩
      rcases List.mem_cons.mp hmem with rfl | hmem
      · exact haccepted x hx
      · exact haccepted x (hk ▸ h.owed m hmem x hx)
    · exact (h.pendingCovers key' r hr).cons key _

theorem chain_put {s : StoreState α} (h : Chain s) {now : ℚ} {key : Key} {bars : Frame α}
    (hfree : s.mtx = none)
    (hram : ∀ x ∈ known s.wb key, x ∈ bars.openTimes ∨ x ∈ unexpired now key s.ram) :
    Chain { (s.mergeIntoRam cfg now key bars).2 with
      mtx := some (writerAt .putBars key (s.mergeIntoRam cfg now key bars).1) } := by
  have hmerged : ∀ x, x ∈ (s.mergeIntoRam cfg now key bars).1.openTimes ↔
      x ∈ unexpired now key s.ram ∨ x ∈ bars.openTimes := by
    intro x
    rw [mem_unexpired cfg]
    exact Frame.mem_openTimes_mergeBars _ _ x
  refine ⟨h.flight, h.written, h.pending, ?_, ?_, ?_, h.diskCovers, h.flightCovers,
    h.pendingCovers⟩
  · intro w hw x hx
    cases hw
    exact (hmerged x).mpr (hram x hx).symm
  · intro key' x hx
    have hold : x ∈ s.accepted key' → x ∈ known s.wb key' := by
      intro hx
      rcases h.accepted key' x hx with hx | ⟨w, hw, -, -⟩
      · exact hx
      · rw [hfree] at hw
        cases hw
    change x ∈ Function.update s.accepted key _ key' at hx
    by_cases hk : key' = key
    · subst hk
      rw [Function.update_self, List.mem_append] at hx
      rcases hx with hx | hx
      · exact Or.inl (hold hx)
      · exact Or.inr ⟨_, rfl, rfl, (hmerged x).mpr (Or.inr hx)⟩
    · rw [Function.update_of_ne hk] at hx
      exact Or.inl (hold hx)
  · intro m hm x hx
    have hx' := h.owed m hm x hx
    change x ∈ Function.update s.accepted key _ m.key
    by_cases hk : m.key = key
    · rw [hk, Function.update_self, List.mem_append]
      exact Or.inl (hk ▸ hx')
    · rwa [Function.update_of_ne hk]

theorem chain_fresh (disk redis : Key → Option (Frame α)) : Chain (fresh cfg disk redis) where
  flight _ _ _ _ _ hm := by cases hm
  written _ _ _ _ hm := by cases hm
  pending _ _ hr := by cases hr
  writer _ hw := by cases hw
  accepted _ _ hx := by cases hx
  owed _ hm := by cases hm
  diskCovers key r hr := by
    obtain ⟨f, -, rfl⟩ := Option.map_eq_some_iff.mp hr
    exact ⟨le_rfl, fun m hm => by cases hm⟩
  flightCovers _ _ _ _ _ hm := by cases hm
  pendingCovers _ _ hr := by cases hr

/-- One step keeps the chain and takes no open time off the disk. -/
theorem chain_step (hcfg : cfg.writeBehind = true) {s t : StoreState α} {a : StoreAction α}
    (hinv : Invariant cfg s) (h : Chain s) (hok : HistoryInRam s a)
    (hst : step cfg s a = some t) :
    Chain t ∧ ∀ key, ∀ x ∈ onDisk s.wb key, x ∈ onDisk t.wb key := by
  obtain ⟨hinc, hram⟩ := hok
  have hkeep : t.wb.disk = s.wb.disk → ∀ key, ∀ x ∈ onDisk s.wb key, x ∈ onDisk t.wb key := by
    intro hd key x hx
    simpa only [onDisk, hd] using hx
  have hadvance : ∀ {v : WriteBehind α}, WriteBehind.Advanced s.wb v → v.disk = s.wb.disk := by
    intro v hadv
    cases hadv <;> assumption
  cases step_effect cfg hst with
  | idle =>
      exact ⟨⟨h.flight, h.written, h.pending, h.writer, h.accepted, h.owed, h.diskCovers,
        h.flightCovers, h.pendingCovers⟩, hkeep rfl⟩
  | put now key bars hfree hne =>
      have hcovered : (bars.isEmpty || decide (∀ x ∈ known s.wb key,
          x ∈ bars.openTimes ∨ x ∈ unexpired now key s.ram)) = true := hram
      rw [hne, Bool.false_or] at hcovered
      exact ⟨chain_put h hfree (of_decide_eq_true hcovered), hkeep rfl⟩
  | trim => cases hinc
  | publish ok kind key frame redis hm =>
      refine ⟨⟨h.flight, h.written, h.pending, ?_, ?_, h.owed, h.diskCovers, h.flightCovers,
        h.pendingCovers⟩, hkeep rfl⟩
      · intro w hw
        cases hw
        have hwriter := h.writer _ hm
        exact hwriter
      · intro key' x hx
        rcases h.accepted key' x hx with hx | ⟨w, hw, hk, hx⟩
        · exact Or.inl hx
        · rw [hm] at hw
          cases hw
          exact Or.inr ⟨_, rfl, hk, hx⟩
  | register kind key frame hm => exact ⟨chain_register h hm, hkeep rfl⟩
  | bypass kind key frame _ hoff => simp [hcfg] at hoff
  | saved ok kind key frame hm =>
      have hoff := hinv.stage _ hm rfl
      simp [hcfg] at hoff
  | store =>
      exact ⟨⟨h.flight, h.written, h.pending, h.writer, h.accepted, h.owed, h.diskCovers,
        h.flightCovers, h.pendingCovers⟩, hkeep rfl⟩
  | wake now hm =>
      have hadv := WriteBehind.advanced_drainFlushQueue cfg.profile false s.wb
      exact ⟨chain_advanced h (by simp [hm]) hadv (by simp) _, hkeep (hadvance hadv)⟩
  | flush hop =>
      cases hop with
      | start hw =>
          unfold WriteBehind.startMaintenance at hw
          split at hw <;> cases hw
          rename_i hm
          have hadv : WriteBehind.Advanced s.wb { s.wb with maint := .sleeping } :=
            .left rfl rfl (by simp)
          exact ⟨chain_advanced h (by simp [hm]) hadv rfl _, hkeep rfl⟩
      | written hw => exact chain_saveWritten h hw
      | returned hw =>
          unfold WriteBehind.saveReturned at hw
          split at hw <;> cases hw
          rename_i final key df left hm
          have hadv := WriteBehind.advanced_advance final left s.wb
          refine ⟨chain_advanced h ?_ hadv (by simp) _, hkeep (hadvance hadv)⟩
          intro final' key' df' written left' hm'
          rw [hm] at hm'
          cases hm'
          exact h.written _ _ _ _ hm
      | raised => cases hinc
      | elapsed hw =>
          unfold WriteBehind.backoffElapsed at hw
          split at hw <;> cases hw
          rename_i final hm
          exact ⟨chain_advanced h (by simp [hm]) (WriteBehind.advanced_leaveDrain final s.wb)
            (by simp) _, hkeep rfl⟩
      | stop => cases hinc
      | thread => cases hinc

theorem careful_of_incremental {s : StoreState α} {a : StoreAction α} (h : Incremental s a) :
    careful s a = true := by
  cases a <;> first | rfl | cases h

private theorem state_step (hcfg : cfg.writeBehind = true) {s t : StoreState α}
    {a : StoreAction α} (h : Invariant cfg s ∧ Chain s) (hok : HistoryInRam s a)
    (hst : step cfg s a = some t) : Invariant cfg t ∧ Chain t :=
  ⟨invariant_step h.1 (careful_of_incremental hok.1) hst, (chain_step hcfg h.1 h.2 hok hst).1⟩

/-- Later snapshots: what the file held in `s` it holds in `t`, and a file drained
after a registration holds everything accepted for its key by then. -/
structure Retained (s t : StoreState α) : Prop where
  snapshot : ∀ key, ∀ x ∈ onDisk s.wb key, x ∈ onDisk t.wb key
  drained : ∀ m ∈ t.wb.log, ∀ r, t.wb.disk m.key = some r → m.stamp ≤ r.stamp →
    ∀ x ∈ m.owed, x ∈ onDisk t.wb m.key

theorem disk_keeps_history (hcfg : cfg.writeBehind = true)
    {disk redis : Key → Option (Frame α)} {as bs : List (StoreAction α)} {s t : StoreState α}
    (h₁ : Run (step cfg) HistoryInRam (fresh cfg disk redis) as s)
    (h₂ : Run (step cfg) HistoryInRam s bs t) : Retained s t := by
  have hs := h₁.invariant (fun _ _ _ => state_step hcfg)
    ⟨invariant_fresh disk redis, chain_fresh disk redis⟩
  have ht := h₂.invariant (fun _ _ _ => state_step hcfg) hs
  refine ⟨?_, fun m hm r hr hle x hx => ?_⟩
  · exact h₂.related (R := fun s t : StoreState α => ∀ key, ∀ x ∈ onDisk s.wb key, x ∈ onDisk t.wb key)
      (fun _ _ _ hx => hx) (fun _ _ _ hst htu key x hx => htu key x (hst key x hx))
      (fun _ _ _ => state_step hcfg)
      (fun _ _ _ hI hok hst => (chain_step hcfg hI.1 hI.2 hok hst).2) hs
  · exact (mem_onDisk hr).mpr ((ht.2.diskCovers m.key r hr).2 m hm rfl hle x hx)

section FixedInputs

/-- Two puts and a drain, each put followed by the save of its frame. -/
def putAndDrain (now : ℚ) (ns : List ℤ) : List (StoreAction ℤ) :=
  putCall now gold (minutes ns) ++ [.wake now, .saveWritten, .saveReturned]

theorem disk_keeps_two_puts :
    ∃ s t, Run (step smallConfig) HistoryInRam blank
        (.startMaintenance :: putAndDrain 0 [1]) s ∧
      Run (step smallConfig) HistoryInRam s (putAndDrain 2 [2]) t ∧ Retained s t := by
  obtain ⟨t, hrun, -⟩ := Run.exists_of_checked (step smallConfig) HistoryInRam
    blank
    ((.startMaintenance :: putAndDrain 0 [1]) ++ putAndDrain 2 [2])
    (fun s => decide (onDisk s.wb gold = [60000, 120000])) (by decide +kernel)
  obtain ⟨s, h₁, h₂⟩ := hrun.split
  exact ⟨s, t, h₁, h₂, disk_keeps_history rfl h₁ h₂⟩

/-- After a restart RAM is empty: the first increment replaces the whole file. -/
theorem disk_forgets_history :
    ¬ ∀ (cfg : StoreConfig ℤ) (disk redis : Key → Option (Frame ℤ))
        (as bs : List (StoreAction ℤ)) (s t : StoreState ℤ), cfg.writeBehind = true →
      Run (step cfg) Incremental (fresh cfg disk redis) as s →
      Run (step cfg) Incremental s bs t → Retained s t := by
  intro h
  obtain ⟨t, hrun, hp⟩ := Run.exists_of_checked (step smallConfig) Incremental
    (fresh smallConfig (fun _ => some (minutes [1])) fun _ => none)
    (.startMaintenance :: putAndDrain 0 [2])
    (fun s => decide (onDisk s.wb gold = [120000])) (by decide +kernel)
  have hdisk : onDisk t.wb gold = [120000] := of_decide_eq_true hp
  have hkeep := (h _ _ _ _ _ _ t rfl (.nil _) hrun).snapshot gold 60000
    (show (60000 : ℤ) ∈ [60000] by decide)
  rw [hdisk] at hkeep
  simp at hkeep

end FixedInputs

end SmcPipeline.DiskHistory
