import SmcPipeline.Ingestion
import SmcPipeline.PacketStream
import SmcPipeline.Runs
import Mathlib.Algebra.Order.Field.Rat
import Mathlib.Tactic.Linarith

/-!
# The lag of the feed

`last_bar_close_ms` and `lag_seconds` of `FxcmFeedState`. Every packet that is written
overwrites the first with the closing time of its last row, whatever pair and whatever
time it is of; the second is recomputed from it at every such packet and at every
status update. Next to the store its state records, for the statements only, the rows
of the `put_bars` calls that returned.
-/

namespace SmcPipeline.FeedLag

open FxcmIngestor Ingestion PacketStream Runs

variable {F σ τ : Type*}

structure Feed (F σ : Type*) where
  status : FeedStatus
  ingestor : IngestorState F (σ × List (Bar F))
  lagSeconds : Option ℚ

/-- An event with the reading of the clock, in milliseconds, when it is handled; `moment`
is when a packet is written. -/
inductive Event (F τ : Type*)
  | status (nowMs : ℚ) (update : FeedStatus)
  | packet (nowMs : ℚ) (moment : τ) (payload : List (String × Json F))

def Feed.lastBarCloseMs (f : Feed F σ) : Option ℤ := f.ingestor.lastBarCloseMs

/-- The bars written so far. -/
def Feed.written (f : Feed F σ) : List (Bar F) := f.ingestor.store.2

def noting (put : Key → Frame F → σ → σ × Bool) (pair : Key) (df : Frame F)
    (s : σ × List (Bar F)) : (σ × List (Bar F)) × Bool :=
  let out := put pair df s.1
  ((out.1, if out.2 then s.2 ++ df.rows else s.2), out.2)

/-- Seconds since a closing time, at a clock reading in milliseconds. -/
def lagAt (nowMs : ℚ) (close : ℤ) : ℚ := max 0 ((nowMs - close) / 1000)

/-- `_refresh_lag_from_last_close` -/
def refreshLag (nowMs : ℚ) (last : Option ℤ) : Option ℚ := last.map (lagAt nowMs)

variable (u : Settings F) (put : τ → Key → Frame F → σ → σ × Bool)

/-- `_apply_status_snapshot`, or `_process_payload` with `note_fxcm_bar_close`. -/
def handle (f : Feed F σ) : Event F τ → Feed F σ
  | .status nowMs update =>
    { f with
      status := applyStatusSnapshot update f.status
      lagSeconds := refreshLag nowMs f.lastBarCloseMs }
  | .packet nowMs moment payload =>
    let out := process u (noting (put moment)) ⟨f.status, payload⟩ f.ingestor
    { f with
      ingestor := out.2
      lagSeconds := match out.1 with
        | .returned _ (some _) => refreshLag nowMs out.2.lastBarCloseMs
        | _ => f.lagSeconds }

def step (f : Feed F σ) (e : Event F τ) : Option (Feed F σ) := some (handle u put f e)

def start (store : σ) : Feed F σ where
  status := ⟨some "unknown", none, none⟩
  ingestor := ⟨(store, []), fun _ => ⟨none, false, none⟩, none⟩
  lagSeconds := none

def Event.nowMs : Event F τ → ℚ
  | .status nowMs _ => nowMs
  | .packet nowMs _ _ => nowMs

/-- The greatest closing time written. -/
def Peak (f : Feed F σ) : Prop := f.lastBarCloseMs = (f.written.map Bar.closeTime).max?

/-- An event leaves `last_bar_close_ms` at the greatest closing time written, does not move
it back, and does not increase a lag taken at the same clock reading. -/
structure NeverJumpsBack (nowMs : ℚ) (f g : Feed F σ) : Prop where
  peak : Peak g
  forward : ∀ close ∈ f.lastBarCloseMs, ∃ later ∈ g.lastBarCloseMs, close ≤ later
  lag : f.lagSeconds = refreshLag nowMs f.lastBarCloseMs →
    ∀ lag ∈ f.lagSeconds, ∃ shorter ∈ g.lagSeconds, shorter ≤ lag

def KeepsLag (f : Feed F σ) (e : Event F τ) : Prop :=
  NeverJumpsBack e.nowMs f (handle u put f e)

/-- If the packet is written, the row with its greatest open time closes no earlier than any
other of its rows and than any bar written before. -/
def ClosesLatest (f : Feed F σ) : Event F τ → Prop
  | .status _ _ => True
  | .packet _ moment payload =>
    match admitted u ⟨f.status, payload⟩ with
    | none => True
    | some (pair, bars) =>
      match barsPayloadToDf u.sorter ((acceptBars (f.ingestor.live pair) bars).2.map Prod.fst) with
      | none => True
      | some df =>
        (put moment pair df f.ingestor.store.1).2 = true →
          ∀ last ∈ df.rows.getLast?, ∀ r ∈ f.written ++ df.rows, r.closeTime ≤ last.closeTime

variable {u put}

theorem lagAt_antitone (nowMs : ℚ) {close later : ℤ} (h : close ≤ later) :
    lagAt nowMs later ≤ lagAt nowMs close := by
  have hcast : (close : ℚ) ≤ later := by exact_mod_cast h
  exact max_le_max le_rfl (by linarith)

theorem max_eq_of_forall {rows : List (Bar F)} {last : Bar F} (hlast : last ∈ rows) :
    some last.closeTime = (rows.map Bar.closeTime).max? ↔
      ∀ r ∈ rows, r.closeTime ≤ last.closeTime := by
  rw [eq_comm, List.max?_eq_some_iff, List.forall_mem_map]
  exact and_iff_right (List.mem_map_of_mem hlast)

/-- An event that leaves the closing times alone. -/
theorem neverJumpsBack_of_same {nowMs : ℚ} {f g : Feed F σ} (hpeak : Peak f)
    (hlast : g.lastBarCloseMs = f.lastBarCloseMs) (hwritten : g.written = f.written)
    (hlag : g.lagSeconds = f.lagSeconds ∨ g.lagSeconds = refreshLag nowMs f.lastBarCloseMs) :
    NeverJumpsBack nowMs f g where
  peak := by
    unfold Peak
    rw [hlast, hwritten]
    exact hpeak
  forward close hclose := ⟨close, by rw [hlast]; exact hclose, le_rfl⟩
  lag hsame lag h := by
    have hg : g.lagSeconds = f.lagSeconds := hlag.elim id fun h => h.trans hsame.symm
    exact ⟨lag, by rw [hg]; exact h, le_rfl⟩

/-- A write whose last row closes latest. -/
theorem neverJumpsBack_of_stored {nowMs : ℚ} {f g : Feed F σ} {rows : List (Bar F)} {last : Bar F}
    (hpeak : Peak f) (hrow : last ∈ rows) (hlast : g.lastBarCloseMs = some last.closeTime)
    (hwritten : g.written = f.written ++ rows)
    (hlag : g.lagSeconds = refreshLag nowMs g.lastBarCloseMs) :
    NeverJumpsBack nowMs f g ↔ ∀ r ∈ f.written ++ rows, r.closeTime ≤ last.closeTime := by
  have hmem : last ∈ f.written ++ rows := List.mem_append_right _ hrow
  constructor
  · intro h
    have hg := h.peak
    unfold Peak at hg
    rw [hlast, hwritten] at hg
    exact (max_eq_of_forall hmem).mp hg
  · intro hall
    have hforward : ∀ close ∈ f.lastBarCloseMs, close ≤ last.closeTime := by
      intro close hclose
      unfold Peak at hpeak
      rw [hpeak] at hclose
      obtain ⟨r, hr, rfl⟩ := List.mem_map.mp (List.max?_mem hclose)
      exact hall r (List.mem_append_left _ hr)
    refine ⟨?_, fun close hclose => ⟨_, hlast, hforward close hclose⟩, fun hsame lag h => ?_⟩
    · unfold Peak
      rw [hlast, hwritten]
      exact (max_eq_of_forall hmem).mpr hall
    · rw [hsame] at h
      obtain ⟨close, hclose, rfl⟩ := Option.map_eq_some_iff.mp h
      refine ⟨lagAt nowMs last.closeTime, ?_, lagAt_antitone nowMs (hforward close hclose)⟩
      rw [hlag, hlast]
      rfl

theorem keepsLag_iff {f : Feed F σ} {e : Event F τ} (hpeak : Peak f) :
    KeepsLag u put f e ↔ ClosesLatest u put f e := by
  cases e with
  | status nowMs update =>
      exact iff_of_true (neverJumpsBack_of_same hpeak rfl rfl (Or.inr rfl)) trivial
  | packet nowMs moment payload =>
      unfold KeepsLag ClosesLatest
      simp only [Event.nowMs, handle]
      cases hadm : admitted u ⟨f.status, payload⟩ with
      | none =>
          obtain ⟨hsame, hout⟩ :=
            @process_of_refused _ _ u (noting (put moment)) _ hadm f.ingestor
          refine iff_of_true (neverJumpsBack_of_same hpeak ?_ ?_ ?_) trivial
          · simp only [Feed.lastBarCloseMs, hsame]
          · simp only [Feed.written, hsame]
          · left
            rcases hout with h | h <;> simp only [h, rejected]
      | some admission =>
          obtain ⟨pair, bars⟩ := admission
          rw [process_of_admitted hadm]
          obtain ⟨-, hwritten⟩ := ingestBars_written u.sorter (noting (put moment)) pair bars f.ingestor
          dsimp only
          rcases hwritten with ⟨hnil, hstore, hlast, hout⟩ | ⟨-, hnone, hstore, hlast, hout⟩ |
            ⟨df, -, hdf, hput, hstore, hlast, hout⟩ | ⟨df, hne, hdf, hput, hstore, hlast, hout⟩
          · have hsorted : u.sorter.sort [] = [] := (u.sorter.perm []).eq_nil
            refine iff_of_true (neverJumpsBack_of_same hpeak hlast ?_ ?_) ?_
            · simp only [Feed.written, hstore]
            · exact Or.inl (by simp only [hout, rejected])
            · simp [hnil, barsPayloadToDf, hsorted]
          · refine iff_of_true (neverJumpsBack_of_same hpeak hlast ?_ ?_) ?_
            · simp only [Feed.written, hstore]
            · exact Or.inl (by simp only [hout])
            · simp only [hnone]
          · have hfails : (put moment pair df f.ingestor.store.1).2 = false := hput
            refine iff_of_true (neverJumpsBack_of_same hpeak hlast ?_ ?_) ?_
            · simp [Feed.written, hstore, noting, hfails]
            · exact Or.inl (by simp only [hout, rejected])
            · simp [hdf, hfails]
          · have hok : (put moment pair df f.ingestor.store.1).2 = true := hput
            obtain ⟨last, hrow⟩ : ∃ last, df.rows.getLast? = some last := by
              obtain ⟨r, hr⟩ := List.exists_mem_of_ne_nil _ hne
              exact Option.isSome_iff_exists.mp
                (List.getLast?_isSome.mpr (List.ne_nil_of_mem ((mem_barsPayloadToDf hdf r).mpr hr)))
            simp only [hdf, hok, hrow, Option.mem_some_iff, forall_const, forall_eq']
            refine neverJumpsBack_of_stored hpeak (List.mem_of_getLast? hrow) ?_ ?_ ?_
            · simp only [Feed.lastBarCloseMs, hlast, hrow, Option.map_some, Option.some_or]
            · simp [Feed.written, hstore, noting, hok]
            · simp only [hout, Feed.lastBarCloseMs]

/-- In a run no event makes the lag jump back exactly when each packet that is written ends
with the bar that closes last of all bars written. -/
theorem run_keepsLag_iff (u : Settings F) (put : τ → Key → Frame F → σ → σ × Bool) (store : σ)
    (events : List (Event F τ)) (f : Feed F σ) :
    Run (step u put) (KeepsLag u put) (start store) events f ↔
      Run (step u put) (ClosesLatest u put) (start store) events f := by
  have hstart : Peak (start store : Feed F σ) := rfl
  have hkeeps : ∀ (f : Feed F σ) (e : Event F τ) (g : Feed F σ), Peak f → KeepsLag u put f e →
      step u put f e = some g → Peak g := by
    intro f e g _ hkept hstep
    obtain rfl := Option.some.inj hstep
    exact hkept.peak
  constructor
  · exact fun h => h.weaken_of hkeeps (fun f e hf => (keepsLag_iff hf).mp) hstart
  · exact fun h => h.weaken_of (fun f e g hf hok => hkeeps f e g hf ((keepsLag_iff hf).mpr hok))
      (fun f e hf => (keepsLag_iff hf).mpr) hstart

section FixedInputs

open SignedPackets

def openSettings : Settings ℤ := ⟨plainRuntime, stableSort, ⟨none, "sha256", false⟩, none⟩

def keepNothing (_ : Unit) (_ : Key) (_ : Frame ℤ) (store : Unit) : Unit × Bool := (store, true)

/-- A bar of the running day, then an older one that was asked for. -/
def lateHistory : List (Event ℤ Unit) :=
  [.packet 180000 () (barPacket 120000 1), .packet 181000 () (barPacket 60000 1)]

/-- The older packet takes `last_bar_close_ms` back. -/
theorem lag_jumps_back :
    ¬ ∀ (u : Settings ℤ) (put : Unit → Key → Frame ℤ → Unit → Unit × Bool)
      (events : List (Event ℤ Unit)) (f : Feed ℤ Unit),
      Run (step u put) (fun _ _ => True) (start ()) events f →
        Run (step u put) (KeepsLag u put) (start ()) events f := by
  intro h
  have hrun : Run (step openSettings keepNothing) (fun _ _ => True) (start ()) lateHistory
      (handle openSettings keepNothing (handle openSettings keepNothing (start ())
        (.packet 180000 () (barPacket 120000 1))) (.packet 181000 () (barPacket 60000 1))) :=
    .cons trivial rfl (.cons trivial rfl (.nil _))
  cases h _ _ _ _ hrun with
  | cons _ hfirst hrest =>
      obtain rfl := Option.some.inj hfirst
      cases hrest with
      | cons hkept _ _ =>
          obtain ⟨later, hlater, hle⟩ := hkept.forward 179999 (by decide +kernel)
          have hback : (handle openSettings keepNothing (handle openSettings keepNothing (start ())
              (.packet 180000 () (barPacket 120000 1)))
              (.packet 181000 () (barPacket 60000 1))).lastBarCloseMs = some 119999 := by
            decide +kernel
          rw [hback] at hlater
          obtain rfl := Option.some.inj hlater
          omega

end FixedInputs

end SmcPipeline.FeedLag
