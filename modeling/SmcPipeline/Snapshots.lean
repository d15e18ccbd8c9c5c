import SmcPipeline.EventHistory
import SmcPipeline.OteZones
import SmcPipeline.Runs
import SmcPipeline.StructureState

/-!
# Snapshots of a stream

`compute_structure_state` of `smc_structure/__init__.py` with its memory of events, run
on the snapshots the runtime takes of one symbol and timeframe: after each new bar, the
last `limit` bars of the stream. The prepared frames of two snapshots are two stretches
of one list of rows, the later one starting and ending no earlier; and an event in
memory was emitted by some snapshot of the stream.
-/

namespace SmcPipeline

structure SmcStructureState (K : Type*) extends StructureState K where
  eventHistory : List (StructureEvent K)
  oteZones : List (OteZone K)
  atrLast : Option K
  atrMedian : Option K
  snapshotStartTs : Option ℤ
  snapshotEndTs : Option ℤ

/-- A bar of the stream and the clock when it is processed. -/
structure Tick (K : Type*) where
  bar : RawBar K
  utcnow : ℤ

namespace Snapshots

open Candles Swings StructureEngine EventHistory KeyedRows Runs

section

/-- `bars.tail(limit)` -/
def lastBars {β : Type*} (limit : ℕ) (bars : List β) : List β := bars.drop (bars.length - limit)

variable {K : Type*}

/-- The rows of a bar list that have an open time stand in its order. -/
def Ordered (bars : List (RawBar K)) : Prop :=
  (bars.filterMap toCandle).Pairwise fun a b => a.time < b.time

variable [Field K] [LinearOrder K] (cfg : SmcCoreConfig K) (limit : ℕ)

/-- The structure of a stream's snapshot, without the memory. -/
def snapshotOf (bars : List (RawBar K)) : StructureState K :=
  StructureState.compute cfg (some (lastBars limit bars))

/-- An event emitted by the snapshot after some bar of the stream. -/
def Emitted (bars : List (RawBar K)) (e : StructureEvent K) : Prop :=
  ∃ past rest, bars = past ++ rest ∧ e ∈ (snapshotOf cfg limit past).events

theorem Emitted.append {bars more : List (RawBar K)} {e : StructureEvent K}
    (h : Emitted cfg limit bars e) : Emitted cfg limit (bars ++ more) e := by
  obtain ⟨past, rest, rfl, he⟩ := h
  exact ⟨past, rest ++ more, List.append_assoc past rest more, he⟩

end

section

variable {K : Type*} [Field K] [LinearOrder K] [FloorRing K]

def medianOf (xs : List K) : Option K :=
  let sorted := sortBy id xs
  let mid := sorted.length / 2
  if sorted.length % 2 = 1 then sorted[mid]?
  else match sorted[mid - 1]?, sorted[mid]? with
    | some a, some b => some ((a + b) / (2 : ℕ))
    | _, _ => none

/-- The last and the median of the values an ATR series has. -/
def extractAtrStats (atr : List (Option K)) : Option K × Option K :=
  let clean := atr.filterMap id
  (clean.getLast?, medianOf clean)

variable (lower : String → String) (cfg : SmcCoreConfig K) (symbol timeframe : String)

/-- `compute_structure_state` -/
def computeStructureState (store : Store K) (df : Option (List (RawBar K))) (utcnow : ℤ) :
    SmcStructureState K × Store K :=
  let rows := prepared cfg.maxLookbackBars df
  let state := StructureState.compute cfg df
  let stats := extractAtrStats state.atr
  let snapshotEndTs := rows.getLast?.map Candle.time
  let history := updateHistory lower store symbol timeframe state.events snapshotEndTs utcnow
    cfg.structureEventHistoryMaxMinutes cfg.structureEventHistoryMaxEntries
  ({ toStructureState := state
     eventHistory := history.1
     oteZones := OteZones.buildOteZones cfg state.legs state.trend state.atr (some state.bias)
       state.lastChochTs
     atrLast := stats.1
     atrMedian := stats.2
     snapshotStartTs := rows.head?.map Candle.time
     snapshotEndTs := snapshotEndTs }, history.2)

variable (K) in
/-- The bars seen so far and the process-wide memory. -/
structure Feed where
  seen : List (RawBar K)
  store : Store K

def Feed.fresh : Feed K := ⟨[], OrderedDict.empty⟩

variable (limit : ℕ)

/-- The snapshot a tick brings, with the structure state and the memory it leaves. -/
def report (s : Feed K) (tick : Tick K) : SmcStructureState K × Store K :=
  computeStructureState lower cfg symbol timeframe s.store
    (some (lastBars limit (s.seen ++ [tick.bar]))) tick.utcnow

def advance (s : Feed K) (tick : Tick K) : Option (Feed K) :=
  some ⟨s.seen ++ [tick.bar], (report lower cfg symbol timeframe limit s tick).2⟩

/-- The new bar opens after every bar seen. -/
def Opens (s : Feed K) (tick : Tick K) : Prop :=
  ∀ c ∈ (toCandle tick.bar).toList, ∀ r ∈ s.seen.filterMap toCandle, r.time < c.time

instance (s : Feed K) (tick : Tick K) : Decidable (Opens s tick) :=
  inferInstanceAs (Decidable (∀ _ ∈ _, _))

/-- What every run keeps: the stream is in order and the memory of the pair holds
emitted events only. -/
structure Recorded (s : Feed K) : Prop where
  ordered : Ordered s.seen
  emitted : ∀ e ∈ (bucketOf lower s.store symbol timeframe).events, Emitted cfg limit s.seen e

theorem recorded_fresh : Recorded lower cfg symbol timeframe limit (Feed.fresh : Feed K) where
  ordered := List.Pairwise.nil
  emitted := fun e he => by cases he

theorem ordered_concat {s : Feed K} {tick : Tick K} (hs : Ordered s.seen) (h : Opens s tick) :
    Ordered (s.seen ++ [tick.bar]) := by
  unfold Ordered at hs ⊢
  have hlast : [tick.bar].filterMap toCandle = (toCandle tick.bar).toList := by
    cases hc : toCandle tick.bar <;> simp [hc]
  rw [List.filterMap_append, hlast, List.pairwise_append]
  refine ⟨hs, ?_, fun r hr c hc => h c hc r hr⟩
  cases toCandle tick.bar <;> simp

theorem recorded_step {s t : Feed K} {tick : Tick K}
    (hs : Recorded lower cfg symbol timeframe limit s) (hopens : Opens s tick)
    (hstep : advance lower cfg symbol timeframe limit s tick = some t) :
    Recorded lower cfg symbol timeframe limit t := by
  cases hstep
  refine ⟨ordered_concat hs.ordered hopens, fun e he => ?_⟩
  unfold report computeStructureState at he
  rw [bucketOf_updateHistory] at he
  rcases Bucket.mem_events_update he with hnew | ⟨-, hold⟩
  · exact ⟨s.seen ++ [tick.bar], [], (List.append_nil _).symm, hnew⟩
  · exact (hs.emitted e hold).append

theorem recorded_run {t : Feed K} {ticks : List (Tick K)}
    (h : Run (advance lower cfg symbol timeframe limit) Opens Feed.fresh ticks t) :
    Recorded lower cfg symbol timeframe limit t :=
  h.invariant (fun _ _ _ hs hok hst => recorded_step lower cfg symbol timeframe limit hs hok hst)
    (recorded_fresh lower cfg symbol timeframe limit)

end

section

variable {K : Type*}

/-- Where the frame of a snapshot of `len` bars starts. -/
def startOf (maxBars : ℤ) (limit len : ℕ) : ℕ :=
  len - if 0 < maxBars then min limit maxBars.toNat else limit

theorem startOf_mono (maxBars : ℤ) (limit : ℕ) {len len' : ℕ} (h : len ≤ len') :
    startOf maxBars limit len ≤ startOf maxBars limit len' := by
  unfold startOf
  omega

theorem Ordered.sublist {bars bars' : List (RawBar K)} (h : Ordered bars')
    (hsub : bars.Sublist bars') : Ordered bars :=
  List.Pairwise.sublist (hsub.filterMap toCandle) h

/-- A snapshot's frame consists of the rows from its start on. -/
theorem prepared_lastBars (maxBars : ℤ) (limit : ℕ) {bars : List (RawBar K)}
    (h : Ordered bars) :
    prepared maxBars (some (lastBars limit bars)) =
      (bars.drop (startOf maxBars limit bars.length)).filterMap toCandle := by
  have hcut : (if 0 < maxBars ∧ maxBars < (lastBars limit bars).length then
      (lastBars limit bars).drop ((lastBars limit bars).length - maxBars.toNat)
      else lastBars limit bars) = bars.drop (startOf maxBars limit bars.length) := by
    unfold lastBars startOf
    rw [List.length_drop]
    split_ifs with h₁ h₂ h₂
    · rw [List.drop_drop]
      congr 1
      omega
    · exact absurd h₁.1 h₂
    · congr 1
      omega
    · rfl
  have hsorted : sortBy Candle.time
      ((bars.drop (startOf maxBars limit bars.length)).filterMap toCandle) =
        (bars.drop (startOf maxBars limit bars.length)).filterMap toCandle :=
    sortBy_eq_self Candle.time ((h.sublist (List.drop_sublist _ _)).imp le_of_lt)
  unfold prepared prepareFrame
  dsimp only
  rw [hcut]
  split_ifs with hempty
  · exact (List.isEmpty_iff.mp hempty).symm
  · exact hsorted

/-- The frame of a later snapshot continues that of an earlier one, less some rows in
front. -/
theorem windows_overlap (maxBars : ℤ) (limit : ℕ) {bars more : List (RawBar K)}
    (h : Ordered (bars ++ more)) :
    ∃ front rest, prepared maxBars (some (lastBars limit bars)) ++ rest =
        front ++ prepared maxBars (some (lastBars limit (bars ++ more))) ∧
      (front ++ prepared maxBars (some (lastBars limit (bars ++ more)))).Pairwise
        fun a b => a.time < b.time := by
  have hmono := startOf_mono maxBars limit (Nat.le_add_right bars.length more.length)
  have hle : startOf maxBars limit bars.length ≤ bars.length := Nat.sub_le _ _
  rw [← List.length_append] at hmono
  rw [prepared_lastBars maxBars limit h,
    prepared_lastBars maxBars limit (h.sublist (List.sublist_append_left _ _))]
  generalize startOf maxBars limit bars.length = a at hmono hle
  generalize startOf maxBars limit (bars ++ more).length = b at hmono
  have hsplit : (bars ++ more).drop a =
      ((bars ++ more).drop a).take (b - a) ++ (bars ++ more).drop b := by
    have hdrop : (bars ++ more).drop b = ((bars ++ more).drop a).drop (b - a) := by
      rw [List.drop_drop]
      congr 1
      omega
    rw [hdrop, List.take_append_drop]
  refine ⟨(((bars ++ more).drop a).take (b - a)).filterMap toCandle, more.filterMap toCandle, ?_, ?_⟩
  · rw [← List.filterMap_append, ← List.filterMap_append, ← hsplit,
      List.drop_append_of_le_length hle]
  · rw [← List.filterMap_append, ← hsplit]
    exact h.sublist (List.drop_sublist _ _)

end

end Snapshots

end SmcPipeline
