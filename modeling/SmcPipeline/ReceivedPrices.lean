import SmcPipeline.PriceBounds
import SmcPipeline.StrictMessages

/-!
# From the packets to the hints

The pipeline with the memory of structure events, which outlives the rounds. Whatever bounds hold
of all prices that were received of a pair hold of the hints of that pair, in every run: through the
caches of live bars, the store, the frames of the rounds and the memory.
-/

namespace SmcPipeline

/-- The pipeline and the memory of its engine. -/
structure RememberingPipeline (K : Type*) [Field K] [LinearOrder K] [FloorRing K] where
  pipeline : Pipeline K
  memory : EventHistory.Store K

namespace ReceivedPrices

open Candles FxcmIngestor Pipeline StrictMessages PriceBounds EventHistory SmcEngine Intervals Runs
open SmcProducer hiding step run

variable {K : Type*}

section

variable {P : Key → Bar (PyFloat K) → Prop}

/-- Whatever holds of the bars of each pair, in the caches and in the store. -/
structure EveryBar (P : Key → Bar (PyFloat K) → Prop)
    (st : IngestorState (PyFloat K) (Key → List (Bar (PyFloat K)))) : Prop where
  live : ∀ key bar, (st.live key).live = some bar → P key bar
  stored : ∀ key, ∀ bar ∈ st.store key, P key bar

theorem everyBar_putRows {st : IngestorState (PyFloat K) (Key → List (Bar (PyFloat K)))}
    (hst : EveryBar P st) {pair : Key} {df : Frame (PyFloat K)} (hdf : ∀ bar ∈ df.rows, P pair bar)
    (stored : Bool) : ∀ key, ∀ bar ∈ (putRows stored pair df st.store).1 key, P key bar := by
  intro key bar hbar
  unfold putRows at hbar
  dsimp only at hbar
  rw [Function.update_apply] at hbar
  split_ifs at hbar with hkey
  · subst hkey
    rcases List.mem_append.mp hbar with hbar | hbar
    · exact hst.stored key bar hbar
    · exact hdf bar hbar
  · exact hst.stored key bar hbar

theorem everyBar_ingestBars {sorter : OpenTimeSort (PyFloat K)} {stored : Bool} {pair : Key}
    {bars : List (IncomingBar (PyFloat K))}
    {st : IngestorState (PyFloat K) (Key → List (Bar (PyFloat K)))} (hst : EveryBar P st)
    (hbars : ∀ b ∈ bars, P pair b.row) :
    EveryBar P (ingestBars sorter (putRows stored) pair bars st).2 := by
  obtain ⟨hrows, hcache⟩ := LiveBars.forall_acceptBars (hst.live pair) hbars
  have hlive : ∀ key bar, (Function.update st.live pair
      (acceptBars (st.live pair) bars).1 key).live = some bar → P key bar := by
    intro key bar hbar
    rw [Function.update_apply] at hbar
    split_ifs at hbar with hkey
    · exact hkey ▸ hcache bar hbar
    · exact hst.live key bar hbar
  unfold ingestBars
  dsimp only
  split_ifs
  · exact ⟨hlive, hst.stored⟩
  · cases hdf : barsPayloadToDf sorter ((acceptBars (st.live pair) bars).2.map Prod.fst) with
    | none => exact ⟨hlive, hst.stored⟩
    | some df =>
        have hdfRows : ∀ bar ∈ df.rows, P pair bar := by
          unfold barsPayloadToDf at hdf
          split_ifs at hdf
          cases hdf
          exact fun bar hbar => hrows bar ((sorter.perm _).mem_iff.mp hbar)
        have hstored := everyBar_putRows hst hdfRows stored
        cases stored with
        | false => exact ⟨hlive, hstored⟩
        | true => exact ⟨hlive, hstored⟩

variable (u : PipelineSetup K)

/-- The pair of a packet. -/
def packetPair (packet : Packet (PyFloat K)) : Option Key :=
  (shape u.env packet.payload).map fun parts => pairOf u.env parts.1 parts.2.1

/-- A packet changes nothing, or its accepted bars are ingested under its pair. -/
theorem processPayload_pair (put : Key → Frame (PyFloat K) → (Key → List (Bar (PyFloat K))) →
      (Key → List (Bar (PyFloat K))) × Bool) (packet : Packet (PyFloat K))
    (st : IngestorState (PyFloat K) (Key → List (Bar (PyFloat K)))) :
    (processPayload u.env u.sorter put u.hmac u.allowedPairs packet st).2 = st ∨
      ∃ pair, packetPair u packet = some pair ∧
        (processPayload u.env u.sorter put u.hmac u.allowedPairs packet st).2 =
          (ingestBars u.sorter put pair (acceptedBars u packet) st).2 := by
  unfold acceptedBars packetPair
  cases hshape : shape u.env packet.payload with
  | none => exact Or.inl (processPayload_of_no_shape u.env _ _ _ _ _ hshape st).1
  | some parts =>
      obtain ⟨symbol, interval, bars⟩ := parts
      unfold processPayload
      rw [hshape]
      dsimp only
      cases packetGate u.env u.hmac packet.payload symbol interval bars with
      | reject => exact Or.inl rfl
      | raise => exact Or.inl rfl
      | pass =>
          by_cases hpair : (u.allowedPairs.map fun pairs =>
              pairs.contains (pairOf u.env symbol interval)) = some false
          · rw [if_pos hpair]
            exact Or.inl rfl
          · rw [if_neg hpair]
            cases hstatus : (isIngestAllowedByStatus u.env packet.status).1 with
            | false => exact Or.inl rfl
            | true =>
                refine Or.inr ⟨pairOf u.env symbol interval, rfl, ?_⟩
                rw [if_neg (by decide), if_pos ⟨rfl, hpair, rfl⟩]

end

section

variable [LinearOrder K]

/-- A number between the bounds, or NaN. -/
def CellWithin (lo hi : K) (cell : PyFloat K) : Prop :=
  ∃ x, cellOf cell = some x ∧ Within lo hi x

structure BarWithin (lo hi : K) (bar : Bar (PyFloat K)) : Prop where
  opn : CellWithin lo hi bar.opn
  high : CellWithin lo hi bar.high
  low : CellWithin lo hi bar.low
  close : CellWithin lo hi bar.close

theorem within_rawBar {lo hi : K} {bar : Bar (PyFloat K)} (h : BarWithin lo hi bar) :
    ∃ row, rawBar bar = some row ∧ RowWithin lo hi row := by
  obtain ⟨⟨opn, hopn, hopn'⟩, ⟨high, hhigh, hhigh'⟩, ⟨low, hlow, hlow'⟩,
    ⟨close, hclose, hclose'⟩⟩ := h
  refine ⟨⟨some bar.openTime, opn, high, low, close⟩, ?_, ⟨hopn', hhigh', hlow', hclose'⟩⟩
  unfold rawBar
  rw [hopn, hhigh, hlow, hclose]
  rfl

theorem within_mapM_rawBar {lo hi : K} {rows : List (Bar (PyFloat K))}
    (h : ∀ bar ∈ rows, BarWithin lo hi bar) :
    ∃ raws, rows.mapM rawBar = some raws ∧ ∀ row ∈ raws, RowWithin lo hi row := by
  induction rows with
  | nil => exact ⟨[], rfl, by simp⟩
  | cons bar rows ih =>
      obtain ⟨hbar, hrows⟩ := List.forall_mem_cons.mp h
      obtain ⟨row, hrow, hwithin⟩ := within_rawBar hbar
      obtain ⟨raws, hraws, hall⟩ := ih hrows
      refine ⟨row :: raws, ?_, List.forall_mem_cons.mpr ⟨hwithin, hall⟩⟩
      rw [List.mapM_cons, hrow, hraws]
      rfl

theorem within_snapshotOf {lo hi : K} {raws : List (RawBar K)} (symbol tf : String)
    (h : ∀ row ∈ raws, RowWithin lo hi row) : SnapshotWithin lo hi (snapshotOf symbol tf raws) := by
  constructor
  · intro row hrow
    exact h row (List.mem_of_mem_filter ((KeyedRows.mem_sortBy InputAdapter.timeKey).mp hrow))
  · exact fun level hlevel => by cases hlevel
  · exact fun level hlevel => by cases hlevel

end

section

variable [Field K] [LinearOrder K] [FloorRing K] (u : PipelineSetup K)

/-- The round comes as far as the engine. -/
def reachesEngine (input : RoundInput K) : Bool :=
  match frameRead input.frame with
  | .frame last => enoughRows u.producer last
  | _ => false

/-- The memory after a round. -/
def rememberRound (memory : Store K) (input : RoundInput K) : Store K :=
  match input.snapshot.bind fun rows => rows.mapM rawBar with
  | some raws =>
    if reachesEngine u input then
      remember u.lower u.core memory (snapshotOf input.symbol u.tfPrimary raws, input.utcnow)
    else memory
  | none => memory

/-- The engine of a round gets the memory that the rounds before it left. -/
def withMemory (memory : Store K) : PipelineEvent K → PipelineEvent K
  | .round input => .round { input with history := memory }
  | e => e

def memoryAfter (memory : Store K) : PipelineEvent K → Store K
  | .round input => rememberRound u memory input
  | _ => memory

def step (s : RememberingPipeline K) (e : PipelineEvent K) : Option (RememberingPipeline K) :=
  (Pipeline.step u s.pipeline (withMemory s.memory e)).map fun t => ⟨t, memoryAfter u s.memory e⟩

def start (now : K) : RememberingPipeline K := ⟨Pipeline.start now, OrderedDict.empty⟩

variable (lo hi : String × String → K)

/-- A bar lies between the bounds of its pair; the memory takes pairs in lower case. -/
def PairWithin (key : Key) : Bar (PyFloat K) → Prop :=
  BarWithin (lo (storeKey u.lower key.1 key.2)) (hi (storeKey u.lower key.1 key.2))

/-- So do all bars that a packet brings. -/
def ReceivesWithin : PipelineEvent K → Prop
  | .packet packet _ => ∀ pair ∈ packetPair u packet, ∀ bar ∈ acceptedBars u packet,
      PairWithin u lo hi pair bar.row
  | _ => True

structure PricesWithin (s : RememberingPipeline K) : Prop where
  bars : EveryBar (PairWithin u lo hi) s.pipeline.ingestor
  memory : StoreWithin lo hi s.memory

variable {u lo hi}

/-- Only a packet changes what the ingestor has. -/
theorem ingestor_of_step {s t : Pipeline K} {e : PipelineEvent K}
    (h : Pipeline.step u s e = some t) (he : ∀ packet stored, e ≠ .packet packet stored) :
    t.ingestor = s.ingestor := by
  cases e with
  | packet packet stored => exact absurd rfl (he packet stored)
  | tick payload =>
      cases h
      rfl
  | clock now =>
      cases h
      rfl
  | publish items fxcm taken =>
      unfold Pipeline.step at h
      dsimp only at h
      split_ifs at h
      split at h <;> (cases h; rfl)
  | broadcast index =>
      obtain ⟨payload, -, rfl⟩ := Option.map_eq_some_iff.mp h
      rfl
  | round _ | initAsset _ | removeAsset _ | localStats _ _ _ =>
      unfold Pipeline.step at h
      dsimp only at h
      split_ifs at h
      cases h
      rfl

/-- The rows of an engine's snapshot lie between the bounds of its pair. -/
theorem within_snapshot {s : RememberingPipeline K} (hs : PricesWithin u lo hi s)
    {input : RoundInput K} (hreads : readsStore u s.pipeline input = true)
    {rows : List (Bar (PyFloat K))} (hrows : input.snapshot = some rows) :
    ∃ raws, rows.mapM rawBar = some raws ∧
      SnapshotWithin (lo (keyOf u.lower (snapshotOf input.symbol u.tfPrimary raws)))
        (hi (keyOf u.lower (snapshotOf input.symbol u.tfPrimary raws)))
        (snapshotOf input.symbol u.tfPrimary raws) := by
  simp only [readsStore, Bool.and_eq_true, List.all_eq_true, decide_eq_true_eq] at hreads
  have hbars : ∀ bar ∈ rows, PairWithin u lo hi (input.symbol, u.tfPrimary) bar := by
    intro bar hbar
    refine hs.bars.stored _ bar (hreads.2 bar ?_)
    rw [hrows]
    exact hbar
  obtain ⟨raws, hraws, hall⟩ := within_mapM_rawBar hbars
  exact ⟨raws, hraws, within_snapshotOf input.symbol u.tfPrimary hall⟩

theorem within_rememberRound {s : RememberingPipeline K} (hs : PricesWithin u lo hi s)
    {input : RoundInput K} (hreads : readsStore u s.pipeline input = true) :
    StoreWithin lo hi (rememberRound u s.memory input) := by
  unfold rememberRound
  cases hrows : input.snapshot with
  | none => exact hs.memory
  | some rows =>
      obtain ⟨raws, hraws, hsnapshot⟩ := within_snapshot hs hreads hrows
      rw [Option.bind_some, hraws]
      dsimp only
      split_ifs
      · exact within_remember hs.memory hsnapshot
      · exact hs.memory

theorem within_pipeline {s : RememberingPipeline K} {t : Pipeline K} {e : PipelineEvent K}
    (hs : PricesWithin u lo hi s) (hok : ReceivesWithin u lo hi e)
    (h : Pipeline.step u s.pipeline (withMemory s.memory e) = some t) :
    EveryBar (PairWithin u lo hi) t.ingestor := by
  by_cases hpacket : ∃ packet stored, e = .packet packet stored
  · obtain ⟨packet, stored, rfl⟩ := hpacket
    cases h
    rcases processPayload_pair u (putRows stored) packet s.pipeline.ingestor with
      heq | ⟨pair, hpair, heq⟩
    · rw [heq]
      exact hs.bars
    · rw [heq]
      exact everyBar_ingestBars hs.bars (hok pair hpair)
  · have hother : ∀ packet stored, withMemory s.memory e ≠ .packet packet stored := by
      intro packet stored heq
      cases e with
      | round input => cases heq
      | packet packet stored => exact hpacket ⟨packet, stored, rfl⟩
      | tick _ | clock _ | initAsset _ | removeAsset _ | localStats _ _ _ | publish _ _ _
      | broadcast _ => cases heq
    rw [ingestor_of_step h hother]
    exact hs.bars

theorem within_memoryAfter {s : RememberingPipeline K} {t : Pipeline K} {e : PipelineEvent K}
    (hs : PricesWithin u lo hi s)
    (h : Pipeline.step u s.pipeline (withMemory s.memory e) = some t) :
    StoreWithin lo hi (memoryAfter u s.memory e) := by
  cases e with
  | round input =>
      have hreads : readsStore u s.pipeline input = true := by
        unfold withMemory Pipeline.step at h
        dsimp only at h
        split_ifs at h with henabled
        exact (Bool.and_eq_true_iff.mp henabled).2
      exact within_rememberRound hs hreads
  | packet _ _ | tick _ | clock _ | initAsset _ | removeAsset _ | localStats _ _ _
  | publish _ _ _ | broadcast _ => exact hs.memory

theorem within_step {s t : RememberingPipeline K} {e : PipelineEvent K}
    (hs : PricesWithin u lo hi s) (hok : ReceivesWithin u lo hi e) (h : step u s e = some t) :
    PricesWithin u lo hi t := by
  obtain ⟨p, hp, rfl⟩ := Option.map_eq_some_iff.mp h
  exact ⟨within_pipeline hs hok hp, within_memoryAfter hs hp⟩

theorem within_start (now : K) : PricesWithin u lo hi (start now) where
  bars :=
    { live := fun _ _ h => by cases h
      stored := fun _ _ h => absurd h List.not_mem_nil }
  memory := OrderedDict.every_empty _

variable [IsStrictOrderedRing K]

/-- In every run, whatever is published and whatever fails: if the prices of all bars that were
received of a pair, in whatever packets, lie between two bounds or are NaN, then every hint that a
round makes of that pair lies between them. -/
theorem hints_lie_within_received {now : K} {events : List (PipelineEvent K)}
    {s : RememberingPipeline K} (hmin : u.core.oteMin ∈ Set.Icc 0 1)
    (hmax : u.core.oteMax ∈ Set.Icc 0 1)
    (h : Run (step u) (fun _ e => ReceivesWithin u lo hi e) (start now) events s)
    {input : RoundInput K} (hreads : readsStore u s.pipeline input = true)
    {rows : List (Bar (PyFloat K))} (hrows : input.snapshot = some rows) :
    ∃ raws, rows.mapM rawBar = some raws ∧
      ∀ hint, processSnapshot u.lower u.core (snapshotOf input.symbol u.tfPrimary raws) s.memory
        input.utcnow = some hint →
        HintWithin (lo (storeKey u.lower input.symbol u.tfPrimary))
          (hi (storeKey u.lower input.symbol u.tfPrimary)) hint := by
  have hs : PricesWithin u lo hi s :=
    Run.invariant (I := PricesWithin u lo hi) (fun _ _ _ hs hok hst => within_step hs hok hst) h
      (within_start now)
  obtain ⟨raws, hraws, hsnapshot⟩ := within_snapshot hs hreads hrows
  refine ⟨raws, hraws, fun hint hhint => ?_⟩
  apply within_hint hsnapshot _ hmin hmax hhint
  exact within_bucket u.lower hs.memory input.symbol u.tfPrimary

end

section FixedInputs

/-- The bar of the packet as the store has it. -/
def goldBar : Bar (PyFloat ℚ) :=
  ⟨60000, some (.num 5), some (.num 5), some (.num 5), some (.num 5), some (.num 1), 119999, none⟩

/-- A round that reads it. -/
def goldRound : RoundInput ℚ :=
  ⟨"xauusd", some [goldBar], some [goldBar], OrderedDict.empty, 0, .missing, 1, ""⟩

def goldPacket : PipelineEvent ℚ := .packet (barPacket (some (.num 5))) true

theorem goldPacket_within :
    ReceivesWithin exactSetup (fun _ => 4) (fun _ => 6) goldPacket := by
  have hbars : (acceptedBars exactSetup (barPacket (some (.num 5)))).map IncomingBar.row =
      [goldBar] := by decide +kernel
  have hcell : CellWithin (4 : ℚ) 6 (some (.num 5)) :=
    ⟨some 5, rfl, within_some.mpr ⟨by decide, by decide⟩⟩
  intro pair _ bar hbar
  have hrow : bar.row ∈ [goldBar] := hbars ▸ List.mem_map_of_mem hbar
  rw [List.mem_singleton.mp hrow]
  exact ⟨hcell, hcell, hcell, hcell⟩

/-- A bar at 5 comes, and the hint of the next round has no price below 4 or above 6. -/
theorem gold_hint_lies_within_received : ∃ (s : RememberingPipeline ℚ) (hint : SmcHint ℚ),
    Run (step exactSetup) (fun _ e => ReceivesWithin exactSetup (fun _ => 4) (fun _ => 6) e)
        (start 0) [goldPacket] s ∧
      processSnapshot exactSetup.lower exactSetup.core
        (snapshotOf "xauusd" "1m" [⟨some 60000, some 5, some 5, some 5, some 5⟩]) s.memory 0 =
          some hint ∧
      HintWithin 4 6 hint := by
  obtain ⟨s, hstep, hreads, hmemory⟩ : ∃ s, step exactSetup (start 0) goldPacket = some s ∧
      readsStore exactSetup s.pipeline goldRound = true ∧ s.memory = OrderedDict.empty :=
    ⟨_, rfl, by decide +kernel, rfl⟩
  have hrun : Run (step exactSetup)
      (fun _ e => ReceivesWithin exactSetup (fun _ => 4) (fun _ => 6) e) (start 0)
      [goldPacket] s := .cons goldPacket_within hstep (.nil s)
  obtain ⟨raws, hraws, hall⟩ := hints_lie_within_received
    ⟨by decide +kernel, by decide +kernel⟩ ⟨by decide +kernel, by decide +kernel⟩ hrun hreads rfl
  obtain rfl : raws = [⟨some 60000, some 5, some 5, some 5, some 5⟩] :=
    (Option.some.inj hraws).symm
  have hmade : (processSnapshot exactSetup.lower exactSetup.core
      (snapshotOf "xauusd" "1m" [⟨some 60000, some 5, some 5, some 5, some 5⟩])
      OrderedDict.empty 0).isSome = true := by decide +kernel
  rw [← hmemory] at hmade
  obtain ⟨hint, hhint⟩ := Option.isSome_iff_exists.mp hmade
  exact ⟨s, hint, hrun, hhint, hall hint hhint⟩

end FixedInputs

end ReceivedPrices

end SmcPipeline
