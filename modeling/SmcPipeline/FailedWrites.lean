import SmcPipeline.Ingestion
import SmcPipeline.Runs
import SmcPipeline.SignedPackets

/-!
# Failed writes

The loop over the bars puts a live bar into the finalised marker before `put_bars` is
called, and a failure of `put_bars` is logged and forgotten. Here the store is the log
of the calls of `put_bars`, each with its frame and whether it returned, and which of
them return is an input.
-/

namespace SmcPipeline.FailedWrites

open FxcmIngestor Ingestion Runs

variable {F : Type*}

structure PutCall (F : Type*) where
  pair : Key
  df : Frame F
  returned : Bool
deriving DecidableEq

abbrev Ingestor (F : Type*) := IngestorState F (List (PutCall F))

/-- A packet, and whether `put_bars` returns if it is called for it. -/
structure Arrival (F : Type*) where
  packet : Packet F
  returns : Bool

def putBars (returns : Bool) (pair : Key) (df : Frame F) (calls : List (PutCall F)) :
    List (PutCall F) × Bool := (calls ++ [⟨pair, df, returns⟩], returns)

def start : Ingestor F := ⟨[], fun _ => ⟨none, false, none⟩, none⟩

variable (u : Settings F)

def receive (st : Ingestor F) (a : Arrival F) : Ingestor F :=
  (process u (putBars a.returns) a.packet st).2

def step (st : Ingestor F) (a : Arrival F) : Option (Ingestor F) := some (receive u st a)

/-- The live bars that a packet finalises, with their pair. -/
def finalizes (st : Ingestor F) (a : Arrival F) : List (Key × Bar F) :=
  match admitted u a.packet with
  | none => []
  | some (pair, bars) => (closedBars (st.live pair) bars).map fun r => (pair, r)

/-- `put_bars` is called for the packet and raises. -/
def PutFails (st : Ingestor F) (a : Arrival F) : Prop :=
  ∃ call, (receive u st a).store = st.store ++ [call] ∧ call.returned = false

/-- `put_bars` is called for the packet with the bar among the rows. -/
def Offers (st : Ingestor F) (a : Arrival F) (bar : Key × Bar F) : Prop :=
  ∃ call, (receive u st a).store = st.store ++ [call] ∧ call.pair = bar.1 ∧
    bar.2 ∈ call.df.rows

/-- The packet has a live bar of the pair with another open time. -/
def CarriesOther (a : Arrival F) (bar : Key × Bar F) : Prop :=
  ∃ bars, admitted u a.packet = some (bar.1, bars) ∧
    ∃ b ∈ bars, b.complete = false ∧ b.row.openTime ≠ bar.2.openTime

/-- A live bar finalised in a packet whose `put_bars` failed is offered again by a later
packet with a live bar of another open time, once there is one. -/
def OffersAgain (arrivals : List (Arrival F)) : Prop :=
  ∀ pre a post st, arrivals = pre ++ a :: post → replay (step u) start pre = some st →
    PutFails u st a → ∀ bar ∈ finalizes u st a, (∃ later ∈ post, CarriesOther u later bar) →
      ∃ mid later rest before, post = mid ++ later :: rest ∧ CarriesOther u later bar ∧
        replay (step u) start (pre ++ a :: mid) = some before ∧ Offers u before later bar

/-- A `put_bars` with the bar among the rows has returned. -/
def Stored (st : Ingestor F) (bar : Key × Bar F) : Prop :=
  ∃ call ∈ st.store, call.returned = true ∧ call.pair = bar.1 ∧ bar.2 ∈ call.df.rows

/-- The bar that each pair has marked as finalised last has been stored. -/
def MarksStored (st : Ingestor F) : Prop :=
  ∀ pair t, (st.live pair).finalized = some t → ∃ bar : Bar F, bar.openTime = t ∧
    Stored st (pair, bar)

/-- Whatever the packet finalises is stored when it is done. -/
def StoresFinalized (st : Ingestor F) (a : Arrival F) : Prop :=
  ∀ bar ∈ finalizes u st a, Stored (receive u st a) bar

/-- The times of the rows fit the `Int64` columns of the frame. -/
def castable (st : Ingestor F) (a : Arrival F) : Bool :=
  match admitted u a.packet with
  | none => true
  | some (pair, bars) =>
    ((acceptBars (st.live pair) bars).2.map Prod.fst).all fun r =>
      inInt64 r.openTime && inInt64 r.closeTime

/-- The write of a packet that finalises a live bar does not fail. -/
def WritesFinalized (st : Ingestor F) (a : Arrival F) : Prop :=
  finalizes u st a ≠ [] → a.returns = true ∧ castable u st a = true

instance (st : Ingestor F) (a : Arrival F) : Decidable (WritesFinalized u st a) :=
  if h : (finalizes u st a).isEmpty then
    .isTrue fun hne => absurd (List.isEmpty_iff.mp h) hne
  else
    decidable_of_iff (a.returns = true ∧ castable u st a = true)
      ⟨fun h _ => h, fun hw => hw fun he => h (List.isEmpty_iff.mpr he)⟩

variable {u}

/-- Calls are only added to the log, with the outcome the packet came with. -/
theorem store_receive (st : Ingestor F) (a : Arrival F) :
    ∃ calls, (receive u st a).store = st.store ++ calls ∧ ∀ call ∈ calls, call.returned = a.returns := by
  unfold receive
  cases hadm : admitted u a.packet with
  | none => exact ⟨[], by rw [(process_of_refused hadm _).1, List.append_nil], List.forall_mem_nil _⟩
  | some admission =>
      obtain ⟨pair, bars⟩ := admission
      rw [process_of_admitted hadm]
      rcases (ingestBars_written u.sorter (putBars a.returns) pair bars st).2 with
        ⟨-, hstore⟩ | ⟨-, -, hstore⟩ | ⟨df, -, -, -, hstore⟩ | ⟨df, -, -, -, hstore⟩
      · exact ⟨[], by rw [hstore, List.append_nil], List.forall_mem_nil _⟩
      · exact ⟨[], by rw [hstore, List.append_nil], List.forall_mem_nil _⟩
      · exact ⟨[⟨pair, df, a.returns⟩], hstore, List.forall_mem_singleton.mpr rfl⟩
      · exact ⟨[⟨pair, df, a.returns⟩], hstore, List.forall_mem_singleton.mpr rfl⟩

theorem Stored.receive {st : Ingestor F} {bar : Key × Bar F} (h : Stored st bar) (a : Arrival F) :
    Stored (receive u st a) bar := by
  obtain ⟨calls, hcalls, -⟩ := store_receive (u := u) st a
  obtain ⟨call, hcall, hrest⟩ := h
  exact ⟨call, by rw [hcalls]; exact List.mem_append_left _ hcall, hrest⟩

theorem storesFinalized_of_writes {st : Ingestor F} {a : Arrival F}
    (h : WritesFinalized u st a) : StoresFinalized u st a := by
  intro bar hbar
  obtain ⟨hreturns, hcast⟩ := h (List.ne_nil_of_mem hbar)
  unfold finalizes at hbar
  unfold castable at hcast
  cases hadm : admitted u a.packet with
  | none => simp [hadm] at hbar
  | some admission =>
      obtain ⟨pair, bars⟩ := admission
      simp only [hadm] at hbar hcast
      obtain ⟨r, hr, rfl⟩ := List.mem_map.mp hbar
      have hrow := closedBars_subset hr
      unfold receive
      rw [process_of_admitted hadm]
      rcases (ingestBars_written u.sorter (putBars a.returns) pair bars st).2 with
        ⟨hnil⟩ | ⟨-, hnone⟩ | ⟨df, -, -, hfails⟩ | ⟨df, -, hdf, -, hstore⟩
      · rw [hnil] at hrow
        cases hrow
      · rw [barsPayloadToDf, if_pos hcast] at hnone
        cases hnone
      · cases hreturns.symm.trans hfails
      · refine ⟨⟨pair, df, a.returns⟩, ?_, hreturns, rfl, (mem_barsPayloadToDf hdf r).mpr hrow⟩
        rw [hstore]
        exact List.mem_append_right _ List.mem_cons_self

theorem marksStored_receive {st : Ingestor F} {a : Arrival F} (hst : MarksStored st)
    (h : StoresFinalized u st a) : MarksStored (receive u st a) := by
  intro pair t ht
  cases hadm : admitted u a.packet with
  | none =>
      unfold receive at ht
      rw [(process_of_refused hadm _).1] at ht
      obtain ⟨bar, hbar, hs⟩ := hst pair t ht
      exact ⟨bar, hbar, hs.receive a⟩
  | some admission =>
      obtain ⟨own, bars⟩ := admission
      have hlive := (ingestBars_written u.sorter (putBars a.returns) own bars st).1
      unfold receive at ht
      rw [process_of_admitted hadm, hlive] at ht
      by_cases hpair : pair = own
      · subst hpair
        rw [Function.update_self] at ht
        rcases finalized_acceptBars ht with ⟨r, hr, hrt⟩ | hold
        · refine ⟨r, hrt, h (pair, r) ?_⟩
          unfold finalizes
          rw [hadm]
          exact List.mem_map_of_mem hr
        · obtain ⟨bar, hbar, hs⟩ := hst pair t hold
          exact ⟨bar, hbar, hs.receive a⟩
      · rw [Function.update_of_ne hpair] at ht
        obtain ⟨bar, hbar, hs⟩ := hst pair t ht
        exact ⟨bar, hbar, hs.receive a⟩

/-- As long as the writes that finalise live bars succeed, whichever others fail: every live
bar is stored when it is finalised, nothing else is ever marked, and no failed write has
taken a finalised bar with it. -/
theorem finalized_bars_stored {arrivals : List (Arrival F)} {st : Ingestor F}
    (h : Run (step u) (WritesFinalized u) start arrivals st) :
    Run (step u) (StoresFinalized u) start arrivals st ∧ MarksStored st ∧
      OffersAgain u arrivals := by
  have hstores := h.weaken fun _ _ => storesFinalized_of_writes
  refine ⟨hstores, ?_, ?_⟩
  · refine hstores.invariant (fun st a after hst hok hstep => ?_) fun pair t ht => by cases ht
    obtain rfl := Option.some.inj hstep
    exact marksStored_receive hst hok
  · rintro pre a post before rfl hbefore ⟨call, hcall, hfailed⟩ bar hbar -
    -- the condition rules such a failure out
    have hprefix : Run (step u) (WritesFinalized u) start ((pre ++ [a]) ++ post) st := by
      simpa using h
    obtain ⟨mid, hmid, -⟩ := hprefix.split
    obtain ⟨hreturns, hcast⟩ := hmid.guard_last hbefore (List.ne_nil_of_mem hbar)
    obtain ⟨calls, hcalls, hall⟩ := store_receive (u := u) before a
    have hsame := List.append_cancel_left (hcall.symm.trans hcalls)
    rw [← hsame, List.forall_mem_singleton, hreturns, hfailed] at hall
    cases hall

section FixedInputs

open SignedPackets

def plainSettings : Settings ℤ := ⟨plainRuntime, stableSort, ⟨none, "sha256", false⟩, none⟩

/-- A packet with one live bar, and whether its write returns. -/
def liveBar (openTime : ℤ) (returns : Bool) : Arrival ℤ where
  packet :=
    { status := ⟨some "open", some "ok", some "ok"⟩
      payload := [("symbol", .str "xauusd"), ("tf", .str "1m"),
        ("bars", .arr [jsonBar false openTime 1])] }
  returns := returns

theorem finalized_bar_stored :
    ∃ st, Run (step plainSettings) (StoresFinalized plainSettings) start
        [liveBar 60000 false, liveBar 120000 true] st ∧ MarksStored st ∧
      OffersAgain plainSettings [liveBar 60000 false, liveBar 120000 true] := by
  obtain ⟨st, hrun, -⟩ := Run.exists_of_checked (step plainSettings) (WritesFinalized plainSettings)
    start [liveBar 60000 false, liveBar 120000 true] (fun _ => true) (by decide +kernel)
  exact ⟨st, finalized_bars_stored hrun⟩

/-- A live bar of one price with its closing time. -/
def liveRow (openTime : ℤ) : Bar ℤ := ⟨openTime, 1, 1, 1, 1, 1, openTime + 59999, none⟩

abbrev oneLive : Ingestor ℤ := receive plainSettings start (liveBar 60000 true)

abbrev oneLost : Ingestor ℤ := receive plainSettings oneLive (liveBar 120000 false)

theorem calls_oneLost : oneLost.store = oneLive.store ++
    [⟨("xauusd", "1m"), ⟨false, [liveRow 60000]⟩, false⟩] := rfl

theorem calls_after_oneLost : (receive plainSettings oneLost (liveBar 180000 true)).store =
    oneLost.store ++ [⟨("xauusd", "1m"), ⟨false, [liveRow 120000]⟩, true⟩] := rfl

/-- The write that finalises the first bar fails: the bar is marked all the same, and the
packet after it offers its own. -/
theorem finalized_bar_lost :
    (¬ ∀ (u : Settings ℤ) (arrivals : List (Arrival ℤ)) (st : Ingestor ℤ),
      Run (step u) (fun _ _ => True) start arrivals st → MarksStored st) ∧
    ¬ ∀ (u : Settings ℤ) (arrivals : List (Arrival ℤ)), OffersAgain u arrivals := by
  constructor
  · intro h
    have hrun : Run (step plainSettings) (fun _ _ => True) start
        [liveBar 60000 true, liveBar 120000 false] oneLost :=
      .cons trivial rfl (.cons trivial rfl (.nil _))
    obtain ⟨bar, -, call, hcall, hreturned, -⟩ :=
      h _ _ _ hrun ("xauusd", "1m") 60000 (by decide +kernel)
    rw [calls_oneLost] at hcall
    have hnone : oneLive.store = [] := rfl
    rw [hnone, List.nil_append, List.mem_singleton] at hcall
    rw [hcall] at hreturned
    cases hreturned
  · intro h
    obtain ⟨mid, later, rest, before, hpost, -, hbefore, call, hcall, -, hoffered⟩ :=
      h plainSettings [liveBar 60000 true, liveBar 120000 false, liveBar 180000 true]
        [liveBar 60000 true] (liveBar 120000 false) [liveBar 180000 true] oneLive rfl rfl
        ⟨_, calls_oneLost, rfl⟩ (("xauusd", "1m"), liveRow 60000) (by decide +kernel)
        ⟨liveBar 180000 true, List.mem_cons_self,
          [⟨liveRow 180000, false, false⟩], rfl, _, List.mem_cons_self, rfl, by decide⟩
    obtain ⟨rfl, hpost⟩ | ⟨mid', rfl, hpost⟩ := List.cons_eq_append_iff.mp hpost
    · obtain ⟨rfl, rfl⟩ := List.cons.inj hpost
      obtain rfl : oneLost = before := Option.some.inj hbefore
      rw [calls_after_oneLost] at hcall
      rw [← (List.cons.inj (List.append_cancel_left hcall)).1] at hoffered
      exact absurd hoffered (by decide +kernel)
    · simp at hpost

end FixedInputs

end SmcPipeline.FailedWrites
