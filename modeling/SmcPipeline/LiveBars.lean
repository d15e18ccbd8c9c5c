import SmcPipeline.SignedPackets
import SmcPipeline.WriteOrder

/-!
# Live bars in the store

The ingestor keeps the last live bar of a pair and writes it to the store itself
once a live bar of another open time arrives. The store keeps the first row it
gets for an open time, so a complete bar that arrives after that, or in the same
packet, does not replace the ingestor's own row.

A feed is the sequence of packets of one pair that `_process_payload` accepts; besides
the ingestor and the store its state records, for the statements only, the rows of all
complete bars received and the open times that the ingestor was the first to write.
-/

namespace SmcPipeline.LiveBars

open FxcmIngestor StoreState Runs

variable {F : Type*}

/-- What is fixed while the ingestor runs, and the pair that is looked at. -/
structure Setup (F : Type*) where
  env : Runtime F
  sorter : OpenTimeSort F
  cfg : StoreConfig F
  hmac : HmacSettings
  allowedPairs : Option (List Key)
  pair : Key

/-- A packet and the store's clock when its rows are written. -/
structure Delivery (F : Type*) where
  now : ℚ
  packet : Packet F

structure Feed (F : Type*) where
  ingestor : IngestorState F (StoreState F)
  complete : List (Bar F)
  selfMade : List ℤ

/-- The segment of `put_bars` that writes the rows; the rest of it leaves RAM alone. -/
def putInto (cfg : StoreConfig F) (now : ℚ) (pair : Key) (df : Frame F) (s : StoreState F) :
    StoreState F × Bool :=
  ((s.mergeIntoRam cfg now pair df).2, true)

def completeRows (bars : List (IncomingBar F)) : List (Bar F) :=
  (bars.filter IncomingBar.complete).map IncomingBar.row

/-- Open times of the live bars that the loop over the bars finalises. -/
def finalizedIn : LivePair F → List (IncomingBar F) → List ℤ
  | _, [] => []
  | cache, b :: bars =>
    (if b.complete then [] else ((closing cache b.row).map Bar.openTime).toList) ++
      finalizedIn (acceptBar cache b).1 bars

variable (u : Setup F)

def heldFrame (f : Feed F) : Option (Frame F) := f.ingestor.store.ram.frameAt u.pair

/-- The row the store holds for an open time. -/
def heldRow (f : Feed F) (t : ℤ) : Option (Bar F) := (heldFrame u f).bind fun df => df.rowAt t

/-- The packet is of the pair and passes the shape check, the HMAC gate, the universe
filter and the status gate. -/
def passes (packet : Packet F) (symbol interval : Json F) (bars : List (Json F)) : Bool :=
  decide (packetGate u.env u.hmac packet.payload symbol interval bars = .pass) &&
    decide (pairOf u.env symbol interval = u.pair) &&
    decide ((u.allowedPairs.map fun pairs => pairs.contains u.pair) ≠ some false) &&
    (isIngestAllowedByStatus u.env packet.status).1

/-- The bars of an accepted packet. -/
def accepted (packet : Packet F) : Option (List (IncomingBar F)) :=
  match shape u.env packet.payload with
  | none => none
  | some (symbol, interval, bars) =>
    if passes u packet symbol interval bars then some (bars.filterMap (incomingBar u.env))
    else none

def incoming (d : Delivery F) : List (IncomingBar F) := (accepted u d.packet).getD []

/-- An accepted packet is processed without an exception. -/
def step (f : Feed F) (d : Delivery F) : Option (Feed F) :=
  (accepted u d.packet).bind fun bars =>
    let out := processPayload u.env u.sorter (putInto u.cfg d.now) u.hmac u.allowedPairs d.packet
      f.ingestor
    if out.1 = .raised then none
    else some
      { ingestor := out.2
        complete := f.complete ++ completeRows bars
        selfMade := f.selfMade ++
          (finalizedIn (f.ingestor.live u.pair) bars).filter fun t => (heldRow u f t).isNone }

/-- A feed that begins, over a store just constructed. -/
def start (disk redis : Key → Option (Frame F)) : Feed F where
  ingestor := ⟨fresh u.cfg disk redis, fun _ => ⟨none, false, none⟩, none⟩
  complete := []
  selfMade := []

/-- No TTL expiry and no eviction of the pair. -/
def retained (f : Feed F) (d : Delivery F) : Bool :=
  match step u f d with
  | none => true
  | some g =>
    decide (g.ingestor.store.ram.removalsOf u.pair = f.ingestor.store.ram.removalsOf u.pair)

def Retained (f : Feed F) (d : Delivery F) : Prop := retained u f d = true

/-- When a complete bar arrives, the ingestor has not been the first to write its
open time: neither in an earlier packet nor in this one. -/
def CompleteFirst (f : Feed F) (d : Delivery F) : Prop :=
  ∀ r ∈ completeRows (incoming u d), r.openTime ∉ f.selfMade ∧
    ((heldRow u f r.openTime).isNone →
      r.openTime ∉ finalizedIn (f.ingestor.live u.pair) (incoming u d))

def Accepted (f : Feed F) (d : Delivery F) : Prop := Retained u f d ∧ CompleteFirst u f d

instance (f : Feed F) (d : Delivery F) : Decidable (Retained u f d) :=
  inferInstanceAs (Decidable (_ = _))

instance (f : Feed F) (d : Delivery F) : Decidable (CompleteFirst u f d) :=
  inferInstanceAs (Decidable (∀ r ∈ completeRows (incoming u d), _ ∧ (_ → _)))

instance (f : Feed F) (d : Delivery F) : Decidable (Accepted u f d) :=
  inferInstanceAs (Decidable (_ ∧ _))

/-- The row of every open time that a complete bar was received for is that of a
complete bar. -/
def CarriesComplete (f : Feed F) : Prop :=
  ∀ r ∈ f.complete, ∃ held, heldRow u f r.openTime = some held ∧
    ∃ c ∈ f.complete, c.openTime = r.openTime ∧ held = c

variable {u}

theorem mem_rows_cases {cache : LivePair F} {bars : List (IncomingBar F)} {r : Bar F}
    (h : r ∈ (acceptBars cache bars).2.map Prod.fst) :
    r ∈ completeRows bars ∨ r.openTime ∈ finalizedIn cache bars := by
  induction bars generalizing cache with
  | nil => cases h
  | cons b bars ih =>
      simp only [acceptBars, List.map_append, List.mem_append] at h
      rcases h with h | h
      · cases hb : b.complete with
        | true =>
            obtain rfl : r = b.row := by simpa [acceptBar, hb] using h
            left
            simp [completeRows, hb]
        | false =>
            right
            cases hc : closing cache b.row with
            | none => simp [acceptBar, hb, hc] at h
            | some prev =>
                obtain rfl : r = prev := by simpa [acceptBar, hb, hc] using h
                simp [finalizedIn, hb, hc]
      · rcases ih h with h | h
        · left
          simp only [completeRows, List.mem_map, List.mem_filter] at h ⊢
          obtain ⟨q, ⟨hq, hqc⟩, rfl⟩ := h
          exact ⟨q, ⟨List.mem_cons_of_mem _ hq, hqc⟩, rfl⟩
        · right
          simp [finalizedIn, h]

theorem complete_mem_rows {bars : List (IncomingBar F)} {r : Bar F} (h : r ∈ completeRows bars)
    (cache : LivePair F) : r ∈ (acceptBars cache bars).2.map Prod.fst := by
  induction bars generalizing cache with
  | nil => cases h
  | cons b bars ih =>
      simp only [acceptBars, List.map_append, List.mem_append]
      cases hb : b.complete with
      | true =>
          have hcons : completeRows (b :: bars) = b.row :: completeRows bars := by
            simp [completeRows, hb]
          rw [hcons, List.mem_cons] at h
          rcases h with rfl | h
          · left
            simp [acceptBar, hb]
          · exact Or.inr (ih h _)
      | false =>
          have hcons : completeRows (b :: bars) = completeRows bars := by
            simp [completeRows, hb]
          rw [hcons] at h
          exact Or.inr (ih h _)

theorem finalized_mem_rows {cache : LivePair F} {bars : List (IncomingBar F)} {t : ℤ}
    (h : t ∈ finalizedIn cache bars) :
    ∃ r ∈ (acceptBars cache bars).2.map Prod.fst, r.openTime = t := by
  induction bars generalizing cache with
  | nil => cases h
  | cons b bars ih =>
      simp only [finalizedIn, List.mem_append] at h
      simp only [acceptBars, List.map_append, List.mem_append]
      rcases h with h | h
      · cases hb : b.complete with
        | true => simp [hb] at h
        | false =>
            cases hc : closing cache b.row with
            | none => simp [hb, hc] at h
            | some prev =>
                obtain rfl : t = prev.openTime := by simpa [hb, hc] using h
                exact ⟨prev, Or.inl (by simp [acceptBar, hb, hc]), rfl⟩
      · obtain ⟨r, hr, hrt⟩ := ih h
        exact ⟨r, Or.inr hr, hrt⟩

def PlainLive (cache : LivePair F) : Prop := ∀ r, cache.live = some r → r.isClosed = none

/-- The rows of a packet and the next cached bar are among the bars that came in. -/
theorem forall_acceptBars {P : Bar F → Prop} {cache : LivePair F} {bars : List (IncomingBar F)}
    (hc : ∀ r, cache.live = some r → P r) (hb : ∀ b ∈ bars, P b.row) :
    (∀ r ∈ (acceptBars cache bars).2.map Prod.fst, P r) ∧
      ∀ r, (acceptBars cache bars).1.live = some r → P r := by
  induction bars generalizing cache with
  | nil => exact ⟨(fun r hr => by cases hr), hc⟩
  | cons b bars ih =>
      have hrow := hb b List.mem_cons_self
      have hfirst : (∀ r ∈ (acceptBar cache b).2.map Prod.fst, P r) ∧
          ∀ r, (acceptBar cache b).1.live = some r → P r := by
        cases hcomp : b.complete with
        | true =>
            refine ⟨fun r hr => ?_, ?_⟩
            · obtain rfl : r = b.row := by simpa [acceptBar, hcomp] using hr
              exact hrow
            · simpa [acceptBar, hcomp] using hc
        | false =>
            refine ⟨fun r hr => ?_, fun r hr => ?_⟩
            · cases hcl : closing cache b.row with
              | none => simp [acceptBar, hcomp, hcl] at hr
              | some prev =>
                  obtain rfl : r = prev := by simpa [acceptBar, hcomp, hcl] using hr
                  exact hc r (Option.filter_eq_some_iff.mp hcl).1
            · obtain rfl : b.row = r := by simpa [acceptBar, hcomp] using hr
              exact hrow
      obtain ⟨hrows, hlive⟩ := ih hfirst.2 fun q hq => hb q (List.mem_cons_of_mem _ hq)
      refine ⟨fun r hr => ?_, hlive⟩
      simp only [acceptBars, List.map_append, List.mem_append] at hr
      exact hr.elim (hfirst.1 r) (hrows r)

theorem plain_acceptBars {cache : LivePair F} {bars : List (IncomingBar F)}
    (hc : PlainLive cache) (hb : ∀ b ∈ bars, b.row.isClosed = none) :
    (∀ r ∈ (acceptBars cache bars).2.map Prod.fst, r.isClosed = none) ∧
      PlainLive (acceptBars cache bars).1 := forall_acceptBars hc hb

theorem isClosed_of_incomingBar {env : Runtime F} {bar : Json F} {b : IncomingBar F}
    (h : incomingBar env bar = some b) : b.row.isClosed = none := by
  unfold incomingBar at h
  split at h
  · obtain ⟨row, hrow, rfl⟩ := Option.map_eq_some_iff.mp h
    unfold sanitizeBar at hrow
    dsimp only at hrow
    split at hrow
    · cases hrow
      rfl
    · cases hrow
  · cases h

/-- Past the gates `_process_payload` is the loop over the bars and the write. -/
theorem processPayload_of_accepted {packet : Packet F} {bars : List (IncomingBar F)}
    (h : accepted u packet = some bars) {σ : Type*} (put : Key → Frame F → σ → σ × Bool)
    (st : IngestorState F σ) :
    (∀ b ∈ bars, b.row.isClosed = none) ∧
      processPayload u.env u.sorter put u.hmac u.allowedPairs packet st =
        ingestBars u.sorter put u.pair bars st := by
  unfold accepted at h
  split at h
  · cases h
  · rename_i symbol interval items hshape
    split_ifs at h with hpass
    cases h
    simp only [passes, Bool.and_eq_true, decide_eq_true_eq] at hpass
    obtain ⟨⟨⟨hgate, hpair⟩, huniverse⟩, hstatus⟩ := hpass
    constructor
    · intro b hb
      obtain ⟨bar, -, hbar⟩ := List.mem_filterMap.mp hb
      exact isClosed_of_incomingBar hbar
    · unfold processPayload
      simp only [hshape, hgate, hpair, if_neg huniverse, hstatus, Bool.not_true,
        Bool.false_eq_true, if_false]

/-- What an accepted packet does to the store: nothing, or one merge of its rows. -/
theorem store_of_step {f g : Feed F} {d : Delivery F} (h : step u f d = some g) :
    (∀ b ∈ incoming u d, b.row.isClosed = none) ∧
      g.ingestor.live u.pair = (acceptBars (f.ingestor.live u.pair) (incoming u d)).1 ∧
      g.complete = f.complete ++ completeRows (incoming u d) ∧
      g.selfMade = f.selfMade ++ (finalizedIn (f.ingestor.live u.pair) (incoming u d)).filter
        (fun t => (heldRow u f t).isNone) ∧
      ((acceptBars (f.ingestor.live u.pair) (incoming u d)).2.map Prod.fst = [] ∧
          g.ingestor.store = f.ingestor.store ∨
        g.ingestor.store = (f.ingestor.store.mergeIntoRam u.cfg d.now u.pair ⟨false, u.sorter.sort
          ((acceptBars (f.ingestor.live u.pair) (incoming u d)).2.map Prod.fst)⟩).2) := by
  obtain ⟨bars, hbars, hstep⟩ := Option.bind_eq_some_iff.mp h
  obtain ⟨hclosed, hprocess⟩ :=
    processPayload_of_accepted hbars (putInto u.cfg d.now) f.ingestor
  have hincoming : incoming u d = bars := by
    unfold incoming
    rw [hbars, Option.getD_some]
  rw [hprocess] at hstep
  rw [hincoming]
  dsimp only at hstep
  split_ifs at hstep with hout
  cases hstep
  refine ⟨hclosed, ?_, rfl, rfl, ?_⟩
  · unfold ingestBars
    dsimp only
    split_ifs
    · simp
    · split
      · simp
      · simp [putInto]
  · unfold ingestBars at hout ⊢
    dsimp only at hout ⊢
    split_ifs at hout ⊢ with hempty
    · exact Or.inl ⟨List.isEmpty_iff.mp hempty, rfl⟩
    · split at hout
      · exact absurd rfl hout
      · rename_i df hdf
        unfold barsPayloadToDf at hdf
        split_ifs at hdf
        cases hdf
        exact Or.inr rfl

/-- What holds in every state of a feed whose packets meet the condition. -/
structure Good (u : Setup F) (f : Feed F) : Prop where
  plainFrame : ∀ df, heldFrame u f = some df → df.Plain
  plainLive : PlainLive (f.ingestor.live u.pair)
  kept : ∀ r ∈ f.complete, (heldRow u f r.openTime).isSome ∧ r.openTime ∉ f.selfMade
  sound : ∀ t held, heldRow u f t = some held → t ∉ f.selfMade →
    ∃ c ∈ f.complete, c.openTime = t ∧ held = c
  made : ∀ t ∈ f.selfMade, (heldRow u f t).isSome

/-- The store keeps the rows it has and takes the first of the packet's rows for
every other open time. -/
theorem heldRow_step {f g : Feed F} {d : Delivery F} (hgood : Good u f)
    (hret : Retained u f d) (h : step u f d = some g) :
    (∀ df, heldFrame u g = some df → df.Plain) ∧
      ∀ t, heldRow u g t = (heldRow u f t).or (KeyedRows.firstOf Bar.openTime t (u.sorter.sort
        ((acceptBars (f.ingestor.live u.pair) (incoming u d)).2.map Prod.fst))) := by
  obtain ⟨hclosed, -, -, -, hempty | hmerge⟩ := store_of_step h
  · have hframe : heldFrame u g = heldFrame u f := by
      unfold heldFrame
      rw [hempty.2]
    have hnil : u.sorter.sort ([] : List (Bar F)) = [] := (u.sorter.perm []).eq_nil
    refine ⟨fun df hdf => hgood.plainFrame df (hframe ▸ hdf), fun t => ?_⟩
    simp only [heldRow, hframe, hempty.1, hnil]
    simp [KeyedRows.firstOf]
  · set df : Frame F := ⟨false, u.sorter.sort
      ((acceptBars (f.ingestor.live u.pair) (incoming u d)).2.map Prod.fst)⟩ with hdf
    have hplain : df.Plain := by
      refine ⟨rfl, fun r hr => ?_⟩
      exact (plain_acceptBars hgood.plainLive hclosed).1 r
        ((u.sorter.perm _).mem_iff.mp hr)
    have hsame : g.ingestor.store.ram.removalsOf u.pair = f.ingestor.store.ram.removalsOf u.pair := by
      simp only [Retained, retained, h] at hret
      exact of_decide_eq_true hret
    rw [hmerge] at hsame
    have hget := RamLayer.get_eq_frameAt u.cfg (RamLayer.removalsOf_get_of_put u.cfg hsame)
    have hheld : heldFrame u g = some (Frame.mergeBars (heldFrame u f) df) := by
      have hput := RamLayer.frameAt_get_put u.cfg hsame
      rw [if_pos rfl] at hput
      unfold heldFrame
      rw [hmerge, ← hget]
      exact hput
    refine ⟨fun df' hdf' => ?_, fun t => ?_⟩
    · rw [hheld] at hdf'
      cases hdf'
      exact Frame.plain_mergeBars hgood.plainFrame hplain
    · unfold heldRow
      rw [hheld, Option.bind_some, Frame.rowAt_mergeBars hgood.plainFrame hplain]
      rfl

theorem good_step {f g : Feed F} {d : Delivery F} (hgood : Good u f)
    (hok : Accepted u f d) (h : step u f d = some g) :
    Good u g := by
  obtain ⟨hplain, hrow⟩ := heldRow_step hgood hok.1 h
  obtain ⟨hclosed, hlive, hcomplete, hself, -⟩ := store_of_step h
  set bars := incoming u d with hbars
  set cache := f.ingestor.live u.pair with hcache
  set rows := (acceptBars cache bars).2.map Prod.fst with hrows
  have hstays : ∀ t, (heldRow u f t).isSome → heldRow u g t = heldRow u f t := by
    intro t ht
    rw [hrow, Option.or_of_isSome ht]
  have hfirst : ∀ r ∈ rows, (heldRow u g r.openTime).isSome := by
    intro r hr
    rw [hrow]
    cases hf : heldRow u f r.openTime with
    | some held => rfl
    | none =>
        rw [Option.none_or, KeyedRows.firstOf_isSome]
        exact List.mem_map_of_mem ((u.sorter.perm rows).mem_iff.mpr hr)
  refine ⟨hplain, ?_, ?_, ?_, ?_⟩
  · rw [hlive]
    exact (plain_acceptBars hgood.plainLive hclosed).2
  · intro r hr
    rw [hcomplete, List.mem_append] at hr
    rw [hself, List.mem_append, not_or, List.mem_filter, not_and]
    rcases hr with hr | hr
    · obtain ⟨hsome, hnot⟩ := hgood.kept r hr
      refine ⟨by rw [hstays _ hsome]; exact hsome, hnot, fun _ hnone => ?_⟩
      rw [Option.isNone_iff_eq_none] at hnone
      simp [hnone] at hsome
    · obtain ⟨hnot, hnew⟩ := hok.2 r hr
      refine ⟨hfirst r (complete_mem_rows hr cache), hnot, fun hfin hnone => ?_⟩
      exact hnew hnone hfin
  · intro t held hheld hnot
    rw [hself, List.mem_append, not_or, List.mem_filter, not_and] at hnot
    rw [hcomplete]
    cases hf : heldRow u f t with
    | some old =>
        rw [hstays t (by simp [hf]), hf] at hheld
        cases hheld
        obtain ⟨c, hc, hct, hrc⟩ := hgood.sound t held hf hnot.1
        exact ⟨c, List.mem_append_left _ hc, hct, hrc⟩
    | none =>
        rw [hrow, hf, Option.none_or] at hheld
        have hmem := (u.sorter.perm rows).mem_iff.mp (KeyedRows.firstOf_mem Bar.openTime hheld)
        have hkey := KeyedRows.firstOf_key Bar.openTime hheld
        rcases mem_rows_cases hmem with hc | hfin
        · exact ⟨held, List.mem_append_right _ hc, hkey, rfl⟩
        · exact absurd (by simp [hf]) (hnot.2 (hkey ▸ hfin))
  · intro t ht
    rw [hself, List.mem_append, List.mem_filter] at ht
    rcases ht with ht | ⟨hfin, -⟩
    · have hsome := hgood.made t ht
      rw [hstays t hsome]
      exact hsome
    · obtain ⟨r, hr, rfl⟩ := finalized_mem_rows hfin
      exact hfirst r hr

theorem good_start (disk redis : Key → Option (Frame F)) : Good u (start u disk redis) where
  plainFrame _ h := by cases h
  plainLive _ h := by cases h
  kept _ h := by cases h
  sound _ _ h := by cases h
  made _ h := by cases h

/-- As long as complete bars come first, the store carries their rows. -/
theorem store_carries_complete {disk redis : Key → Option (Frame F)} {ds : List (Delivery F)}
    {f : Feed F} (h : Run (step u) (Accepted u)
      (start u disk redis) ds f) : CarriesComplete u f := by
  have hgood := h.invariant (fun _ _ _ hg hok hst => good_step hg hok hst) (good_start disk redis)
  intro r hr
  obtain ⟨hsome, hnot⟩ := hgood.kept r hr
  obtain ⟨held, hheld⟩ := Option.isSome_iff_exists.mp hsome
  exact ⟨held, hheld, hgood.sound _ _ hheld hnot⟩

section FixedInputs

open SignedPackets WriteOrder

def goldFeed : Setup ℤ :=
  ⟨plainRuntime, stableSort, smallConfig, ⟨none, "sha256", false⟩, none, gold⟩

abbrev goldStart : Feed ℤ := start goldFeed (fun _ => none) fun _ => none

/-- A packet with one bar. -/
def delivery (now : ℚ) (complete : Bool) (openTime price : ℤ) : Delivery ℤ where
  now := now
  packet :=
    { status := ⟨some "open", some "ok", some "ok"⟩
      payload := [("symbol", .str "xauusd"), ("tf", .str "1m"),
        ("bars", .arr [jsonBar complete openTime price])] }

/-- A live bar is finalised after its complete bar has been stored. -/
def completeFirst : List (Delivery ℤ) :=
  [delivery 0 false 60000 1, delivery 1 true 60000 2, delivery 2 false 120000 3,
    delivery 3 true 120000 4]

theorem store_carries_complete_bars :
    ∃ f, Run (step goldFeed) (Accepted goldFeed) goldStart completeFirst f ∧
      CarriesComplete goldFeed f := by
  obtain ⟨f, hrun, -⟩ := Run.exists_of_checked (step goldFeed) (Accepted goldFeed) goldStart
    completeFirst (fun f => decide (f.complete.length = 2)) (by decide +kernel)
  exact ⟨f, hrun, store_carries_complete hrun⟩

/-- The complete bar arrives after the next live bar: the store keeps the price of
the live bar. -/
theorem store_keeps_live_bar :
    ¬ ∀ (u : Setup ℤ) (disk redis : Key → Option (Frame ℤ)) (ds : List (Delivery ℤ)) (f : Feed ℤ),
      Run (step u) (Retained u) (start u disk redis) ds f → CarriesComplete u f := by
  intro h
  obtain ⟨f, hrun, hp⟩ := Run.exists_of_checked (step goldFeed) (Retained goldFeed) goldStart
    [delivery 0 false 60000 1, delivery 1 false 120000 3, delivery 2 true 60000 2]
    (fun f => decide (f.complete.map (fun r => (r.openTime, r.close)) = [(60000, 2)]) &&
      decide ((heldRow goldFeed f 60000).map Bar.close = some 1)) (by decide +kernel)
  simp only [Bool.and_eq_true, decide_eq_true_eq] at hp
  obtain ⟨r, hr⟩ := List.length_eq_one_iff.mp (by simpa using congrArg List.length hp.1)
  have hclose : (r.openTime, r.close) = (60000, 2) := by
    have := hp.1
    rw [hr] at this
    simpa using this
  obtain ⟨held, hheld, c, hc, -, rfl⟩ := h _ _ _ _ _ hrun r (by simp [hr])
  obtain rfl : held = r := by simpa [hr] using hc
  rw [(Prod.mk.inj hclose).1] at hheld
  rw [hheld] at hp
  simp [(Prod.mk.inj hclose).2] at hp

end FixedInputs

end SmcPipeline.LiveBars
