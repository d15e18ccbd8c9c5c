import SmcPipeline.LiveBars
import SmcPipeline.MergeLaw
import SmcPipeline.Ingestion

/-!
# When a live bar is over

The ingestor writes the live bar it has cached when a live bar of another open time
arrives, be it later or earlier. A feed here has live bars only; besides the ingestor
and the store its state records the bars received, in their order.
-/

namespace SmcPipeline.LiveFinalisation

open FxcmIngestor Ingestion LiveBars StoreState Runs

variable {F : Type*}

structure LiveFeed (F : Type*) where
  ingestor : IngestorState F (StoreState F)
  received : List (Bar F)

/-- A row of the store is over: a bar with a greater open time has been received, and
the row is the last one received for its open time before that. -/
def Over (received : List (Bar F)) (r : Bar F) : Prop :=
  ∃ pre later post, received = pre ++ later :: post ∧ r.openTime < later.openTime ∧
    (pre.filter fun q => q.openTime = r.openTime).getLast? = some r

/-- No cached live bar is closed by a bar with a smaller open time. -/
def ClosesForward : LivePair F → List (IncomingBar F) → Prop
  | _, [] => True
  | cache, b :: bars =>
    (∀ prev ∈ closing cache b.row, prev.openTime < b.row.openTime) ∧
      ClosesForward (acceptBar cache b).1 bars

instance decidableClosesForward : (cache : LivePair F) → (bars : List (IncomingBar F)) →
    Decidable (ClosesForward cache bars)
  | _, [] => .isTrue trivial
  | cache, b :: bars =>
    have := decidableClosesForward (acceptBar cache b).1 bars
    inferInstanceAs (Decidable ((∀ prev ∈ closing cache b.row, prev.openTime < b.row.openTime) ∧
      ClosesForward (acceptBar cache b).1 bars))

variable (u : Setup F)

/-- An accepted packet of live bars. -/
def step (f : LiveFeed F) (d : Delivery F) : Option (LiveFeed F) :=
  (accepted u d.packet).bind fun bars =>
    if bars.all fun b => !b.complete then
      some
        { ingestor := (processPayload u.env u.sorter (putInto u.cfg d.now) u.hmac u.allowedPairs
            d.packet f.ingestor).2
          received := f.received ++ bars.map IncomingBar.row }
    else none

def start (disk redis : Key → Option (Frame F)) : LiveFeed F where
  ingestor := ⟨fresh u.cfg disk redis, fun _ => ⟨none, false, none⟩, none⟩
  received := []

def heldFrame (f : LiveFeed F) : Option (Frame F) := f.ingestor.store.ram.frameAt u.pair

def heldRow (f : LiveFeed F) (t : ℤ) : Option (Bar F) := (heldFrame u f).bind fun df => df.rowAt t

def FinalizesForward (f : LiveFeed F) (d : Delivery F) : Prop :=
  ClosesForward (f.ingestor.live u.pair) (incoming u d)

instance (f : LiveFeed F) (d : Delivery F) : Decidable (FinalizesForward u f d) :=
  inferInstanceAs (Decidable (ClosesForward _ _))

variable {u}

theorem Over.append {received : List (Bar F)} {r : Bar F} (h : Over received r)
    (more : List (Bar F)) : Over (received ++ more) r := by
  obtain ⟨pre, later, post, rfl, hlt, hlast⟩ := h
  exact ⟨pre, later, post ++ more, by simp, hlt, hlast⟩

theorem over_of_last {received : List (Bar F)} {r later : Bar F}
    (hlast : received.getLast? = some r) (hlt : r.openTime < later.openTime) :
    Over (received ++ [later]) r := by
  obtain ⟨pre, rfl⟩ := List.getLast?_eq_some_iff.mp hlast
  exact ⟨pre ++ [r], later, [], by simp, hlt, by simp⟩

/-- The cached bar is the last one received, and what the loop writes is over. -/
theorem over_acceptBars {cache : LivePair F} {bars : List (IncomingBar F)}
    {received : List (Bar F)} (hcache : cache.live = received.getLast?)
    (hlive : ∀ b ∈ bars, b.complete = false) (hforward : ClosesForward cache bars) :
    (acceptBars cache bars).1.live = (received ++ bars.map IncomingBar.row).getLast? ∧
      ∀ r ∈ (acceptBars cache bars).2.map Prod.fst,
        Over (received ++ bars.map IncomingBar.row) r := by
  induction bars generalizing cache received with
  | nil => exact ⟨by simpa [acceptBars] using hcache, fun r hr => by cases hr⟩
  | cons b bars ih =>
      obtain ⟨hb, hlive⟩ := List.forall_mem_cons.mp hlive
      obtain ⟨hclosing, hforward⟩ := hforward
      have hnext : (acceptBar cache b).1.live = (received ++ [b.row]).getLast? := by
        simp [acceptBar, hb]
      obtain ⟨hlast, hrows⟩ := ih hnext hlive hforward
      have hsplit : received ++ (b :: bars).map IncomingBar.row =
          received ++ [b.row] ++ bars.map IncomingBar.row := by simp
      rw [hsplit]
      refine ⟨hlast, fun r hr => ?_⟩
      simp only [acceptBars, List.map_append, List.mem_append] at hr
      rcases hr with hr | hr
      · cases hc : closing cache b.row with
        | none => simp [acceptBar, hb, hc] at hr
        | some prev =>
            obtain rfl : r = prev := by simpa [acceptBar, hb, hc] using hr
            have hprev := (Option.filter_eq_some_iff.mp hc).1
            exact (over_of_last (hcache ▸ hprev) (hclosing r hc)).append _
      · exact hrows r hr

/-- What holds in every state of a feed that finalises forward. -/
structure Good (u : Setup F) (f : LiveFeed F) : Prop where
  plainFrame : ∀ df, heldFrame u f = some df → df.Plain
  plainLive : PlainLive (f.ingestor.live u.pair)
  cached : (f.ingestor.live u.pair).live = f.received.getLast?
  heldOver : ∀ df, heldFrame u f = some df → ∀ r ∈ df.rows, Over f.received r

/-- A row that a merge leaves is one of those it was given. -/
theorem mem_rows_mergeBars {current : Option (Frame F)} {new : Frame F}
    (hc : ∀ cur, current = some cur → cur.Plain) (hn : new.Plain) {r : Bar F}
    (hr : r ∈ (Frame.mergeBars current new).rows) :
    (∃ cur, current = some cur ∧ r ∈ cur.rows) ∨ r ∈ new.rows := by
  have hsame : ∀ cur ∈ current, Frame.SameColumns cur new := fun cur hcur => Or.inr ⟨hc cur hcur, hn⟩
  rw [Frame.mergeBars_eq_dedupSort hsame, Frame.dedupSort_rows, Frame.supplied_hasClosed hsame,
    hn.absent, if_neg Bool.false_ne_true, KeyedRows.mem_upsert_keepFirst] at hr
  obtain ⟨pre, post, hrows, -⟩ := hr
  have hmem : r ∈ (Frame.supplied current new).rows := by simp [hrows]
  cases current with
  | none => exact Or.inr hmem
  | some cur =>
      rw [Frame.supplied, (hsame cur rfl).concat_eq] at hmem
      exact (List.mem_append.mp hmem).imp_left fun h => ⟨cur, rfl, h⟩

theorem good_step {f g : LiveFeed F} {d : Delivery F} (hgood : Good u f)
    (hok : FinalizesForward u f d) (h : step u f d = some g) : Good u g := by
  obtain ⟨bars, hbars, hstep⟩ := Option.bind_eq_some_iff.mp h
  have hincoming : incoming u d = bars := by
    unfold incoming
    rw [hbars, Option.getD_some]
  rw [FinalizesForward, hincoming] at hok
  obtain ⟨hclosed, hprocess⟩ :=
    processPayload_of_accepted hbars (putInto u.cfg d.now) f.ingestor
  split_ifs at hstep with hall
  rw [hprocess] at hstep
  cases hstep
  have hlive : ∀ b ∈ bars, b.complete = false := fun b hb => by
    simpa using List.all_eq_true.mp hall b hb
  obtain ⟨hcached, hover⟩ := over_acceptBars hgood.cached hlive hok
  obtain ⟨hplain, hplainLive⟩ := plain_acceptBars hgood.plainLive hclosed
  obtain ⟨hcaches, hwritten⟩ :=
    ingestBars_written u.sorter (putInto u.cfg d.now) u.pair bars f.ingestor
  have hown : (ingestBars u.sorter (putInto u.cfg d.now) u.pair bars f.ingestor).2.live u.pair =
      (acceptBars (f.ingestor.live u.pair) bars).1 := by rw [hcaches, Function.update_self]
  have hstays : ∀ df, heldFrame u f = some df → df.Plain ∧
      ∀ r ∈ df.rows, Over (f.received ++ bars.map IncomingBar.row) r := fun df hdf =>
    ⟨hgood.plainFrame df hdf, fun r hr => (hgood.heldOver df hdf r hr).append _⟩
  have hframe : ∀ df,
      (ingestBars u.sorter (putInto u.cfg d.now) u.pair bars f.ingestor).2.store.ram.frameAt
        u.pair = some df →
      df.Plain ∧ ∀ r ∈ df.rows, Over (f.received ++ bars.map IncomingBar.row) r := by
    intro df hdf
    rcases hwritten with
      ⟨-, hstore⟩ | ⟨-, -, hstore⟩ | ⟨new, -, -, hfails⟩ | ⟨new, -, hnew, -, hstore⟩
    · rw [hstore] at hdf
      exact hstays df hdf
    · rw [hstore] at hdf
      exact hstays df hdf
    · cases hfails
    · have hrows := mem_barsPayloadToDf hnew
      have hnewPlain : new.Plain := by
        unfold barsPayloadToDf at hnew
        split_ifs at hnew
        cases hnew
        exact ⟨rfl, fun r hr => hplain r ((hrows r).mp hr)⟩
      rw [hstore] at hdf
      obtain rfl := RamLayer.frameAt_of_put u.cfg hdf
      have hread : ∀ cur, (f.ingestor.store.ram.get u.cfg d.now u.pair).1 = some cur →
          heldFrame u f = some cur := fun cur hcur => RamLayer.frameAt_of_get u.cfg hcur
      have hcur := fun cur h => hgood.plainFrame cur (hread cur h)
      refine ⟨Frame.plain_mergeBars hcur hnewPlain, fun r hr => ?_⟩
      rcases mem_rows_mergeBars hcur hnewPlain hr with ⟨cur, hcur, hr⟩ | hr
      · exact (hstays cur (hread cur hcur)).2 r hr
      · exact hover r ((hrows r).mp hr)
  exact
    { plainFrame := fun df hdf => (hframe df hdf).1
      plainLive := by
        change PlainLive ((ingestBars u.sorter _ u.pair bars f.ingestor).2.live u.pair)
        rw [hown]
        exact hplainLive
      cached := by
        change ((ingestBars u.sorter _ u.pair bars f.ingestor).2.live u.pair).live = _
        rw [hown]
        exact hcached
      heldOver := fun df hdf => (hframe df hdf).2 }

theorem good_start (disk redis : Key → Option (Frame F)) : Good u (start u disk redis) where
  plainFrame _ h := by cases h
  plainLive _ h := by cases h
  cached := rfl
  heldOver _ h := by cases h

/-- As long as live bars close earlier ones only, every row the store holds is over. -/
theorem held_rows_over {disk redis : Key → Option (Frame F)} {ds : List (Delivery F)}
    {f : LiveFeed F} (h : Run (step u) (FinalizesForward u) (start u disk redis) ds f) (t : ℤ)
    (r : Bar F) (hr : heldRow u f t = some r) : r.openTime = t ∧ Over f.received r := by
  have hgood := h.invariant (fun _ _ _ hg hok hst => good_step hg hok hst) (good_start disk redis)
  obtain ⟨df, hdf, hrow⟩ := Option.bind_eq_some_iff.mp hr
  exact ⟨KeyedRows.firstOf_key Bar.openTime hrow,
    hgood.heldOver df hdf r (KeyedRows.firstOf_mem Bar.openTime hrow)⟩

section FixedInputs

open SignedPackets WriteOrder

abbrev liveStart : LiveFeed ℤ := start goldFeed (fun _ => none) fun _ => none

theorem live_bar_over : ∃ f r, Run (step goldFeed) (FinalizesForward goldFeed) liveStart
      [delivery 0 false 60000 1, delivery 1 false 60000 2, delivery 2 false 120000 3] f ∧
    heldRow goldFeed f 60000 = some r ∧ r.openTime = 60000 ∧ Over f.received r := by
  obtain ⟨f, hrun, hp⟩ := Run.exists_of_checked (step goldFeed) (FinalizesForward goldFeed)
    liveStart [delivery 0 false 60000 1, delivery 1 false 60000 2, delivery 2 false 120000 3]
    (fun f => (heldRow goldFeed f 60000).isSome) (by decide +kernel)
  obtain ⟨r, hr⟩ := Option.isSome_iff_exists.mp hp
  exact ⟨f, r, hrun, hr, held_rows_over hrun 60000 r hr⟩

/-- A late live bar finalises the running one: its row is in the store although no bar with
a greater open time has been received. -/
theorem live_bar_not_over :
    ¬ ∀ (u : Setup ℤ) (disk redis : Key → Option (Frame ℤ)) (ds : List (Delivery ℤ))
      (f : LiveFeed ℤ), Run (step u) (fun _ _ => True) (start u disk redis) ds f →
      ∀ t r, heldRow u f t = some r → Over f.received r := by
  intro h
  obtain ⟨f, hrun, hp⟩ := Run.exists_of_checked (step goldFeed) (fun _ _ => True) liveStart
    [delivery 0 false 120000 1, delivery 1 false 60000 2]
    (fun f => decide ((heldRow goldFeed f 120000).map Bar.openTime = some 120000) &&
      decide (∀ q ∈ f.received, q.openTime ≤ 120000)) (by decide +kernel)
  rw [Bool.and_eq_true, decide_eq_true_eq, decide_eq_true_eq] at hp
  obtain ⟨r, hr, hrt⟩ := Option.map_eq_some_iff.mp hp.1
  obtain ⟨pre, later, post, hreceived, hlt, -⟩ := h _ _ _ _ _ hrun 120000 r hr
  have hle := hp.2 later (by simp [hreceived])
  omega

end FixedInputs

end SmcPipeline.LiveFinalisation
