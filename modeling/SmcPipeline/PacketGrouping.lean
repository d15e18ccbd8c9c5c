import SmcPipeline.ListenLoop
import SmcPipeline.LiveBars
import SmcPipeline.Upserts

/-!
# How bars are grouped into packets

Inside one packet the bars are collected, sorted and merged once; across packets each
group is merged into what the groups before it left. Both come to one upsert of all the
rows, because the merge chooses the row of an open time associatively and looks at the
order of rows of one open time only. The loop over the bars just goes on where the packet
before it stopped, so the live-bar caches do not see the cuts at all.
-/

namespace SmcPipeline.PacketGrouping

open FxcmIngestor StoreState Runs LiveBars ListenLoop KeyedRows SmcPipeline.Frame

variable {F : Type*}

/-- Which row of an open time `_dedup_sort` keeps. -/
def choice (hasClosed : Bool) : Option (Bar F) → Option (Bar F) → Option (Bar F) :=
  if hasClosed then later fun r => closedRank r.isClosed else Option.or

instance instIdentityChoice (hasClosed : Bool) :
    Std.LawfulIdentity (choice (F := F) hasClosed) none := by
  cases hasClosed with
  | false => exact instIdentityOr
  | true => exact instIdentityLater _

instance instAssociativeChoice (hasClosed : Bool) : Std.Associative (choice (F := F) hasClosed) := by
  cases hasClosed with
  | false => exact instAssociativeOr
  | true => exact instAssociativeLater _

/-- The rows of `_dedup_sort`. -/
def normalRows (hasClosed : Bool) (rows : List (Bar F)) : List (Bar F) :=
  (dedupSort ⟨hasClosed, rows⟩).rows

theorem upsert_normalRows (hasClosed : Bool) :
    Upsert (ρ := Bar F) Bar.openTime (choice hasClosed) (normalRows hasClosed) := by
  cases hasClosed with
  | false => exact upsert_keepFirst Bar.openTime
  | true => exact upsert_keepLast Bar.openTime fun r => closedRank r.isClosed

theorem dedupSort_eq (f : Frame F) : f.dedupSort = ⟨f.hasClosed, normalRows f.hasClosed f.rows⟩ := by
  obtain ⟨hasClosed, rows⟩ := f
  cases hasClosed <;> rfl

/-- What a merge finds of the frame that is held. -/
def baseOf (held : Option (Frame F)) : Frame F :=
  match held with
  | none => ⟨false, []⟩
  | some cur => if cur.isEmpty then ⟨false, []⟩ else ⟨cur.hasClosed, padClosed cur.hasClosed cur.rows⟩

/-- One upsert of the new rows. -/
def absorb (held : Option (Frame F)) (rows : List (Bar F)) : Frame F :=
  ⟨(baseOf held).hasClosed, normalRows (baseOf held).hasClosed ((baseOf held).rows ++ rows)⟩

/-- Neither the fast path nor the general path does more than one upsert. -/
theorem mergeBars_eq_absorb (held : Option (Frame F)) {rows : List (Bar F)} (hne : rows ≠ [])
    (hplain : ∀ r ∈ rows, r.isClosed = none) : mergeBars held ⟨false, rows⟩ = absorb held rows := by
  cases held with
  | none => exact dedupSort_eq _
  | some cur =>
      by_cases hempty : cur.isEmpty = true
      · simp only [mergeBars, absorb, baseOf, if_pos hempty]
        exact dedupSort_eq _
      · have hnew : (⟨false, rows⟩ : Frame F).isEmpty = false := by
          simpa [isEmpty] using hne
        have hcat : cur.concat ⟨false, rows⟩ =
            ⟨cur.hasClosed, padClosed cur.hasClosed cur.rows ++ rows⟩ := by
          simp only [concat, Bool.or_false, padClosed_false_eq hplain]
        have hfast : (cur.concat ⟨false, rows⟩).dedupSort = absorb (some cur) rows := by
          rw [hcat, dedupSort_eq]
          simp only [absorb, baseOf, if_neg hempty]
        have hgeneral : cur.mergeGeneral ⟨false, rows⟩ = absorb (some cur) rows := by
          rw [← hfast]
          unfold mergeGeneral
          simp only [hnew, Bool.false_eq_true, if_false]
          split_ifs with hclosed
          · -- the column is there, and the rows are upserted twice
            have hup : (cur.concat ⟨false, rows⟩).upsertClosed =
                (cur.concat ⟨false, rows⟩).dedupSort := by
              rw [dedupSort, if_pos hclosed]
            rw [hup, dedupSort_eq, dedupSort_eq, hclosed,
              (upsert_normalRows true).normal_normal]
          · rfl
        unfold mergeBars
        simp only [if_neg hempty]
        split
        · split_ifs
          · exact hfast
          · exact hgeneral
        · exact hgeneral

theorem absorb_ne_nil (held : Option (Frame F)) {rows : List (Bar F)} (hne : rows ≠ []) :
    (absorb held rows).rows ≠ [] := by
  obtain ⟨r, hr⟩ := List.exists_mem_of_ne_nil rows hne
  have hmem : r.openTime ∈ (absorb held rows).openTimes := by
    have hall : r.openTime ∈
        (⟨(baseOf held).hasClosed, (baseOf held).rows ++ rows⟩ : Frame F).openTimes :=
      List.mem_map_of_mem (List.mem_append_right _ hr)
    exact (mem_openTimes_dedupSort _ _).mpr hall
  intro hnil
  simp [openTimes, hnil] at hmem

/-- Without the column the cells it would have are missing. -/
theorem plain_baseOf {held : Option (Frame F)} (h : (baseOf held).hasClosed = false) :
    (baseOf held).Plain := by
  refine ⟨h, fun r hr => ?_⟩
  cases held with
  | none => cases hr
  | some cur =>
      by_cases hempty : cur.isEmpty = true
      · simp only [baseOf, if_pos hempty] at hr
        cases hr
      · simp only [baseOf, if_neg hempty] at h hr
        simp only [h, padClosed, Bool.false_eq_true, if_false, List.mem_map] at hr
        obtain ⟨q, -, rfl⟩ := hr
        rfl

/-- After a merge the next one starts from its rows. -/
theorem baseOf_absorb (held : Option (Frame F)) {rows : List (Bar F)} (hne : rows ≠ [])
    (hplain : ∀ r ∈ rows, r.isClosed = none) :
    baseOf (some (absorb held rows)) = absorb held rows := by
  have hempty : ¬ (absorb held rows).isEmpty = true := by
    simpa [isEmpty] using absorb_ne_nil held hne
  have hpad : padClosed (absorb held rows).hasClosed (absorb held rows).rows =
      (absorb held rows).rows := by
    cases hclosed : (baseOf held).hasClosed with
    | true => simp [absorb, hclosed, padClosed]
    | false =>
        have hcat : (⟨false, (baseOf held).rows ++ rows⟩ : Frame F).Plain := by
          refine ⟨rfl, fun r hr => ?_⟩
          rcases List.mem_append.mp hr with hr | hr
          · exact (plain_baseOf hclosed).cells r hr
          · exact hplain r hr
        have hcells := (plain_dedupSort hcat).cells
        rw [dedupSort_eq] at hcells
        simp only [absorb, hclosed]
        exact padClosed_false_eq hcells
  simp only [baseOf, if_neg hempty, hpad]

/-- Two sorted batches merged one after the other. -/
theorem absorb_absorb (held : Option (Frame F)) {first second : List (Bar F)}
    (hne : first ≠ []) (hplain : ∀ r ∈ first, r.isClosed = none) :
    absorb (some (absorb held (sortBy Bar.openTime first))) (sortBy Bar.openTime second) =
      absorb held (sortBy Bar.openTime (first ++ second)) := by
  have hsorted : sortBy Bar.openTime first ≠ [] := fun h =>
    hne ((h ▸ (sortBy_perm Bar.openTime first).symm).eq_nil)
  have hbase := baseOf_absorb held hsorted fun r hr => hplain r ((mem_sortBy Bar.openTime).mp hr)
  unfold absorb at hbase ⊢
  rw [hbase]
  exact congrArg (Frame.mk (baseOf held).hasClosed) ((upsert_normalRows _).append_batches _ _ _)

variable (u : Setup F)

/-- A whole call of `put_bars` in which Redis and the disk do their part. -/
def putBarsCall (cfg : StoreConfig F) (now : ℚ) (pair : Key) (df : Frame F) (s : StoreState F) :
    StoreState F × Bool :=
  if df.isEmpty then (s, true)
  else
    let merged := s.mergeIntoRam cfg now pair df
    let published := merged.2.publishLast pair merged.1
    (if cfg.writeBehind then published.registerFlush .putBars pair merged.1
      else { published with wb := published.wb.saveDirect pair merged.1 }, true)

/-- One packet. -/
def feed (s : IngestorState F (StoreState F)) (d : Delivery F) : IngestorState F (StoreState F) :=
  (processPayload u.env u.sorter (putBarsCall u.cfg d.now) u.hmac u.allowedPairs d.packet s).2

def step (s : IngestorState F (StoreState F)) (d : Delivery F) :
    Option (IngestorState F (StoreState F)) := some (feed u s d)

/-- The packet is let in, its bars are valid, and the pair is neither evicted nor expired. -/
def Undisturbed (s : IngestorState F (StoreState F)) (d : Delivery F) : Prop :=
  (accepted u d.packet).isSome = true ∧ (∀ b ∈ incoming u d, InRange b.row) ∧
    (feed u s d).store.ram.removalsOf u.pair = s.store.ram.removalsOf u.pair

/-- The cached live bar is a valid one. -/
def ValidCache (cache : LivePair F) : Prop :=
  ∀ r, cache.live = some r → r.isClosed = none ∧ InRange r

def frameOf (s : IngestorState F (StoreState F)) : Option (Frame F) := s.store.ram.frameAt u.pair

/-- The rows that a run of bars sends to the store. -/
def rowsOf (cache : LivePair F) (bars : List (IncomingBar F)) : List (Bar F) :=
  (acceptBars cache bars).2.map Prod.fst

/-- What is held and what Redis has for the pair once these rows have been written. -/
def heldAfter (held : Option (Frame F)) (rows : List (Bar F)) : Option (Frame F) :=
  if rows.isEmpty then held else some (absorb held (sortBy Bar.openTime rows))

def lastAfter (last held : Option (Frame F)) (rows : List (Bar F)) : Option (Frame F) :=
  if rows.isEmpty then last else (absorb held (sortBy Bar.openTime rows)).lastBar

/-- `t` is the state `s` becomes when these bars come in, however they are grouped. -/
structure Fed (s t : IngestorState F (StoreState F)) (bars : List (IncomingBar F)) : Prop where
  live : t.live = Function.update s.live u.pair (acceptBars (s.live u.pair) bars).1
  held : frameOf u t = heldAfter (frameOf u s) (rowsOf (s.live u.pair) bars)
  last : t.store.redis u.pair =
    lastAfter (s.store.redis u.pair) (frameOf u s) (rowsOf (s.live u.pair) bars)

variable {u}

/-- The loop over the bars goes on where it stopped. -/
theorem acceptBars_append (cache : LivePair F) (first second : List (IncomingBar F)) :
    acceptBars cache (first ++ second) =
      ((acceptBars (acceptBars cache first).1 second).1,
        (acceptBars cache first).2 ++ (acceptBars (acceptBars cache first).1 second).2) := by
  induction first generalizing cache with
  | nil => rfl
  | cons b first ih => simp only [List.cons_append, acceptBars, ih, List.append_assoc]

theorem rowsOf_append (cache : LivePair F) (first second : List (IncomingBar F)) :
    rowsOf cache (first ++ second) =
      rowsOf cache first ++ rowsOf (acceptBars cache first).1 second := by
  simp only [rowsOf, acceptBars_append, List.map_append]

theorem heldAfter_append (held : Option (Frame F)) {first second : List (Bar F)}
    (hplain : ∀ r ∈ first, r.isClosed = none) :
    heldAfter (heldAfter held first) second = heldAfter held (first ++ second) := by
  cases first with
  | nil => rfl
  | cons r first =>
      cases second with
      | nil => simp [heldAfter]
      | cons q second =>
          simp only [heldAfter, List.isEmpty_cons, List.cons_append, Bool.false_eq_true, if_false]
          rw [absorb_absorb held (List.cons_ne_nil r first) hplain, List.cons_append]

theorem lastAfter_append (last held : Option (Frame F)) {first second : List (Bar F)}
    (hplain : ∀ r ∈ first, r.isClosed = none) :
    lastAfter (lastAfter last held first) (heldAfter held first) second =
      lastAfter last held (first ++ second) := by
  cases first with
  | nil => rfl
  | cons r first =>
      cases second with
      | nil => simp [lastAfter]
      | cons q second =>
          simp only [lastAfter, heldAfter, List.isEmpty_cons, List.cons_append, Bool.false_eq_true,
            if_false]
          rw [absorb_absorb held (List.cons_ne_nil r first) hplain, List.cons_append]

theorem valid_acceptBars {cache : LivePair F} {bars : List (IncomingBar F)}
    (hc : ValidCache cache) (hb : ∀ b ∈ bars, b.row.isClosed = none ∧ InRange b.row) :
    (∀ r ∈ rowsOf cache bars, r.isClosed = none ∧ InRange r) ∧
      ValidCache (acceptBars cache bars).1 := forall_acceptBars hc hb

/-- A call of `put_bars` that removes nothing of the pair. -/
theorem putBarsCall_spec {cfg : StoreConfig F} {now : ℚ} {pair : Key} {rows : List (Bar F)}
    (hne : rows ≠ []) (hplain : ∀ r ∈ rows, r.isClosed = none) (s : StoreState F)
    (hsame : (putBarsCall cfg now pair ⟨false, rows⟩ s).1.ram.removalsOf pair =
      s.ram.removalsOf pair) :
    (putBarsCall cfg now pair ⟨false, rows⟩ s).1.ram.frameAt pair =
        some (absorb (s.ram.frameAt pair) rows) ∧
      (putBarsCall cfg now pair ⟨false, rows⟩ s).1.redis pair =
        (absorb (s.ram.frameAt pair) rows).lastBar := by
  have hdf : (⟨false, rows⟩ : Frame F).isEmpty = false := by simpa [isEmpty] using hne
  have hram : (putBarsCall cfg now pair ⟨false, rows⟩ s).1.ram =
      (s.mergeIntoRam cfg now pair ⟨false, rows⟩).2.ram := by
    unfold putBarsCall publishLast registerFlush
    simp only [hdf, Bool.false_eq_true, if_false]
    split_ifs <;> split <;> rfl
  rw [hram] at hsame ⊢
  have hget := RamLayer.get_eq_frameAt cfg (RamLayer.removalsOf_get_of_put cfg hsame)
  have hmerged : (s.mergeIntoRam cfg now pair ⟨false, rows⟩).1 =
      absorb (s.ram.frameAt pair) rows := by
    rw [← mergeBars_eq_absorb _ hne hplain, ← hget]
    rfl
  constructor
  · have hput := RamLayer.frameAt_get_put cfg hsame
    rw [if_pos rfl] at hput
    rw [← hmerged]
    exact hput
  · have hlast : (absorb (s.ram.frameAt pair) rows).lastBar =
        some ((absorb (s.ram.frameAt pair) rows).tail 1) :=
      if_neg (by simpa [isEmpty] using absorb_ne_nil (s.ram.frameAt pair) hne)
    unfold putBarsCall publishLast registerFlush
    simp only [hdf, Bool.false_eq_true, if_false, hmerged, hlast]
    split_ifs <;> exact Function.update_self _ _ _

/-- The loop over valid bars, and the write if there is anything to write. -/
theorem ingestBars_spec (sorter : OpenTimeSort F) {σ : Type*} (put : Key → Frame F → σ → σ × Bool)
    (pair : Key) {bars : List (IncomingBar F)} (st : IngestorState F σ)
    (hrange : ∀ r ∈ rowsOf (st.live pair) bars, InRange r) :
    (ingestBars sorter put pair bars st).2.live =
        Function.update st.live pair (acceptBars (st.live pair) bars).1 ∧
      (ingestBars sorter put pair bars st).2.store =
        if (rowsOf (st.live pair) bars).isEmpty then st.store
        else (put pair ⟨false, sorter.sort (rowsOf (st.live pair) bars)⟩ st.store).1 := by
  have hfits : (rowsOf (st.live pair) bars).all
      (fun r => inInt64 r.openTime && inInt64 r.closeTime) = true := by
    rw [List.all_eq_true]
    exact fun r hr => by simpa [InRange] using hrange r hr
  unfold ingestBars
  dsimp only
  rw [← rowsOf]
  split_ifs with hempty
  · exact ⟨rfl, rfl⟩
  · rw [barsPayloadToDf, if_pos hfits]
    dsimp only
    generalize put pair ⟨false, sorter.sort (rowsOf (st.live pair) bars)⟩ st.store = written
    obtain ⟨store, _ | _⟩ := written
    · exact ⟨rfl, rfl⟩
    · exact ⟨rfl, rfl⟩

/-- One packet brings its bars. -/
theorem fed_feed (hstable : ∀ rows, u.sorter.sort rows = sortBy Bar.openTime rows)
    {s : IngestorState F (StoreState F)} {d : Delivery F} (hcache : ValidCache (s.live u.pair))
    (hd : Undisturbed u s d) :
    Fed u s (feed u s d) (incoming u d) ∧ ValidCache ((feed u s d).live u.pair) ∧
      ∀ r ∈ rowsOf (s.live u.pair) (incoming u d), r.isClosed = none := by
  obtain ⟨haccepted, hrange, hsame⟩ := hd
  obtain ⟨bars, hbars⟩ := Option.isSome_iff_exists.mp haccepted
  obtain ⟨hclosed, hprocess⟩ := processPayload_of_accepted hbars (putBarsCall u.cfg d.now) s
  have hincoming : incoming u d = bars := by
    unfold incoming
    rw [hbars, Option.getD_some]
  rw [hincoming] at hrange ⊢
  obtain ⟨hrows, hnext⟩ := valid_acceptBars hcache fun b hb => ⟨hclosed b hb, hrange b hb⟩
  have hfeed : feed u s d = (ingestBars u.sorter (putBarsCall u.cfg d.now) u.pair bars s).2 := by
    unfold feed
    rw [hprocess]
  obtain ⟨hlive, hstore⟩ := ingestBars_spec u.sorter (putBarsCall u.cfg d.now) u.pair s
    fun r hr => (hrows r hr).2
  rw [← hfeed] at hlive hstore
  rw [hstable] at hstore
  have hcells := fun r hr => (hrows r hr).1
  have hafter : ValidCache ((feed u s d).live u.pair) := by
    rw [hlive, Function.update_self]
    exact hnext
  refine ⟨?_, hafter, hcells⟩
  by_cases hempty : (rowsOf (s.live u.pair) bars).isEmpty = true
  · rw [if_pos hempty] at hstore
    refine ⟨hlive, ?_, ?_⟩
    · rw [heldAfter, if_pos hempty, frameOf, hstore, frameOf]
    · rw [lastAfter, if_pos hempty, hstore]
  · rw [if_neg hempty] at hstore
    have hne : sortBy Bar.openTime (rowsOf (s.live u.pair) bars) ≠ [] := fun h =>
      hempty (List.isEmpty_iff.mpr (h ▸ (sortBy_perm Bar.openTime _).symm).eq_nil)
    rw [hstore] at hsame
    obtain ⟨hframe, hlast⟩ := putBarsCall_spec hne
      (fun r hr => hcells r ((mem_sortBy Bar.openTime).mp hr)) s.store hsame
    refine ⟨hlive, ?_, ?_⟩
    · rw [heldAfter, if_neg hempty, frameOf, hstore, hframe, frameOf]
    · rw [lastAfter, if_neg hempty, hstore, hlast, frameOf]

/-- A run brings the bars of its packets, in their order. -/
theorem fed_run (hstable : ∀ rows, u.sorter.sort rows = sortBy Bar.openTime rows)
    {s t : IngestorState F (StoreState F)} {ds : List (Delivery F)}
    (h : Run (step u) (Undisturbed u) s ds t) (hcache : ValidCache (s.live u.pair)) :
    Fed u s t (ds.flatMap (incoming u)) := by
  induction h with
  | nil s =>
      exact ⟨(Function.update_eq_self _ _).symm, rfl, rfl⟩
  | @cons s t' t d ds hd hst _ ih =>
      cases hst
      obtain ⟨hfed, hnext, hrows⟩ := fed_feed hstable hcache hd
      have hrest := ih hnext
      have hlive : (feed u s d).live u.pair = (acceptBars (s.live u.pair) (incoming u d)).1 := by
        rw [hfed.live, Function.update_self]
      rw [List.flatMap_cons]
      refine ⟨?_, ?_, ?_⟩
      · rw [hrest.live, hlive, hfed.live, Function.update_idem, acceptBars_append]
      · rw [hrest.held, hlive, hfed.held, rowsOf_append, heldAfter_append _ hrows]
      · rw [hrest.last, hlive, hfed.held, hfed.last, rowsOf_append, lastAfter_append _ _ hrows]

/-- Two ways to group the same bars into packets end with the same frame, the same last
bar in Redis and the same live-bar caches. -/
theorem grouping_does_not_matter
    (hstable : ∀ rows, u.sorter.sort rows = sortBy Bar.openTime rows)
    {s f g : IngestorState F (StoreState F)} {ps qs : List (Delivery F)}
    (hcache : ValidCache (s.live u.pair))
    (hbars : ps.flatMap (incoming u) = qs.flatMap (incoming u))
    (hf : Run (step u) (Undisturbed u) s ps f) (hg : Run (step u) (Undisturbed u) s qs g) :
    frameOf u f = frameOf u g ∧ f.store.redis u.pair = g.store.redis u.pair ∧ f.live = g.live := by
  have hps := fed_run hstable hf hcache
  have hqs := fed_run hstable hg hcache
  rw [hbars] at hps
  exact ⟨hps.held.trans hqs.held.symm, hps.last.trans hqs.last.symm, hps.live.trans hqs.live.symm⟩

section FixedInputs

open SignedPackets WriteOrder

instance (row : Bar F) : Decidable (InRange row) := inferInstanceAs (Decidable (_ ∧ _))

instance (u : Setup F) (s : IngestorState F (StoreState F)) (d : Delivery F) :
    Decidable (Undisturbed u s d) :=
  inferInstanceAs (Decidable (_ ∧ (∀ b ∈ incoming u d, InRange b.row) ∧ _))

/-- A packet of several bars: whether complete, open time and price. -/
def packetOf (now : ℚ) (bars : List (Bool × ℤ × ℤ)) : Delivery ℤ where
  now := now
  packet :=
    { status := ⟨some "open", some "ok", some "ok"⟩
      payload := [("symbol", .str "xauusd"), ("tf", .str "1m"),
        ("bars", .arr (bars.map fun b => jsonBar b.1 b.2.1 b.2.2))] }

def emptyFeed : IngestorState ℤ (StoreState ℤ) := emptyState blank

/-- Two live bars and the complete bar of the first, in one packet and in three. -/
theorem grouping_of_three_bars :
    ∃ f g, Run (step goldFeed) (Undisturbed goldFeed) emptyFeed
        [packetOf 0 [(false, 60000, 1), (false, 120000, 3), (true, 60000, 2)]] f ∧
      Run (step goldFeed) (Undisturbed goldFeed) emptyFeed
        [packetOf 1 [(false, 60000, 1)], packetOf 2 [(false, 120000, 3)],
          packetOf 3 [(true, 60000, 2)]] g ∧
      frameOf goldFeed f = frameOf goldFeed g ∧
      f.store.redis goldFeed.pair = g.store.redis goldFeed.pair ∧ f.live = g.live := by
  obtain ⟨f, hf, -⟩ := Run.exists_of_checked (step goldFeed) (Undisturbed goldFeed) emptyFeed
    [packetOf 0 [(false, 60000, 1), (false, 120000, 3), (true, 60000, 2)]]
    (fun f => (frameOf goldFeed f).isSome) (by decide +kernel)
  obtain ⟨g, hg, -⟩ := Run.exists_of_checked (step goldFeed) (Undisturbed goldFeed) emptyFeed
    [packetOf 1 [(false, 60000, 1)], packetOf 2 [(false, 120000, 3)], packetOf 3 [(true, 60000, 2)]]
    (fun f => (frameOf goldFeed f).isSome) (by decide +kernel)
  have hcache : ValidCache (emptyFeed.live goldFeed.pair) := fun r hr => by cases hr
  exact ⟨f, g, hf, hg, grouping_does_not_matter (fun _ => rfl) hcache (by rfl) hf hg⟩

end FixedInputs

end SmcPipeline.PacketGrouping
