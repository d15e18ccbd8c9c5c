import SmcPipeline.EventHistory
import SmcPipeline.Upserts
import Mathlib.Data.Rat.Floor

/-!
# What the memory of events returns

Every update of a bucket prunes it for good. With a cut that does not fall back and one
event for each time, an event that was pruned could not have been returned later anyway,
unless it is supplied again: the history of a key is what is left of all the events ever
supplied for it, as if nothing had been pruned before.
-/

namespace SmcPipeline.MemorySpec

open EventHistory KeyedRows

variable {K : Type*}

/-- One call of `update_history`. -/
structure Call (K : Type*) where
  symbol : String
  timeframe : String
  events : List (StructureEvent K)
  snapshotEndTs : Option ℤ
  utcnow : ℤ

/-- `snapshot_end_ts or pd.Timestamp.utcnow()` -/
def Call.now (c : Call K) : ℤ := c.snapshotEndTs.getD c.utcnow

section

variable (lower : String → String)

def Call.key (c : Call K) : String × String := storeKey lower c.symbol c.timeframe

/-- The events ever supplied for a key, in the order in which they came. -/
def suppliedTo (key : String × String) (calls : List (Call K)) : List (StructureEvent K) :=
  (calls.filter fun c => decide (c.key lower = key)).flatMap Call.events

end

section

variable [Field K] [LinearOrder K] [FloorRing K] (lower : String → String)
  (retentionMinutes maxEntries : ℤ)

/-- What a call returns and the store it leaves. -/
def apply (store : Store K) (c : Call K) : List (StructureEvent K) × Store K :=
  updateHistory lower store c.symbol c.timeframe c.events c.snapshotEndTs c.utcnow
    retentionMinutes maxEntries

/-- The store after some calls, all with the same retention and size. -/
def runCalls (calls : List (Call K)) : Store K :=
  calls.foldl (fun store c => (apply lower retentionMinutes maxEntries store c).2) OrderedDict.empty

/-- The latest `max_entries` of the distinct events that are young enough, each
represented by the object supplied last, in the order of their times. -/
def latestEvents (now : ℤ) (supplied : List (StructureEvent K)) : List (StructureEvent K) :=
  latest maxEntries.toNat (upFrom StructureEvent.time (now - retentionMinutes * 60000)
    (sortBy StructureEvent.time (keepLast eventKey supplied)))

/-- Different events have different times. -/
def DistinctTimes (supplied : List (StructureEvent K)) : Prop :=
  ∀ e ∈ supplied, ∀ e' ∈ supplied, e.time = e'.time → eventKey e = eventKey e'

instance (supplied : List (StructureEvent K)) : Decidable (DistinctTimes supplied) :=
  inferInstanceAs (Decidable (∀ _ ∈ _, ∀ _ ∈ _, _ → _))

/-- The events of a key with the last of each time, in the order of the times. -/
def timeline (supplied : List (StructureEvent K)) : List (StructureEvent K) :=
  sortBy StructureEvent.time (keepLast StructureEvent.time supplied)

omit [Field K] [LinearOrder K] [FloorRing K] in
theorem upsert_timeline :
    Upsert (ρ := StructureEvent K) StructureEvent.time latter timeline := upsert_lastWins _

theorem keepLast_congr {ρ κ κ' : Type*} [DecidableEq κ] [DecidableEq κ'] {key : ρ → κ}
    {key' : ρ → κ'} {rows : List ρ}
    (h : ∀ a ∈ rows, ∀ b ∈ rows, key a = key b ↔ key' a = key' b) :
    keepLast key rows = keepLast key' rows := by
  induction rows with
  | nil => rfl
  | cons r rows ih =>
      have hmem : key r ∈ rows.map key ↔ key' r ∈ rows.map key' := by
        simp only [List.mem_map]
        refine exists_congr fun q => and_congr_right fun hq => ?_
        exact h q (List.mem_cons_of_mem r hq) r List.mem_cons_self
      have hrest := ih fun a ha b hb =>
        h a (List.mem_cons_of_mem r ha) b (List.mem_cons_of_mem r hb)
      simp only [keepLast, hmem, hrest]

/-- With distinct times the events of a key are those of its timeline. -/
theorem latestEvents_eq {now : ℤ} {supplied : List (StructureEvent K)}
    (h : DistinctTimes supplied) :
    latestEvents retentionMinutes maxEntries now supplied =
      latest maxEntries.toNat (upFrom StructureEvent.time (now - retentionMinutes * 60000)
        (timeline supplied)) := by
  have hkeys : keepLast eventKey supplied = keepLast StructureEvent.time supplied :=
    keepLast_congr fun a ha b hb => ⟨fun hab => congrArg EventKey.time hab, h a ha b hb⟩
  rw [latestEvents, hkeys, timeline]

theorem events_nodup (bucket : Bucket K) : (bucket.events.map eventKey).Nodup := by
  have hkeys : bucket.events.map eventKey = bucket.tracked.items.map Prod.fst := by
    unfold Bucket.events
    rw [List.map_map]
    exact List.map_congr_left fun p hp => (bucket.keyed p hp).symm
  rw [hkeys]
  exact bucket.tracked.nodup

/-- Tracking events keeps the last object of each key. -/
theorem mem_foldl_track (now : ℤ) (new : List (StructureEvent K)) (bucket : Bucket K)
    (e : StructureEvent K) :
    e ∈ (new.foldl (Bucket.track now) bucket).events ↔
      lastOf eventKey (eventKey e) (bucket.events ++ new) = some e := by
  induction new generalizing bucket with
  | nil =>
      rw [List.foldl_nil, List.append_nil, lastOf, pickAt_of_nodup _ _ (events_nodup bucket),
        firstOf_eq_some_iff eventKey (events_nodup bucket)]
      exact (and_iff_left rfl).symm
  | cons a new ih =>
      rw [List.foldl_cons, ih, List.append_cons bucket.events a new]
      have hstep : lastOf eventKey (eventKey e) (Bucket.track now bucket a).events =
          lastOf eventKey (eventKey e) (bucket.events ++ [a]) := by
        unfold lastOf
        rw [pickAt_append, pickAt_of_nodup _ _ (events_nodup _), pickAt_of_nodup _ _ (events_nodup _)]
        by_cases hkey : eventKey a = eventKey e
        · have hlast : pickAt eventKey latter (eventKey e) [a] = some a := if_pos hkey
          rw [hlast, latter, Option.some_or, firstOf_eq_some_iff eventKey (events_nodup _)]
          exact ⟨Bucket.mem_events_track.mpr (Or.inl rfl), hkey⟩
        · have hlast : pickAt eventKey latter (eventKey e) [a] = none := if_neg hkey
          rw [hlast, latter, Option.none_or]
          refine Option.ext fun r => ?_
          rw [firstOf_eq_some_iff eventKey (events_nodup _),
            firstOf_eq_some_iff eventKey (events_nodup _), Bucket.mem_events_track]
          constructor
          · rintro ⟨rfl | ⟨-, hr⟩, hk⟩
            · exact absurd hk hkey
            · exact ⟨hr, hk⟩
          · rintro ⟨hr, hk⟩
            exact ⟨Or.inr ⟨fun h => hkey (h.symm.trans hk), hr⟩, hk⟩
      unfold lastOf at hstep ⊢
      rw [pickAt_append, hstep, pickAt_append eventKey latter _ (bucket.events ++ [a])]

/-- The events of a bucket before it is pruned. -/
theorem foldl_track_perm (now : ℤ) (new : List (StructureEvent K)) (bucket : Bucket K) :
    (new.foldl (Bucket.track now) bucket).events.Perm (keepLast eventKey (bucket.events ++ new)) := by
  refine (List.perm_ext_iff_of_nodup (events_nodup _).of_map
    (keepLast_nodup eventKey _).of_map).mpr fun e => ?_
  rw [mem_foldl_track, ← firstOf_keepLast,
    firstOf_eq_some_iff eventKey (keepLast_nodup eventKey _), and_iff_left rfl]

omit [Field K] [LinearOrder K] [FloorRing K] in
/-- Pruning, seen on the events. -/
theorem pruneItems_events {now : ℤ} (hret : 0 < retentionMinutes) (hmax : 0 < maxEntries)
    (items : Items K) :
    (pruneItems now retentionMinutes maxEntries items).map (fun p => p.2.event) =
      latest maxEntries.toNat (sortBy StructureEvent.time
        (upFrom StructureEvent.time (now - retentionMinutes * 60000)
          (items.map fun p => p.2.event))) := by
  have hnewest : ∀ l : Items K, newest maxEntries l = l.drop (l.length - maxEntries.toNat) := by
    intro l
    unfold newest
    split_ifs with h
    · rfl
    · have hle : l.length - maxEntries.toNat = 0 := by omega
      rw [hle, List.drop_zero]
  have hsort : ∀ l : Items K, (sortBy (fun p => p.2.event.time) l).map (fun p => p.2.event) =
      sortBy StructureEvent.time (l.map fun p => p.2.event) := fun l =>
    List.map_insertionSort _ _ _ _ fun _ _ _ _ => Iff.rfl
  have hcut : (retained now retentionMinutes items).map (fun p => p.2.event) =
      upFrom StructureEvent.time (now - retentionMinutes * 60000)
        (items.map fun p => p.2.event) := by
    rw [retained, if_pos hret, upFrom, List.filter_map]
    rfl
  rw [pruneItems, hnewest, List.map_drop, hsort, hcut, latest, ← hcut, ← hsort, List.length_map]

theorem DistinctTimes.nodup {supplied : List (StructureEvent K)} (h : DistinctTimes supplied) :
    ((keepLast eventKey supplied).map StructureEvent.time).Nodup := by
  refine List.Nodup.map_on (fun a ha b hb hab => ?_) (keepLast_nodup eventKey supplied).of_map
  have hkey := h a ((keepLast_sublist eventKey _).subset ha) b
    ((keepLast_sublist eventKey _).subset hb) hab
  exact List.inj_on_of_nodup_map (keepLast_nodup eventKey supplied) ha hb hkey

/-- An update of a bucket. -/
theorem events_update {now : ℤ} (hret : 0 < retentionMinutes) (hmax : 0 < maxEntries)
    (new : List (StructureEvent K)) (bucket : Bucket K)
    (h : DistinctTimes (bucket.events ++ new)) :
    (bucket.update new now retentionMinutes maxEntries).events =
      latestEvents retentionMinutes maxEntries now (bucket.events ++ new) := by
  have hperm := foldl_track_perm now new bucket
  have hnodup : ((new.foldl (Bucket.track now) bucket).events.map StructureEvent.time).Nodup :=
    (hperm.map StructureEvent.time).nodup_iff.mpr h.nodup
  refine (pruneItems_events retentionMinutes maxEntries hret hmax _).trans
    (congrArg (latest maxEntries.toNat) ?_)
  refine eq_of_perm StructureEvent.time ?_ ?_ ?_
  · apply increasing_of_nodup StructureEvent.time (sortBy_pairwise StructureEvent.time _)
    exact ((sortBy_perm StructureEvent.time _).map _).nodup_iff.mpr
      (hnodup.sublist (List.filter_sublist.map _))
  · refine (increasing_of_nodup StructureEvent.time
      (sortBy_pairwise StructureEvent.time _) ?_).sublist List.filter_sublist
    exact ((sortBy_perm StructureEvent.time _).map _).nodup_iff.mpr h.nodup
  · exact (sortBy_perm StructureEvent.time _).trans
      ((hperm.trans (sortBy_perm StructureEvent.time _).symm).filter _)

omit [Field K] [LinearOrder K] [FloorRing K] in
theorem suppliedTo_concat (key : String × String) (calls : List (Call K)) (c : Call K) :
    suppliedTo lower key (calls ++ [c]) =
      suppliedTo lower key calls ++ if c.key lower = key then c.events else [] := by
  unfold suppliedTo
  rw [List.filter_append, List.flatMap_append]
  congr 1
  by_cases h : c.key lower = key
  · simp [h]
  · simp [h]

theorem latestEvents_subset (now : ℤ) (supplied : List (StructureEvent K)) :
    latestEvents retentionMinutes maxEntries now supplied ⊆ supplied := fun _ he =>
  (keepLast_sublist eventKey supplied).subset ((mem_sortBy StructureEvent.time).mp
    (List.mem_of_mem_filter ((List.drop_sublist _ _).subset he)))

/-- Pruned before or not, the same events are left after more have been supplied. -/
theorem latestEvents_append {n now : ℤ} (hn : n ≤ now) {supplied new : List (StructureEvent K)}
    (h : DistinctTimes (supplied ++ new)) :
    latestEvents retentionMinutes maxEntries now
        (latestEvents retentionMinutes maxEntries n supplied ++ new) =
      latestEvents retentionMinutes maxEntries now (supplied ++ new) := by
  have hleft : DistinctTimes supplied := fun a ha b hb =>
    h a (List.mem_append_left new ha) b (List.mem_append_left new hb)
  have hboth : DistinctTimes (latestEvents retentionMinutes maxEntries n supplied ++ new) := by
    have hsub : latestEvents retentionMinutes maxEntries n supplied ++ new ⊆ supplied ++ new :=
      List.append_subset.mpr ⟨List.subset_append_of_subset_left new
        (latestEvents_subset retentionMinutes maxEntries n supplied), List.subset_append_right _ _⟩
    exact fun a ha b hb => h a (hsub ha) b (hsub hb)
  rw [latestEvents_eq retentionMinutes maxEntries hboth,
    latestEvents_eq retentionMinutes maxEntries hleft,
    latestEvents_eq retentionMinutes maxEntries h,
    upsert_timeline.latest_upFrom_append (upsert_timeline.increasing supplied) new _
      (by omega : n - retentionMinutes * 60000 ≤ now - retentionMinutes * 60000),
    upsert_timeline.normal_append]

/-- The bucket of a key in a store, empty where there is none. -/
def bucketAt (store : Store K) (key : String × String) : Bucket K :=
  (store.get? key).getD Bucket.empty

theorem bucketAt_apply (store : Store K) (c : Call K) (key : String × String) :
    bucketAt (apply lower retentionMinutes maxEntries store c).2 key =
      if key = c.key lower then
        (bucketAt store (c.key lower)).update c.events c.now retentionMinutes maxEntries
      else bucketAt store key := by
  unfold bucketAt apply updateHistory
  rw [OrderedDict.get?_set]
  split_ifs with h h' h'
  · rfl
  · exact absurd h h'
  · exact absurd h' h
  · rfl

/-- One more call for the key of a history that is what it should be. -/
theorem events_call (hret : 0 < retentionMinutes) (hmax : 0 < maxEntries) {bucket : Bucket K}
    {supplied : List (StructureEvent K)} {n : ℤ} {c : Call K} (hn : n ≤ c.now)
    (hbucket : bucket.events = latestEvents retentionMinutes maxEntries n supplied)
    (hdistinct : DistinctTimes (supplied ++ c.events)) :
    (bucket.update c.events c.now retentionMinutes maxEntries).events =
      latestEvents retentionMinutes maxEntries c.now (supplied ++ c.events) := by
  have hsub : bucket.events ++ c.events ⊆ supplied ++ c.events := by
    rw [hbucket]
    exact List.append_subset.mpr ⟨List.subset_append_of_subset_left _
      (latestEvents_subset retentionMinutes maxEntries n supplied), List.subset_append_right _ _⟩
  rw [events_update retentionMinutes maxEntries hret hmax c.events bucket
      fun a ha b hb => hdistinct a (hsub ha) b (hsub hb), hbucket,
    latestEvents_append retentionMinutes maxEntries hn hdistinct]

/-- The history of a key is what is left of all that was supplied for it. -/
theorem events_runCalls (hret : 0 < retentionMinutes) (hmax : 0 < maxEntries)
    (key : String × String) (calls : List (Call K))
    (hmono : calls.Pairwise fun a b => a.key lower = b.key lower → a.now ≤ b.now)
    (hdistinct : DistinctTimes (suppliedTo lower key calls)) (now : ℤ)
    (hnow : ∀ c ∈ calls, c.key lower = key → c.now ≤ now) :
    ∃ n ≤ now, (bucketAt (runCalls lower retentionMinutes maxEntries calls) key).events =
      latestEvents retentionMinutes maxEntries n (suppliedTo lower key calls) := by
  induction calls using List.reverseRecOn generalizing now with
  | nil =>
      refine ⟨now, le_rfl, ?_⟩
      have hnil : latestEvents retentionMinutes maxEntries now ([] : List (StructureEvent K)) = [] :=
        List.eq_nil_of_subset_nil (latestEvents_subset retentionMinutes maxEntries now [])
      exact hnil.symm
  | append_singleton calls c ih =>
      rw [List.pairwise_append] at hmono
      obtain ⟨hcalls, -, hlast⟩ := hmono
      rw [suppliedTo_concat] at hdistinct ⊢
      have hold : DistinctTimes (suppliedTo lower key calls) := fun a ha b hb =>
        hdistinct a (List.mem_append_left _ ha) b (List.mem_append_left _ hb)
      rw [runCalls, List.foldl_concat, ← runCalls, bucketAt_apply]
      by_cases hkey : c.key lower = key
      · obtain ⟨n, hn, hbucket⟩ := ih hcalls hold c.now fun a ha hak =>
          hlast a ha c (List.mem_singleton_self c) (hak.trans hkey.symm)
        rw [if_pos hkey] at hdistinct ⊢
        rw [if_pos hkey.symm, hkey]
        exact ⟨c.now, hnow c (by simp) hkey,
          events_call retentionMinutes maxEntries hret hmax hn hbucket hdistinct⟩
      · obtain ⟨n, hn, hbucket⟩ := ih hcalls hold now fun a ha =>
          hnow a (List.mem_append_left _ ha)
        rw [if_neg hkey, List.append_nil, if_neg (Ne.symm hkey)]
        exact ⟨n, hn, hbucket⟩

/-- After each call of `update_history` the history returned consists of the latest of the
distinct events that are young enough, and that of every other key is as it was. -/
theorem returned_are_latest (hret : 0 < retentionMinutes) (hmax : 0 < maxEntries)
    {past : List (Call K)} {c : Call K}
    (hmono : (past ++ [c]).Pairwise fun a b => a.key lower = b.key lower → a.now ≤ b.now)
    (hdistinct : DistinctTimes (suppliedTo lower (c.key lower) (past ++ [c]))) :
    (apply lower retentionMinutes maxEntries (runCalls lower retentionMinutes maxEntries past) c).1 =
        latestEvents retentionMinutes maxEntries c.now
          (suppliedTo lower (c.key lower) (past ++ [c])) ∧
      ∀ key ≠ c.key lower,
        bucketAt (runCalls lower retentionMinutes maxEntries (past ++ [c])) key =
          bucketAt (runCalls lower retentionMinutes maxEntries past) key := by
  rw [List.pairwise_append] at hmono
  obtain ⟨hpast, -, hlast⟩ := hmono
  rw [suppliedTo_concat, if_pos rfl] at hdistinct ⊢
  obtain ⟨n, hn, hbucket⟩ := events_runCalls lower retentionMinutes maxEntries hret hmax
    (c.key lower) past hpast
    (fun a ha b hb => hdistinct a (List.mem_append_left _ ha) b (List.mem_append_left _ hb)) c.now
    fun a ha hak => hlast a ha c (List.mem_singleton_self c) hak
  refine ⟨events_call retentionMinutes maxEntries hret hmax hn hbucket hdistinct, ?_⟩
  intro key hkey
  rw [runCalls, List.foldl_concat, ← runCalls, bucketAt_apply, if_neg hkey]

section FixedInputs

/-- A break at a minute and a price. -/
def breakAt (minute : ℤ) (price : ℚ) : StructureEvent ℚ where
  eventType := .bos
  direction := .long
  priceLevel := price
  time := 60000 * minute
  sourceLeg :=
    { fromSwing := ⟨0, 60000 * minute, price, .low, 1⟩
      toSwing := ⟨1, 60000 * minute, price, .high, 1⟩
      label := .hh
      referencePrice := none }

/-- Calls for two symbols. -/
def goldAndEuro : List (Call ℚ) :=
  [⟨"xauusd", "1m", [breakAt 1 5, breakAt 2 6], some 120000, 0⟩,
    ⟨"eurusd", "1m", [breakAt 1 1], some 60000, 0⟩]

def goldAgain : Call ℚ := ⟨"xauusd", "1m", [breakAt 3 7], some 180000, 0⟩

/-- A memory of one minute and two events: the break of minute 1 has grown too old. -/
theorem gold_history :
    (apply id 1 2 (runCalls id 1 2 goldAndEuro) goldAgain).1 = [breakAt 2 6, breakAt 3 7] ∧
      (bucketAt (runCalls id 1 2 (goldAndEuro ++ [goldAgain])) ("eurusd", "1m")).events =
        [breakAt 1 1] := by
  have hmono : (goldAndEuro ++ [goldAgain]).Pairwise fun a b =>
      a.key id = b.key id → a.now ≤ b.now := by decide
  have hspec := returned_are_latest id 1 2 (by decide) (by decide) hmono (by decide +kernel)
  refine ⟨hspec.1.trans (by decide +kernel), ?_⟩
  rw [hspec.2 ("eurusd", "1m") (by decide)]
  decide +kernel

end FixedInputs

end

end SmcPipeline.MemorySpec
