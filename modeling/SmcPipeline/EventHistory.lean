import SmcPipeline.OrderedDict
import SmcPipeline.StructureEngine
import Mathlib.Algebra.Order.Floor.Defs

/-!
# The memory of structure events

`StructureEventHistory` of `smc_structure/event_history.py`: one bucket for each symbol
and timeframe, in which an event is kept under its type, direction, time and price to
six decimals. An event that is emitted again replaces the object kept under its key;
every update then prunes by age and by number.
-/

namespace SmcPipeline

structure EventKey where
  eventType : EventType
  direction : Direction
  time : ℤ
  price : Bool × ℤ
deriving DecidableEq, Repr

structure TrackedEvent (K : Type*) where
  event : StructureEvent K
  firstSeen : ℤ
  lastSeen : ℤ

namespace EventHistory

open Candles KeyedRows

section

variable {K : Type*}

abbrev Items (K : Type*) := List (EventKey × TrackedEvent K)

def retained (now retentionMinutes : ℤ) (items : Items K) : Items K :=
  if 0 < retentionMinutes then
    items.filter fun p => decide (now - retentionMinutes * 60000 ≤ p.2.event.time)
  else items

def newest (maxEntries : ℤ) (items : Items K) : Items K :=
  if 0 < maxEntries ∧ maxEntries < items.length then
    items.drop (items.length - maxEntries.toNat)
  else items

/-- What `_prune_bucket` keeps, in the order in which it puts it back. -/
def pruneItems (now retentionMinutes maxEntries : ℤ) (items : Items K) : Items K :=
  newest maxEntries (sortBy (fun p => p.2.event.time) (retained now retentionMinutes items))

theorem retained_sublist (now retentionMinutes : ℤ) (items : Items K) :
    (retained now retentionMinutes items).Sublist items := by
  unfold retained
  split_ifs
  · exact List.filter_sublist
  · exact List.Sublist.refl _

theorem newest_sublist (maxEntries : ℤ) (items : Items K) :
    (newest maxEntries items).Sublist items := by
  unfold newest
  split_ifs
  · exact List.drop_sublist _ _
  · exact List.Sublist.refl _

theorem pruneItems_subperm (now retentionMinutes maxEntries : ℤ) (items : Items K) :
    (pruneItems now retentionMinutes maxEntries items).Subperm items :=
  (newest_sublist maxEntries _).subperm.trans
    ((sortBy_perm _ _).subperm.trans (retained_sublist now retentionMinutes items).subperm)

theorem pruneItems_sorted (now retentionMinutes maxEntries : ℤ) (items : Items K) :
    (pruneItems now retentionMinutes maxEntries items).Pairwise
      fun p q => p.2.event.time ≤ q.2.event.time :=
  (sortBy_pairwise _ _).sublist (newest_sublist maxEntries _)

theorem pruneItems_nodup {now retentionMinutes maxEntries : ℤ} {items : Items K}
    (h : (items.map Prod.fst).Nodup) :
    ((pruneItems now retentionMinutes maxEntries items).map Prod.fst).Nodup := by
  obtain ⟨l, hperm, hsub⟩ := pruneItems_subperm now retentionMinutes maxEntries items
  exact (hperm.map Prod.fst).nodup_iff.mp (h.sublist (hsub.map Prod.fst))

end

section

variable {K : Type*} [Field K] [LinearOrder K] [FloorRing K]

/-- The nearest integer, the even one of two. -/
def halfEven (x : K) : ℤ :=
  let n := ⌊x⌋
  if x - n < ratio 1 2 then n
  else if ratio 1 2 < x - n then n + 1
  else if n % 2 = 0 then n else n + 1

/-- The text of `{price:.6f}`: its sign and its millionths. -/
def sixDecimals (x : K) : Bool × ℤ := (decide (x < 0), halfEven (|x| * (1000000 : ℕ)))

def eventKey (event : StructureEvent K) : EventKey :=
  ⟨event.eventType, event.direction, event.time, sixDecimals event.priceLevel⟩

end

variable (K : Type*) [Field K] [LinearOrder K] [FloorRing K]

/-- Tracked events, each under its own key. -/
structure Bucket where
  tracked : OrderedDict EventKey (TrackedEvent K)
  keyed : ∀ p ∈ tracked.items, p.1 = eventKey p.2.event

/-- `_store` -/
abbrev Store := OrderedDict (String × String) (Bucket K)

variable {K}

namespace Bucket

def empty : Bucket K := ⟨OrderedDict.empty, fun _ hp => by cases hp⟩

def events (bucket : Bucket K) : List (StructureEvent K) :=
  bucket.tracked.items.map fun p => p.2.event

/-- The entry an emitted event leaves under its key. -/
def entryFor (now : ℤ) (bucket : Bucket K) (event : StructureEvent K) : TrackedEvent K :=
  match bucket.tracked.get? (eventKey event) with
  | none => ⟨event, now, now⟩
  | some tracked => ⟨event, tracked.firstSeen, max tracked.lastSeen now⟩

theorem entryFor_event (now : ℤ) (bucket : Bucket K) (event : StructureEvent K) :
    (entryFor now bucket event).event = event := by
  unfold entryFor
  cases bucket.tracked.get? (eventKey event) <;> rfl

def track (now : ℤ) (bucket : Bucket K) (event : StructureEvent K) : Bucket K where
  tracked := bucket.tracked.set (eventKey event) (entryFor now bucket event)
  keyed := by
    intro p hp
    rcases (OrderedDict.mem_items_set _ _ _).mp hp with rfl | ⟨-, hp⟩
    · exact congrArg eventKey (entryFor_event now bucket event).symm
    · exact bucket.keyed p hp

/-- `_prune_bucket` -/
def prune (now retentionMinutes maxEntries : ℤ) (bucket : Bucket K) : Bucket K where
  tracked :=
    { items := pruneItems now retentionMinutes maxEntries bucket.tracked.items
      nodup := pruneItems_nodup bucket.tracked.nodup }
  keyed := fun p hp => bucket.keyed p ((pruneItems_subperm _ _ _ _).subset hp)

def update (new : List (StructureEvent K)) (now retentionMinutes maxEntries : ℤ)
    (bucket : Bucket K) : Bucket K :=
  (new.foldl (track now) bucket).prune now retentionMinutes maxEntries

theorem mem_events_track {now : ℤ} {bucket : Bucket K} {event e : StructureEvent K} :
    e ∈ (track now bucket event).events ↔
      e = event ∨ (eventKey e ≠ eventKey event ∧ e ∈ bucket.events) := by
  unfold events track
  simp only [List.mem_map, OrderedDict.mem_items_set]
  constructor
  · rintro ⟨p, rfl | ⟨hne, hp⟩, rfl⟩
    · exact Or.inl (entryFor_event now bucket event)
    · rw [bucket.keyed p hp] at hne
      exact Or.inr ⟨hne, p, hp, rfl⟩
  · rintro (rfl | ⟨hne, p, hp, rfl⟩)
    · exact ⟨_, Or.inl rfl, entryFor_event now bucket e⟩
    · refine ⟨p, Or.inr ⟨?_, hp⟩, rfl⟩
      rwa [bucket.keyed p hp]

/-- An event of an updated bucket is new, or old and not emitted again. -/
theorem mem_events_foldl_track (now : ℤ) {new : List (StructureEvent K)} {bucket : Bucket K}
    {e : StructureEvent K} (h : e ∈ (new.foldl (track now) bucket).events) :
    e ∈ new ∨ (eventKey e ∉ new.map eventKey ∧ e ∈ bucket.events) := by
  induction new generalizing bucket with
  | nil => exact Or.inr ⟨by simp, h⟩
  | cons event new ih =>
      rcases ih h with hnew | ⟨hkey, hmem⟩
      · exact Or.inl (List.mem_cons_of_mem event hnew)
      · rcases mem_events_track.mp hmem with rfl | ⟨hne, hold⟩
        · exact Or.inl List.mem_cons_self
        · refine Or.inr ⟨?_, hold⟩
          rw [List.map_cons, List.mem_cons, not_or]
          exact ⟨hne, hkey⟩

theorem mem_events_update {now retentionMinutes maxEntries : ℤ}
    {new : List (StructureEvent K)} {bucket : Bucket K} {e : StructureEvent K}
    (h : e ∈ (bucket.update new now retentionMinutes maxEntries).events) :
    e ∈ new ∨ (eventKey e ∉ new.map eventKey ∧ e ∈ bucket.events) := by
  apply mem_events_foldl_track now
  obtain ⟨p, hp, rfl⟩ := List.mem_map.mp h
  exact List.mem_map_of_mem ((pruneItems_subperm _ _ _ _).subset hp)

/-- After an update the events stand in the order of their times. -/
theorem events_update_sorted (new : List (StructureEvent K))
    (now retentionMinutes maxEntries : ℤ) (bucket : Bucket K) :
    (bucket.update new now retentionMinutes maxEntries).events.Pairwise
      fun a b => a.time ≤ b.time :=
  List.pairwise_map.mpr (pruneItems_sorted now retentionMinutes maxEntries _)

end Bucket

variable (lower : String → String)

def storeKey (symbol timeframe : String) : String × String := (lower symbol, lower timeframe)

def bucketOf (store : Store K) (symbol timeframe : String) : Bucket K :=
  (store.get? (storeKey lower symbol timeframe)).getD Bucket.empty

/-- The events returned and the store left by a call. -/
def updateHistory (store : Store K) (symbol timeframe : String)
    (events : List (StructureEvent K)) (snapshotEndTs : Option ℤ) (utcnow : ℤ)
    (retentionMinutes maxEntries : ℤ) : List (StructureEvent K) × Store K :=
  let bucket := (bucketOf lower store symbol timeframe).update events
    (snapshotEndTs.getD utcnow) retentionMinutes maxEntries
  (bucket.events, store.set (storeKey lower symbol timeframe) bucket)

def getHistory (store : Store K) (symbol timeframe : String) : List (StructureEvent K) :=
  (bucketOf lower store symbol timeframe).events

/-- A call leaves behind what it returns. -/
theorem bucketOf_updateHistory (store : Store K) (symbol timeframe : String)
    (events : List (StructureEvent K)) (snapshotEndTs : Option ℤ) (utcnow : ℤ)
    (retentionMinutes maxEntries : ℤ) :
    bucketOf lower (updateHistory lower store symbol timeframe events snapshotEndTs utcnow
        retentionMinutes maxEntries).2 symbol timeframe =
      (bucketOf lower store symbol timeframe).update events (snapshotEndTs.getD utcnow)
        retentionMinutes maxEntries := by
  unfold bucketOf updateHistory
  rw [OrderedDict.get?_set_self]
  rfl

end EventHistory

end SmcPipeline
