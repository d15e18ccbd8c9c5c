import SmcPipeline.Frames
import SmcPipeline.OrderedDict
import Mathlib.Data.Rat.Defs
import Mathlib.Data.List.Infix
import Mathlib.Algebra.Order.Ring.Unbundled.Rat

/-!
# The RAM layer of the unified store

TTL, LRU order, the hot-symbol quota and the byte quota of `RamLayer` in
`data/unified_store.py`. Clock readings are arbitrary rationals, so nothing here
assumes that time moves forward. Every deletion is noted with its reason in
`removals`; no operation reads that list, and an operation that leaves its part
about a key as it was has not removed that key.
-/

namespace SmcPipeline

/-- `(symbol, interval)` -/
abbrev Key := String × String

structure StoreProfile where
  ramLimitMb : ℤ := 512
  maxSymbolsHot : ℤ := 96
  hotTtlSec : ℤ := 6 * 3600
  warmTtlSec : ℤ := 24 * 3600
  flushBatchMax : ℕ := 8
deriving DecidableEq, Repr

/-- `estimateBytes` is pandas' memory estimate of a frame. -/
structure StoreConfig (α : Type*) where
  profile : StoreProfile := {}
  writeBehind : Bool := true
  estimateBytes : Frame α → ℕ

namespace Priority

def alert : ℤ := 3
def normal : ℤ := 1
def cold : ℤ := 0

end Priority

inductive Reason
  | ttlExpired
  | hotQuota
  | ramQuota
deriving DecidableEq, Repr

structure Entry (α : Type*) where
  df : Frame α
  ts : ℚ
  ttl : ℤ

/-- `now - ts > ttl` -/
def Entry.expired {α : Type*} (now : ℚ) (e : Entry α) : Bool :=
  decide ((e.ttl : ℚ) < now - e.ts)

structure RamLayer (α : Type*) where
  store : OrderedDict Key (Entry α)
  lru : OrderedDict Key Unit
  prio : OrderedDict String ℤ
  bytesInRam : ℤ
  removals : List (Key × Reason)

namespace RamLayer

variable {α : Type*} (cfg : StoreConfig α)

def empty : RamLayer α := ⟨.empty, .empty, .empty, 0, []⟩

def ttlFor (interval : String) : ℤ :=
  if interval = "1m" ∨ interval = "5m" then cfg.profile.hotTtlSec else cfg.profile.warmTtlSec

def setPriority (symbol : String) (level : ℤ) (ram : RamLayer α) : RamLayer α :=
  { ram with prio := ram.prio.set symbol level }

def getPriority (ram : RamLayer α) (symbol : String) : ℤ :=
  (ram.prio.get? symbol).getD Priority.normal

def delete (key : Key) (reason : Reason) (ram : RamLayer α) : RamLayer α where
  store := ram.store.erase key
  lru := ram.lru.erase key
  prio := ram.prio
  bytesInRam := match ram.store.get? key with
    | none => ram.bytesInRam
    | some e => ram.bytesInRam - cfg.estimateBytes e.df
  removals := (key, reason) :: ram.removals

def get (now : ℚ) (key : Key) (ram : RamLayer α) : Option (Frame α) × RamLayer α :=
  match ram.store.get? key with
  | none => (none, ram)
  | some e =>
    if e.expired now then (none, ram.delete cfg key .ttlExpired)
    else (some e.df, { ram with lru := ram.lru.moveToEnd key })

/-- Lowest priority first, oldest first within a priority. -/
def ranked (ram : RamLayer α) : List Key :=
  KeyedRows.sortBy (fun key : Key => ram.getPriority key.1) ram.lru.keys

def evictLoop (count : ℤ) : ℤ → List Key → RamLayer α → RamLayer α
  | _, [], ram => ram
  | removed, key :: rest, ram =>
    if Priority.alert ≤ ram.getPriority key.1 then evictLoop count removed rest ram
    else
      let ram := ram.delete cfg key .hotQuota
      if count ≤ removed + 1 then ram else evictLoop count (removed + 1) rest ram

def evictByPriority (count : ℤ) (ram : RamLayer α) : RamLayer α :=
  evictLoop cfg count 0 ram.ranked ram

/-- `popitem(last=False)` and `delete` while the layer is over its byte limit.
Every round takes one key off the LRU list, so its length is fuel enough. -/
def evictOldest (limit : ℤ) : ℕ → RamLayer α → RamLayer α
  | 0, ram => ram
  | fuel + 1, ram =>
    if limit < ram.bytesInRam then
      match ram.lru.popFirst with
      | none => ram
      | some ((key, _), rest) =>
        evictOldest limit fuel ({ ram with lru := rest }.delete cfg key .ramQuota)
    else ram

/-- Symbols of the LRU list without repetition. -/
def symbolsInLru (ram : RamLayer α) : List String :=
  KeyedRows.keepFirst id (ram.lru.keys.map Prod.fst)

def enforceQuotas (ram : RamLayer α) : RamLayer α :=
  let hot : ℤ := ram.symbolsInLru.length
  let ram :=
    if cfg.profile.maxSymbolsHot < hot then
      ram.evictByPriority cfg (hot - cfg.profile.maxSymbolsHot)
    else ram
  ram.evictOldest cfg (cfg.profile.ramLimitMb * 1024 * 1024) ram.lru.length

/-- `put` up to its call of `_enforce_quotas`. -/
def insert (now : ℚ) (key : Key) (df : Frame α) (ram : RamLayer α) : RamLayer α :=
  let freed : ℤ := match ram.store.get? key with
    | none => 0
    | some e => cfg.estimateBytes e.df
  { ram with
    store := ram.store.set key ⟨df, now, ttlFor cfg key.2⟩
    lru := (ram.lru.set key ()).moveToEnd key
    bytesInRam := ram.bytesInRam - freed + cfg.estimateBytes df }

def put (now : ℚ) (key : Key) (df : Frame α) (ram : RamLayer α) : RamLayer α :=
  (ram.insert cfg now key df).enforceQuotas cfg

def sweep (now : ℚ) (ram : RamLayer α) : RamLayer α :=
  let expired := (ram.store.items.filter fun p => p.2.expired now).map Prod.fst
  (expired.foldl (fun ram key => ram.delete cfg key .ttlExpired) ram).enforceQuotas cfg

/-- The frame held for a key, whatever its age. -/
def frameAt (ram : RamLayer α) (key : Key) : Option (Frame α) :=
  (ram.store.get? key).map Entry.df

theorem frameAt_insert (now : ℚ) (key key' : Key) (df : Frame α) (ram : RamLayer α) :
    (ram.insert cfg now key df).frameAt key' =
      if key' = key then some df else ram.frameAt key' := by
  simp only [frameAt, insert, OrderedDict.get?_set]
  split_ifs <;> rfl

def removalsOf (ram : RamLayer α) (key : Key) : List Reason :=
  (ram.removals.filter fun p => p.1 = key).map Prod.snd

theorem removalsOf_delete (key key' : Key) (reason : Reason) (ram : RamLayer α) :
    (ram.delete cfg key reason).removalsOf key' =
      if key = key' then reason :: ram.removalsOf key' else ram.removalsOf key' := by
  simp only [removalsOf, delete, List.filter_cons, decide_eq_true_eq]
  split_ifs <;> rfl

/-- `Kept a b`: `b` comes from `a` by operations that only remove entries, each
noted; a key with no new note still has its frame. -/
structure Kept (a b : RamLayer α) : Prop where
  removals : ∀ key, (a.removalsOf key).IsSuffix (b.removalsOf key)
  frames : ∀ key, b.removalsOf key = a.removalsOf key → b.frameAt key = a.frameAt key

theorem Kept.refl (a : RamLayer α) : Kept a a := ⟨fun _ => List.suffix_refl _, fun _ _ => rfl⟩

theorem Kept.between {a b c : RamLayer α} (hab : Kept a b) (hbc : Kept b c) {key : Key}
    (h : c.removalsOf key = a.removalsOf key) : b.removalsOf key = a.removalsOf key :=
  ((h ▸ hbc.removals key).eq_of_length_le (hab.removals key).length_le)

theorem Kept.trans {a b c : RamLayer α} (hab : Kept a b) (hbc : Kept b c) : Kept a c where
  removals key := (hab.removals key).trans (hbc.removals key)
  frames key h := by
    have hb := hab.between hbc h
    rw [hbc.frames key (h.trans hb.symm), hab.frames key hb]

theorem kept_setPriority (symbol : String) (level : ℤ) (ram : RamLayer α) :
    Kept ram (ram.setPriority symbol level) :=
  ⟨fun _ => List.suffix_refl _, fun _ _ => rfl⟩

theorem kept_delete (key : Key) (reason : Reason) (ram : RamLayer α) :
    Kept ram (ram.delete cfg key reason) where
  removals key' := by
    rw [removalsOf_delete]
    split_ifs
    · exact List.suffix_cons _ _
    · exact List.suffix_refl _
  frames key' h := by
    rw [removalsOf_delete] at h
    split_ifs at h with hk
    · have hlen := congrArg List.length h
      simp at hlen
    · simp only [frameAt, delete, OrderedDict.get?_erase_of_ne _ (Ne.symm hk)]

/-- What holds across a deletion and across a popped key holds across `_enforce_quotas`. -/
theorem enforceQuotas_induction {R : RamLayer α → RamLayer α → Prop} (refl : ∀ a, R a a)
    (trans : ∀ a b c, R a b → R b c → R a c)
    (delete : ∀ key reason ram, R ram (ram.delete cfg key reason))
    (pop : ∀ (ram : RamLayer α) rest, R ram { ram with lru := rest }) (ram : RamLayer α) :
    R ram (ram.enforceQuotas cfg) := by
  have hloop : ∀ count removed keys (ram : RamLayer α),
      R ram (evictLoop cfg count removed keys ram) := by
    intro count removed keys
    induction keys generalizing removed with
    | nil => exact refl
    | cons key rest ih =>
        intro ram
        simp only [evictLoop]
        split_ifs
        · exact ih removed ram
        · exact delete key .hotQuota ram
        · exact trans _ _ _ (delete key .hotQuota ram) (ih _ _)
  have holdest : ∀ limit fuel (ram : RamLayer α), R ram (evictOldest cfg limit fuel ram) := by
    intro limit fuel
    induction fuel with
    | zero => exact refl
    | succ fuel ih =>
        intro ram
        simp only [evictOldest]
        split_ifs
        · split
          · exact refl ram
          · exact trans _ _ _ (pop ram _) (trans _ _ _ (delete _ .ramQuota _) (ih _))
        · exact refl ram
  unfold enforceQuotas
  dsimp only
  split_ifs
  · exact trans _ _ _ (hloop _ _ _ ram) (holdest _ _ _)
  · exact holdest _ _ ram

theorem kept_enforceQuotas (ram : RamLayer α) : Kept ram (ram.enforceQuotas cfg) :=
  enforceQuotas_induction cfg Kept.refl (fun _ _ _ => Kept.trans) (kept_delete cfg)
    (fun _ _ => ⟨fun _ => List.suffix_refl _, fun _ _ => rfl⟩) ram

theorem kept_get (now : ℚ) (key : Key) (ram : RamLayer α) : Kept ram (ram.get cfg now key).2 := by
  unfold get
  split
  · exact Kept.refl ram
  · split_ifs
    · exact kept_delete cfg key .ttlExpired ram
    · exact ⟨fun _ => List.suffix_refl _, fun _ _ => rfl⟩

theorem kept_sweep (now : ℚ) (ram : RamLayer α) : Kept ram (ram.sweep cfg now) := by
  have hfold : ∀ (keys : List Key) (ram : RamLayer α),
      Kept ram (keys.foldl (fun ram key => ram.delete cfg key .ttlExpired) ram) := by
    intro keys
    induction keys with
    | nil => exact Kept.refl
    | cons key keys ih => exact fun ram => (kept_delete cfg key .ttlExpired ram).trans (ih _)
  exact (hfold _ ram).trans (kept_enforceQuotas cfg _)

/-- A read that expires nothing returns the frame that is held. -/
theorem get_eq_frameAt {now : ℚ} {key : Key} {ram : RamLayer α}
    (h : (ram.get cfg now key).2.removalsOf key = ram.removalsOf key) :
    (ram.get cfg now key).1 = ram.frameAt key := by
  unfold get frameAt at *
  cases hg : ram.store.get? key with
  | none => rfl
  | some e =>
      simp only [hg] at h ⊢
      split_ifs at h ⊢ with he
      · rw [removalsOf_delete, if_pos rfl] at h
        have hlen := congrArg List.length h
        simp at hlen
      · rfl

theorem kept_put (now : ℚ) (key : Key) (df : Frame α) (ram : RamLayer α) :
    Kept (ram.insert cfg now key df) (ram.put cfg now key df) :=
  kept_enforceQuotas cfg _

/-- A write that evicts nothing of a key holds its frame or leaves the key alone. -/
theorem frameAt_put {now : ℚ} {key key' : Key} {df : Frame α} {ram : RamLayer α}
    (h : (ram.put cfg now key df).removalsOf key' = ram.removalsOf key') :
    (ram.put cfg now key df).frameAt key' =
      if key' = key then some df else ram.frameAt key' := by
  rw [(kept_put cfg now key df ram).frames key' h, frameAt_insert]

/-- A read followed by a write that removes nothing of a key: the read did not
either. -/
theorem removalsOf_get_of_put {now : ℚ} {key key' : Key} {df : Frame α} {ram : RamLayer α}
    (h : ((ram.get cfg now key).2.put cfg now key df).removalsOf key' = ram.removalsOf key') :
    (ram.get cfg now key).2.removalsOf key' = ram.removalsOf key' := by
  have hput := (kept_put cfg now key df (ram.get cfg now key).2).removals key'
  have hget := (kept_get cfg now key ram).removals key'
  rw [h] at hput
  exact hput.eq_of_length_le hget.length_le

/-- A read and a write back that remove nothing of a key. -/
theorem frameAt_get_put {now : ℚ} {key key' : Key} {df : Frame α} {ram : RamLayer α}
    (h : ((ram.get cfg now key).2.put cfg now key df).removalsOf key' = ram.removalsOf key') :
    ((ram.get cfg now key).2.put cfg now key df).frameAt key' =
      if key' = key then some df else ram.frameAt key' := by
  have hget := removalsOf_get_of_put cfg h
  rw [frameAt_put cfg (h.trans hget.symm), (kept_get cfg now key ram).frames key' hget]

/-- A frame that is held afterwards was held before. -/
def Shrinks (a b : RamLayer α) : Prop := ∀ key df, b.frameAt key = some df → a.frameAt key = some df

theorem shrinks_delete (key : Key) (reason : Reason) (ram : RamLayer α) :
    Shrinks ram (ram.delete cfg key reason) := by
  intro key' df h
  simp only [frameAt, delete, OrderedDict.get?_erase] at h
  split_ifs at h
  · cases h
  · exact h

theorem shrinks_enforceQuotas (ram : RamLayer α) : Shrinks ram (ram.enforceQuotas cfg) :=
  enforceQuotas_induction cfg (fun _ _ _ h => h) (fun _ _ _ hab hbc key df h =>
    hab key df (hbc key df h)) (shrinks_delete cfg) (fun _ _ _ _ h => h) ram

theorem frameAt_of_get {now : ℚ} {key : Key} {ram : RamLayer α} {df : Frame α}
    (h : (ram.get cfg now key).1 = some df) : ram.frameAt key = some df := by
  unfold get at h
  unfold frameAt
  cases hg : ram.store.get? key with
  | none => simp [hg] at h
  | some e =>
      simp only [hg] at h
      split_ifs at h
      exact h

/-- After a write of a key, whatever it evicts, the key holds what was written or nothing. -/
theorem frameAt_of_put {now : ℚ} {key : Key} {df held : Frame α} {ram : RamLayer α}
    (h : (ram.put cfg now key df).frameAt key = some held) : held = df := by
  have hinsert := shrinks_enforceQuotas cfg _ key held h
  rw [frameAt_insert, if_pos rfl] at hinsert
  exact (Option.some.inj hinsert).symm

end RamLayer

end SmcPipeline
