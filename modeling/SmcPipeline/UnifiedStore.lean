import SmcPipeline.Runs
import SmcPipeline.SnapshotFile
import SmcPipeline.WriteBehind
import Mathlib.Algebra.Order.Round
import Mathlib.Data.Rat.Floor

/-!
# The unified store as a transition system

`UnifiedDataStore` of `data/unified_store.py`, each coroutine cut at its awaits:
one action is the code between two awaits, or the effect of an awaited operation
on Redis or on the disk. `put_bars` and `enforce_tail_limit` hold `_mtx` from
their first segment to their last; `get_df`, `warmup` and the maintenance task do
not take it. Clock readings are part of an action and arbitrary.

`accepted` collects the open times that `put_bars` calls have merged into RAM. It
is written for the statements only.
-/

namespace SmcPipeline

inductive WriterStage
  | redis
  | resume
  | disk
deriving DecidableEq, Repr

/-- The holder of `_mtx` and what it is waiting for. -/
structure Writer (α : Type*) where
  kind : WriterKind
  key : Key
  frame : Frame α
  stage : WriterStage

/-- A call of `get_df` or `warmup`. -/
inductive Reader (α : Type*)
  | idle
  | getRedis (key : Key) (limit : ℕ)
  | getDisk (key : Key) (limit : ℕ) (last : Option (Frame α))
  | getPut (key : Key) (limit : ℕ) (last disk : Option (Frame α))
  | returned (df : Frame α)
  | warmDisk (symbols : List String) (interval : String) (barsNeeded : ℕ)
  | warmPut (symbol : String) (symbols : List String) (interval : String) (barsNeeded : ℕ)
      (df : Option (Frame α))

structure StoreState (α : Type*) where
  ram : RamLayer α
  redis : Key → Option (Frame α)
  wb : WriteBehind α
  mtx : Option (Writer α)
  readers : ℕ → Reader α
  accepted : Key → List ℤ

inductive StoreAction (α : Type*)
  | putBars (now : ℚ) (key : Key) (bars : Frame α)
  | enforceTailLimit (now : ℚ) (key : Key) (limit : ℕ)
  | writerRedis (ok : Bool)
  | writerResume
  | writerSaved (ok : Bool)
  | getDf (now : ℚ) (id : ℕ) (key : Key) (limit : ℕ)
  | readRedis (id : ℕ) (ok : Bool)
  | loadBars (nowMs : ℤ) (id : ℕ)
  | finishRead (now : ℚ) (id : ℕ)
  | warmup (id : ℕ) (symbols : List String) (interval : String) (barsNeeded : ℕ)
  | redisExpire (key : Key)
  | setPriority (symbol : String) (level : ℤ)
  | startMaintenance
  | wake (now : ℚ)
  | saveWritten
  | saveReturned
  | saveRaised
  | backoffElapsed
  | stopMaintenance
  | threadWritten (i : ℕ)

namespace StoreAction

variable {α : Type*}

def isStop : StoreAction α → Bool
  | .stopMaintenance => true
  | _ => false

def isRaised : StoreAction α → Bool
  | .saveRaised => true
  | _ => false

end StoreAction

namespace StoreState

variable {α : Type*} (cfg : StoreConfig α)

/-- A store just constructed, over whatever the disk and Redis hold. -/
def fresh (disk redis : Key → Option (Frame α)) : StoreState α where
  ram := .empty
  redis := redis
  wb :=
    { disk := fun key => (disk key).map fun f => ⟨f, 0⟩
      flushQ := []
      flushPending := .empty
      flushBatchLimit := cfg.profile.flushBatchMax
      maint := .stopped
      threads := []
      log := [] }
  mtx := none
  readers := fun _ => .idle
  accepted := fun _ => []

/-- `put_bars`, first part: merge with what `RamLayer.get` still returns. -/
def mergeIntoRam (now : ℚ) (key : Key) (bars : Frame α) (s : StoreState α) :
    Frame α × StoreState α :=
  let read := s.ram.get cfg now key
  let merged := Frame.mergeBars read.1 bars
  (merged, { s with
    ram := read.2.put cfg now key merged
    accepted := Function.update s.accepted key (s.accepted key ++ bars.openTimes) })

/-- `jset("candles", symbol, interval)` of the last row. -/
def publishLast (key : Key) (frame : Frame α) (s : StoreState α) : StoreState α :=
  match frame.lastBar with
  | none => s
  | some row => { s with redis := Function.update s.redis key (some row) }

/-- Registration for the drain; both writers end with it. -/
def registerFlush (kind : WriterKind) (key : Key) (frame : Frame α) (s : StoreState α) :
    StoreState α :=
  { s with wb := s.wb.register kind key frame (s.accepted key) }

def writerAt (kind : WriterKind) (key : Key) (frame : Frame α) : Writer α :=
  ⟨kind, key, frame, if frame.isEmpty then .resume else .redis⟩

def putBars (now : ℚ) (key : Key) (bars : Frame α) (s : StoreState α) :
    Option (StoreState α) :=
  if bars.isEmpty then some s
  else match s.mtx with
    | some _ => none
    | none =>
      let merged := s.mergeIntoRam cfg now key bars
      some { merged.2 with mtx := some (writerAt .putBars key merged.1) }

def enforceTailLimit (now : ℚ) (key : Key) (limit : ℕ) (s : StoreState α) :
    Option (StoreState α) :=
  if limit = 0 then some s
  else match s.mtx with
    | some _ => none
    | none =>
      let read := s.ram.get cfg now key
      match read.1 with
      | none => some { s with ram := read.2 }
      | some current =>
        if current.rows.length ≤ limit then some { s with ram := read.2 }
        else
          let trimmed := current.tail limit
          some { s with
            ram := read.2.put cfg now key trimmed
            mtx := some (writerAt .enforceTailLimit key trimmed) }

def writerRedis (ok : Bool) (s : StoreState α) : Option (StoreState α) :=
  match s.mtx with
  | some ⟨kind, key, frame, .redis⟩ =>
    let s := if ok then s.publishLast key frame else s
    some { s with mtx := some ⟨kind, key, frame, .resume⟩ }
  | _ => none

def writerResume (s : StoreState α) : Option (StoreState α) :=
  match s.mtx with
  | some ⟨kind, key, frame, .resume⟩ =>
    if cfg.writeBehind then some { s.registerFlush kind key frame with mtx := none }
    else some { s with mtx := some ⟨kind, key, frame, .disk⟩ }
  | _ => none

/-- With write-behind off the writer saves under the lock; a failure is raised to
its caller. -/
def writerSaved (ok : Bool) (s : StoreState α) : Option (StoreState α) :=
  match s.mtx with
  | some ⟨_, key, frame, .disk⟩ =>
    some { s with wb := if ok then s.wb.saveDirect key frame else s.wb, mtx := none }
  | _ => none

def setReader (id : ℕ) (r : Reader α) (s : StoreState α) : StoreState α :=
  { s with readers := Function.update s.readers id r }

/-- `df.tail(limit) if limit else df` -/
def limited (limit : ℕ) (f : Frame α) : Frame α := if limit = 0 then f else f.tail limit

def getDf (now : ℚ) (id : ℕ) (key : Key) (limit : ℕ) (s : StoreState α) : StoreState α :=
  let read := s.ram.get cfg now key
  let s := { s with ram := read.2 }
  match read.1 with
  | some df => s.setReader id (.returned (limited limit df))
  | none => s.setReader id (.getRedis key limit)

def readRedis (id : ℕ) (ok : Bool) (s : StoreState α) : Option (StoreState α) :=
  match s.readers id with
  | .getRedis key limit =>
    some (s.setReader id (.getDisk key limit (if ok then s.redis key else none)))
  | _ => none

def snapshot (s : StoreState α) (key : Key) : Option (Frame α) :=
  (s.wb.disk key).map Registered.frame

/-- The file is read; the frame waits for the coroutine to resume. -/
def loadBars (nowMs : ℤ) (id : ℕ) (s : StoreState α) : Option (StoreState α) :=
  match s.readers id with
  | .getDisk key limit last =>
    some (s.setReader id
      (.getPut key limit last (SnapshotFile.loadBars nowMs (s.snapshot key))))
  | .warmDisk (symbol :: symbols) interval barsNeeded =>
    some (s.setReader id (.warmPut symbol symbols interval barsNeeded
      (SnapshotFile.loadBars nowMs (s.snapshot (symbol, interval)))))
  | _ => none

/-- What `get_df` assembles: the snapshot and the last bar of Redis, if any. -/
def assemble (last disk : Option (Frame α)) : Frame α :=
  match (disk.filter fun f => !f.isEmpty), (last.filter fun f => !f.isEmpty) with
  | none, none => ⟨false, []⟩
  | some d, none => d.dedupSort
  | none, some l => l.dedupSort
  | some d, some l => (d.concat l).dedupSort

/-- What `warmup` writes: the tail of a nonempty snapshot. -/
def warmed (barsNeeded : ℕ) (df : Option (Frame α)) : Option (Frame α) :=
  (df.filter fun f => !f.isEmpty).map fun f =>
    (if barsNeeded = 0 then f else f.tail barsNeeded).dedupSort

/-- The frame a suspended read is about to store, with its key. -/
def aboutToPut : Reader α → Option (Key × Frame α)
  | .getPut key _ last disk =>
    if (assemble last disk).isEmpty then none else some (key, assemble last disk)
  | .warmPut symbol _ interval barsNeeded df =>
    (warmed barsNeeded df).map fun f => ((symbol, interval), f)
  | _ => none

/-- The last segment of `get_df`, or of one symbol's round in `warmup`. -/
def finishRead (now : ℚ) (id : ℕ) (s : StoreState α) : Option (StoreState α) :=
  let stored := match aboutToPut (s.readers id) with
    | none => s
    | some (key, f) => { s with ram := s.ram.put cfg now key f }
  match s.readers id with
  | .getPut _ limit last disk =>
    some (stored.setReader id (.returned (limited limit (assemble last disk))))
  | .warmPut _ symbols interval barsNeeded _ =>
    some (stored.setReader id (.warmDisk symbols interval barsNeeded))
  | _ => none

def warmup (id : ℕ) (symbols : List String) (interval : String) (barsNeeded : ℕ)
    (s : StoreState α) : StoreState α :=
  s.setReader id (.warmDisk symbols interval barsNeeded)

def onFlush (f : WriteBehind α → Option (WriteBehind α)) (s : StoreState α) :
    Option (StoreState α) :=
  (f s.wb).map fun wb => { s with wb := wb }

/-- The sleep of the maintenance loop is over: sweep, then drain. -/
def wake (now : ℚ) (s : StoreState α) : Option (StoreState α) :=
  match s.wb.maint with
  | .sleeping =>
    some { s with
      ram := s.ram.sweep cfg now
      wb := s.wb.drainFlushQueue cfg.profile false }
  | _ => none

def step (s : StoreState α) : StoreAction α → Option (StoreState α)
  | .putBars now key bars => s.putBars cfg now key bars
  | .enforceTailLimit now key limit => s.enforceTailLimit cfg now key limit
  | .writerRedis ok => s.writerRedis ok
  | .writerResume => s.writerResume cfg
  | .writerSaved ok => s.writerSaved ok
  | .getDf now id key limit => some (s.getDf cfg now id key limit)
  | .readRedis id ok => s.readRedis id ok
  | .loadBars nowMs id => s.loadBars nowMs id
  | .finishRead now id => s.finishRead cfg now id
  | .warmup id symbols interval barsNeeded => some (s.warmup id symbols interval barsNeeded)
  | .redisExpire key => some { s with redis := Function.update s.redis key none }
  | .setPriority symbol level => some { s with ram := s.ram.setPriority symbol level }
  | .startMaintenance => s.onFlush WriteBehind.startMaintenance
  | .wake now => s.wake cfg now
  | .saveWritten => s.onFlush WriteBehind.saveWritten
  | .saveReturned => s.onFlush WriteBehind.saveReturned
  | .saveRaised => s.onFlush WriteBehind.saveRaised
  | .backoffElapsed => s.onFlush WriteBehind.backoffElapsed
  | .stopMaintenance => s.onFlush (WriteBehind.stopMaintenance cfg.profile)
  | .threadWritten i => s.onFlush (WriteBehind.threadWritten i)

/-- Actions that belong to the maintenance task and the threads of its saves alone. -/
inductive FlushOp (w : WriteBehind α) : StoreAction α → WriteBehind α → Prop
  | start {v} : w.startMaintenance = some v → FlushOp w .startMaintenance v
  | written {v} : w.saveWritten = some v → FlushOp w .saveWritten v
  | returned {v} : w.saveReturned = some v → FlushOp w .saveReturned v
  | raised {v} : w.saveRaised = some v → FlushOp w .saveRaised v
  | elapsed {v} : w.backoffElapsed = some v → FlushOp w .backoffElapsed v
  | stop {v} : w.stopMaintenance cfg.profile = some v → FlushOp w .stopMaintenance v
  | thread (i : ℕ) {v} : w.threadWritten i = some v → FlushOp w (.threadWritten i) v

theorem FlushOp.log {w v : WriteBehind α} {a : StoreAction α} (h : FlushOp cfg w a v) :
    v.log = w.log := by
  cases h with
  | start h =>
      unfold WriteBehind.startMaintenance at h
      split at h <;> cases h
      rfl
  | written h =>
      unfold WriteBehind.saveWritten at h
      split at h <;> cases h
      rfl
  | returned h =>
      unfold WriteBehind.saveReturned at h
      split at h <;> cases h
      simp
  | raised h =>
      unfold WriteBehind.saveRaised at h
      split at h <;> cases h
      rfl
  | elapsed h =>
      unfold WriteBehind.backoffElapsed at h
      split at h <;> cases h
      simp
  | stop h =>
      unfold WriteBehind.stopMaintenance at h
      split at h <;> cases h <;> simp
  | thread i h =>
      obtain ⟨save, -, rfl⟩ := Option.map_eq_some_iff.mp h
      rfl

/-- The effects an action can have; the readers and Redis are left out where no
law speaks of them. -/
inductive Effect (s : StoreState α) : StoreAction α → StoreState α → Prop
  | idle (a : StoreAction α) (ram : RamLayer α) (redis : Key → Option (Frame α))
      (readers : ℕ → Reader α) : RamLayer.Kept s.ram ram →
      Effect s a { s with ram := ram, redis := redis, readers := readers }
  | put (now : ℚ) (key : Key) (bars : Frame α) : s.mtx = none → bars.isEmpty = false →
      Effect s (.putBars now key bars)
        { (s.mergeIntoRam cfg now key bars).2 with
          mtx := some (writerAt .putBars key (s.mergeIntoRam cfg now key bars).1) }
  | trim (now : ℚ) (key : Key) (limit : ℕ) (current : Frame α) : s.mtx = none →
      (s.ram.get cfg now key).1 = some current →
      Effect s (.enforceTailLimit now key limit)
        { s with
          ram := (s.ram.get cfg now key).2.put cfg now key (current.tail limit)
          mtx := some (writerAt .enforceTailLimit key (current.tail limit)) }
  | publish (ok : Bool) (kind : WriterKind) (key : Key) (frame : Frame α)
      (redis : Key → Option (Frame α)) : s.mtx = some ⟨kind, key, frame, .redis⟩ →
      Effect s (.writerRedis ok) { s with redis := redis, mtx := some ⟨kind, key, frame, .resume⟩ }
  | register (kind : WriterKind) (key : Key) (frame : Frame α) :
      s.mtx = some ⟨kind, key, frame, .resume⟩ → cfg.writeBehind = true →
      Effect s .writerResume { s.registerFlush kind key frame with mtx := none }
  | bypass (kind : WriterKind) (key : Key) (frame : Frame α) :
      s.mtx = some ⟨kind, key, frame, .resume⟩ → cfg.writeBehind = false →
      Effect s .writerResume { s with mtx := some ⟨kind, key, frame, .disk⟩ }
  | saved (ok : Bool) (kind : WriterKind) (key : Key) (frame : Frame α) :
      s.mtx = some ⟨kind, key, frame, .disk⟩ →
      Effect s (.writerSaved ok)
        { s with wb := if ok then s.wb.saveDirect key frame else s.wb, mtx := none }
  | store (now : ℚ) (id : ℕ) (key : Key) (f : Frame α) (readers : ℕ → Reader α) :
      aboutToPut (s.readers id) = some (key, f) →
      Effect s (.finishRead now id)
        { s with ram := s.ram.put cfg now key f, readers := readers }
  | wake (now : ℚ) : s.wb.maint = .sleeping →
      Effect s (.wake now)
        { s with ram := s.ram.sweep cfg now, wb := s.wb.drainFlushQueue cfg.profile false }
  | flush {a : StoreAction α} {w : WriteBehind α} : FlushOp cfg s.wb a w →
      Effect s a { s with wb := w }

private theorem effect_putBars {now : ℚ} {key : Key} {bars : Frame α} {s t : StoreState α}
    (h : s.putBars cfg now key bars = some t) : Effect cfg s (.putBars now key bars) t := by
  unfold putBars at h
  split_ifs at h with he
  · cases h
    exact .idle _ s.ram s.redis s.readers (.refl _)
  · split at h
    · cases h
    · rename_i hm
      cases h
      exact .put now key bars hm (by simpa using he)

private theorem effect_enforceTailLimit {now : ℚ} {key : Key} {limit : ℕ} {s t : StoreState α}
    (h : s.enforceTailLimit cfg now key limit = some t) :
    Effect cfg s (.enforceTailLimit now key limit) t := by
  unfold enforceTailLimit at h
  split_ifs at h
  · cases h
    exact .idle _ s.ram s.redis s.readers (.refl _)
  · split at h
    · cases h
    · rename_i hm
      dsimp only at h
      have hkept := RamLayer.kept_get cfg now key s.ram
      split at h
      · cases h
        exact .idle _ _ s.redis s.readers hkept
      · rename_i current hcur
        split_ifs at h
        · cases h
          exact .idle _ _ s.redis s.readers hkept
        · cases h
          exact .trim now key limit current hm hcur

private theorem effect_writerRedis {ok : Bool} {s t : StoreState α}
    (h : s.writerRedis ok = some t) : Effect cfg s (.writerRedis ok) t := by
  unfold writerRedis at h
  split at h
  · rename_i kind key frame hm
    cases h
    have hredis : ∃ redis, (if ok then s.publishLast key frame else s) = { s with redis := redis } := by
      cases ok
      · exact ⟨s.redis, rfl⟩
      · unfold publishLast
        simp only [if_true]
        split
        · exact ⟨s.redis, rfl⟩
        · exact ⟨_, rfl⟩
    obtain ⟨redis, hr⟩ := hredis
    rw [hr]
    exact .publish ok kind key frame redis hm
  · cases h

private theorem effect_writerResume {s t : StoreState α} (h : s.writerResume cfg = some t) :
    Effect cfg s .writerResume t := by
  unfold writerResume at h
  split at h
  · rename_i kind key frame hm
    split_ifs at h with hcfg
    · cases h
      exact .register kind key frame hm hcfg
    · cases h
      exact .bypass kind key frame hm (by simpa using hcfg)
  · cases h

private theorem effect_writerSaved {ok : Bool} {s t : StoreState α}
    (h : s.writerSaved ok = some t) : Effect cfg s (.writerSaved ok) t := by
  unfold writerSaved at h
  split at h
  · rename_i kind key frame hm
    cases h
    exact .saved ok kind key frame hm
  · cases h

private theorem effect_getDf (now : ℚ) (id : ℕ) (key : Key) (limit : ℕ) (s : StoreState α) :
    Effect cfg s (.getDf now id key limit) (s.getDf cfg now id key limit) := by
  unfold getDf
  dsimp only
  split <;> exact .idle _ _ s.redis _ (RamLayer.kept_get cfg now key s.ram)

private theorem effect_finishRead {now : ℚ} {id : ℕ} {s t : StoreState α}
    (h : s.finishRead cfg now id = some t) : Effect cfg s (.finishRead now id) t := by
  unfold finishRead at h
  dsimp only at h
  cases hput : aboutToPut (s.readers id) with
  | none =>
      simp only [hput] at h
      split at h
      · cases h
        exact .idle _ s.ram s.redis _ (.refl _)
      · cases h
        exact .idle _ s.ram s.redis _ (.refl _)
      · cases h
  | some p =>
      obtain ⟨key, f⟩ := p
      simp only [hput] at h
      split at h
      · cases h
        exact .store now id key f _ hput
      · cases h
        exact .store now id key f _ hput
      · cases h

private theorem effect_onFlush {f : WriteBehind α → Option (WriteBehind α)} {a : StoreAction α}
    {s t : StoreState α} (hop : ∀ w, f s.wb = some w → FlushOp cfg s.wb a w)
    (h : s.onFlush f = some t) : Effect cfg s a t := by
  unfold onFlush at h
  obtain ⟨w, hw, rfl⟩ := Option.map_eq_some_iff.mp h
  exact .flush (hop w hw)

/-- Every law below looks at a step through this lemma. -/
theorem step_effect {s t : StoreState α} {a : StoreAction α} (h : step cfg s a = some t) :
    Effect cfg s a t := by
  cases a with
  | putBars now key bars => exact effect_putBars cfg h
  | enforceTailLimit now key limit => exact effect_enforceTailLimit cfg h
  | writerRedis ok => exact effect_writerRedis cfg h
  | writerResume => exact effect_writerResume cfg h
  | writerSaved ok => exact effect_writerSaved cfg h
  | getDf now id key limit =>
      cases h
      exact effect_getDf cfg now id key limit s
  | readRedis id ok =>
      simp only [step, readRedis] at h
      split at h
      · cases h
        exact .idle _ s.ram s.redis _ (.refl _)
      · cases h
  | loadBars nowMs id =>
      simp only [step, loadBars] at h
      split at h
      · cases h
        exact .idle _ s.ram s.redis _ (.refl _)
      · cases h
        exact .idle _ s.ram s.redis _ (.refl _)
      · cases h
  | finishRead now id => exact effect_finishRead cfg h
  | warmup id symbols interval barsNeeded =>
      cases h
      exact .idle _ s.ram s.redis _ (.refl _)
  | redisExpire key =>
      cases h
      exact .idle _ s.ram _ s.readers (.refl _)
  | setPriority symbol level =>
      cases h
      exact .idle _ _ s.redis s.readers (RamLayer.kept_setPriority symbol level s.ram)
  | wake now =>
      simp only [step, wake] at h
      split at h
      · rename_i hm
        cases h
        exact .wake now hm
      · cases h
  | startMaintenance => exact effect_onFlush cfg (fun _ => .start) h
  | saveWritten => exact effect_onFlush cfg (fun _ => .written) h
  | saveReturned => exact effect_onFlush cfg (fun _ => .returned) h
  | saveRaised => exact effect_onFlush cfg (fun _ => .raised) h
  | backoffElapsed => exact effect_onFlush cfg (fun _ => .elapsed) h
  | stopMaintenance => exact effect_onFlush cfg (fun _ => .stop) h
  | threadWritten i => exact effect_onFlush cfg (fun _ => .thread i) h

end StoreState

end SmcPipeline
