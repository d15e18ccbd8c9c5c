import SmcPipeline.RamLayer
import Mathlib.Data.List.Perm.Basic

/-!
# The write-behind queue

`_flush_q`, `_flush_pending` and the maintenance task that drains them, from
`data/unified_store.py`. A frame registered by a writer carries a stamp, its rank
among all registrations; the log of registrations and the stamps are kept for the
statements only and no operation branches on them.

The maintenance task is cut at its awaits: the sleep, each `disk.save_bars` and
the pause after a failed save. Between popping a key and the return of its save
the frame is in neither of the two structures. A save runs in a thread of the
executor, which a cancellation of the task does not stop: the file may be replaced
after the task has gone on.
-/

namespace SmcPipeline

structure Registered (α : Type*) where
  frame : Frame α
  stamp : ℕ

/-- `owed` are the open times that writers of the key had accepted by then. -/
structure Registration where
  key : Key
  stamp : ℕ
  owed : List ℤ

/-- Where the maintenance task is suspended. `final` marks the forced drain of the
cancellation handler and `left` the rounds of the drain loop still to come;
`written` tells whether the save has replaced the snapshot file already. -/
inductive Maintenance (α : Type*)
  | stopped
  | sleeping
  | saving (final : Bool) (key : Key) (df : Registered α) (written : Bool) (left : ℕ)
  | backoff (final : Bool)

/-- `threads` are the frames of cancelled saves that a thread may still write. -/
structure WriteBehind (α : Type*) where
  disk : Key → Option (Registered α)
  flushQ : List Key
  flushPending : OrderedDict Key (Registered α)
  flushBatchLimit : ℕ
  maint : Maintenance α
  threads : List (Key × Registered α)
  log : List Registration

/-- Which writer registers: they test for a queued key in different places. -/
inductive WriterKind
  | putBars
  | enforceTailLimit
deriving DecidableEq, Repr

namespace WriteBehind

variable {α : Type*} (profile : StoreProfile)

def newest (w : WriteBehind α) (key : Key) : Option ℕ :=
  (w.log.find? fun r => r.key = key).map Registration.stamp

def enqueue (kind : WriterKind) (key : Key) (w : WriteBehind α) : List Key :=
  match kind with
  | .putBars => if key ∈ w.flushPending.keys then w.flushQ else w.flushQ ++ [key]
  | .enforceTailLimit => if key ∈ w.flushQ then w.flushQ else w.flushQ ++ [key]

def register (kind : WriterKind) (key : Key) (frame : Frame α) (owed : List ℤ)
    (w : WriteBehind α) : WriteBehind α :=
  let stamp := w.log.length + 1
  { w with
    flushQ := w.enqueue kind key
    flushPending := w.flushPending.set key ⟨frame, stamp⟩
    log := ⟨key, stamp, owed⟩ :: w.log }

/-- `disk.save_bars` called by a writer, with write-behind switched off. -/
def saveDirect (key : Key) (frame : Frame α) (w : WriteBehind α) : WriteBehind α :=
  { w with disk := Function.update w.disk key (some ⟨frame, (w.newest key).getD 0⟩) }

/-- Rounds of the drain loop up to the next save: keys without a pending frame are
skipped. -/
def popNext : ℕ → List Key → OrderedDict Key (Registered α) →
    Option (Key × Registered α × ℕ) × List Key × OrderedDict Key (Registered α)
  | 0, q, pending => (none, q, pending)
  | _ + 1, [], pending => (none, [], pending)
  | n + 1, key :: q, pending =>
    match pending.get? key with
    | none => popNext n q pending
    | some df => (some (key, df, n), q, pending.erase key)

def leaveDrain (final : Bool) (w : WriteBehind α) : WriteBehind α :=
  { w with maint := if final then .stopped else .sleeping }

def advance (final : Bool) (rounds : ℕ) (w : WriteBehind α) : WriteBehind α :=
  match popNext rounds w.flushQ w.flushPending with
  | (none, q, pending) => leaveDrain final { w with flushQ := q, flushPending := pending }
  | (some (key, df, left), q, pending) =>
    { w with flushQ := q, flushPending := pending, maint := .saving final key df false left }

/-- `target_limit` for a backlog. -/
def targetLimit (size : ℕ) : ℕ :=
  if 800 ≤ size then 64
  else if 400 ≤ size then 32
  else if 200 ≤ size then 16
  else profile.flushBatchMax

/-- `_drain_flush_queue` up to its first await; only the final drain is forced. -/
def drainFlushQueue (final : Bool) (w : WriteBehind α) : WriteBehind α :=
  let size := w.flushQ.length
  if size = 0 then leaveDrain final w
  else
    let limit := targetLimit profile size
    advance final (if final then size else min limit size) { w with flushBatchLimit := limit }

def saveWritten (w : WriteBehind α) : Option (WriteBehind α) :=
  match w.maint with
  | .saving final key df false left =>
    some { w with
      disk := Function.update w.disk key (some df)
      maint := .saving final key df true left }
  | _ => none

def saveReturned (w : WriteBehind α) : Option (WriteBehind α) :=
  match w.maint with
  | .saving final _ _ true left => some (advance final left w)
  | _ => none

/-- The handler of a failed save puts the popped frame back in front. -/
def saveRaised (w : WriteBehind α) : Option (WriteBehind α) :=
  match w.maint with
  | .saving final key df _ _ =>
    some { w with
      flushQ := key :: w.flushQ
      flushPending := w.flushPending.set key df
      maint := .backoff final }
  | _ => none

def backoffElapsed (w : WriteBehind α) : Option (WriteBehind α) :=
  match w.maint with
  | .backoff final => some (leaveDrain final w)
  | _ => none

def startMaintenance (w : WriteBehind α) : Option (WriteBehind α) :=
  match w.maint with
  | .stopped => some { w with maint := .sleeping }
  | _ => none

/-- The save is left to its thread, unless that has written already. -/
def leaveSave (key : Key) (df : Registered α) (written : Bool) (w : WriteBehind α) :
    WriteBehind α :=
  { w with threads := if written then w.threads else w.threads ++ [(key, df)] }

/-- `stop_maintenance` cancels the task at its await. `CancelledError` passes the
handler of failed saves, so a frame in the middle of its save is not put back, and
the loop's own handler runs the final drain. -/
def stopMaintenance (w : WriteBehind α) : Option (WriteBehind α) :=
  match w.maint with
  | .sleeping => some (drainFlushQueue profile true w)
  | .saving false key df written _ =>
    some (drainFlushQueue profile true (w.leaveSave key df written))
  | .backoff false => some (drainFlushQueue profile true w)
  | _ => none

/-- The thread of a cancelled save replaces the file. -/
def threadWritten (i : ℕ) (w : WriteBehind α) : Option (WriteBehind α) :=
  (w.threads[i]?).map fun save =>
    { w with
      disk := Function.update w.disk save.1 (some save.2)
      threads := w.threads.eraseIdx i }

@[simp] theorem leaveDrain_log (final : Bool) (w : WriteBehind α) :
    (w.leaveDrain final).log = w.log := rfl

@[simp] theorem leaveSave_log (key : Key) (df : Registered α) (written : Bool)
    (w : WriteBehind α) : (w.leaveSave key df written).log = w.log := rfl

@[simp] theorem advance_log (final : Bool) (rounds : ℕ) (w : WriteBehind α) :
    (w.advance final rounds).log = w.log := by
  unfold advance
  split <;> rfl

@[simp] theorem drainFlushQueue_log (final : Bool) (w : WriteBehind α) :
    (w.drainFlushQueue profile final).log = w.log := by
  unfold drainFlushQueue
  dsimp only
  split_ifs <;> simp

/-- What the drain loop does up to its next await: it leaves, or it takes out one
pending frame. -/
inductive Advanced (w v : WriteBehind α) : Prop
  | left : v.disk = w.disk → v.flushPending = w.flushPending →
      (∀ final key df written left, v.maint ≠ .saving final key df written left) → Advanced w v
  | popped (final : Bool) (key : Key) (df : Registered α) (rounds : ℕ) :
      v.disk = w.disk → w.flushPending.get? key = some df →
      v.flushPending = w.flushPending.erase key →
      v.maint = .saving final key df false rounds → Advanced w v

theorem popNext_spec (n : ℕ) (q : List Key) (pending : OrderedDict Key (Registered α)) :
    match popNext n q pending with
    | (none, _, rest) => rest = pending
    | (some (key, df, _), _, rest) => pending.get? key = some df ∧ rest = pending.erase key := by
  induction n generalizing q with
  | zero => rfl
  | succ n ih =>
      cases q with
      | nil => rfl
      | cons key q =>
          simp only [popNext]
          cases hp : pending.get? key with
          | none => exact ih q
          | some df => exact ⟨hp, rfl⟩

theorem advanced_leaveDrain (final : Bool) (w : WriteBehind α) :
    Advanced w (w.leaveDrain final) := by
  refine .left rfl rfl fun f key df written left he => ?_
  cases final <;> simp [leaveDrain] at he

theorem advanced_advance (final : Bool) (rounds : ℕ) (w : WriteBehind α) :
    Advanced w (w.advance final rounds) := by
  have hspec := popNext_spec rounds w.flushQ w.flushPending
  unfold advance
  split
  · rename_i q pending heq
    rw [heq] at hspec
    refine .left rfl hspec fun f key df written left he => ?_
    cases final <;> simp [leaveDrain] at he
  · rename_i key df left q pending heq
    rw [heq] at hspec
    exact .popped final key df left rfl hspec.1 hspec.2 rfl

theorem advanced_drainFlushQueue (final : Bool) (w : WriteBehind α) :
    Advanced w (w.drainFlushQueue profile final) := by
  have hlimit : ∀ limit v, Advanced { w with flushBatchLimit := limit } v → Advanced w v := by
    intro limit v h
    cases h with
    | left h₁ h₂ h₃ => exact .left h₁ h₂ h₃
    | popped f key df rounds h₁ h₂ h₃ h₄ => exact .popped f key df rounds h₁ h₂ h₃ h₄
  unfold drainFlushQueue
  dsimp only
  split_ifs
  · exact advanced_leaveDrain final w
  · exact hlimit _ _ (advanced_advance _ _ _)
  · exact hlimit _ _ (advanced_advance _ _ _)

def PendingAt (w : WriteBehind α) (key : Key) (n : ℕ) : Prop :=
  ∃ r, w.flushPending.get? key = some r ∧ r.stamp = n

def Writing (w : WriteBehind α) (key : Key) (n : ℕ) : Prop :=
  ∃ final df written left, w.maint = .saving final key df written left ∧ df.stamp = n

def OnDisk (w : WriteBehind α) (key : Key) (n : ℕ) : Prop :=
  ∃ r, w.disk key = some r ∧ r.stamp = n

/-- Stamps are ranks: no registration is younger than the newest one of its key. -/
def Stamped (log : List Registration) : Prop :=
  ∀ m ∈ log, m.stamp ≤ log.length ∧
    ∃ r, log.find? (fun r => r.key = m.key) = some r ∧ m.stamp ≤ r.stamp

/-- Nothing registered has been overtaken by an older frame: a pending frame is
the newest one of its key, and the newest one is pending, being written or on
disk. -/
structure Ordered (w : WriteBehind α) : Prop where
  stamped : Stamped w.log
  nodup : w.flushQ.Nodup
  queued : ∀ key, key ∈ w.flushQ ↔ key ∈ w.flushPending.keys
  pending : ∀ key r, w.flushPending.get? key = some r → w.newest key = some r.stamp
  held : ∀ key n, w.newest key = some n → w.PendingAt key n ∨ w.Writing key n ∨ w.OnDisk key n
  rounds : ∀ final key df written left, w.maint = .saving final key df written left →
    left ≤ w.flushQ.length
  written : ∀ final key df left, w.maint = .saving final key df true left →
    w.flushPending.get? key = none → w.disk key = some df
  writing : ∀ final key df written left, w.maint = .saving final key df written left →
    w.flushPending.get? key = none → w.newest key = some df.stamp

/-- The same with nothing in the middle of a save. -/
structure Settled (w : WriteBehind α) : Prop where
  stamped : Stamped w.log
  nodup : w.flushQ.Nodup
  queued : ∀ key, key ∈ w.flushQ ↔ key ∈ w.flushPending.keys
  pending : ∀ key r, w.flushPending.get? key = some r → w.newest key = some r.stamp
  held : ∀ key n, w.newest key = some n → w.PendingAt key n ∨ w.OnDisk key n

theorem Settled.ordered {w : WriteBehind α} (h : w.Settled)
    (hm : ∀ final key df written left, w.maint ≠ .saving final key df written left) :
    w.Ordered where
  stamped := h.stamped
  nodup := h.nodup
  queued := h.queued
  pending := h.pending
  held key n hn := (h.held key n hn).imp_right Or.inr
  rounds _ _ _ _ _ he := (hm _ _ _ _ _ he).elim
  written _ _ _ _ he _ := (hm _ _ _ _ _ he).elim
  writing _ _ _ _ _ he := (hm _ _ _ _ _ he).elim

theorem Ordered.settled {w : WriteBehind α} (h : w.Ordered)
    (hm : ∀ key n, w.newest key = some n → w.Writing key n →
      w.PendingAt key n ∨ w.OnDisk key n) : w.Settled where
  stamped := h.stamped
  nodup := h.nodup
  queued := h.queued
  pending := h.pending
  held key n hn := by
    rcases h.held key n hn with hp | hw | hd
    · exact Or.inl hp
    · exact hm key n hn hw
    · exact Or.inr hd

theorem Ordered.settled_of_idle {w : WriteBehind α} (h : w.Ordered)
    (hm : ∀ final key df written left, w.maint ≠ .saving final key df written left) :
    w.Settled := by
  refine h.settled fun key n _ hw => ?_
  obtain ⟨final, df, written, left, he, -⟩ := hw
  exact (hm _ _ _ _ _ he).elim

/-- A save that has replaced the file, or that a newer registration has overtaken,
can be forgotten. -/
theorem Ordered.settled_of_saving {w : WriteBehind α} (h : w.Ordered)
    {final : Bool} {key : Key} {df : Registered α} {written : Bool} {left : ℕ}
    (hm : w.maint = .saving final key df written left)
    (hsafe : written = true ∨ (w.flushPending.get? key).isSome) : w.Settled := by
  refine h.settled fun key' n hn hw => ?_
  obtain ⟨final', df', written', left', he, hdf⟩ := hw
  rw [hm] at he
  cases he
  cases hp : w.flushPending.get? key with
  | some r =>
      have hr := h.pending key r hp
      rw [hn] at hr
      exact Or.inl ⟨r, hp, (Option.some.inj hr).symm⟩
  | none =>
      have hwritten : written = true := by simpa [hp] using hsafe
      subst hwritten
      exact Or.inr ⟨df, h.written _ _ _ _ hm hp, hdf⟩

theorem Stamped.cons {log : List Registration} (h : Stamped log) (key : Key) (owed : List ℤ) :
    Stamped (⟨key, log.length + 1, owed⟩ :: log) := by
  intro m hm
  by_cases hk : key = m.key
  · refine ⟨?_, ⟨key, log.length + 1, owed⟩, by simp [hk], ?_⟩
    · rcases List.mem_cons.mp hm with rfl | hm
      · simp
      · exact (h m hm).1.trans (by simp)
    · rcases List.mem_cons.mp hm with rfl | hm
      · exact le_rfl
      · exact (h m hm).1.trans (by simp)
  · rcases List.mem_cons.mp hm with rfl | hm
    · exact (hk rfl).elim
    · obtain ⟨hle, r, hr, hs⟩ := h m hm
      exact ⟨hle.trans (by simp), r, by simpa [hk] using hr, hs⟩

theorem Stamped.le_newest {w : WriteBehind α} (h : Stamped w.log) {m : Registration}
    (hm : m ∈ w.log) : ∃ n, w.newest m.key = some n ∧ m.stamp ≤ n := by
  obtain ⟨-, r, hr, hs⟩ := h m hm
  exact ⟨r.stamp, by simp [newest, hr], hs⟩

theorem newest_register (kind : WriterKind) (key key' : Key) (frame : Frame α)
    (owed : List ℤ) (w : WriteBehind α) :
    (w.register kind key frame owed).newest key' =
      if key' = key then some (w.log.length + 1) else w.newest key' := by
  by_cases h : key' = key
  · simp [newest, register, h]
  · simp [newest, register, Ne.symm h, h]

/-- Both writers append exactly the keys that are not queued. -/
theorem enqueue_eq {w : WriteBehind α}
    (hq : ∀ key, key ∈ w.flushQ ↔ key ∈ w.flushPending.keys) (kind : WriterKind) (key : Key) :
    w.enqueue kind key = if key ∈ w.flushQ then w.flushQ else w.flushQ ++ [key] := by
  cases kind
  · simp only [enqueue, hq key]
  · rfl

/-- A key that is not pending after a registration was not before, and is another one. -/
theorem get?_register_eq_none {kind : WriterKind} {key key' : Key} {frame : Frame α}
    {owed : List ℤ} {w : WriteBehind α}
    (h : (w.register kind key frame owed).flushPending.get? key' = none) :
    key' ≠ key ∧ w.flushPending.get? key' = none := by
  change (w.flushPending.set key _).get? key' = none at h
  rw [OrderedDict.get?_set] at h
  split_ifs at h with hk
  exact ⟨hk, h⟩

theorem ordered_register {w : WriteBehind α} (h : w.Ordered) (kind : WriterKind) (key : Key)
    (frame : Frame α) (owed : List ℤ) : (w.register kind key frame owed).Ordered := by
  have henq := enqueue_eq h.queued kind key
  refine ⟨h.stamped.cons key owed, ?_, ?_, ?_, ?_, ?_,
    fun final key' df left hm hp => h.written _ _ _ _ hm (get?_register_eq_none hp).2, ?_⟩
  · change (w.enqueue kind key).Nodup
    rw [henq]
    split_ifs with hmem
    · exact h.nodup
    · rw [List.nodup_append]
      refine ⟨h.nodup, by simp, ?_⟩
      intro a ha b hb
      obtain rfl : b = key := by simpa using hb
      exact fun hab => hmem (hab ▸ ha)
  · intro key'
    change key' ∈ w.enqueue kind key ↔ key' ∈ (w.flushPending.set key _).keys
    rw [henq, OrderedDict.mem_keys_set, ← h.queued key']
    split_ifs with hmem
    · refine ⟨Or.inr, ?_⟩
      rintro (rfl | hk)
      · exact hmem
      · exact hk
    · rw [List.mem_append, List.mem_singleton, or_comm]
  · intro key' r hr
    change (w.flushPending.set key _).get? key' = some r at hr
    rw [OrderedDict.get?_set] at hr
    rw [newest_register]
    split_ifs at hr ⊢ with hk
    · cases hr
      rfl
    · exact h.pending key' r hr
  · intro key' n hn
    rw [newest_register] at hn
    split_ifs at hn with hk
    · subst hk
      exact Or.inl ⟨_, OrderedDict.get?_set_self _ _ _, Option.some.inj hn⟩
    · apply (h.held key' n hn).imp_left
      rintro ⟨r, hr, hs⟩
      refine ⟨r, ?_, hs⟩
      change (w.flushPending.set key _).get? key' = some r
      rw [OrderedDict.get?_set, if_neg hk, hr]
  · intro final key' df written left hm
    apply (h.rounds _ _ _ _ _ hm).trans
    change w.flushQ.length ≤ (w.enqueue kind key).length
    rw [henq]
    split_ifs <;> simp
  · intro final key' df written left hm hp
    obtain ⟨hk, hp⟩ := get?_register_eq_none hp
    rw [newest_register, if_neg hk]
    exact h.writing _ _ _ _ _ hm hp

theorem ordered_saveDirect {w : WriteBehind α} (h : w.Ordered) (key : Key) (frame : Frame α)
    (hidle : ∀ final key df written left, w.maint ≠ .saving final key df written left) :
    (w.saveDirect key frame).Ordered := by
  refine Settled.ordered ⟨h.stamped, h.nodup, h.queued, h.pending, ?_⟩ hidle
  intro key' n hn
  rcases (h.settled_of_idle hidle).held key' n hn with hp | ⟨r, hr, hs⟩
  · exact Or.inl hp
  · right
    by_cases hk : key' = key
    · subst hk
      have hn' : w.newest key' = some n := hn
      exact ⟨⟨frame, n⟩, by simp [saveDirect, hn'], rfl⟩
    · exact ⟨r, by simp [saveDirect, Function.update_of_ne hk, hr], hs⟩

theorem Settled.leaveDrain {w : WriteBehind α} (h : w.Settled) (final : Bool) :
    (w.leaveDrain final).Ordered := by
  refine Settled.ordered ⟨h.stamped, h.nodup, h.queued, h.pending, h.held⟩ ?_
  intro f key df written left he
  cases final <;> simp [WriteBehind.leaveDrain] at he

/-- The drain loop never meets an empty queue or a key without its frame: the first
round takes the head of the queue. -/
theorem Settled.advance {w : WriteBehind α} (h : w.Settled) (final : Bool) {rounds : ℕ}
    (hr : rounds ≤ w.flushQ.length) : (w.advance final rounds).Ordered := by
  cases rounds with
  | zero => exact Settled.leaveDrain (w := { w with flushQ := w.flushQ }) h final
  | succ n =>
      cases hq : w.flushQ with
      | nil => simp [hq] at hr
      | cons key q =>
          have hmem : key ∈ w.flushPending.keys := (h.queued key).mp (by simp [hq])
          obtain ⟨df, hdf⟩ := Option.isSome_iff_exists.mp ((w.flushPending.mem_keys_iff key).mp hmem)
          have hnodup := h.nodup
          rw [hq, List.nodup_cons] at hnodup
          have hw : w.advance final (n + 1) =
              { w with
                flushQ := q
                flushPending := w.flushPending.erase key
                maint := .saving final key df false n } := by
            simp only [WriteBehind.advance, hq, popNext, hdf]
          rw [hw]
          have hget : ∀ key', key' ≠ key →
              (w.flushPending.erase key).get? key' = w.flushPending.get? key' :=
            fun key' hk => OrderedDict.get?_erase_of_ne _ hk
          refine ⟨h.stamped, hnodup.2, ?_, ?_, ?_, ?_, ?_, ?_⟩
          · intro key'
            rw [OrderedDict.mem_keys_erase, ← h.queued key', hq, List.mem_cons]
            constructor
            · exact fun hk => ⟨fun e => hnodup.1 (e ▸ hk), Or.inr hk⟩
            · rintro ⟨hne, rfl | hk⟩
              · exact (hne rfl).elim
              · exact hk
          · intro key' r hr'
            dsimp only at hr'
            rw [OrderedDict.get?_erase] at hr'
            split_ifs at hr' with hk
            exact h.pending key' r hr'
          · intro key' n' hn'
            by_cases hk : key' = key
            · subst hk
              refine Or.inr (Or.inl ⟨final, df, false, n, rfl, ?_⟩)
              exact Option.some.inj ((h.pending key' df hdf).symm.trans hn')
            · rcases h.held key' n' hn' with ⟨r, hr', hs⟩ | hd
              · exact Or.inl ⟨r, (hget key' hk).trans hr', hs⟩
              · exact Or.inr (Or.inr hd)
          · intro final' key' df' written left he
            cases he
            have hlen : n + 1 ≤ q.length + 1 := by simpa [hq] using hr
            exact Nat.le_of_succ_le_succ hlen
          · intro final' key' df' left he _
            cases he
          · intro final' key' df' written left he _
            cases he
            exact h.pending key df hdf

theorem Settled.leaveSave {w : WriteBehind α} (h : w.Settled) (key : Key) (df : Registered α)
    (written : Bool) : (w.leaveSave key df written).Settled :=
  ⟨h.stamped, h.nodup, h.queued, h.pending, h.held⟩

theorem Settled.drainFlushQueue {w : WriteBehind α} (h : w.Settled) (final : Bool) :
    (w.drainFlushQueue profile final).Ordered := by
  have hlimit : Settled { w with flushBatchLimit := targetLimit profile w.flushQ.length } :=
    ⟨h.stamped, h.nodup, h.queued, h.pending, h.held⟩
  unfold WriteBehind.drainFlushQueue
  dsimp only
  split_ifs
  · exact h.leaveDrain final
  · exact hlimit.advance final le_rfl
  · exact hlimit.advance final (min_le_right _ _)

theorem ordered_saveWritten {w v : WriteBehind α} (h : w.Ordered)
    (hs : w.saveWritten = some v) : v.Ordered := by
  unfold saveWritten at hs
  split at hs
  · rename_i final key df left hm
    cases hs
    refine ⟨h.stamped, h.nodup, h.queued, h.pending, ?_, ?_, ?_, ?_⟩
    · intro key' n hn
      rcases h.held key' n hn with hp | ⟨f, df', wr, l, he, hst⟩ | ⟨r, hr, hst⟩
      · exact Or.inl hp
      · rw [hm] at he
        cases he
        exact Or.inr (Or.inr ⟨df, by simp, hst⟩)
      · by_cases hk : key' = key
        · subst hk
          cases hp : w.flushPending.get? key' with
          | none =>
              have hnew := h.writing _ _ _ _ _ hm hp
              have hn' : w.newest key' = some n := hn
              rw [hn'] at hnew
              exact Or.inr (Or.inr ⟨df, by simp, (Option.some.inj hnew).symm⟩)
          | some p =>
              have hnew := h.pending key' p hp
              have hn' : w.newest key' = some n := hn
              rw [hn'] at hnew
              exact Or.inl ⟨p, hp, (Option.some.inj hnew).symm⟩
        · exact Or.inr (Or.inr ⟨r, by simp [Function.update_of_ne hk, hr], hst⟩)
    · intro final' key' df' written left' he
      cases he
      exact h.rounds _ _ _ _ _ hm
    · intro final' key' df' left' he _
      cases he
      simp
    · intro final' key' df' written left' he hp
      cases he
      exact h.writing _ _ _ _ _ hm hp
  · cases hs

theorem ordered_saveReturned {w v : WriteBehind α} (h : w.Ordered)
    (hs : w.saveReturned = some v) : v.Ordered := by
  unfold saveReturned at hs
  split at hs
  · rename_i final key df left hm
    cases hs
    exact (h.settled_of_saving hm (Or.inl rfl)).advance final (h.rounds _ _ _ _ _ hm)
  · cases hs

/-- Putting the frame back keeps the order when no newer one has been registered. -/
theorem ordered_saveRaised {w v : WriteBehind α} (h : w.Ordered)
    (hs : w.saveRaised = some v)
    (hsafe : ∀ final key df written left, w.maint = .saving final key df written left →
      w.flushPending.get? key = none) : v.Ordered := by
  unfold saveRaised at hs
  split at hs
  · rename_i final key df written left hm
    cases hs
    have hnone := hsafe _ _ _ _ _ hm
    have hnew := h.writing _ _ _ _ _ hm hnone
    have hnot : key ∉ w.flushQ := fun hq =>
      (w.flushPending.get?_eq_none_iff key).mp hnone ((h.queued key).mp hq)
    refine Settled.ordered ⟨h.stamped, List.nodup_cons.mpr ⟨hnot, h.nodup⟩, ?_, ?_, ?_⟩ (by simp)
    · intro key'
      rw [OrderedDict.mem_keys_set, List.mem_cons, h.queued key']
    · intro key' r hr
      dsimp only at hr
      rw [OrderedDict.get?_set] at hr
      split_ifs at hr with hk
      · cases hr
        subst hk
        exact hnew
      · exact h.pending key' r hr
    · intro key' n hn
      have hn' : w.newest key' = some n := hn
      by_cases hk : key' = key
      · subst hk
        rw [hnew] at hn'
        exact Or.inl ⟨df, by simp, Option.some.inj hn'⟩
      · have hget : (w.flushPending.set key df).get? key' = w.flushPending.get? key' := by
          rw [OrderedDict.get?_set, if_neg hk]
        rcases h.held key' n hn' with ⟨r, hr, hst⟩ | ⟨f, df', wr, l, he, -⟩ | hd
        · exact Or.inl ⟨r, hget.trans hr, hst⟩
        · rw [hm] at he
          cases he
          exact (hk rfl).elim
        · exact Or.inr hd
  · cases hs

theorem ordered_backoffElapsed {w v : WriteBehind α} (h : w.Ordered)
    (hs : w.backoffElapsed = some v) : v.Ordered := by
  unfold backoffElapsed at hs
  split at hs
  · rename_i final hm
    cases hs
    exact (h.settled_of_idle (by simp [hm])).leaveDrain final
  · cases hs

theorem ordered_startMaintenance {w v : WriteBehind α} (h : w.Ordered)
    (hs : w.startMaintenance = some v) : v.Ordered := by
  unfold startMaintenance at hs
  split at hs
  · rename_i hm
    cases hs
    have hset := h.settled_of_idle (by simp [hm])
    exact Settled.ordered ⟨hset.stamped, hset.nodup, hset.queued, hset.pending, hset.held⟩ (by simp)
  · cases hs

/-- A cancelled save loses nothing when it has written its frame or a newer one
is pending. -/
theorem ordered_stopMaintenance {w v : WriteBehind α} (h : w.Ordered)
    (hs : w.stopMaintenance profile = some v)
    (hsafe : ∀ final key df written left, w.maint = .saving final key df written left →
      written = true ∨ (w.flushPending.get? key).isSome) : v.Ordered := by
  unfold stopMaintenance at hs
  split at hs
  · rename_i hm
    cases hs
    exact (h.settled_of_idle (by simp [hm])).drainFlushQueue profile true
  · rename_i key df written left hm
    cases hs
    exact ((h.settled_of_saving hm (hsafe _ _ _ _ _ hm)).leaveSave key df written).drainFlushQueue
      profile true
  · rename_i hm
    cases hs
    exact (h.settled_of_idle (by simp [hm])).drainFlushQueue profile true
  · cases hs

/-- A late write does no harm while a newer frame of its key is still to be written. -/
theorem ordered_threadWritten {w v : WriteBehind α} {i : ℕ} (h : w.Ordered)
    (hs : w.threadWritten i = some v)
    (hsafe : ∀ save, w.threads[i]? = some save → (w.flushPending.get? save.1).isSome ∨
      ∃ final df left, w.maint = .saving final save.1 df false left) : v.Ordered := by
  obtain ⟨⟨key, late⟩, hsave, rfl⟩ := Option.map_eq_some_iff.mp hs
  have hnewer := hsafe _ hsave
  refine ⟨h.stamped, h.nodup, h.queued, h.pending, ?_, h.rounds, ?_, h.writing⟩
  · intro key' n hn
    have hn' : w.newest key' = some n := hn
    by_cases hk : key' = key
    · subst hk
      cases hp : w.flushPending.get? key' with
      | some r => exact Or.inl ⟨r, hp, Option.some.inj ((h.pending key' r hp).symm.trans hn')⟩
      | none =>
          obtain ⟨final, df, left, hm⟩ := hnewer.resolve_left (by simp [hp])
          have hnew := h.writing _ _ _ _ _ hm hp
          exact Or.inr (Or.inl ⟨final, df, false, left, hm, Option.some.inj (hnew.symm.trans hn')⟩)
    · rcases h.held key' n hn' with hp | hw | ⟨r, hr, hst⟩
      · exact Or.inl hp
      · exact Or.inr (Or.inl hw)
      · exact Or.inr (Or.inr ⟨r, by simp [Function.update_of_ne hk, hr], hst⟩)
  · intro final key' df left hm hp
    have hk : key' ≠ key := by
      rintro rfl
      rcases hnewer with hsome | ⟨final', df', left', hm'⟩
      · simp [show w.flushPending.get? key' = none from hp] at hsome
      · have hm : w.maint = .saving final key' df true left := hm
        rw [hm'] at hm
        cases hm
    have hold := h.written _ _ _ _ hm hp
    simp [Function.update_of_ne hk, hold]

end WriteBehind

end SmcPipeline
