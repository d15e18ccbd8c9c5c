import SmcPipeline.RamLayer
import SmcPipeline.Runs

/-!
# The books of the RAM layer

The operations of `RamLayer` as steps of one system: the frames, the LRU list and
the byte counter are three structures, and each operation updates them in an order
of its own. `Balanced` says that they agree. Every operation reads the clock by
itself, so the readings of a run may go in any order.
-/

namespace SmcPipeline

open Runs

inductive RamOp (α : Type*)
  | put (now : ℚ) (key : Key) (df : Frame α)
  | get (now : ℚ) (key : Key)
  | delete (key : Key) (reason : Reason)
  | sweep (now : ℚ)
  | setPriority (symbol : String) (level : ℤ)

namespace RamLayer

variable {α : Type*} (cfg : StoreConfig α)

/-- `get` with the `KeyError` that `move_to_end` raises for a key the LRU list lacks. -/
def getStrict (now : ℚ) (key : Key) (ram : RamLayer α) :
    Option (Option (Frame α) × RamLayer α) :=
  match ram.store.get? key with
  | none => some (none, ram)
  | some e =>
    if e.expired now then some (none, ram.delete cfg key .ttlExpired)
    else (ram.lru.get? key).map fun _ => (some e.df, { ram with lru := ram.lru.moveToEnd key })

/-- A call that raises has no successor. -/
def step (ram : RamLayer α) : RamOp α → Option (RamLayer α)
  | .put now key df => some (ram.put cfg now key df)
  | .get now key => (ram.getStrict cfg now key).map Prod.snd
  | .delete key reason => some (ram.delete cfg key reason)
  | .sweep now => some (ram.sweep cfg now)
  | .setPriority symbol level => some (ram.setPriority symbol level)

/-- The estimates of the stored frames, added up. -/
def storedBytes (ram : RamLayer α) : ℤ :=
  ram.store.total fun e => cfg.estimateBytes e.df

def ramLimitBytes : ℤ := cfg.profile.ramLimitMb * 1024 * 1024

structure Balanced (ram : RamLayer α) : Prop where
  keys : ∀ key, key ∈ ram.store.keys ↔ key ∈ ram.lru.keys
  bytes : ram.bytesInRam = ram.storedBytes cfg

theorem balanced_empty : Balanced cfg (empty : RamLayer α) where
  keys _ := Iff.rfl
  bytes := rfl

variable {cfg} {ram : RamLayer α}

theorem balanced_setPriority (h : Balanced cfg ram) (symbol : String) (level : ℤ) :
    Balanced cfg (ram.setPriority symbol level) := ⟨h.keys, h.bytes⟩

theorem balanced_delete (h : Balanced cfg ram) (key : Key) (reason : Reason) :
    Balanced cfg (ram.delete cfg key reason) where
  keys key' := by
    simp only [delete, OrderedDict.mem_keys_erase, h.keys]
  bytes := by
    simp only [delete, storedBytes, OrderedDict.total_erase]
    have hbytes := h.bytes
    unfold storedBytes at hbytes
    cases ram.store.get? key <;> simp [hbytes]

theorem balanced_insert (h : Balanced cfg ram) (now : ℚ) (key : Key) (df : Frame α) :
    Balanced cfg (ram.insert cfg now key df) where
  keys key' := by
    simp only [insert, OrderedDict.moveToEnd_keys, OrderedDict.mem_keys_set, h.keys]
  bytes := by
    simp only [insert, storedBytes, OrderedDict.total_set]
    have hbytes := h.bytes
    unfold storedBytes at hbytes
    cases ram.store.get? key <;> simp [hbytes]

/-- The key that `popitem` takes off the LRU list is erased from it by `delete` again. -/
theorem delete_popFirst {key : Key} {u : Unit} {rest : OrderedDict Key Unit}
    (h : ram.lru.popFirst = some ((key, u), rest)) (reason : Reason) :
    RamLayer.delete cfg key reason { ram with lru := rest } = ram.delete cfg key reason := by
  obtain ⟨-, rfl⟩ := OrderedDict.popFirst_eq_some h
  simp [delete]

theorem balanced_evictLoop (count removed : ℤ) (keys : List Key) {ram : RamLayer α}
    (h : Balanced cfg ram) : Balanced cfg (evictLoop cfg count removed keys ram) := by
  induction keys generalizing removed ram with
  | nil => exact h
  | cons key rest ih =>
      simp only [evictLoop]
      split_ifs
      · exact ih removed h
      · exact balanced_delete h key .hotQuota
      · exact ih _ (balanced_delete h key .hotQuota)

theorem balanced_evictOldest (limit : ℤ) (fuel : ℕ) {ram : RamLayer α} (h : Balanced cfg ram) :
    Balanced cfg (evictOldest cfg limit fuel ram) := by
  induction fuel generalizing ram with
  | zero => exact h
  | succ fuel ih =>
      simp only [evictOldest]
      split_ifs
      · split
        · exact h
        · rename_i hpop
          rw [delete_popFirst hpop]
          exact ih (balanced_delete h _ .ramQuota)
      · exact h

/-- With fuel for every key of the LRU list the loop ends under the limit or with
nothing left to evict. -/
theorem evictOldest_within (limit : ℤ) (fuel : ℕ) {ram : RamLayer α}
    (hfuel : ram.lru.length ≤ fuel) :
    (evictOldest cfg limit fuel ram).bytesInRam ≤ limit ∨
      (evictOldest cfg limit fuel ram).lru.items = [] := by
  induction fuel generalizing ram with
  | zero => exact Or.inr (List.length_eq_zero_iff.mp (Nat.le_zero.mp hfuel))
  | succ fuel ih =>
      simp only [evictOldest]
      split_ifs with hover
      · split
        · rename_i hpop
          exact Or.inr (OrderedDict.popFirst_eq_none hpop)
        · rename_i rest hpop
          rw [delete_popFirst hpop]
          obtain ⟨hitems, hrest⟩ := OrderedDict.popFirst_eq_some hpop
          refine ih ?_
          rw [OrderedDict.length, hitems, List.length_cons] at hfuel
          change (ram.lru.erase _).items.length ≤ fuel
          rw [← hrest]
          exact Nat.le_of_succ_le_succ hfuel
      · exact Or.inl (not_lt.mp hover)

theorem balanced_enforceQuotas (h : Balanced cfg ram) : Balanced cfg (ram.enforceQuotas cfg) := by
  unfold enforceQuotas
  dsimp only
  split_ifs
  · exact balanced_evictOldest _ _ (balanced_evictLoop _ _ _ h)
  · exact balanced_evictOldest _ _ h

/-- The byte quota at the end of `put` and of `sweep`. -/
def WithinLimit (cfg : StoreConfig α) (ram : RamLayer α) : Prop :=
  ram.bytesInRam ≤ ramLimitBytes cfg ∨ ram.store.items = []

theorem store_eq_nil (h : Balanced cfg ram) (hlru : ram.lru.items = []) : ram.store.items = [] := by
  refine List.eq_nil_iff_forall_not_mem.mpr fun p hp => ?_
  have hkey := (h.keys p.1).mp (List.mem_map_of_mem hp)
  rw [OrderedDict.keys, hlru] at hkey
  cases hkey

theorem within_enforceQuotas (h : Balanced cfg ram) : WithinLimit cfg (ram.enforceQuotas cfg) := by
  have hall := balanced_enforceQuotas h
  refine Or.imp id (store_eq_nil hall) ?_
  unfold enforceQuotas
  dsimp only
  split_ifs <;> exact evictOldest_within _ _ le_rfl

theorem balanced_expire (keys : List Key) {ram : RamLayer α} (h : Balanced cfg ram) :
    Balanced cfg (keys.foldl (fun ram key => ram.delete cfg key .ttlExpired) ram) := by
  induction keys generalizing ram with
  | nil => exact h
  | cons key keys ih => exact ih (balanced_delete h key .ttlExpired)

theorem balanced_sweep (h : Balanced cfg ram) (now : ℚ) : Balanced cfg (ram.sweep cfg now) :=
  balanced_enforceQuotas (balanced_expire _ h)

theorem within_sweep (h : Balanced cfg ram) (now : ℚ) : WithinLimit cfg (ram.sweep cfg now) :=
  within_enforceQuotas (balanced_expire _ h)

/-- With the books balanced a read finds its key in the LRU list. -/
theorem getStrict_eq (h : Balanced cfg ram) (now : ℚ) (key : Key) :
    ram.getStrict cfg now key = some (ram.get cfg now key) := by
  unfold getStrict get
  cases hget : ram.store.get? key with
  | none => rfl
  | some e =>
      have hkey : key ∈ ram.lru.keys :=
        (h.keys key).mp ((ram.store.mem_keys_iff key).mpr (by simp [hget]))
      obtain ⟨place, hplace⟩ :=
        Option.isSome_iff_exists.mp ((ram.lru.mem_keys_iff key).mp hkey)
      by_cases he : e.expired now
      · simp [he]
      · simp [he, hplace]

theorem balanced_get (h : Balanced cfg ram) (now : ℚ) (key : Key) :
    Balanced cfg (ram.get cfg now key).2 := by
  unfold get
  split
  · exact h
  · split_ifs
    · exact balanced_delete h key .ttlExpired
    · exact ⟨fun key' => by rw [h.keys, OrderedDict.moveToEnd_keys], h.bytes⟩

/-- No call raises, and the books still balance after it. -/
theorem exists_step (h : Balanced cfg ram) (op : RamOp α) :
    ∃ after, step cfg ram op = some after ∧ Balanced cfg after := by
  cases op with
  | put now key df => exact ⟨_, rfl, balanced_enforceQuotas (balanced_insert h now key df)⟩
  | get now key =>
      refine ⟨_, ?_, balanced_get h now key⟩
      simp only [step, getStrict_eq h, Option.map_some]
  | delete key reason => exact ⟨_, rfl, balanced_delete h key reason⟩
  | sweep now => exact ⟨_, rfl, balanced_sweep h now⟩
  | setPriority symbol level => exact ⟨_, rfl, balanced_setPriority h symbol level⟩

theorem balanced_step {after : RamLayer α} (h : Balanced cfg ram) {op : RamOp α}
    (hstep : step cfg ram op = some after) : Balanced cfg after := by
  obtain ⟨other, hother, hbalanced⟩ := exists_step h op
  obtain rfl : other = after := Option.some.inj (hother.symm.trans hstep)
  exact hbalanced

/-- Whatever is called, in whatever order and at whatever times: no call raises, the
frames and the LRU list have the same keys, the counter is the sum of the estimates, and
every `put` and `sweep` from there ends under the byte limit or with an empty layer. -/
theorem ram_invariant (cfg : StoreConfig α) (ops : List (RamOp α)) :
    ∃ ram, replay (step cfg) empty ops = some ram ∧
      (∀ key, key ∈ ram.store.keys ↔ key ∈ ram.lru.keys) ∧
      ram.bytesInRam = ram.storedBytes cfg ∧
      (∀ now key, (ram.getStrict cfg now key).isSome) ∧
      (∀ now key df, WithinLimit cfg (ram.put cfg now key df)) ∧
      ∀ now, WithinLimit cfg (ram.sweep cfg now) := by
  obtain ⟨ram, hram, h⟩ := exists_replay (fun _ op h => exists_step h op) (balanced_empty cfg) ops
  refine ⟨ram, hram, h.keys, h.bytes, fun now key => ?_, fun now key df => ?_, fun now => ?_⟩
  · rw [getStrict_eq h]
    rfl
  · exact within_enforceQuotas (balanced_insert h now key df)
  · exact within_sweep h now

end RamLayer

end SmcPipeline
