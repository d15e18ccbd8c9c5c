import SmcPipeline.RamInvariant
import Mathlib.Algebra.Order.BigOperators.Group.List

/-!
# The victims of the two quotas

`_enforce_quotas` deletes entries one by one. With the books balanced its deletions
are two lists known beforehand: the first entries below `ALERT` in the order of
priority and age, then the oldest of what is left for as long as the rest does not
fit the byte limit.
-/

namespace SmcPipeline

section

variable {κ : Type*} (size : κ → ℤ) (limit : ℤ)

/-- The oldest keys, up to the first one from which on the sizes fit the limit. -/
def oldestOver : List κ → List κ
  | [] => []
  | k :: keys => if limit < ((k :: keys).map size).sum then k :: oldestOver keys else []

variable {size limit}

theorem oldestOver_congr {other : κ → ℤ} {keys : List κ} (h : ∀ k ∈ keys, size k = other k) :
    oldestOver size limit keys = oldestOver other limit keys := by
  induction keys with
  | nil => rfl
  | cons k keys ih =>
      rw [oldestOver, oldestOver, List.map_congr_left h,
        ih fun q hq => h q (List.mem_cons_of_mem k hq)]

/-- A key is among them when the sizes from it on are over the limit. -/
theorem oldestOver_reaches (hsize : ∀ k, 0 ≤ size k) (pre : List κ) {post : List κ} {k : κ}
    (h : limit < ((k :: post).map size).sum) :
    ∃ rest, oldestOver size limit (pre ++ k :: post) = pre ++ k :: rest := by
  induction pre with
  | nil => exact ⟨oldestOver size limit post, by rw [List.nil_append, oldestOver, if_pos h]; rfl⟩
  | cons q pre ih =>
      obtain ⟨rest, hrest⟩ := ih
      have hfront : 0 ≤ ((q :: pre).map size).sum :=
        List.sum_nonneg fun n hn => by
          obtain ⟨j, -, rfl⟩ := List.mem_map.mp hn
          exact hsize j
      have hover : limit < ((q :: (pre ++ k :: post)).map size).sum := by
        rw [← List.cons_append, List.map_append, List.sum_append]
        omega
      exact ⟨rest, by rw [List.cons_append, oldestOver, if_pos hover, hrest, List.cons_append]⟩

/-- And only then. -/
theorem over_of_oldestOver {keys pre rest : List κ} {k : κ}
    (h : oldestOver size limit keys = pre ++ k :: rest) :
    ∃ post, keys = pre ++ k :: post ∧ limit < ((k :: post).map size).sum := by
  induction pre generalizing keys with
  | nil =>
      cases keys with
      | nil => cases h
      | cons q keys =>
          rw [oldestOver] at h
          split_ifs at h with hover
          · obtain ⟨rfl, -⟩ := List.cons.inj h
            exact ⟨keys, rfl, hover⟩
          · cases h
  | cons p pre ih =>
      cases keys with
      | nil => cases h
      | cons q keys =>
          rw [oldestOver] at h
          split_ifs at h with hover
          · obtain ⟨rfl, hrest⟩ := List.cons.inj h
            obtain ⟨post, rfl, hpost⟩ := ih hrest
            exact ⟨post, rfl, hpost⟩
          · cases h

end

namespace RamLayer

variable {α : Type*} (cfg : StoreConfig α)

/-- `delete` for one key after the other. -/
def removeAll (reason : Reason) (keys : List Key) (ram : RamLayer α) : RamLayer α :=
  keys.foldl (fun ram key => ram.delete cfg key reason) ram

@[simp] theorem getPriority_delete (key : Key) (reason : Reason) (ram : RamLayer α)
    (symbol : String) : (ram.delete cfg key reason).getPriority symbol = ram.getPriority symbol :=
  rfl

@[simp] theorem getPriority_removeAll (reason : Reason) (keys : List Key) (ram : RamLayer α)
    (symbol : String) :
    (ram.removeAll cfg reason keys).getPriority symbol = ram.getPriority symbol := by
  induction keys generalizing ram with
  | nil => rfl
  | cons key keys ih => exact ih _

theorem balanced_removeAll {cfg : StoreConfig α} (reason : Reason) (keys : List Key)
    {ram : RamLayer α} (h : Balanced cfg ram) : Balanced cfg (ram.removeAll cfg reason keys) := by
  induction keys generalizing ram with
  | nil => exact h
  | cons key keys ih => exact ih (balanced_delete h key reason)

theorem lruKeys_removeAll (reason : Reason) (keys : List Key) (ram : RamLayer α) :
    (ram.removeAll cfg reason keys).lru.keys = ram.lru.keys.filter fun key => key ∉ keys := by
  induction keys generalizing ram with
  | nil => simp [removeAll]
  | cons key keys ih =>
      have hone : (ram.delete cfg key reason).lru.keys = ram.lru.keys.filter (· ≠ key) := by
        simp only [delete, OrderedDict.keys, OrderedDict.erase, List.filter_map]
        rfl
      change ((ram.delete cfg key reason).removeAll cfg reason keys).lru.keys = _
      rw [ih, hone, List.filter_filter]
      refine List.filter_congr fun k _ => ?_
      by_cases hk : k = key <;> simp [hk]

theorem removals_removeAll (reason : Reason) (keys : List Key) (ram : RamLayer α) :
    (ram.removeAll cfg reason keys).removals =
      (keys.map fun key => (key, reason)).reverse ++ ram.removals := by
  induction keys generalizing ram with
  | nil => rfl
  | cons key keys ih =>
      change ((ram.delete cfg key reason).removeAll cfg reason keys).removals = _
      rw [ih, List.map_cons, List.reverse_cons, List.append_assoc]
      rfl

/-- Entries of symbols below `ALERT`, in the order of their eviction. -/
def evictable (ram : RamLayer α) : List Key :=
  ram.ranked.filter fun key => ram.getPriority key.1 < Priority.alert

/-- Symbols over the quota. -/
def excess (ram : RamLayer α) : ℤ := ram.symbolsInLru.length - cfg.profile.maxSymbolsHot

/-- As many entries as there are symbols too many. -/
def hotVictims (ram : RamLayer α) : List Key := ram.evictable.take (ram.excess cfg).toNat

theorem evictLoop_eq (count removed : ℤ) (hcount : removed < count) (keys : List Key)
    (ram : RamLayer α) :
    evictLoop cfg count removed keys ram = ram.removeAll cfg .hotQuota
      ((keys.filter fun key => ram.getPriority key.1 < Priority.alert).take
        (count - removed).toNat) := by
  induction keys generalizing removed ram with
  | nil => simp [evictLoop, removeAll]
  | cons key rest ih =>
      obtain ⟨n, hn⟩ : ∃ n : ℕ, (count - removed).toNat = n + 1 := ⟨(count - removed).toNat - 1, by omega⟩
      rw [evictLoop]
      split_ifs with halert hlast
      · rw [ih removed hcount, List.filter_cons_of_neg (by simpa using halert)]
      · have hzero : n = 0 := by omega
        rw [List.filter_cons_of_pos (by simpa using halert), hn, hzero, List.take_succ_cons,
          List.take_zero]
        rfl
      · rw [ih (removed + 1) (by omega), List.filter_cons_of_pos (by simpa using halert), hn,
          List.take_succ_cons]
        have hn' : (count - (removed + 1)).toNat = n := by omega
        rw [hn']
        rfl

/-- The layer between the two quotas. -/
def afterHot (ram : RamLayer α) : RamLayer α :=
  ram.removeAll cfg .hotQuota (ram.hotVictims cfg)

theorem hotQuota_eq (ram : RamLayer α) :
    (if cfg.profile.maxSymbolsHot < ram.symbolsInLru.length then
      ram.evictByPriority cfg (ram.symbolsInLru.length - cfg.profile.maxSymbolsHot)
    else ram) = ram.afterHot cfg := by
  unfold afterHot hotVictims excess
  split_ifs with hover
  · rw [evictByPriority, evictLoop_eq cfg _ _ (by omega), sub_zero]
    rfl
  · rw [Int.toNat_of_nonpos (by omega), List.take_zero]
    rfl

/-- The estimate of the frame stored for a key. -/
def sizeAt (ram : RamLayer α) (key : Key) : ℤ :=
  ((ram.store.get? key).map fun e => (cfg.estimateBytes e.df : ℤ)).getD 0

theorem sizeAt_nonneg (ram : RamLayer α) (key : Key) : 0 ≤ ram.sizeAt cfg key := by
  unfold sizeAt
  cases ram.store.get? key with
  | none => exact le_rfl
  | some e => exact Int.natCast_nonneg _

theorem sizeAt_delete {key key' : Key} (h : key' ≠ key) (reason : Reason) (ram : RamLayer α) :
    (ram.delete cfg key reason).sizeAt cfg key' = ram.sizeAt cfg key' := by
  simp only [sizeAt, delete, OrderedDict.get?_erase_of_ne _ h]

theorem sizeAt_removeAll {key : Key} {keys : List Key} (h : key ∉ keys) (reason : Reason)
    (ram : RamLayer α) :
    (ram.removeAll cfg reason keys).sizeAt cfg key = ram.sizeAt cfg key := by
  induction keys generalizing ram with
  | nil => rfl
  | cons k keys ih =>
      rw [List.mem_cons, not_or] at h
      exact (ih h.2 _).trans (sizeAt_delete cfg h.1 reason ram)

variable {cfg}

theorem mem_evictable {ram : RamLayer α} {key : Key} :
    key ∈ ram.evictable ↔ key ∈ ram.lru.keys ∧ ram.getPriority key.1 < Priority.alert := by
  simp only [evictable, ranked, List.mem_filter, KeyedRows.mem_sortBy, decide_eq_true_eq]

theorem hotVictims_subset {ram : RamLayer α} {key : Key} (h : key ∈ ram.hotVictims cfg) :
    key ∈ ram.lru.keys ∧ ram.getPriority key.1 < Priority.alert :=
  mem_evictable.mp (List.mem_of_mem_take h)

theorem hotVictims_nodup (ram : RamLayer α) : (ram.hotVictims cfg).Nodup :=
  (((KeyedRows.sortBy_perm _ _).nodup_iff.mpr ram.lru.nodup).filter _).sublist
    (List.take_sublist _ _)

/-- With the books balanced the counter is the sum along the LRU list. -/
theorem bytes_eq_sum {ram : RamLayer α} (h : Balanced cfg ram) :
    ram.bytesInRam = (ram.lru.keys.map (ram.sizeAt cfg)).sum := by
  have hperm : ram.store.keys.Perm ram.lru.keys :=
    (List.perm_ext_iff_of_nodup ram.store.nodup ram.lru.nodup).mpr h.keys
  rw [h.bytes, ← (hperm.map (ram.sizeAt cfg)).sum_eq]
  unfold storedBytes OrderedDict.total OrderedDict.keys
  rw [List.map_map]
  refine congrArg List.sum (List.map_congr_left fun p hp => ?_)
  simp only [Function.comp_apply, sizeAt, OrderedDict.get?_of_mem_items hp, Option.map_some,
    Option.getD_some]

theorem evictOldest_eq (limit : ℤ) (fuel : ℕ) {ram : RamLayer α} (h : Balanced cfg ram)
    (hfuel : ram.lru.length ≤ fuel) :
    evictOldest cfg limit fuel ram =
      ram.removeAll cfg .ramQuota (oldestOver (ram.sizeAt cfg) limit ram.lru.keys) := by
  induction fuel generalizing ram with
  | zero =>
      have hnil : ram.lru.items = [] := List.length_eq_zero_iff.mp (Nat.le_zero.mp hfuel)
      rw [OrderedDict.keys, hnil]
      rfl
  | succ fuel ih =>
      rw [evictOldest]
      cases hpop : ram.lru.popFirst with
      | none =>
          rw [OrderedDict.keys, OrderedDict.popFirst_eq_none hpop]
          split_ifs <;> rfl
      | some popped =>
          obtain ⟨⟨key, u⟩, rest⟩ := popped
          obtain ⟨hitems, hrest⟩ := OrderedDict.popFirst_eq_some hpop
          have hkeys : ram.lru.keys = key :: rest.keys := by
            rw [OrderedDict.keys, hitems]
            rfl
          have hnodup : key ∉ rest.keys := by
            have hn := ram.lru.nodup
            change ram.lru.keys.Nodup at hn
            rw [hkeys] at hn
            exact (List.nodup_cons.mp hn).1
          have hlru : (ram.delete cfg key .ramQuota).lru = rest := hrest.symm
          have hlen : rest.length ≤ fuel := by
            rw [OrderedDict.length, hitems, List.length_cons] at hfuel
            exact Nat.le_of_succ_le_succ hfuel
          have hsizes : oldestOver ((ram.delete cfg key .ramQuota).sizeAt cfg) limit rest.keys =
              oldestOver (ram.sizeAt cfg) limit rest.keys :=
            oldestOver_congr fun k hk =>
              sizeAt_delete cfg (ne_of_mem_of_not_mem hk hnodup) .ramQuota ram
          have hbytes := bytes_eq_sum h
          rw [hkeys] at hbytes ⊢
          rw [oldestOver, ← hbytes]
          split_ifs
          · have hrun := ih (balanced_delete h key .ramQuota) (by rw [hlru]; exact hlen)
            rw [hlru, hsizes] at hrun
            dsimp only
            rw [delete_popFirst hpop, hrun]
            rfl
          · rfl

/-- The two lists of victims are all that `_enforce_quotas` does. -/
theorem enforceQuotas_eq {ram : RamLayer α} (h : Balanced cfg ram) :
    ram.enforceQuotas cfg = (ram.afterHot cfg).removeAll cfg .ramQuota
      (oldestOver ((ram.afterHot cfg).sizeAt cfg) (ramLimitBytes cfg)
        (ram.afterHot cfg).lru.keys) := by
  have hhot : Balanced cfg (ram.afterHot cfg) := balanced_removeAll .hotQuota _ h
  rw [← evictOldest_eq _ _ hhot le_rfl, ← hotQuota_eq]
  rfl

end RamLayer

end SmcPipeline
