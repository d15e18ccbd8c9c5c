import SmcPipeline.QuotaEvictions
import Mathlib.Data.Finset.Card
import Mathlib.Data.Finset.Dedup

/-!
# The quota of hot symbols

`_enforce_quotas` counts symbols but evicts entries, one for each symbol too many.
An entry frees its symbol only when the symbol has no other interval in the layer,
so the quota is restored when every victim is the only entry of its symbol. The
byte quota runs afterwards and can only drop more symbols.
-/

namespace SmcPipeline

open Runs

namespace RamLayer

def symbols (keys : List Key) : Finset String := (keys.map Prod.fst).toFinset

theorem mem_symbols {keys : List Key} {symbol : String} :
    symbol ∈ symbols keys ↔ ∃ key ∈ keys, key.1 = symbol := by
  simp only [symbols, List.mem_toFinset, List.mem_map]

theorem symbols_mono {keys others : List Key} (h : keys ⊆ others) :
    symbols keys ⊆ symbols others := by
  intro symbol hs
  obtain ⟨key, hkey, rfl⟩ := mem_symbols.mp hs
  exact mem_symbols.mpr ⟨key, h hkey, rfl⟩

variable {α : Type*}

def heldSymbols (ram : RamLayer α) : Finset String := symbols ram.store.keys

def alertSymbols (ram : RamLayer α) : Finset String :=
  ram.heldSymbols.filter fun symbol => Priority.alert ≤ ram.getPriority symbol

/-- Every victim of the hot quota is the only entry of its symbol. -/
def SoleVictims (cfg : StoreConfig α) (ram : RamLayer α) : Prop :=
  ∀ key ∈ ram.hotVictims cfg, ∀ other ∈ ram.lru.keys, other.1 = key.1 → other = key

instance (cfg : StoreConfig α) (ram : RamLayer α) : Decidable (SoleVictims cfg ram) :=
  inferInstanceAs (Decidable (∀ key ∈ ram.hotVictims cfg, ∀ other ∈ ram.lru.keys,
    other.1 = key.1 → other = key))

variable {cfg : StoreConfig α} {ram : RamLayer α}

theorem heldSymbols_eq (h : Balanced cfg ram) : ram.heldSymbols = symbols ram.lru.keys :=
  (symbols_mono fun _ hk => (h.keys _).mp hk).antisymm (symbols_mono fun _ hk => (h.keys _).mpr hk)

/-- `len(symbols_in_lru)` -/
theorem length_symbolsInLru (ram : RamLayer α) :
    ram.symbolsInLru.length = (symbols ram.lru.keys).card := by
  have hnodup : ram.symbolsInLru.Nodup := by
    have h := KeyedRows.keepFirst_nodup id (ram.lru.keys.map Prod.fst)
    rwa [List.map_id] at h
  rw [← List.toFinset_card_of_nodup hnodup]
  congr 1
  ext symbol
  have h := KeyedRows.mem_keepFirst_keys id symbol (ram.lru.keys.map Prod.fst)
  rw [List.map_id, List.map_id] at h
  rw [symbols, List.mem_toFinset, List.mem_toFinset]
  exact h

theorem mem_afterHot {key : Key} :
    key ∈ (ram.afterHot cfg).lru.keys ↔ key ∈ ram.lru.keys ∧ key ∉ ram.hotVictims cfg := by
  rw [afterHot, lruKeys_removeAll, List.mem_filter, decide_eq_true_eq]

/-- Victims that are alone take as many symbols with them as they are. -/
theorem card_afterHot (h : SoleVictims cfg ram) :
    (symbols (ram.afterHot cfg).lru.keys).card + (ram.hotVictims cfg).length ≤
      (symbols ram.lru.keys).card := by
  have hinj : ((ram.hotVictims cfg).map Prod.fst).Nodup :=
    (List.nodup_map_iff_inj_on (hotVictims_nodup ram)).mpr fun a ha b hb hab =>
      h b hb a (hotVictims_subset ha).1 hab
  have hcard : (symbols (ram.hotVictims cfg)).card = (ram.hotVictims cfg).length := by
    rw [symbols, List.toFinset_card_of_nodup hinj, List.length_map]
  have hdisjoint : Disjoint (symbols (ram.afterHot cfg).lru.keys) (symbols (ram.hotVictims cfg)) := by
    refine Finset.disjoint_left.mpr fun symbol hleft hvictim => ?_
    obtain ⟨other, hother, rfl⟩ := mem_symbols.mp hleft
    obtain ⟨key, hkey, hsame⟩ := mem_symbols.mp hvictim
    obtain ⟨hheld, hspared⟩ := mem_afterHot.mp hother
    exact hspared (h key hkey other hheld hsame.symm ▸ hkey)
  rw [← hcard, ← Finset.card_union_of_disjoint hdisjoint]
  refine Finset.card_le_card (Finset.union_subset ?_ ?_)
  · exact symbols_mono fun _ hk => (mem_afterHot.mp hk).1
  · exact symbols_mono fun _ hk => (hotVictims_subset hk).1

/-- The hot quota restores its bound or leaves `ALERT` entries only. -/
theorem afterHot_within (h : SoleVictims cfg ram) :
    (symbols (ram.afterHot cfg).lru.keys).card ≤ cfg.profile.maxSymbolsHot ∨
      ∀ key ∈ (ram.afterHot cfg).lru.keys, Priority.alert ≤ ram.getPriority key.1 := by
  rcases Nat.le_total ram.evictable.length (ram.excess cfg).toNat with hall | hfew
  · right
    intro key hkey
    obtain ⟨hheld, hspared⟩ := mem_afterHot.mp hkey
    rw [hotVictims, List.take_of_length_le hall, mem_evictable, not_and, not_lt] at hspared
    exact hspared hheld
  · left
    have hcard := card_afterHot h
    have hlen : (ram.hotVictims cfg).length = (ram.excess cfg).toNat := by
      rw [hotVictims, List.length_take, Nat.min_eq_left hfew]
    have hexcess : ram.excess cfg =
        ((symbols ram.lru.keys).card : ℤ) - cfg.profile.maxSymbolsHot := by
      rw [excess, length_symbolsInLru]
    omega

/-- A victim with a second entry frees no symbol of its own: one symbol too many stays. -/
theorem over_of_not_soleVictims (h : ¬ SoleVictims cfg ram) :
    cfg.profile.maxSymbolsHot < (symbols (ram.afterHot cfg).lru.keys).card := by
  unfold SoleVictims at h
  push Not at h
  obtain ⟨key, hkey, other, hother, hsame, hne⟩ := h
  have hlost : symbols ram.lru.keys ⊆
      symbols (ram.afterHot cfg).lru.keys ∪ symbols ((ram.hotVictims cfg).erase key) := by
    intro symbol hs
    obtain ⟨held, hheld, rfl⟩ := mem_symbols.mp hs
    rw [Finset.mem_union]
    by_cases hvictim : held ∈ ram.hotVictims cfg
    · by_cases hk : held = key
      · by_cases hsecond : other ∈ ram.hotVictims cfg
        · refine Or.inr (mem_symbols.mpr ⟨other, ?_, hk ▸ hsame⟩)
          exact (List.mem_erase_of_ne hne).mpr hsecond
        · exact Or.inl (mem_symbols.mpr ⟨other, mem_afterHot.mpr ⟨hother, hsecond⟩, hk ▸ hsame⟩)
      · exact Or.inr (mem_symbols.mpr ⟨held, (List.mem_erase_of_ne hk).mpr hvictim, rfl⟩)
    · exact Or.inl (mem_symbols.mpr ⟨held, mem_afterHot.mpr ⟨hheld, hvictim⟩, rfl⟩)
  have hunion := (Finset.card_le_card hlost).trans (Finset.card_union_le _ _)
  have hrest : (symbols ((ram.hotVictims cfg).erase key)).card ≤ (ram.hotVictims cfg).length - 1 := by
    refine (List.toFinset_card_le _).trans ?_
    rw [List.length_map, List.length_erase_of_mem hkey]
  have hlen : (ram.hotVictims cfg).length ≤ (ram.excess cfg).toNat := List.length_take_le _ _
  have hpos : 0 < (ram.hotVictims cfg).length := List.length_pos_of_mem hkey
  have hexcess : ram.excess cfg =
      ((symbols ram.lru.keys).card : ℤ) - cfg.profile.maxSymbolsHot := by
    rw [excess, length_symbolsInLru]
  omega

theorem lruKeys_enforceQuotas (h : Balanced cfg ram) :
    (ram.enforceQuotas cfg).lru.keys ⊆ (ram.afterHot cfg).lru.keys := by
  rw [enforceQuotas_eq h, lruKeys_removeAll]
  exact List.filter_subset_self _

theorem getPriority_enforceQuotas (h : Balanced cfg ram) (symbol : String) :
    (ram.enforceQuotas cfg).getPriority symbol = ram.getPriority symbol := by
  rw [enforceQuotas_eq h, getPriority_removeAll, afterHot, getPriority_removeAll]

/-- The quota after `_enforce_quotas`, for a layer with no more `ALERT` symbols than it allows. -/
theorem held_enforceQuotas (h : Balanced cfg ram) (hsole : SoleVictims cfg ram)
    (halert : ((ram.enforceQuotas cfg).alertSymbols.card : ℤ) ≤ cfg.profile.maxSymbolsHot) :
    ((ram.enforceQuotas cfg).heldSymbols.card : ℤ) ≤ cfg.profile.maxSymbolsHot := by
  have hheld := heldSymbols_eq (balanced_enforceQuotas h)
  have hsub := lruKeys_enforceQuotas h
  rcases afterHot_within hsole with hwithin | hall
  · rw [hheld]
    have hcard := Finset.card_le_card (symbols_mono hsub)
    omega
  · -- only `ALERT` symbols are left, and the byte quota drops some of them at most
    have hsame : (ram.enforceQuotas cfg).alertSymbols = (ram.enforceQuotas cfg).heldSymbols := by
      refine Finset.filter_true_of_mem fun symbol hs => ?_
      rw [hheld] at hs
      obtain ⟨key, hkey, rfl⟩ := mem_symbols.mp hs
      rw [getPriority_enforceQuotas h]
      exact hall key (hsub hkey)
    rwa [hsame] at halert

/-- The victims of the call, if it is a `put`, are alone with their symbols. -/
def PutsSole (cfg : StoreConfig α) (ram : RamLayer α) : RamOp α → Prop
  | .put now key df => SoleVictims cfg (ram.insert cfg now key df)
  | _ => True

instance (cfg : StoreConfig α) (ram : RamLayer α) (op : RamOp α) :
    Decidable (PutsSole cfg ram op) := by
  cases op <;> unfold PutsSole <;> infer_instance

/-- The quota after a `put` that leaves no more `ALERT` symbols than it allows. -/
def KeepsQuota (cfg : StoreConfig α) (ram : RamLayer α) : RamOp α → Prop
  | .put now key df =>
    ((ram.put cfg now key df).alertSymbols.card : ℤ) ≤ cfg.profile.maxSymbolsHot →
      ((ram.put cfg now key df).heldSymbols.card : ℤ) ≤ cfg.profile.maxSymbolsHot
  | _ => True

instance (cfg : StoreConfig α) (ram : RamLayer α) (op : RamOp α) :
    Decidable (KeepsQuota cfg ram op) := by
  cases op <;> unfold KeepsQuota <;> infer_instance

/-- In a run whose `put`s evict entries that are alone with their symbols, every `put` leaves
at most `max_symbols_hot` symbols unless more than that are of priority `ALERT`. -/
theorem hot_quota_of_sole {ops : List (RamOp α)} {after : RamLayer α}
    (h : Run (step cfg) (PutsSole cfg) empty ops after) :
    Run (step cfg) (KeepsQuota cfg) empty ops after := by
  refine h.weaken_of (fun _ _ _ h _ => balanced_step h) (fun ram op hram hop => ?_)
    (balanced_empty cfg)
  cases op with
  | put now key df => exact held_enforceQuotas (balanced_insert hram now key df) hop
  | get now key => trivial
  | delete key reason => trivial
  | sweep now => trivial
  | setPriority symbol level => trivial

/-- One hot symbol, frames without a size. -/
def oneSymbol : StoreConfig Unit where
  profile := { maxSymbolsHot := 1 }
  estimateBytes _ := 0

def noRows : Frame Unit := ⟨false, []⟩

theorem hot_quota_of_two_symbols :
    ∃ after, Run (step oneSymbol) (KeepsQuota oneSymbol) empty
      [.put 0 ("xauusd", "1m") noRows, .put 1 ("eurusd", "1m") noRows] after := by
  obtain ⟨after, hrun, -⟩ := Run.exists_of_checked (step oneSymbol) (PutsSole oneSymbol) empty
    [.put 0 ("xauusd", "1m") noRows, .put 1 ("eurusd", "1m") noRows] (fun _ => true)
    (by decide +kernel)
  exact ⟨after, hot_quota_of_sole hrun⟩

/-- The second interval of the evicted symbol keeps it in the layer. -/
theorem hot_quota_exceeded : ¬ ∀ (cfg : StoreConfig Unit) (ops : List (RamOp Unit)) after,
    Run (step cfg) (fun _ _ => True) empty ops after →
      Run (step cfg) (KeepsQuota cfg) empty ops after := by
  intro h
  obtain ⟨after, hrun, -⟩ := Run.exists_of_checked (step oneSymbol) (fun _ _ => True) empty
    [.put 0 ("xauusd", "1m") noRows, .put 1 ("xauusd", "5m") noRows,
      .put 2 ("eurusd", "1m") noRows] (fun _ => true) (by decide +kernel)
  have hkept := (h oneSymbol _ after hrun).replay_checked
  have hfails : (replay (checked (step oneSymbol) (KeepsQuota oneSymbol)) empty
      [.put 0 ("xauusd", "1m") noRows, .put 1 ("xauusd", "5m") noRows,
        .put 2 ("eurusd", "1m") noRows]).isSome = false := by decide +kernel
  rw [hkept] at hfails
  cases hfails

end RamLayer

end SmcPipeline
