import SmcPipeline.QuotaEvictions

/-!
# `ALERT` entries under the quotas

The hot quota passes over symbols of priority `ALERT`; the byte quota takes the
oldest entry, whatever its priority. What a call of `_enforce_quotas` removes, and
in which order, is read off the notes in `removals`.
-/

namespace SmcPipeline

open Runs

namespace RamLayer

variable {α : Type*}

/-- No note of `_enforce_quotas` is about an `ALERT` symbol while an entry of a lower
priority is held that is not noted before. -/
def SparesAlert (cfg : StoreConfig α) (ram : RamLayer α) : Prop :=
  ∀ later earlier key reason,
    (ram.enforceQuotas cfg).removals = later ++ (key, reason) :: (earlier ++ ram.removals) →
    Priority.alert ≤ ram.getPriority key.1 →
    ∀ other ∈ ram.store.keys, other ≠ key → other ∉ earlier.map Prod.fst →
      Priority.alert ≤ ram.getPriority other.1

/-- The entries that the hot quota leaves, in the order in which they were used. -/
def spared (cfg : StoreConfig α) (ram : RamLayer α) : List Key :=
  ram.lru.keys.filter fun key => !(ram.hotVictims cfg).contains key

/-- Wherever an `ALERT` entry has an entry of a lower priority behind it in the LRU order
of what the hot quota leaves, the sizes from it on are within the byte limit. -/
def AlertsFit (cfg : StoreConfig α) (ram : RamLayer α) : Prop :=
  ∀ pre key post, ram.spared cfg = pre ++ key :: post →
    Priority.alert ≤ ram.getPriority key.1 →
    (∃ other ∈ post, ram.getPriority other.1 < Priority.alert) →
      ((key :: post).map (ram.sizeAt cfg)).sum ≤ ramLimitBytes cfg

variable {cfg : StoreConfig α} {ram : RamLayer α}

/-- The oldest entries that the byte quota drops. -/
def ramVictims (cfg : StoreConfig α) (ram : RamLayer α) : List Key :=
  oldestOver (ram.sizeAt cfg) (ramLimitBytes cfg) (ram.spared cfg)

theorem mem_spared {key : Key} :
    key ∈ ram.spared cfg ↔ key ∈ ram.lru.keys ∧ key ∉ ram.hotVictims cfg := by
  simp [spared, List.mem_filter]

theorem lruKeys_afterHot : (ram.afterHot cfg).lru.keys = ram.spared cfg := by
  rw [afterHot, lruKeys_removeAll]
  exact List.filter_congr fun key _ => by simp

theorem removals_enforceQuotas (h : Balanced cfg ram) :
    (ram.enforceQuotas cfg).removals =
      ((ram.ramVictims cfg).map fun key => (key, Reason.ramQuota)).reverse ++
        (((ram.hotVictims cfg).map fun key => (key, Reason.hotQuota)).reverse ++ ram.removals) := by
  have hsizes : oldestOver ((ram.afterHot cfg).sizeAt cfg) (ramLimitBytes cfg)
      (ram.afterHot cfg).lru.keys = ram.ramVictims cfg := by
    rw [lruKeys_afterHot, ramVictims]
    exact oldestOver_congr fun key hkey =>
      sizeAt_removeAll cfg (mem_spared.mp hkey).2 .hotQuota ram
  rw [enforceQuotas_eq h, hsizes, removals_removeAll, afterHot, removals_removeAll]

theorem alertsFit_of_sparesAlert (h : Balanced cfg ram) (hspares : SparesAlert cfg ram) :
    AlertsFit cfg ram := by
  intro pre key post hsplit hkey ⟨other, hother, hlow⟩
  by_contra hover
  rw [not_le] at hover
  obtain ⟨rest, hrest⟩ := oldestOver_reaches (sizeAt_nonneg cfg ram) pre hover
  rw [← hsplit] at hrest
  have hleft : other ∈ pre ++ key :: post :=
    List.mem_append_right _ (List.mem_cons_of_mem key hother)
  obtain ⟨hheld, hspared⟩ := mem_spared.mp (hsplit ▸ hleft)
  have hnodup : (pre ++ key :: post).Nodup := hsplit ▸ ram.lru.nodup.filter _
  have hpost := List.nodup_append.mp hnodup
  have hne : other ≠ key := fun heq => (List.nodup_cons.mp hpost.2.1).1 (heq ▸ hother)
  have hpre : other ∉ pre := fun hmem =>
    hpost.2.2 other hmem other (List.mem_cons_of_mem key hother) rfl
  have hnotes : (ram.enforceQuotas cfg).removals =
      (rest.map fun key => (key, Reason.ramQuota)).reverse ++ (key, Reason.ramQuota) ::
        (((pre.map fun key => (key, Reason.ramQuota)).reverse ++
          ((ram.hotVictims cfg).map fun key => (key, Reason.hotQuota)).reverse) ++
            ram.removals) := by
    rw [removals_enforceQuotas h, ramVictims, hrest]
    simp
  refine absurd (hspares _ _ key _ hnotes hkey other ((h.keys other).mpr hheld) hne ?_)
    (not_le.mpr hlow)
  simpa using And.intro hpre hspared

theorem sparesAlert_of_alertsFit (h : Balanced cfg ram) (hfit : AlertsFit cfg ram) :
    SparesAlert cfg ram := by
  intro later earlier key reason hnotes hkey other hother hne hnot
  rw [removals_enforceQuotas h, ← List.append_assoc, ← List.cons_append, ← List.append_assoc] at hnotes
  have hlist := congrArg List.reverse (List.append_cancel_right hnotes)
  simp only [List.reverse_append, List.reverse_reverse, List.reverse_cons, List.append_assoc,
    List.singleton_append] at hlist
  have hnothot : (key, reason) ∉ (ram.hotVictims cfg).map fun key => (key, Reason.hotQuota) := by
    intro hmem
    obtain ⟨victim, hvictim, heq⟩ := List.mem_map.mp hmem
    obtain ⟨rfl, -⟩ := Prod.mk.inj heq
    exact absurd ((hotVictims_subset hvictim).2) (not_lt.mpr hkey)
  -- the note is about a victim of the byte quota
  obtain ⟨between, hearlier, hram⟩ : ∃ between,
      earlier.reverse = (ram.hotVictims cfg).map (fun key => (key, Reason.hotQuota)) ++ between ∧
      (ram.ramVictims cfg).map (fun key => (key, Reason.ramQuota)) =
        between ++ (key, reason) :: later.reverse := by
    rcases List.append_eq_append_iff.mp hlist with ⟨between, h₁, h₂⟩ | ⟨between, h₁, h₂⟩
    · exact ⟨between, h₁, h₂⟩
    · cases between with
      | nil => exact ⟨[], by simpa using h₁.symm, by simpa using h₂.symm⟩
      | cons note between =>
          obtain ⟨rfl, -⟩ := List.cons.inj h₂
          exact absurd (by rw [h₁]; simp) hnothot
  obtain ⟨pre, tail, hvictims, hbetween, htail⟩ := List.map_eq_append_iff.mp hram
  obtain ⟨victim, rest, rfl, heq, -⟩ := List.map_eq_cons_iff.mp htail
  obtain ⟨rfl, -⟩ := Prod.mk.inj heq
  obtain ⟨post, hsplit, hover⟩ := over_of_oldestOver hvictims
  by_contra hlow
  rw [not_le] at hlow
  have hkeys : earlier.map Prod.fst = (ram.hotVictims cfg ++ pre).reverse := by
    have h := congrArg (fun notes => (notes.map Prod.fst).reverse) hearlier
    rw [← hbetween] at h
    simpa [Function.comp_def] using h
  rw [hkeys, List.mem_reverse, List.mem_append, not_or] at hnot
  have hleft : other ∈ ram.spared cfg := mem_spared.mpr ⟨(h.keys other).mp hother, hnot.1⟩
  rw [hsplit, List.mem_append, List.mem_cons] at hleft
  have hpost : other ∈ post := (hleft.resolve_left hnot.2).resolve_left hne
  exact absurd (hfit pre victim post hsplit hkey ⟨other, hpost, hlow⟩) (not_le.mpr hover)

theorem sparesAlert_iff (h : Balanced cfg ram) : SparesAlert cfg ram ↔ AlertsFit cfg ram :=
  ⟨alertsFit_of_sparesAlert h, sparesAlert_of_alertsFit h⟩

/-- The layer as a call leaves it for its `_enforce_quotas`. -/
def beforeQuotas (cfg : StoreConfig α) (ram : RamLayer α) : RamOp α → Option (RamLayer α)
  | .put now key df => some (ram.insert cfg now key df)
  | .sweep now => some (ram.removeAll cfg .ttlExpired
      ((ram.store.items.filter fun p => p.2.expired now).map Prod.fst))
  | _ => none

/-- Only `put` and `sweep` evict for a quota, at the end. -/
theorem step_of_beforeQuotas {op : RamOp α} {found : RamLayer α}
    (h : beforeQuotas cfg ram op = some found) :
    step cfg ram op = some (found.enforceQuotas cfg) := by
  cases op with
  | put now key df =>
      cases h
      rfl
  | sweep now =>
      cases h
      rfl
  | get now key => cases h
  | delete key reason => cases h
  | setPriority symbol level => cases h

theorem balanced_beforeQuotas (h : Balanced cfg ram) {op : RamOp α} {found : RamLayer α}
    (hfound : beforeQuotas cfg ram op = some found) : Balanced cfg found := by
  cases op with
  | put now key df =>
      cases hfound
      exact balanced_insert h now key df
  | sweep now =>
      cases hfound
      exact balanced_removeAll .ttlExpired _ h
  | get now key => cases hfound
  | delete key reason => cases hfound
  | setPriority symbol level => cases hfound

def RetainsAlert (cfg : StoreConfig α) (ram : RamLayer α) (op : RamOp α) : Prop :=
  ∀ found ∈ beforeQuotas cfg ram op, SparesAlert cfg found

def AlertsFitAt (cfg : StoreConfig α) (ram : RamLayer α) (op : RamOp α) : Prop :=
  ∀ found ∈ beforeQuotas cfg ram op, AlertsFit cfg found

/-- The quotas of a run spare its `ALERT` entries exactly when, at each call, these fit the
byte limit together with all that was used after them. -/
theorem run_retainsAlert_iff (cfg : StoreConfig α) (ops : List (RamOp α)) (after : RamLayer α) :
    Run (step cfg) (RetainsAlert cfg) empty ops after ↔
      Run (step cfg) (AlertsFitAt cfg) empty ops after := by
  have hiff : ∀ ram op, Balanced cfg ram → (RetainsAlert cfg ram op ↔ AlertsFitAt cfg ram op) :=
    fun ram op h => forall₂_congr fun found hfound =>
      sparesAlert_iff (balanced_beforeQuotas h hfound)
  constructor
  · exact fun h => h.weaken_of (fun _ _ _ h _ => balanced_step h)
      (fun ram op h => (hiff ram op h).mp) (balanced_empty cfg)
  · exact fun h => h.weaken_of (fun _ _ _ h _ => balanced_step h)
      (fun ram op h => (hiff ram op h).mpr) (balanced_empty cfg)

/-- Room for one frame, each of them estimated at one mebibyte. -/
def oneFrame : StoreConfig Unit where
  profile := { ramLimitMb := 1 }
  estimateBytes _ := 1024 * 1024

/-- The byte quota drops the `ALERT` entry and keeps the normal one that came after it. -/
theorem alert_dropped : ¬ ∀ (cfg : StoreConfig Unit) (ops : List (RamOp Unit)) after,
    Run (step cfg) (fun _ _ => True) empty ops after →
      Run (step cfg) (RetainsAlert cfg) empty ops after := by
  intro h
  obtain ⟨before, hrun, hp⟩ := Run.exists_of_checked (step oneFrame) (fun _ _ => True) empty
    [.setPriority "xauusd" Priority.alert, .put 0 ("xauusd", "1m") ⟨false, []⟩]
    (fun ram =>
      let found := ram.insert oneFrame 1 ("eurusd", "1m") ⟨false, []⟩
      decide ((found.enforceQuotas oneFrame).removals = [(("xauusd", "1m"), .ramQuota)] ∧
        found.removals = [] ∧ found.store.keys = [("xauusd", "1m"), ("eurusd", "1m")] ∧
        found.getPriority "xauusd" = 3 ∧ found.getPriority "eurusd" = 1))
    (by decide +kernel)
  obtain ⟨hnotes, hnone, hkeys, halert, hlow⟩ := of_decide_eq_true hp
  have hall := h oneFrame _ _ (hrun.snoc (a := .put 1 ("eurusd", "1m") ⟨false, []⟩) trivial rfl)
  have hspares := hall.guard_last hrun.replay_eq _ rfl
  have hkept := hspares [] [] ("xauusd", "1m") .ramQuota (by rw [hnone]; exact hnotes)
    (halert ▸ le_rfl) ("eurusd", "1m") (by rw [hkeys]; decide) (by decide) (by simp)
  rw [hlow] at hkept
  exact absurd hkept (by decide)

end RamLayer

end SmcPipeline
