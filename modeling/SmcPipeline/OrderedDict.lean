import Mathlib.Algebra.BigOperators.Group.List.Basic
import Mathlib.Data.List.Nodup
import Mathlib.Data.List.Basic
import Mathlib.Tactic.Abel

/-!
# Insertion-ordered dictionaries

Keys are distinct by construction. Storing under a key already present keeps the
key's place; a new key goes to the end. The two ends give a queue, and moving a
key to the end gives the recency order of an LRU list.
-/

namespace SmcPipeline

/-- A list of key-value pairs whose keys are pairwise distinct. -/
structure OrderedDict (κ υ : Type*) where
  items : List (κ × υ)
  nodup : (items.map Prod.fst).Nodup

namespace OrderedDict

variable {κ υ : Type*}

@[ext] theorem ext {d e : OrderedDict κ υ} (h : d.items = e.items) : d = e := by
  cases d
  cases e
  cases h
  rfl

def empty : OrderedDict κ υ := ⟨[], by simp⟩

instance : Inhabited (OrderedDict κ υ) := ⟨empty⟩

def keys (d : OrderedDict κ υ) : List κ := d.items.map Prod.fst

def length (d : OrderedDict κ υ) : ℕ := d.items.length

def Every (R : κ → υ → Prop) (d : OrderedDict κ υ) : Prop := ∀ p ∈ d.items, R p.1 p.2

theorem every_empty (R : κ → υ → Prop) : Every R (empty : OrderedDict κ υ) := by
  intro p hp
  cases hp

section

variable [DecidableEq κ]

def get? (d : OrderedDict κ υ) (k : κ) : Option υ :=
  (d.items.find? fun p => p.1 = k).map Prod.snd

def erase (d : OrderedDict κ υ) (k : κ) : OrderedDict κ υ where
  items := d.items.filter fun p => p.1 ≠ k
  nodup := d.nodup.sublist ((List.filter_sublist).map Prod.fst)

private theorem keys_replace (l : List (κ × υ)) (k : κ) (v : υ) :
    (l.map fun p => if p.1 = k then (k, v) else p).map Prod.fst = l.map Prod.fst := by
  rw [List.map_map]
  refine List.map_congr_left fun p _ => ?_
  by_cases h : p.1 = k <;> simp [h]

def set (d : OrderedDict κ υ) (k : κ) (v : υ) : OrderedDict κ υ :=
  if h : k ∈ d.keys then
    ⟨d.items.map fun p => if p.1 = k then (k, v) else p, by
      rw [keys_replace]
      exact d.nodup⟩
  else
    ⟨d.items ++ [(k, v)], by
      rw [List.map_append, List.nodup_append]
      refine ⟨d.nodup, by simp, ?_⟩
      intro a ha b hb
      obtain rfl : b = k := by simpa using hb
      exact fun hab => h (hab ▸ ha)⟩

/-- The key becomes the last one; a key that is absent changes nothing. -/
def moveToEnd (d : OrderedDict κ υ) (k : κ) : OrderedDict κ υ :=
  match d.get? k with
  | none => d
  | some v => (d.erase k).set k v

/-- The first pair and the rest, as `popitem(last=False)`. -/
def popFirst (d : OrderedDict κ υ) : Option ((κ × υ) × OrderedDict κ υ) :=
  match d.items with
  | [] => none
  | p :: _ => some (p, d.erase p.1)

theorem mem_keys_iff (d : OrderedDict κ υ) (k : κ) : k ∈ d.keys ↔ (d.get? k).isSome := by
  simp [keys, get?]

theorem get?_eq_none_iff (d : OrderedDict κ υ) (k : κ) : d.get? k = none ↔ k ∉ d.keys := by
  rw [mem_keys_iff]
  cases d.get? k <;> simp

@[simp] theorem get?_erase_self (d : OrderedDict κ υ) (k : κ) : (d.erase k).get? k = none := by
  simp [get?, erase, List.find?_eq_none]

theorem get?_erase_of_ne (d : OrderedDict κ υ) {k k' : κ} (h : k' ≠ k) :
    (d.erase k).get? k' = d.get? k' := by
  unfold get? erase
  rw [List.find?_filter]
  congr 2
  funext p
  by_cases hp : p.1 = k'
  · have : p.1 ≠ k := fun e => h (hp ▸ e)
    simp [hp, h]
  · simp [hp]

theorem get?_erase (d : OrderedDict κ υ) (k k' : κ) :
    (d.erase k).get? k' = if k' = k then none else d.get? k' := by
  by_cases h : k' = k
  · subst h
    simp
  · simp [h, get?_erase_of_ne]

private theorem find?_replace (l : List (κ × υ)) (k k' : κ) (v : υ) :
    ((l.map fun p => if p.1 = k then (k, v) else p).find? fun p => p.1 = k').map Prod.snd =
      if k' = k then (l.find? fun p => p.1 = k).map (fun _ => v)
      else (l.find? fun p => p.1 = k').map Prod.snd := by
  induction l with
  | nil => simp
  | cons p l ih =>
      by_cases hp : p.1 = k
      · by_cases hk : k' = k
        · simp [hp, hk]
        · simpa [hp, hk, Ne.symm hk] using ih
      · by_cases hpk : p.1 = k'
        · have hk : k' ≠ k := fun e => hp (hpk.trans e)
          simp [hpk, hk]
        · by_cases hk : k' = k
          · simpa [hp, hk] using ih
          · simpa [hp, hpk, hk] using ih

theorem get?_set (d : OrderedDict κ υ) (k k' : κ) (v : υ) :
    (d.set k v).get? k' = if k' = k then some v else d.get? k' := by
  unfold set
  split_ifs with hmem hk hk
  · unfold get?
    rw [find?_replace, if_pos hk]
    obtain ⟨w, hw⟩ := Option.isSome_iff_exists.mp ((d.mem_keys_iff k).mp hmem)
    simp only [get?, Option.map_eq_some_iff] at hw
    obtain ⟨p, hp, -⟩ := hw
    simp [hp]
  · unfold get?
    rw [find?_replace, if_neg hk]
  · subst hk
    have hnone : d.items.find? (fun p => p.1 = k') = none := by
      simpa [get?] using (d.get?_eq_none_iff k').mpr hmem
    simp [get?, List.find?_append, hnone]
  · simp [get?, List.find?_append, Ne.symm hk]

@[simp] theorem get?_set_self (d : OrderedDict κ υ) (k : κ) (v : υ) :
    (d.set k v).get? k = some v := by
  rw [get?_set, if_pos rfl]

theorem mem_items_set (d : OrderedDict κ υ) (k : κ) (v : υ) {p : κ × υ} :
    p ∈ (d.set k v).items ↔ p = (k, v) ∨ (p.1 ≠ k ∧ p ∈ d.items) := by
  unfold set
  split_ifs with hmem
  · obtain ⟨q, hq, hqk⟩ := List.mem_map.mp hmem
    simp only [List.mem_map]
    constructor
    · rintro ⟨r, hr, rfl⟩
      split_ifs with hrk
      · exact Or.inl rfl
      · exact Or.inr ⟨hrk, hr⟩
    · rintro (rfl | ⟨hne, hp⟩)
      · exact ⟨q, hq, if_pos hqk⟩
      · exact ⟨p, hp, if_neg hne⟩
  · have hne : p ∈ d.items → p.1 ≠ k := fun hp he => hmem (he ▸ List.mem_map_of_mem hp)
    simp only [List.mem_append, List.mem_singleton]
    constructor
    · rintro (hp | rfl)
      · exact Or.inr ⟨hne hp, hp⟩
      · exact Or.inl rfl
    · rintro (rfl | ⟨-, hp⟩)
      · exact Or.inr rfl
      · exact Or.inl hp

theorem mem_keys_set (d : OrderedDict κ υ) (k k' : κ) (v : υ) :
    k' ∈ (d.set k v).keys ↔ k' = k ∨ k' ∈ d.keys := by
  rw [mem_keys_iff, mem_keys_iff, get?_set]
  by_cases h : k' = k <;> simp [h]

theorem mem_keys_erase (d : OrderedDict κ υ) (k k' : κ) :
    k' ∈ (d.erase k).keys ↔ k' ≠ k ∧ k' ∈ d.keys := by
  rw [mem_keys_iff, mem_keys_iff, get?_erase]
  by_cases h : k' = k <;> simp [h]

theorem items_set_of_notMem {d : OrderedDict κ υ} {k : κ} (h : k ∉ d.keys) (v : υ) :
    (d.set k v).items = d.items ++ [(k, v)] := by
  unfold set
  rw [dif_neg h]

/-- `d.update(e)` -/
def update (d e : OrderedDict κ υ) : OrderedDict κ υ :=
  e.items.foldl (fun d p => d.set p.1 p.2) d

theorem find?_eq_none_of_notMem {items : List (κ × υ)} {k : κ} (h : k ∉ items.map Prod.fst) :
    items.find? (fun p => p.1 = k) = none := by
  rw [List.find?_eq_none]
  intro p hp hpk
  exact h (List.mem_map.mpr ⟨p, hp, of_decide_eq_true hpk⟩)

theorem get?_foldl_set (items : List (κ × υ)) (hnodup : (items.map Prod.fst).Nodup)
    (d : OrderedDict κ υ) (k : κ) :
    (items.foldl (fun d p => d.set p.1 p.2) d).get? k =
      ((items.find? fun p => p.1 = k).map Prod.snd).or (d.get? k) := by
  induction items generalizing d with
  | nil => rfl
  | cons p items ih =>
      rw [List.map_cons, List.nodup_cons] at hnodup
      obtain ⟨hp, hitems⟩ := hnodup
      rw [List.foldl_cons, ih hitems, get?_set, List.find?_cons]
      by_cases hk : p.1 = k
      · have hnone := find?_eq_none_of_notMem (hk ▸ hp)
        simp [hk, hnone]
      · simp [hk, Ne.symm hk]

theorem get?_update (d e : OrderedDict κ υ) (k : κ) :
    (d.update e).get? k = (e.get? k).or (d.get? k) := get?_foldl_set e.items e.nodup d k

theorem every_set {R : κ → υ → Prop} {d : OrderedDict κ υ} {k : κ} {v : υ} (h : Every R d)
    (hv : R k v) : Every R (d.set k v) := by
  intro p hp
  rcases (mem_items_set d k v).mp hp with rfl | ⟨-, hp⟩
  · exact hv
  · exact h p hp

theorem every_erase {R : κ → υ → Prop} {d : OrderedDict κ υ} (h : Every R d) (k : κ) :
    Every R (d.erase k) := fun p hp => h p (List.mem_of_mem_filter hp)

theorem every_foldl_set {R : κ → υ → Prop} {items : List (κ × υ)} {d : OrderedDict κ υ}
    (h : Every R d) (hitems : ∀ p ∈ items, R p.1 p.2) :
    Every R (items.foldl (fun d p => d.set p.1 p.2) d) := by
  induction items generalizing d with
  | nil => exact h
  | cons p items ih =>
      obtain ⟨hp, hitems⟩ := List.forall_mem_cons.mp hitems
      exact ih (every_set h hp) hitems

theorem every_update {R : κ → υ → Prop} {d e : OrderedDict κ υ} (hd : Every R d)
    (he : Every R e) : Every R (d.update e) := every_foldl_set hd he

theorem mem_items_of_get? {d : OrderedDict κ υ} {k : κ} {v : υ} (h : d.get? k = some v) :
    (k, v) ∈ d.items := by
  obtain ⟨p, hp, rfl⟩ := Option.map_eq_some_iff.mp h
  obtain rfl : p.1 = k := by simpa using List.find?_some hp
  exact List.mem_of_find?_eq_some hp

theorem filter_items {items : List (κ × υ)} (hnodup : (items.map Prod.fst).Nodup) (k : κ) :
    (items.filter fun p => p.1 = k) = (items.find? fun p => p.1 = k).toList := by
  induction items with
  | nil => rfl
  | cons p items ih =>
      rw [List.map_cons, List.nodup_cons] at hnodup
      obtain ⟨hp, hitems⟩ := hnodup
      by_cases hk : p.1 = k
      · have hrest : (items.filter fun p => p.1 = k) = [] := by
          rw [ih hitems, find?_eq_none_of_notMem (hk ▸ hp)]
          rfl
        rw [List.filter_cons_of_pos (by simpa using hk), hrest, List.find?_cons_of_pos (by simpa using hk)]
        rfl
      · rw [List.filter_cons_of_neg (by simpa using hk), List.find?_cons_of_neg (by simpa using hk),
          ih hitems]

theorem get?_of_mem_items {d : OrderedDict κ υ} {p : κ × υ} (h : p ∈ d.items) :
    d.get? p.1 = some p.2 := by
  obtain ⟨v, hv⟩ := Option.isSome_iff_exists.mp
    ((d.mem_keys_iff p.1).mp (List.mem_map_of_mem h))
  have hp := List.inj_on_of_nodup_map d.nodup (mem_items_of_get? hv) h rfl
  rw [hv, ← hp]

/-- The pairs of a key are the one that is looked up. -/
theorem map_filter_items (d : OrderedDict κ υ) (k : κ) :
    (d.items.filter fun p => p.1 = k).map Prod.snd = (d.get? k).toList := by
  rw [filter_items d.nodup]
  unfold get?
  cases d.items.find? fun p => p.1 = k <;> rfl

@[simp] theorem erase_erase (d : OrderedDict κ υ) (k : κ) : (d.erase k).erase k = d.erase k := by
  apply ext
  simp [erase, List.filter_filter]

theorem moveToEnd_keys (d : OrderedDict κ υ) (k k' : κ) :
    k' ∈ (d.moveToEnd k).keys ↔ k' ∈ d.keys := by
  unfold moveToEnd
  cases h : d.get? k with
  | none => rfl
  | some v =>
      have hk : k ∈ d.keys := (d.mem_keys_iff k).mpr (by simp [h])
      simp only [mem_keys_set, mem_keys_erase]
      constructor
      · rintro (rfl | ⟨-, h⟩)
        · exact hk
        · exact h
      · exact fun h => or_iff_not_imp_left.mpr fun hne => ⟨hne, h⟩

theorem popFirst_eq_none {d : OrderedDict κ υ} (h : d.popFirst = none) : d.items = [] := by
  unfold popFirst at h
  split at h
  · assumption
  · cases h

/-- What is popped is the first pair, and the rest is what stands behind it. -/
theorem popFirst_eq_some {d rest : OrderedDict κ υ} {p : κ × υ}
    (h : d.popFirst = some (p, rest)) : d.items = p :: rest.items ∧ rest = d.erase p.1 := by
  unfold popFirst at h
  split at h
  · cases h
  · rename_i q items hitems
    obtain ⟨rfl, rfl⟩ := Prod.mk.inj (Option.some.inj h)
    have hn := d.nodup
    rw [hitems, List.map_cons, List.nodup_cons] at hn
    have hrest : (d.erase q.1).items = items := by
      change (d.items.filter fun p => p.1 ≠ q.1) = items
      rw [hitems, List.filter_cons_of_neg (by simp)]
      refine List.filter_eq_self.mpr fun p hp => decide_eq_true fun hk => hn.1 ?_
      exact hk ▸ List.mem_map_of_mem hp
    exact ⟨by rw [hitems, hrest], rfl⟩

def total (w : υ → ℤ) (d : OrderedDict κ υ) : ℤ := (d.items.map fun p => w p.2).sum

omit [DecidableEq κ] in
@[simp] theorem total_empty (w : υ → ℤ) : (empty : OrderedDict κ υ).total w = 0 := rfl

/-- What is stored under a key counts once, and nothing else goes with it. -/
theorem total_erase (w : υ → ℤ) (d : OrderedDict κ υ) (k : κ) :
    (d.erase k).total w = d.total w - ((d.get? k).map w).getD 0 := by
  have hkey : ((d.items.filter fun p => p.1 = k).map fun p => w p.2).sum =
      ((d.get? k).map w).getD 0 := by
    have h := congrArg (fun values => (values.map w).sum) (d.map_filter_items k)
    simp only [List.map_map] at h
    refine h.trans ?_
    cases d.get? k <;> simp
  have hsplit := (((List.filter_append_perm (fun p : κ × υ => p.1 = k) d.items).map
    fun p => w p.2).sum_eq)
  rw [List.map_append, List.sum_append, hkey] at hsplit
  have hrest : ((d.items.filter fun p => !decide (p.1 = k)).map fun p => w p.2).sum =
      (d.erase k).total w := by
    simp only [total, erase, ne_eq, decide_not]
  rw [hrest] at hsplit
  unfold total at *
  rw [← hsplit]
  abel

theorem set_perm (d : OrderedDict κ υ) (k : κ) (v : υ) :
    ((d.set k v).items).Perm ((k, v) :: (d.erase k).items) := by
  have hnew : (k, v) ∉ (d.erase k).items := fun h => by simpa using List.of_mem_filter h
  refine (List.perm_ext_iff_of_nodup (d.set k v).nodup.of_map
    (List.nodup_cons.mpr ⟨hnew, (d.erase k).nodup.of_map⟩)).mpr fun p => ?_
  rw [mem_items_set, List.mem_cons, erase, List.mem_filter]
  simp only [decide_eq_true_eq, and_comm]

theorem total_set (w : υ → ℤ) (d : OrderedDict κ υ) (k : κ) (v : υ) :
    (d.set k v).total w = d.total w - ((d.get? k).map w).getD 0 + w v := by
  have h := ((d.set_perm k v).map fun p => w p.2).sum_eq
  rw [List.map_cons, List.sum_cons] at h
  rw [← total_erase]
  exact h.trans (add_comm _ _)

end

end OrderedDict

end SmcPipeline
