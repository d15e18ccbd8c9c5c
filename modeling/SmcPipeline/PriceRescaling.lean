import SmcPipeline.CleanHints
import SmcPipeline.InTurn
import SmcPipeline.StrictMessages
import Mathlib.Tactic.Linarith
import Mathlib.Tactic.Positivity

/-!
# Rescaled prices

Each price of a hint is rescaled on its own: it is multiplied by a power of ten that depends
on it and on the reference, or kept. A price that has been rescaled is near the reference and
stays. The two ends of an interval may be multiplied by different powers, and then need not be
in order any more.
-/

namespace SmcPipeline.PriceRescaling

open Candles FxcmIngestor JsonText SmcPublisher ViewerStateBuilder CleanHints InTurn

variable {K : Type*}

section

variable [Field K] [LinearOrder K] [FloorRing K] (env : PublishRuntime K)

/-- The power by which `_apply_scale` goes. -/
def acceptedPower (price share : K) (multiply : Bool) (reference : K) : Option ℤ :=
  (roundPowerOfTen env share).filter fun power =>
    isWithinMagnitude (if multiply then price * (10 : ℕ) ^ power else price / (10 : ℕ) ^ power)
      reference

/-- The power of ten that a number is multiplied by. -/
def powerOf (reference price : K) : ℤ :=
  if |reference| = 0 ∨ |price| = 0 then 0
  else
    let share := |reference| / |price|
    let inverse := |price| / |reference|
    if ratio 2 10 ≤ share ∧ share ≤ (5 : ℕ) then 0
    else
      ((if (5 : ℕ) < share then acceptedPower env price share true reference else none).or
        ((if (5 : ℕ) < inverse then acceptedPower env price inverse false reference else none).map
          Neg.neg)).getD 0

variable {env}

theorem applyScale_eq (price share : K) (multiply : Bool) (reference : K) :
    applyScale env price share multiply reference =
      (acceptedPower env price share multiply reference).map fun power =>
        price * ((10 : ℕ) : K) ^ (if multiply then power else -power) := by
  unfold applyScale acceptedPower
  cases roundPowerOfTen env share with
  | none => rfl
  | some power =>
      rw [Option.bind_some, Option.filter_some]
      cases multiply with
      | true => simp only [if_true]; split_ifs <;> rfl
      | false =>
          simp only [Bool.false_eq_true, if_false, zpow_neg, ← div_eq_mul_inv]
          split_ifs <;> rfl

theorem rescaleNumber_eq (price reference : K) :
    rescaleNumber env price reference =
      price * ((10 : ℕ) : K) ^ powerOf env reference price := by
  unfold rescaleNumber powerOf
  by_cases href : |reference| = 0
  · rw [if_pos href, if_pos (Or.inl href), zpow_zero, mul_one]
  · by_cases hprice : |price| = 0
    · rw [if_neg href, if_pos hprice, if_pos (Or.inr hprice), zpow_zero, mul_one]
    · rw [if_neg href, if_neg hprice, if_neg (not_or.mpr ⟨href, hprice⟩)]
      dsimp only
      split_ifs with hnear hup hdown hdown
      · rw [zpow_zero, mul_one]
      · rw [applyScale_eq, applyScale_eq]
        cases acceptedPower env price (|reference| / |price|) true reference <;>
          cases acceptedPower env price (|price| / |reference|) false reference <;> simp
      · rw [applyScale_eq]
        cases acceptedPower env price (|reference| / |price|) true reference <;> simp
      · rw [applyScale_eq]
        cases acceptedPower env price (|price| / |reference|) false reference <;> simp
      · simp

theorem within_of_applyScale {price share reference candidate : K} {multiply : Bool}
    (h : applyScale env price share multiply reference = some candidate) :
    isWithinMagnitude candidate reference = true := by
  obtain ⟨power, -, hcandidate⟩ := Option.bind_eq_some_iff.mp h
  dsimp only at hcandidate
  split_ifs at hcandidate with hscale hwithin hwithin <;>
    exact Option.some.inj hcandidate ▸ hwithin

/-- A number is kept, or its new value is near the reference. -/
theorem kept_or_within (price reference : K) :
    rescaleNumber env price reference = price ∨
      isWithinMagnitude (rescaleNumber env price reference) reference = true := by
  unfold rescaleNumber
  split
  · exact Or.inl rfl
  · split
    · exact Or.inl rfl
    · dsimp only
      split
      · exact Or.inl rfl
      · generalize hfound : Option.or _ _ = found
        cases found with
        | none => exact Or.inl rfl
        | some candidate =>
            rcases Option.or_eq_some_iff.mp hfound with h | ⟨-, h⟩
            · split_ifs at h
              exact Or.inr (within_of_applyScale h)
            · split_ifs at h
              exact Or.inr (within_of_applyScale h)

end

section

variable [Field K] [LinearOrder K] [IsStrictOrderedRing K] [FloorRing K]
  {env : PublishRuntime K}

/-- A number near the reference stays. -/
theorem rescaleNumber_of_within {price reference : K}
    (h : isWithinMagnitude price reference = true) : rescaleNumber env price reference = price := by
  unfold isWithinMagnitude at h
  split_ifs at h with href
  obtain ⟨hlow, hhigh⟩ := (Bool.and_eq_true_iff.mp h).imp of_decide_eq_true of_decide_eq_true
  have hpos : 0 < |reference| := lt_of_le_of_ne (abs_nonneg reference) (Ne.symm href)
  have hlow : |reference| ≤ (5 : ℕ) * |price| := by
    rw [le_div_iff₀ hpos] at hlow
    unfold ratio at hlow
    push_cast at hlow ⊢
    linarith
  have hprice : 0 < |price| := by
    push_cast at hlow
    linarith
  unfold rescaleNumber
  rw [if_neg href, if_neg hprice.ne']
  refine if_pos ⟨?_, ?_⟩
  · rw [div_le_iff₀ hpos] at hhigh
    rw [le_div_iff₀ hprice]
    unfold ratio
    push_cast at hhigh ⊢
    linarith
  · rw [div_le_iff₀ hprice]
    exact hlow

theorem rescaleNumber_idem (price reference : K) :
    rescaleNumber env (rescaleNumber env price reference) reference =
      rescaleNumber env price reference := by
  rcases kept_or_within price reference with h | h
  · rw [h, h]
  · exact rescaleNumber_of_within h

end

/-- `x <= y` -/
def pyLe [LE K] : PyFloat K → PyFloat K → Prop
  | some (.num x), some (.num y) => x ≤ y
  | some .negInf, some _ => True
  | some _, some .inf => True
  | _, _ => False

section

variable [Field K] [LinearOrder K] [FloorRing K] (env : PublishRuntime K)

/-- The power of ten that a float is multiplied by, which is 0 where it is kept. -/
def powerFor (reference : Option (PyFloat K)) (price : PyFloat K) : ℤ :=
  match reference, price with
  | some (some (.num r)), some (.num p) =>
    if env.isZero (some (.num r)) then 0 else powerOf env r p
  | _, _ => 0

def rescaled (reference : Option (PyFloat K)) (price : PyFloat K) : PyFloat K :=
  scaled (((10 : ℕ) : K) ^ powerFor env reference price) price

variable {env} {reference price out : PyFloat K}

theorem rescaled_of_power_zero {reference : Option (PyFloat K)}
    (h : powerFor env reference price = 0) : rescaled env reference price = price := by
  unfold rescaled
  rw [h, zpow_zero]
  rcases price with _ | (p | _ | _)
  · rfl
  · simp [scaled]
  · rfl
  · rfl

/-- Only a number is ever changed, and only where the reference is one. -/
theorem rescalePrice_cases (h : rescalePrice env price reference = some out) :
    (∃ p r, price = some (.num p) ∧ reference = some (.num r) ∧
        out = some (.num (rescaleNumber env p r))) ∨
      out = price ∧ ∀ p r, price = some (.num p) → reference ≠ some (.num r) := by
  unfold rescalePrice at h
  split at h
  · rename_i p r
    cases h
    exact Or.inl ⟨p, r, rfl, rfl, rfl⟩
  · rename_i p r hr
    split_ifs at h
    cases h
    exact Or.inr ⟨rfl, fun _ r' _ heq => hr r' (Option.some.inj heq)⟩
  · rename_i x r hx
    split_ifs at h
    cases h
    exact Or.inr ⟨rfl, fun p _ heq _ => hx p (Option.some.inj heq)⟩
  · rename_i hnot _ _
    cases h
    exact Or.inr ⟨rfl, hnot⟩

theorem rescalePrice_eq (hzero : env.isZero reference = false)
    (h : rescalePrice env price reference = some out) : out = rescaled env (some reference) price := by
  rcases rescalePrice_cases h with ⟨p, r, rfl, rfl, rfl⟩ | ⟨rfl, hnot⟩
  · rw [rescaleNumber_eq]
    simp [rescaled, powerFor, hzero, scaled]
  · refine (rescaled_of_power_zero ?_).symm
    unfold powerFor
    split
    · rename_i r p heq
      exact absurd (Option.some.inj heq) (hnot p r rfl)
    · rfl

theorem lands_rescalePrice [IsStrictOrderedRing K] :
    Lands fun price => rescalePrice env price reference := by
  intro price out h
  rcases rescalePrice_cases h with ⟨p, r, rfl, rfl, rfl⟩ | ⟨rfl, -⟩
  · simp only [rescalePrice, rescaleNumber_idem]
  · exact h

omit [FloorRing K] in
theorem pyLe_scaled [IsStrictOrderedRing K] {k : K} (hk : 0 < k) {x y : PyFloat K} (h : pyLe x y) :
    pyLe (scaled k x) (scaled k y) := by
  rcases x with _ | (x | _ | _) <;> rcases y with _ | (y | _ | _) <;> try exact h
  · exact mul_le_mul_of_nonneg_right h hk.le

end

section

variable {F : Type*}

def replaceItem (fields : List (String × Json F)) (name : String) (v : Json F) :
    List (String × Json F) :=
  fields.map fun item => if item.1 = name then (name, v) else item

theorem setItem_of_isSome {fields : List (String × Json F)} {name : String}
    (h : (fields.lookup name).isSome) (v : Json F) :
    setItem fields name v = replaceItem fields name v := if_pos h

theorem lookup_replaceItem (fields : List (String × Json F)) (name other : String) (v : Json F) :
    (replaceItem fields name v).lookup other =
      if other = name then (fields.lookup other).map fun _ => v else fields.lookup other := by
  induction fields with
  | nil => simp [replaceItem]
  | cons item fields ih =>
      obtain ⟨key, value⟩ := item
      unfold replaceItem at ih ⊢
      rw [List.map_cons]
      by_cases hkey : key = name
      · subst hkey
        by_cases hother : other = key
        · simp [hother]
        · simp [List.lookup_cons, hother, beq_false_of_ne hother, ih]
      · by_cases hother : other = key
        · subst hother
          simp [hkey]
        · simp [List.lookup_cons, hkey, beq_false_of_ne hother, ih]

theorem replaceItem_replaceItem (fields : List (String × Json F)) (name : String) (v w : Json F) :
    replaceItem (replaceItem fields name v) name w = replaceItem fields name w := by
  unfold replaceItem
  rw [List.map_map]
  refine List.map_congr_left fun item _ => ?_
  dsimp only [Function.comp]
  split_ifs <;> first | rfl | contradiction

theorem replaceItem_comm {name other : String} (h : other ≠ name)
    (fields : List (String × Json F)) (v w : Json F) :
    replaceItem (replaceItem fields name v) other w =
      replaceItem (replaceItem fields other w) name v := by
  unfold replaceItem
  rw [List.map_map, List.map_map]
  refine List.map_congr_left fun item _ => ?_
  dsimp only [Function.comp]
  by_cases hname : item.1 = name
  · simp [hname, Ne.symm h]
  · by_cases hother : item.1 = other <;> simp [hname, hother, h]

end

theorem lands_onDict {g : Items K → Option (Items K)} (h : Lands g) : Lands (onDict g) := by
  intro v out hout
  cases v with
  | obj fields =>
      obtain ⟨fields', hfields, rfl⟩ := Option.map_eq_some_iff.mp hout
      simp only [onDict, h _ _ hfields, Option.map_some]
  | _ =>
      cases hout
      rfl

theorem lands_onDicts {g : Items K → Option (Items K)} (h : Lands g) : Lands (onDicts g) := by
  intro v out hout
  cases v with
  | arr items =>
      obtain ⟨items', hitems, rfl⟩ := Option.map_eq_some_iff.mp hout
      have hall : ∀ item ∈ items', onDict g item = some item :=
        forall_of_mapM (P := fun _ => True) (fun a b _ hab => lands_onDict h a b hab) hitems
          fun _ _ => trivial
      have hsame : items'.mapM (onDict g) = some items' :=
        mapM_eq_some_iff.mpr (List.map_congr_left hall)
      simp only [onDicts, hsame, Option.map_some]
  | _ =>
      cases hout
      rfl

/-- What is made of an item, where it is there; it may be left as it is. -/
def updateItem (name : String) (f : Json (PyFloat K) → Option (Option (Json (PyFloat K))))
    (fields : Items K) : Option (Items K) :=
  match fields.lookup name with
  | none => some fields
  | some v => (f v).map fun w => w.elim fields (replaceItem fields name)

/-- The value that is left in the place of one. -/
def result (f : Json (PyFloat K) → Option (Option (Json (PyFloat K)))) (v : Json (PyFloat K)) :
    Option (Json (PyFloat K)) := (f v).map fun w => w.getD v

/-- A value that is set is set again to what it is. -/
def Settles (f : Json (PyFloat K) → Option (Option (Json (PyFloat K)))) : Prop :=
  ∀ v w, f v = some (some w) → f w = some (some w)

section

variable {name other : String} {f g : Json (PyFloat K) → Option (Option (Json (PyFloat K)))}
  {fields out : Items K}

theorem updateItem_eq_some :
    updateItem name f fields = some out ↔
      (fields.lookup name = none ∨ ∃ v, fields.lookup name = some v ∧ f v = some none) ∧
          out = fields ∨
        ∃ v w, fields.lookup name = some v ∧ f v = some (some w) ∧
          out = replaceItem fields name w := by
  unfold updateItem
  cases hlookup : fields.lookup name with
  | none => simp [eq_comm]
  | some v =>
      cases hv : f v with
      | none => simp [hv]
      | some w => cases w <;> simp [hv, eq_comm]

theorem lands_updateItem (h : Settles f) : Lands (updateItem name f) := by
  intro fields out hout
  rcases updateItem_eq_some.mp hout with ⟨-, rfl⟩ | ⟨v, w, hlookup, hw, rfl⟩
  · exact hout
  · refine updateItem_eq_some.mpr (Or.inr ⟨w, w, ?_, h v w hw, ?_⟩)
    · rw [lookup_replaceItem, if_pos rfl, hlookup, Option.map_some]
    · rw [replaceItem_replaceItem]

/-- What is made of one item leaves the others alone. -/
theorem lookup_updateItem_of_ne (hne : other ≠ name) (h : updateItem name f fields = some out) :
    out.lookup other = fields.lookup other := by
  rcases updateItem_eq_some.mp h with ⟨-, rfl⟩ | ⟨v, w, -, -, rfl⟩
  · rfl
  · rw [lookup_replaceItem, if_neg hne]

theorem keeps_updateItem (hne : name ≠ other) : Keeps (updateItem name f) (updateItem other g) := by
  intro fields out hfixed hout
  have hsame := lookup_updateItem_of_ne hne hout
  rcases updateItem_eq_some.mp hfixed with ⟨hleft, -⟩ | ⟨v, w, hlookup, hw, heq⟩
  · rw [← hsame] at hleft
    exact updateItem_eq_some.mpr (Or.inl ⟨hleft, rfl⟩)
  · refine updateItem_eq_some.mpr (Or.inr ⟨v, w, hsame.trans hlookup, hw, ?_⟩)
    rcases updateItem_eq_some.mp hout with ⟨-, rfl⟩ | ⟨_, x, -, -, rfl⟩
    · exact heq
    · rw [replaceItem_comm hne, ← heq]

theorem get_updateItem (hnull : result f .null = some .null)
    (h : updateItem name f fields = some out) :
    result f (get fields name) = some (get out name) := by
  unfold ViewerStateBuilder.get
  rcases updateItem_eq_some.mp h with ⟨hlookup | ⟨v, hlookup, hv⟩, rfl⟩ | ⟨v, w, hlookup, hw, rfl⟩
  · rw [hlookup]
    exact hnull
  · rw [hlookup]
    simp [result, hv]
  · rw [lookup_replaceItem, if_pos rfl, hlookup]
    simp [result, hw]

end

/-- What is to be made of some items, by their names. -/
abbrev Updates (K : Type*) :=
  List (String × (Json (PyFloat K) → Option (Option (Json (PyFloat K)))))

def updateItems (updates : Updates K) : Items K → Option (Items K) :=
  inTurn (updates.map fun s => updateItem s.1 s.2)

section

variable {updates : Updates K} {fields out : Items K}

theorem lands_updateItems (hnames : (updates.map Prod.fst).Nodup)
    (h : ∀ s ∈ updates, Settles s.2) : Lands (updateItems updates) := by
  refine lands_inTurn (List.forall_mem_map.mpr fun s hs => lands_updateItem (h s hs)) ?_
  unfold List.Nodup at hnames
  rw [List.pairwise_map] at hnames ⊢
  exact hnames.imp fun hne => keeps_updateItem hne

theorem lookup_updateItems_of_notMem {name : String} (hname : name ∉ updates.map Prod.fst)
    (h : updateItems updates fields = some out) : out.lookup name = fields.lookup name := by
  induction updates generalizing fields with
  | nil =>
      cases h
      rfl
  | cons s updates ih =>
      rw [List.map_cons, List.mem_cons, not_or] at hname
      obtain ⟨middle, hmiddle, h⟩ := Option.bind_eq_some_iff.mp h
      rw [ih hname.2 h, lookup_updateItem_of_ne hname.1 hmiddle]

/-- What comes out at each name is what is made of the value there; where there is none, both
are `null`. -/
theorem get_updateItems (hnames : (updates.map Prod.fst).Nodup)
    (hnull : ∀ s ∈ updates, result s.2 .null = some .null)
    (h : updateItems updates fields = some out) :
    ∀ s ∈ updates, result s.2 (get fields s.1) = some (get out s.1) := by
  induction updates generalizing fields with
  | nil => exact fun s hs => absurd hs List.not_mem_nil
  | cons s updates ih =>
      obtain ⟨hfresh, hnames⟩ := List.nodup_cons.mp hnames
      obtain ⟨hs, hrest⟩ := List.forall_mem_cons.mp hnull
      obtain ⟨middle, hmiddle, h⟩ := Option.bind_eq_some_iff.mp h
      refine List.forall_mem_cons.mpr ⟨?_, fun t ht => ?_⟩
      · have hget := get_updateItem hs hmiddle
        unfold ViewerStateBuilder.get at hget ⊢
        rw [lookup_updateItems_of_notMem hfresh h]
        exact hget
      · have hne : t.1 ≠ s.1 := fun heq => hfresh (heq ▸ List.mem_map_of_mem ht)
        have hget := ih hnames hrest h t ht
        unfold ViewerStateBuilder.get at hget ⊢
        rw [← lookup_updateItem_of_ne hne hmiddle]
        exact hget

end

section

variable (env : PublishRuntime K)

/-- The number that `safe_float` reads at a name, if it reads one. -/
def numberAt (fields : Items K) (name : String) : Option (PyFloat K) :=
  (safeFloat env (get fields name)).join

variable [Field K] [LinearOrder K] [FloorRing K]

/-- What a round of `_normalize_fields` makes of a value. -/
def rescaleValue (reference : PyFloat K) (v : Json (PyFloat K)) :
    Option (Option (Json (PyFloat K))) :=
  (safeFloat env v).bind fun
    | none => some none
    | some price => (rescalePrice env price reference).map fun price => some (.float price)

theorem normalizeFields_eq (reference : PyFloat K) (names : List String) :
    normalizeFields env reference names =
      updateItems (names.map fun name => (name, rescaleValue env reference)) := by
  funext target
  induction names generalizing target with
  | nil => rfl
  | cons field names ih =>
      unfold normalizeFields updateItems
      rw [List.map_cons, List.map_cons, inTurn, updateItem]
      cases hlookup : target.lookup field with
      | none => exact ih target
      | some value =>
          replace hlookup : (target.lookup field).isSome := by rw [hlookup]; rfl
          unfold rescaleValue
          dsimp only
          cases safeFloat env value with
          | none => rfl
          | some price =>
              cases price with
              | none => exact ih target
              | some price =>
                  cases hprice : rescalePrice env price reference with
                  | none => simp [hprice]
                  | some price =>
                      simp only [hprice, Option.bind_some, Option.map_some, Option.elim_some]
                      rw [setItem_of_isSome hlookup]
                      exact ih _

variable {env} {reference : PyFloat K}

theorem rescaleValue_eq_some {v : Json (PyFloat K)} {w : Option (Json (PyFloat K))} :
    rescaleValue env reference v = some w ↔
      safeFloat env v = some none ∧ w = none ∨
        ∃ price out, safeFloat env v = some (some price) ∧
          rescalePrice env price reference = some out ∧ w = some (.float out) := by
  unfold rescaleValue
  cases safeFloat env v with
  | none => simp
  | some price => cases price <;> simp [eq_comm]

theorem settles_rescaleValue [IsStrictOrderedRing K] : Settles (rescaleValue env reference) := by
  intro v w h
  rcases rescaleValue_eq_some.mp h with ⟨-, hnone⟩ | ⟨price, out, -, hout, hw⟩
  · cases hnone
  · obtain rfl := Option.some.inj hw
    refine rescaleValue_eq_some.mpr (Or.inr ⟨out, out, ?_, lands_rescalePrice price out hout, rfl⟩)
    simp [safeFloat, env.float_float]

/-- Each number is multiplied by its own power of ten. -/
theorem numberAt_normalizeFields {names : List String} {fields out : Items K}
    (hzero : env.isZero reference = false) (hnames : names.Nodup)
    (h : normalizeFields env reference names fields = some out) :
    ∀ name ∈ names,
      numberAt env out name = (numberAt env fields name).map (rescaled env (some reference)) := by
  rw [normalizeFields_eq] at h
  intro name hname
  have hget : result (rescaleValue env reference) (get fields name) = some (get out name) :=
    get_updateItems (by simpa [Function.comp_def] using hnames)
      (List.forall_mem_map.mpr fun _ _ => rfl) h (name, rescaleValue env reference)
      (List.mem_map_of_mem hname)
  obtain ⟨w, hw, hvalue⟩ := Option.map_eq_some_iff.mp hget
  unfold numberAt
  rw [← hvalue]
  rcases rescaleValue_eq_some.mp hw with ⟨hread, rfl⟩ | ⟨price, scaled, hread, hout, rfl⟩
  · rw [hread]
    exact congrArg Option.join hread
  · obtain rfl := rescalePrice_eq hzero hout
    rw [hread]
    simp [safeFloat, env.float_float]

end

/-- An update that always sets. -/
def always (f : Json (PyFloat K) → Option (Json (PyFloat K))) (v : Json (PyFloat K)) :
    Option (Option (Json (PyFloat K))) := (f v).map some

theorem onItem_eq (name : String) (f : Json (PyFloat K) → Option (Json (PyFloat K))) :
    onItem name f = updateItem name (always f) := by
  funext fields
  unfold onItem updateItem always
  cases hlookup : fields.lookup name with
  | none => rfl
  | some v =>
      have hset : ∀ w, setItem fields name w = replaceItem fields name w :=
        setItem_of_isSome (by rw [hlookup]; rfl)
      cases hv : f v <;> simp [hv, hset]

theorem settles_always {f : Json (PyFloat K) → Option (Json (PyFloat K))} (h : Lands f) :
    Settles (always f) := by
  intro v w hw
  obtain ⟨out, hout, heq⟩ := Option.map_eq_some_iff.mp hw
  obtain rfl := Option.some.inj heq
  unfold always
  rw [h v out hout, Option.map_some]

theorem result_always (f : Json (PyFloat K) → Option (Json (PyFloat K))) (v : Json (PyFloat K)) :
    result (always f) v = f v := by
  unfold result always
  cases f v <;> rfl

section

variable [Field K] [LinearOrder K] [FloorRing K] (env : PublishRuntime K) (reference : PyFloat K)

def swingUpdates : Updates K :=
  ["from_swing", "to_swing"].map fun key =>
    (key, always (onDict (normalizeFields env reference ["price"])))

def structureUpdates : Updates K :=
  [("swings", always (normalizeListFields env reference ["price"])),
    ("ranges", always (normalizeListFields env reference rangeFields)),
    ("active_range", always (onDict (normalizeFields env reference rangeFields))),
    ("events", always (normalizeListFields env reference ["price_level"])),
    ("ote_zones", always (normalizeListFields env reference ["ote_min", "ote_max"])),
    ("legs", always (normalizeLegs env reference))]

def liquidityUpdates : Updates K :=
  [("pools", always (normalizeListFields env reference ["level"])),
    ("magnets", always (normalizeListFields env reference ["price_min", "price_max", "center"]))]

/-- The lists of zones of a hint. -/
def zoneLists : List String :=
  ["zones", "active_zones", "poi_zones", "breaker_zones", "breaker_active_zones"]

def zoneUpdates : Updates K :=
  zoneLists.map fun key => (key, always (normalizeListFields env reference zoneFields))

def hintUpdates : Updates K :=
  [("structure", always (onDict (normalizeStructurePrices env reference))),
    ("liquidity", always (onDict (normalizeLiquidityPrices env reference))),
    ("zones", always (onDict (normalizeZonePrices env reference)))]

theorem normalizeLegs_eq :
    normalizeLegs env reference = onDicts (updateItems (swingUpdates env reference)) := by
  unfold normalizeLegs updateItems swingUpdates
  simp only [List.map_cons, List.map_nil, inTurn, ← onItem_eq, Option.bind_fun_some]

theorem normalizeStructurePrices_eq :
    normalizeStructurePrices env reference = updateItems (structureUpdates env reference) := by
  funext fields
  unfold normalizeStructurePrices updateItems structureUpdates
  simp only [List.map_cons, List.map_nil, inTurn, ← onItem_eq]
  simp

theorem normalizeLiquidityPrices_eq :
    normalizeLiquidityPrices env reference = updateItems (liquidityUpdates env reference) := by
  funext fields
  unfold normalizeLiquidityPrices updateItems liquidityUpdates
  simp only [List.map_cons, List.map_nil, inTurn, ← onItem_eq]
  simp

theorem normalizeZonePrices_eq :
    normalizeZonePrices env reference = updateItems (zoneUpdates env reference) := by
  funext fields
  unfold normalizeZonePrices updateItems zoneUpdates zoneLists
  simp only [List.map_cons, List.map_nil, inTurn, ← onItem_eq]
  simp

theorem normalizeSmcPrices_eq (hzero : env.isZero reference = false) :
    normalizeSmcPrices env (some reference) = updateItems (hintUpdates env reference) := by
  funext fields
  unfold normalizeSmcPrices updateItems hintUpdates
  simp only [List.map_cons, List.map_nil, inTurn, ← onItem_eq, hzero]
  simp

variable {env reference}

section

variable [IsStrictOrderedRing K]

theorem lands_normalizeFields {names : List String} (hnames : names.Nodup) :
    Lands (normalizeFields env reference names) := by
  rw [normalizeFields_eq]
  refine lands_updateItems (by simpa [Function.comp_def] using hnames)
    (List.forall_mem_map.mpr fun _ _ => settles_rescaleValue)

theorem settles_dict {names : List String} (hnames : names.Nodup) :
    Settles (always (onDict (normalizeFields env reference names))) :=
  settles_always (lands_onDict (lands_normalizeFields hnames))

theorem settles_list {names : List String} (hnames : names.Nodup) :
    Settles (always (normalizeListFields env reference names)) :=
  settles_always (lands_onDicts (lands_normalizeFields hnames))

theorem lands_normalizeStructurePrices : Lands (normalizeStructurePrices env reference) := by
  have hlegs : Lands (normalizeLegs env reference) := by
    rw [normalizeLegs_eq]
    exact lands_onDicts (lands_updateItems (by simp [swingUpdates])
      (List.forall_mem_map.mpr fun _ _ => settles_dict (by decide)))
  rw [normalizeStructurePrices_eq]
  refine lands_updateItems (by simp [structureUpdates]) ?_
  simp only [structureUpdates, List.forall_mem_cons]
  exact ⟨settles_list (by decide), settles_list (by decide), settles_dict (by decide),
    settles_list (by decide), settles_list (by decide), settles_always hlegs, List.forall_mem_nil _⟩

theorem lands_normalizeLiquidityPrices : Lands (normalizeLiquidityPrices env reference) := by
  rw [normalizeLiquidityPrices_eq]
  refine lands_updateItems (by simp [liquidityUpdates]) ?_
  simp only [liquidityUpdates, List.forall_mem_cons]
  exact ⟨settles_list (by decide), settles_list (by decide), List.forall_mem_nil _⟩

theorem lands_normalizeZonePrices : Lands (normalizeZonePrices env reference) := by
  rw [normalizeZonePrices_eq]
  exact lands_updateItems (by simp [zoneUpdates, zoneLists])
    (List.forall_mem_map.mpr fun _ _ => settles_list (by decide))

/-- Prices that are rescaled stay when they are rescaled again. -/
theorem lands_normalizeSmcPrices (reference : Option (PyFloat K)) :
    Lands (normalizeSmcPrices env reference) := by
  intro hint out h
  cases reference with
  | none => rfl
  | some reference =>
      cases hzero : env.isZero reference with
      | true => simp only [normalizeSmcPrices, hzero, if_true]
      | false =>
          rw [normalizeSmcPrices_eq env reference hzero] at h ⊢
          refine lands_updateItems (by simp [hintUpdates]) ?_ hint out h
          simp only [hintUpdates, List.forall_mem_cons]
          exact ⟨settles_always (lands_onDict lands_normalizeStructurePrices),
            settles_always (lands_onDict lands_normalizeLiquidityPrices),
            settles_always (lands_onDict lands_normalizeZonePrices), List.forall_mem_nil _⟩

end

end

/-- The dicts of a list. -/
def dictsOf : Json (PyFloat K) → List (Items K)
  | .arr items => items.filterMap asDict
  | _ => []

/-- The dicts of a list of one of the blocks of a hint. -/
def listAt (hint : Items K) (block name : String) : List (Items K) :=
  dictsOf (atPath [block, name] (.obj hint))

/-- The swings of a leg. -/
def legSwings (leg : Items K) : List (Items K) :=
  ["from_swing", "to_swing"].flatMap fun key => (asDict (get leg key)).toList

/-- A dict, and the names of some of its prices. -/
abbrev Interval (K : Type*) := List String × Items K

/-- The lists of dicts with prices in a hint, and the names of their prices. -/
def priceLists : List (String × String × List String) :=
  [("structure", "swings", ["price"]), ("structure", "ranges", rangeFields),
    ("structure", "events", ["price_level"]), ("structure", "ote_zones", ["ote_min", "ote_max"]),
    ("liquidity", "pools", ["level"]),
    ("liquidity", "magnets", ["price_min", "price_max", "center"])] ++
  zoneLists.map ("zones", ·, zoneFields)

/-- The dicts of a hint with all their prices. -/
def prices (hint : Items K) : List (Interval K) :=
  (priceLists.flatMap fun s => (listAt hint s.1 s.2.1).map (s.2.2, ·)) ++
  (asDict (atPath ["structure", "active_range"] (.obj hint))).toList.map (rangeFields, ·) ++
  ((listAt hint "structure" "legs").flatMap legSwings).map (["price"], ·)

/-- The prices that bound a dict or divide it, from the lowest on. -/
def intervals (hint : Items K) : List (Interval K) :=
  (listAt hint "structure" "ranges" ++
      (asDict (atPath ["structure", "active_range"] (.obj hint))).toList).map
    (["low", "eq_level", "high"], ·) ++
  (listAt hint "structure" "ote_zones").map (["ote_min", "ote_max"], ·) ++
  (listAt hint "liquidity" "magnets").map (["price_min", "price_max"], ·) ++
  zoneLists.flatMap fun key => (listAt hint "zones" key).map (["price_min", "price_max"], ·)

theorem forall₂_asDict {g : Items K → Option (Items K)} {v w : Json (PyFloat K)}
    (h : onDict g v = some w) :
    List.Forall₂ (fun a b => g a = some b) (asDict v).toList (asDict w).toList := by
  cases v with
  | obj fields =>
      obtain ⟨fields', hfields, rfl⟩ := Option.map_eq_some_iff.mp h
      exact .cons hfields .nil
  | _ =>
      cases h
      exact .nil

theorem forall₂_filterMap {g : Items K → Option (Items K)} {items items' : List (Json (PyFloat K))}
    (h : items.map (onDict g) = items'.map some) :
    List.Forall₂ (fun a b => g a = some b) (items.filterMap asDict) (items'.filterMap asDict) := by
  induction items generalizing items' with
  | nil =>
      obtain rfl := List.map_eq_nil_iff.mp h.symm
      exact .nil
  | cons item items ih =>
      cases items' with
      | nil => cases h
      | cons item' items' =>
          obtain ⟨hitem, hitems⟩ := List.cons.inj h
          have hdict := forall₂_asDict hitem
          rw [List.filterMap_cons, List.filterMap_cons]
          cases hfirst : asDict item <;> cases hsecond : asDict item' <;>
            rw [hfirst, hsecond] at hdict <;> cases hdict
          · exact ih hitems
          · rename_i hfields _
            exact .cons hfields (ih hitems)

theorem forall₂_dictsOf {g : Items K → Option (Items K)} {v w : Json (PyFloat K)}
    (h : onDicts g v = some w) :
    List.Forall₂ (fun a b => g a = some b) (dictsOf v) (dictsOf w) := by
  cases v with
  | arr items =>
      obtain ⟨items', hitems, rfl⟩ := Option.map_eq_some_iff.mp h
      exact forall₂_filterMap (mapM_eq_some_iff.mp hitems)
  | _ =>
      cases h
      exact .nil

theorem forall₂_flatMap_self {α β γ : Type*} {xs : List α} {f : α → List β} {g : α → List γ}
    {R : β → γ → Prop} (h : ∀ x ∈ xs, List.Forall₂ R (f x) (g x)) :
    List.Forall₂ R (xs.flatMap f) (xs.flatMap g) := by
  refine List.rel_flatMap (R := fun x y => x = y ∧ x ∈ xs)
    (List.forall₂_same.mpr fun x hx => ⟨rfl, hx⟩) ?_
  rintro x _ ⟨rfl, hx⟩
  exact h x hx

/-- What becomes of the values of a dict. -/
theorem atPath_updateItems {updates : Updates K} {v w : Json (PyFloat K)}
    (hnames : (updates.map Prod.fst).Nodup)
    (hnull : ∀ s ∈ updates, result s.2 .null = some .null)
    (h : onDict (updateItems updates) v = some w) :
    ∀ s ∈ updates, result s.2 (atPath [s.1] v) = some (atPath [s.1] w) := by
  intro s hs
  cases v with
  | obj fields =>
      obtain ⟨fields', hfields, rfl⟩ := Option.map_eq_some_iff.mp h
      exact get_updateItems hnames hnull hfields s hs
  | _ =>
      cases h
      exact hnull s hs

section

variable [Field K] [LinearOrder K] [FloorRing K] (env : PublishRuntime K)

/-- The prices are all there, and none is above the next one. -/
def Increasing (x : Interval K) : Prop :=
  ∃ prices : List (PyFloat K), x.1.map (numberAt env x.2) = prices.map some ∧
    prices.IsChain pyLe

/-- The prices are in order when each is multiplied by its own power of ten. -/
def IncreasingRescaled (reference : Option (PyFloat K)) (x : Interval K) : Prop :=
  ∃ prices : List (PyFloat K), x.1.map (numberAt env x.2) = prices.map some ∧
    (prices.map (rescaled env reference)).IsChain pyLe

/-- All prices are multiplied by one power of ten, or all are kept. -/
def OneDecision (reference : Option (PyFloat K)) (x : Interval K) : Prop :=
  ∃ power, ∀ name ∈ x.1, ∀ price ∈ numberAt env x.2 name, powerFor env reference price = power

/-- The interval `y` is `x` with its prices rescaled. -/
def Rescales (reference : Option (PyFloat K)) (x y : Interval K) : Prop :=
  x.1 = y.1 ∧ ∀ name ∈ x.1,
    numberAt env y.2 name = (numberAt env x.2 name).map (rescaled env reference)

/-- The interval `y` is what becomes of `x`: if `x` is in order, `y` is wherever one decision is
taken for all prices of `x`, and in general exactly if the rescaled prices of `x` are. -/
structure KeepsOrder (reference : Option (PyFloat K)) (x y : Interval K) : Prop where
  names : x.1 = y.1
  one_decision : Increasing env x → OneDecision env reference x → Increasing env y
  exact : Increasing env x → (Increasing env y ↔ IncreasingRescaled env reference x)

variable {env} {reference : Option (PyFloat K)}

theorem rescales_refl (h : ∀ price, powerFor env reference price = 0) (x : Interval K) :
    Rescales env reference x x := by
  refine ⟨rfl, fun name _ => ?_⟩
  cases numberAt env x.2 name with
  | none => rfl
  | some price => rw [Option.map_some, rescaled_of_power_zero (h price)]

theorem rescales_of_normalizeFields {reference : PyFloat K} {names ends : List String}
    {fields out : Items K} (hzero : env.isZero reference = false) (hnames : names.Nodup)
    (hends : ∀ name ∈ ends, name ∈ names)
    (h : normalizeFields env reference names fields = some out) :
    Rescales env (some reference) (ends, fields) (ends, out) :=
  ⟨rfl, fun name hname => numberAt_normalizeFields hzero hnames h name (hends name hname)⟩

theorem forall₂_rescales {reference : PyFloat K} {names ends : List String}
    {xs ys : List (Items K)} (hzero : env.isZero reference = false) (hnames : names.Nodup)
    (hends : ∀ name ∈ ends, name ∈ names)
    (h : List.Forall₂ (fun a b => normalizeFields env reference names a = some b) xs ys) :
    List.Forall₂ (Rescales env (some reference)) (xs.map (ends, ·)) (ys.map (ends, ·)) := by
  rw [List.forall₂_map_left_iff, List.forall₂_map_right_iff]
  exact h.imp fun a b => rescales_of_normalizeFields hzero hnames hends

/-- What the walk makes of the lists and dicts of a hint. -/
structure Walked (env : PublishRuntime K) (reference : PyFloat K) (hint out : Items K) : Prop where
  lists : ∀ s ∈ priceLists, List.Forall₂ (fun a b => normalizeFields env reference s.2.2 a = some b)
    (listAt hint s.1 s.2.1) (listAt out s.1 s.2.1)
  activeRange : List.Forall₂ (fun a b => normalizeFields env reference rangeFields a = some b)
    (asDict (atPath ["structure", "active_range"] (.obj hint))).toList
    (asDict (atPath ["structure", "active_range"] (.obj out))).toList
  legs : List.Forall₂ (fun a b => updateItems (swingUpdates env reference) a = some b)
    (listAt hint "structure" "legs") (listAt out "structure" "legs")

theorem walked {reference : PyFloat K} {hint out : Items K} (hzero : env.isZero reference = false)
    (h : normalizeSmcPrices env (some reference) hint = some out) :
    Walked env reference hint out := by
  rw [normalizeSmcPrices_eq env reference hzero] at h
  have hblocks := get_updateItems (by simp [hintUpdates])
    (by simp [hintUpdates, result_always, onDict]) h
  simp only [hintUpdates, List.forall_mem_cons, result_always, normalizeStructurePrices_eq,
    normalizeLiquidityPrices_eq, normalizeZonePrices_eq] at hblocks
  obtain ⟨hstructure, hliquidity, hzones, -⟩ := hblocks
  have hstructure := atPath_updateItems (by simp [structureUpdates])
    (by simp [structureUpdates, result_always, normalizeListFields, normalizeLegs, onDicts,
      onDict]) hstructure
  simp only [structureUpdates, List.forall_mem_cons, result_always] at hstructure
  obtain ⟨hswings, hranges, hactive, hevents, hote, hlegs, -⟩ := hstructure
  have hliquidity := atPath_updateItems (by simp [liquidityUpdates])
    (by simp [liquidityUpdates, result_always, normalizeListFields, onDicts]) hliquidity
  simp only [liquidityUpdates, List.forall_mem_cons, result_always] at hliquidity
  obtain ⟨hpools, hmagnets, -⟩ := hliquidity
  have hzones := atPath_updateItems (by simp [zoneUpdates, zoneLists])
    (by simp [zoneUpdates, result_always, normalizeListFields, onDicts]) hzones
  simp only [zoneUpdates, List.forall_mem_map, result_always] at hzones
  rw [normalizeLegs_eq] at hlegs
  refine ⟨?_, forall₂_asDict hactive, forall₂_dictsOf hlegs⟩
  simp only [priceLists, List.forall_mem_append, List.forall_mem_cons, List.forall_mem_map]
  exact ⟨⟨forall₂_dictsOf hswings, forall₂_dictsOf hranges, forall₂_dictsOf hevents,
    forall₂_dictsOf hote, forall₂_dictsOf hpools, forall₂_dictsOf hmagnets, List.forall_mem_nil _⟩,
    fun key hkey => forall₂_dictsOf (hzones key hkey)⟩

/-- Every price of a hint is rescaled, in its place. -/
theorem forall₂_prices {reference : PyFloat K} {hint out : Items K}
    (hzero : env.isZero reference = false) (h : Walked env reference hint out) :
    List.Forall₂ (Rescales env (some reference)) (prices hint) (prices out) := by
  refine List.rel_append (List.rel_append ?_ ?_) ?_
  · refine forall₂_flatMap_self fun s hs => ?_
    have hnames : ∀ s ∈ priceLists, s.2.2.Nodup := by decide
    exact forall₂_rescales hzero (hnames s hs) (fun _ hname => hname) (h.lists s hs)
  · exact forall₂_rescales hzero (by decide) (by decide) h.activeRange
  · have hprice : ["price"].Nodup := by decide
    refine forall₂_rescales hzero hprice (fun _ hname => hname) (List.rel_flatMap h.legs ?_)
    intro leg leg' hleg
    refine forall₂_flatMap_self fun key hkey => forall₂_asDict ?_
    have hget := get_updateItems (by simp [swingUpdates])
      (by simp [swingUpdates, result_always, onDict]) hleg
    simp only [swingUpdates, List.forall_mem_map, result_always] at hget
    exact hget key hkey

/-- Every interval is rescaled, in its place. -/
theorem forall₂_intervals {reference : PyFloat K} {hint out : Items K}
    (hzero : env.isZero reference = false) (h : Walked env reference hint out) :
    List.Forall₂ (Rescales env (some reference)) (intervals hint) (intervals out) := by
  refine List.rel_append (List.rel_append (List.rel_append ?_ ?_) ?_) ?_
  · rw [List.map_append, List.map_append]
    exact List.rel_append
      (forall₂_rescales hzero (by decide) (by decide)
        (h.lists ("structure", "ranges", rangeFields) (by decide)))
      (forall₂_rescales hzero (by decide) (by decide) h.activeRange)
  · exact forall₂_rescales hzero (by decide) (by decide)
      (h.lists ("structure", "ote_zones", ["ote_min", "ote_max"]) (by decide))
  · exact forall₂_rescales hzero (by decide) (by decide)
      (h.lists ("liquidity", "magnets", ["price_min", "price_max", "center"]) (by decide))
  · have hnames : zoneFields.Nodup := by decide
    have hends : ∀ name ∈ ["price_min", "price_max"], name ∈ zoneFields := by decide
    refine forall₂_flatMap_self fun key hkey => ?_
    refine forall₂_rescales hzero hnames hends (h.lists ("zones", key, zoneFields) ?_)
    exact List.mem_append_right _ (List.mem_map_of_mem hkey)

/-- The new prices are the rescaled ones, so that they are in order if those are. -/
theorem increasing_of_rescales {x y : Interval K} (h : Rescales env reference x y)
    {prices : List (PyFloat K)} (hprices : x.1.map (numberAt env x.2) = prices.map some) :
    Increasing env y ↔ (prices.map (rescaled env reference)).IsChain pyLe := by
  have hnew : y.1.map (numberAt env y.2) = (prices.map (rescaled env reference)).map some :=
    calc y.1.map (numberAt env y.2)
      _ = x.1.map (numberAt env y.2) := by rw [h.1]
      _ = x.1.map fun name => (numberAt env x.2 name).map (rescaled env reference) :=
        List.map_congr_left h.2
      _ = (x.1.map (numberAt env x.2)).map (Option.map (rescaled env reference)) := by
        rw [List.map_map]
        rfl
      _ = (prices.map (rescaled env reference)).map some := by
        rw [hprices, List.map_map, List.map_map]
        rfl
  constructor
  · rintro ⟨new, hread, hchain⟩
    obtain rfl := (Option.some_injective _).list_map (hread.symm.trans hnew)
    exact hchain
  · exact fun hchain => ⟨_, hnew, hchain⟩

theorem keepsOrder_of_rescales [IsStrictOrderedRing K] {x y : Interval K}
    (h : Rescales env reference x y) : KeepsOrder env reference x y := by
  refine ⟨h.1, ?_, ?_⟩
  · rintro ⟨prices, hprices, hchain⟩ ⟨power, hpower⟩
    refine (increasing_of_rescales h hprices).mpr ?_
    have hsame : prices.map (rescaled env reference) =
        prices.map (scaled (((10 : ℕ) : K) ^ power)) := by
      refine List.map_congr_left fun price hprice => ?_
      have hmem : some price ∈ x.1.map (numberAt env x.2) := by
        rw [hprices]
        exact List.mem_map_of_mem hprice
      obtain ⟨name, hname, hread⟩ := List.mem_map.mp hmem
      rw [rescaled, hpower name hname price hread]
    rw [hsame, List.isChain_map]
    exact hchain.imp fun _ _ hle => pyLe_scaled (zpow_pos (by norm_num) power) hle
  · rintro ⟨prices, hprices, -⟩
    rw [increasing_of_rescales h hprices]
    constructor
    · exact fun hchain => ⟨prices, hprices, hchain⟩
    · rintro ⟨prices', hprices', hchain⟩
      obtain rfl := (Option.some_injective _).list_map (hprices'.symm.trans hprices)
      exact hchain

/-- The prices and the intervals of a hint are rescaled, in their places. -/
theorem rescales_of_normalizeSmcPrices {hint out : Items K}
    (h : normalizeSmcPrices env reference hint = some out) :
    List.Forall₂ (Rescales env reference) (prices hint) (prices out) ∧
      List.Forall₂ (Rescales env reference) (intervals hint) (intervals out) := by
  have hsame : (∀ price, powerFor env reference price = 0) → out = hint →
      List.Forall₂ (Rescales env reference) (prices hint) (prices out) ∧
        List.Forall₂ (Rescales env reference) (intervals hint) (intervals out) := by
    rintro hpower rfl
    exact ⟨List.forall₂_same.mpr fun x _ => rescales_refl hpower x,
      List.forall₂_same.mpr fun x _ => rescales_refl hpower x⟩
  cases reference with
  | none =>
      cases h
      exact hsame (fun _ => rfl) rfl
  | some reference =>
      cases hzero : env.isZero reference with
      | false =>
          have hwalked := walked hzero h
          exact ⟨forall₂_prices hzero hwalked, forall₂_intervals hzero hwalked⟩
      | true =>
          simp only [normalizeSmcPrices, hzero, if_true, Option.some.injEq] at h
          refine hsame (fun price => ?_) h.symm
          unfold powerFor
          split
          · rename_i r p heq
            cases heq
            rw [if_pos hzero]
          · rfl

/-- Each price is multiplied by its own power of ten, once and for all, and an interval in order
stays in order if one decision is taken for its prices. -/
theorem rescaling_keeps_order [IsStrictOrderedRing K] {hint out : Items K}
    (h : normalizeSmcPrices env reference hint = some out) :
    List.Forall₂ (Rescales env reference) (prices hint) (prices out) ∧
      List.Forall₂ (KeepsOrder env reference) (intervals hint) (intervals out) ∧
      normalizeSmcPrices env reference out = some out := by
  obtain ⟨hprices, hintervals⟩ := rescales_of_normalizeSmcPrices h
  exact ⟨hprices, hintervals.imp fun _ _ => keepsOrder_of_rescales,
    lands_normalizeSmcPrices reference hint out h⟩

end

section FixedInputs

open StrictMessages

/-- The logarithm of 10, and that of 8 to sixteen digits. -/
def tableLog10 (x : ℚ) : ℚ :=
  if x = 10 then 1 else if x = 8 then 9030899869919435 / 10 ^ 16 else 0

def tablePublisher : PublishRuntime ℚ := { exactSetup.publisher with log10 := tableLog10 }

/-- A hint with one zone. -/
def zoneHint (low high : ℚ) : Items ℚ :=
  [("zones", .obj [("zones", .arr [.obj
    [("price_min", .float (some (.num low))), ("price_max", .float (some (.num high)))]])])]

def hundred : Option (PyFloat ℚ) := some (some (.num 100))

/-- The prices of each interval of a hint. -/
def boundsOf (hint : Items ℚ) : List (List (Option (PyFloat ℚ))) :=
  (intervals hint).map fun x => x.1.map (numberAt tablePublisher x.2)

def number (x : ℚ) : Option (PyFloat ℚ) := some (some (.num x))

theorem exists_normalized {low high low' high' : ℚ}
    (h : ((normalizeSmcPrices tablePublisher hundred (zoneHint low high)).any fun out =>
      decide (boundsOf out = [[number low', number high']])) = true) :
    ∃ out, normalizeSmcPrices tablePublisher hundred (zoneHint low high) = some out ∧
      boundsOf out = [[number low', number high']] := by
  obtain ⟨out, hout, hbounds⟩ := (Option.any_eq_true ..).mp h
  exact ⟨out, hout, of_decide_eq_true hbounds⟩

/-- With the reference 100 a zone from 10 to 12.5 becomes one from 100 to 125. -/
theorem one_decision_keeps_order :
    ∃ out, normalizeSmcPrices tablePublisher hundred (zoneHint 10 (25 / 2)) = some out ∧
      boundsOf out = [[number 100, number 125]] ∧
      List.Forall₂ (Rescales tablePublisher hundred) (prices (zoneHint 10 (25 / 2)))
        (prices out) ∧
      List.Forall₂ (KeepsOrder tablePublisher hundred) (intervals (zoneHint 10 (25 / 2)))
        (intervals out) ∧
      normalizeSmcPrices tablePublisher hundred out = some out := by
  obtain ⟨out, hout, hbounds⟩ : ∃ out, normalizeSmcPrices tablePublisher hundred
      (zoneHint 10 (25 / 2)) = some out ∧ boundsOf out = [[number 100, number 125]] :=
    exists_normalized (by decide +kernel)
  exact ⟨out, hout, hbounds, rescaling_keeps_order hout⟩

/-- The lower end of a zone from 10 to 30 is multiplied by ten, the upper one is kept. -/
theorem ends_are_swapped :
    ¬ ∀ (env : PublishRuntime ℚ) (reference : Option (PyFloat ℚ)) (hint out : Items ℚ),
      normalizeSmcPrices env reference hint = some out →
      List.Forall₂ (fun x y => x.1 = y.1 ∧ (Increasing env x → Increasing env y)) (intervals hint)
        (intervals out) := by
  intro h
  obtain ⟨out, hout, hbounds⟩ : ∃ out, normalizeSmcPrices tablePublisher hundred
      (zoneHint 10 30) = some out ∧ boundsOf out = [[number 100, number 30]] :=
    exists_normalized (by decide +kernel)
  have hall := h tablePublisher hundred _ _ hout
  have hzone : intervals (zoneHint 10 30) = [(["price_min", "price_max"],
      [("price_min", .float (number 10).join), ("price_max", .float (number 30).join)])] := rfl
  rw [hzone] at hall
  unfold boundsOf at hbounds
  generalize intervals out = ys at hall hbounds
  rcases hall with _ | ⟨⟨-, hkeeps⟩, _ | _⟩
  obtain ⟨prices, hprices, hchain⟩ :=
    hkeeps ⟨[some (.num 10), some (.num 30)], rfl, by norm_num [pyLe]⟩
  rw [List.map_singleton, hprices] at hbounds
  obtain rfl : prices = [some (.num 100), some (.num 30)] :=
    (Option.some_injective _).list_map (List.cons.inj hbounds).1
  norm_num [pyLe] at hchain

end FixedInputs

end SmcPipeline.PriceRescaling
