import SmcPipeline.FxcmIngestor
import SmcPipeline.KeyedRows
import Mathlib.Data.String.Basic

/-!
# The text of a value

`json_dumps` of `core/serialization.py`: keys are sorted, and since `allow_nan` is set a float
that is no number is written as one of three words that are not JSON. A text is the list of its
tokens. A standard parser takes it exactly if every float of the value is a number.
-/

namespace SmcPipeline

/-- A number or an infinity. -/
inductive Extended (K : Type*)
  | num (x : K)
  | inf
  | negInf
deriving DecidableEq

/-- A Python float, where `none` is NaN. -/
abbrev PyFloat (K : Type*) := Option (Extended K)

instance {K : Type*} [Zero K] : Zero (Extended K) := ⟨.num 0⟩

inductive Token (K : Type*)
  | openBrace
  | closeBrace
  | openBracket
  | closeBracket
  | comma
  | colon
  | null
  | bool (b : Bool)
  | int (i : ℤ)
  | number (x : K)
  | str (s : String)
  | nan
  | infinity
  | minusInfinity
deriving DecidableEq

namespace JsonText

open KeyedRows

section

variable {F G : Type*}

/-- Induction on a value whose lists and dicts are taken as a whole. -/
@[elab_as_elim]
theorem json_induction {motive : Json F → Prop}
    (leaf : ∀ j, (∀ items, j ≠ .arr items) → (∀ fields, j ≠ .obj fields) → motive j)
    (arr : ∀ items, (∀ j ∈ items, motive j) → motive (.arr items))
    (obj : ∀ fields : List (String × Json F), (∀ field ∈ fields, motive field.2) →
      motive (.obj fields)) (j : Json F) : motive j :=
  @Json.rec F motive (fun items => ∀ j ∈ items, motive j)
    (fun fields => ∀ field ∈ fields, motive field.2) (fun field => motive field.2)
    (leaf _ (by simp) (by simp)) (fun _ => leaf _ (by simp) (by simp))
    (fun _ => leaf _ (by simp) (by simp)) (fun _ => leaf _ (by simp) (by simp))
    (fun _ => leaf _ (by simp) (by simp)) arr obj (by simp)
    (fun _ _ hj hitems => List.forall_mem_cons.mpr ⟨hj, hitems⟩) (by simp)
    (fun _ _ hfield hfields => List.forall_mem_cons.mpr ⟨hfield, hfields⟩) (fun _ _ hj => hj) j

/-- A list is converted exactly if all its elements are. -/
theorem mapM_eq_some_iff {α β : Type*} {f : α → Option β} {as : List α} {bs : List β} :
    as.mapM f = some bs ↔ as.map f = bs.map some := by
  induction as generalizing bs with
  | nil => cases bs <;> simp
  | cons a as ih =>
      cases bs with
      | nil =>
          cases hb : f a with
          | none => simp [List.mapM_cons, hb]
          | some b => cases hrest : as.mapM f <;> simp [List.mapM_cons, hb, hrest]
      | cons b bs =>
          rw [List.map_cons, List.map_cons, List.cons.injEq, ← ih]
          cases hb : f a with
          | none => simp [List.mapM_cons, hb]
          | some b' => cases hrest : as.mapM f <;> simp [List.mapM_cons, hb, hrest]

mutual

def floats : Json F → List F
  | .null => []
  | .bool _ => []
  | .int _ => []
  | .float x => [x]
  | .str _ => []
  | .arr items => itemFloats items
  | .obj fields => fieldFloats fields

def itemFloats : List (Json F) → List F
  | [] => []
  | j :: items => floats j ++ itemFloats items

def fieldFloats : List (String × Json F) → List F
  | [] => []
  | (_, j) :: fields => floats j ++ fieldFloats fields

end

/-- Every float of the value is such a float. -/
def EveryFloat (P : F → Prop) (j : Json F) : Prop := ∀ x ∈ floats j, P x

theorem mem_itemFloats {x : F} {items : List (Json F)} :
    x ∈ itemFloats items ↔ ∃ j ∈ items, x ∈ floats j := by
  induction items with
  | nil => simp [itemFloats]
  | cons j items ih => simp [itemFloats, ih]

theorem mem_fieldFloats {x : F} {fields : List (String × Json F)} :
    x ∈ fieldFloats fields ↔ ∃ field ∈ fields, x ∈ floats field.2 := by
  induction fields with
  | nil => simp [fieldFloats]
  | cons field fields ih =>
      obtain ⟨name, j⟩ := field
      simp [fieldFloats, ih]

section

variable {P : F → Prop}

@[simp] theorem everyFloat_null : EveryFloat P .null := List.forall_mem_nil P

@[simp] theorem everyFloat_bool (b : Bool) : EveryFloat P (.bool b) := List.forall_mem_nil P

@[simp] theorem everyFloat_int (i : ℤ) : EveryFloat P (.int i) := List.forall_mem_nil P

@[simp] theorem everyFloat_str (s : String) : EveryFloat P (.str s) := List.forall_mem_nil P

@[simp] theorem everyFloat_float {x : F} : EveryFloat P (.float x) ↔ P x :=
  List.forall_mem_singleton

@[simp] theorem everyFloat_arr {items : List (Json F)} :
    EveryFloat P (.arr items) ↔ ∀ j ∈ items, EveryFloat P j := by
  simp only [EveryFloat, floats, mem_itemFloats]
  exact ⟨fun h j hj x hx => h x ⟨j, hj, hx⟩, fun h x ⟨j, hj, hx⟩ => h j hj x hx⟩

@[simp] theorem everyFloat_obj {fields : List (String × Json F)} :
    EveryFloat P (.obj fields) ↔ ∀ field ∈ fields, EveryFloat P field.2 := by
  simp only [EveryFloat, floats, mem_fieldFloats]
  exact ⟨fun h j hj x hx => h x ⟨j, hj, hx⟩, fun h x ⟨j, hj, hx⟩ => h j hj x hx⟩

end

mutual

def dictItems : Json F → List (String × Json F)
  | .null => []
  | .bool _ => []
  | .int _ => []
  | .float _ => []
  | .str _ => []
  | .arr items => listItems items
  | .obj fields => fieldItems fields

def listItems : List (Json F) → List (String × Json F)
  | [] => []
  | j :: items => dictItems j ++ listItems items

def fieldItems : List (String × Json F) → List (String × Json F)
  | [] => []
  | (name, j) :: fields => (name, j) :: (dictItems j ++ fieldItems fields)

end

/-- Every item of a dict, at any depth, is such an item. -/
def EveryItem (R : String → Json F → Prop) (j : Json F) : Prop :=
  ∀ item ∈ dictItems j, R item.1 item.2

theorem mem_listItems {item : String × Json F} {items : List (Json F)} :
    item ∈ listItems items ↔ ∃ j ∈ items, item ∈ dictItems j := by
  induction items with
  | nil => simp [listItems]
  | cons j items ih => simp [listItems, ih]

theorem mem_fieldItems {item : String × Json F} {fields : List (String × Json F)} :
    item ∈ fieldItems fields ↔ ∃ field ∈ fields, item = field ∨ item ∈ dictItems field.2 := by
  induction fields with
  | nil => simp [fieldItems]
  | cons field fields ih =>
      obtain ⟨name, j⟩ := field
      rw [fieldItems, List.mem_cons, List.mem_append, ih, List.exists_mem_cons_iff, or_assoc]

section

variable {R : String → Json F → Prop}

@[simp] theorem everyItem_null : EveryItem R .null := List.forall_mem_nil _

@[simp] theorem everyItem_bool (b : Bool) : EveryItem R (.bool b) := List.forall_mem_nil _

@[simp] theorem everyItem_int (i : ℤ) : EveryItem R (.int i) := List.forall_mem_nil _

@[simp] theorem everyItem_float (x : F) : EveryItem R (.float x) := List.forall_mem_nil _

@[simp] theorem everyItem_str (s : String) : EveryItem R (.str s) := List.forall_mem_nil _

@[simp] theorem everyItem_arr {items : List (Json F)} :
    EveryItem R (.arr items) ↔ ∀ j ∈ items, EveryItem R j := by
  simp only [EveryItem, dictItems, mem_listItems]
  exact ⟨fun h j hj item hitem => h item ⟨j, hj, hitem⟩,
    fun h item ⟨j, hj, hitem⟩ => h j hj item hitem⟩

@[simp] theorem everyItem_obj {fields : List (String × Json F)} :
    EveryItem R (.obj fields) ↔ ∀ field ∈ fields, R field.1 field.2 ∧ EveryItem R field.2 := by
  simp only [EveryItem, dictItems, mem_fieldItems]
  constructor
  · intro h field hfield
    exact ⟨h field ⟨field, hfield, Or.inl rfl⟩,
      fun item hitem => h item ⟨field, hfield, Or.inr hitem⟩⟩
  · rintro h item ⟨field, hfield, rfl | hitem⟩
    · exact (h item hfield).1
    · exact (h field hfield).2 item hitem

end

mutual

def mapFloats (f : F → G) : Json F → Json G
  | .null => .null
  | .bool b => .bool b
  | .int i => .int i
  | .float x => .float (f x)
  | .str s => .str s
  | .arr items => .arr (mapItems f items)
  | .obj fields => .obj (mapFields f fields)

def mapItems (f : F → G) : List (Json F) → List (Json G)
  | [] => []
  | j :: items => mapFloats f j :: mapItems f items

def mapFields (f : F → G) : List (String × Json F) → List (String × Json G)
  | [] => []
  | (name, j) :: fields => (name, mapFloats f j) :: mapFields f fields

end

theorem mapItems_eq (f : F → G) (items : List (Json F)) :
    mapItems f items = items.map (mapFloats f) := by
  induction items with
  | nil => rfl
  | cons j items ih => rw [mapItems, ih, List.map_cons]

theorem mapFields_eq (f : F → G) (fields : List (String × Json F)) :
    mapFields f fields = fields.map fun field => (field.1, mapFloats f field.2) := by
  induction fields with
  | nil => rfl
  | cons field fields ih => rw [mapFields, ih, List.map_cons]

theorem everyFloat_mapFloats {P : G → Prop} {f : F → G} {j : Json F} :
    EveryFloat P (mapFloats f j) ↔ EveryFloat (fun x => P (f x)) j := by
  induction j using json_induction with
  | leaf j harr hobj => cases j <;> simp_all [mapFloats]
  | arr items ih =>
      rw [mapFloats, mapItems_eq, everyFloat_arr, everyFloat_arr, List.forall_mem_map]
      exact forall₂_congr ih
  | obj fields ih =>
      rw [mapFloats, mapFields_eq, everyFloat_obj, everyFloat_obj, List.forall_mem_map]
      exact forall₂_congr ih

theorem everyItem_mapFloats {R : String → Json G → Prop} {f : F → G} {j : Json F} :
    EveryItem R (mapFloats f j) ↔ EveryItem (fun name v => R name (mapFloats f v)) j := by
  induction j using json_induction with
  | leaf j harr hobj => cases j <;> simp_all [mapFloats]
  | arr items ih =>
      rw [mapFloats, mapItems_eq, everyItem_arr, everyItem_arr, List.forall_mem_map]
      exact forall₂_congr ih
  | obj fields ih =>
      rw [mapFloats, mapFields_eq, everyItem_obj, everyItem_obj, List.forall_mem_map]
      exact forall₂_congr fun field hfield => and_congr_right' (ih field hfield)

mutual

def sortKeys : Json F → Json F
  | .null => .null
  | .bool b => .bool b
  | .int i => .int i
  | .float x => .float x
  | .str s => .str s
  | .arr items => .arr (sortItems items)
  | .obj fields => .obj (sortBy Prod.fst (sortFields fields))

def sortItems : List (Json F) → List (Json F)
  | [] => []
  | j :: items => sortKeys j :: sortItems items

def sortFields : List (String × Json F) → List (String × Json F)
  | [] => []
  | (name, j) :: fields => (name, sortKeys j) :: sortFields fields

end

theorem sortItems_eq (items : List (Json F)) : sortItems items = items.map sortKeys := by
  induction items with
  | nil => rfl
  | cons j items ih => rw [sortItems, ih, List.map_cons]

theorem sortFields_eq (fields : List (String × Json F)) :
    sortFields fields = fields.map fun field => (field.1, sortKeys field.2) := by
  induction fields with
  | nil => rfl
  | cons field fields ih => rw [sortFields, ih, List.map_cons]

theorem everyFloat_sortKeys {P : F → Prop} {j : Json F} :
    EveryFloat P (sortKeys j) ↔ EveryFloat P j := by
  induction j using json_induction with
  | leaf j harr hobj => cases j <;> simp_all [sortKeys]
  | arr items ih =>
      rw [sortKeys, sortItems_eq, everyFloat_arr, everyFloat_arr, List.forall_mem_map]
      exact forall₂_congr ih
  | obj fields ih =>
      have hmem : ∀ field, field ∈ sortBy Prod.fst (sortFields fields) ↔
          field ∈ sortFields fields := fun field => mem_sortBy Prod.fst
      rw [sortKeys, everyFloat_obj, everyFloat_obj]
      simp only [hmem]
      rw [sortFields_eq, List.forall_mem_map]
      exact forall₂_congr ih

end

variable {K : Type*}

/-- The float of a cell. -/
def liftFloat : Option K → PyFloat K := Option.map .num

def floatToken : PyFloat K → Token K
  | none => .nan
  | some .inf => .infinity
  | some .negInf => .minusInfinity
  | some (.num x) => .number x

mutual

def tokens : Json (PyFloat K) → List (Token K)
  | .null => [.null]
  | .bool b => [.bool b]
  | .int i => [.int i]
  | .float x => [floatToken x]
  | .str s => [.str s]
  | .arr items => .openBracket :: ([.comma].intercalate (itemTokens items) ++ [.closeBracket])
  | .obj fields => .openBrace :: ([.comma].intercalate (fieldTokens fields) ++ [.closeBrace])

def itemTokens : List (Json (PyFloat K)) → List (List (Token K))
  | [] => []
  | j :: items => tokens j :: itemTokens items

def fieldTokens : List (String × Json (PyFloat K)) → List (List (Token K))
  | [] => []
  | (name, j) :: fields => (.str name :: .colon :: tokens j) :: fieldTokens fields

end

def jsonDumps (j : Json (PyFloat K)) : List (Token K) := tokens (sortKeys j)

/-- The words for floats that are no numbers. -/
def NonFinite : Token K → Prop
  | .nan => True
  | .infinity => True
  | .minusInfinity => True
  | _ => False

def IsNumber (x : PyFloat K) : Prop := ∃ r, x = some (.num r)

/-- The grammar of JSON, which has no word for a float that is no number. -/
inductive IsJson : List (Token K) → Prop
  | null : IsJson [.null]
  | bool (b : Bool) : IsJson [.bool b]
  | int (i : ℤ) : IsJson [.int i]
  | number (x : K) : IsJson [.number x]
  | str (s : String) : IsJson [.str s]
  | arr (items : List (List (Token K))) : (∀ item ∈ items, IsJson item) →
      IsJson (.openBracket :: ([.comma].intercalate items ++ [.closeBracket]))
  | obj (members : List (String × List (Token K))) : (∀ member ∈ members, IsJson member.2) →
      IsJson (.openBrace :: ([.comma].intercalate
        (members.map fun member => .str member.1 :: .colon :: member.2) ++ [.closeBrace]))

/-- No word for a float that is no number. -/
def Strict (text : List (Token K)) : Prop := ∀ t ∈ text, ¬ NonFinite t

theorem itemTokens_eq (items : List (Json (PyFloat K))) :
    itemTokens items = items.map tokens := by
  induction items with
  | nil => rfl
  | cons j items ih => rw [itemTokens, ih, List.map_cons]

theorem fieldTokens_eq (fields : List (String × Json (PyFloat K))) :
    fieldTokens fields = (fields.map fun field => (field.1, tokens field.2)).map
      fun member => .str member.1 :: .colon :: member.2 := by
  induction fields with
  | nil => rfl
  | cons field fields ih => rw [fieldTokens, ih, List.map_cons, List.map_cons]

/-- A list with commas between its parts has no other tokens. -/
theorem strict_intercalate {parts : List (List (Token K))} :
    Strict ([Token.comma].intercalate parts) ↔ ∀ part ∈ parts, Strict part := by
  induction parts with
  | nil => simp [Strict, List.intercalate_nil]
  | cons part parts ih =>
      by_cases hnil : parts = []
      · subst hnil
        rw [List.intercalate_singleton, List.forall_mem_singleton]
      · rw [List.intercalate_cons_of_ne_nil hnil, List.forall_mem_cons, ← ih]
        simp [Strict, or_imp, forall_and, NonFinite]

theorem isNumber_iff {x : PyFloat K} : IsNumber x ↔ ¬ NonFinite (floatToken x) := by
  rcases x with _ | (r | _ | _) <;> simp [IsNumber, floatToken, NonFinite]

theorem isNumber_liftFloat {x : Option K} : IsNumber (liftFloat x) ↔ x.isSome = true := by
  cases x <;> simp [liftFloat, IsNumber]

/-- The words stand for the floats that are no numbers. -/
theorem strict_tokens {j : Json (PyFloat K)} : Strict (tokens j) ↔ EveryFloat IsNumber j := by
  induction j using json_induction with
  | leaf j harr hobj => cases j <;> simp_all [tokens, Strict, NonFinite, isNumber_iff]
  | arr items ih =>
      have hparts : Strict (tokens (.arr items)) ↔ ∀ part ∈ itemTokens items, Strict part := by
        rw [← strict_intercalate]
        simp [tokens, Strict, NonFinite, or_imp, forall_and]
      rw [hparts, itemTokens_eq, List.forall_mem_map, everyFloat_arr]
      exact forall₂_congr ih
  | obj fields ih =>
      have hparts : Strict (tokens (.obj fields)) ↔ ∀ part ∈ fieldTokens fields, Strict part := by
        rw [← strict_intercalate]
        simp [tokens, Strict, NonFinite, or_imp, forall_and]
      rw [hparts, fieldTokens_eq, List.map_map, List.forall_mem_map, everyFloat_obj]
      refine forall₂_congr fun field hfield => ?_
      rw [← ih field hfield]
      simp [Strict, NonFinite]

/-- JSON has no such words. -/
theorem strict_of_isJson {text : List (Token K)} (h : IsJson text) : Strict text := by
  induction h with
  | null => simp [Strict, NonFinite]
  | bool b => simp [Strict, NonFinite]
  | int i => simp [Strict, NonFinite]
  | number x => simp [Strict, NonFinite]
  | str s => simp [Strict, NonFinite]
  | arr items _ ih =>
      have hitems := strict_intercalate.mpr ih
      simp only [Strict, List.mem_cons, List.mem_append, List.not_mem_nil, or_false] at hitems ⊢
      rintro t (rfl | ht | rfl)
      · exact id
      · exact hitems t ht
      · exact id
  | obj members _ ih =>
      have hmembers : Strict ([Token.comma].intercalate (members.map fun member =>
          Token.str member.1 :: Token.colon :: member.2)) := by
        rw [strict_intercalate, List.forall_mem_map]
        intro member hmember
        have hvalue := ih member hmember
        simp only [Strict, List.mem_cons] at hvalue ⊢
        rintro t (rfl | rfl | ht)
        · exact id
        · exact id
        · exact hvalue t ht
      simp only [Strict, List.mem_cons, List.mem_append, List.not_mem_nil, or_false] at hmembers ⊢
      rintro t (rfl | ht | rfl)
      · exact id
      · exact hmembers t ht
      · exact id

theorem isJson_tokens {j : Json (PyFloat K)} (h : EveryFloat IsNumber j) : IsJson (tokens j) := by
  induction j using json_induction with
  | leaf j harr hobj =>
      cases j with
      | null => exact .null
      | bool b => exact .bool b
      | int i => exact .int i
      | float x =>
          obtain ⟨r, rfl⟩ := everyFloat_float.mp h
          exact .number r
      | str s => exact .str s
      | arr items => exact absurd rfl (harr items)
      | obj fields => exact absurd rfl (hobj fields)
  | arr items ih =>
      rw [tokens, itemTokens_eq]
      refine .arr _ (List.forall_mem_map.mpr fun j hj => ?_)
      exact ih j hj (everyFloat_arr.mp h j hj)
  | obj fields ih =>
      rw [tokens, fieldTokens_eq]
      refine .obj _ (List.forall_mem_map.mpr fun field hfield => ?_)
      exact ih field hfield (everyFloat_obj.mp h field hfield)

/-- A text is strict JSON exactly if all floats of its value are numbers, and this is to say that
it has none of the three words. -/
theorem jsonDumps_spec (j : Json (PyFloat K)) :
    (IsJson (jsonDumps j) ↔ Strict (jsonDumps j)) ∧
      (Strict (jsonDumps j) ↔ EveryFloat IsNumber j) := by
  have hstrict : Strict (jsonDumps j) ↔ EveryFloat IsNumber j :=
    strict_tokens.trans everyFloat_sortKeys
  refine ⟨⟨strict_of_isJson, fun h => ?_⟩, hstrict⟩
  exact isJson_tokens (everyFloat_sortKeys.mpr (hstrict.mp h))

end JsonText

end SmcPipeline
