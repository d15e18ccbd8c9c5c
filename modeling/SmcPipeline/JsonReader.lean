import SmcPipeline.CleanHints
import SmcPipeline.Runs

/-!
# Reading a text back

`json_loads` of `core/serialization.py` on a text that is the list of its tokens. The reader goes
through the tokens once, with a stack of the lists and dicts that are open. In a dict that it reads
no name occurs twice, and what `json_dumps` writes for such a value is read back with sorted names.
-/

namespace SmcPipeline.JsonReader

open JsonText KeyedRows Runs ViewerStateBuilder

section

variable {F : Type*}

mutual

/-- The names of each dict of a value, at any depth. -/
def dictNames : Json F → List (List String)
  | .null => []
  | .bool _ => []
  | .int _ => []
  | .float _ => []
  | .str _ => []
  | .arr items => listNames items
  | .obj fields => fields.map Prod.fst :: fieldNames fields

def listNames : List (Json F) → List (List String)
  | [] => []
  | j :: items => dictNames j ++ listNames items

def fieldNames : List (String × Json F) → List (List String)
  | [] => []
  | (_, j) :: fields => dictNames j ++ fieldNames fields

end

/-- No dict of the value has a name twice. -/
def UniqueNames (j : Json F) : Prop := ∀ names ∈ dictNames j, names.Nodup

theorem mem_listNames {names : List String} {items : List (Json F)} :
    names ∈ listNames items ↔ ∃ j ∈ items, names ∈ dictNames j := by
  induction items with
  | nil => simp [listNames]
  | cons j items ih => simp [listNames, ih]

theorem mem_fieldNames {names : List String} {fields : List (String × Json F)} :
    names ∈ fieldNames fields ↔ ∃ field ∈ fields, names ∈ dictNames field.2 := by
  induction fields with
  | nil => simp [fieldNames]
  | cons field fields ih =>
      obtain ⟨name, j⟩ := field
      simp [fieldNames, ih]

@[simp] theorem uniqueNames_null : UniqueNames (.null : Json F) := List.forall_mem_nil _

@[simp] theorem uniqueNames_bool (b : Bool) : UniqueNames (.bool b : Json F) :=
  List.forall_mem_nil _

@[simp] theorem uniqueNames_int (i : ℤ) : UniqueNames (.int i : Json F) := List.forall_mem_nil _

@[simp] theorem uniqueNames_float (x : F) : UniqueNames (.float x) := List.forall_mem_nil _

@[simp] theorem uniqueNames_str (s : String) : UniqueNames (.str s : Json F) :=
  List.forall_mem_nil _

@[simp] theorem uniqueNames_arr {items : List (Json F)} :
    UniqueNames (.arr items) ↔ ∀ j ∈ items, UniqueNames j := by
  simp only [UniqueNames, dictNames, mem_listNames]
  exact ⟨fun h j hj names hnames => h names ⟨j, hj, hnames⟩,
    fun h names ⟨j, hj, hnames⟩ => h j hj names hnames⟩

@[simp] theorem uniqueNames_obj {fields : List (String × Json F)} :
    UniqueNames (.obj fields) ↔
      (fields.map Prod.fst).Nodup ∧ ∀ field ∈ fields, UniqueNames field.2 := by
  simp only [UniqueNames, dictNames, List.forall_mem_cons, mem_fieldNames]
  refine and_congr_right' ⟨fun h field hfield names hnames => ?_, fun h names hnames => ?_⟩
  · exact h names ⟨field, hfield, hnames⟩
  · obtain ⟨field, hfield, hnames⟩ := hnames
    exact h field hfield names hnames

theorem isSome_lookup {fields : List (String × Json F)} {name : String} :
    (fields.lookup name).isSome = true ↔ name ∈ fields.map Prod.fst := by
  rw [List.lookup_isSome_iff, List.mem_map]
  exact exists_congr fun field => and_congr_right' (by rw [beq_iff_eq, eq_comm])

theorem setItem_of_notMem {fields : List (String × Json F)} {name : String}
    (h : name ∉ fields.map Prod.fst) (v : Json F) :
    setItem fields name v = fields ++ [(name, v)] :=
  if_neg fun hsome => h (isSome_lookup.mp hsome)

/-- An item that is set keeps its place, or comes last. -/
theorem map_fst_setItem (fields : List (String × Json F)) (name : String) (v : Json F) :
    (setItem fields name v).map Prod.fst =
      if name ∈ fields.map Prod.fst then fields.map Prod.fst
      else fields.map Prod.fst ++ [name] := by
  split_ifs with h
  · unfold setItem
    rw [if_pos (isSome_lookup.mpr h), List.map_map]
    refine List.map_congr_left fun item _ => ?_
    rw [Function.comp_apply]
    split_ifs with hname
    · exact hname.symm
    · rfl
  · rw [setItem_of_notMem h, List.map_append, List.map_singleton]

theorem uniqueNames_setItem {fields : List (String × Json F)} {name : String} {v : Json F}
    (h : UniqueNames (.obj fields)) (hv : UniqueNames v) :
    UniqueNames (.obj (setItem fields name v)) := by
  rw [uniqueNames_obj] at h ⊢
  constructor
  · rw [map_fst_setItem]
    split_ifs with hmem
    · exact h.1
    · exact List.nodup_append_comm.mp (List.nodup_cons.mpr ⟨hmem, h.1⟩)
  · intro field hfield
    rcases CleanHints.mem_setItem hfield with rfl | hfield
    · exact hv
    · exact h.2 field hfield

theorem uniqueNames_sortKeys {j : Json F} (h : UniqueNames j) : UniqueNames (sortKeys j) := by
  induction j using json_induction with
  | leaf j harr hobj => cases j <;> simp_all [sortKeys]
  | arr items ih =>
      rw [sortKeys, sortItems_eq, uniqueNames_arr, List.forall_mem_map]
      exact fun j hj => ih j hj (uniqueNames_arr.mp h j hj)
  | obj fields ih =>
      obtain ⟨hnodup, hfields⟩ := uniqueNames_obj.mp h
      have hperm := sortBy_perm Prod.fst (sortFields fields)
      have hnames : (sortFields fields).map Prod.fst = fields.map Prod.fst := by
        rw [sortFields_eq, List.map_map]
        rfl
      rw [sortKeys, uniqueNames_obj]
      constructor
      · rw [(hperm.map Prod.fst).nodup_iff, hnames]
        exact hnodup
      · intro field hfield
        rw [hperm.mem_iff, sortFields_eq] at hfield
        obtain ⟨own, hown, rfl⟩ := List.mem_map.mp hfield
        exact ih own hown (hfields own hown)

theorem sortFields_eq_self {fields : List (String × Json F)}
    (h : ∀ field ∈ fields, sortKeys field.2 = field.2) : sortFields fields = fields := by
  rw [sortFields_eq]
  conv_rhs => rw [← List.map_id fields]
  exact List.map_congr_left fun field hfield => Prod.ext rfl (h field hfield)

@[simp] theorem sortKeys_sortKeys (j : Json F) : sortKeys (sortKeys j) = sortKeys j := by
  induction j using json_induction with
  | leaf j harr hobj => cases j <;> simp_all [sortKeys]
  | arr items ih =>
      rw [sortKeys, sortKeys, sortItems_eq, sortItems_eq, List.map_map]
      exact congrArg Json.arr (List.map_congr_left ih)
  | obj fields ih =>
      have hsorted : ∀ field ∈ sortBy Prod.fst (sortFields fields),
          sortKeys field.2 = field.2 := by
        intro field hfield
        rw [mem_sortBy, sortFields_eq] at hfield
        obtain ⟨own, hown, rfl⟩ := List.mem_map.mp hfield
        exact ih own hown
      rw [sortKeys, sortKeys, sortFields_eq_self hsorted,
        sortBy_eq_self Prod.fst (sortBy_pairwise Prod.fst _)]

theorem lookup_eq_firstOf (fields : List (String × Json F)) (name : String) :
    fields.lookup name = (firstOf Prod.fst name fields).map Prod.snd := by
  unfold firstOf
  induction fields with
  | nil => rfl
  | cons field fields ih =>
      rw [List.lookup_cons, List.find?_cons]
      by_cases hname : name = field.1
      · simp [hname]
      · have hbeq : (name == field.1) = false := beq_eq_false_iff_ne.mpr hname
        simp [hbeq, Ne.symm hname, ih]

/-- The item of a name after the names have been sorted. -/
theorem lookup_sortKeys {fields : List (String × Json F)} (h : (fields.map Prod.fst).Nodup)
    (name : String) :
    (sortBy Prod.fst (sortFields fields)).lookup name = (fields.lookup name).map sortKeys := by
  have hnames : (sortFields fields).map Prod.fst = fields.map Prod.fst := by
    rw [sortFields_eq, List.map_map]
    rfl
  rw [lookup_eq_firstOf, firstOf_sortBy Prod.fst (hnames ▸ h), lookup_eq_firstOf, sortFields_eq]
  unfold firstOf
  rw [List.find?_map, Option.map_map, Option.map_map]
  rfl

end

variable {K : Type*}

/-- A list that is open, or a dict that is open with the name of the value to come. -/
inductive Frame (K : Type*)
  | arr (items : List (Json (PyFloat K)))
  | obj (fields : List (String × Json (PyFloat K))) (name : String)

/-- What comes next. -/
inductive Next (K : Type*)
  | value
  | firstItem
  | firstName
  | name (fields : List (String × Json (PyFloat K)))
  | colon (fields : List (String × Json (PyFloat K))) (name : String)
  | after (j : Json (PyFloat K))

abbrev Reader (K : Type*) := List (Frame K) × Next K

/-- A token where a value is to come. -/
def begin (stack : List (Frame K)) : Token K → Option (Reader K)
  | .null => some (stack, .after .null)
  | .bool b => some (stack, .after (.bool b))
  | .int i => some (stack, .after (.int i))
  | .number x => some (stack, .after (.float (some (.num x))))
  | .str s => some (stack, .after (.str s))
  | .nan => some (stack, .after (.float none))
  | .infinity => some (stack, .after (.float (some .inf)))
  | .minusInfinity => some (stack, .after (.float (some .negInf)))
  | .openBracket => some (.arr [] :: stack, .firstItem)
  | .openBrace => some (stack, .firstName)
  | _ => none

/-- A token after a value. -/
def finish (j : Json (PyFloat K)) : List (Frame K) → Token K → Option (Reader K)
  | .arr items :: stack, .comma => some (.arr (items ++ [j]) :: stack, .value)
  | .arr items :: stack, .closeBracket => some (stack, .after (.arr (items ++ [j])))
  | .obj fields name :: stack, .comma => some (stack, .name (setItem fields name j))
  | .obj fields name :: stack, .closeBrace => some (stack, .after (.obj (setItem fields name j)))
  | _, _ => none

def step : Reader K → Token K → Option (Reader K)
  | (stack, .value), t => begin stack t
  | (.arr [] :: stack, .firstItem), .closeBracket => some (stack, .after (.arr []))
  | (stack, .firstItem), t => begin stack t
  | (stack, .firstName), .closeBrace => some (stack, .after (.obj []))
  | (stack, .firstName), .str name => some (stack, .colon [] name)
  | (stack, .name fields), .str name => some (stack, .colon fields name)
  | (stack, .colon fields name), .colon => some (.obj fields name :: stack, .value)
  | (stack, .after j), t => finish j stack t
  | _, _ => none

/-- `json_loads` -/
def jsonLoads (text : List (Token K)) : Option (Json (PyFloat K)) :=
  match replay step ([], .value) text with
  | some ([], .after j) => some j
  | _ => none

def FrameUnique : Frame K → Prop
  | .arr items => ∀ j ∈ items, UniqueNames j
  | .obj fields _ => UniqueNames (.obj fields)

def NextUnique : Next K → Prop
  | .name fields => UniqueNames (.obj fields)
  | .colon fields _ => UniqueNames (.obj fields)
  | .after j => UniqueNames j
  | _ => True

def ReaderUnique (r : Reader K) : Prop := (∀ frame ∈ r.1, FrameUnique frame) ∧ NextUnique r.2

theorem unique_begin {stack : List (Frame K)} (h : ∀ frame ∈ stack, FrameUnique frame)
    {t : Token K} {r : Reader K} (hstep : begin stack t = some r) : ReaderUnique r := by
  cases t <;> cases hstep <;> simp_all [ReaderUnique, NextUnique, FrameUnique]

theorem unique_finish {j : Json (PyFloat K)} (hj : UniqueNames j) {stack : List (Frame K)}
    (h : ∀ frame ∈ stack, FrameUnique frame) {t : Token K} {r : Reader K}
    (hstep : finish j stack t = some r) : ReaderUnique r := by
  have happend : ∀ items : List (Json (PyFloat K)), (∀ i ∈ items, UniqueNames i) →
      ∀ i ∈ items ++ [j], UniqueNames i := fun items hitems =>
    List.forall_mem_append.mpr ⟨hitems, List.forall_mem_singleton.mpr hj⟩
  unfold finish at hstep
  split at hstep
  · cases hstep
    obtain ⟨hframe, hstack⟩ := List.forall_mem_cons.mp h
    exact ⟨List.forall_mem_cons.mpr ⟨happend _ hframe, hstack⟩, trivial⟩
  · cases hstep
    obtain ⟨hframe, hstack⟩ := List.forall_mem_cons.mp h
    exact ⟨hstack, uniqueNames_arr.mpr (happend _ hframe)⟩
  · cases hstep
    obtain ⟨hframe, hstack⟩ := List.forall_mem_cons.mp h
    exact ⟨hstack, uniqueNames_setItem hframe hj⟩
  · cases hstep
    obtain ⟨hframe, hstack⟩ := List.forall_mem_cons.mp h
    exact ⟨hstack, uniqueNames_setItem hframe hj⟩
  · cases hstep

theorem unique_step {r r' : Reader K} {t : Token K} (h : ReaderUnique r)
    (hstep : step r t = some r') : ReaderUnique r' := by
  unfold step at hstep
  split at hstep
  · exact unique_begin h.1 hstep
  · cases hstep
    exact ⟨(List.forall_mem_cons.mp h.1).2, by simp [NextUnique]⟩
  · exact unique_begin h.1 hstep
  · cases hstep
    exact ⟨h.1, by simp [NextUnique]⟩
  · cases hstep
    exact ⟨h.1, by simp [NextUnique]⟩
  · cases hstep
    exact ⟨h.1, h.2⟩
  · cases hstep
    exact ⟨List.forall_mem_cons.mpr ⟨h.2, h.1⟩, trivial⟩
  · exact unique_finish h.2 h.1 hstep
  · cases hstep

theorem uniqueNames_jsonLoads {text : List (Token K)} {j : Json (PyFloat K)}
    (h : jsonLoads text = some j) : UniqueNames j := by
  unfold jsonLoads at h
  split at h
  · next heq =>
    cases h
    have hstart : ReaderUnique (([], .value) : Reader K) := ⟨by simp, trivial⟩
    exact (replay_invariant (fun _ _ _ _ hr hstep => unique_step hr hstep) heq hstart).2
  · cases h

/-- A value may come. -/
def Open (next : Next K) : Prop := next = .value ∨ next = .firstItem

theorem step_open {stack : List (Frame K)} {next : Next K} (h : Open next) {t : Token K}
    (ht : t ≠ .closeBracket) : step (stack, next) t = begin stack t := by
  rcases h with rfl | rfl
  · rfl
  · unfold step
    split <;> simp_all

/-- The tokens of a value leave the stack as it is, with the value complete. -/
def ReadsBack (j : Json (PyFloat K)) : Prop :=
  ∀ stack next, Open next → replay step (stack, next) (tokens j) = some (stack, .after j)

theorem readsBack_items {items : List (Json (PyFloat K))} (h : ∀ j ∈ items, ReadsBack j)
    (hne : items ≠ []) (read : List (Json (PyFloat K))) (stack : List (Frame K)) {next : Next K}
    (hopen : Open next) :
    replay step (.arr read :: stack, next)
        ([.comma].intercalate (items.map tokens) ++ [.closeBracket]) =
      some (stack, .after (.arr (read ++ items))) := by
  induction items generalizing read next with
  | nil => exact absurd rfl hne
  | cons j items ih =>
      obtain ⟨hj, hitems⟩ := List.forall_mem_cons.mp h
      by_cases hnil : items = []
      · subst hnil
        rw [List.map_singleton, List.intercalate_singleton, replay_append, hj _ _ hopen]
        rfl
      · rw [List.map_cons, List.intercalate_cons_of_ne_nil (by simpa using hnil),
          List.append_assoc, List.append_assoc, replay_append, hj _ _ hopen, Option.bind_some,
          List.singleton_append, replay]
        simp only [step, finish, Option.bind_some]
        rw [ih hitems hnil _ (Or.inl rfl), List.append_assoc, List.singleton_append]

theorem readsBack_fields {fields : List (String × Json (PyFloat K))}
    (h : ∀ field ∈ fields, ReadsBack field.2) (hne : fields ≠ [])
    (read : List (String × Json (PyFloat K))) (stack : List (Frame K))
    (hnodup : ((read ++ fields).map Prod.fst).Nodup) {next : Next K}
    (hnext : next = .name read ∨ next = .firstName ∧ read = []) :
    replay step (stack, next)
        ([.comma].intercalate (fields.map fun field => .str field.1 :: .colon :: tokens field.2) ++
          [.closeBrace]) =
      some (stack, .after (.obj (read ++ fields))) := by
  induction fields generalizing read next with
  | nil => exact absurd rfl hne
  | cons field fields ih =>
      obtain ⟨hfield, hfields⟩ := List.forall_mem_cons.mp h
      have hnew : field.1 ∉ read.map Prod.fst := by
        rw [List.map_append, List.map_cons, List.nodup_append] at hnodup
        exact fun hmem => hnodup.2.2 _ hmem _ List.mem_cons_self rfl
      have hname : step (stack, next) (.str field.1) = some (stack, .colon read field.1) := by
        rcases hnext with rfl | ⟨rfl, rfl⟩ <;> rfl
      have hvalue : ∀ rest : List (Token K),
          replay step (stack, next) (.str field.1 :: .colon :: (tokens field.2 ++ rest)) =
            replay step (.obj read field.1 :: stack, .after field.2) rest := by
        intro rest
        rw [replay, hname, Option.bind_some, replay]
        simp only [step, Option.bind_some]
        rw [replay_append, hfield _ _ (Or.inl rfl), Option.bind_some]
      by_cases hnil : fields = []
      · subst hnil
        rw [List.map_singleton, List.intercalate_singleton, List.cons_append, List.cons_append,
          hvalue, replay]
        simp only [step, finish, Option.bind_some, setItem_of_notMem hnew]
        rfl
      · rw [List.map_cons, List.intercalate_cons_of_ne_nil (by simpa using hnil),
          List.append_assoc, List.append_assoc, List.cons_append, List.cons_append, hvalue,
          List.singleton_append, replay]
        simp only [step, finish, Option.bind_some, setItem_of_notMem hnew]
        rw [List.append_cons] at hnodup
        rw [ih hfields hnil _ hnodup (Or.inl rfl), List.append_assoc, List.singleton_append]

/-- A token that is a value of its own. -/
theorem readsBack_token {j : Json (PyFloat K)} {t : Token K} (ht : t ≠ .closeBracket)
    (htokens : tokens j = [t]) (hbegin : ∀ stack, begin stack t = some (stack, .after j)) :
    ReadsBack j := by
  intro stack next hopen
  rw [htokens, replay, step_open hopen ht, hbegin]
  rfl

theorem begin_floatToken (x : PyFloat K) (stack : List (Frame K)) :
    begin stack (floatToken x) = some (stack, .after (.float x)) := by
  rcases x with _ | (x | _ | _) <;> rfl

theorem readsBack_tokens {j : Json (PyFloat K)} (h : UniqueNames j) : ReadsBack j := by
  induction j using json_induction with
  | leaf j harr hobj =>
      cases j with
      | null => exact readsBack_token (by simp) rfl fun _ => rfl
      | bool b => exact readsBack_token (by simp) rfl fun _ => rfl
      | int i => exact readsBack_token (by simp) rfl fun _ => rfl
      | float x =>
          refine readsBack_token ?_ rfl (begin_floatToken x)
          rcases x with _ | (x | _ | _) <;> simp [floatToken]
      | str s => exact readsBack_token (by simp) rfl fun _ => rfl
      | arr items => exact absurd rfl (harr items)
      | obj fields => exact absurd rfl (hobj fields)
  | arr items ih =>
      intro stack next hopen
      have hitems : ∀ j ∈ items, ReadsBack j := fun j hj => ih j hj (uniqueNames_arr.mp h j hj)
      rw [tokens, itemTokens_eq, replay, step_open hopen (by simp)]
      by_cases hne : items = []
      · subst hne
        rfl
      · exact readsBack_items hitems hne [] stack (Or.inr rfl)
  | obj fields ih =>
      intro stack next hopen
      obtain ⟨hnodup, hunique⟩ := uniqueNames_obj.mp h
      have hfields : ∀ field ∈ fields, ReadsBack field.2 := fun field hfield =>
        ih field hfield (hunique field hfield)
      rw [tokens, fieldTokens_eq, List.map_map, replay, step_open hopen (by simp)]
      by_cases hne : fields = []
      · subst hne
        rfl
      · exact readsBack_fields hfields hne [] stack hnodup (Or.inr ⟨rfl, rfl⟩)

/-- What is written for a value is read back with its names sorted. -/
theorem jsonLoads_jsonDumps {j : Json (PyFloat K)} (h : UniqueNames j) :
    jsonLoads (jsonDumps j) = some (sortKeys j) := by
  unfold jsonLoads jsonDumps
  rw [readsBack_tokens (uniqueNames_sortKeys h) [] .value (Or.inl rfl)]

end SmcPipeline.JsonReader
