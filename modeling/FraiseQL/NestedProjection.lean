import FraiseQL.KeyedFold
import FraiseQL.MapEntries

/-! Projection of rows with related objects (`projection.rs`): a field mapping may carry the type and the fields
of the object it selects. A string that is the text of an object or an array is projected as that object or
array. -/

namespace FraiseQL

namespace Json

mutual

/-- What a text of the value needs at least. -/
def size : Json → Nat
  | .null | .bool _ | .num _ => 1
  | .str s => s.length + 1
  | .arr items => itemsSize items + 1
  | .obj entries => entriesSize entries + 1

def itemsSize : List Json → Nat
  | [] => 0
  | item :: items => size item + itemsSize items

def entriesSize : List (String × Json) → Nat
  | [] => 0
  | (_, value) :: entries => size value + entriesSize entries

end

theorem size_item {item : Json} {items : List Json} (h : item ∈ items) : item.size < (arr items).size := by
  rw [size]
  induction items with
  | nil => cases h
  | cons first items ih =>
    rw [itemsSize]
    rcases List.mem_cons.mp h with rfl | h
    · omega
    · have := ih h
      omega

theorem size_lookup {key : String} {value : Json} {entries : List (String × Json)}
    (h : lookup key entries = some value) : value.size < (obj entries).size := by
  have hmem := MapEntries.mem_of_lookup_eq_some h
  clear h
  rw [size]
  induction entries with
  | nil => cases hmem
  | cons e entries ih =>
    obtain ⟨k, v⟩ := e
    rw [entriesSize]
    rcases List.mem_cons.mp hmem with heq | hmem
    · cases heq
      omega
    · have := ih hmem
      omega

/-- `serde_json::from_str`: a text is at least as long as what it is read as. -/
structure FromStr where
  parse : String → Option Json
  size_le : ∀ {s value}, parse s = some value → value.size ≤ s.length

/-- The object or the array a text is read as. -/
def FromStr.container (reader : FromStr) (s : String) : Option Json :=
  match reader.parse s with
  | some (.obj entries) => some (.obj entries)
  | some (.arr items) => some (.arr items)
  | _ => none

theorem FromStr.size_container {reader : FromStr} {s : String} {value : Json}
    (h : reader.container s = some value) : value.size < (str s).size := by
  have hparse : reader.parse s = some value := by
    unfold container at h
    split at h
    · rename_i heq
      rw [heq, h]
    · rename_i heq
      rw [heq, h]
    · cases h
  have hle := reader.size_le hparse
  rw [size]
  omega

end Json

inductive FieldMapping where
  | mk (source output : String) (sourceFallback nestedTypename : Option String)
      (nestedFields : Option (List FieldMapping))

namespace FieldMapping

def source : FieldMapping → String
  | mk source _ _ _ _ => source

def output : FieldMapping → String
  | mk _ output _ _ _ => output

def sourceFallback : FieldMapping → Option String
  | mk _ _ sourceFallback _ _ => sourceFallback

def nestedTypename : FieldMapping → Option String
  | mk _ _ _ nestedTypename _ => nestedTypename

def nestedFields : FieldMapping → Option (List FieldMapping)
  | mk _ _ _ _ nestedFields => nestedFields

end FieldMapping

structure ProjectionMapper where
  fields : List FieldMapping
  typename : Option String

namespace ProjectionMapper

variable (reader : Json.FromStr)

def projectNestedValue (value : Json) (field : FieldMapping) : Json :=
  match value with
  | .obj entries =>
    match field.nestedTypename with
    | some typename =>
      let result := [("__typename", .str typename)]
      match field.nestedFields with
      | some nestedFields =>
        .obj (nestedFields.foldl (fun result nestedField =>
          match _h : Json.lookup nestedField.source entries with
          | some nestedValue =>
            insertEntry nestedField.output (projectNestedValue nestedValue nestedField) result
          | none => result) result)
      | none => .obj (entries.foldl (fun result e => insertEntry e.1 e.2 result) result)
    | none => value
  | .arr items =>
    if field.nestedTypename.isSome then .arr (items.map fun item => projectNestedValue item field)
    else value
  | .str s =>
    match _h : reader.container s with
    | some parsed => projectNestedValue parsed field
    | none => value
  | _ => value
termination_by value.size
decreasing_by
  · exact Json.size_lookup ‹_›
  · exact Json.size_item ‹_›
  · exact Json.FromStr.size_container ‹_›

/-- The value of a field of the root: under its source, else under its fallback. -/
def rootValue (field : FieldMapping) (map : List (String × Json)) : Option Json :=
  (Json.lookup field.source map).or (field.sourceFallback.bind fun key => Json.lookup key map)

variable {field : FieldMapping}

theorem size_rootValue {value : Json} {map : List (String × Json)}
    (h : rootValue field map = some value) : value.size < (Json.obj map).size := by
  rw [rootValue, Option.or_eq_some_iff] at h
  rcases h with h | ⟨-, h⟩
  · exact Json.size_lookup h
  · obtain ⟨key, -, h⟩ := Option.bind_eq_some_iff.mp h
    exact Json.size_lookup h

def projectJsonObject (mapper : ProjectionMapper) (map : List (String × Json)) : Json :=
  let result := match mapper.typename with
    | some typename => [("__typename", .str typename)]
    | none => []
  .obj (mapper.fields.foldl (fun result field =>
    match rootValue field map with
    | some value => insertEntry field.output (projectNestedValue reader value field) result
    | none => result) result)

def project (mapper : ProjectionMapper) : Json → Json
  | .obj map => mapper.projectJsonObject reader map
  | .arr items => .arr (items.map fun item =>
    match item with
    | .obj map => mapper.projectJsonObject reader map
    | other => other)
  | value => value

/-! ### The mappings of a type -/

/-- The characters of a name in `camelCase`. -/
def camelChars : Bool → List Char → List Char
  | _, [] => []
  | capitaliseNext, c :: cs =>
    if c = '_' then camelChars true cs
    else if capitaliseNext then c.toUpper :: camelChars false cs
    else c :: camelChars false cs

def toCamelCase (snake : String) : String := String.ofList (camelChars false snake.toList)

def innerType : FieldType → Option FieldType
  | .list inner => some inner
  | _ => none

/-- The types that have not been visited. -/
def unvisited (schema : CompiledSchema) (visited : List String) : List TypeDefinition :=
  schema.types.filter fun t => t.name ∉ visited

theorem unvisited_visit {schema : CompiledSchema} {visited : List String} {name : String} {td : TypeDefinition}
    (h : schema.findType name = some td) (hnew : name ∉ visited) :
    (unvisited schema (name :: visited)).length < (unvisited schema visited).length := by
  have hmem : td ∈ schema.types := List.mem_of_find?_eq_some h
  have hname : td.name = name := by simpa using List.find?_some h
  have hsub : unvisited schema (name :: visited) =
      (unvisited schema visited).filter fun t => t.name ≠ name := by
    rw [unvisited, unvisited, List.filter_filter]
    refine List.filter_congr fun t _ => ?_
    simp
  rw [hsub]
  refine List.length_filter_lt_length_iff_exists.mpr ⟨td, ?_, by simp [hname]⟩
  exact List.mem_filter.mpr ⟨hmem, by simp [hname, hnew]⟩

def buildFieldMappingsFromType (schema : CompiledSchema) (fields : List FieldDefinition)
    (requested : Option (List String)) (visited : List String) : List FieldMapping :=
  (fields.filter fun f => requested.all fun r => r.contains f.name).map fun field =>
    let source := toCamelCase field.name
    let output := field.name
    let sourceFallback := if source ≠ output then some output else none
    let plain := FieldMapping.mk source output sourceFallback none none
    let inner := (innerType field.fieldType).getD field.fieldType
    match inner.typeName with
    | some typeName =>
      match _h : schema.findType typeName with
      | some td =>
        if _hnew : typeName ∉ visited then
          .mk source output sourceFallback (some typeName)
            (some (buildFieldMappingsFromType schema td.fields none (typeName :: visited)))
        else plain
      | none => plain
    | none => plain
termination_by (unvisited schema visited).length
decreasing_by exact unvisited_visit ‹_› ‹_›

/-! ### The row as it is stored -/

/-- A selected value as it is stored: each of its fields found as at the root, each string as it is. -/
def storedValue (value : Json) (field : FieldMapping) : Json :=
  match value with
  | .obj entries =>
    match field.nestedTypename with
    | some typename =>
      let result := [("__typename", .str typename)]
      match field.nestedFields with
      | some nestedFields =>
        .obj (nestedFields.foldl (fun result nestedField =>
          match _h : rootValue nestedField entries with
          | some nestedValue =>
            insertEntry nestedField.output (storedValue nestedValue nestedField) result
          | none => result) result)
      | none => .obj (entries.foldl (fun result e => insertEntry e.1 e.2 result) result)
    | none => value
  | .arr items =>
    if field.nestedTypename.isSome then .arr (items.map fun item => storedValue item field) else value
  | _ => value
termination_by value.size
decreasing_by
  · exact size_rootValue ‹_›
  · exact Json.size_item ‹_›

/-- The selected fields of a row object. -/
def storedObject (mapper : ProjectionMapper) (map : List (String × Json)) : Json :=
  let result := match mapper.typename with
    | some typename => [("__typename", .str typename)]
    | none => []
  .obj (mapper.fields.foldl (fun result field =>
    match rootValue field map with
    | some value => insertEntry field.output (storedValue value field) result
    | none => result) result)

/-- The selected fields of a row. -/
def stored (mapper : ProjectionMapper) : Json → Json
  | .obj map => mapper.storedObject map
  | .arr items => .arr (items.map fun item =>
    match item with
    | .obj map => mapper.storedObject map
    | other => other)
  | value => value

/-! ### What a row shows -/

/-- The mappings whose value is found, with the value. -/
def foundFields (find : FieldMapping → Option Json) (fields : List FieldMapping) : List (FieldMapping × Json) :=
  fields.filterMap fun field => (find field).map (field, ·)

/-- The last found field of each output. -/
def shownFields (found : List (FieldMapping × Json)) : List (FieldMapping × Json) :=
  Keyed.firstOfEach (fun x => x.1.output) [] found.reverse

theorem mem_foundFields {find : FieldMapping → Option Json} {fields : List FieldMapping}
    {x : FieldMapping × Json} (h : x ∈ foundFields find fields) : x.1 ∈ fields ∧ find x.1 = some x.2 := by
  obtain ⟨field, hmem, heq⟩ := List.mem_filterMap.mp h
  obtain ⟨value, hvalue, rfl⟩ := Option.map_eq_some_iff.mp heq
  exact ⟨hmem, hvalue⟩

theorem shownFields_subset {found : List (FieldMapping × Json)} {x : FieldMapping × Json}
    (h : x ∈ shownFields found) : x ∈ found :=
  List.mem_reverse.mp (Keyed.firstOfEach_subset h).1

/-- Writes the found fields, each value through `f`. -/
def writeFields (f : Json → FieldMapping → Json) (result : List (String × Json))
    (found : List (FieldMapping × Json)) : List (String × Json) :=
  (found.map fun x => (x.1.output, f x.2 x.1)).foldl (fun result pair => insertEntry pair.1 pair.2 result) result

theorem foldl_found (find : FieldMapping → Option Json) (f : Json → FieldMapping → Json)
    (fields : List FieldMapping) (result : List (String × Json)) :
    fields.foldl (fun result field =>
      match find field with
      | some value => insertEntry field.output (f value field) result
      | none => result) result = writeFields f result (foundFields find fields) := by
  induction fields generalizing result with
  | nil => rfl
  | cons field fields ih =>
    rw [List.foldl_cons, ih]
    unfold foundFields
    rw [List.filterMap_cons]
    cases find field with
    | none => rfl
    | some value => rfl

theorem finalValue_fields (key : String) (f : Json → FieldMapping → Json) (found : List (FieldMapping × Json)) :
    MapEntries.finalValue key (found.map fun x => (x.1.output, f x.2 x.1)) =
      (found.reverse.find? fun x => x.1.output = key).map fun x => f x.2 x.1 := by
  induction found with
  | nil => rfl
  | cons x found ih =>
    rw [List.map_cons, MapEntries.finalValue, ih, List.reverse_cons, List.find?_append, Option.map_or]
    congr 1
    by_cases hkey : x.1.output = key
    · simp [hkey]
    · simp [hkey]

/-- Two ways to write the found fields give one map if and only if they agree on the shown ones. -/
theorem writeFields_eq_iff (f g : Json → FieldMapping → Json) {result : List (String × Json)}
    (hresult : MapEntries.InOrder result) (found : List (FieldMapping × Json)) :
    writeFields f result found = writeFields g result found ↔
      ∀ x ∈ shownFields found, f x.2 x.1 = g x.2 x.1 := by
  have hlookup : ∀ (h : Json → FieldMapping → Json) (key : String),
      Json.lookup key (writeFields h result found) =
        ((found.reverse.find? fun x => x.1.output = key).map fun x => h x.2 x.1).or
          (Json.lookup key result) := by
    intro h key
    rw [writeFields, MapEntries.lookup_insertAll, finalValue_fields]
  constructor
  · intro heq x hx
    have hfind := Keyed.mem_firstOfEach.mp hx
    have hkey := congrArg (Json.lookup x.1.output) heq
    rw [hlookup, hlookup, hfind] at hkey
    exact Option.some.inj hkey
  · intro hall
    refine MapEntries.eq_of_lookup (MapEntries.insertAll_inOrder _ hresult)
      (MapEntries.insertAll_inOrder _ hresult) fun key => ?_
    refine (hlookup f key).trans (Eq.trans ?_ (hlookup g key).symm)
    cases hfind : found.reverse.find? fun x => x.1.output = key with
    | none => rfl
    | some x =>
      have hkey : x.1.output = key := by simpa using List.find?_some hfind
      subst hkey
      rw [Option.map_some, Option.map_some, hall x (Keyed.mem_firstOfEach.mpr hfind)]

/-- A nested field is looked for in an object of the row. -/
inductive Reaches : Json → FieldMapping → FieldMapping → List (String × Json) → Prop
  | here {entries field nestedFields nested} (htype : field.nestedTypename.isSome)
      (hfields : field.nestedFields = some nestedFields) (hmem : nested ∈ nestedFields) :
      Reaches (.obj entries) field nested entries
  | under {entries field nestedFields child value nested inner} (htype : field.nestedTypename.isSome)
      (hfields : field.nestedFields = some nestedFields) (hmem : child ∈ nestedFields)
      (hvalue : rootValue child entries = some value) (h : Reaches value child nested inner) :
      Reaches (.obj entries) field nested inner
  | item {items field item nested inner} (htype : field.nestedTypename.isSome) (hmem : item ∈ items)
      (h : Reaches item field nested inner) : Reaches (.arr items) field nested inner

/-- A string of the row is shown. -/
inductive Shows : Json → FieldMapping → String → Prop
  | here {s field} : Shows (.str s) field s
  | under {entries field nestedFields x s} (htype : field.nestedTypename.isSome)
      (hfields : field.nestedFields = some nestedFields)
      (hmem : x ∈ shownFields (foundFields (rootValue · entries) nestedFields)) (h : Shows x.2 x.1 s) :
      Shows (.obj entries) field s
  | item {items field item s} (htype : field.nestedTypename.isSome) (hmem : item ∈ items)
      (h : Shows item field s) : Shows (.arr items) field s

variable {entries : List (String × Json)} {nestedFields : List FieldMapping}

/-- `project_nested_value` at an object with fields, without the bookkeeping of its recursion. -/
theorem projectNestedValue_obj {typename : String} (htype : field.nestedTypename = some typename)
    (hfields : field.nestedFields = some nestedFields) :
    projectNestedValue reader (.obj entries) field =
      .obj (writeFields (projectNestedValue reader) [("__typename", .str typename)]
        (foundFields (fun nested => Json.lookup nested.source entries) nestedFields)) := by
  rw [projectNestedValue, htype, hfields, ← foldl_found]
  refine congrArg Json.obj ?_
  congr 1
  funext result nested
  cases Json.lookup nested.source entries <;> rfl

theorem storedValue_obj {typename : String} (htype : field.nestedTypename = some typename)
    (hfields : field.nestedFields = some nestedFields) :
    storedValue (.obj entries) field =
      .obj (writeFields storedValue [("__typename", .str typename)]
        (foundFields (rootValue · entries) nestedFields)) := by
  rw [storedValue, htype, hfields, ← foldl_found]
  refine congrArg Json.obj ?_
  congr 1
  funext result nested
  cases rootValue nested entries <;> rfl

theorem projectNestedValue_str (s : String) (field : FieldMapping) :
    projectNestedValue reader (.str s) field =
      ((reader.container s).map fun parsed => projectNestedValue reader parsed field).getD (.str s) := by
  rw [projectNestedValue]
  split
  · rename_i parsed hparsed
    rw [hparsed]
    rfl
  · rename_i hnone
    rw [hnone]
    rfl

/-- What a text is projected as is no text. -/
theorem projectNestedValue_container {s : String} {parsed : Json} (h : reader.container s = some parsed)
    (field : FieldMapping) (t : String) : projectNestedValue reader parsed field ≠ .str t := by
  intro heq
  unfold Json.FromStr.container at h
  split at h
  · cases h
    rw [projectNestedValue] at heq
    split at heq
    · split at heq <;> cases heq
    · cases heq
  · cases h
    rw [projectNestedValue] at heq
    split at heq <;> cases heq
  · cases h

/-- No string shown under a value reads as an object or an array. -/
def ShowsNoContainer (value : Json) (field : FieldMapping) : Prop :=
  ∀ s, Shows value field s → reader.container s = none

theorem storedValue_str (s : String) (field : FieldMapping) : storedValue (.str s) field = .str s := by
  rw [storedValue] <;> simp

theorem string_eq_iff (s : String) (field : FieldMapping) :
    projectNestedValue reader (.str s) field = storedValue (.str s) field ↔
      ShowsNoContainer reader (.str s) field := by
  rw [storedValue_str, projectNestedValue_str]
  cases hread : reader.container s with
  | some parsed =>
    refine iff_of_false (projectNestedValue_container reader hread field s) ?_
    intro hall
    rw [hall s .here] at hread
    cases hread
  | none =>
    refine iff_of_true rfl ?_
    intro t ht
    cases ht
    exact hread

theorem array_eq_iff {items : List Json} (htype : field.nestedTypename.isSome)
    (hitems : ∀ item ∈ items, projectNestedValue reader item field = storedValue item field ↔
      ShowsNoContainer reader item field) :
    projectNestedValue reader (.arr items) field = storedValue (.arr items) field ↔
      ShowsNoContainer reader (.arr items) field := by
  rw [projectNestedValue, storedValue, if_pos htype, if_pos htype, Json.arr.injEq, List.map_inj_left]
  constructor
  · intro hall s hs
    cases hs with
    | item _ hmem hshown => exact (hitems _ hmem).mp (hall _ hmem) s hshown
  · intro hall item hmem
    exact (hitems item hmem).mpr fun s hs => hall s (.item htype hmem hs)

theorem object_eq_iff (htype : field.nestedTypename.isSome) (hfields : field.nestedFields = some nestedFields)
    (hkeys : ∀ nested ∈ nestedFields, Json.lookup nested.source entries = rootValue nested entries)
    (hchildren : ∀ x ∈ shownFields (foundFields (rootValue · entries) nestedFields),
      projectNestedValue reader x.2 x.1 = storedValue x.2 x.1 ↔ ShowsNoContainer reader x.2 x.1) :
    projectNestedValue reader (.obj entries) field = storedValue (.obj entries) field ↔
      ShowsNoContainer reader (.obj entries) field := by
  obtain ⟨typename, htypename⟩ := Option.isSome_iff_exists.mp htype
  have hfound : foundFields (fun nested => Json.lookup nested.source entries) nestedFields =
      foundFields (rootValue · entries) nestedFields :=
    List.filterMap_congr fun nested hmem => congrArg (Option.map (nested, ·)) (hkeys nested hmem)
  rw [projectNestedValue_obj reader htypename hfields, storedValue_obj htypename hfields, Json.obj.injEq,
    hfound, writeFields_eq_iff _ _ (List.pairwise_singleton _ _)]
  constructor
  · intro hall s hs
    cases hs with
    | under _ hfields' hmem hshown =>
      cases hfields.symm.trans hfields'
      exact (hchildren _ hmem).mp (hall _ hmem) s hshown
  · intro hall x hx
    exact (hchildren x hx).mpr fun s hs => hall s (.under htype hfields hx hs)

/-- Nothing is shown where the mapping has no type, or no fields for an object. -/
theorem showsNoContainer_of_untyped {value : Json} (htext : ∀ s, value ≠ .str s)
    (hfield : field.nestedTypename = none ∨ (∃ entries, value = .obj entries) ∧ field.nestedFields = none) :
    ShowsNoContainer reader value field := by
  intro s hs
  cases hs with
  | here => exact absurd rfl (htext s)
  | under htype hfields =>
    rcases hfield with h | ⟨-, h⟩
    · simp [h] at htype
    · simp [h] at hfields
  | item htype =>
    rcases hfield with h | ⟨⟨_, h⟩, -⟩
    · simp [h] at htype
    · cases h

/-- Where fields are found as at the root, a value is projected as it is stored if and only if no string shown
under it reads as an object or an array. -/
theorem projectNestedValue_eq_iff (value : Json) (field : FieldMapping)
    (hreach : ∀ nested entries, Reaches value field nested entries →
      Json.lookup nested.source entries = rootValue nested entries) :
    projectNestedValue reader value field = storedValue value field ↔ ShowsNoContainer reader value field := by
  induction hsize : value.size using Nat.strong_induction_on generalizing value field with
  | _ n ih =>
    subst hsize
    cases value with
    | null | bool b | num n =>
      rw [projectNestedValue, storedValue]
      · refine iff_of_true rfl ?_
        intro s hs
        cases hs
      all_goals simp
    | str s => exact string_eq_iff reader s field
    | arr items =>
      by_cases htype : field.nestedTypename.isSome
      · refine array_eq_iff reader htype fun item hmem => ?_
        exact ih _ (Json.size_item hmem) item field
          (fun nested entries h => hreach nested entries (.item htype hmem h)) rfl
      · rw [projectNestedValue, storedValue, if_neg htype, if_neg htype]
        exact iff_of_true rfl
          (showsNoContainer_of_untyped reader (by simp) (.inl (by simpa using htype)))
    | obj entries =>
      by_cases htype : field.nestedTypename.isSome
      · cases hfields : field.nestedFields with
        | none =>
          obtain ⟨typename, htypename⟩ := Option.isSome_iff_exists.mp htype
          rw [projectNestedValue, storedValue, htypename, hfields]
          exact iff_of_true rfl
            (showsNoContainer_of_untyped reader (by simp) (.inr ⟨⟨entries, rfl⟩, hfields⟩))
        | some nestedFields =>
          refine object_eq_iff reader htype hfields
            (fun nested hmem => hreach nested entries (.here htype hfields hmem)) fun x hx => ?_
          obtain ⟨hmem, hvalue⟩ := mem_foundFields (shownFields_subset hx)
          exact ih _ (size_rootValue hvalue) x.2 x.1
            (fun nested inner h => hreach nested inner (.under htype hfields hmem hvalue h)) rfl
      · have hnone : field.nestedTypename = none := by simpa using htype
        rw [projectNestedValue, storedValue, hnone]
        exact iff_of_true rfl (showsNoContainer_of_untyped reader (by simp) (.inl hnone))

/-! ### Whole rows -/

/-- The objects of a row. -/
def rowObjects : Json → List (List (String × Json))
  | .obj map => [map]
  | .arr items => items.filterMap Json.asObject?
  | _ => []

theorem project_eq_iff_objects (mapper : ProjectionMapper) (row : Json) :
    mapper.project reader row = mapper.stored row ↔
      ∀ map ∈ rowObjects row, mapper.projectJsonObject reader map = mapper.storedObject map := by
  cases row with
  | obj map => simp [project, stored, rowObjects]
  | arr items =>
    rw [project, stored, Json.arr.injEq, List.map_inj_left]
    constructor
    · intro hall map hmem
      obtain ⟨item, hitem, hobj⟩ := List.mem_filterMap.mp hmem
      cases item with
      | obj entries =>
        cases hobj
        exact hall _ hitem
      | null | bool b | num n | str s | arr items => cases hobj
    · intro hall item hitem
      cases item with
      | obj entries => exact hall entries (List.mem_filterMap.mpr ⟨_, hitem, rfl⟩)
      | null | bool b | num n | str s | arr items => rfl
  | null | bool b | num n | str s => simp [project, stored, rowObjects]

/-- A nested field is looked for in an object of the row. -/
def ReachesInRow (mapper : ProjectionMapper) (row : Json) (nested : FieldMapping)
    (entries : List (String × Json)) : Prop :=
  ∃ map ∈ rowObjects row, ∃ x ∈ foundFields (rootValue · map) mapper.fields, Reaches x.2 x.1 nested entries

def ShowsInRow (mapper : ProjectionMapper) (row : Json) (s : String) : Prop :=
  ∃ map ∈ rowObjects row, ∃ x ∈ shownFields (foundFields (rootValue · map) mapper.fields), Shows x.2 x.1 s

theorem projectJsonObject_eq_iff (mapper : ProjectionMapper) (map : List (String × Json))
    (hreach : ∀ x ∈ foundFields (rootValue · map) mapper.fields, ∀ nested entries,
      Reaches x.2 x.1 nested entries → Json.lookup nested.source entries = rootValue nested entries) :
    mapper.projectJsonObject reader map = mapper.storedObject map ↔
      ∀ x ∈ shownFields (foundFields (rootValue · map) mapper.fields), ShowsNoContainer reader x.2 x.1 := by
  have hstart : MapEntries.InOrder (match mapper.typename with
      | some typename => [("__typename", Json.str typename)]
      | none => []) := by
    cases mapper.typename with
    | none => exact List.Pairwise.nil
    | some typename => exact List.pairwise_singleton _ _
  rw [projectJsonObject, storedObject, Json.obj.injEq, foldl_found, foldl_found, writeFields_eq_iff _ _ hstart]
  refine forall₂_congr fun x hx => ?_
  exact projectNestedValue_eq_iff reader x.2 x.1 fun nested entries =>
    hreach x (shownFields_subset hx) nested entries

def rootKey (field : FieldMapping) (map : List (String × Json)) : Option String :=
  if (Json.lookup field.source map).isSome then some field.source
  else field.sourceFallback.filter fun key => (Json.lookup key map).isSome

def nestedKey (field : FieldMapping) (map : List (String × Json)) : Option String :=
  if (Json.lookup field.source map).isSome then some field.source else none

theorem rootValue_eq (field : FieldMapping) (map : List (String × Json)) :
    rootValue field map = (rootKey field map).bind fun key => Json.lookup key map := by
  rw [rootValue, rootKey]
  cases hsource : Json.lookup field.source map with
  | some value => exact hsource.symm
  | none =>
    cases field.sourceFallback with
    | none => rfl
    | some key => cases hkey : Json.lookup key map <;> simp [Option.filter, hkey]

theorem nestedValue_eq (field : FieldMapping) (map : List (String × Json)) :
    Json.lookup field.source map = (nestedKey field map).bind fun key => Json.lookup key map := by
  rw [nestedKey]
  cases hsource : Json.lookup field.source map with
  | some value => exact hsource.symm
  | none => rfl

/-- The object stores the field under its source, or it does not store it under its fallback either. -/
def StoredAsNamed (field : FieldMapping) (map : List (String × Json)) : Prop :=
  (Json.lookup field.source map).isSome ∨
    ∀ key, field.sourceFallback = some key → Json.lookup key map = none

theorem nestedKey_eq_rootKey_iff (field : FieldMapping) (map : List (String × Json)) :
    nestedKey field map = rootKey field map ↔ StoredAsNamed field map := by
  rw [nestedKey, rootKey, StoredAsNamed]
  cases Json.lookup field.source map with
  | some value => simp
  | none =>
    cases field.sourceFallback with
    | none => simp
    | some key => cases hkey : Json.lookup key map <;> simp [Option.filter, hkey]

/-- A row is projected as it is stored: each nested field is found under the key it would be found under at the
root, and each value shown is the one the row stores. -/
def ProjectsAsStored (mapper : ProjectionMapper) (row : Json) : Prop :=
  (∀ nested entries, mapper.ReachesInRow row nested entries → nestedKey nested entries = rootKey nested entries) ∧
    mapper.project reader row = mapper.stored row

/-- A row is projected as it is stored if and only if each object in it stores its nested fields as they are named
and no string it shows is the text of an object or an array. -/
theorem projectsAsStored_iff (mapper : ProjectionMapper) (row : Json) :
    mapper.ProjectsAsStored reader row ↔
      (∀ nested entries, mapper.ReachesInRow row nested entries → StoredAsNamed nested entries) ∧
        ∀ s, mapper.ShowsInRow row s → reader.container s = none := by
  have hkeys : (∀ nested entries, mapper.ReachesInRow row nested entries →
      nestedKey nested entries = rootKey nested entries) ↔
        ∀ nested entries, mapper.ReachesInRow row nested entries → StoredAsNamed nested entries :=
    forall₃_congr fun nested entries _ => nestedKey_eq_rootKey_iff nested entries
  rw [ProjectsAsStored, ← hkeys]
  refine and_congr_right fun hreach => ?_
  rw [project_eq_iff_objects]
  have hobject : ∀ map ∈ rowObjects row, mapper.projectJsonObject reader map = mapper.storedObject map ↔
      ∀ x ∈ shownFields (foundFields (rootValue · map) mapper.fields), ShowsNoContainer reader x.2 x.1 := by
    intro map hmap
    refine projectJsonObject_eq_iff reader mapper map fun x hx nested entries h => ?_
    rw [nestedValue_eq, hreach nested entries ⟨map, hmap, x, hx, h⟩, ← rootValue_eq]
  constructor
  · rintro hall s ⟨map, hmap, x, hx, hs⟩
    exact (hobject map hmap).mp (hall map hmap) x hx s hs
  · intro hall map hmap
    exact (hobject map hmap).mpr fun x hx s hs => hall s ⟨map, hmap, x, hx, hs⟩

/-! ### A conflict with a note and an owner -/

def listReader : Json.FromStr where
  parse s := if s = "[1,2]" then some (.arr [.ofNat 1, .ofNat 2]) else none
  size_le := by
    intro s value h
    split_ifs at h with hs
    cases h
    subst hs
    decide

def conflictSchema : CompiledSchema where
  types := [⟨"Owner", [⟨"last_login", .string, none, .reject⟩]⟩]
  queries := []
  security := none
  sessionVariables := ⟨[], false⟩

def conflictFields : List FieldDefinition :=
  [⟨"note", .string, none, .reject⟩, ⟨"owner", .object "Owner", none, .reject⟩]

def conflictMapper : ProjectionMapper :=
  ⟨buildFieldMappingsFromType conflictSchema conflictFields none [], some "Conflict"⟩

theorem owner_fields : buildFieldMappingsFromType conflictSchema [⟨"last_login", .string, none, .reject⟩] none
    ["Owner"] = [.mk "lastLogin" "last_login" (some "last_login") none none] := by
  rw [buildFieldMappingsFromType]
  rfl

theorem conflict_fields : conflictMapper.fields =
    [.mk "note" "note" none none none,
      .mk "owner" "owner" none (some "Owner")
        (some [.mk "lastLogin" "last_login" (some "last_login") none none])] := by
  rw [conflictMapper, buildFieldMappingsFromType, ← owner_fields]
  rfl

def conflictRow : Json := .obj [("note", .str "[1,2]"), ("owner", .obj [("last_login", .str "today")])]

theorem conflict_projected : conflictMapper.project listReader conflictRow =
      .obj [("__typename", .str "Conflict"), ("note", .arr [.ofNat 1, .ofNat 2]),
        ("owner", .obj [("__typename", .str "Owner")])] ∧
    conflictMapper.stored conflictRow =
      .obj [("__typename", .str "Conflict"), ("note", .str "[1,2]"),
        ("owner", .obj [("__typename", .str "Owner"), ("last_login", .str "today")])] := by
  constructor
  · have hnote : projectNestedValue listReader (.str "[1,2]") (.mk "note" "note" none none none) =
        .arr [.ofNat 1, .ofNat 2] := by
      rw [projectNestedValue_str]
      exact projectNestedValue.eq_def .. |>.trans rfl
    have howner : projectNestedValue listReader (.obj [("last_login", .str "today")])
        (.mk "owner" "owner" none (some "Owner")
          (some [.mk "lastLogin" "last_login" (some "last_login") none none])) =
        .obj [("__typename", .str "Owner")] := by
      rw [projectNestedValue_obj _ rfl rfl]
      rfl
    rw [conflictRow, project, projectJsonObject, conflict_fields]
    show Json.obj (insertEntry "owner" (projectNestedValue listReader _ _)
      (insertEntry "note" (projectNestedValue listReader _ _) [("__typename", .str "Conflict")])) = _
    rw [hnote, howner]
    rfl
  · have howner : storedValue (.obj [("last_login", .str "today")])
        (.mk "owner" "owner" none (some "Owner")
          (some [.mk "lastLogin" "last_login" (some "last_login") none none])) =
        .obj [("__typename", .str "Owner"), ("last_login", .str "today")] := by
      rw [storedValue_obj rfl rfl]
      refine congrArg Json.obj ?_
      show insertEntry "last_login" (storedValue (.str "today") _) [("__typename", .str "Owner")] = _
      rw [storedValue_str]
      rfl
    rw [conflictRow, stored, storedObject, conflict_fields]
    show Json.obj (insertEntry "owner" (storedValue _ _)
      (insertEntry "note" (storedValue (.str "[1,2]") _) [("__typename", .str "Conflict")])) = _
    rw [storedValue_str, howner]
    rfl

/-- A note that is a text comes back as a list, and the last login of its owner is lost. -/
theorem conflict_altered : ¬ conflictMapper.ProjectsAsStored listReader conflictRow := by
  rintro ⟨-, heq⟩
  rw [conflict_projected.1, conflict_projected.2] at heq
  simp at heq

end ProjectionMapper

end FraiseQL
