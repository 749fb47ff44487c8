import FraiseQL.RestEmbedding
import FraiseQL.RestStream

/-! Embedded resources against the related rows. The executor takes the fields of a response from the selections under
the first one, and a request of the REST transport has none there: every row of its response is an empty object. So no
row has a join key, nothing is queried, and what is embedded is always empty. -/

namespace FraiseQL.Rest

open MapEntries Outcome Traced ResultProjector RestHandler List Option Json

/-! ### Related rows -/

/-- The rows of every type, and which of them satisfy a filter. -/
structure Contents where
  rows : String → List Json
  Satisfies : Json → Json → Prop

namespace Contents

open Classical in
/-- The target rows with the join key of a parent that satisfy a filter; a parent without a key has none. -/
noncomputable def related (c : Contents) (rel : Relationship) (filter : Option Json) (parent : Json) : List Json :=
  match extractJoinKey parent rel with
  | some key => (c.rows rel.targetType).filter fun row =>
    decide (row.get? rel.filterField = some key ∧ ∀ f, filter = some f → c.Satisfies f row)
  | none => []

open Classical in
theorem mem_related {c : Contents} {rel : Relationship} {filter : Option Json} {parent key row : Json}
    (hkey : extractJoinKey parent rel = some key) :
    row ∈ c.related rel filter parent ↔ row ∈ c.rows rel.targetType ∧ row.get? rel.filterField = some key ∧
      ∀ f, filter = some f → c.Satisfies f row := by
  unfold related
  rw [hkey]
  exact mem_filter.trans (and_congr_right fun _ => decide_eq_true_iff)

open Classical in
theorem length_related_le (c : Contents) (rel : Relationship) (filter : Option Json) (parent : Json) :
    (c.related rel filter parent).length ≤ (c.rows rel.targetType).length := by
  unfold related
  cases extractJoinKey parent rel with
  | none => exact Nat.zero_le _
  | some key => exact length_filter_le _ _

/-- An array of rows, or the first or null. -/
def valueOf : Cardinality → List Json → Json
  | .oneToMany, rows => .arr rows
  | .manyToOne, rows | .oneToOne, rows => rows.head?.getD .null

variable (c : Contents) (types : List RestEntity)

mutual

/-- What a row shows for the entries of a selection. -/
noncomputable def shownEntries : List SelectEntry → Option RestEntity → Json → List (String × Json)
  | [], _, _ => []
  | entry :: entries, t, row => shownEntry entry t row ++ shownEntries entries t row

noncomputable def shownEntry : SelectEntry → Option RestEntity → Json → List (String × Json)
  | .field name, _, row => ((row.get? name).map fun value => (name, value)).toList
  | .embedded relationship rename fields, t, row =>
    match t.bind fun t => RestHandler.findRelationship t relationship with
    | some rel =>
      let target := types.find? fun t => t.name = rel.targetType
      [(rename.getD relationship, valueOf rel.cardinality ((c.related rel none row).map fun row =>
        .obj (shownEntries fields target row)))]
    | none => []
  | .count name, t, row =>
    match t.bind fun t => RestHandler.findRelationship t name with
    | some rel => [(name ++ "_count", .ofNat (c.related rel none row).length)]
    | none => []

end

/-- The related rows of a parent as a selection shows them. -/
noncomputable def embedded (rel : Relationship) (filter : Option Json) (fields : List SelectEntry) (parent : Json) :
    Json :=
  valueOf rel.cardinality ((c.related rel filter parent).map fun row =>
    .obj (c.shownEntries types fields (types.find? fun t => t.name = rel.targetType) row))

end Contents

namespace RestHandler

/-- The writes of a list of items, with the relationship that each names. -/
def writesOf {α : Type} (find : String → Option Relationship) (relationship : α → String)
    (written : α → Relationship → String × Json) (items : List α) : List (String × Json) :=
  items.filterMap fun item => (find (relationship item)).map (written item)

section Asked

variable (h : RestHandler) (q : ResolvedGetQuery)

/-- A relationship of the type of the parents. -/
def relationshipOf (name : String) : Option Relationship :=
  (h.findType q.queryMatch.queryDef.returnType).bind fun t => findRelationship t name

/-- A row of the response has the related rows of its parent, and their number, under the names asked for. -/
def CarriesRelated (c : Contents) (shown parent : Json) : Prop :=
  (∀ spec ∈ q.params.selection.embeddings, ∀ rel, relationshipOf h q spec.relationship = some rel →
    shown.get? spec.outputName = some (c.embedded h.types rel
      (Json.lookup spec.relationship q.params.embeddingFilters) spec.fields parent)) ∧
  ∀ name ∈ q.params.selection.counts, ∀ rel, relationshipOf h q name = some rel →
    shown.get? (name ++ "_count") = some (.ofNat (c.related rel none parent).length)

def responseRows (parents : List Json) (data : Json) : List Json :=
  if q.queryMatch.queryDef.returnsList then data.asArray?.getD [] else parents.head?.toList.map fun _ => data

/-- Every row of the response carries what is related to its parent. -/
def EmbedsRelated (c : Contents) (parents : List Json) (data : Json) : Prop :=
  List.Forall₂ (CarriesRelated h q c) (responseRows q parents data) (queryRows q parents)

/-! ### What is written -/

/-- What embeddings and counts write into a row without join keys, in their order. -/
def emptyWrites : List (String × Json) :=
  writesOf (relationshipOf h q) EmbeddedSpec.relationship (fun spec rel => (spec.outputName, emptyEmbedding rel.cardinality))
    q.params.selection.embeddings ++
  writesOf (relationshipOf h q) id (fun name _ => (name ++ "_count", .ofNat 0)) q.params.selection.counts

/-- The value that is written last under a name. -/
def lastWritten (key : String) (writes : List (String × Json)) : Option Json := Json.lookup key writes.reverse

def followed : List String := q.params.selection.embeddings.map EmbeddedSpec.relationship ++ q.params.selection.counts

/-- Nothing is written under the name of a join key. -/
def KeysApart : Prop :=
  ∀ w ∈ emptyWrites h q, ∀ name ∈ followed q, ∀ rel, relationshipOf h q name = some rel → w.1 ≠ rel.joinField

def IsObject : Json → Prop
  | .obj _ => True
  | _ => False

/-- No parent has related rows, for any of the embeddings and counts; the parents are objects; and of two embeddings
under one name, or one under the name of a count, neither writes over the other another value. -/
def NothingRelated (c : Contents) (parents : List Json) : Prop :=
  ∀ parent ∈ queryRows q parents,
    (∀ spec ∈ q.params.selection.embeddings, ∀ rel, relationshipOf h q spec.relationship = some rel →
      IsObject parent ∧ c.related rel (Json.lookup spec.relationship q.params.embeddingFilters) parent = [] ∧
        lastWritten spec.outputName (emptyWrites h q) = some (emptyEmbedding rel.cardinality)) ∧
    ∀ name ∈ q.params.selection.counts, ∀ rel, relationshipOf h q name = some rel →
      IsObject parent ∧ c.related rel none parent = [] ∧
        lastWritten (name ++ "_count") (emptyWrites h q) = some (.ofNat 0)

end Asked

/-! ### Rows without keys -/

def writeAll (writes : List (String × Json)) (row : Json) : Json :=
  writes.foldl (fun row w => writeField w.1 w.2 row) row

def mapParents (g : Json → Json) : Json → Json
  | .arr rows => .arr (rows.map g)
  | .obj entries => g (.obj entries)
  | data => data

/-- The rows that a step over a response is applied to. -/
def parentsOf : Json → List Json
  | .arr rows => rows
  | .obj entries => [.obj entries]
  | _ => []

theorem get?_writeField {name key : String} (hne : name ≠ key) (value row : Json) :
    (writeField name value row).get? key = row.get? key := by
  cases row with
  | obj entries => exact (lookup_insertEntry key name value entries).trans (if_neg hne)
  | _ => rfl

theorem writeAll_obj (writes : List (String × Json)) (entries : List (String × Json)) :
    writeAll writes (.obj entries) = .obj (writes.foldl (fun entries w => insertEntry w.1 w.2 entries) entries) := by
  induction writes generalizing entries with
  | nil => rfl
  | cons w writes ih => exact ih (insertEntry w.1 w.2 entries)

theorem writeAll_other {row : Json} (hrow : ¬ IsObject row) (writes : List (String × Json)) :
    writeAll writes row = row := by
  induction writes with
  | nil => rfl
  | cons w writes ih =>
    have hsame : writeField w.1 w.2 row = row := by
      cases row with
      | obj entries => exact absurd trivial hrow
      | _ => rfl
    show writeAll writes (writeField w.1 w.2 row) = row
    rw [hsame, ih]

theorem get?_writeAll (writes : List (String × Json)) (entries : List (String × Json)) (key : String) :
    (writeAll writes (.obj entries)).get? key = (lastWritten key writes).or (Json.lookup key entries) := by
  induction writes generalizing entries with
  | nil => rfl
  | cons w writes ih =>
    obtain ⟨name, value⟩ := w
    show (writeAll writes (.obj (insertEntry name value entries))).get? key = _
    rw [ih, lookup_insertEntry]
    unfold lastWritten
    rw [reverse_cons, ← lookup_eq, ← lookup_eq, ← lookup_eq, lookup_append, Option.or_assoc]
    by_cases hkey : name = key
    · rw [if_pos hkey, hkey, lookup_cons_self]
      rfl
    · rw [if_neg hkey, List.lookup_cons, beq_eq_false_iff_ne.mpr (Ne.symm hkey)]
      rfl

section Runs

variable {f : Json → Traced RestError Call Json} {g : Json → Json}

theorem overRows_outcome {rows : List Json} (hstep : ∀ row ∈ rows, (f row).outcome = .ok (g row)) :
    (overRows f rows).outcome = .ok (rows.map g) := by
  induction rows with
  | nil => rfl
  | cons row rows ih =>
    have hrest := ih fun row' hmem => hstep row' (mem_cons_of_mem _ hmem)
    rw [overRows, outcome_bind, hstep row mem_cons_self, ok_bind, outcome_bind, hrest]
    rfl

/-- A step that succeeds on every parent succeeds on the response. -/
theorem overParents_outcome {data : Json} (hstep : ∀ row ∈ parentsOf data, (f row).outcome = .ok (g row)) :
    (overParents f data).outcome = .ok (mapParents g data) := by
  cases data with
  | arr rows =>
    have hrows : (overRows f rows).outcome = .ok (rows.map g) := overRows_outcome hstep
    rw [overParents, outcome_bind, hrows]
    rfl
  | obj entries => exact hstep _ (mem_singleton.mpr rfl)
  | _ => rfl

end Runs

/-- Rows that have none of some keys. -/
def Lacks (keys : String → Prop) (data : Json) : Prop := ∀ row ∈ parentsOf data, ∀ key, keys key → row.get? key = none

variable {data : Json}

theorem lacks_writeField {keys : String → Prop} {name : String} (hapart : ∀ key, keys key → name ≠ key) (value : Json)
    (h : Lacks keys data) : Lacks keys (mapParents (writeField name value) data) := by
  intro row hrow key hkey
  cases data with
  | arr rows =>
    obtain ⟨row', hrow', rfl⟩ := mem_map.mp hrow
    rw [get?_writeField (hapart key hkey)]
    exact h row' hrow' key hkey
  | obj entries =>
    obtain rfl := mem_singleton.mp hrow
    exact (get?_writeField (hapart key hkey) value (.obj entries)).trans
      (h _ (mem_singleton.mpr rfl) key hkey)
  | _ => cases hrow

theorem mapParents_writeAll (w : String × Json) (writes : List (String × Json)) (data : Json) :
    mapParents (writeAll writes) (mapParents (writeField w.1 w.2) data) = mapParents (writeAll (w :: writes)) data := by
  cases data with
  | arr rows => exact congrArg arr map_map
  | _ => rfl

variable {rel : Relationship}

theorem extractJoinKey_none {row : Json} (h : row.get? rel.joinField = none) : extractJoinKey row rel = none := by
  rw [extractJoinKey, h]
  rfl

section Steps

variable {parentType : String} {t : RestEntity} {α : Type} {relationship : α → String}
  {step : α → Relationship → Json → Traced RestError Call Json} {written : α → Relationship → String × Json}

/-- On rows without join keys, where no item writes one, every item writes what it writes for want of a key. -/
theorem followAll_outcome {keys : String → Prop} {items : List α} {data data' : Json}
    (hstep : ∀ item rel row, extractJoinKey row rel = none →
      (step item rel row).outcome = .ok (writeField (written item rel).1 (written item rel).2 row))
    (hkeys : ∀ item ∈ items, ∀ rel, findRelationship t (relationship item) = some rel → keys rel.joinField)
    (hapart : ∀ w ∈ writesOf (findRelationship t) relationship written items, ∀ key, keys key → w.1 ≠ key)
    (hlacks : Lacks keys data) (hok : (followAll parentType t relationship step items data).outcome = .ok data') :
    data' = mapParents (writeAll (writesOf (findRelationship t) relationship written items)) data ∧ Lacks keys data' := by
  induction items generalizing data with
  | nil =>
    obtain rfl := Except.ok.inj hok
    refine ⟨?_, hlacks⟩
    cases data with
    | arr rows => exact congrArg arr (map_id rows).symm
    | _ => rfl
  | cons item items ih =>
    rw [followAll, outcome_bind, outcome_lift] at hok
    cases hrel : findRelationship t (relationship item) with
    | none =>
      rw [hrel] at hok
      cases hok
    | some rel =>
      have hwrites : writesOf (findRelationship t) relationship written (item :: items) =
          written item rel :: writesOf (findRelationship t) relationship written items := by
        rw [writesOf, filterMap_cons, hrel]
        rfl
      rw [hwrites] at hapart ⊢
      have hall : ∀ row ∈ parentsOf data, (step item rel row).outcome =
          .ok (writeField (written item rel).1 (written item rel).2 row) := by
        intro row hrow
        have hjoin := hkeys item mem_cons_self rel hrel
        exact hstep item rel row (extractJoinKey_none (hlacks row hrow _ hjoin))
      rw [hrel, ok_bind, outcome_bind, overParents_outcome hall, ok_bind] at hok
      rw [← mapParents_writeAll]
      exact ih (fun item' hitem' => hkeys item' (mem_cons_of_mem _ hitem'))
        (fun w hw => hapart w (mem_cons_of_mem _ hw))
        (lacks_writeField (hapart _ mem_cons_self) _ hlacks) hok

end Steps

/-! ### The response -/

variable {h : RestHandler} {q : ResolvedGetQuery} {ctx : Option SecurityContext} {relativePath : String}
  {pairs : List (String × String)}

theorem mapParents_append (writes writes' : List (String × Json)) (data : Json) :
    mapParents (writeAll writes') (mapParents (writeAll writes) data) = mapParents (writeAll (writes ++ writes')) data := by
  have hrow : ∀ row, writeAll writes' (writeAll writes row) = writeAll (writes ++ writes') row := by
    intro row
    exact foldl_append.symm
  cases data with
  | arr rows =>
    have hrows : writeAll writes' ∘ writeAll writes = writeAll (writes ++ writes') := funext hrow
    exact congrArg arr (map_map.trans (by rw [hrows]))
  | obj entries =>
    show mapParents (writeAll writes') (writeAll writes (.obj entries)) = writeAll (writes ++ writes') (.obj entries)
    rw [← hrow, writeAll_obj]
    rfl
  | _ => rfl

/-- A request of the REST transport selects nothing under its first field. -/
theorem rootFields_fromOperation (d : QueryDefinition) (fields : List String) (arguments : List (String × Json))
    (sorted : arguments.Pairwise fun a b => a.1 < b.1) :
    (QueryMatch.fromOperation d fields arguments sorted).rootFields = [] := by
  cases fields <;> rfl

theorem projectJsonObject_empty (hresolved : h.resolveGetQuery relativePath pairs ctx = .ok q)
    (entries : List (String × Json)) :
    (ofMatch h.executor.parseJson (extractProjectionFields q.queryMatch) q.queryMatch).projectJsonObject
      entries = .obj [] := by
  obtain ⟨d, pathPairs, -, hmatch, -⟩ := resolveGetQuery_ok hresolved
  have hroot : q.queryMatch.rootFields = [] := by
    rw [hmatch]
    exact rootFields_fromOperation _ _ _ _
  have hfields : extractProjectionFields q.queryMatch = [] := by
    rw [extractProjectionFields, hroot]
    rfl
  have htypename : wantsTypename q.queryMatch = false := by
    rw [wantsTypename, hroot]
    rfl
  unfold ofMatch
  rw [hfields, htypename]
  rfl

theorem get?_shownRow (hresolved : h.resolveGetQuery relativePath pairs ctx = .ok q) (row : Json) (key : String) :
    (h.shownRow q row).get? key = none := by
  cases row with
  | obj entries =>
    show get? key (projectJsonObject _ entries) = none
    rw [projectJsonObject_empty hresolved]
    rfl
  | _ => rfl

/-- The data of the response before anything is embedded. -/
def shownData (h : RestHandler) (q : ResolvedGetQuery) (parents : List Json) : Json :=
  if q.queryMatch.queryDef.returnsList then .arr (parents.map (h.shownRow q))
  else (parents.head?.map (h.shownRow q)).getD .null

theorem responseData_publicResponse (parents : List Json) :
    responseData (h.executor.publicResponse q.queryMatch parents) = shownData h q parents := by
  unfold shownData
  show (ofMatch h.executor.parseJson (extractProjectionFields q.queryMatch) q.queryMatch).projectResults
    parents q.queryMatch.queryDef.returnsList = _
  cases q.queryMatch.queryDef.returnsList with
  | true => rfl
  | false => cases parents <;> rfl

/-- No row of the response has a key of its own. -/
theorem lacks_shownData (hresolved : h.resolveGetQuery relativePath pairs ctx = .ok q) (parents : List Json)
    (keys : String → Prop) : Lacks keys (shownData h q parents) := by
  intro row hrow key _
  unfold shownData at hrow
  cases hlist : q.queryMatch.queryDef.returnsList with
  | true =>
    rw [hlist, if_pos rfl] at hrow
    obtain ⟨parent, -, rfl⟩ := mem_map.mp hrow
    exact get?_shownRow hresolved parent key
  | false =>
    rw [hlist, if_neg Bool.false_ne_true] at hrow
    cases parents with
    | nil => cases hrow
    | cons parent parents =>
      cases parent with
      | obj entries =>
        obtain rfl : row = .obj [] := by
          rw [← projectJsonObject_empty hresolved entries]
          have hdata : ((Option.map (h.shownRow q) (obj entries :: parents).head?).getD .null) =
            projectJsonObject _ entries := rfl
          rw [hdata, projectJsonObject_empty hresolved] at hrow
          rw [projectJsonObject_empty hresolved]
          exact mem_singleton.mp hrow
        rfl
      | arr items =>
        obtain ⟨item, -, rfl⟩ := mem_map.mp hrow
        cases item with
        | obj entries =>
          show get? key (projectJsonObject _ entries) = none
          rw [projectJsonObject_empty hresolved]
          rfl
        | _ => rfl
      | _ => cases hrow

/-- Following the relationships of the type of the parents, when there is something to follow. -/
theorem followed_outcome {α : Type} {relationship : α → String}
    {step : α → Relationship → Json → Traced RestError Call Json} (written : α → Relationship → String × Json)
    (keys : String → Prop) {items : List α} {data' : Json}
    (hstep : ∀ item rel row, extractJoinKey row rel = none →
      (step item rel row).outcome = .ok (writeField (written item rel).1 (written item rel).2 row))
    (hkeys : ∀ item ∈ items, ∀ rel, relationshipOf h q (relationship item) = some rel → keys rel.joinField)
    (hapart : ∀ w ∈ writesOf (relationshipOf h q) relationship written items, ∀ key, keys key → w.1 ≠ key)
    (hlacks : Lacks keys data)
    (hok : (if items.isEmpty then pure data else do
      let t ← lift (h.parentEntity q.queryMatch.queryDef.returnType)
      followAll q.queryMatch.queryDef.returnType t relationship step items data : Traced RestError Call Json).outcome =
        .ok data') :
    data' = mapParents (writeAll (writesOf (relationshipOf h q) relationship written items)) data ∧ Lacks keys data' := by
  cases items with
  | nil =>
    obtain rfl := Except.ok.inj hok
    refine ⟨?_, hlacks⟩
    cases data with
    | arr rows => exact congrArg arr (map_id rows).symm
    | _ => rfl
  | cons item items =>
    rw [if_neg (by simp), outcome_bind, outcome_lift, parentEntity] at hok
    cases htype : h.findType q.queryMatch.queryDef.returnType with
    | none =>
      rw [htype] at hok
      cases hok
    | some t =>
      rw [htype, ok_bind] at hok
      have hfind : relationshipOf h q = findRelationship t := by
        funext name
        rw [relationshipOf, htype]
        rfl
      rw [hfind] at hkeys hapart ⊢
      exact followAll_outcome hstep hkeys hapart hlacks hok

/-- Where nothing is written under the name of a join key, the response has what is written for want of one. -/
theorem getData_empty {wantsCount : Bool} {parents : List Json}
    (hresolved : h.resolveGetQuery relativePath pairs ctx = .ok q) (hapart : KeysApart h q)
    (hquery : (h.executor.executeQueryDirect q.queryMatch ctx).outcome = .ok (h.executor.publicResponse q.queryMatch parents))
    (hok : (h.getData ctx q wantsCount).outcome = .ok data) :
    data = mapParents (writeAll (emptyWrites h q)) (shownData h q parents) := by
  simp only [getData, outcome_bind, bind_eq_ok] at hok
  obtain ⟨result, hresult, _, -, embedded, hembedded, hcounted⟩ := hok
  obtain rfl : result = h.executor.publicResponse q.queryMatch parents := by
    have hmapped : (h.executor.executeQueryDirect q.queryMatch ctx).outcome.mapError RestError.ofError = .ok result := hresult
    rw [hquery] at hmapped
    exact (Except.ok.inj hmapped).symm
  rw [responseData_publicResponse] at hembedded
  let keys : String → Prop := fun key => ∃ name ∈ followed q, ∃ rel, relationshipOf h q name = some rel ∧ rel.joinField = key
  have hclear : ∀ w ∈ emptyWrites h q, ∀ key, keys key → w.1 ≠ key := by
    rintro w hw key ⟨name, hname, rel, hrel, rfl⟩
    exact hapart w hw name hname rel hrel
  obtain ⟨rfl, hlacks⟩ := followed_outcome
    (fun spec rel => (EmbeddedSpec.outputName spec, emptyEmbedding rel.cardinality)) keys
    (fun spec rel row hkey => by rw [embedIntoSingle, hkey]; rfl)
    (fun spec hspec rel hrel => ⟨_, mem_append_left _ (mem_map_of_mem hspec), rel, hrel, rfl⟩)
    (fun w hw => hclear w (mem_append_left _ hw)) (lacks_shownData hresolved parents keys) hembedded
  obtain ⟨rfl, -⟩ := followed_outcome (fun name _ => (name ++ "_count", ofNat 0)) keys
    (fun name rel row hkey => by
      have hcount : (h.countRelated ctx rel row).outcome = .ok 0 := by
        rw [countRelated, hkey]
        rfl
      rw [outcome_bind, hcount]
      rfl)
    (fun name hname rel hrel => ⟨name, mem_append_right _ hname, rel, hrel, rfl⟩)
    (fun w hw => hclear w (mem_append_right _ hw)) hlacks hcounted
  exact mapParents_append _ _ _

/-! ### What a row carries -/

/-- What is written for want of a key. -/
def IsEmptyWrite (value : Json) : Prop := value = .arr [] ∨ value = .null ∨ value = .ofNat 0

theorem isEmptyWrite_emptyEmbedding (cardinality : Cardinality) : IsEmptyWrite (emptyEmbedding cardinality) := by
  cases cardinality with
  | oneToMany => exact .inl rfl
  | manyToOne => exact .inr (.inl rfl)
  | oneToOne => exact .inr (.inl rfl)

theorem lastWritten_isEmptyWrite {key : String} {value : Json} (hlast : lastWritten key (emptyWrites h q) = some value) :
    IsEmptyWrite value := by
  have hmem : ∃ name, (name, value) ∈ emptyWrites h q := by
    obtain ⟨w, hfind, hvalue⟩ := map_eq_some_iff.mp hlast
    exact ⟨w.1, hvalue ▸ mem_reverse.mp (mem_of_find?_eq_some hfind)⟩
  obtain ⟨name, hmem⟩ := hmem
  rcases mem_append.mp hmem with hmem | hmem
  · obtain ⟨spec, -, hspec⟩ := mem_filterMap.mp hmem
    obtain ⟨rel, -, hrel⟩ := map_eq_some_iff.mp hspec
    have hvalue : emptyEmbedding rel.cardinality = value := congrArg Prod.snd hrel
    rw [← hvalue]
    exact isEmptyWrite_emptyEmbedding rel.cardinality
  · obtain ⟨name', -, hname⟩ := mem_filterMap.mp hmem
    obtain ⟨rel, -, hrel⟩ := map_eq_some_iff.mp hname
    have hvalue : ofNat 0 = value := congrArg Prod.snd hrel
    exact .inr (.inr hvalue.symm)

variable {c : Contents} {parent : Json}

theorem embedded_of_nil {filter : Option Json} (hnone : c.related rel filter parent = []) (fields : List SelectEntry) :
    c.embedded h.types rel filter fields parent = emptyEmbedding rel.cardinality := by
  rw [Contents.embedded, hnone]
  cases rel.cardinality <;> rfl

theorem related_nil {filter : Option Json}
    {fields : List SelectEntry} (hempty : IsEmptyWrite (c.embedded h.types rel filter fields parent)) :
    c.related rel filter parent = [] := by
  rw [Contents.embedded] at hempty
  cases hrows : c.related rel filter parent with
  | nil => rfl
  | cons row rows =>
    rw [hrows] at hempty
    cases hcard : rel.cardinality <;> rw [hcard] at hempty <;> rcases hempty with hempty | hempty | hempty <;>
      cases hempty

theorem ofNat_isEmptyWrite {n : Nat} (hn : n < 2 ^ 64) (hempty : IsEmptyWrite (.ofNat n)) : n = 0 := by
  rcases hempty with hempty | hempty | hempty
  · cases hempty
  · cases hempty
  · have hsame := congrArg asU64? hempty
    rw [asU64_ofNat hn, asU64_ofNat (Nat.two_pow_pos 64)] at hsame
    exact some.inj hsame

/-- A row with the empty writes carries what is related to its parent when nothing is. -/
theorem carriesRelated_iff {shown : Json}
    (hshown : ∀ key value, shown.get? key = some value ↔ IsObject parent ∧ lastWritten key (emptyWrites h q) = some value)
    (hsmall : ∀ name ∈ q.params.selection.counts, ∀ rel, relationshipOf h q name = some rel →
      (c.related rel none parent).length < 2 ^ 64) :
    CarriesRelated h q c shown parent ↔
      (∀ spec ∈ q.params.selection.embeddings, ∀ rel, relationshipOf h q spec.relationship = some rel →
        IsObject parent ∧ c.related rel (Json.lookup spec.relationship q.params.embeddingFilters) parent = [] ∧
          lastWritten spec.outputName (emptyWrites h q) = some (emptyEmbedding rel.cardinality)) ∧
      ∀ name ∈ q.params.selection.counts, ∀ rel, relationshipOf h q name = some rel →
        IsObject parent ∧ c.related rel none parent = [] ∧
          lastWritten (name ++ "_count") (emptyWrites h q) = some (.ofNat 0) := by
  unfold CarriesRelated
  refine and_congr (forall₂_congr fun spec _ => forall₂_congr fun rel _ => ?_)
    (forall₂_congr fun name hname => forall₂_congr fun rel hrel => ?_)
  · rw [hshown]
    refine and_congr_right fun _ => ⟨fun hlast => ?_, fun ⟨hnone, hlast⟩ => ?_⟩
    · have hnone := related_nil (lastWritten_isEmptyWrite hlast)
      exact ⟨hnone, by rw [hlast, embedded_of_nil hnone]⟩
    · rw [hlast, embedded_of_nil hnone]
  · rw [hshown]
    refine and_congr_right fun _ => ⟨fun hlast => ?_, fun ⟨hnone, hlast⟩ => ?_⟩
    · have hzero := ofNat_isEmptyWrite (hsmall name hname rel hrel) (lastWritten_isEmptyWrite hlast)
      exact ⟨length_eq_zero_iff.mp hzero, by rw [hlast, hzero]⟩
    · rw [hlast, hnone]
      rfl

/-- What is found in a row of the response. -/
theorem get?_embeddedRow (hresolved : h.resolveGetQuery relativePath pairs ctx = .ok q) (parent : Json)
    (key : String) (value : Json) :
    (writeAll (emptyWrites h q) (h.shownRow q parent)).get? key = some value ↔
      IsObject parent ∧ lastWritten key (emptyWrites h q) = some value := by
  by_cases hobject : IsObject parent
  · rw [and_iff_right hobject]
    cases parent with
    | obj entries =>
      have hrow : h.shownRow q (.obj entries) = .obj [] := projectJsonObject_empty hresolved entries
      rw [hrow, get?_writeAll, lookup_nil, or_none]
    | _ => cases hobject
  · have hother : ¬ IsObject (h.shownRow q parent) := by
      cases parent with
      | obj entries => exact absurd trivial hobject
      | _ => exact id
    rw [writeAll_other hother, get?_shownRow hresolved]
    exact iff_of_false (by rintro ⟨⟩) fun hsome => hobject hsome.1

/-- Where nothing is written under the name of a join key, the rows of a response carry what is related to their
parents exactly when nothing is. -/
theorem embedsRelated_apart {wantsCount : Bool} {parents : List Json}
    (hresolved : h.resolveGetQuery relativePath pairs ctx = .ok q)
    (hquery : (h.executor.executeQueryDirect q.queryMatch ctx).outcome = .ok (h.executor.publicResponse q.queryMatch parents))
    (hok : (h.getData ctx q wantsCount).outcome = .ok data)
    (hsmall : ∀ parent ∈ queryRows q parents, ∀ name ∈ q.params.selection.counts, ∀ rel,
      relationshipOf h q name = some rel → (c.related rel none parent).length < 2 ^ 64) (hapart : KeysApart h q) :
    EmbedsRelated h q c parents data ↔ NothingRelated h q c parents := by
  have hdata := getData_empty hresolved hapart hquery hok
  have hcarries : ∀ parent ∈ queryRows q parents, ∀ shown,
      (∀ key value, shown.get? key = some value ↔ (writeAll (emptyWrites h q) (h.shownRow q parent)).get? key = some value) →
      (CarriesRelated h q c shown parent ↔ _) := fun parent hparent shown hsame =>
    carriesRelated_iff (fun key value => (hsame key value).trans (get?_embeddedRow hresolved parent key value))
      (hsmall parent hparent)
  unfold EmbedsRelated NothingRelated
  cases hlist : q.queryMatch.queryDef.returnsList with
  | true =>
    have hrows : queryRows q parents = parents := by rw [queryRows, hlist, if_pos rfl]
    have hshown : responseRows q parents data = parents.map fun parent =>
        writeAll (emptyWrites h q) (h.shownRow q parent) := by
      rw [responseRows, hdata, shownData, hlist, if_pos rfl, if_pos rfl]
      exact map_map
    rw [hrows] at hcarries ⊢
    rw [hshown, forall₂_map_left_iff, forall₂_same]
    exact forall₂_congr fun parent hparent => hcarries parent hparent _ fun _ _ => Iff.rfl
  | false =>
    have hrows : queryRows q parents = parents.take 1 := by rw [queryRows, hlist, if_neg Bool.false_ne_true]
    rw [hrows] at hcarries ⊢
    rw [responseRows, hlist, if_neg Bool.false_ne_true]
    cases parents with
    | nil => exact iff_of_true .nil (forall_mem_nil _)
    | cons parent parents =>
      have hone : data = mapParents (writeAll (emptyWrites h q)) (h.shownRow q parent) := by
        rw [hdata, shownData, hlist, if_neg Bool.false_ne_true]
        rfl
      have hsame : ∀ key, data.get? key = (writeAll (emptyWrites h q) (h.shownRow q parent)).get? key := by
        intro key
        rw [hone]
        cases hrow : h.shownRow q parent with
        | arr items => rw [writeAll_other id]; rfl
        | obj entries => rfl
        | _ => rw [writeAll_other id]; rfl
      show List.Forall₂ _ [data] [parent] ↔ ∀ parent' ∈ [parent], _
      rw [forall₂_cons, and_iff_left List.Forall₂.nil, forall_mem_singleton]
      exact hcarries parent (mem_singleton.mpr rfl) data fun key value => by rw [hsame key]

/-- The rows that direct execution reads. -/
def directRows (x : Executor) (m : QueryMatch) (ctx : Option SecurityContext) : Except FraiseQLError (List Json) :=
  x.directRequest m ctx >>= x.adapter.executeWithProjection

theorem outcome_of_directRows {x : Executor} {m : QueryMatch} {rows : List Json} (hrows : directRows x m ctx = .ok rows) :
    (x.executeQueryDirect m ctx).outcome = .ok (x.publicResponse m rows) := by
  obtain ⟨request, hrequest, hread⟩ := bind_eq_ok.mp hrows
  unfold Executor.executeQueryDirect Executor.executeWithProjection
  rw [outcome_bind, outcome_lift, hrequest, ok_bind, outcome_bind, outcome_call,
    hread]
  rfl

/-- The rows of a response carry what is related to their parents when nothing is related to any of them and nothing is
written under the name of a join key; and only then, but for selections that write under the name of a join key. -/
theorem embedsRelated_iff {c : Contents} {wantsCount : Bool} {parents : List Json} {data : Json}
    (hresolved : h.resolveGetQuery relativePath pairs ctx = .ok q)
    (hrows : directRows h.executor q.queryMatch ctx = .ok parents)
    (hok : (h.getData ctx q wantsCount).outcome = .ok data) (hmax : h.config.maxPageSize < 2 ^ 64)
    (hsmall : ∀ parent ∈ parents, ∀ name ∈ followed q, ∀ rel, relationshipOf h q name = some rel →
      (c.related rel none parent).length ≤ h.config.maxPageSize) :
    (KeysApart h q ∧ NothingRelated h q c parents → EmbedsRelated h q c parents data) ∧
      (EmbedsRelated h q c parents data → NothingRelated h q c parents ∨ ¬ KeysApart h q) := by
  have hsub : ∀ parent ∈ queryRows q parents, parent ∈ parents := by
    intro parent hparent
    unfold queryRows at hparent
    split_ifs at hparent
    · exact hparent
    · exact mem_of_mem_take hparent
  have hapart := embedsRelated_apart (c := c) hresolved (outcome_of_directRows hrows) hok
    fun parent hparent name hname rel hrel =>
      (hsmall parent (hsub parent hparent) name (mem_append_right _ hname) rel hrel).trans_lt hmax
  constructor
  · rintro ⟨hkeys, hnothing⟩
    exact (hapart hkeys).mpr hnothing
  · intro hembeds
    by_cases hkeys : KeysApart h q
    · exact .inl ((hapart hkeys).mp hembeds)
    · exact .inr hkeys

end RestHandler

/-! ### Users and their posts -/

/-- The posts of a user. -/
def userPosts : Relationship := ⟨"posts", "Post", .oneToMany, "fk_user", "pk_user"⟩

def ada : Json := .obj [("id", .str "u1"), ("pk_user", .ofNat 7)]

/-- A list of users that have posts; the database has one user. -/
def usersWithPosts : RestHandler :=
  { usersPages false with
    executor := { plainExecutor with
      schema := ⟨[], [BulkHandler.usersQuery], none, ⟨[], false⟩⟩
      adapter := { pagingAdapter [] with executeWithProjection := fun _ => .ok [ada] } }
    types := [⟨⟨"User", [⟨"id", none, .id⟩]⟩, [userPosts]⟩] }

/-- The posts in a database. -/
def postsOnly (posts : List Json) : Contents := ⟨fun typeName => if typeName = "Post" then posts else [], fun _ _ => True⟩

def post : Json := .obj [("fk_user", .ofNat 7), ("title", .str "Notes")]

/-- What the proofs below read of `GET /users?select=posts(title)`. -/
theorem posts_selected : ((usersWithPosts.resolveGetQuery "/users" [("select", "posts(title)")] none).toOption.map fun q =>
      (q.params.selection.embeddings.map fun spec => (spec.relationship, spec.outputName), q.params.selection.counts,
        (Json.lookup "posts" q.params.embeddingFilters).isNone, q.queryMatch.queryDef,
        (usersWithPosts.executor.directRequest q.queryMatch none).isOk,
        (usersWithPosts.getData none q false).outcome.isOk)) =
    some ([("posts", "posts")], [], true, BulkHandler.usersQuery, true, true) := by decide +kernel

theorem posts_request : ∃ q data spec,
    usersWithPosts.resolveGetQuery "/users" [("select", "posts(title)")] none = .ok q ∧
      directRows usersWithPosts.executor q.queryMatch none = .ok [ada] ∧
      (usersWithPosts.getData none q false).outcome = .ok data ∧ q.params.selection.embeddings = [spec] ∧
      spec.relationship = "posts" ∧ spec.outputName = "posts" ∧ q.params.selection.counts = [] ∧
      Json.lookup "posts" q.params.embeddingFilters = none ∧ q.queryMatch.queryDef = BulkHandler.usersQuery := by
  have hselected := posts_selected
  cases hresolved : usersWithPosts.resolveGetQuery "/users" [("select", "posts(title)")] none with
  | error e =>
    rw [hresolved] at hselected
    cases hselected
  | ok q =>
    rw [hresolved] at hselected
    have hfacts := some.inj hselected
    simp only [Prod.mk.injEq] at hfacts
    obtain ⟨hspecs, hcounts, hfilter, hdef, hrequest, hdata⟩ := hfacts
    obtain ⟨request, hrequest⟩ := isOk_iff.mp hrequest
    obtain ⟨data, hdata⟩ := isOk_iff.mp hdata
    obtain ⟨spec, hspec, hname⟩ := map_eq_singleton_iff.mp hspecs
    refine ⟨q, data, spec, rfl, ?_, hdata, hspec, congrArg Prod.fst hname, congrArg Prod.snd hname, hcounts,
      isNone_iff_eq_none.mp hfilter, hdef⟩
    rw [directRows, hrequest]
    rfl

section Posts

variable {q : ResolvedGetQuery} {spec : EmbeddedSpec} (hspec : q.params.selection.embeddings = [spec])
  (hrelationship : spec.relationship = "posts") (houtput : spec.outputName = "posts")
  (hcounts : q.params.selection.counts = []) (hfilter : Json.lookup "posts" q.params.embeddingFilters = none)
  (hdef : q.queryMatch.queryDef = BulkHandler.usersQuery)

include hdef in
theorem relationshipOf_posts : relationshipOf usersWithPosts q "posts" = some userPosts := by
  rw [relationshipOf, hdef]
  rfl

include hspec hrelationship houtput hcounts hdef in
theorem emptyWrites_posts : emptyWrites usersWithPosts q = [("posts", .arr [])] := by
  unfold emptyWrites writesOf
  rw [hspec, hcounts, filterMap_cons, hrelationship, relationshipOf_posts hdef]
  show [(spec.outputName, arr [])] = _
  rw [houtput]

include hspec hrelationship houtput hcounts hdef in
theorem keysApart_posts : RestHandler.KeysApart usersWithPosts q := by
  intro w hw name hname rel hrel
  rw [emptyWrites_posts hspec hrelationship houtput hcounts hdef] at hw
  rw [followed, hspec, hcounts] at hname
  obtain rfl := mem_singleton.mp hw
  obtain rfl : name = "posts" := (mem_singleton.mp hname).trans hrelationship
  rw [relationshipOf_posts hdef] at hrel
  obtain rfl := some.inj hrel
  decide

include hspec hrelationship houtput hcounts hfilter hdef in
/-- Nothing is related to the user when there are no posts of the user. -/
theorem nothingRelated_posts {posts : List Json} :
    RestHandler.NothingRelated usersWithPosts q (postsOnly posts) [ada] ↔
      (postsOnly posts).related userPosts none ada = [] := by
  have hrows : queryRows q [ada] = [ada] := by
    rw [queryRows, hdef]
    rfl
  unfold RestHandler.NothingRelated
  rw [hrows, hspec, hcounts, forall_mem_singleton, forall_mem_singleton, hrelationship, hfilter, houtput,
    emptyWrites_posts hspec hrelationship houtput hcounts hdef]
  constructor
  · intro hall
    exact (hall.1 userPosts (relationshipOf_posts hdef)).2.1
  · intro hnone
    refine ⟨?_, forall_mem_nil _⟩
    intro rel hrel
    rw [relationshipOf_posts hdef] at hrel
    obtain rfl := some.inj hrel
    exact ⟨trivial, hnone, rfl⟩

end Posts

theorem related_none (rel : Relationship) (parent : Json) : (postsOnly []).related rel none parent = [] := by
  have hrows : (postsOnly []).rows rel.targetType = [] := by
    show (if rel.targetType = "Post" then [] else []) = []
    split_ifs <;> rfl
  unfold Contents.related
  rw [hrows]
  cases extractJoinKey parent rel <;> rfl

/-- A user without posts has an empty list of posts. -/
theorem no_posts_embedded : ∃ q data,
    usersWithPosts.resolveGetQuery "/users" [("select", "posts(title)")] none = .ok q ∧
      (usersWithPosts.getData none q false).outcome = .ok data ∧
      RestHandler.EmbedsRelated usersWithPosts q (postsOnly []) [ada] data := by
  obtain ⟨q, data, spec, hresolved, hrows, hdata, hspec, hrelationship, houtput, hcounts, hfilter, hdef⟩ := posts_request
  have hsmall : ∀ parent ∈ [ada], ∀ name ∈ followed q, ∀ rel,
      relationshipOf usersWithPosts q name = some rel →
        ((postsOnly []).related rel none parent).length ≤ usersWithPosts.config.maxPageSize := by
    intro parent _ name _ rel _
    rw [related_none]
    exact Nat.zero_le _
  exact ⟨q, data, hresolved, hdata, (embedsRelated_iff hresolved hrows hdata (by decide : 1 < 2 ^ 64) hsmall).1
    ⟨keysApart_posts hspec hrelationship houtput hcounts hdef,
      (nothingRelated_posts hspec hrelationship houtput hcounts hfilter hdef).mpr (related_none _ _)⟩⟩

/-- The post of a user is not in the response: the list of posts is empty. -/
theorem post_not_embedded : ∃ q data,
    usersWithPosts.resolveGetQuery "/users" [("select", "posts(title)")] none = .ok q ∧
      RestHandler.directRows usersWithPosts.executor q.queryMatch none = .ok [ada] ∧
      (usersWithPosts.getData none q false).outcome = .ok data ∧
      ((postsOnly [post]).related userPosts none ada).length ≤ usersWithPosts.config.maxPageSize ∧
      post ∈ (postsOnly [post]).related userPosts none ada ∧
      ¬ RestHandler.EmbedsRelated usersWithPosts q (postsOnly [post]) [ada] data := by
  obtain ⟨q, data, spec, hresolved, hrows, hdata, hspec, hrelationship, houtput, hcounts, hfilter, hdef⟩ := posts_request
  have hrelated : post ∈ (postsOnly [post]).related userPosts none ada :=
    (Contents.mem_related rfl).mpr ⟨mem_singleton.mpr rfl, rfl, nofun⟩
  refine ⟨q, data, hresolved, hrows, hdata, Contents.length_related_le _ _ _ _, hrelated, ?_⟩
  rw [embedsRelated_apart hresolved (outcome_of_directRows hrows) hdata
    (fun _ _ name hname => by rw [hcounts] at hname; cases hname)
    (keysApart_posts hspec hrelationship houtput hcounts hdef),
    nothingRelated_posts hspec hrelationship houtput hcounts hfilter hdef]
  exact ne_nil_of_mem hrelated

end FraiseQL.Rest
