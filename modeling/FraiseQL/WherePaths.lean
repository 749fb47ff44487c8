import FraiseQL.WherePredicates

/-! What the two WHERE generators read of a document. The generic one goes from object to object; the wire one gives
all segments of a path but the last in one array literal, which PostgreSQL parses again, and where a segment may be an
index of an array. Where the two readings differ, there is a document that has the text for one of them only. -/

namespace FraiseQL.WherePredicates

open PostgresPredicate Postgres List Option

/-- A document of nested objects. -/
def nest : List String → Json → Json
  | [], value => value
  | key :: path, value => .obj [(key, nest path value)]

/-! ### Objects -/

theorem get?_object (key : String) (value : Json) : Json.get? key (.obj [(key, value)]) = some value := by
  simp [Json.get?, Json.lookup]

theorem get?_nest {last : String} {path : List String} {t : String} {value : Json}
    (h : Json.get? last (nest path (.str t)) = some value) : ∃ rest, path = last :: rest := by
  cases path with
  | nil => cases h
  | cons key path =>
    by_cases hkey : key = last
    · exact ⟨path, by rw [hkey]⟩
    · simp [nest, Json.get?, Json.lookup, hkey] at h

theorem follow_append (front path : List String) (value : Json) :
    follow (front ++ path) value = (follow front value).bind (follow path) := by
  induction front generalizing value with
  | nil => rfl
  | cons key front ih =>
    rw [cons_append, follow, follow]
    cases Json.get? key value with
    | none => rfl
    | some value => exact ih value

theorem nest_append (front path : List String) (value : Json) :
    nest (front ++ path) value = nest front (nest path value) := by
  induction front with
  | nil => rfl
  | cons key front ih => rw [cons_append, nest, nest, ih]

theorem follow_nest (path : List String) (value : Json) : follow path (nest path value) = some value := by
  induction path with
  | nil => rfl
  | cons key path ih =>
    rw [nest, follow, get?_object]
    exact ih

section

variable (pg : Postgres)

theorem walk_nest (front : List String) (elements : List (Option String)) (value : Json) :
    pg.walk (front.map some ++ elements) (nest front value) = pg.walk elements value := by
  induction front with
  | nil => rfl
  | cons key front ih =>
    rw [map_cons, cons_append, nest, walk, ← Json.get?, get?_object]
    exact ih

theorem walk_nest_keys (front : List String) (value : Json) :
    pg.walk (front.map some) (nest front value) = some value := by
  have hwalk := walk_nest pg front [] value
  rw [append_nil] at hwalk
  exact hwalk

/-- Into nested objects a path of elements leads by their keys. -/
theorem walk_nest_eq_some {elements : List (Option String)} {path : List String} {t : String} {value : Json}
    (h : pg.walk elements (nest path (.str t)) = some value) :
    ∃ front rest, path = front ++ rest ∧ elements = front.map some ∧ value = nest rest (.str t) := by
  induction elements generalizing path with
  | nil => exact ⟨[], path, rfl, rfl, (some.inj h).symm⟩
  | cons element elements ih =>
    cases path with
    | nil => cases element <;> cases h
    | cons key path =>
      cases element with
      | none => cases h
      | some k =>
        by_cases hkey : key = k
        · subst hkey
          rw [nest, walk, ← Json.get?, get?_object] at h
          obtain ⟨front, rest, rfl, rfl, hvalue⟩ := ih h
          exact ⟨key :: front, rest, rfl, rfl, hvalue⟩
        · simp [nest, walk, Json.lookup, hkey] at h

theorem walk_eq_follow {path : List String} (hpath : ∀ segment ∈ path, pg.indexOf segment = none) (value : Json) :
    pg.walk (path.map some) value = follow path value := by
  induction path generalizing value with
  | nil => rfl
  | cons key path ih =>
    obtain ⟨hkey, hrest⟩ := forall_mem_cons.mp hpath
    cases value with
    | obj entries =>
      rw [map_cons, walk, follow, Json.get?]
      cases Json.lookup key entries with
      | none => rfl
      | some value => exact ih hrest value
    | arr items =>
      rw [map_cons, walk, hkey]
      rfl
    | _ => rfl

theorem itemAt_replicate (i : Int) (value : Json) :
    itemAt (replicate (i.natAbs + 1) value) i = some value := by
  rw [itemAt, length_replicate]
  split_ifs with hpos hneg
  · rw [getElem?_replicate_of_lt (by omega)]
  · rw [getElem?_replicate_of_lt (by omega)]
  · omega

variable (last : String)

theorem fieldText_nest (t : String) : pg.fieldText last (some (nest [last] (.str t))) = some t.toList := by
  rw [fieldText, bind_some, nest, get?_object]
  rfl

theorem fieldText_str (path : List String) (t : String) : pg.fieldText last (follow path (.str t)) = none := by
  cases path <;> rfl

theorem fieldText_nest_isSome {last : String} {path : List String} {t : String}
    (h : (pg.fieldText last (some (nest path (.str t)))).isSome) : ∃ rest, path = last :: rest := by
  rw [fieldText, bind_some] at h
  cases hvalue : Json.get? last (nest path (.str t)) with
  | none =>
    rw [hvalue] at h
    cases h
  | some value => exact get?_nest hvalue

/-! ### Paths -/

/-- PostgreSQL reads the array literal of a path. -/
def PathReads (path : List String) : Prop :=
  path.length ≤ 1 ∨ (pg.arrayOf (pathLiteral path.dropLast)).isSome

/-- PostgreSQL reads the segments out of the array literal, and none of them is an index. -/
def PathAlike (path : List String) : Prop :=
  path.length ≤ 1 ∨ pg.arrayOf (pathLiteral path.dropLast) = some (path.dropLast.map some) ∧
    ∀ segment ∈ path.dropLast, pg.indexOf segment = none

def genericText (path : List String) (document : Json) : Option (List Char) :=
  pg.fieldText (path.getLastD "") (follow path.dropLast document)

variable {path : List String}

theorem generic_read (hpath : path ≠ []) (document : Json) :
    pg.read document (genericSource path) = some (.text (genericText pg path document)) := by
  cases path with
  | nil => exact absurd rfl hpath
  | cons key path => rfl

theorem genericText_null : genericText pg path .null = none := by
  rw [genericText]
  cases path.dropLast <;> rfl

theorem dropLast_concat_getLastD (hpath : path ≠ []) : path.dropLast ++ [path.getLastD ""] = path := by
  rw [getLastD_eq_getLast?, getLast?_eq_some_getLast hpath, getD_some]
  exact dropLast_concat_getLast hpath

theorem genericText_nest (hpath : path ≠ []) (t : String) : genericText pg path (nest path (.str t)) = some t.toList := by
  have hnest := nest_append path.dropLast [path.getLastD ""] (.str t)
  rw [dropLast_concat_getLastD hpath] at hnest
  rw [genericText, hnest, follow_nest, fieldText_nest]

theorem wireSource_nested (first next : String) (path : List String) : wireSource (first :: next :: path) =
    .hash (first :: next :: path).dropLast ((first :: next :: path).getLastD "") := rfl

/-- What the wire generator reads where PostgreSQL cannot read the array literal. -/
theorem wire_unread (h : ¬PathReads pg path) (document : Json) : pg.read document (wireSource path) = none := by
  obtain ⟨hlength, hliteral⟩ := not_or.mp h
  match path with
  | [] | [_] => exact absurd (by simp) hlength
  | first :: next :: path =>
    rw [wireSource_nested, Postgres.read, not_isSome_iff_eq_none.mp hliteral]
    rfl

/-- Where a segment is an index, an array tells the two readings apart. -/
theorem index_differs {path : List String} (h : ∃ segment ∈ path, pg.indexOf segment ≠ none) :
    ∃ document, (pg.fieldText last (pg.walk (path.map some) document)).isNone ≠
      (pg.fieldText last (follow path document)).isNone := by
  obtain ⟨segment, hsegment, hindex⟩ := h
  obtain ⟨i, hi⟩ := ne_none_iff_exists'.mp hindex
  obtain ⟨front, rest, rfl⟩ := append_of_mem hsegment
  let inner := nest [last] (.str "")
  let items := replicate (i.natAbs + 1) (nest rest inner)
  have hwalk : pg.walk ((front ++ segment :: rest).map some) (nest front (.arr items)) = some inner := by
    rw [map_append, walk_nest, map_cons, walk, hi, bind_some, itemAt_replicate,
      bind_some, walk_nest_keys]
  have hfollow : follow (front ++ segment :: rest) (nest front (.arr items)) = none := by
    rw [follow_append, follow_nest]
    rfl
  refine ⟨nest front (.arr items), ?_⟩
  rw [hwalk, hfollow, fieldText_nest]
  nofun

/-- Where the elements are other than the segments, nested objects tell them apart. -/
theorem elements_differ {path : List String} {elements : List (Option String)} (h : elements ≠ path.map some) :
    ∃ document, (pg.fieldText last (pg.walk elements document)).isNone ≠
      (pg.fieldText last (follow path document)).isNone := by
  have hgeneric : pg.fieldText last (follow path (nest (path ++ [last]) (.str ""))) = some [] := by
    rw [nest_append, follow_nest]
    exact fieldText_nest pg last ""
  by_cases hwire : (pg.fieldText last (pg.walk elements (nest (path ++ [last]) (.str "")))).isSome
  · -- the elements are fewer, and lead to a field of the same name
    cases hwalk : pg.walk elements (nest (path ++ [last]) (.str "")) with
    | none =>
      rw [hwalk] at hwire
      cases hwire
    | some value =>
      obtain ⟨front, rest, hpath, rfl, rfl⟩ := walk_nest_eq_some pg hwalk
      rw [hwalk] at hwire
      obtain ⟨rest, rfl⟩ := fieldText_nest_isSome pg hwire
      rcases eq_nil_or_concat rest with rfl | ⟨rest, key, rfl⟩
      · obtain ⟨rfl, -⟩ := append_inj' hpath rfl
        exact absurd rfl h
      · rw [concat_eq_append, ← cons_append, ← append_assoc] at hpath
        obtain ⟨rfl, -⟩ := append_inj' hpath rfl
        refine ⟨nest (front ++ [last]) (.str ""), ?_⟩
        have hmissing : pg.fieldText last (follow (front ++ last :: rest) (nest (front ++ [last]) (.str ""))) = none := by
          rw [follow_append, nest_append, follow_nest, bind_some, follow, nest, get?_object]
          exact fieldText_str pg last rest ""
        rw [nest_append, walk_nest_keys, fieldText_nest, ← nest_append, hmissing]
        nofun
  · refine ⟨nest (path ++ [last]) (.str ""), ?_⟩
    rw [hgeneric, not_isSome_iff_eq_none.mp hwire]
    nofun

/-- What the wire generator reads, against the generic one. -/
theorem wire_reads (hpath : path ≠ []) (h : PathReads pg path) : ∃ wireText : Json → Option (List Char),
    (∀ document, pg.read document (wireSource path) = some (.text (wireText document))) ∧ wireText .null = none ∧
      (PathAlike pg path → wireText = genericText pg path) ∧
      (¬PathAlike pg path → ∃ document, (wireText document).isNone ≠ (genericText pg path document).isNone) := by
  match path with
  | [] => exact absurd rfl hpath
  | [key] => exact ⟨genericText pg [key], fun _ => rfl, genericText_null pg, fun _ => rfl, fun h => absurd (.inl (by simp)) h⟩
  | first :: next :: path =>
    obtain ⟨elements, helements⟩ := isSome_iff_exists.mp (h.resolve_left (by simp))
    refine ⟨fun document => pg.fieldText ((first :: next :: path).getLastD "") (pg.walk elements document), ?_, ?_, ?_,
      ?_⟩
    · intro document
      rw [wireSource_nested, Postgres.read, helements]
      rfl
    · match elements with
      | [] | none :: _ | some _ :: _ => rfl
    · intro halike
      obtain ⟨hsegments, hindex⟩ := halike.resolve_left (by simp)
      obtain rfl := some.inj (helements.symm.trans hsegments)
      funext document
      rw [walk_eq_follow pg hindex]
      rfl
    · intro halike
      by_cases hsegments : elements = (first :: next :: path).dropLast.map some
      · subst hsegments
        refine index_differs pg _ ?_
        by_contra hnone
        exact halike (.inr ⟨helements, fun segment hmem => by_contra fun hindex => hnone ⟨segment, hmem, hindex⟩⟩)
      · exact elements_differ pg _ hsegments

end

end FraiseQL.WherePredicates
