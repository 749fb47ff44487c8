import FraiseQL.LikeLiteral
import FraiseQL.WherePaths

/-! The two WHERE generators of PostgreSQL against each other. A condition is worth the same in both on every document
exactly when its path is read alike and its operator is written alike for its value; a clause whose conditions are is
worth the same as a whole. -/

namespace FraiseQL.WherePredicates

open PostgresPredicate Option String
open PostgresPredicate.Postgres (textItems)
open SqlLike (likeMatch sameKey wildText escaped dangling)
open WhereGenerator (Formula escapeLikeLiteral)
open Aggregate.SqlGenerator (escapeLikeLiteral_toList)

/-! ### Conditions that are worth the same -/

section

variable (pg : Postgres) (path : List String)

/-- `Eq` and `Neq` cast numbers and booleans in one generator only, and the other comparisons cast everything. -/
def compareAlike : CompareOp → Json → Prop
  | _, .null => PathReads pg path
  | .eq, .str _ | .neq, .str _ => PathAlike pg path
  | .eq, _ | .neq, _ => False
  -- one generator compares numbers and the other one texts, unless PostgreSQL rejects both
  | _, .str s => pg.numericOf s.toList = none ∧
      if path = [] then pg.jsonbOf s.toList = none else ¬PathReads pg path
  | _, .bool _ => True
  | _, _ => False

/-- An item of a list with which PostgreSQL rejects the list. -/
def itemRejected : Json → Prop
  | .num _ | .bool _ => True
  | .str s => path = [] ∧ pg.jsonbOf s.toList = none
  | _ => False

/-- LIKE and regular expressions; to anything but a text PostgreSQL applies neither. -/
def patternAlike : Json → Prop
  | .null => PathReads pg path
  | .str _ => PathAlike pg path
  | _ => True

def kindAlike : Kind → Json → Prop
  | .compare op, value => compareAlike pg path op value
  | .membership _, value => ∃ item ∈ value.asArray?.getD [], itemRejected pg path item
  | .wildcards _ _ _, .str s => path = [] ∨ PathAlike pg path ∧ ∀ c ∈ s.toList, c ≠ '\\' ∧ c ≠ '%' ∧ c ≠ '_'
  | .wildcards _ _ _, _ => True
  | .like _ _, value | .regex _ _, value => patternAlike pg path value
  | .json _, _ => True
  | .isNull, _ => PathAlike pg path

end

/-! ### Fields -/

section

variable (pg : Postgres) {path : List String} {wire generic : Read → Verdict}

theorem PathAlike.reads {pg : Postgres} (h : PathAlike pg path) : PathReads pg path :=
  h.imp_right fun h => by rw [h.1]; rfl

/-- What two predicates say of the field at a path, each with its own way to read it. -/
def AgreeAt (path : List String) (wire generic : Read → Verdict) : Prop :=
  ∀ document, (pg.read document (wireSource path)).bind wire = (pg.read document (genericSource path)).bind generic

theorem agreeAt_nil : AgreeAt pg [] wire generic ↔ ∀ document, wire (.jsonb document) = generic (.jsonb document) :=
  Iff.rfl

/-- The wire generator's verdict, by whether PostgreSQL reads the path. -/
theorem wire_null (hpath : path ≠ []) : (pg.read .null (wireSource path)).bind wire =
    open Classical in if PathReads pg path then wire (.text none) else none := by
  split_ifs with hreads
  · obtain ⟨wireText, hread, hnull, -⟩ := wire_reads pg hpath hreads
    rw [hread, hnull]
    rfl
  · rw [wire_unread pg hreads]
    rfl

theorem generic_null (hpath : path ≠ []) :
    (pg.read .null (genericSource path)).bind generic = generic (.text none) := by
  rw [generic_read pg hpath, genericText_null]
  rfl

/-- Predicates that tell a text from none agree exactly when they read the same text and agree on every text. -/
theorem agreeAt_iff (hpath : path ≠ []) (hnull : generic (.text none) ≠ none)
    (hleft : ∀ t, wire (.text (some t)) ≠ generic (.text none))
    (hright : ∀ t, wire (.text none) ≠ generic (.text (some t))) :
    AgreeAt pg path wire generic ↔ PathAlike pg path ∧ ∀ t, wire (.text t) = generic (.text t) := by
  constructor
  · intro hagree
    have hreads : PathReads pg path := by
      by_contra hreads
      have hfirst := hagree .null
      rw [wire_null pg hpath, if_neg hreads, generic_null pg hpath] at hfirst
      exact hnull hfirst.symm
    obtain ⟨wireText, hread, hwirenull, halike, hdiffer⟩ := wire_reads pg hpath hreads
    have hsame : ∀ document, wire (.text (wireText document)) = generic (.text (genericText pg path document)) := by
      intro document
      have hdocument := hagree document
      rw [hread, generic_read pg hpath] at hdocument
      exact hdocument
    have hpathalike : PathAlike pg path := by
      by_contra hunlike
      obtain ⟨document, hdocument⟩ := hdiffer hunlike
      have hverdict := hsame document
      cases hw : wireText document with
      | none =>
        cases hg : genericText pg path document with
        | none => exact hdocument (by rw [hw, hg])
        | some t =>
          rw [hw, hg] at hverdict
          exact hright t hverdict
      | some t =>
        cases hg : genericText pg path document with
        | none =>
          rw [hw, hg] at hverdict
          exact hleft t hverdict
        | some _ => exact hdocument (by rw [hw, hg]; rfl)
    refine ⟨hpathalike, fun t => ?_⟩
    cases t with
    | none =>
      have hfirst := hsame .null
      rw [hwirenull, genericText_null] at hfirst
      exact hfirst
    | some t =>
      have htext := hsame (nest path (.str (ofList t)))
      rw [halike hpathalike, genericText_nest pg hpath, toList_ofList] at htext
      exact htext
  · rintro ⟨halike, hsame⟩ document
    obtain ⟨wireText, hread, -, htext, -⟩ := wire_reads pg hpath halike.reads
    rw [hread, generic_read pg hpath, htext halike]
    exact hsame _

/-- Predicates that say the same of every text agree exactly when PostgreSQL reads the path. -/
theorem agreeAt_constant_iff (hpath : path ≠ []) {verdict : Verdict} (hverdict : verdict ≠ none)
    (hwire : ∀ t, wire (.text t) = verdict) (hgeneric : ∀ t, generic (.text t) = verdict) :
    AgreeAt pg path wire generic ↔ PathReads pg path := by
  constructor
  · intro hagree
    by_contra hreads
    have hfirst := hagree .null
    rw [wire_null pg hpath, if_neg hreads, generic_null pg hpath, hgeneric] at hfirst
    exact hverdict hfirst.symm
  · intro hreads document
    obtain ⟨wireText, hread, -⟩ := wire_reads pg hpath hreads
    rw [hread, generic_read pg hpath]
    exact (hwire _).trans (hgeneric _).symm

theorem wire_rejected (hpath : path ≠ []) (hwire : ∀ t, wire (.text t) = none) (document : Json) :
    (pg.read document (wireSource path)).bind wire = none := by
  by_cases hreads : PathReads pg path
  · obtain ⟨wireText, hread, -⟩ := wire_reads pg hpath hreads
    rw [hread]
    exact hwire _
  · rw [wire_unread pg hreads]
    rfl

/-- PostgreSQL rejects what the wire generator writes. -/
theorem agreeAt_rejected_iff (hpath : path ≠ []) (hwire : ∀ t, wire (.text t) = none)
    (hgeneric : generic (.text none) = none → ∀ t, generic (.text t) = none) :
    AgreeAt pg path wire generic ↔ generic (.text none) = none := by
  constructor
  · intro hagree
    have hfirst := hagree .null
    rw [wire_rejected pg hpath hwire, generic_null pg hpath] at hfirst
    exact hfirst.symm
  · intro hnull document
    rw [wire_rejected pg hpath hwire, generic_read pg hpath]
    exact (hgeneric hnull _).symm

theorem strict_ne_null (t : List Char) (test : List Char → Option Bool) :
    Postgres.strict (some t) test ≠ Postgres.strict none test := by
  rw [Postgres.strict, Postgres.strict]
  cases test t <;> nofun

/-- Tests of a text agree exactly when they read the same text and are the same. -/
theorem agreeAt_strict_iff (hpath : path ≠ []) {test test' : List Char → Option Bool}
    (hwire : ∀ t, wire (.text t) = Postgres.strict t test) (hgeneric : ∀ t, generic (.text t) = Postgres.strict t test') :
    AgreeAt pg path wire generic ↔ PathAlike pg path ∧ ∀ t, test t = test' t := by
  rw [agreeAt_iff pg hpath (by rw [hgeneric]; nofun) (fun t => by rw [hwire, hgeneric]; exact strict_ne_null t test)
    (fun t => by rw [hwire, hgeneric]; exact (strict_ne_null t test').symm)]
  refine and_congr_right fun _ => ⟨fun h t => ?_, fun h t => ?_⟩
  · have htext := h (some t)
    rw [hwire, hgeneric] at htext
    exact map_injective (fun _ _ h => some.inj h) htext
  · rw [hwire, hgeneric, funext h]

end

/-! ### Comparisons -/

section

variable (pg : Postgres) {path : List String}

theorem literalNumeric_num (n : JsonNumber) : ∃ right, pg.literalNumeric (.num n) = some right :=
  isSome_iff_exists.mp (pg.numericOf_number n)

/-- A comparison of texts agrees with one of numbers only where PostgreSQL rejects both. -/
theorem ordering_agree_iff (hpath : path ≠ []) (op : CompareOp) (s : List Char) :
    AgreeAt pg path (fun r => pg.binaryVerdict r (.compare op) (.str s)) (fun r => pg.numericVerdict r op (.str s)) ↔
      pg.numericOf s = none ∧ ¬PathReads pg path := by
  constructor
  · intro hagree
    have hreads : ¬PathReads pg path := by
      intro hreads
      obtain ⟨wireText, hread, -⟩ := wire_reads pg hpath hreads
      have hword := hagree (nest path (.str (ofList ['a'])))
      rw [hread, generic_read pg hpath, genericText_nest pg hpath, toList_ofList] at hword
      have hgeneric : pg.numericVerdict (.text (some ['a'])) op (.str s) = none := by
        rw [Postgres.numericVerdict, if_neg nofun]
        cases pg.literalNumeric (.str s) with
        | none => rfl
        | some right =>
          show (Option.map _ (pg.numericOf ['a'])).map some = none
          rw [pg.numericOf_word]
          rfl
      have hverdict : pg.binaryVerdict (.text (wireText (nest path (.str (ofList ['a']))))) (.compare op) (.str s) =
          none := hword.trans hgeneric
      cases htext : wireText (nest path (.str (ofList ['a']))) with
      | none | some t =>
        rw [htext] at hverdict
        cases hverdict
    refine ⟨?_, hreads⟩
    have hfirst := hagree .null
    rw [wire_unread pg hreads, generic_null pg hpath] at hfirst
    by_contra hnumeric
    obtain ⟨right, hright⟩ := ne_none_iff_exists'.mp hnumeric
    rw [Postgres.numericVerdict, if_neg nofun, Postgres.literalNumeric, hright] at hfirst
    cases hfirst
  · rintro ⟨hnumeric, hreads⟩ document
    rw [wire_unread pg hreads, generic_read pg hpath, bind_none, bind_some, Postgres.numericVerdict,
      if_neg nofun, Postgres.literalNumeric, hnumeric]
    rfl

variable (op : CompareOp)

theorem ordering_whole_iff (s : List Char) :
    AgreeAt pg [] (fun r => pg.binaryVerdict r (.compare op) (.str s)) (fun r => pg.numericVerdict r op (.str s)) ↔
      pg.numericOf s = none ∧ pg.jsonbOf s = none := by
  have hwire : ∀ document, pg.binaryVerdict (.jsonb document) (.compare op) (.str s) =
      (pg.jsonbOf s).map fun j => some (pg.compareJsonb op document j) := fun _ => rfl
  have hgeneric : ∀ document, pg.numericVerdict (.jsonb document) op (.str s) = (pg.numericOf s).bind fun right =>
      (pg.jsonbNumeric document).map fun left => some (pg.compareNumeric op left right) := fun _ => by
    rw [Postgres.numericVerdict, if_neg nofun, Postgres.literalNumeric]
  simp only [agreeAt_nil, hwire, hgeneric]
  constructor
  · intro hagree
    have hjsonb : pg.jsonbOf s = none := by
      have htext := hagree (.str "")
      rw [pg.jsonbNumeric_string] at htext
      cases hjsonb : pg.jsonbOf s with
      | none => rfl
      | some j =>
        rw [hjsonb] at htext
        cases hnumeric : pg.numericOf s <;> rw [hnumeric] at htext <;> cases htext
    refine ⟨?_, hjsonb⟩
    obtain ⟨left, hleft⟩ := isSome_iff_exists.mp (pg.jsonbNumeric_number (.int ⟨0, by decide⟩))
    have hnumber := hagree (.num (.int ⟨0, by decide⟩))
    rw [hjsonb, hleft] at hnumber
    cases hnumeric : pg.numericOf s with
    | none => rfl
    | some right =>
      rw [hnumeric] at hnumber
      cases hnumber
  · rintro ⟨hnumeric, hjsonb⟩ document
    rw [hnumeric, hjsonb]
    rfl

/-- A number is compared as it is in one generator, which PostgreSQL rejects. -/
theorem number_disagrees (n : JsonNumber) :
    ¬AgreeAt pg path (fun r => pg.binaryVerdict r (.compare op) (.num n)) (fun r => pg.numericVerdict r op (.num n)) := by
  obtain ⟨right, hright⟩ := literalNumeric_num pg n
  have htext : ∀ t, pg.numericVerdict (.text t) op (.num n) =
      Postgres.strict t fun t => (pg.numericOf t).map fun left => pg.compareNumeric op left right := by
    intro t
    rw [Postgres.numericVerdict, if_neg (by rintro ⟨⟩), hright]
    rfl
  have hjsonb : ∀ document, pg.numericVerdict (.jsonb document) op (.num n) =
      (pg.jsonbNumeric document).map fun left => some (pg.compareNumeric op left right) := by
    intro document
    rw [Postgres.numericVerdict, if_neg (by rintro ⟨⟩), hright]
    rfl
  intro hagree
  rcases eq_or_ne path [] with rfl | hpath
  · obtain ⟨left, hleft⟩ := isSome_iff_exists.mp (pg.jsonbNumeric_number n)
    have hnumber := agreeAt_nil pg |>.mp hagree (.num n)
    rw [hjsonb, hleft] at hnumber
    cases hnumber
  · have hnull := (agreeAt_rejected_iff pg hpath (fun _ => rfl) fun h => by rw [htext] at h; cases h).mp hagree
    rw [htext] at hnull
    cases hnull

theorem boolean_disagrees (b : Bool) :
    ¬AgreeAt pg path (fun r => pg.binaryVerdict r (.compare op) (.bool b)) (fun r => pg.booleanVerdict r op (.bool b)) := by
  intro hagree
  rcases eq_or_ne path [] with rfl | hpath
  · have hboolean := agreeAt_nil pg |>.mp hagree (.bool b)
    have hgeneric : pg.booleanVerdict (.jsonb (.bool b)) op (.bool b) = some (some (pg.compareBoolean op b b)) := by
      rw [Postgres.booleanVerdict, pg.jsonbBoolean_bool]
      rfl
    rw [hgeneric] at hboolean
    cases hboolean
  · cases (agreeAt_rejected_iff pg hpath (fun _ => rfl) fun h => by cases h).mp hagree

theorem null_agrees_iff {wire generic : Read → Verdict} (hwire : ∀ r, wire r = some none)
    (hgeneric : ∀ r, generic r = some none) : AgreeAt pg path wire generic ↔ PathReads pg path := by
  rcases eq_or_ne path [] with rfl | hpath
  · exact iff_of_true (fun document => (hwire _).trans (hgeneric _).symm) (.inl (Nat.zero_le 1))
  · have hunknown : (some none : Verdict) ≠ none := nofun
    exact agreeAt_constant_iff pg hpath hunknown (fun _ => hwire _) fun _ => hgeneric _

/-- What the same predicate says of what both read. -/
theorem same_agrees_iff {verdict : Read → Verdict} {test : List Char → Option Bool}
    (hverdict : ∀ t, verdict (.text t) = Postgres.strict t test) : AgreeAt pg path verdict verdict ↔ PathAlike pg path := by
  rcases eq_or_ne path [] with rfl | hpath
  · exact iff_of_true (fun _ => rfl) (.inl (Nat.zero_le 1))
  · rw [agreeAt_strict_iff pg hpath hverdict hverdict]
    exact and_iff_left fun _ => rfl

theorem compare_agree_iff {value : Json} {v : Literal} (hv : scalarLiteral value = some v) :
    (∀ document, pg.verdict document (.binary (wireSource path) (.compare op) v) =
      pg.verdict document (genericCompare (genericSource path) op value)) ↔ compareAlike pg path op value := by
  have hrejected : ∀ b, AgreeAt pg path (fun r => pg.binaryVerdict r (.compare op) (.bool b))
      (fun r => pg.numericVerdict r op (.bool b)) := by
    intro b document
    have hwire : ∀ r, pg.binaryVerdict r (.compare op) (.bool b) = none := by
      intro r
      cases r <;> rfl
    simp only [hwire, Postgres.numericVerdict, if_neg (show Literal.bool b ≠ .null from nofun), Postgres.literalNumeric,
      bind_none, bind_fun_none]
  have hordering : ∀ s, AgreeAt pg path (fun r => pg.binaryVerdict r (.compare op) (.str s))
      (fun r => pg.numericVerdict r op (.str s)) ↔
      pg.numericOf s = none ∧ if path = [] then pg.jsonbOf s = none else ¬PathReads pg path := by
    intro s
    split_ifs with hpath
    · subst hpath
      exact ordering_whole_iff pg op s
    · exact ordering_agree_iff pg hpath op s
  have hnull : ∀ r, pg.binaryVerdict r (.compare op) .null = some none := by
    intro r
    cases r <;> rfl
  cases value with
  | null =>
    obtain rfl := some.inj hv
    cases op with
    | eq | neq => exact null_agrees_iff pg hnull hnull
    | _ => exact null_agrees_iff pg hnull fun _ => rfl
  | bool b =>
    obtain rfl := some.inj hv
    cases op with
    | eq | neq => exact iff_of_false (boolean_disagrees pg _ b) id
    | _ => exact iff_of_true (hrejected b) trivial
  | num n =>
    obtain rfl := some.inj hv
    cases op <;> exact iff_of_false (number_disagrees pg _ n) id
  | str s =>
    obtain rfl := some.inj hv
    cases op with
    | eq | neq => exact same_agrees_iff pg fun _ => rfl
    | _ => exact hordering s.toList
  | arr items => cases hv
  | obj entries => cases hv

end

/-! ### Lists -/

section

variable (pg : Postgres) {path : List String}

variable {vs : List Literal}

theorem textItems_cons_eq_none {v : Literal} :
    textItems (v :: vs) = none ↔ (v ≠ .null ∧ ∀ s, v ≠ .str s) ∨ textItems vs = none := by
  cases v <;> simp [textItems]

theorem literalOf_scalar {value : Json} {v : Literal} (hv : scalarLiteral value = some v) : literalOf value = v := by
  rw [literalOf, hv]
  rfl

variable {items : List Json}

/-- A list is rejected together with one of its items. -/
theorem textItems_none_iff (hpath : path ≠ []) (hvs : items.mapM scalarLiteral = some vs) :
    textItems (items.map literalOf) = none ↔ ∃ item ∈ items, itemRejected pg path item := by
  induction items generalizing vs with
  | nil => exact iff_of_false nofun (by rintro ⟨_, hmem, _⟩; cases hmem)
  | cons item items ih =>
    simp only [List.mapM_cons, pure_def, bind_eq_bind, bind_eq_some_iff] at hvs
    obtain ⟨v, hv, rest, hrest, -⟩ := hvs
    rw [List.map_cons, textItems_cons_eq_none, ih hrest, literalOf_scalar hv, List.exists_mem_cons_iff]
    refine or_congr_left ?_
    cases item <;> cases hv <;> simp [itemRejected, hpath]

theorem mapM_cons_eq_none {α β : Type} {f : α → Option β} {a : α} {as : List α} :
    (a :: as).mapM f = none ↔ f a = none ∨ as.mapM f = none := by
  rw [List.mapM_cons]
  cases f a <;> cases as.mapM f <;> simp

theorem castItems_none_iff (document : Json) (hvs : items.mapM scalarLiteral = some vs) :
    ((textItems (items.map literalOf)).bind fun texts => texts.mapM (pg.castEqual document)) = none ↔
      ∃ item ∈ items, itemRejected pg [] item := by
  induction items generalizing vs with
  | nil => exact iff_of_false nofun (by rintro ⟨_, hmem, _⟩; cases hmem)
  | cons item items ih =>
    simp only [List.mapM_cons, pure_def, bind_eq_bind, bind_eq_some_iff] at hvs
    obtain ⟨v, hv, rest, hrest, -⟩ := hvs
    have hih := ih hrest
    rw [List.map_cons, literalOf_scalar hv, List.exists_mem_cons_iff, ← hih]
    cases item with
    | null =>
      obtain rfl := some.inj hv
      rw [textItems]
      cases textItems (items.map literalOf) with
      | none => simp [itemRejected]
      | some texts => exact mapM_cons_eq_none.trans (by simp [Postgres.castEqual, itemRejected])
    | str s =>
      obtain rfl := some.inj hv
      rw [textItems]
      cases textItems (items.map literalOf) with
      | none => simp
      | some texts => exact mapM_cons_eq_none.trans (by simp [Postgres.castEqual, itemRejected])
    | bool b | num n =>
      obtain rfl := some.inj hv
      simp [textItems, itemRejected]
    | arr _ => cases hv
    | obj _ => cases hv

/-- The wire generator's list is never well formed. -/
theorem membership_agree_iff {negated : Bool} {F : Formula Predicate} (hvs : items.mapM scalarLiteral = some vs)
    (hF : genericFormula (genericSource path) (.membership negated) (.arr items) = some F) :
    (∀ document, pg.verdict document (.anyArray (wireSource path) negated vs) = verdictOf (pg.verdict document) F) ↔
      ∃ item ∈ items, itemRejected pg path item := by
  cases items with
  | nil =>
    obtain rfl := some.inj hF
    refine iff_of_false (fun hagree => ?_) (by rintro ⟨_, hmem, _⟩; cases hmem)
    have hconstant := hagree .null
    cases negated <;> cases hconstant
  | cons item items =>
    obtain rfl := some.inj hF
    rcases eq_or_ne path [] with rfl | hpath
    · have hverdict : ∀ document, none = verdictOf (pg.verdict document)
          (.leaf (.inList (genericSource []) negated ((item :: items).map literalOf))) ↔
          ∃ item' ∈ item :: items, itemRejected pg [] item' := by
        intro document
        rw [← castItems_none_iff pg document hvs, eq_comm]
        show (textItems _).bind _ = none ↔ _
        cases textItems ((item :: items).map literalOf) with
        | none => exact iff_of_true rfl rfl
        | some texts => exact map_eq_none_iff
      exact ⟨fun hagree => (hverdict .null).mp (hagree .null), fun hrejected document => (hverdict document).mpr hrejected⟩
    · have hverdict : ∀ document, none = verdictOf (pg.verdict document)
          (.leaf (.inList (genericSource path) negated ((item :: items).map literalOf))) ↔
          ∃ item' ∈ item :: items, itemRejected pg path item' := by
        intro document
        rw [← textItems_none_iff pg hpath hvs, eq_comm, verdictOf, Postgres.verdict, generic_read pg hpath, bind_some,
          Postgres.inVerdict]
        cases textItems ((item :: items).map literalOf) with
        | none => exact iff_of_true rfl rfl
        | some texts => cases genericText pg path document <;> exact iff_of_false nofun nofun
      exact ⟨fun hagree => (hverdict .null).mp (hagree .null), fun hrejected document => (hverdict document).mpr hrejected⟩

end

/-! ### Patterns -/

section

variable (pg : Postgres) {path : List String}

/-- An unescaped value means what the escaped one means only where there is nothing to escape. -/
theorem like_escaped_iff (insensitive before after : Bool) (v : List Char) :
    (∀ t, pg.like insensitive (wildText before after v) t = pg.like insensitive (wildText before after (escaped '\\' v)) t) ↔
      ∀ c ∈ v, c ≠ '\\' ∧ c ≠ '%' ∧ c ≠ '_' := by
  have hkey : ∀ z, z = '\\' ∨ z = '%' ∨ z = '_' → 'a' ≠ z ∧
      ∀ c, (if insensitive then pg.lower else id) c = (if insensitive then pg.lower else id) z → c = z := by
    intro z hz
    refine ⟨by rintro rfl; revert hz; decide, fun c h => ?_⟩
    cases insensitive with
    | false => exact h
    | true =>
      have hspecial := pg.lower_special z (by simpa using hz)
      have hlower : pg.lower c = pg.lower z := h
      rw [(hspecial z).mpr rfl] at hlower
      exact (hspecial c).mp hlower
  have hescaped : ∀ t, pg.like insensitive (wildText before after (escaped '\\' v)) t = some (likeMatch
      (sameKey (if insensitive then pg.lower else id)) (some '\\') (wildText before after (escaped '\\' v)) t) := fun t =>
    pg.like_eq insensitive _ t (SqlLike.dangling_wildText_escaped (by decide) before after v)
  constructor
  · intro hsame
    by_contra hplain
    have hspecial : ∃ z ∈ v, z = '\\' ∨ z = '%' ∨ z = '_' := by
      by_contra hnone
      exact hplain fun c hc => by simpa [not_or] using fun h => hnone ⟨c, hc, h⟩
    cases hdangling : dangling '\\' false (wildText before after v) with
    | true =>
      refine pg.like_dangling insensitive _ v hdangling ?_
      rw [hsame, hescaped, some.injEq, SqlLike.likeMatch_wildText _ (by decide) (SqlLike.escaped_literal _ _ _)]
      exact SqlLike.StandsIn.refl before after _
    | false =>
      obtain ⟨t, hmatch, hnone⟩ := SqlLike.exists_match_of_special (by decide) hkey hspecial hdangling
      have ht := hsame t
      rw [hescaped, pg.like_eq insensitive _ t hdangling, hmatch, hnone] at ht
      cases ht
  · intro hplain t
    rw [SqlLike.escaped_eq_self hplain]

theorem wildcards_agree_iff (insensitive before after : Bool) (v : List Char) :
    AgreeAt pg path (fun r => pg.binaryVerdict r (.like insensitive false) (.str (wildText before after v)))
      (fun r => pg.binaryVerdict r (.like insensitive false) (.str (wildText before after (escaped '\\' v)))) ↔
      path = [] ∨ PathAlike pg path ∧ ∀ c ∈ v, c ≠ '\\' ∧ c ≠ '%' ∧ c ≠ '_' := by
  rcases eq_or_ne path [] with rfl | hpath
  · exact iff_of_true (fun _ => rfl) (.inl rfl)
  · have htest : ∀ x : Option Bool, x.map (xor false) = x := fun x => by cases x <;> simp
    rw [agreeAt_strict_iff pg hpath (fun _ => rfl) (fun _ => rfl), or_iff_right hpath,
      ← like_escaped_iff pg insensitive before after v]
    simp only [htest]

variable {value : Json}

/-- LIKE and regular expressions, written alike. -/
theorem pattern_agree_iff {op : Operator}
    (hop : (∃ insensitive negated, op = .like insensitive negated) ∨ ∃ insensitive negated, op = .regex insensitive negated)
    {v : Literal} (hv : scalarLiteral value = some v) :
    AgreeAt pg path (fun r => pg.binaryVerdict r op v) (fun r => pg.binaryVerdict r op v) ↔ patternAlike pg path value := by
  have hnone : (∀ s, v ≠ .str s) → v ≠ .null → ∀ r, pg.binaryVerdict r op v = none := by
    intro hstr hnull r
    rcases hop with ⟨_, _, rfl⟩ | ⟨_, _, rfl⟩ <;> cases r <;> cases v <;>
      first | rfl | exact absurd rfl (hstr _) | exact absurd rfl hnull
  cases value with
  | null =>
    obtain rfl := some.inj hv
    rcases eq_or_ne path [] with rfl | hpath
    · exact iff_of_true (fun _ => rfl) (.inl (Nat.zero_le 1))
    · have hunknown : (some none : Verdict) ≠ none := nofun
      have htext : ∀ t, pg.binaryVerdict (.text t) op .null = some none := by
        intro t
        rcases hop with ⟨_, _, rfl⟩ | ⟨_, _, rfl⟩ <;> rfl
      exact agreeAt_constant_iff pg hpath hunknown htext htext
  | str s =>
    obtain rfl := some.inj hv
    rcases hop with ⟨_, _, rfl⟩ | ⟨_, _, rfl⟩
    · exact same_agrees_iff pg fun _ => rfl
    · exact same_agrees_iff pg fun _ => rfl
  | bool b | num n =>
    obtain rfl := some.inj hv
    refine iff_of_true (fun document => ?_) trivial
    simp only [hnone nofun nofun, bind_fun_none]
  | arr items => cases hv
  | obj entries => cases hv

theorem notLike_verdict (insensitive : Bool) (v : Literal) (r : Read) :
    (pg.binaryVerdict r (.like insensitive false) v).map (Option.map not) =
      pg.binaryVerdict r (.like insensitive true) v := by
  cases r with
  | jsonb document => cases v <;> rfl
  | text t =>
    cases v with
    | str s =>
      cases t with
      | none => rfl
      | some t =>
        show (((pg.like insensitive s t).map (xor false)).map some).map (Option.map not) =
          ((pg.like insensitive s t).map (xor true)).map some
        cases pg.like insensitive s t with
        | none => rfl
        | some b => cases b <;> rfl
    | _ => rfl

/-- `Nlike` is written with NOT around the comparison in one generator, and inside it in the other. -/
theorem like_agree_iff (insensitive negated : Bool) {v : Literal} (hv : scalarLiteral value = some v) :
    (∀ document, pg.verdict document (.binary (wireSource path) (.like insensitive negated) v) =
      pg.verdict document (if negated then .notLike (genericSource path) insensitive v
        else .binary (genericSource path) (.like insensitive false) v)) ↔ patternAlike pg path value := by
  rw [← pattern_agree_iff pg (.inl ⟨insensitive, negated, rfl⟩) hv]
  refine forall_congr' fun document => ?_
  cases negated with
  | false => exact Iff.rfl
  | true =>
    show _ = (pg.read document (genericSource path)).bind _ ↔ _
    simp only [notLike_verdict]
    exact Iff.rfl

/-! ### Whole conditions -/

theorem isNull_agree_iff (negated : Bool) :
    (∀ document, pg.verdict document (.isNull negated (wireSource path)) =
      pg.verdict document (.isNull negated (genericSource path))) ↔ PathAlike pg path := by
  let verdict : Read → Verdict := fun r =>
    some (r.casesOn (fun _ => some negated) fun t => some (xor negated t.isNone))
  have hagree : (∀ document, pg.verdict document (.isNull negated (wireSource path)) =
      pg.verdict document (.isNull negated (genericSource path))) ↔ AgreeAt pg path verdict verdict := by
    refine forall_congr' fun document => ?_
    have hread : ∀ s, pg.verdict document (.isNull negated s) = (pg.read document s).bind verdict := by
      intro s
      rw [Postgres.verdict]
      cases pg.read document s with
      | none => rfl
      | some r => cases r <;> rfl
    rw [hread, hread]
  rw [hagree]
  rcases eq_or_ne path [] with rfl | hpath
  · exact iff_of_true (fun _ => rfl) (.inl (Nat.zero_le 1))
  · have hnull : verdict (.text none) ≠ none := some_ne_none _
    have htold : ∀ t, verdict (.text (some t)) ≠ verdict (.text none) := by
      intro t
      cases negated <;> rintro ⟨⟩
    rw [agreeAt_iff pg hpath hnull htold fun t => (htold t).symm]
    exact and_iff_left fun _ => rfl

/-- The array operators: the key before it takes the cast. -/
theorem json_agree (op : JsonOp) (v : Literal) (document : Json) :
    pg.verdict document (.binary (wireSource path) (.json op) v) =
      pg.verdict document (.jsonb (genericSource path) op v) := by
  rcases eq_or_ne path [] with rfl | hpath
  · rfl
  · show (pg.read document (wireSource path)).bind _ = (pg.read document (genericSource path)).bind _
    rw [wire_rejected pg hpath (fun _ => rfl), generic_read pg hpath]
    rfl

theorem wirePredicate_scalar (s : Source) (kind : Kind) (value : Json) (hlist : ∀ negated, kind ≠ .membership negated)
    (hjson : ∀ op, kind ≠ .json op) (hnull : kind ≠ .isNull) : wirePredicate s kind value =
      (scalarLiteral value).map fun v => .binary s kind.operator (kind.withWildcards v) := by
  cases kind with
  | membership negated => exact absurd rfl (hlist negated)
  | json op => exact absurd rfl (hjson op)
  | isNull => exact absurd rfl hnull
  | _ => cases value <;> rfl

/-- A condition is worth the same in both generators on every document exactly when it is written and read alike. -/
theorem field_agree_iff {kind : Kind} {p : Predicate} {F : Formula Predicate}
    (hp : wirePredicate (wireSource path) kind value = some p)
    (hF : genericFormula (genericSource path) kind value = some F) :
    (∀ document, pg.verdict document p = verdictOf (pg.verdict document) F) ↔ kindAlike pg path kind value := by
  cases kind with
  | compare op =>
    rw [wirePredicate_scalar _ (.compare op) _ nofun nofun nofun] at hp
    obtain ⟨v, hv, rfl⟩ := map_eq_some_iff.mp hp
    obtain rfl := some.inj hF
    exact compare_agree_iff pg op hv
  | membership negated =>
    cases value with
    | arr items =>
      obtain ⟨vs, hvs, rfl⟩ := map_eq_some_iff.mp hp
      exact membership_agree_iff pg hvs hF
    | _ => cases hp
  | wildcards insensitive before after =>
    cases value with
    | str s =>
      obtain rfl := some.inj hp
      obtain rfl := some.inj hF
      refine Iff.trans ?_ (wildcards_agree_iff pg insensitive before after s.toList)
      rw [← escapeLikeLiteral_toList]
      exact Iff.rfl
    | _ => cases hF
  | like insensitive negated =>
    rw [wirePredicate_scalar _ (.like insensitive negated) _ nofun nofun nofun] at hp
    obtain ⟨v, hv, rfl⟩ := map_eq_some_iff.mp hp
    obtain rfl := some.inj hF
    rw [literalOf_scalar hv]
    exact like_agree_iff pg insensitive negated hv
  | regex insensitive negated =>
    rw [wirePredicate_scalar _ (.regex insensitive negated) _ nofun nofun nofun] at hp
    obtain ⟨v, hv, rfl⟩ := map_eq_some_iff.mp hp
    obtain rfl := some.inj hF
    rw [literalOf_scalar hv]
    exact pattern_agree_iff pg (.inr ⟨insensitive, negated, rfl⟩) hv
  | json op =>
    obtain rfl := some.inj hF
    have hliteral : p = .binary (wireSource path) (.json op) (literalOf value) := by
      cases value with
      | obj entries => cases hp
      | _ => exact (some.inj hp).symm
    rw [hliteral]
    exact iff_of_true (json_agree pg op _) trivial
  | isNull =>
    obtain rfl := some.inj hp
    obtain rfl := some.inj hF
    exact isNull_agree_iff pg _

end

end FraiseQL.WherePredicates
