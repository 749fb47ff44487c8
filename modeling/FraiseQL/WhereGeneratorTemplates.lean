import FraiseQL.SqlBoolean
import FraiseQL.WhereGenerator

/-! The templates of the generator, checked. Every template meets each of its holes between two tokens, uses
the values of its condition in order and closes its parentheses; none but that of `IsLoopback` has an AND or
an OR outside all parentheses. Templates of fixed text are checked by evaluation, one family at a time and in
every mode of every database; those over a list of values by induction on the list. -/

namespace FraiseQL.WhereGenerator

open SqlLex SqlBoolean Dialect List

/-! ### What is checked -/

def fragChunk (r : Rules) : Frag → Chunk
  | .text cs => Chunk.ofText r cs
  | .hole _ => ⟨[], [], false, false⟩

def fragTokens (r : Rules) : Frag → List Token
  | .text cs => lex r cs
  | .hole _ => []

def fragSettles (r : Rules) : Frag → Bool
  | .text cs => settlesText r cs
  | .hole _ => true

/-- The values a template has placeholders for, in order. -/
def holes (t : Template) : List Nat :=
  t.filterMap fun
    | .hole (.param i) => some i
    | _ => none

/-- The text of the template has no placeholder. -/
def mute (r : Rules) (t : Template) : Bool := (t.flatMap (fragTokens r)).all fun tok => !tok.isPlaceholder

/-- The template meets each hole between two tokens, uses its `n` values in order and has no other
placeholder, and closes its parentheses. -/
def wellFormed (r : Rules) (n : Nat) (t : Template) : Bool :=
  t.all (fragSettles r) && linked true (t.map (fragChunk r)) && decide (holes t = List.range n) && mute r t &&
    decide (depth (t.flatMap (fragTokens r)) 0 = some 0)

/-- Neither an AND nor an OR. -/
def isInner (t : Token) : Bool := !isOr t && !isAnd t

/-- No AND and no OR outside all parentheses. -/
def quiet (r : Rules) (t : Template) : Bool := (outer 0 (t.flatMap (fragTokens r))).all isInner

def checked (r : Rules) (n : Nat) (t : Template) : Bool := wellFormed r n t && quiet r t

/-- The lexers: MySQL has two modes. -/
def modes : List (Bool × Dialect) :=
  [(false, .postgres), (false, .mysql), (true, .mysql), (false, .sqlite), (false, .sqlserver)]

/-- A check in every mode is a check under the rules of every dialect. -/
theorem of_modes {P : Rules → Dialect → Bool} (h : (modes.all fun m => P (rules m.1 m.2) m.2) = true)
    (b : Bool) (d : Dialect) : P (rules b d) d = true := by
  simp only [modes, all_cons, all_nil, Bool.and_true, Bool.and_eq_true] at h
  obtain ⟨hpostgres, hmysql, hdefault, hsqlite, hsqlserver⟩ := h
  cases d with
  | postgres => exact hpostgres
  | mysql =>
    cases b with
    | false => exact hmysql
    | true => exact hdefault
  | sqlite => exact hsqlite
  | sqlserver => exact hsqlserver

/-- Whatever the condition binds, its template is checked for it. -/
def Sound (r : Rules) (result : Except FraiseQLError Binding) : Prop :=
  ∀ values t, result = .ok (values, t) → checked r values.length t = true

variable {r : Rules} {t : Template}

theorem sound_ok {values : List Json} (h : checked r values.length t = true) : Sound r (.ok (values, t)) := by
  rintro _ _ ⟨⟩
  exact h

theorem sound_error (e : FraiseQLError) : Sound r (.error e) := fun _ _ h => nomatch h

theorem sound_bind {α : Type} {x : Except FraiseQLError α} {f : α → Except FraiseQLError Binding}
    (h : ∀ a, Sound r (f a)) : Sound r (x >>= f) := by
  cases x with
  | error e => exact sound_error e
  | ok a => exact h a

/-- The check of a template a dialect may not have. -/
def checkedIfOk (r : Rules) (n : Nat) : Except FraiseQLError Template → Bool
  | .ok t => checked r n t
  | .error _ => true

theorem sound_map (values : List Json) {result : Except FraiseQLError Template}
    (h : checkedIfOk r values.length result = true) : Sound r (result.map (values, ·)) := by
  cases result with
  | error e => exact sound_error e
  | ok t => exact sound_ok h

/-! ### Fixed templates -/

section Fixed

variable (b : Bool) (d : Dialect) (value : Json)

/-- The comparison operators, with their blanks. -/
def comparisons (d : Dialect) : List Template :=
  [txt " = ", neqOperator d, txt " > ", txt " >= ", txt " < ", txt " <= "]

variable {op : Template}

theorem comparison_checked (hop : op ∈ comparisons d) :
    checked (rules b d) 1 (castToNumeric lhs d ++ op ++ castParamNumeric p d) = true ∧
      checked (rules b d) 1 (castToBoolean lhs d ++ op ++ p) = true ∧
      checked (rules b d) 1 (lhs ++ op ++ p) = true ∧
      checked (rules b d) 1 (jsonArrayLength lhs d ++ op ++ p) = true := by
  have hall := of_modes (P := fun r d => (comparisons d).all fun op =>
    checked r 1 (castToNumeric lhs d ++ op ++ castParamNumeric p d) &&
      (checked r 1 (castToBoolean lhs d ++ op ++ p) &&
        (checked r 1 (lhs ++ op ++ p) && checked r 1 (jsonArrayLength lhs d ++ op ++ p))))
    (by decide +kernel) b d
  simpa only [Bool.and_eq_true] using all_eq_true.mp hall op hop

theorem equality_sound (hop : op ∈ comparisons d) : Sound (rules b d) (.ok ([value], equality op value d)) := by
  obtain ⟨hnumeric, hboolean, hplain, _⟩ := comparison_checked b d hop
  apply sound_ok
  cases value with
  | num n => exact hnumeric
  | bool c => exact hboolean
  | _ => exact hplain

theorem ordering_sound (hop : op ∈ comparisons d) : Sound (rules b d) (.ok (ordering op value d)) :=
  sound_ok (comparison_checked b d hop).1

theorem lengthOf_sound (hop : op ∈ comparisons d) : Sound (rules b d) (.ok (lengthOf op value d)) :=
  sound_ok (comparison_checked b d hop).2.2.2

/-- What the value of a pattern operator is concatenated with. -/
def patternParts : List (List Template) := [[txt "'%'", p, txt "'%'"], [p, txt "'%'"], [txt "'%'", p]]

theorem patternMatch_sound {like : Template → Template → Dialect → Template} {parts : List Template}
    (name : String) (hlike : like = likeSql ∨ like = ilikeSql) (hparts : parts ∈ patternParts) :
    Sound (rules b d) (patternMatch name like parts value d) := by
  have hall := of_modes (P := fun r d => patternParts.all fun parts =>
    checked r 1 (likeSql lhs (concatSql parts d) d) && checked r 1 (ilikeSql lhs (concatSql parts d) d))
    (by decide +kernel) b d
  have hboth := all_eq_true.mp hall parts hparts
  rw [Bool.and_eq_true] at hboth
  rw [patternMatch]
  cases requireStr value name with
  | error e => exact sound_error e
  | ok s =>
    rcases hlike with rfl | rfl
    · exact sound_ok hboth.1
    · exact sound_ok hboth.2

theorem like_checked : checked (rules b d) 1 (likeSql lhs p d) = true ∧
    checked (rules b d) 1 (ilikeSql lhs p d) = true ∧
    checked (rules b d) 1 (txt "NOT (" ++ likeSql lhs p d ++ txt ")") = true ∧
    checked (rules b d) 1 (txt "NOT (" ++ ilikeSql lhs p d ++ txt ")") = true := by
  have hall := of_modes (P := fun r d => checked r 1 (likeSql lhs p d) && (checked r 1 (ilikeSql lhs p d) &&
    (checked r 1 (txt "NOT (" ++ likeSql lhs p d ++ txt ")") &&
      checked r 1 (txt "NOT (" ++ ilikeSql lhs p d ++ txt ")")))) (by decide +kernel) b d
  simpa only [Bool.and_eq_true] using hall

theorem regexMatch_sound (caseInsensitive negate : Bool) :
    Sound (rules b d) (regexMatch caseInsensitive negate value d) := by
  have hall := of_modes (P := fun r d => [(false, false), (true, false), (false, true), (true, true)].all fun m =>
    checkedIfOk r 1 (regexSql lhs p m.1 m.2 d)) (by decide +kernel) b d
  have hregex : checkedIfOk (rules b d) 1 (regexSql lhs p caseInsensitive negate d) = true := by
    apply all_eq_true.mp hall (caseInsensitive, negate)
    revert caseInsensitive negate
    decide
  have hrest : Sound (rules b d) (regexSql lhs p caseInsensitive negate d >>= fun t => pure ([value], t)) :=
    sound_map [value] hregex
  rw [regexMatch]
  cases value.asStr? with
  | none => exact hrest
  | some s => exact sound_bind fun _ => hrest

/-- The operators of one value that are left to the dialect. -/
def dialectOperators : List (Dialect → Except FraiseQLError Template) :=
  [arrayContainsSql lhs p, arrayContainedBySql lhs p, arrayOverlapsSql lhs p, ftsMatchesSql lhs p,
    ftsPlainQuerySql lhs p, ftsPhraseQuerySql lhs p, ftsWebsearchQuerySql lhs p,
    vectorDistanceSql (txt " <=> ") lhs p, vectorDistanceSql (txt " <-> ") lhs p,
    vectorDistanceSql (txt " <+> ") lhs p, vectorDistanceSql (txt " <~> ") lhs p,
    vectorDistanceSql (txt " <#> ") lhs p, jaccardDistanceSql lhs p, inetBinarySql (txt " << ") lhs p,
    inetBinarySql (txt " >> ") lhs p, inetBinarySql (txt " && ") lhs p,
    ltreeBinarySql (txt " @> ") lhs p (txt "::ltree"), ltreeBinarySql (txt " <@ ") lhs p (txt "::ltree"),
    ltreeBinarySql (txt " ~ ") lhs p (txt "::lquery"), ltreeBinarySql (txt " @ ") lhs p (txt "::ltxtquery"),
    ltreeDepthSql (txt " = ") lhs p, ltreeDepthSql (txt " != ") lhs p, ltreeDepthSql (txt " > ") lhs p,
    ltreeDepthSql (txt " >= ") lhs p, ltreeDepthSql (txt " < ") lhs p, ltreeDepthSql (txt " <= ") lhs p]

theorem binary_sound {sql : Dialect → Except FraiseQLError Template} (hsql : sql ∈ dialectOperators) :
    Sound (rules b d) (binary sql value d) := by
  have hall := of_modes (P := fun r d => dialectOperators.all fun sql => checkedIfOk r 1 (sql d))
    (by decide +kernel) b d
  exact sound_map [value] (all_eq_true.mp hall sql hsql)

theorem inetCheck_sound {check : InetCheck} (hcheck : check ≠ .isLoopback) :
    Sound (rules b d) ((inetCheckSql lhs check d).map ([], ·)) := by
  have hall := of_modes (P := fun r d => [InetCheck.isIPv4, .isIPv6, .isPrivate, .isPublic].all fun check =>
    checkedIfOk r 0 (inetCheckSql lhs check d)) (by decide +kernel) b d
  apply sound_map []
  apply all_eq_true.mp hall check
  cases check with
  | isLoopback => exact absurd rfl hcheck
  | _ => decide

theorem isNull_checked : checked (rules b d) 0 (lhs ++ txt " IS NULL") = true ∧
    checked (rules b d) 0 (lhs ++ txt " IS NOT NULL") = true := by
  have hall := of_modes (P := fun r _ => checked r 0 (lhs ++ txt " IS NULL") &&
    checked r 0 (lhs ++ txt " IS NOT NULL")) (by decide +kernel) b d
  simpa only [Bool.and_eq_true] using hall

theorem constant_checked : checked (rules b d) 0 (alwaysTrue d) = true ∧
    checked (rules b d) 0 (alwaysFalse d) = true := by
  have hall := of_modes (P := fun r d => checked r 0 (alwaysTrue d) && checked r 0 (alwaysFalse d))
    (by decide +kernel) b d
  simpa only [Bool.and_eq_true] using hall

end Fixed

/-! ### Templates over a list of values -/

theorem wellFormed_iff {n : Nat} : wellFormed r n t = true ↔
    t.all (fragSettles r) = true ∧ linked true (t.map (fragChunk r)) = true ∧ holes t = List.range n ∧
      mute r t = true ∧ depth (t.flatMap (fragTokens r)) 0 = some 0 := by
  simp only [wellFormed, Bool.and_eq_true, decide_eq_true_eq, and_assoc]

theorem checked_iff {n : Nat} : checked r n t = true ↔ wellFormed r n t = true ∧ quiet r t = true := by
  rw [checked, Bool.and_eq_true]

/-- The separator of a list. -/
def comma : Template := txt ", "

def listed (cast : Template) (n : Nat) : Template := joinWith comma ((placeholders n).map (· ++ cast))

theorem placeholders_map_nil (n : Nat) : (placeholders n).map (· ++ ([] : Template)) = placeholders n := by
  simp

/-- Text that may stand between the placeholders. -/
def between (r : Rules) (t : Template) : Bool :=
  t.all (fragSettles r) && decide (holes t = []) && mute r t &&
    (t.flatMap (fragTokens r)).all fun tok => !isParen tok && isInner tok

theorem joinWith_cons_cons (sep t u : Template) (ts : List Template) :
    joinWith sep (t :: u :: ts) = t ++ sep ++ joinWith sep (u :: ts) := rfl

section Listed

variable {r : Rules}

theorem holes_append (t u : Template) : holes (t ++ u) = holes t ++ holes u := filterMap_append ..

variable {sep : Template}

theorem holes_joinWith (hsep : holes sep = []) (ts : List Template) : holes (joinWith sep ts) = ts.flatMap holes := by
  induction ts with
  | nil => rfl
  | cons t ts ih =>
    cases ts with
    | nil => simp [joinWith]
    | cons u us =>
      rw [joinWith_cons_cons, holes_append, holes_append, hsep, append_nil, ih]
      rfl

theorem mem_joinWith {ts : List Template} {f : Frag} (h : f ∈ joinWith sep ts) : f ∈ sep ∨ ∃ t ∈ ts, f ∈ t := by
  induction ts with
  | nil => cases h
  | cons t ts ih =>
    cases ts with
    | nil => exact .inr ⟨t, mem_cons_self .., h⟩
    | cons u us =>
      rw [joinWith_cons_cons, mem_append, mem_append] at h
      rcases h with (h | h) | h
      · exact .inr ⟨t, mem_cons_self .., h⟩
      · exact .inl h
      · rcases ih h with h | ⟨w, hw, h⟩
        · exact .inl h
        · exact .inr ⟨w, mem_cons_of_mem _ hw, h⟩

variable {cast : Template}

/-- What a list may be made of: a comma or a part of the cast that may stand between placeholders, or a
placeholder. -/
theorem mem_listed {n : Nat} {f : Frag} (h : f ∈ listed cast n) : f ∈ comma ∨ f ∈ cast ∨ ∃ i, f = .hole (.param i) := by
  rcases mem_joinWith h with h | ⟨t, ht, h⟩
  · exact .inl h
  · obtain ⟨u, hu, rfl⟩ := mem_map.mp ht
    obtain ⟨i, _, rfl⟩ := mem_map.mp hu
    rcases mem_append.mp h with h | h
    · exact .inr (.inr ⟨i, mem_singleton.mp h⟩)
    · exact .inr (.inl h)

theorem holes_listed (hcast : holes cast = []) (n : Nat) : holes (listed cast n) = List.range n := by
  have hcomma : holes comma = [] := rfl
  rw [listed, holes_joinWith hcomma, placeholders, map_map, flatMap_map]
  have hone : ∀ i : Nat, holes (((fun t : Template => t ++ cast) ∘ fun i => [.hole (.param i)]) i) = [i] := by
    intro i
    show holes ([.hole (.param i)] ++ cast) = [i]
    rw [holes_append, hcast]
    rfl
  simp only [hone]
  exact flatMap_singleton' _

theorem linked_joinWith
    (hsep : ∀ b, linked b (sep.map (fragChunk r)) = true ∧ freshAfter b (sep.map (fragChunk r)) = true)
    {ts : List Template} (hts : ∀ t ∈ ts, linked true (t.map (fragChunk r)) = true) :
    linked true ((joinWith sep ts).map (fragChunk r)) = true := by
  induction ts with
  | nil => rfl
  | cons t ts ih =>
    have ht := hts t (mem_cons_self ..)
    have hrest := ih fun u hu => hts u (mem_cons_of_mem _ hu)
    cases ts with
    | nil => exact ht
    | cons u us =>
      rw [joinWith_cons_cons, map_append, map_append, linked_append,
        linked_append, freshAfter_append, ht, (hsep _).1, (hsep _).2, hrest]
      rfl

/-- A template around a list of values. The list may be empty. -/
def framed (r : Rules) (start cast stop : Template) : Bool :=
  checked r 0 (start ++ stop) && freshAfter true (start.map (fragChunk r)) &&
    linked false (stop.map (fragChunk r)) && linked false (cast.map (fragChunk r)) && between r cast &&
    between r comma && linked false (comma.map (fragChunk r)) && freshAfter false (comma.map (fragChunk r))

/-- Text that can follow an unfinished token can follow a finished one. -/
theorem linked_true {cs : List Chunk} (h : linked false cs = true) : linked true cs = true := by
  cases cs with
  | nil => rfl
  | cons c cs =>
    rw [linked, Bool.and_eq_true] at h ⊢
    exact ⟨rfl, h.2⟩

theorem listed_checked {start stop : Template} (h : framed r start cast stop = true) (n : Nat) :
    checked r n (start ++ (listed cast n ++ stop)) = true := by
  simp only [framed, Bool.and_eq_true] at h
  obtain ⟨⟨⟨⟨⟨⟨⟨hframe, hstart⟩, hstop⟩, hcast⟩, hcastText⟩, hcommaText⟩, hcomma⟩, hcommaFresh⟩ := h
  have hends : ∀ b, linked b (stop.map (fragChunk r)) = true := by
    intro b
    cases b with
    | false => exact hstop
    | true => exact linked_true hstop
  have hsep : ∀ b, linked b (comma.map (fragChunk r)) = true ∧
      freshAfter b (comma.map (fragChunk r)) = true := by
    intro b
    cases b with
    | false => exact ⟨hcomma, hcommaFresh⟩
    | true => exact ⟨linked_true hcomma, hcommaFresh⟩
  simp only [between, Bool.and_eq_true, decide_eq_true_eq, all_eq_true, Bool.not_eq_true',
    mem_flatMap] at hcastText hcommaText
  -- the list adds no parenthesis and no connective
  have hinner : ∀ tok ∈ (listed cast n).flatMap (fragTokens r), isParen tok = false ∧ isInner tok = true := by
    intro tok htok
    obtain ⟨f, hf, htok⟩ := mem_flatMap.mp htok
    rcases mem_listed hf with hf | hf | ⟨i, rfl⟩
    · exact hcommaText.2 tok ⟨f, hf, htok⟩
    · exact hcastText.2 tok ⟨f, hf, htok⟩
    · cases htok
  have hsettles : (listed cast n).all (fragSettles r) = true := by
    rw [all_eq_true]
    intro f hf
    rcases mem_listed hf with hf | hf | ⟨i, rfl⟩
    · exact hcommaText.1.1.1 f hf
    · exact hcastText.1.1.1 f hf
    · rfl
  have hmute : mute r (listed cast n) = true := by
    rw [mute, all_eq_true]
    intro tok htok
    obtain ⟨f, hf, htok⟩ := mem_flatMap.mp htok
    rcases mem_listed hf with hf | hf | ⟨i, rfl⟩
    · exact all_eq_true.mp hcommaText.1.2 tok (mem_flatMap.mpr ⟨f, hf, htok⟩)
    · exact all_eq_true.mp hcastText.1.2 tok (mem_flatMap.mpr ⟨f, hf, htok⟩)
    · cases htok
  have hlinked : linked true ((listed cast n).map (fragChunk r)) = true := by
    apply linked_joinWith hsep
    intro t ht
    obtain ⟨u, hu, rfl⟩ := mem_map.mp ht
    obtain ⟨i, _, rfl⟩ := mem_map.mp hu
    exact hcast
  have hdepth := depth_of_noParen (fun tok htok => (hinner tok htok).1) 0
  rw [checked_iff, wellFormed_iff] at hframe ⊢
  obtain ⟨⟨hall, hlink, hholes, hmuteFrame, hclosed⟩, hquiet⟩ := hframe
  rw [all_append, Bool.and_eq_true] at hall
  rw [map_append, linked_append, Bool.and_eq_true] at hlink
  rw [holes_append] at hholes
  obtain ⟨hstartHoles, hstopHoles⟩ := append_eq_nil_iff.mp hholes
  rw [flatMap_append] at hclosed
  rw [mute, flatMap_append, all_append, Bool.and_eq_true] at hmuteFrame
  refine ⟨⟨?_, ?_, ?_, ?_, ?_⟩, ?_⟩
  · rw [all_append, all_append, hall.1, hsettles, hall.2]
    rfl
  · rw [map_append, map_append, linked_append, linked_append, hlink.1, hstart, hlinked, hends]
    rfl
  · rw [holes_append, holes_append, hstartHoles, hstopHoles, holes_listed hcastText.1.1.2, append_nil]
    rfl
  · rw [mute] at hmute ⊢
    rw [flatMap_append, flatMap_append, all_append, all_append, hmuteFrame.1, hmute,
      hmuteFrame.2]
    rfl
  · rw [flatMap_append, flatMap_append, depth_insert hdepth]
    exact hclosed
  · rw [quiet, all_eq_true] at hquiet ⊢
    intro tok htok
    rw [flatMap_append, flatMap_append] at htok
    rw [flatMap_append] at hquiet
    have hopen : (depth (start.flatMap (fragTokens r)) 0).isSome := by
      rw [depth_append] at hclosed
      obtain ⟨k, hk, _⟩ := Option.bind_eq_some_iff.mp hclosed
      rw [hk]
      rfl
    rcases mem_outer_insert hdepth hopen htok with htok | htok
    · exact hquiet tok htok
    · exact (hinner tok (mem_of_mem_outer htok)).2

end Listed

/-! ### Every condition -/

section Conditions

variable (b : Bool) (d : Dialect) (value : Json)

theorem membership_sound (negate : Bool) : Sound (rules b d) (membership negate value d) := by
  have hall := of_modes (P := fun r _ => framed r (lhs ++ txt " IN (") [] (txt ")") &&
    framed r (txt "NOT (" ++ (lhs ++ txt " IN (")) [] (txt ")" ++ txt ")")) (by decide +kernel) b d
  rw [Bool.and_eq_true] at hall
  obtain ⟨htrue, hfalse⟩ := constant_checked b d
  rw [membership]
  apply sound_bind
  intro items
  cases items with
  | nil =>
    cases negate with
    | false => exact sound_ok hfalse
    | true => exact sound_ok htrue
  | cons item items =>
    apply sound_ok
    cases negate with
    | false =>
      have h := listed_checked hall.1 (item :: items).length
      rw [listed, placeholders_map_nil, ← append_assoc] at h
      exact h
    | true =>
      have h := listed_checked hall.2 (item :: items).length
      rw [listed, placeholders_map_nil] at h
      simpa only [comma, append_assoc, if_true] using h

theorem overItems_sound {notArray empty : String} {cast : Template}
    {sql : List Template → Dialect → Except FraiseQLError Template}
    (hsql : ∀ n, checkedIfOk (rules b d) n (sql ((placeholders n).map (· ++ cast)) d) = true) :
    Sound (rules b d) (overItems notArray empty cast sql value d) := by
  rw [overItems]
  apply sound_bind
  intro items
  cases items with
  | nil => exact sound_error _
  | cons item items => exact sound_map (item :: items) (hsql (item :: items).length)

theorem matchesAnyLquery_checked (n : Nat) : checkedIfOk (rules b d) n
    (ltreeAnyLquerySql lhs ((placeholders n).map (· ++ txt "::lquery")) d) = true := by
  cases d with
  | postgres =>
    have hframed : framed (rules b .postgres) (lhs ++ txt "::ltree ? ARRAY[") (txt "::lquery") (txt "]")
        = true := by
      revert b
      decide +kernel
    have h := listed_checked hframed n
    rw [← append_assoc] at h
    exact h
  | _ => rfl

theorem lca_checked (n : Nat) : checkedIfOk (rules b d) n
    (ltreeLcaSql lhs ((placeholders n).map (· ++ txt "::ltree")) d) = true := by
  cases d with
  | postgres =>
    have hframed : framed (rules b .postgres) (lhs ++ txt "::ltree = lca(ARRAY[") (txt "::ltree") (txt "])")
        = true := by
      revert b
      decide +kernel
    have h := listed_checked hframed n
    rw [← append_assoc] at h
    exact h
  | _ => rfl

theorem generateExtendedSql_sound (op : ExtendedOperator) : Sound (rules b d) (generateExtendedSql op d) := by
  cases d with
  | postgres =>
    have hfixed : ∀ b, ([txt "SPLIT_PART(" ++ lhs ++ txt ", '@', 2) = " ++ p,
        txt "SPLIT_PART(" ++ lhs ++ txt ", '@', 2) LIKE '%' || " ++ p,
        txt "SPLIT_PART(" ++ lhs ++ txt ", '@', 1) LIKE " ++ p ++ txt " || '%'",
        txt "SUBSTRING(" ++ lhs ++ txt " FROM 1 FOR 3) = " ++ p,
        txt "SUBSTRING(" ++ lhs ++ txt " FROM 1 FOR 2) = " ++ p].all (checked (rules b .postgres) 1)) = true := by
      decide +kernel
    have hframed : ∀ b, framed (rules b .postgres) (txt "SPLIT_PART(" ++ lhs ++ txt ", '@', 2) IN (") []
        (txt ")") = true := by
      decide +kernel
    have hone := all_eq_true.mp (hfixed b)
    cases op with
    | emailDomainEq domain => exact sound_ok (hone _ (by simp))
    | emailDomainIn domains =>
      apply sound_ok
      have h := listed_checked (hframed b) domains.length
      rw [listed, placeholders_map_nil, ← append_assoc] at h
      rw [length_map]
      exact h
    | emailDomainEndswith suffix => exact sound_ok (hone _ (by simp))
    | emailLocalPartStartswith start => exact sound_ok (hone _ (by simp))
    | vinWmiEq wmi => exact sound_ok (hone _ (by simp))
    | ibanCountryEq country => exact sound_ok (hone _ (by simp))
    | other display => exact sound_error _
  | _ => exact sound_error _

/-- Every condition but the loopback check is rendered by a checked template. -/
theorem conditionOf_sound {op : WhereOperator} (hop : op ≠ .isLoopback) :
    Sound (rules b d) (conditionOf op value d) := by
  obtain ⟨hlike, hilike, hnlike, hnilike⟩ := like_checked b d
  cases op with
  | eq | neq => exact equality_sound b d value (by simp [comparisons])
  | gt | gte | lt | lte => exact ordering_sound b d value (by simp [comparisons])
  | isIn => exact membership_sound b d value false
  | nin => exact membership_sound b d value true
  | isNull =>
    apply sound_ok
    show checked (rules b d) 0 _ = true
    split_ifs
    · exact (isNull_checked b d).1
    · exact (isNull_checked b d).2
  | contains => exact patternMatch_sound b d value _ (.inl rfl) (by simp [patternParts])
  | icontains => exact patternMatch_sound b d value _ (.inr rfl) (by simp [patternParts])
  | startswith => exact patternMatch_sound b d value _ (.inl rfl) (by simp [patternParts])
  | istartswith => exact patternMatch_sound b d value _ (.inr rfl) (by simp [patternParts])
  | endswith => exact patternMatch_sound b d value _ (.inl rfl) (by simp [patternParts])
  | iendswith => exact patternMatch_sound b d value _ (.inr rfl) (by simp [patternParts])
  | like => exact sound_ok hlike
  | ilike => exact sound_ok hilike
  | nlike => exact sound_ok hnlike
  | nilike => exact sound_ok hnilike
  | regex => exact regexMatch_sound b d value false false
  | iregex => exact regexMatch_sound b d value true false
  | nregex => exact regexMatch_sound b d value false true
  | niregex => exact regexMatch_sound b d value true true
  | lenEq | lenNeq | lenGt | lenGte | lenLt | lenLte => exact lengthOf_sound b d value (by simp [comparisons])
  | isIPv4 => exact inetCheck_sound b d (by decide)
  | isIPv6 => exact inetCheck_sound b d (by decide)
  | isPrivate => exact inetCheck_sound b d (by decide)
  | isPublic => exact inetCheck_sound b d (by decide)
  | isLoopback => exact absurd rfl hop
  | matchesAnyLquery => exact overItems_sound b d value (matchesAnyLquery_checked b d)
  | lca => exact overItems_sound b d value (lca_checked b d)
  | extended op => exact generateExtendedSql_sound b d op
  | _ => exact binary_sound b d value (by simp [dialectOperators])

/-- The template of the loopback check is well formed, with its OR outside all parentheses. -/
theorem isLoopback_wellFormed {values : List Json} {t : Template}
    (h : conditionOf .isLoopback value d = .ok (values, t)) :
    wellFormed (rules b d) values.length t = true ∧
      (outer 0 (t.flatMap (fragTokens (rules b d)))).any isOr = true := by
  cases d with
  | postgres =>
    cases h
    revert b
    decide +kernel
  | _ => cases h

theorem conditionOf_wellFormed {op : WhereOperator} {values : List Json} {t : Template}
    (h : conditionOf op value d = .ok (values, t)) : wellFormed (rules b d) values.length t = true := by
  by_cases hop : op = .isLoopback
  · subst hop
    exact (isLoopback_wellFormed b d value h).1
  · exact (checked_iff.mp (conditionOf_sound b d value hop values t h)).1

/-- The right side of a condition on a native column. -/
def nativeRhs (d : Dialect) (pgCast : PgCast) : Template :=
  if pgCast = .none then p else castNativeParam p d pgCast

theorem native_checked (pgCast : PgCast) {op : Template} (hop : op ∈ comparisons d) :
    checked (rules b d) 1 (lhs ++ op ++ nativeRhs d pgCast) = true := by
  have hall := of_modes (P := fun r d => [PgCast.none, .uuid, .int4, .int8, .int2, .bool, .numeric, .float8,
    .float4, .timestamp, .timestamptz, .date, .time].all fun pgCast => (comparisons d).all fun op =>
      checked r 1 (lhs ++ op ++ nativeRhs d pgCast)) (by decide +kernel) b d
  have hcast := all_eq_true.mp hall pgCast (by cases pgCast <;> decide)
  exact all_eq_true.mp hcast op hop

end Conditions

end FraiseQL.WhereGenerator
