import FraiseQL.RestGetPage
import Mathlib.Data.Seq.Basic

/-! Streaming a GET request as NDJSON (`rest/streaming.rs`): batches are fetched until one is shorter than the batch
size. The limit and the offset of a batch are put into the variables, which direct execution does not read, so every
batch asks for the same page. -/

namespace FraiseQL.Rest

open PageWindow RestHandler List

/-! ### The request -/

/-- `PreferHeader`, as a stream reads it. -/
structure CountPreference where
  countExact : Bool
  countPlanned : Bool
  countEstimated : Bool

def noPagination : RestError := .badRequest "pagination not available for streaming; use filters to narrow results"

def validateNdjsonRequest (prefer : CountPreference) (pagination : PaginationParams) : Except RestError Unit :=
  if prefer.countExact || prefer.countPlanned || prefer.countEstimated then
    .error (.badRequest "count not available for streaming responses")
  else
    match pagination with
    | .offset _ offset => if 0 < offset then .error noPagination else .ok ()
    | .cursor _ _ _ _ => .error noPagination
    | .none => .ok ()

/-! ### Batches -/

/-- A line of the stream. -/
inductive NdjsonLine where
  | row (value : Json)
  | error (message : String)

namespace NdjsonLine

/-- The bytes of a line (`serde_json::to_vec`, `error_ndjson_line`). -/
def text : NdjsonLine → String
  | .row value => value.text ++ "\n"
  | .error message => "\x7b\"error\":" ++ Json.quote message ++ "\x7d\n"

end NdjsonLine

/-- `StreamState`, as far as it changes. -/
structure StreamState where
  offset : Nat
  done : Bool

def extractRows (result : Json) (queryName : String) : Except RestError (List Json) :=
  match (result.get? "data").bind fun data => data.get? queryName with
  | none => .error (.internal "Missing data in query result")
  | some (.arr rows) => .ok rows
  | some row => .ok [row]

namespace RestHandler

variable (h : RestHandler) (q : ResolvedGetQuery) (ctx : Option SecurityContext)

def batchSize : Nat := max h.config.ndjsonBatchSize 1

def batchVariables (state : StreamState) : List (String × Json) :=
  let limited := insertEntry "limit" (.ofNat h.batchSize) q.queryVariables
  if 0 < state.offset then insertEntry "offset" (.ofNat state.offset) limited else limited

/-- The rows of a batch, or the message of an error. -/
def fetchRows (state : StreamState) : Except String (List Json) := do
  let result ← (h.queryDirect q.queryMatch (h.batchVariables q state) ctx).outcome.mapError errorText
  (extractRows result q.queryName).mapError RestError.message

/-- `fetch_and_serialize_batch`, with the end of the stream where it returns no bytes; a row always has a text. -/
def fetchAndSerializeBatch (state : StreamState) : Option (List NdjsonLine × StreamState) :=
  match h.fetchRows q ctx state with
  | .error message => some ([.error message], { state with done := true })
  | .ok [] => none
  | .ok (row :: rows) =>
    let lines := (row :: rows).map NdjsonLine.row
    if (row :: rows).length < h.batchSize then some (lines, { state with done := true })
    else some (lines, { state with offset := state.offset + h.batchSize })

/-- One step of the stream. -/
def nextBatch (state : StreamState) : Option (List NdjsonLine × StreamState) :=
  if state.done then none else h.fetchAndSerializeBatch q ctx state

/-- `handle_ndjson_get`: the batches of a resolved query. -/
def ndjsonStream : Stream'.Seq (List NdjsonLine) := Stream'.Seq.corec (h.nextBatch q ctx) ⟨0, false⟩

/-! ### The result of a query -/

def shownRow (row : Json) : Json :=
  (ResultProjector.ofMatch h.executor.parseJson (extractProjectionFields q.queryMatch) q.queryMatch).project row

/-- The rows of a query: all of its result, or of a single resource the first. -/
def queryRows (whole : List Json) : List Json :=
  if q.queryMatch.queryDef.returnsList then whole else whole.take 1

/-- The stream ends, and its lines are the rows of the query, each once and in order. -/
def StreamedOnce (whole : List Json) : Prop :=
  ∃ batches : List (List NdjsonLine), h.ndjsonStream q ctx = Stream'.Seq.ofList batches ∧
    batches.flatten = (queryRows q whole).map fun row => .row (h.shownRow q row)

/-! ### Runs of the stream -/

variable {h q ctx}

/-- An error is the last line of the stream. -/
theorem ndjsonStream_error {message : String} (hfetch : h.fetchRows q ctx ⟨0, false⟩ = .error message) :
    h.ndjsonStream q ctx = Stream'.Seq.ofList [[.error message]] := by
  have hnext : h.nextBatch q ctx ⟨0, false⟩ = some ([.error message], ⟨0, true⟩) := by
    simp [nextBatch, fetchAndSerializeBatch, hfetch]
  have hend : h.nextBatch q ctx ⟨0, true⟩ = none := if_pos rfl
  rw [ndjsonStream, Stream'.Seq.corec_cons hnext, Stream'.Seq.corec_nil _ _ hend, Stream'.Seq.ofList_cons,
    Stream'.Seq.ofList_nil]

/-- No rows are no batch, and fewer than a batch are the only one. -/
theorem ndjsonStream_short {rows : List Json} (hfetch : h.fetchRows q ctx ⟨0, false⟩ = .ok rows)
    (hshort : rows.length < h.batchSize) :
    ∃ batches, h.ndjsonStream q ctx = Stream'.Seq.ofList batches ∧ batches.flatten = rows.map .row := by
  cases rows with
  | nil =>
    have hend : h.nextBatch q ctx ⟨0, false⟩ = none := by
      simp [nextBatch, fetchAndSerializeBatch, hfetch]
    refine ⟨[], ?_, rfl⟩
    rw [ndjsonStream, Stream'.Seq.corec_nil _ _ hend, Stream'.Seq.ofList_nil]
  | cons row rows =>
    have hnext : h.nextBatch q ctx ⟨0, false⟩ = some ((row :: rows).map .row, ⟨0, true⟩) := by
      simp only [nextBatch, fetchAndSerializeBatch, hfetch, if_pos hshort, Bool.false_eq_true, if_false]
    have hend : h.nextBatch q ctx ⟨0, true⟩ = none := if_pos rfl
    refine ⟨[(row :: rows).map .row], ?_, flatten_singleton⟩
    rw [ndjsonStream, Stream'.Seq.corec_cons hnext, Stream'.Seq.corec_nil _ _ hend, Stream'.Seq.ofList_cons,
      Stream'.Seq.ofList_nil]

/-- A full batch is fetched again and again. -/
theorem ndjsonStream_endless {rows : List Json} (hfetch : h.fetchRows q ctx ⟨0, false⟩ = .ok rows)
    (hfull : h.batchSize ≤ rows.length) (batches : List (List NdjsonLine)) :
    h.ndjsonStream q ctx ≠ Stream'.Seq.ofList batches := by
  have hnext : ∀ offset, h.nextBatch q ctx ⟨offset, false⟩ =
      some (rows.map .row, ⟨offset + h.batchSize, false⟩) := by
    intro offset
    have hfetch' : h.fetchRows q ctx ⟨offset, false⟩ = .ok rows := hfetch
    cases rows with
    | nil =>
      have hsize : 1 ≤ h.batchSize := Nat.le_max_right _ _
      exact absurd hfull (by rw [length_nil]; omega)
    | cons row rows =>
      simp only [nextBatch, fetchAndSerializeBatch, hfetch', if_neg (Nat.not_lt.mpr hfull), Bool.false_eq_true,
        if_false]
  -- the offset grows and nothing else changes
  have hgoes : ∀ (batches : List (List NdjsonLine)) (offset : Nat),
      Stream'.Seq.corec (h.nextBatch q ctx) ⟨offset, false⟩ ≠ Stream'.Seq.ofList batches := by
    intro batches
    induction batches with
    | nil =>
      intro offset
      rw [Stream'.Seq.corec_cons (hnext offset), Stream'.Seq.ofList_nil]
      exact Stream'.Seq.cons_ne_nil
    | cons batch batches ih =>
      intro offset heq
      rw [Stream'.Seq.corec_cons (hnext offset), Stream'.Seq.ofList_cons, Stream'.Seq.cons_eq_cons] at heq
      exact ih _ heq.2
  exact hgoes batches 0

theorem row_injective : Function.Injective NdjsonLine.row := fun _ _ => NdjsonLine.row.inj

/-- The stream delivers the rows when one batch has them all and room left. -/
theorem streamedOnce_fetched {rows whole : List Json} (hfetch : h.fetchRows q ctx ⟨0, false⟩ = .ok rows) :
    h.StreamedOnce q ctx whole ↔
      rows.length < h.batchSize ∧ rows = (queryRows q whole).map (h.shownRow q) := by
  have hexpected : ((queryRows q whole).map fun row => NdjsonLine.row (h.shownRow q row)) =
      ((queryRows q whole).map (h.shownRow q)).map .row := map_map.symm
  rw [StreamedOnce, hexpected]
  constructor
  · rintro ⟨batches, hstream, hlines⟩
    by_cases hshort : rows.length < h.batchSize
    · obtain ⟨batches', hstream', hlines'⟩ := ndjsonStream_short hfetch hshort
      obtain rfl := Stream'.Seq.ofList_injective (hstream.symm.trans hstream')
      exact ⟨hshort, map_injective_iff.mpr row_injective (hlines'.symm.trans hlines)⟩
    · exact absurd hstream (ndjsonStream_endless hfetch (Nat.not_lt.mp hshort) batches)
  · rintro ⟨hshort, rfl⟩
    exact ndjsonStream_short hfetch hshort

theorem not_streamedOnce_error {message : String} {whole : List Json}
    (hfetch : h.fetchRows q ctx ⟨0, false⟩ = .error message) : ¬ h.StreamedOnce q ctx whole := by
  rintro ⟨batches, hstream, hlines⟩
  rw [ndjsonStream_error hfetch] at hstream
  obtain rfl := Stream'.Seq.ofList_injective hstream
  cases hrows : queryRows q whole with
  | nil =>
    rw [hrows] at hlines
    cases hlines
  | cons row rows =>
    rw [hrows] at hlines
    cases hlines

/-! ### What a batch holds -/

/-- The rows of a response: of a single resource, the value in its place, as rows when it is a list. -/
def shownRows (h : RestHandler) (q : ResolvedGetQuery) (page : List Json) : List Json :=
  if q.queryMatch.queryDef.returnsList then page.map (h.shownRow q)
  else
    let value := (page.head?.map (h.shownRow q)).getD .null
    value.asArray?.getD [value]

theorem extractRows_publicResponse (page : List Json) (hname : q.queryName = q.queryMatch.queryDef.name) :
    extractRows (h.executor.publicResponse q.queryMatch page) q.queryName = .ok (shownRows h q page) := by
  have hget : ((h.executor.publicResponse q.queryMatch page).get? "data").bind (fun data => data.get? q.queryName) =
      some ((ResultProjector.ofMatch h.executor.parseJson (extractProjectionFields q.queryMatch)
        q.queryMatch).projectResults page q.queryMatch.queryDef.returnsList) := by
    show Json.lookup q.queryName [(q.queryMatch.queryDef.name, _)] = _
    rw [MapEntries.lookup_cons, if_pos hname.symm]
  unfold extractRows shownRows
  rw [hget]
  cases q.queryMatch.queryDef.returnsList with
  | true => rfl
  | false =>
    have hvalue : (ResultProjector.ofMatch h.executor.parseJson (extractProjectionFields q.queryMatch)
        q.queryMatch).projectResults page false = (page.head?.map (h.shownRow q)).getD .null := by
      cases page <;> rfl
    rw [hvalue]
    cases (page.head?.map (h.shownRow q)).getD .null <;> rfl

theorem extractRows_otherName (page : List Json) (hname : q.queryName ≠ q.queryMatch.queryDef.name) :
    extractRows (h.executor.publicResponse q.queryMatch page) q.queryName =
      .error (.internal "Missing data in query result") := by
  have hget : ((h.executor.publicResponse q.queryMatch page).get? "data").bind (fun data => data.get? q.queryName) =
      none := by
    show Json.lookup q.queryName [(q.queryMatch.queryDef.name, _)] = _
    rw [MapEntries.lookup_cons, if_neg hname.symm]
    rfl
  unfold extractRows
  rw [hget]

/-- Every batch holds the page of the matched query. -/
theorem streamedOnce_page {whole page : List Json}
    (hserved : (h.executor.executeQueryDirect q.queryMatch ctx).outcome = .ok (h.executor.publicResponse q.queryMatch page)) :
    h.StreamedOnce q ctx whole ↔ q.queryName = q.queryMatch.queryDef.name ∧
      (shownRows h q page).length < h.batchSize ∧ shownRows h q page = (queryRows q whole).map (h.shownRow q) := by
  have hfetch : h.fetchRows q ctx ⟨0, false⟩ =
      (extractRows (h.executor.publicResponse q.queryMatch page) q.queryName).mapError RestError.message := by
    unfold fetchRows queryDirect
    rw [hserved]
    rfl
  by_cases hname : q.queryName = q.queryMatch.queryDef.name
  · rw [extractRows_publicResponse page hname] at hfetch
    rw [streamedOnce_fetched hfetch, and_iff_right hname]
  · rw [extractRows_otherName page hname] at hfetch
    exact iff_of_false (not_streamedOnce_error hfetch) fun hsame => hname hsame.1

/-! ### When a stream delivers -/

/-- What the arguments of the path leave of a result. -/
def pathWindow {α : Type} (params : GetParams) (rows : List α) : List α :=
  window (pathCount "limit" params) ((pathCount "offset" params).getD 0) rows

/-- One batch holds the result and has room left: of a collection, it has fewer rows than a batch, and no more than the
limit, unless that is 2^32 or more; a single resource exists, is not a list, and a batch is of two rows or more. -/
def StreamFits (h : RestHandler) (q : ResolvedGetQuery) (pairs : List (String × String)) (whole : List Json) : Prop :=
  let limit := pageLimit h.config.toRestConfig pairs
  q.queryName = q.queryMatch.queryDef.name ∧
    if q.queryMatch.queryDef.returnsList then
      whole.length < h.batchSize ∧ (limit < 2 ^ 32 → whole.length ≤ limit) ∧
        ((pathCount "offset" q.params).getD 0 = 0 ∨ whole = [])
    else
      1 < h.batchSize ∧ ∃ row, whole.head? = some row ∧ shownRows h q (pathWindow q.params whole) = [h.shownRow q row]

section Resolved

variable {relativePath : String} {pairs : List (String × String)}

/-- The page of an accepted stream. -/
theorem accepted_page {prefer : CountPreference} {request : ProjectionRequest} (hdefault : h.config.defaultPageSize < 2 ^ 64)
    (hresolved : h.resolveGetQuery relativePath pairs ctx = .ok q)
    (haccepted : validateNdjsonRequest prefer q.params.pagination = .ok ())
    (hrequest : h.executor.directRequest q.queryMatch ctx = .ok request) :
    request.offset = pathCount "offset" q.params ∧
      request.limit = if q.queryMatch.queryDef.returnsList then
        (if pageLimit h.config.toRestConfig pairs < 2 ^ 32 then some (pageLimit h.config.toRestConfig pairs) else none)
        else pathCount "limit" q.params := by
  obtain ⟨d, pathPairs, hparams, hmatch, -⟩ := resolveGetQuery_ok hresolved
  obtain ⟨hlimit, hoffset⟩ := Executor.directRequest_page hrequest
  obtain rfl : q.queryMatch.queryDef = d := by
    rw [hmatch]
    rfl
  rw [hmatch] at hlimit hoffset
  have hofPath : ∀ key, "where" ≠ key → "orderBy" ≠ key → (∀ limit offset, q.params.pagination ≠ .offset limit offset) →
      pageArg ((h.getQueryMatch q.queryMatch.queryDef q.params).arguments.lookup key) = pathCount key q.params :=
    fun key hwhere horder hstyle => pageArg_ofPath _ _ hstyle hwhere horder
  cases hlist : q.queryMatch.queryDef.returnsList with
  | false =>
    have hstyle : ∀ limit offset, q.params.pagination ≠ .offset limit offset := by
      rw [singleStyle_params hparams hlist]
      exact nofun
    exact ⟨hoffset.trans (hofPath "offset" (by decide) (by decide) hstyle),
      hlimit.trans (hofPath "limit" (by decide) (by decide) hstyle)⟩
  | true =>
    cases hrelay : q.queryMatch.queryDef.relay with
    | true =>
      obtain ⟨first, after, last, before, hstyle⟩ := cursorStyle_params hparams hlist hrelay
      rw [hstyle, validateNdjsonRequest] at haccepted
      split_ifs at haccepted
    | false =>
      have hstyle := offsetStyle_params hparams hlist hrelay
      have hzero : ¬ 0 < askedOffset pairs := by
        intro hpos
        rw [hstyle, validateNdjsonRequest] at haccepted
        simp only [if_pos hpos] at haccepted
        split_ifs at haccepted
      refine ⟨?_, hlimit.trans (limit_offsetStyle _ _ hstyle (pageLimit_lt hdefault pairs))⟩
      exact hoffset.trans ((offset_offsetStyle _ _ hstyle (askedOffset_lt pairs)).trans (if_neg hzero))

/-- A stream delivers the rows of its query, each once and in order, exactly when one batch holds them with room left. -/
theorem streamedOnce_iff {prefer : CountPreference} (hpages : h.executor.adapter.PagesRows)
    (hdefault : h.config.defaultPageSize < 2 ^ 64) (hresolved : h.resolveGetQuery relativePath pairs ctx = .ok q)
    (haccepted : validateNdjsonRequest prefer q.params.pagination = .ok ()) {whole : List Json}
    (hwhole : h.executor.wholeResult q.queryMatch ctx = .ok whole) :
    h.StreamedOnce q ctx whole ↔ StreamFits h q pairs whole := by
  obtain ⟨request, hrequest, hserved⟩ := Executor.outcome_executeQueryDirect hpages hwhole
  obtain ⟨hoffset, hlimit⟩ := accepted_page hdefault hresolved haccepted hrequest
  rw [streamedOnce_page hserved, StreamFits]
  refine and_congr_right fun _ => ?_
  cases hlist : q.queryMatch.queryDef.returnsList with
  | true =>
    rw [hlist, if_pos rfl] at hlimit
    have hrows : queryRows q whole = whole := by rw [queryRows, hlist, if_pos rfl]
    have hshown : shownRows h q (request.page whole) = (request.page whole).map (h.shownRow q) := by
      rw [shownRows, hlist, if_pos rfl]
    have hcap : (∀ n, request.limit = some n → whole.length ≤ n) ↔
        (pageLimit h.config.toRestConfig pairs < 2 ^ 32 → whole.length ≤ pageLimit h.config.toRestConfig pairs) := by
      rw [hlimit]
      by_cases hfits : pageLimit h.config.toRestConfig pairs < 2 ^ 32
      · rw [if_pos hfits, forall_prop_of_true hfits]
        exact ⟨fun hall => hall _ rfl, fun hle n hn => Option.some.inj hn ▸ hle⟩
      · rw [if_neg hfits]
        exact iff_of_true (by rintro _ ⟨⟩) fun hlt => absurd hlt hfits
    have hwindow : (request.page whole).map (h.shownRow q) = whole.map (h.shownRow q) ↔ _ := map_window_eq_iff
    rw [hcap, hoffset] at hwindow
    rw [if_pos rfl, hrows, hshown, ← hwindow]
    refine and_congr_left fun hsame => ?_
    rw [hsame, length_map]
  | false =>
    rw [hlist, if_neg Bool.false_ne_true] at hlimit
    have hpage : request.page whole = pathWindow q.params whole := by
      rw [ProjectionRequest.page, hlimit, hoffset, pathWindow]
    have hrows : queryRows q whole = whole.take 1 := by rw [queryRows, hlist, if_neg Bool.false_ne_true]
    rw [if_neg Bool.false_ne_true, hrows, hpage]
    cases whole with
    | nil =>
      have habsent : shownRows h q (pathWindow q.params []) = [.null] := by
        have hnone : pathWindow q.params ([] : List Json) = [] := by
          unfold pathWindow
          cases pathCount "limit" q.params <;> simp [window]
        rw [hnone, shownRows, hlist, if_neg Bool.false_ne_true]
        rfl
      rw [habsent]
      exact iff_of_false (fun hsame => by cases hsame.2) fun hsome => by
        obtain ⟨-, row, hrow, -⟩ := hsome
        cases hrow
    | cons row rest =>
      show _ ∧ _ = [h.shownRow q row] ↔ _
      constructor
      · rintro ⟨hlength, hsame⟩
        rw [hsame] at hlength
        exact ⟨hlength, row, rfl, hsame⟩
      · rintro ⟨hlength, row', hrow', hsame⟩
        obtain rfl := Option.some.inj hrow'
        rw [hsame]
        exact ⟨hlength, rfl⟩

end Resolved

end RestHandler

/-! ### Two users in batches -/

/-- A list of users with their pages and batches. -/
def usersStream (pageSize batch : Nat) : RestHandler :=
  { usersPages false with config := ⟨⟨100, pageSize, 4096, 10000⟩, 3, batch⟩ }

theorem two_users_fit : ∃ q, (usersStream 20 3).resolveGetQuery "/users" [] none = .ok q ∧
    validateNdjsonRequest ⟨false, false, false⟩ q.params.pagination = .ok () ∧
    (usersStream 20 3).executor.wholeResult q.queryMatch none = .ok twoUsers ∧
    RestHandler.StreamFits (usersStream 20 3) q [] twoUsers :=
  ⟨_, rfl, rfl, rfl, rfl, by decide, by decide, .inl rfl⟩

/-- Two users in batches of three. -/
theorem two_users_streamed : ∃ q, (usersStream 20 3).resolveGetQuery "/users" [] none = .ok q ∧
    (usersStream 20 3).StreamedOnce q none twoUsers := by
  obtain ⟨q, hresolved, haccepted, hwhole, hfits⟩ := two_users_fit
  exact ⟨q, hresolved, (streamedOnce_iff (pagingAdapter_pagesRows twoUsers) (by decide : 20 < 2 ^ 64)
    hresolved haccepted hwhole).mpr hfits⟩

/-- In batches of two the stream of two users never ends; with pages of one it is one of them. -/
theorem full_batch_endless : ∃ q q',
    ((usersStream 20 2).resolveGetQuery "/users" [] none = .ok q ∧
      validateNdjsonRequest ⟨false, false, false⟩ q.params.pagination = .ok () ∧
      (usersStream 20 2).executor.wholeResult q.queryMatch none = .ok twoUsers ∧
      (∀ batches, (usersStream 20 2).ndjsonStream q none ≠ Stream'.Seq.ofList batches) ∧
      ¬ (usersStream 20 2).StreamedOnce q none twoUsers) ∧
    (usersStream 1 3).resolveGetQuery "/users" [] none = .ok q' ∧
      validateNdjsonRequest ⟨false, false, false⟩ q'.params.pagination = .ok () ∧
      (usersStream 1 3).executor.wholeResult q'.queryMatch none = .ok twoUsers ∧
      ¬ (usersStream 1 3).StreamedOnce q' none twoUsers := by
  refine ⟨_, _, ⟨rfl, rfl, rfl, ?_, ?_⟩, rfl, rfl, rfl, ?_⟩
  · exact @ndjsonStream_endless _ _ _ [.obj [], .obj []] rfl (by decide)
  · intro hstreamed
    have hpage := (@streamedOnce_page _ _ _ _ twoUsers rfl).mp hstreamed
    exact absurd hpage.2.1 (by decide)
  · intro hstreamed
    have hpage := (@streamedOnce_page _ _ _ _ (twoUsers.take 1) rfl).mp hstreamed
    exact absurd (congrArg length hpage.2.2) (by decide)

end FraiseQL.Rest
