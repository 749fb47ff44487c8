import FraiseQL.PageWindow
import FraiseQL.RestBulkRows
import FraiseQL.RestGet

/-! The page of a GET request. The database counts the rows of a result and gives back a window of them; the page that
was asked for is the window its parameters describe. An offset of 2^32 or more is dropped on the way to the database,
and the parameters of a cursor never get there. -/

namespace FraiseQL

open PageWindow Outcome MapEntries List Option Except

namespace ProjectionRequest

/-- The same request for every row. -/
def unpaged (request : ProjectionRequest) : ProjectionRequest := { request with limit := none, offset := none }

/-- What a request leaves of a result. -/
def page {α : Type} (request : ProjectionRequest) (rows : List α) : List α :=
  window request.limit (request.offset.getD 0) rows

end ProjectionRequest

/-- LIMIT and OFFSET: the rows of a request are a window of the rows without them. -/
def Adapter.PagesRows (a : Adapter) : Prop :=
  ∀ request, a.executeWithProjection request = (a.executeWithProjection request.unpaged).map request.page

/-- The filtered and ordered result that `execute_query_direct` reads a page of. -/
def Executor.wholeResult (x : Executor) (m : QueryMatch) (ctx : Option SecurityContext) :
    Except FraiseQLError (List Json) :=
  x.directRequest m ctx >>= fun request => x.adapter.executeWithProjection request.unpaged

/-- The response shows the window of the result that the request asks for. -/
theorem Executor.outcome_executeQueryDirect {x : Executor} (hpages : x.adapter.PagesRows) {m : QueryMatch}
    {ctx : Option SecurityContext} {whole : List Json} (hwhole : x.wholeResult m ctx = .ok whole) :
    ∃ request, x.directRequest m ctx = .ok request ∧
      (x.executeQueryDirect m ctx).outcome = .ok (x.publicResponse m (request.page whole)) := by
  obtain ⟨request, hrequest, hrows⟩ := bind_eq_ok.mp hwhole
  refine ⟨request, hrequest, ?_⟩
  have hread : x.adapter.executeWithProjection request = .ok (request.page whole) := by
    rw [hpages request, hrows]
    rfl
  unfold executeQueryDirect executeWithProjection
  rw [Traced.outcome_bind, Traced.outcome_lift, hrequest, ok_bind, Traced.outcome_bind, Traced.outcome_call,
    hread]
  rfl

/-- The limit and the offset of a request are those of its arguments. -/
theorem Executor.directRequest_page {x : Executor} {m : QueryMatch} {ctx : Option SecurityContext}
    {request : ProjectionRequest} (hrequest : x.directRequest m ctx = .ok request) :
    request.limit = pageArg (m.arguments.lookup "limit") ∧ request.offset = pageArg (m.arguments.lookup "offset") := by
  simp only [directRequest, bind_eq_ok, pure_eq_ok] at hrequest
  obtain ⟨_, -, _, -, _, -, _, -, _, -, rfl⟩ := hrequest
  exact ⟨rfl, rfl⟩

namespace Rest

/-! ### What was asked for -/

/-- The last value given for a parameter. -/
def lastValue (key : String) (pairs : List (String × String)) : Option String := pairs.reverse.lookup key

/-- The number given for a parameter. -/
def givenCount (key : String) (pairs : List (String × String)) : Option Nat := (lastValue key pairs).bind parseU64

/-- The size of the page: the limit, or else the default, and never more than the largest page. -/
def askedSize (config : RestConfig) (pairs : List (String × String)) : Nat :=
  min ((givenCount "limit" pairs).getD config.defaultPageSize) config.maxPageSize

/-- The first row of the page. -/
def askedOffset (pairs : List (String × String)) : Nat := (givenCount "offset" pairs).getD 0

/-- A page comes back: no more rows than the largest page, and from an endpoint with offsets the positions that were
asked for. -/
def PageServed (h : RestHandler) (resolved : ResolvedGetQuery) (pairs : List (String × String))
    (ctx : Option SecurityContext) (whole : List Json) : Prop :=
  ∃ request, h.executor.directRequest resolved.queryMatch ctx = .ok request ∧
    (h.queryDirect resolved.queryMatch resolved.queryVariables ctx).outcome =
      .ok (h.executor.publicResponse resolved.queryMatch (request.page whole)) ∧
    (request.page whole).length ≤ h.config.maxPageSize ∧
    (resolved.queryMatch.queryDef.relay = false → request.page (List.range whole.length) =
      ((List.range whole.length).drop (askedOffset pairs)).take (askedSize h.config.toRestConfig pairs))

/-! ### What reaches the database -/

theorem lookup_eq (key : String) (entries : List (String × Json)) : entries.lookup key = Json.lookup key entries := by
  induction entries with
  | nil => rfl
  | cons e entries ih =>
    rw [lookup_cons, List.lookup_cons, ih]
    by_cases hkey : e.1 = key
    · rw [if_pos hkey, hkey, beq_self_eq_true]
    · rw [if_neg hkey, beq_eq_false_iff_ne.mpr (Ne.symm hkey)]

theorem asU64_ofNat {n : Nat} (hn : n < 2 ^ 64) : (Json.ofNat n).asU64? = some n := by
  simp only [Json.ofNat, Json.asU64?, Nat.mod_eq_of_lt hn, Int.natCast_nonneg, if_true, Int.toNat_natCast]

/-- A count of 64 bits is a page argument when it fits 32. -/
theorem pageArg_ofNat {n : Nat} (hn : n < 2 ^ 64) :
    pageArg (some (Json.ofNat n)) = if n < 2 ^ 32 then some n else none := by
  rw [pageArg, bind_some, asU64_ofNat hn, bind_some]

theorem lookup_insertSome {key k : String} (hne : k ≠ key) (value : Option Json) (entries : List (String × Json)) :
    Json.lookup key (insertSome k value entries) = Json.lookup key entries := by
  cases value with
  | none => rfl
  | some value => rw [insertSome, lookup_insertEntry, if_neg hne]

/-- A page argument that the path gives; a later segment of one name stands. -/
def pathCount (key : String) (params : GetParams) : Option Nat := pageArg (Json.lookup key (pathArguments params))

section Arguments

variable (params : GetParams) (fts : Option Json)

theorem limit_offsetStyle {limit offset : Nat} (hstyle : params.pagination = .offset limit offset)
    (hlimit : limit < 2 ^ 64) :
    pageArg ((getArguments params fts).lookup "limit") = if limit < 2 ^ 32 then some limit else none := by
  have hlookup : (getArguments params fts).lookup "limit" = some (Json.ofNat limit) := by
    rw [lookup_eq, getArguments, hstyle, pageArguments]
    split_ifs
    · rw [lookup_insertEntry, if_neg (by decide), lookup_insertEntry, if_pos rfl]
    · rw [lookup_insertEntry, if_pos rfl]
  rw [hlookup, pageArg_ofNat hlimit]

theorem offset_offsetStyle {limit offset : Nat} (hstyle : params.pagination = .offset limit offset)
    (hoffset : offset < 2 ^ 64) : pageArg ((getArguments params fts).lookup "offset") =
      if 0 < offset then (if offset < 2 ^ 32 then some offset else none) else pathCount "offset" params := by
  rw [lookup_eq, getArguments, hstyle, pageArguments]
  by_cases hpos : 0 < offset
  · rw [if_pos hpos, if_pos hpos, lookup_insertEntry, if_pos rfl, pageArg_ofNat hoffset]
  · rw [if_neg hpos, if_neg hpos, lookup_insertEntry, if_neg (by decide), lookup_insertSome (by decide),
      lookup_insertSome (by decide)]
    rfl

/-- Without a pagination by offset, the page arguments are those of the path. -/
theorem pageArg_ofPath {key : String} (hstyle : ∀ limit offset, params.pagination ≠ .offset limit offset)
    (hwhere : "where" ≠ key) (horder : "orderBy" ≠ key) :
    pageArg ((getArguments params fts).lookup key) = pathCount key params := by
  have hsame : ∀ arguments, pageArguments params.pagination arguments = arguments := by
    intro arguments
    cases hpagination : params.pagination with
    | offset limit offset => exact absurd hpagination (hstyle limit offset)
    | cursor first after last before => rfl
    | none => rfl
  rw [lookup_eq, getArguments, hsame, lookup_insertSome horder, lookup_insertSome hwhere]
  rfl

end Arguments

/-! ### What the parameters become -/

theorem parseU64_lt {s : String} {n : Nat} (h : parseU64 s = some n) : n < 2 ^ 64 := by
  unfold parseU64 at h
  obtain ⟨digits, -, hn⟩ := bind_eq_some_iff.mp h
  split_ifs at hn with hlt
  · rwa [← some.inj hn]

theorem parseCount_ok {name expected : String} {raw : Option String} {n : Option Nat}
    (h : parseCount name expected raw = .ok n) : n = raw.bind parseU64 := by
  cases raw with
  | none => exact (ok.inj h).symm
  | some raw =>
    simp only [parseCount] at h
    cases hparse : parseU64 raw with
    | none =>
      rw [hparse] at h
      cases h
    | some m =>
      rw [hparse] at h
      rw [← ok.inj h, bind_some, hparse]

theorem givenCount_lt {key : String} {pairs : List (String × String)} {n : Nat}
    (h : givenCount key pairs = some n) : n < 2 ^ 64 := by
  obtain ⟨raw, -, hraw⟩ := bind_eq_some_iff.mp h
  exact parseU64_lt hraw

theorem askedOffset_lt (pairs : List (String × String)) : askedOffset pairs < 2 ^ 64 := by
  unfold askedOffset
  cases hgiven : givenCount "offset" pairs with
  | none => exact Nat.two_pow_pos 64
  | some n => exact givenCount_lt hgiven

section Classify

variable {lib : ParamLibrary} {d : QueryDefinition} {t : Option RestType}

/-- Only a pair of its own name changes the limit or the offset. -/
theorem classifyParam_page {params params' : ClassifiedParams} {pair : String × String}
    (h : classifyParam lib d t params pair = .ok params') :
    params'.limit = (if pair.1 = "limit" then some pair.2 else params.limit) ∧
      params'.offset = (if pair.1 = "offset" then some pair.2 else params.offset) := by
  obtain ⟨key, value⟩ := pair
  have hplain : params' = params → key ≠ "limit" → key ≠ "offset" →
      params'.limit = (if key = "limit" then some value else params.limit) ∧
        params'.offset = (if key = "offset" then some value else params.offset) := by
    rintro rfl hlimit hoffset
    rw [if_neg hlimit, if_neg hoffset]
    exact ⟨rfl, rfl⟩
  simp only [classifyParam] at h
  by_cases hdot : '.' ∈ key.toList ∧ key ∉ reservedParams
  · rw [if_pos hdot] at h
    refine hplain (ok.inj h).symm ?_ ?_
    · rintro rfl
      exact absurd hdot.1 (by decide)
    · rintro rfl
      exact absurd hdot.1 (by decide)
  · rw [if_neg hdot] at h
    cases hbracket : parseBracketKey key with
    | some condition =>
      have hlimit : key ≠ "limit" := by
        rintro rfl
        exact absurd hbracket (by rw [show parseBracketKey "limit" = none from rfl]; exact nofun)
      have hoffset : key ≠ "offset" := by
        rintro rfl
        exact absurd hbracket (by rw [show parseBracketKey "offset" = none from rfl]; exact nofun)
      rw [if_neg hlimit, if_neg hoffset]
      rw [hbracket] at h
      dsimp only at h
      split_ifs at h with hfield
      · rw [← ok.inj h]
        exact ⟨rfl, rfl⟩
      · simp only [bind_eq_ok, pure_eq_ok] at h
        obtain ⟨-, -, -, -, rfl⟩ := h
        exact ⟨rfl, rfl⟩
    | none =>
      rw [hbracket] at h
      dsimp only at h
      split at h
      all_goals first
        | rw [← ok.inj h]
          exact ⟨rfl, rfl⟩
        | skip
      rename_i hselect hsort hlimit hoffset _ _ _ _ _ _ _ _ _
      rw [if_neg hlimit, if_neg hoffset]
      split_ifs at h with hlist hvalid
      · cases h
      · simp only [bind_eq_ok, pure_eq_ok] at h
        obtain ⟨-, -, rfl⟩ := h
        exact ⟨rfl, rfl⟩
      · cases h

theorem lastValue_cons (key : String) (pair : String × String) (pairs : List (String × String)) :
    lastValue key (pair :: pairs) = (lastValue key pairs).or (if pair.1 = key then some pair.2 else none) := by
  unfold lastValue
  rw [List.reverse_cons, List.lookup_append, List.lookup_cons, List.lookup_nil]
  by_cases hkey : pair.1 = key
  · rw [if_pos hkey, hkey, beq_self_eq_true]
  · rw [if_neg hkey, beq_eq_false_iff_ne.mpr (Ne.symm hkey)]

/-- The limit and the offset are the last ones given. -/
theorem classified_page {pairs : List (String × String)} {start params : ClassifiedParams}
    (h : pairs.foldlM (classifyParam lib d t) start = .ok params) :
    params.limit = (lastValue "limit" pairs).or start.limit ∧
      params.offset = (lastValue "offset" pairs).or start.offset := by
  induction pairs generalizing start with
  | nil =>
    obtain rfl := ok.inj h
    exact ⟨rfl, rfl⟩
  | cons pair pairs ih =>
    rw [foldlM_cons] at h
    obtain ⟨next, hnext, h⟩ := bind_eq_ok.mp h
    obtain ⟨hlimit, hoffset⟩ := ih h
    obtain ⟨hlimit', hoffset'⟩ := classifyParam_page hnext
    rw [hlimit, hoffset, lastValue_cons, lastValue_cons, Option.or_assoc, Option.or_assoc, hlimit', hoffset']
    constructor
    · split_ifs <;> rfl
    · split_ifs <;> rfl

end Classify

namespace Refusal

@[simp] theorem lift_eq_ok {ε α : Type} {x : Except ε α} {a : α} : lift x = .ok a ↔ x = .ok a := by
  cases x with
  | error e => exact ⟨nofun, nofun⟩
  | ok b => simp [lift, Except.mapError]

@[simp] theorem mapError_eq_ok {ε ε' α : Type} {f : ε → ε'} {x : Except (Refusal ε) α} {a : α} :
    mapError f x = .ok a ↔ x = .ok a := by
  cases x with
  | error e => exact ⟨nofun, nofun⟩
  | ok b => simp [mapError, Except.mapError]

end Refusal

section Extract

variable {lib : ParamLibrary} {config : GetConfig} {d : QueryDefinition} {argTypes : List (String × FieldType)}
  {t : Option RestEntity} {pathPairs pairs : List (String × String)} {params : GetParams}

theorem extractParams_pagination (h : extractParams lib config d argTypes t pathPairs pairs = .ok params) :
    ∃ classified, pairs.foldlM (classifyParam lib d (t.map RestEntity.toRestType)) {} = .ok classified ∧
      parsePagination config d classified = .ok params.pagination := by
  simp only [extractParams, bind_eq_ok, Refusal.lift_eq_ok] at h
  obtain ⟨_, -, classified, hclassified, _, -, _, -, _, -, _, -, _, -, _, -, _, -, pagination, hpagination, h⟩ := h
  refine ⟨classified, hclassified, ?_⟩
  split_ifs at h with hmany
  · cases h
  · rw [hpagination, ← ok.inj h]

/-- The limit of a page: the one given, up to the largest page, or the default. -/
def pageLimit (config : RestConfig) (pairs : List (String × String)) : Nat :=
  ((givenCount "limit" pairs).map fun n => min n config.maxPageSize).getD config.defaultPageSize

theorem pageLimit_eq {config : RestConfig} (hsizes : config.defaultPageSize ≤ config.maxPageSize)
    (pairs : List (String × String)) : pageLimit config pairs = askedSize config pairs := by
  unfold pageLimit askedSize
  cases givenCount "limit" pairs with
  | none => exact (min_eq_left hsizes).symm
  | some n => rfl

theorem pageLimit_lt {config : RestConfig} (hdefault : config.defaultPageSize < 2 ^ 64)
    (pairs : List (String × String)) : pageLimit config pairs < 2 ^ 64 := by
  unfold pageLimit
  cases hgiven : givenCount "limit" pairs with
  | none => exact hdefault
  | some n => exact (Nat.min_le_left n _).trans_lt (givenCount_lt hgiven)

section

variable (h : extractParams lib config d argTypes t pathPairs pairs = .ok params)
include h

/-- The pagination of an endpoint with offsets. -/
theorem offsetStyle_params (hlist : d.returnsList = true) (hrelay : d.relay = false) :
    params.pagination = .offset (pageLimit config.toRestConfig pairs) (askedOffset pairs) := by
  obtain ⟨classified, hclassified, hpagination⟩ := extractParams_pagination h
  obtain ⟨hlimit, hoffset⟩ := classified_page hclassified
  rw [or_none] at hlimit hoffset
  rw [parsePagination, hlist, hrelay] at hpagination
  simp only [Bool.not_true, Bool.false_eq_true, if_false, parseOffsetPagination, bind_eq_ok,
    pure_eq_ok] at hpagination
  obtain ⟨limit, hlimit', offset, hoffset', hpagination⟩ := hpagination
  rw [← hpagination, parseCount_ok hlimit', parseCount_ok hoffset', hlimit, hoffset]
  rfl

/-- A single resource has no pagination. -/
theorem singleStyle_params (hsingle : d.returnsList = false) : params.pagination = .none := by
  obtain ⟨classified, -, hpagination⟩ := extractParams_pagination h
  rw [parsePagination, hsingle] at hpagination
  exact (ok.inj hpagination).symm

/-- An endpoint with cursors has no other pagination. -/
theorem cursorStyle_params (hlist : d.returnsList = true) (hrelay : d.relay = true) :
    ∃ first after last before, params.pagination = .cursor first after last before := by
  obtain ⟨classified, -, hpagination⟩ := extractParams_pagination h
  rw [parsePagination, hlist, hrelay] at hpagination
  simp only [Bool.not_true, Bool.false_eq_true, if_false, if_true, parseCursorPagination, bind_eq_ok,
    pure_eq_ok] at hpagination
  obtain ⟨given, -, last, -, hpagination⟩ := hpagination
  exact ⟨_, _, _, _, hpagination.symm⟩

end

end Extract

namespace RestHandler

variable {h : RestHandler} {relativePath : String} {pairs : List (String × String)} {ctx : Option SecurityContext}
  {resolved : ResolvedGetQuery}

theorem resolveGetQuery_ok (hresolved : h.resolveGetQuery relativePath pairs ctx = .ok resolved) :
    ∃ d pathPairs, extractParams h.lib h.config d (h.argTypes d.name) (h.findType d.returnType) pathPairs pairs =
        .ok resolved.params ∧ resolved.queryMatch = h.getQueryMatch d resolved.params ∧
      resolved.queryVariables = getVariables resolved.params.pagination resolved.queryMatch.arguments := by
  simp only [resolveGetQuery, bind_eq_ok] at hresolved
  obtain ⟨route, -, queryName, -, d, -, hresolved⟩ := hresolved
  by_cases hrole : mayRead d ctx = true
  · rw [if_pos hrole] at hresolved
    simp only [bind_eq_ok, Refusal.mapError_eq_ok, pure_eq_ok] at hresolved
    obtain ⟨params, hparams, rfl⟩ := hresolved
    exact ⟨d, route.pathParams, hparams, rfl, rfl⟩
  · rw [if_neg hrole] at hresolved
    cases hresolved

/-! ### The page served -/

/-- What is asked for gets to the database: the offset fits 32 bits, or is zero where the path gives no other; or there
is nothing to serve. Where the page is given by cursors, the result itself is no longer than a page, or the path limits
it. -/
def PageReaches (h : RestHandler) (resolved : ResolvedGetQuery) (pairs : List (String × String))
    (whole : List Json) : Prop :=
  let fromPath := (pathCount "offset" resolved.params).getD 0
  if resolved.queryMatch.queryDef.relay then
    whole.length - fromPath ≤ h.config.maxPageSize ∨
      ∃ n, pathCount "limit" resolved.params = some n ∧ n ≤ h.config.maxPageSize
  else
    (if 0 < askedOffset pairs then askedOffset pairs < 2 ^ 32 else fromPath = 0) ∨
      askedSize h.config.toRestConfig pairs = 0 ∨ whole = []

instance (h : RestHandler) (resolved : ResolvedGetQuery) (pairs : List (String × String)) (whole : List Json) :
    Decidable (PageReaches h resolved pairs whole) := by
  unfold PageReaches
  exact inferInstance

/-- Of a request that is made, only the window is in question. -/
theorem pageServed_of_request {request : ProjectionRequest} {whole : List Json}
    (hrequest : h.executor.directRequest resolved.queryMatch ctx = .ok request)
    (hserved : (h.executor.executeQueryDirect resolved.queryMatch ctx).outcome =
      .ok (h.executor.publicResponse resolved.queryMatch (request.page whole))) :
    PageServed h resolved pairs ctx whole ↔ (request.page whole).length ≤ h.config.maxPageSize ∧
      (resolved.queryMatch.queryDef.relay = false → request.page (range whole.length) =
        ((range whole.length).drop (askedOffset pairs)).take (askedSize h.config.toRestConfig pairs)) := by
  constructor
  · rintro ⟨request', hrequest', -, hlength, hpositions⟩
    rw [hrequest] at hrequest'
    rw [ok.inj hrequest']
    exact ⟨hlength, hpositions⟩
  · rintro ⟨hlength, hpositions⟩
    exact ⟨request, hrequest, hserved, hlength, hpositions⟩

/-- A page is served as asked for exactly when what is asked for gets to the database. -/
theorem pageServed_iff (hpages : h.executor.adapter.PagesRows)
    (hsizes : h.config.defaultPageSize ≤ h.config.maxPageSize) (hmax : h.config.maxPageSize ≤ 2 ^ 32 - 1)
    (hresolved : h.resolveGetQuery relativePath pairs ctx = .ok resolved)
    (hlist : resolved.queryMatch.queryDef.returnsList = true) {whole : List Json}
    (hwhole : h.executor.wholeResult resolved.queryMatch ctx = .ok whole) :
    PageServed h resolved pairs ctx whole ↔ PageReaches h resolved pairs whole := by
  obtain ⟨d, pathPairs, hparams, hmatch, -⟩ := resolveGetQuery_ok hresolved
  obtain ⟨request, hrequest, hserved⟩ := Executor.outcome_executeQueryDirect hpages hwhole
  obtain ⟨hlimit, hoffset⟩ := Executor.directRequest_page hrequest
  obtain rfl : resolved.queryMatch.queryDef = d := by
    rw [hmatch]
    rfl
  rw [hmatch] at hlimit hoffset
  rw [pageServed_of_request hrequest hserved, PageReaches]
  cases hrelay : resolved.queryMatch.queryDef.relay with
  | true =>
    obtain ⟨first, after, last, before, hstyle⟩ := cursorStyle_params hparams hlist hrelay
    have hcursor : ∀ limit offset, resolved.params.pagination ≠ .offset limit offset := by
      rw [hstyle]
      exact nofun
    have hlimit' : request.limit = pathCount "limit" resolved.params :=
      hlimit.trans (pageArg_ofPath _ _ hcursor (by decide) (by decide))
    have hoffset' : request.offset = pathCount "offset" resolved.params :=
      hoffset.trans (pageArg_ofPath _ _ hcursor (by decide) (by decide))
    rw [if_pos rfl, ← hlimit', ← hoffset', ProjectionRequest.page, length_window_le]
    exact and_iff_left nofun
  | false =>
    have hstyle := offsetStyle_params hparams hlist hrelay
    rw [pageLimit_eq hsizes] at hstyle
    have hsize : askedSize h.config.toRestConfig pairs ≤ h.config.maxPageSize := Nat.min_le_right _ _
    have hlimit' : request.limit = some (askedSize h.config.toRestConfig pairs) :=
      (hlimit.trans (limit_offsetStyle _ _ hstyle (by omega))).trans (if_pos (by omega))
    have hoffset' := hoffset.trans (offset_offsetStyle _ _ hstyle (askedOffset_lt pairs))
    have hlength : (request.page whole).length ≤ h.config.maxPageSize := by
      rw [ProjectionRequest.page, hlimit', length_window_some]
      exact (Nat.min_le_left _ _).trans hsize
    have hwindow : request.page (range whole.length) =
        ((range whole.length).drop (askedOffset pairs)).take (askedSize h.config.toRestConfig pairs) ↔
          request.offset.getD 0 = askedOffset pairs ∨ askedSize h.config.toRestConfig pairs = 0 ∨
            (whole.length ≤ request.offset.getD 0 ∧ whole.length ≤ askedOffset pairs) := by
      rw [ProjectionRequest.page, hlimit']
      exact window_range_eq_iff
    rw [if_neg Bool.false_ne_true, and_iff_right hlength, forall_prop_of_true rfl, hwindow,
      ← length_eq_zero_iff]
    by_cases hpos : 0 < askedOffset pairs
    · rw [if_pos hpos] at hoffset'
      rw [if_pos hpos]
      by_cases hfits : askedOffset pairs < 2 ^ 32
      · rw [if_pos hfits] at hoffset'
        rw [hoffset', getD_some]
        exact iff_of_true (.inl rfl) (.inl hfits)
      · rw [if_neg hfits] at hoffset'
        rw [hoffset', getD_none]
        omega
    · rw [if_neg hpos] at hoffset'
      rw [if_neg hpos, hoffset']
      omega

end RestHandler

/-! ### Two users -/

/-- An adapter that pages the rows it has, whatever the filter. -/
def pagingAdapter (rows : List Json) : Adapter :=
  ⟨.postgresql, fun _ => .ok (), fun request => .ok (request.page rows), fun _ => .ok rows⟩

theorem pagingAdapter_pagesRows (rows : List Json) : (pagingAdapter rows).PagesRows := fun _ => rfl

def twoUsers : List Json := [.obj [("id", .ofNat 1)], .obj [("id", .ofNat 2)]]

/-- A list of users, by offset or by cursor, with pages of one user. -/
def usersPages (relay : Bool) : RestHandler where
  executor := { plainExecutor with
    schema := ⟨[], [{ BulkHandler.usersQuery with relay }], none, ⟨[], false⟩⟩
    adapter := pagingAdapter twoUsers }
  names := BulkHandler.bulkLibrary
  types := [⟨⟨"User", [⟨"id", none, .int⟩, ⟨"name", none, .string⟩]⟩, []⟩]
  argTypes := fun _ => []
  config := ⟨⟨1, 1, 4096, 10000⟩, 3, 500⟩
  table := [⟨"users", "User", some "id", [⟨.get, "/users", .query "users", 200⟩]⟩]
  lib := ⟨fun _ => .error "unexpected text", fun _ => none, fun _ _ => .ok 0⟩

theorem second_user_reaches : ∃ resolved,
    (usersPages false).resolveGetQuery "/users" [("limit", "1"), ("offset", "1")] none = .ok resolved ∧
      resolved.queryMatch.queryDef.returnsList = true ∧
      (usersPages false).executor.wholeResult resolved.queryMatch none = .ok twoUsers ∧
      RestHandler.PageReaches (usersPages false) resolved [("limit", "1"), ("offset", "1")] twoUsers :=
  ⟨_, rfl, rfl, rfl, by decide⟩

/-- `GET /users?limit=1&offset=1` is the second user. -/
theorem second_user : ∃ resolved, (usersPages false).resolveGetQuery "/users" [("limit", "1"), ("offset", "1")] none =
    .ok resolved ∧ PageServed (usersPages false) resolved [("limit", "1"), ("offset", "1")] none twoUsers := by
  obtain ⟨resolved, hresolved, hlist, hwhole, hreaches⟩ := second_user_reaches
  exact ⟨resolved, hresolved, (RestHandler.pageServed_iff (pagingAdapter_pagesRows twoUsers) (Nat.le_refl 1)
    (by decide) hresolved hlist hwhole).mpr hreaches⟩

/-- `GET /users?offset=4294967296` is the first user, and `GET /users?first=1` of an endpoint with cursors is both. -/
theorem first_page_again :
    (∀ relay, (usersPages relay).executor.adapter.PagesRows ∧
      (usersPages relay).config.defaultPageSize ≤ (usersPages relay).config.maxPageSize ∧
      (usersPages relay).config.maxPageSize ≤ 2 ^ 32 - 1) ∧
    (∃ resolved, (usersPages false).resolveGetQuery "/users" [("offset", "4294967296")] none = .ok resolved ∧
      resolved.queryMatch.queryDef.returnsList = true ∧
      (usersPages false).executor.wholeResult resolved.queryMatch none = .ok twoUsers ∧
      ¬ PageServed (usersPages false) resolved [("offset", "4294967296")] none twoUsers) ∧
    ∃ resolved, (usersPages true).resolveGetQuery "/users" [("first", "1")] none = .ok resolved ∧
      resolved.queryMatch.queryDef.returnsList = true ∧
      (usersPages true).executor.wholeResult resolved.queryMatch none = .ok twoUsers ∧
      ¬ PageServed (usersPages true) resolved [("first", "1")] none twoUsers := by
  refine ⟨?_, ⟨_, rfl, rfl, rfl, ?_⟩, ⟨_, rfl, rfl, rfl, ?_⟩⟩
  · intro relay
    exact ⟨pagingAdapter_pagesRows twoUsers, Nat.le_refl 1, (by decide : 1 ≤ 2 ^ 32 - 1)⟩
  · rintro ⟨request, hrequest, -, -, hpositions⟩
    cases hrequest
    exact absurd (hpositions rfl) (by decide)
  · rintro ⟨request, hrequest, -, hlength, -⟩
    cases hrequest
    exact absurd hlength (by decide)

end Rest

end FraiseQL
