import FraiseQL.EventRun
import FraiseQL.RustText
import FraiseQL.SecurityContext

/-! The compiled row security policy with its cache (`security/rls_policy.rs`). A rule's clause depends on
whatever parts of the user its expression mentions, but it is cached under the user's identifier and the type
name alone. Calls are answered as without a cache as long as calls that share a live entry have the same
expression and agree on the parts it mentions. -/

namespace FraiseQL.Rls

open RustText List Option

/-! ### Expressions -/

def extractUserValue (field : List Char) (ctx : SecurityContext) : Option Json :=
  match String.ofList field with
  | "id" | "user_id" => some (.str ctx.userId)
  | "tenant_id" => ctx.tenantId.map .str
  | "roles" => some (.arr (ctx.roles.map .str))
  | custom => ctx.attributes.lookup custom

def hasRole (ctx : SecurityContext) (role : List Char) : Bool := ctx.roles.contains (String.ofList role)

/-- The user field on the left of an equality, and the right side. -/
def equality (expr : List Char) : Option (List Char × List Char) :=
  (splitOnce "==".toList expr).bind fun (left, right) =>
    (stripStart "user.".toList (trim left)).map fun field => (field, trim right)

/-- The role of a membership test on `user.roles`. -/
def membership (expr : List Char) : Option (List Char) :=
  (splitOnce "includes".toList expr).bind fun (left, right) =>
    if trim left = "user.roles".toList then some (trimMatches (fun c => c = '\'' || c = '"') (trim right)) else none

/-- Whether the tenant decides. -/
def mentionsTenant (expr : List Char) : Bool := containsText "tenant_id".toList expr && containsText "==".toList expr

variable (fromStr : String → Option Json)

/-- The clause of an equality, when its right side is a field of the row or a literal. -/
def equalityClause (userValue : Option Json) (right : List Char) : Option WhereClause :=
  match stripStart "object.".toList right with
  | some field => some (.field [String.ofList field] .eq (userValue.getD .null))
  | none =>
    if (fromStr (String.ofList right)).isSome then some (.field ["_literal_"] .eq (userValue.getD .null)) else none

def evaluateRlsExpression (expression : String) (ctx : SecurityContext) : Except FraiseQLError (Option WhereClause) :=
  let expr := trim expression.toList
  match (equality expr).bind fun (field, right) => equalityClause fromStr (extractUserValue field ctx) right with
  | some clause => .ok (some clause)
  | none =>
    if (membership expr).any (hasRole ctx) then .ok none
    else match (if mentionsTenant expr then ctx.tenantId else none) with
      | some tenantId => .ok (some (.field ["tenant_id"] .eq (.str tenantId)))
      | none => .error (.validation ("Unrecognised RLS expression: '" ++ String.ofList expr ++ "'") none)

/-! ### The policy -/

/-- `RLSRule`; its name is never read. -/
structure Rule where
  expression : String
  cacheable : Bool
  cacheTtlSeconds : Option UInt64

/-- `CompiledRLSPolicy`, without its cache. -/
structure Policy where
  rulesByType : List (String × List Rule)
  defaultRule : Option Rule

structure CacheEntry where
  result : Option WhereClause
  expiresAt : UInt64

abbrev Cache := String → Option CacheEntry

/-- A call of `evaluate`, with the clock as it is read at the lookup and at the insertion. -/
structure EvaluateCall where
  ctx : SecurityContext
  typeName : String
  now : UInt64
  stored : UInt64

namespace Policy

variable (policy : Policy)

/-- The rule of a type, or the default. -/
def ruleFor (typeName : String) : Option Rule :=
  ((policy.rulesByType.lookup typeName).bind List.head?).or policy.defaultRule

def isAdmin (ctx : SecurityContext) : Bool := ctx.roles.contains "admin"

/-- The rule that answers a call; administrators bypass all rules. -/
def ruleOf (call : EvaluateCall) : Option Rule :=
  if isAdmin call.ctx then none else policy.ruleFor call.typeName

/-- The cache key of a call, when its rule may be cached. -/
def cacheKey (call : EvaluateCall) : Option String :=
  (policy.ruleOf call).bind fun rule =>
    if rule.cacheable then some (call.ctx.userId ++ ":" ++ call.typeName) else none

/-- Evaluation without the cache. -/
def uncached (call : EvaluateCall) : Except FraiseQLError (Option WhereClause) :=
  match policy.ruleOf call with
  | none => .ok none
  | some rule => evaluateRlsExpression fromStr rule.expression call.ctx

/-- The entry that an evaluated call leaves, with the deadline in wrapping arithmetic. -/
def entryOf (call : EvaluateCall) (result : Option WhereClause) : Option CacheEntry :=
  ((policy.ruleOf call).bind Rule.cacheTtlSeconds).map fun ttl => ⟨result, call.stored + ttl⟩

/-- The live entry of a call. -/
def cached (cache : Cache) (call : EvaluateCall) : Option CacheEntry :=
  ((policy.cacheKey call).bind cache).filter fun entry => call.now < entry.expiresAt

def store (cache : Cache) (call : EvaluateCall) (result : Option WhereClause) : Cache :=
  match policy.cacheKey call, policy.entryOf call result with
  | some key, some entry => Function.update cache key (some entry)
  | _, _ => cache

/-- `CompiledRLSPolicy::evaluate`: the answer, and the cache it leaves. -/
def evaluate (cache : Cache) (call : EvaluateCall) : Except FraiseQLError (Option WhereClause) × Cache :=
  match policy.cached cache call with
  | some entry => (.ok entry.result, cache)
  | none =>
    match policy.uncached fromStr call with
    | .ok result => (.ok result, policy.store cache call result)
    | .error e => (.error e, cache)

end Policy

/-! ### Runs -/

/-- The cache, and the calls with their answers, the latest first. -/
structure State where
  cache : Cache
  answers : List (EvaluateCall × Except FraiseQLError (Option WhereClause))

def start : State := ⟨fun _ => none, []⟩

def step (policy : Policy) (s : State) (call : EvaluateCall) : State :=
  let (answer, cache) := policy.evaluate fromStr s.cache call
  ⟨cache, (call, answer) :: s.answers⟩

/-- Every call so far was answered as without the cache. -/
def Transparent (policy : Policy) (s : State) : Prop :=
  ∀ entry ∈ s.answers, entry.2 = policy.uncached fromStr entry.1

/-- The parts of a user that an expression mentions. -/
structure ContextView where
  userValue : Option (Option Json)
  role : Option Bool
  tenantId : Option (Option String)

def contextView (expression : String) (ctx : SecurityContext) : ContextView :=
  let expr := trim expression.toList
  ⟨(equality expr).map fun (field, _) => extractUserValue field ctx, (membership expr).map (hasRole ctx),
    if mentionsTenant expr then some ctx.tenantId else none⟩

/-- Two calls with one expression, whose users agree on the parts that it mentions. -/
def Alike (policy : Policy) (a b : EvaluateCall) : Prop :=
  ∃ rule rule', policy.ruleOf a = some rule ∧ policy.ruleOf b = some rule' ∧ rule.expression = rule'.expression ∧
    contextView rule.expression a.ctx = contextView rule.expression b.ctx

/-- A call that an earlier one may have left an entry for: it has the same key and comes before the entry's
deadline. -/
def Shares (policy : Policy) (earlier call : EvaluateCall) : Prop :=
  ∃ key, policy.cacheKey earlier = some key ∧ policy.cacheKey call = some key ∧
    ∃ ttl, (policy.ruleOf earlier).bind Rule.cacheTtlSeconds = some ttl ∧ call.now < earlier.stored + ttl

/-- The condition on a call: it is alike every earlier call that it may share an entry with. -/
def Separated (policy : Policy) (s : State) (call : EvaluateCall) : Prop :=
  ∀ entry ∈ s.answers, Shares policy entry.1 call → Alike policy entry.1 call

/-! ### Transparency -/

section Transparency

variable {fromStr : String → Option Json} {policy : Policy} {s : State} {call : EvaluateCall}

/-- An expression sees no more of a user than its view. -/
theorem evaluateRlsExpression_congr {expression : String} {a b : SecurityContext}
    (h : contextView expression a = contextView expression b) :
    evaluateRlsExpression fromStr expression a = evaluateRlsExpression fromStr expression b := by
  obtain ⟨huser, hrole, htenant⟩ := ContextView.mk.inj h
  have hequality : ((equality (trim expression.toList)).bind fun (field, right) =>
        equalityClause fromStr (extractUserValue field a) right) =
      (equality (trim expression.toList)).bind fun (field, right) =>
        equalityClause fromStr (extractUserValue field b) right := by
    cases hparts : equality (trim expression.toList) with
    | none => rfl
    | some parts =>
      rw [hparts] at huser
      have hvalue : extractUserValue parts.1 a = extractUserValue parts.1 b := some.inj huser
      show equalityClause fromStr (extractUserValue parts.1 a) parts.2 = _
      rw [hvalue]
      rfl
  have hmember : (membership (trim expression.toList)).any (hasRole a) =
      (membership (trim expression.toList)).any (hasRole b) := by
    cases hpart : membership (trim expression.toList) with
    | none => rfl
    | some role =>
      rw [hpart] at hrole
      exact some.inj hrole
  have htenants : (if mentionsTenant (trim expression.toList) then a.tenantId else none) =
      if mentionsTenant (trim expression.toList) then b.tenantId else none := by
    split_ifs at htenant ⊢ with hmentions
    · exact some.inj htenant
    · rfl
  unfold evaluateRlsExpression
  dsimp only
  rw [hequality, hmember, htenants]

theorem uncached_of_alike {earlier : EvaluateCall} (h : Alike policy earlier call) :
    policy.uncached fromStr earlier = policy.uncached fromStr call := by
  obtain ⟨rule, rule', hrule, hrule', hexpression, hview⟩ := h
  unfold Policy.uncached
  rw [hrule, hrule']
  show evaluateRlsExpression fromStr rule.expression earlier.ctx =
    evaluateRlsExpression fromStr rule'.expression call.ctx
  rw [← hexpression]
  exact evaluateRlsExpression_congr hview

/-- Every entry was left by an earlier call under its key, with what that call evaluates to. -/
def Recorded (fromStr : String → Option Json) (policy : Policy) (s : State) : Prop :=
  ∀ key entry, s.cache key = some entry → ∃ answered ∈ s.answers, policy.cacheKey answered.1 = some key ∧
    policy.entryOf answered.1 entry.result = some entry ∧
    policy.uncached fromStr answered.1 = .ok entry.result

/-- A live entry holds the answer of a call that the condition allows. -/
theorem cached_eq {entry : CacheEntry} (hrecorded : Recorded fromStr policy s) (hsep : Separated policy s call)
    (hcached : policy.cached s.cache call = some entry) : policy.uncached fromStr call = .ok entry.result := by
  obtain ⟨hentry, hlive⟩ := filter_eq_some_iff.mp hcached
  obtain ⟨key, hkey, hstored⟩ := bind_eq_some_iff.mp hentry
  obtain ⟨answered, hmem, hkey', hleft, hresult⟩ := hrecorded key entry hstored
  have hshares : Shares policy answered.1 call := by
    obtain ⟨ttl, httl, hdeadline⟩ := map_eq_some_iff.mp hleft
    refine ⟨key, hkey', hkey, ttl, httl, ?_⟩
    rw [← hdeadline] at hlive
    exact of_decide_eq_true hlive
  rw [← uncached_of_alike (hsep answered hmem hshares)]
  exact hresult

/-- The answer of an allowed call, and what the cache is after it. -/
theorem evaluate_eq (hrecorded : Recorded fromStr policy s) (hsep : Separated policy s call) :
    (policy.evaluate fromStr s.cache call).1 = policy.uncached fromStr call ∧
    ((policy.evaluate fromStr s.cache call).2 = s.cache ∨ ∃ result, policy.uncached fromStr call = .ok result ∧
      (policy.evaluate fromStr s.cache call).2 = policy.store s.cache call result) := by
  unfold Policy.evaluate
  cases hcached : policy.cached s.cache call with
  | some entry => exact ⟨(cached_eq hrecorded hsep hcached).symm, .inl rfl⟩
  | none =>
    cases huncached : policy.uncached fromStr call with
    | ok result => exact ⟨rfl, .inr ⟨result, rfl, rfl⟩⟩
    | error e => exact ⟨rfl, .inl rfl⟩

theorem store_eq_some {cache : Cache} {result : Option WhereClause} {key : String} {entry : CacheEntry}
    (h : policy.store cache call result key = some entry) : cache key = some entry ∨
      (policy.cacheKey call = some key ∧ policy.entryOf call result = some entry) := by
  unfold Policy.store at h
  cases hkey : policy.cacheKey call with
  | none =>
    rw [hkey] at h
    exact .inl h
  | some own =>
    cases hleft : policy.entryOf call result with
    | none =>
      rw [hkey, hleft] at h
      exact .inl h
    | some left =>
      rw [hkey, hleft] at h
      dsimp only at h
      by_cases hown : key = own
      · rw [hown, Function.update_self] at h
        exact .inr ⟨congrArg some hown.symm, h⟩
      · rw [Function.update_of_ne hown] at h
        exact .inl h

theorem entryOf_result {result : Option WhereClause} {entry : CacheEntry}
    (h : policy.entryOf call result = some entry) : entry.result = result := by
  obtain ⟨_, _, rfl⟩ := map_eq_some_iff.mp h
  rfl

theorem step_answers (s : State) (call : EvaluateCall) : (step fromStr policy s call).answers =
    (call, (policy.evaluate fromStr s.cache call).1) :: s.answers := by
  rfl

theorem step_cache (s : State) (call : EvaluateCall) :
    (step fromStr policy s call).cache = (policy.evaluate fromStr s.cache call).2 := by
  rfl

/-- What is kept by allowed calls. -/
def Inv (fromStr : String → Option Json) (policy : Policy) (s : State) : Prop :=
  Recorded fromStr policy s ∧ Transparent fromStr policy s

theorem inv_step (hinv : Inv fromStr policy s) (hsep : Separated policy s call) :
    Inv fromStr policy (step fromStr policy s call) := by
  obtain ⟨hrecorded, htransparent⟩ := hinv
  obtain ⟨hanswer, hcache⟩ := evaluate_eq hrecorded hsep
  constructor
  · intro key entry hafter
    rw [step_cache] at hafter
    have hearlier : s.cache key = some entry → ∃ answered ∈ (step fromStr policy s call).answers,
        policy.cacheKey answered.1 = some key ∧ policy.entryOf answered.1 entry.result = some entry ∧
        policy.uncached fromStr answered.1 = .ok entry.result := by
      intro hold
      obtain ⟨answered, hmem, hfacts⟩ := hrecorded key entry hold
      rw [step_answers]
      exact ⟨answered, mem_cons_of_mem _ hmem, hfacts⟩
    rcases hcache with hsame | ⟨result, hresult, hstore⟩
    · rw [hsame] at hafter
      exact hearlier hafter
    · rw [hstore] at hafter
      rcases store_eq_some hafter with hold | ⟨hkey, hleft⟩
      · exact hearlier hold
      · rw [step_answers]
        have hown : policy.entryOf call entry.result = some entry ∧
            policy.uncached fromStr call = .ok entry.result := by
          rw [entryOf_result hleft]
          exact ⟨hleft, hresult⟩
        apply Exists.intro (call, (policy.evaluate fromStr s.cache call).1)
        exact ⟨mem_cons_self, hkey, hown⟩
  · intro answered hmem
    rw [step_answers] at hmem
    rcases mem_cons.mp hmem with rfl | hmem
    · exact hanswer
    · exact htransparent answered hmem

/-- In a run whose calls are each alike the earlier ones that they may share an entry with, every call is answered
as without the cache. -/
theorem cache_transparent (fromStr : String → Option Json) (policy : Policy) {calls : List EvaluateCall}
    (h : EventRun.Along (step fromStr policy) (Separated policy) start calls) :
    Transparent fromStr policy (EventRun.run (step fromStr policy) start calls) := by
  have hstart : Inv fromStr policy start := by
    constructor
    · intro key entry hentry
      cases hentry
    · intro answered hmem
      exact absurd hmem not_mem_nil
  exact (h.invariant (fun _ _ hinv hsep => inv_step hinv hsep) hstart).2

end Transparency

/-- A rule that isolates tenants, cached for five minutes. -/
def tenantPolicy : Policy := ⟨[], some ⟨"user.tenant_id == object.tenant_id", true, some 300⟩⟩

def memberOf (tenant : String) : SecurityContext :=
  ⟨"ada", [], some tenant, [], [], "r1", none, 0, 3600, none, none⟩

def ordersOf (tenant : String) (now : UInt64) : EvaluateCall := ⟨memberOf tenant, "Order", now, now⟩

/-- Two calls for one tenant, and one for another tenant after the entry has expired. -/
theorem cache_transparent_tenants : Transparent (fun _ => none) tenantPolicy
    (EventRun.run (step (fun _ => none) tenantPolicy) start
      [ordersOf "acme" 0, ordersOf "acme" 10, ordersOf "bolt" 400]) := by
  refine cache_transparent _ _ ⟨?_, ?_, ?_, trivial⟩
  · intro entry hentry
    exact absurd hentry not_mem_nil
  · intro entry hentry _
    obtain rfl := mem_singleton.mp hentry
    exact ⟨_, _, rfl, rfl, rfl, rfl⟩
  · intro entry hentry hshares
    obtain ⟨_, _, _, ttl, httl, hlive⟩ := hshares
    have hcall : entry.1 = ordersOf "acme" 10 ∨ entry.1 = ordersOf "acme" 0 := by
      rcases mem_cons.mp hentry with rfl | hentry
      · exact .inl rfl
      · obtain rfl := mem_singleton.mp hentry
        exact .inr rfl
    rcases hcall with hcall | hcall
    · rw [hcall] at httl hlive
      obtain rfl : 300 = ttl := some.inj httl
      exact absurd hlive (by decide)
    · rw [hcall] at httl hlive
      obtain rfl : 300 = ttl := some.inj httl
      exact absurd hlive (by decide)

/-- The clock never goes back. -/
def Clocked (calls : List EvaluateCall) : Prop :=
  (∀ call ∈ calls, call.now ≤ call.stored) ∧ calls.Pairwise fun a b => a.stored ≤ b.now

/-- The same user in another tenant gets the clause of the first. -/
theorem cache_crosses_tenants : ¬∀ fromStr policy calls, Clocked calls →
    Transparent fromStr policy (EventRun.run (step fromStr policy) start calls) := by
  intro h
  have hclocked : Clocked [ordersOf "acme" 0, ordersOf "bolt" 10] := by
    constructor
    · simp [ordersOf]
    · simp [ordersOf]
  have htransparent := h (fun _ => none) tenantPolicy [ordersOf "acme" 0, ordersOf "bolt" 10] hclocked
  have hcrossed := htransparent (ordersOf "bolt" 10, .ok (some (.field ["tenant_id"] .eq (.str "acme"))))
    (mem_cons.mpr (.inl rfl))
  have hclause : (WhereClause.field ["tenant_id"] .eq (.str "acme")) = .field ["tenant_id"] .eq (.str "bolt") :=
    some.inj (Except.ok.inj hcrossed)
  injection hclause with _ _ hvalue
  injection hvalue with htext
  revert htext
  decide

end FraiseQL.Rls
