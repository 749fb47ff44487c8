import FraiseQL.Outcome
import FraiseQL.Schema
import FraiseQL.WhereClause

/-! The authenticated user of a request and what is derived from it: injected parameters, session variables,
field access (`security_context.rs`, `executor/security.rs`, `field_filter.rs`). -/

namespace FraiseQL

/-- `SecurityContext`; a time is a number of time units since the epoch. -/
structure SecurityContext where
  userId : String
  roles : List String
  tenantId : Option String
  scopes : List String
  attributes : List (String × Json)
  requestId : String
  ipAddress : Option String
  authenticatedAt : Int
  expiresAt : Int
  issuer : Option String
  audience : Option String

namespace SecurityContext

def isExpired (ctx : SecurityContext) (now : Int) : Bool := decide (ctx.expiresAt ≤ now)

def canAccessScope (ctx : SecurityContext) (config : SecurityConfig) (required : String) : Bool :=
  ctx.roles.any fun role => config.roleHasScope role required

end SecurityContext

/-- `RLSPolicy::evaluate`: an error denies access, no clause allows every row. -/
abbrev RlsPolicy := SecurityContext → String → Except FraiseQLError (Option WhereClause)

/-- The value of a claim, if the token has it. -/
def claimValue (ctx : SecurityContext) (claim : String) : Option Json :=
  match claim with
  | "sub" => some (.str ctx.userId)
  | "tenant_id" | "org_id" => ctx.tenantId.map .str
  | other => ctx.attributes.lookup other

def resolveInjectValue (paramName : String) (source : InjectedParamSource) (ctx : SecurityContext) :
    Except FraiseQLError Json :=
  match source with
  | .jwt claim =>
    match claimValue ctx claim with
    | some value => .ok value
    | none => .error (.validation ("Inject param '" ++ paramName ++ "': JWT claim '" ++ claim ++
        "' not present in token") none)

def settingText : Json → String
  | .str s => s
  | value => value.text

/-- The value of one session variable, if its source has one. -/
def sessionValue (ctx : SecurityContext) : SessionVariableSource → Option String
  | .jwt claim =>
    match ctx.attributes.lookup claim with
    | some value => some (settingText value)
    | none =>
      if claim = "sub" ∨ claim = "user_id" then some ctx.userId
      else if claim = "tenant_id" then ctx.tenantId
      else none
  | .header name => (ctx.attributes.lookup name).map settingText
  | .literal value => some value

/-- `resolve_session_variables`; `startedAt` is the text of the current time. -/
def resolveSessionVariables (config : SessionVariablesConfig) (ctx : SecurityContext) (startedAt : String) :
    List (String × String) :=
  (if config.injectStartedAt then [("fraiseql.started_at", startedAt)] else []) ++
    config.mappings.filterMap fun (name, source) => (sessionValue ctx source).map fun value => (name, value)

/-! ### Field access -/

def canAccessField (ctx : SecurityContext) (config : SecurityConfig) (field : FieldDefinition) : Bool :=
  match field.requiresScope with
  | none => true
  | some scope => ctx.canAccessScope config scope

/-- `FieldAccessResult`. -/
structure FieldAccess where
  allowed : List String
  masked : List String

/-- `classify_field_access`; the error is the first field that is rejected. -/
def classifyFieldAccess (ctx : SecurityContext) (config : SecurityConfig) (fields : List FieldDefinition) :
    List String → Except String FieldAccess
  | [] => .ok ⟨[], []⟩
  | name :: names =>
    match fields.find? fun f => f.name = name with
    | none => (classifyFieldAccess ctx config fields names).map fun access =>
      { access with allowed := name :: access.allowed }
    | some field =>
      if canAccessField ctx config field then
        (classifyFieldAccess ctx config fields names).map fun access =>
          { access with allowed := name :: access.allowed }
      else match field.onDeny with
        | .mask => (classifyFieldAccess ctx config fields names).map fun access =>
          { access with masked := name :: access.masked }
        | .reject => .error name

def applyFieldRbacFiltering (schema : CompiledSchema) (returnType : String) (fields : List String)
    (ctx : SecurityContext) : Except FraiseQLError FieldAccess :=
  match schema.security, schema.findType returnType with
  | some config, some typeDef =>
    match classifyFieldAccess ctx config typeDef.fields fields with
    | .ok access => .ok access
    | .error rejected => .error (.authorization ("Access denied: field '" ++ rejected ++ "' on type '" ++
        returnType ++ "' requires a scope you do not have") (some "read")
        (some (returnType ++ "." ++ rejected)))
  | _, _ => .ok ⟨fields, []⟩

end FraiseQL
