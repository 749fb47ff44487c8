import FraiseQL.Executor
import FraiseQL.RustText

/-! Routes of the REST transport (`routes/rest`): the route table and how a path is resolved in it, the
preferences of a request, errors, and the variables a mutation is called with. -/

namespace FraiseQL.Rest

open RustText

inductive HttpMethod where
  | get | post | put | patch | delete
  deriving DecidableEq

inductive RouteSource where
  | query (name : String)
  | mutation (name : String)
  deriving DecidableEq

structure RestRoute where
  method : HttpMethod
  path : String
  source : RouteSource
  successStatus : Nat
  deriving DecidableEq

structure RestResource where
  name : String
  typeName : String
  idArg : Option String
  routes : List RestRoute
  deriving DecidableEq

abbrev RestRouteTable := List RestResource

def pathSegments (path : String) : List (List Char) := (path.toList.splitOn '/').filter (· ≠ [])

/-- The name of a path parameter, written in braces. -/
def paramName? (pattern : List Char) : Option String :=
  if pattern.head? = some '\x7b' ∧ pattern.getLast? = some '\x7d' then
    some (String.ofList (pattern.drop 1).dropLast)
  else none

/-- The parameters of segments against a pattern of the same length. -/
def matchSegments : List (List Char) → List (List Char) → Option (List (String × String))
  | [], [] => some []
  | pattern :: patterns, actual :: actuals =>
    match paramName? pattern with
    | some name => (matchSegments patterns actuals).map fun params => (name, String.ofList actual) :: params
    | none => if pattern = actual then matchSegments patterns actuals else none
  | _, _ => none

def matchRoutePath (routePath : String) (segments : List (List Char)) : Option (List (String × String)) :=
  matchSegments (pathSegments routePath) segments

structure ResolvedRoute where
  resource : RestResource
  route : RestRoute
  pathParams : List (String × String)

def resolve (table : RestRouteTable) (relativePath : String) (method : HttpMethod) : Option ResolvedRoute :=
  table.findSome? fun resource => resource.routes.findSome? fun route =>
    if route.method = method then
      (matchRoutePath route.path (pathSegments relativePath)).map fun params => ⟨resource, route, params⟩
    else none

structure RestError where
  status : Nat
  code : String
  message : String
  details : Option Json

namespace RestError

def badRequest (message : String) : RestError := ⟨400, "BAD_REQUEST", message, none⟩

def notFound (message : String) : RestError := ⟨404, "NOT_FOUND", message, none⟩

def internal (message : String) : RestError := ⟨500, "INTERNAL_SERVER_ERROR", message, none⟩

end RestError

abbrev Headers := List (String × String)

/-- `HeaderMap::insert`. -/
def insertHeader (name value : String) (headers : Headers) : Headers :=
  headers.filter (fun header => header.1 ≠ name) ++ [(name, value)]

/-- `StatusCode::from_u16`. -/
def statusCode? (status : Nat) : Option Nat := if 100 ≤ status ∧ status ≤ 999 then some status else none

structure RestResponse where
  status : Nat
  headers : Headers
  body : Option Json

def mutationName (method : String) (route : RestRoute) : Except RestError String :=
  match route.source with
  | .mutation name => .ok name
  | .query _ => .error (.internal (method ++ " route backed by query"))

/-- An `i64` as a JSON number. -/
def jsonOfI64 (n : Int) : Json := .num (.int ⟨max (-2 ^ 63) (min n (2 ^ 63 - 1)), by omega⟩)

def coercePathParamValue (value : String) : Json :=
  match parseI64 value with
  | some n => jsonOfI64 n
  | none =>
    match value with
    | "true" => .bool true
    | "false" => .bool false
    | _ => .str value

/-- `build_mutation_variables`: fields of the body are inserted over the path parameters. -/
def buildMutationVariables (pathParams : List (String × String)) (body : Json) : List (String × Json) :=
  let params := pathParams.foldl (fun vars p => insertEntry p.1 (coercePathParamValue p.2) vars) []
  match body with
  | .obj entries => entries.foldl (fun vars e => insertEntry e.1 e.2 vars) params
  | _ => params

end FraiseQL.Rest
