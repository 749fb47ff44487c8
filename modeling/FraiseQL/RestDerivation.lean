import FraiseQL.Mutation
import FraiseQL.RestParams
import Mathlib.Data.String.Basic

/-! How the REST routes are derived from a compiled schema (`rest/resource.rs`): operations are grouped by return type,
each group gives a resource, and routes of one method and one path text are refused. Diagnostics, which nothing reads,
are left out. -/

namespace FraiseQL.Rest

open RustText

/-! ### What routes are derived from -/

inductive DeleteResponse where
  | noContent | entity

/-- `RestConfig`, as routes are derived with it. -/
structure RouteConfig where
  included : List String := []
  excluded : List String := []
  deleteResponse : DeleteResponse := .noContent

/-- `QueryDefinition`, as routes are derived from it. -/
structure RouteQuery where
  name : String
  returnType : String
  returnsList : Bool
  arguments : List ArgumentDefinition
  sqlSource : Option String
  restPath : Option String
  restMethod : Option String

/-- `MutationDefinition`, as routes are derived from it. -/
structure RouteMutation where
  name : String
  returnType : String
  arguments : List ArgumentDefinition
  operation : MutationOperation
  restPath : Option String
  restMethod : Option String

/-- `CompiledSchema`, as routes are derived from it. -/
structure RouteSchema where
  types : List RestType
  queries : List RouteQuery
  mutations : List RouteMutation
  restConfig : Option RouteConfig

namespace RouteSchema

variable (schema : RouteSchema)

def config : RouteConfig := schema.restConfig.getD {}

def findType (name : String) : Option RestType := schema.types.find? fun t => t.name = name

end RouteSchema

/-! ### Names -/

def shouldSkipQuery (q : RouteQuery) : Bool :=
  "_aggregate".toList.isSuffixOf q.name.toList || "_window".toList.isSuffixOf q.name.toList

def isFilteredOut (config : RouteConfig) (name : String) : Bool :=
  (!config.included.isEmpty && !config.included.contains name) || config.excluded.contains name

def stripCqrsPrefix (name : List Char) : List Char :=
  (((stripStart "v_".toList name).or (stripStart "tv_".toList name)).or (stripStart "tb_".toList name)).getD name

section Derivation

-- `char::is_uppercase`, which follows the tables of Unicode.
variable (isUppercase : Char → Bool)

/-- A separator before every upper-case letter but the first character, and all in lower case. -/
def separateWords (separator : Char) : List Char → List Char
  | [] => []
  | c :: cs => c.toLower :: cs.flatMap fun d => if isUppercase d then [separator, d.toLower] else [d.toLower]

def typeNameToSnake (name : List Char) : List Char := separateWords isUppercase '_' name

def camelToKebab (name : List Char) : List Char :=
  match separateWords isUppercase '-' name with
  | '-' :: result => result
  | result => result

def simplePluralize (word : List Char) : List Char :=
  let endsWith (suffix : String) : Bool := suffix.toList.isSuffixOf word
  if endsWith "ics" || endsWith "ies" then word
  else if endsWith "ss" || endsWith "x" || endsWith "ch" || endsWith "sh" then word ++ "es".toList
  else if endsWith "s" then word ++ "es".toList
  else if endsWith "y" && !endsWith "ey" && !endsWith "ay" && !endsWith "oy" then word.dropLast ++ "ies".toList
  else word ++ "s".toList

def deriveResourceName (typeName : String) (queries : List RouteQuery) : String :=
  let fromType := String.ofList (simplePluralize (typeNameToSnake isUppercase typeName.toList))
  match queries.find? RouteQuery.returnsList with
  | some q => q.name
  | none =>
    match queries.head?.bind RouteQuery.sqlSource with
    | some sql =>
      let stripped := stripCqrsPrefix sql.toList
      if stripped.isEmpty then fromType else String.ofList (simplePluralize stripped)
    | none => fromType

def isIdLikeType : FieldType → Bool
  | .id | .uuid | .int | .string => true
  | _ => false

def detectIdArg (typeDef : RestType) (mutations : List RouteMutation) (queries : List RouteQuery) : Option String :=
  let allArgs := mutations.flatMap RouteMutation.arguments ++
    (queries.filter fun q => !q.returnsList).flatMap RouteQuery.arguments
  let primary (name : String) : Bool := "pk_".toList.isPrefixOf name.toList
  match allArgs.find? fun a => a.name = "id" && isIdLikeType a.argType with
  | some arg => some arg.name
  | none =>
    match allArgs.find? fun a => primary a.name && isIdLikeType a.argType with
    | some arg => some arg.name
    | none =>
      if typeDef.fields.any fun f => f.name = "id" then some "id"
      else (typeDef.fields.find? fun f => primary f.name).map RestField.name

/-- `derive_action_name`; case of ASCII letters does not count where the type's name is looked for. -/
def deriveActionName (mutationName typeName : String) : String :=
  let name := mutationName.toList
  let withoutType :=
    match RustText.splitOnce (typeName.toList.map Char.toLower) (name.map Char.toLower) with
    | some (before, _) => name.take before.length ++ name.drop (before.length + typeName.toList.length)
    | none => name
  String.ofList (camelToKebab isUppercase withoutType)

/-! ### Routes -/

def parseHttpMethod (s : String) : Option HttpMethod :=
  match String.ofList (s.toList.map Char.toUpper) with
  | "GET" => some .get
  | "POST" => some .post
  | "PUT" => some .put
  | "PATCH" => some .patch
  | "DELETE" => some .delete
  | _ => none

inductive UpdateCoverage where
  | full | partialFields

def isIdLikeArg (arg : ArgumentDefinition) : Bool :=
  (arg.name = "id" || "pk_".toList.isPrefixOf arg.name.toList) && isIdLikeType arg.argType

def classifyUpdateCoverage (m : RouteMutation) (writableNames : List String) : UpdateCoverage :=
  let mutationArgNames := (m.arguments.filter fun a => !isIdLikeArg a).map ArgumentDefinition.name
  if writableNames.all mutationArgNames.contains then .full else .partialFields

/-- `/users`. -/
def collectionPath (resourceName : String) : String := "/" ++ resourceName

/-- `/users/{id}`. -/
def memberPath (resourceName id : String) : String := "/" ++ resourceName ++ "/\x7b" ++ id ++ "\x7d"

/-- The route of a query: its override, or that of a list, or that of one entity. -/
def queryRoute (resourceName : String) (idArg : Option String) (q : RouteQuery) : Option RestRoute :=
  match q.restPath with
  | some path => some ⟨(q.restMethod.bind parseHttpMethod).getD .get, path, .query q.name, 200⟩
  | none =>
    if q.returnsList then some ⟨.get, collectionPath resourceName, .query q.name, 200⟩
    else idArg.map fun id => ⟨.get, memberPath resourceName id, .query q.name, 200⟩

def deriveMutationRoutes (m : RouteMutation) (typeName resourceName : String) (idArg : Option String)
    (writableNames : List String) (config : RouteConfig) : List RestRoute :=
  let action := deriveActionName isUppercase m.name typeName
  match m.operation with
  | .insert _ => [⟨.post, collectionPath resourceName, .mutation m.name, 201⟩]
  | .update _ =>
    match idArg, classifyUpdateCoverage m writableNames with
    | some id, .full =>
      [⟨.put, memberPath resourceName id, .mutation m.name, 200⟩,
        ⟨.patch, memberPath resourceName id, .mutation m.name, 200⟩]
    | some id, .partialFields => [⟨.patch, memberPath resourceName id ++ "/" ++ action, .mutation m.name, 200⟩]
    | none, _ => []
  | .delete _ =>
    let status := match config.deleteResponse with
      | .entity => 200
      | .noContent => 204
    idArg.toList.map fun id => ⟨.delete, memberPath resourceName id, .mutation m.name, status⟩
  | .custom =>
    match idArg with
    | some id => [⟨.post, memberPath resourceName id ++ "/" ++ action, .mutation m.name, 200⟩]
    | none => [⟨.post, collectionPath resourceName ++ "/" ++ action, .mutation m.name, 200⟩]

/-- The routes of a mutation: its override, or those of its operation. -/
def mutationRoutes (m : RouteMutation) (typeName resourceName : String) (idArg : Option String)
    (writableNames : List String) (config : RouteConfig) : List RestRoute :=
  match m.restPath with
  | some path => [⟨(m.restMethod.bind parseHttpMethod).getD .post, path, .mutation m.name, 200⟩]
  | none => deriveMutationRoutes isUppercase m typeName resourceName idArg writableNames config

/-- The routes that the operations returning a type ask for. -/
def deriveRoutes (typeDef : RestType) (queries : List RouteQuery) (mutations : List RouteMutation)
    (config : RouteConfig) : List RestRoute :=
  let resourceName := deriveResourceName isUppercase typeDef.name queries
  let idArg := detectIdArg typeDef mutations queries
  let writableNames := (typeDef.fields.filter fun f => !f.isPrimaryKey).map RestField.name
  queries.filterMap (queryRoute resourceName idArg) ++
    mutations.flatMap fun m => mutationRoutes isUppercase m typeDef.name resourceName idArg writableNames config

/-- `derive_resource`; a resource without routes is left out. -/
def deriveResource (typeDef : RestType) (queries : List RouteQuery) (mutations : List RouteMutation)
    (config : RouteConfig) : Option RestResource :=
  let routes := deriveRoutes isUppercase typeDef queries mutations config
  if routes.isEmpty then none
  else some ⟨deriveResourceName isUppercase typeDef.name queries, typeDef.name, detectIdArg typeDef mutations queries,
    routes⟩

namespace RouteSchema

variable (schema : RouteSchema)

/-- The queries that routes are derived for. -/
def exposedQueries : List RouteQuery :=
  schema.queries.filter fun q =>
    !shouldSkipQuery q && !isFilteredOut schema.config q.name && (schema.findType q.returnType).isSome

/-- The mutations that routes are derived for. -/
def exposedMutations : List RouteMutation :=
  schema.mutations.filter fun m => !isFilteredOut schema.config m.name && (schema.findType m.returnType).isSome

/-- The return types of the exposed operations, in order. -/
def exposedTypes : List RestType :=
  let names := schema.exposedQueries.map RouteQuery.returnType ++ schema.exposedMutations.map RouteMutation.returnType
  (names.dedup.insertionSort (· ≤ ·)).filterMap schema.findType

/-- The group of queries of a type. -/
def queriesOf (t : RestType) : List RouteQuery := schema.exposedQueries.filter fun q => q.returnType = t.name

/-- The group of mutations of a type. -/
def mutationsOf (t : RestType) : List RouteMutation := schema.exposedMutations.filter fun m => m.returnType = t.name

end RouteSchema

/-- The operation behind a route. -/
def RouteSource.operation : RouteSource → String
  | .query name => name
  | .mutation name => name

/-- `HttpMethod::fmt`. -/
def HttpMethod.text : HttpMethod → String
  | .get => "GET"
  | .post => "POST"
  | .put => "PUT"
  | .patch => "PATCH"
  | .delete => "DELETE"

/-- `detect_conflicts`, past the routes seen. -/
def detectConflictsFrom (seen : List ((HttpMethod × String) × String)) : List RestRoute → Except String Unit
  | [] => .ok ()
  | route :: routes =>
    match seen.lookup (route.method, route.path) with
    | some previous =>
      .error ("Route conflict: " ++ route.method.text ++ " " ++ route.path ++ " is claimed by both '" ++ previous ++
        "' and '" ++ route.source.operation ++ "'. Use `rest_path` override to resolve.")
    | none => detectConflictsFrom (((route.method, route.path), route.source.operation) :: seen) routes

def detectConflicts (resources : List RestResource) : Except String Unit :=
  detectConflictsFrom [] (resources.flatMap RestResource.routes)

def fromCompiledSchema (schema : RouteSchema) : Except String RestRouteTable := do
  let resources := schema.exposedTypes.filterMap fun t =>
    deriveResource isUppercase t (schema.queriesOf t) (schema.mutationsOf t) schema.config
  detectConflicts resources
  return resources

end Derivation

end FraiseQL.Rest
