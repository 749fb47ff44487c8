import FraiseQL.MapEntries
import FraiseQL.RustText

/-! Subscriptions and the events they are matched with (`runtime/subscription`). A subscription is created from
its definition in the schema; an event is delivered for it when the type, the operation, the row security
conditions and the filters all fit. -/

namespace FraiseQL.Subscription

open RustText

/-! ### Pointers into event data -/

/-- One segment of a path: a member of an object, or an element of an array by its index. -/
def child (data : Json) (segment : String) : Option Json :=
  match data with
  | .obj entries => Json.lookup segment entries
  | .arr items => (index segment.toList).bind (items[·]?)
  | _ => none
where
  /-- `parse_index` of JSON pointers: no sign, no leading zero. -/
  index (digits : List Char) : Option Nat :=
    if digits ≠ [] ∧ digits.all Char.isDigit ∧ (digits.head? = some '0' → digits.length = 1) then
      some (digits.foldl (fun n c => 10 * n + (c.toNat - '0'.toNat)) 0)
    else none

/-- The value that a path leads to. -/
def valueAt (data : Json) (path : List String) : Option Json := path.foldlM child data

/-- `replace` of a two character text by one character. -/
def replacePair (a b by' : Char) : List Char → List Char
  | x :: y :: cs => if x = a ∧ y = b then by' :: replacePair a b by' cs else x :: replacePair a b by' (y :: cs)
  | cs => cs

/-- A segment of a pointer without its escapes. -/
def unescape (segment : List Char) : List Char := replacePair '~' '0' '~' (replacePair '~' '1' '/' segment)

def pointer (data : Json) (path : List Char) : Option Json :=
  match path with
  | [] => some data
  | '/' :: rest => valueAt data ((rest.splitOn '/').map fun segment => String.ofList (unescape segment))
  | _ => none

def getJsonPointerValue (data : Json) (path : String) : Option Json :=
  pointer data (if path.toList.head? = some '/' then path.toList
    else '/' :: path.toList.map fun c => if c = '.' then '/' else c)

/-! ### Definitions, subscriptions and events -/

inductive FilterOperator where
  | eq | ne | gt | gte | lt | lte | contains | startsWith | endsWith
  deriving DecidableEq

structure StaticFilterCondition where
  path : String
  operator : FilterOperator
  value : Json

structure SubscriptionFilter where
  argumentPaths : List (String × String)
  staticFilters : List StaticFilterCondition

structure SubscriptionDefinition where
  name : String
  returnType : String
  topic : Option String
  filter : Option SubscriptionFilter
  fields : List String
  filterFields : List String

inductive SubscriptionOperation where
  | create | update | delete
  deriving DecidableEq

structure SubscriptionEvent where
  eventId : String
  entityType : String
  entityId : String
  operation : SubscriptionOperation
  timestamp : Nat
  sequenceNumber : Nat
  data : Json
  oldData : Option Json

/-- `ActiveSubscription`; an identifier is the number of the call that draws it. -/
structure ActiveSubscription where
  id : Nat
  subscriptionName : String
  definition : SubscriptionDefinition
  userContext : Json
  variableValues : Json
  connectionId : String
  rlsConditions : List (String × Json)

structure SubscriptionPayload where
  subscriptionId : Nat
  subscriptionName : String
  event : SubscriptionEvent
  data : Json

/-- The arguments of `subscribe_with_rls`. -/
structure SubscribeRequest where
  subscriptionName : String
  userContext : Json
  variableValues : Json
  connectionId : String
  rlsConditions : List (String × Json)

/-- The argument paths with one entry for each filter field that has none. -/
def expandFilterFields (definition : SubscriptionDefinition) : SubscriptionDefinition :=
  if definition.filterFields.isEmpty then definition
  else
    let filter := definition.filter.getD ⟨[], []⟩
    let paths := definition.filterFields.foldl (fun paths field =>
      if (paths.lookup field).isSome then paths else paths ++ [(field, "/" ++ field)]) filter.argumentPaths
    { definition with filter := some { filter with argumentPaths := paths } }

/-- The subscription that a request creates. -/
def ActiveSubscription.ofRequest (id : Nat) (definition : SubscriptionDefinition) (request : SubscribeRequest) :
    ActiveSubscription :=
  ⟨id, request.subscriptionName, expandFilterFields definition, request.userContext, request.variableValues,
    request.connectionId, request.rlsConditions⟩

/-! ### Matching -/

/-- `to_lowercase`, the equality of `serde_json` values (floats compare as floats), and the order of numbers. -/
structure Host where
  toLowercase : String → String
  valueEq : Json → Json → Bool
  compareNumbers : JsonNumber → JsonNumber → Option Ordering

variable (host : Host)

def compareValues : Json → Json → Option Ordering
  | .num a, .num b => host.compareNumbers a b
  | .str a, .str b => some (compare a b)
  | .bool a, .bool b => some (compare a b)
  | .null, .null => some .eq
  | _, _ => none

def evaluateFilterCondition (actual : Option Json) (operator : FilterOperator) (expected : Json) : Bool :=
  match actual with
  | none => decide (operator = .eq) && decide (expected = .null)
  | some actual =>
    match operator with
    | .eq => host.valueEq actual expected
    | .ne => !host.valueEq actual expected
    | .gt => decide (compareValues host actual expected = some .gt)
    | .gte => decide (compareValues host actual expected = some .gt ∨ compareValues host actual expected = some .eq)
    | .lt => decide (compareValues host actual expected = some .lt)
    | .lte => decide (compareValues host actual expected = some .lt ∨ compareValues host actual expected = some .eq)
    | .contains =>
      match actual, expected with
      | .arr items, value => items.any (host.valueEq · value)
      | .str s, .str sub => containsText sub.toList s.toList
      | _, _ => false
    | .startsWith =>
      match actual, expected with
      | .str s, .str start => start.toList.isPrefixOf s.toList
      | _, _ => false
    | .endsWith =>
      match actual, expected with
      | .str s, .str tail => tail.toList.isSuffixOf s.toList
      | _, _ => false

/-- The operation that a topic names. -/
def expectedOperation (topic : String) : Option SubscriptionOperation :=
  let t := (host.toLowercase topic).toList
  let names := fun word : String => containsText word.toList t
  if names "created" || names "insert" then some .create
  else if names "updated" || names "update" then some .update
  else if names "deleted" || names "delete" then some .delete
  else none

/-- Whether the value a pointer leads to is the expected one. -/
def holdsAt (data : Json) (path : String) (expected : Json) : Bool :=
  (getJsonPointerValue data path).any (host.valueEq · expected)

def matchesSubscription (event : SubscriptionEvent) (subscription : ActiveSubscription) : Bool :=
  decide (subscription.definition.returnType = event.entityType) &&
  ((subscription.definition.topic.bind (expectedOperation host)).all fun op => op = event.operation) &&
  (subscription.rlsConditions.all fun (field, expected) => holdsAt host event.data field expected) &&
  subscription.definition.filter.all fun filter =>
    (filter.argumentPaths.all fun (arg, path) =>
      (subscription.variableValues.get? arg).all fun expected => holdsAt host event.data path expected) &&
    filter.staticFilters.all fun condition =>
      evaluateFilterCondition host (getJsonPointerValue event.data condition.path) condition.operator condition.value

def projectEventData (event : SubscriptionEvent) (subscription : ActiveSubscription) : Json :=
  if subscription.definition.fields.isEmpty then event.data
  else
    .obj (subscription.definition.fields.foldl (fun projected field =>
      let value := if field.toList.head? = some '/' then getJsonPointerValue event.data field else event.data.get? field
      match value with
      | some v => insertEntry (String.ofList (field.toList.dropWhile (· = '/'))) v projected
      | none => projected) [])

/-- `publish_event` on the stored subscriptions: the payloads it sends. -/
def publishEvent (subscriptions : List ActiveSubscription) (event : SubscriptionEvent) : List SubscriptionPayload :=
  (subscriptions.filter (matchesSubscription host event)).map fun subscription =>
    ⟨subscription.id, subscription.subscriptionName, event, projectEventData event subscription⟩

end FraiseQL.Subscription
