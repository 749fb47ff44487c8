import FraiseQL.EventRun
import FraiseQL.RestRoute
import Mathlib.Data.List.Sort

/-! Idempotency keys of POST requests (`rest/idempotency.rs` and `handle_post`). A request asks the store for its
key, runs the mutation and stores the response, in three steps that other requests can fall between; the store
knows a response by the key alone. Requests with one key run the mutation once as long as they do not overlap,
come from one user and path when their bodies hash alike, and have no array body. -/

namespace FraiseQL.Rest.Idempotency

structure StoredResponse where
  status : Nat
  headers : Headers
  body : Option Json

/-- `Entry`, with the request that wrote it. -/
structure Entry where
  response : StoredResponse
  bodyHash : UInt64
  createdAt : Nat
  origin : Nat

abbrev Entries := List (String × Entry)

/-- A POST request; its identifier is that of its header or a fresh one. -/
structure Post where
  relativePath : String
  body : Json
  idempotencyKey : Option String
  resolution : Option String
  requestId : String
  securityContext : Option SecurityContext

/-- How a request ends. -/
inductive Outcome where
  | failed (error : RestError)
  | replayed (origin : Nat) (response : RestResponse)
  | produced (response : RestResponse) (storedAt : Nat)

/-- How far a request is. -/
inductive Phase where
  | arrived
  /-- The store has no response, and the mutation is to be run. -/
  | admitted (mutation : String) (vars : List (String × Json)) (successStatus : Nat)
  /-- An array body; the mutation is to be run for each item. -/
  | bulk (mutation : String)
  /-- The mutation has run, and its response is to be stored. -/
  | executed (response : RestResponse)
  | returned (outcome : Outcome)

/-- What the handler reads of the schema, and the parts defined elsewhere: `xxh3` over the body's text, the order
in which the map is walked, and the response of `handle_bulk_insert` to the results of an array body. -/
structure Config where
  table : RestRouteTable
  upsertFunction : String → Option String
  hashBody : Json → UInt64
  bulkResponse : Post → Json → RestResponse
  ttl : Nat
  maxEntries : Nat
  walk : Entries → Entries
  walk_perm : ∀ entries, (walk entries).Perm entries

theorem id_perm (entries : Entries) : (id entries).Perm entries := .refl _

/-- The clock, the store, the requests in the order they came, and which of them ran their mutation, with what
success, the latest first. -/
structure World where
  now : Nat
  entries : Entries
  posts : List (Post × Phase)
  executions : List (Nat × Bool)

inductive Event where
  | arrive (post : Post)
  | check (i : Nat)
  | execute (i : Nat) (result : Except RestError Json)
  | store (i : Nat)
  | elapse (time : Nat)

namespace World

def start : World := ⟨0, [], [], []⟩

end World

variable (config : Config)

/-! ### The store -/

def expired (now : Nat) (entry : Entry) : Bool := decide (config.ttl < now - entry.createdAt)

inductive IdempotencyCheck where
  | new
  | replay (entry : Entry)
  | conflict

/-- `InMemoryIdempotencyStore::check`: the answer and the entries it leaves. -/
def check (now : Nat) (entries : Entries) (key : String) (bodyHash : UInt64) : IdempotencyCheck × Entries :=
  match entries.lookup key with
  | none => (.new, entries)
  | some entry =>
    if expired config now entry then (.new, entries.filter fun e => e.1 ≠ key)
    else if entry.bodyHash = bodyHash then (.replay entry, entries)
    else (.conflict, entries)

def evictExpired (now : Nat) (entries : Entries) : Entries :=
  let expiredKeys := (((config.walk entries).filter fun e => expired config now e.2).take 100).map Prod.fst
  entries.filter fun e => e.1 ∉ expiredKeys

def findOldestKey (entries : Entries) : Option String :=
  ((config.walk entries).mergeSort fun a b => decide (a.2.createdAt ≤ b.2.createdAt)).head?.map Prod.fst

def store (now : Nat) (entries : Entries) (key : String) (entry : Entry) : Entries :=
  let entries := evictExpired config now entries
  let entries :=
    if config.maxEntries ≤ entries.length then
      match findOldestKey config entries with
      | some oldest => entries.filter fun e => e.1 ≠ oldest
      | none => entries
    else entries
  entries.filter (fun e => e.1 ≠ key) ++ [(key, entry)]

/-! ### The handler -/

def storedResponseToRest (stored : StoredResponse) (requestId : String) : RestResponse :=
  let headers := stored.headers.foldl (fun hs h => insertHeader h.1 h.2 hs) (insertHeader "x-request-id" requestId [])
  ⟨(statusCode? stored.status).getD 200, insertHeader "idempotency-key" "replayed=true" headers, stored.body⟩

/-- The mutation to run: with a resolution preference the upsert function. -/
def effectiveMutation (name : String) (resolution : Option String) : Except RestError String :=
  match resolution with
  | some "merge-duplicates" | some "ignore-duplicates" =>
    match config.upsertFunction name with
    | some upsert => .ok upsert
    | none => .error (.badRequest "Upsert not available — no compiler-generated upsert function exists")
  | _ => .ok name

/-- The response to a mutation that ran. -/
def mutationResponse (post : Post) (successStatus : Nat) (result : Json) : RestResponse :=
  let headers := insertHeader "x-request-id" post.requestId []
  let headers := match post.resolution with
    | some resolution =>
      insertHeader "x-rows-affected" "1" (insertHeader "preference-applied" ("resolution=" ++ resolution) headers)
    | none => headers
  ⟨(statusCode? successStatus).getD 201, insertHeader "cache-control" "no-store" headers, some result⟩

/-- What follows when no response is stored: the mutation is to be run. -/
def admission (post : Post) (resolved : ResolvedRoute) (name : String) : Phase :=
  match effectiveMutation config name post.resolution with
  | .ok mutation =>
    .admitted mutation (buildMutationVariables resolved.pathParams post.body) resolved.route.successStatus
  | .error e => .returned (.failed e)

def conflictError : RestError :=
  ⟨422, "IDEMPOTENCY_CONFLICT", "Idempotency-Key reused with different request body", none⟩

/-- `handle_post` up to the execution of the mutation: the phase it leads to, and the entries it leaves. -/
def handlePost (now : Nat) (entries : Entries) (post : Post) : Phase × Entries :=
  match resolve config.table post.relativePath .post with
  | none => (.returned (.failed (.notFound "Route not found")), entries)
  | some resolved =>
    match mutationName "POST" resolved.route with
    | .error e => (.returned (.failed e), entries)
    | .ok name =>
      match post.body with
      | .arr _ =>
        if resolved.pathParams.isEmpty then (.bulk name, entries)
        else (.returned (.failed (.badRequest "Array body not allowed on single-resource endpoint")), entries)
      | body =>
        match post.idempotencyKey with
        | none => (admission config post resolved name, entries)
        | some key =>
          match check config now entries key (config.hashBody body) with
          | (.replay entry, entries) =>
            (.returned (.replayed entry.origin (storedResponseToRest entry.response post.requestId)), entries)
          | (.conflict, entries) => (.returned (.failed conflictError), entries)
          | (.new, entries) => (admission config post resolved name, entries)

/-! ### Steps -/

namespace World

variable (w : World)

def setPhase (i : Nat) (post : Post) (phase : Phase) : World := { w with posts := w.posts.set i (post, phase) }

/-- The mutation of a request runs, with the result of the database. -/
def execute (i : Nat) (result : Except RestError Json) : World :=
  match w.posts[i]? with
  | some (post, .admitted _ _ successStatus) =>
    match result with
    | .ok value =>
      { w with executions := (i, true) :: w.executions }.setPhase i post
        (.executed (mutationResponse post successStatus value))
    | .error e =>
      { w with executions := (i, false) :: w.executions }.setPhase i post (.returned (.failed e))
  | some (post, .bulk _) =>
    match result with
    | .ok value =>
      { w with executions := (i, true) :: w.executions }.setPhase i post
        (.returned (.produced (config.bulkResponse post value) w.now))
    | .error e =>
      { w with executions := (i, false) :: w.executions }.setPhase i post (.returned (.failed e))
  | _ => w

def storeResponse (i : Nat) : World :=
  match w.posts[i]? with
  | some (post, .executed response) =>
    let entries := match post.idempotencyKey with
      | none => w.entries
      | some key =>
        store config w.now w.entries key
          ⟨⟨response.status, response.headers, response.body⟩, config.hashBody post.body, w.now, i⟩
    { w with entries := entries }.setPhase i post (.returned (.produced response w.now))
  | _ => w

def step (w : World) : Event → World
  | .arrive post => { w with posts := w.posts ++ [(post, .arrived)] }
  | .check i =>
    match w.posts[i]? with
    | some (post, .arrived) =>
      let (phase, entries) := handlePost config w.now w.entries post
      { w with entries := entries }.setPhase i post phase
    | _ => w
  | .execute i result => w.execute config i result
  | .store i => w.storeResponse config i
  | .elapse time => { w with now := w.now + time }

end World

/-! ### The contract -/

/-- The user and tenant of a request. -/
def Post.principal (post : Post) : Option (String × Option String) :=
  post.securityContext.map fun user => (user.userId, user.tenantId)

/-- The route of a request and its path parameters. -/
def Post.route (post : Post) : Option (RestRoute × List (String × String)) :=
  (resolve config.table post.relativePath .post).map fun resolved => (resolved.route, resolved.pathParams)

/-- Two requests of one principal on one route. -/
def SameCaller (a b : Post) : Prop := a.principal = b.principal ∧ a.route config = b.route config

namespace World

variable (w : World)

/-- The request of a number, and how far it is. -/
def At (i : Nat) (post : Post) (phase : Phase) : Prop := w.posts[i]? = some (post, phase)

/-- The request of a number carries the key. -/
def Carries (i : Nat) (key : String) (post : Post) : Prop :=
  (∃ phase, w.At i post phase) ∧ post.idempotencyKey = some key

/-- The request of a number has succeeded with a response. -/
def Answers (i : Nat) (post : Post) (response : RestResponse) : Prop :=
  (∃ storedAt, w.At i post (.returned (.produced response storedAt))) ∨
    ∃ origin, w.At i post (.returned (.replayed origin response))

/-- What idempotency keys promise. -/
structure Contract : Prop where
  /-- Of equal requests at most one runs the mutation with success. -/
  once : w.executions.Pairwise fun later earlier => ∀ key a b, w.Carries later.1 key a → w.Carries earlier.1 key b →
    SameCaller config a b → a.body = b.body → earlier.2 = true → later.2 = false
  /-- All that succeed get the same status and body. -/
  sameAnswer : ∀ i j key a b r r', w.Carries i key a → w.Carries j key b → SameCaller config a b → a.body = b.body →
    w.Answers i a r → w.Answers j b r' → r.status = r'.status ∧ r.body = r'.body
  /-- After a success, a request with another body runs nothing. -/
  otherBody : w.executions.Pairwise fun later earlier => ∀ key a b, w.Carries later.1 key a →
    w.Carries earlier.1 key b → earlier.2 = true → a.body = b.body
  /-- A response is replayed to the caller it was produced for. -/
  ownReplay : ∀ i key post origin response, w.Carries i key post →
    w.At i post (.returned (.replayed origin response)) →
    ∃ producer phase, w.At origin producer phase ∧ SameCaller config post producer

/-- Where the contract is made: within the time to live of what was stored under the key, and with room in the
store. -/
def InScope (w : World) : Event → Prop
  | .check i => ∀ post, w.At i post .arrived → ∀ key, post.idempotencyKey = some key →
      ∀ j producer response storedAt, w.At j producer (.returned (.produced response storedAt)) →
        producer.idempotencyKey = some key → w.now - storedAt ≤ config.ttl
  | .store _ => w.entries.length < config.maxEntries
  | _ => True

/-- A request between its check and its end. -/
def Pending : Phase → Prop
  | .admitted .. => True
  | .bulk _ => True
  | .executed _ => True
  | _ => False

/-- Where a request with a key is kept apart from the others with that key: it has no array body, none of them is
between its check and its end, and those that were stored with an equal hash are of the same caller and have the
same body. -/
def Orderly (w : World) : Event → Prop
  | .check i => ∀ post, w.At i post .arrived → ∀ key, post.idempotencyKey = some key →
      post.body.asArray? = none ∧ ∀ j other phase, w.At j other phase → other.idempotencyKey = some key →
        ¬Pending phase ∧ ∀ response storedAt, phase = .returned (.produced response storedAt) →
          config.hashBody other.body = config.hashBody post.body → SameCaller config post other ∧ post.body = other.body
  | _ => True

end World

end FraiseQL.Rest.Idempotency
