import FraiseQL.EventRun
import FraiseQL.SubscriptionEvents

/-! The subscription manager under concurrent calls (`subscription/manager.rs`). Subscriptions are stored by
identifier, and an index lists the identifiers of each connection. A call touches the two maps one atomic step
at a time, so a disconnect can fall between the step that lists a subscription and the step that stores it. The
maps agree whenever no call is under way, as long as disconnects and subscriptions keep out of each other's way
at three points. -/

namespace FraiseQL.Subscription

def maxSubscriptionsPerConnection : Nat := 100

/-- What a call has still to do. -/
inductive Call where
  /-- `subscribe_with_rls` before it lists the subscription. -/
  | subscribing (active : ActiveSubscription)
  /-- `subscribe_with_rls` after that, before it stores the subscription. -/
  | inserting (active : ActiveSubscription)
  /-- `unsubscribe`. -/
  | unsubscribing (id : Nat)
  /-- `unsubscribe` with the subscription removed, before it is taken off the index. -/
  | unlisting (id : Nat) (connectionId : String)
  /-- `unsubscribe_connection` before its first pass, or its second. -/
  | disconnecting (connectionId : String) (second : Bool)
  /-- A pass of `unsubscribe_connection`, with the identifiers it has still to remove. -/
  | removing (connectionId : String) (second : Bool) (ids : List Nat)
  | returned

/-- A call to be made. -/
inductive Request where
  | subscribe (request : SubscribeRequest)
  | unsubscribe (id : Nat)
  | unsubscribeConnection (connectionId : String)

/-- A call begins, the call of a number does its next step, or an event is published. -/
inductive Event where
  | call (request : Request)
  | advance (call : Nat)
  | publish (event : SubscriptionEvent)

/-- `SubscriptionManager`, the calls so far, the request behind each identifier and the payloads sent. -/
structure Manager where
  subscriptions : List ActiveSubscription
  subscriptionsByConnection : String → Option (List Nat)
  sequenceCounter : Nat
  calls : List Call
  requests : Nat → Option SubscribeRequest
  sent : List SubscriptionPayload

namespace Manager

def start : Manager := ⟨[], fun _ => none, 1, [], fun _ => none, []⟩

/-- The identifiers that a connection lists. -/
def listed (m : Manager) (connectionId : String) : List Nat :=
  (m.subscriptionsByConnection connectionId).getD []

/-- A call does a step and goes on as another. -/
def goOn (m : Manager) (i : Nat) (call : Call) : Manager := { m with calls := m.calls.set i call }

/-- `subscriptions.remove`. -/
def remove (m : Manager) (id : Nat) : Manager :=
  { m with subscriptions := m.subscriptions.filter fun active => active.id ≠ id }

/-- An entry of the index is written, or taken away. -/
def index (m : Manager) (connectionId : String) (ids : Option (List Nat)) : Manager :=
  { m with subscriptionsByConnection := Function.update m.subscriptionsByConnection connectionId ids }

/-- The next atomic step of a call. -/
def advance (m : Manager) (i : Nat) : Manager :=
  match m.calls[i]? with
  | some (.subscribing active) =>
    let ids := m.listed active.connectionId
    if maxSubscriptionsPerConnection ≤ ids.length then
      (m.index active.connectionId (some ids)).goOn i .returned
    else (m.index active.connectionId (some (ids ++ [active.id]))).goOn i (.inserting active)
  | some (.inserting active) =>
    { m with subscriptions := active :: m.subscriptions }.goOn i .returned
  | some (.unsubscribing id) =>
    match m.subscriptions.find? fun active => active.id = id with
    | none => m.goOn i .returned
    | some active => (m.remove id).goOn i (.unlisting id active.connectionId)
  | some (.unlisting id c) =>
    match m.subscriptionsByConnection c with
    | none => m.goOn i .returned
    | some ids => (m.index c (some (ids.filter (· ≠ id)))).goOn i .returned
  | some (.disconnecting c second) => (m.index c none).goOn i (.removing c second (m.listed c))
  | some (.removing c second (id :: ids)) => (m.remove id).goOn i (.removing c second ids)
  | some (.removing c false []) => m.goOn i (.disconnecting c true)
  | some (.removing _ true []) => m.goOn i .returned
  | some .returned => m
  | none => m

/-- A call begins; a subscription that the schema does not have is refused before it draws an identifier. -/
def begin (schema : String → Option SubscriptionDefinition) (m : Manager) : Request → Manager
  | .subscribe request =>
    match schema request.subscriptionName with
    | none => m
    | some definition =>
      { m with
        calls := m.calls ++ [.subscribing (.ofRequest m.calls.length definition request)]
        requests := Function.update m.requests m.calls.length (some request) }
  | .unsubscribe id => { m with calls := m.calls ++ [.unsubscribing id] }
  | .unsubscribeConnection c => { m with calls := m.calls ++ [.disconnecting c false] }

/-- `publish_event`; every subscription is looked at in the same moment. -/
def publish (host : Host) (m : Manager) (event : SubscriptionEvent) : Manager :=
  let event := { event with sequenceNumber := m.sequenceCounter }
  { m with
    sequenceCounter := m.sequenceCounter + 1
    sent := publishEvent host m.subscriptions event ++ m.sent }

def step (host : Host) (schema : String → Option SubscriptionDefinition) (m : Manager) : Event → Manager
  | .call request => m.begin schema request
  | .advance i => m.advance i
  | .publish event => m.publish host event

/-! ### The registry -/

/-- Every stored subscription is listed under its connection, and every listed identifier is stored with that
connection. -/
def Agree (m : Manager) : Prop :=
  (∀ active ∈ m.subscriptions, active.id ∈ m.listed active.connectionId) ∧
  ∀ c, ∀ id ∈ m.listed c, ∃ active ∈ m.subscriptions, active.id = id ∧ active.connectionId = c

/-- No connection lists more than the limit. -/
def Capped (m : Manager) : Prop := ∀ c, (m.listed c).length ≤ maxSubscriptionsPerConnection

def Quiescent (m : Manager) : Prop := ∀ call ∈ m.calls, call = .returned

/-- A disconnect of the connection returns in the run, and no subscription of the connection begins after that. -/
def LastDisconnect (host : Host) (schema : String → Option SubscriptionDefinition) (c : String)
    (events : List Event) : Prop :=
  ∃ before i after, events = before ++ .advance i :: after ∧
    (EventRun.run (step host schema) start before).calls[i]? = some (.removing c true []) ∧
    ∀ request, .call (.subscribe request) ∈ after → schema request.subscriptionName ≠ none → request.connectionId ≠ c

/-- The registry is consistent at the end of a run. -/
def Consistent (host : Host) (schema : String → Option SubscriptionDefinition) (events : List Event) : Prop :=
  let m := EventRun.run (step host schema) start events
  m.Capped ∧ (m.Quiescent → m.Agree ∧
    ∀ c, LastDisconnect host schema c events → ∀ active ∈ m.subscriptions, active.connectionId ≠ c)

/-- Where disconnects and subscriptions keep out of each other's way: a disconnect removes no subscription that is
listed and still to be stored, its second pass finds no subscription of the connection still to be listed, and none
begins while it finishes. -/
def Orderly (schema : String → Option SubscriptionDefinition) (m : Manager) : Event → Prop
  | .advance i =>
    match m.calls[i]? with
    | some (.removing _ _ (id :: _)) => ∀ active, .inserting active ∈ m.calls → active.id ≠ id
    | some (.disconnecting c true) => ∀ active, .subscribing active ∈ m.calls → active.connectionId ≠ c
    | _ => True
  | .call (.subscribe request) =>
    schema request.subscriptionName ≠ none → ∀ ids, .removing request.connectionId true ids ∉ m.calls
  | _ => True

end Manager

end FraiseQL.Subscription
