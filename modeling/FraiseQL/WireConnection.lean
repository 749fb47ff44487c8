import FraiseQL.Json
import FraiseQL.WireScram

/-!
`connection/state.rs` and `connection/conn/core.rs`: the handshake and the streaming query of a
connection. A connection holds the messages that `receive_message` has yet to return; past them the
server has closed the stream. Writes go through. Every message received and sent, and every signature
accepted, is kept in the order of the client's steps.
-/

namespace FraiseQL.Wire

inductive ConnectionState where
  | initial
  | awaitingAuth
  | authenticating
  | idle
  | queryInProgress
  | readingResults
  | closed
  deriving DecidableEq

namespace ConnectionState

/-- The `Debug` form. -/
def debug : ConnectionState → String
  | .initial => "Initial"
  | .awaitingAuth => "AwaitingAuth"
  | .authenticating => "Authenticating"
  | .idle => "Idle"
  | .queryInProgress => "QueryInProgress"
  | .readingResults => "ReadingResults"
  | .closed => "Closed"

def display : ConnectionState → String
  | .initial => "initial"
  | .awaitingAuth => "awaiting_auth"
  | .authenticating => "authenticating"
  | .idle => "idle"
  | .queryInProgress => "query_in_progress"
  | .readingResults => "reading_results"
  | .closed => "closed"

def canTransitionTo : ConnectionState → ConnectionState → Bool
  | .initial, .awaitingAuth => true
  | .awaitingAuth, .authenticating => true
  | .authenticating, .idle => true
  | .readingResults, .idle => true
  | .idle, .queryInProgress => true
  | .queryInProgress, .readingResults => true
  | _, .closed => true
  | _, _ => false

end ConnectionState

/-- `ConnectionConfig`, the statement timeout in milliseconds. -/
structure ConnectionConfig where
  database : String
  user : String
  password : Option String := none
  params : List (String × String) := []
  statementTimeout : Option Nat := none
  applicationName : Option String := none
  extraFloatDigits : Option Int := none

/-- What a client did, one step at a time. -/
inductive Event where
  | received (msg : BackendMessage)
  | sent (msg : FrontendMessage)
  | verified (serverFinal : String)

structure Connection where
  inbox : List BackendMessage
  state : ConnectionState := .initial
  processId : Option Int := none
  secretKey : Option Int := none
  draws : Nat := 0
  trace : List Event := []

namespace Connection

variable (c : Connection)

def log (events : List Event) : Connection := { c with trace := c.trace ++ events }

def withInbox (rest : List BackendMessage) : Connection := { c with inbox := rest }

def drew : Connection := { c with draws := c.draws + 1 }

def withKeys (processId secretKey : Int) : Connection :=
  { c with processId := some processId, secretKey := some secretKey }

variable (events : List Event)

@[simp] theorem log_inbox : (c.log events).inbox = c.inbox := rfl

@[simp] theorem log_state : (c.log events).state = c.state := rfl

@[simp] theorem log_draws : (c.log events).draws = c.draws := rfl

@[simp] theorem log_trace : (c.log events).trace = c.trace ++ events := rfl

variable (rest : List BackendMessage)

@[simp] theorem withInbox_inbox : (c.withInbox rest).inbox = rest := rfl

@[simp] theorem withInbox_state : (c.withInbox rest).state = c.state := rfl

@[simp] theorem withInbox_draws : (c.withInbox rest).draws = c.draws := rfl

@[simp] theorem withInbox_trace : (c.withInbox rest).trace = c.trace := rfl

@[simp] theorem drew_inbox : c.drew.inbox = c.inbox := rfl

@[simp] theorem drew_state : c.drew.state = c.state := rfl

@[simp] theorem drew_draws : c.drew.draws = c.draws + 1 := rfl

@[simp] theorem drew_trace : c.drew.trace = c.trace := rfl

@[simp] theorem log_nil : c.log [] = c := by
  simp [log]

@[simp] theorem log_log (events more : List Event) :
    (c.log events).log more = c.log (events ++ more) := by
  simp [log]

@[simp] theorem withInbox_log (rest : List BackendMessage) :
    (c.log events).withInbox rest = (c.withInbox rest).log events := rfl

@[simp] theorem withInbox_drew : c.drew.withInbox rest = (c.withInbox rest).drew := rfl

@[simp] theorem withInbox_withInbox (first rest : List BackendMessage) :
    (c.withInbox first).withInbox rest = c.withInbox rest := rfl

end Connection

/-- What the client takes from other crates: the primitives of SCRAM, the random bytes of each draw and
the JSON parser. -/
structure Libraries where
  crypto : Crypto
  random : Nat → Bytes
  fromSlice : Bytes → Except WireError Json

/-- Libraries of which only the JSON parser is used: no SASL exchange comes about. -/
def Libraries.ofParser (fromSlice : Bytes → Except WireError Json) : Libraries where
  crypto := ⟨fun _ data => data, id, fun password _ _ => password, fun _ => "", fun _ => none⟩
  random := fun _ => []
  fromSlice := fromSlice

abbrev Client := EStateM WireError Connection

namespace Client

variable (lib : Libraries) (config : ConnectionConfig)

/-- An outcome that does not touch the connection. -/
def of {α : Type} : Except WireError α → Client α
  | .ok a => pure a
  | .error e => throw e

def record (event : Event) : Client Unit :=
  modify (·.log [event])

def transition (next : ConnectionState) : Client Unit := fun c =>
  if c.state.canTransitionTo next then .ok () { c with state := next }
  else .error (.invalidState ("valid transition from " ++ c.state.debug) next.debug) c

/-- `receive_message`, over the messages decoded from the stream. -/
def receiveMessage : Client BackendMessage := fun c =>
  match c.inbox with
  | [] => .error .connectionClosed c
  | msg :: rest => .ok msg ((c.withInbox rest).log [.received msg])

def sendMessage (msg : FrontendMessage) : Client Unit := record (.sent msg)

/-! Running a sequence of operations from a connection. -/

section Run

variable {α β : Type} {c : Connection}

@[simp] theorem of_ok_bind (a : α) (f : α → Client β) : (of (.ok a) >>= f) c = f a c := rfl

@[simp] theorem of_error_bind (e : WireError) (f : α → Client β) :
    (of (.error e) >>= f) c = .error e c := rfl

@[simp] theorem throw_apply (e : WireError) : (throw e : Client α) c = .error e c := rfl

@[simp] theorem pure_apply (a : α) : (pure a : Client α) c = .ok a c := rfl

@[simp] theorem record_apply (event : Event) :
    record event c = .ok () (c.log [event]) := rfl

@[simp] theorem sendMessage_bind (msg : FrontendMessage) (f : Unit → Client β) :
    (sendMessage msg >>= f) c = f () (c.log [.sent msg]) := rfl

theorem receiveMessage_bind_nil (h : c.inbox = []) (f : BackendMessage → Client β) :
    (receiveMessage >>= f) c = .error .connectionClosed c := by
  simp only [bind, EStateM.bind, receiveMessage, h]

theorem receiveMessage_bind_cons {msg : BackendMessage} {rest : List BackendMessage}
    (h : c.inbox = msg :: rest) (f : BackendMessage → Client β) :
    (receiveMessage >>= f) c = f msg ((c.withInbox rest).log [.received msg]) := by
  simp only [bind, EStateM.bind, receiveMessage, h]

theorem bind_ok {x : Client α} {f : α → Client β} {a : α} {c' : Connection} (h : x c = .ok a c') :
    (x >>= f) c = f a c' := by
  simp only [bind, EStateM.bind, h]

theorem bind_error {x : Client α} {f : α → Client β} {e : WireError} {c' : Connection}
    (h : x c = .error e c') : (x >>= f) c = .error e c' := by
  simp only [bind, EStateM.bind, h]

end Run

/-! ### SASL -/

def scramSha256 : String := "SCRAM-SHA-256"

/-- The password, when the server offers the one mechanism the client has. -/
def saslPassword (mechanisms : List String) : Except WireError String :=
  if !mechanisms.contains scramSha256 then
    .error (.authentication ("server does not support SCRAM-SHA-256. Available: " ++
      String.intercalate ", " mechanisms))
  else
    match config.password with
    | some password => .ok password
    | none => .error (.authentication "password required for SCRAM authentication")

def serverFirstData : BackendMessage → Except WireError Bytes
  | .authentication (.saslContinue data) => .ok data
  | .errorResponse err => .error (.authentication ("SASL server error: " ++ err.display))
  | _ => .error (.protocol "expected SaslContinue message during SASL authentication" none)

def serverFinalData : BackendMessage → Except WireError Bytes
  | .authentication (.saslFinal data) => .ok data
  | .errorResponse err => .error (.authentication ("SASL server error: " ++ err.display))
  | _ => .error (.protocol "expected SaslFinal message during SASL authentication" none)

/-- The text of a server message; the message names which. -/
def serverText (which : String) (data : Bytes) : Except WireError String :=
  match fromUtf8 data with
  | some text => .ok text
  | none => .error (.authentication ("invalid UTF-8 in server " ++ which ++ " message: "))

def scramFailure {α : Type} (context : String) : Except ScramError α → Except WireError α
  | .ok a => .ok a
  | .error e => .error (.authentication (context ++ e.display))

/-- The answer to the server's first message. -/
def answer (scram : ScramClient) (msg : BackendMessage) : Except WireError (String × ScramState) := do
  let data ← serverFirstData msg
  let serverFirst ← serverText "first" data
  scramFailure "SCRAM error: " (scram.clientFinal lib.crypto serverFirst)

/-- The server's final message, once its signature is accepted. -/
def verify (state : ScramState) (msg : BackendMessage) : Except WireError String := do
  let data ← serverFinalData msg
  let serverFinal ← serverText "final" data
  scramFailure "SCRAM verification failed: " (ScramClient.verifyServerFinal lib.crypto serverFinal state)
  return serverFinal

/-- The client of one SASL exchange, with the random bytes of its draw. -/
def scramClient (password : String) (draw : Nat) : ScramClient :=
  ScramClient.new lib.crypto config.user password (lib.random draw)

def newScram (password : String) : Client ScramClient := fun c =>
  .ok (scramClient lib config password c.draws) c.drew

@[simp] theorem newScram_bind {β : Type} {c : Connection} (password : String) (f : ScramClient → Client β) :
    (newScram lib config password >>= f) c =
      f (scramClient lib config password c.draws) c.drew := rfl

def handleSasl (mechanisms : List String) : Client Unit := do
  let password ← of (saslPassword config mechanisms)
  let scram ← newScram lib config password
  sendMessage (.saslInitialResponse scramSha256 (bytesOf scram.clientFirst))
  let serverFirst ← receiveMessage
  let (clientFinal, state) ← of (answer lib scram serverFirst)
  sendMessage (.saslResponse (bytesOf clientFinal))
  let serverFinal ← receiveMessage
  let accepted ← of (verify lib state serverFinal)
  record (.verified accepted)

/-! ### Startup -/

def passwordRequired : Except WireError String :=
  match config.password with
  | some password => .ok password
  | none => .error (.authentication "password required")

/-- `authenticate`, one message a turn. The loop ends at the latest when the messages do. -/
def authenticate : Nat → Client Unit
  | 0 => throw .connectionClosed
  | turns + 1 => do
    let msg ← receiveMessage
    match msg with
    | .authentication .ok => authenticate turns
    | .authentication .cleartextPassword => do
      let password ← of (passwordRequired config)
      sendMessage (.password password)
      authenticate turns
    | .authentication (.md5Password _) =>
      throw (.authentication
        "MD5 authentication not supported. Use SCRAM-SHA-256 or cleartext password")
    | .authentication (.sasl mechanisms) => do
      handleSasl lib config mechanisms
      authenticate turns
    | .authentication (.saslContinue _) =>
      throw (.protocol "unexpected SaslContinue outside of SASL flow" none)
    | .authentication (.saslFinal _) =>
      throw (.protocol "unexpected SaslFinal outside of SASL flow" none)
    | .backendKeyData processId secretKey => do
      modify (·.withKeys processId secretKey)
      authenticate turns
    | .parameterStatus _ _ => authenticate turns
    | .readyForQuery _ => return
    | .errorResponse err => throw (.authentication err.display)
    | msg => throw (.protocol "unexpected message during auth: " (some msg))

def protocolVersion : Int := 0x00030000

/-- The parameters of the startup message. -/
def startupParams : List (String × String) :=
  [("user", config.user), ("database", config.database)] ++
    (config.applicationName.map fun name => ("application_name", name)).toList ++
    (config.statementTimeout.map fun timeout => ("statement_timeout", toString timeout)).toList ++
    (config.extraFloatDigits.map fun digits => ("extra_float_digits", toString digits)).toList ++
    config.params

def startup : Client Unit := do
  transition .awaitingAuth
  sendMessage (.startup protocolVersion (startupParams config))
  transition .authenticating
  let c ← get
  authenticate lib config (c.inbox.length + 1)
  transition .idle

end Client

end FraiseQL.Wire
