import FraiseQL.WireConnection

/-!
`streaming_query`: the loop up to `RowDescription` and the background task that reads the rows. Rows are
collected in a chunk; a full chunk, and the last one at `CommandComplete`, is parsed and sent in batches
of eight. What the consumer does is a parameter: after how many items it drops its receiver, and before
which turn of the task's loop its cancellation is taken; pausing it only delays the loop.
-/

namespace FraiseQL.Wire

/-- `Result<Value>`, what the task sends. -/
abbrev Item := Except WireError Json

/-- The channel to the consumer: what was sent, and how many items the receiver still takes. -/
structure Channel where
  items : List Item := []
  room : Option Nat := none

/-- `result_tx.send`, and whether the receiver was there. -/
def Channel.send (channel : Channel) (item : Item) : Bool × Channel :=
  match channel.room with
  | none => (true, { channel with items := channel.items ++ [item] })
  | some 0 => (false, channel)
  | some (room + 1) => (true, { items := channel.items ++ [item], room := some room })

/-- Items sent one after another, up to the first that is not taken. -/
def Channel.sendAll : Channel → List Item → Bool × Channel
  | channel, [] => (true, channel)
  | channel, item :: items =>
    match channel.send item with
    | (true, channel) => channel.sendAll items
    | (false, channel) => (false, channel)

def batchSize : Nat := 8

def extractJsonBytes : BackendMessage → Except WireError Bytes
  | .dataRow fields =>
    match fields with
    | [some bytes] => .ok bytes
    | [none] => .error (.protocol "null data field" none)
    | _ => .error (.protocol ("expected 1 field, got " ++ toString fields.length) none)
  | _ => .error (.protocol "expected DataRow" none)

def isFull (chunkSize : Nat) (chunk : List Bytes) : Bool := chunkSize ≤ chunk.length

section Task

variable (lib : Libraries)

/-- The rows of a chunk, parsed and sent. A batch goes out when it has eight values, and what is left of
it at the end. A row that does not parse is reported at once and ends the chunk, the batch with it. -/
def sendRows : List Bytes → List Item → Channel → Channel
  | [], batch, channel => (channel.sendAll batch).2
  | row :: rows, batch, channel =>
    match lib.fromSlice row with
    | .ok value =>
      if (batch ++ [Except.ok value]).length = batchSize then
        match channel.sendAll (batch ++ [Except.ok value]) with
        | (true, channel) => sendRows rows [] channel
        | (false, channel) => channel
      else sendRows rows (batch ++ [Except.ok value]) channel
    | .error e => (channel.send (.error e)).2

/-- The background task: `cancel` counts the turns left before a cancellation is taken. -/
def rowLoop (chunkSize : Nat) : Option Nat → List BackendMessage → List Bytes → Channel → Channel
  | some 0, _, _, channel => channel
  | _, [], _, channel => (channel.send (.error .connectionClosed)).2
  | cancel, msg :: rest, chunk, channel =>
    match msg with
    | .dataRow _ =>
      match extractJsonBytes msg with
      | .ok bytes =>
        if isFull chunkSize (chunk ++ [bytes]) then
          rowLoop chunkSize (cancel.map (· - 1)) rest [] (sendRows lib (chunk ++ [bytes]) [] channel)
        else rowLoop chunkSize (cancel.map (· - 1)) rest (chunk ++ [bytes]) channel
      | .error e => (channel.send (.error e)).2
    | .commandComplete _ =>
      if chunk.isEmpty then rowLoop chunkSize (cancel.map (· - 1)) rest chunk channel
      else rowLoop chunkSize (cancel.map (· - 1)) rest [] (sendRows lib chunk [] channel)
    | .readyForQuery _ => channel
    | .errorResponse err => (channel.send (.error (.sql err.display))).2
    | msg => (channel.send (.error (.protocol "unexpected message: " (some msg)))).2

end Task

/-- What the consumer of a stream does. -/
structure Consumer where
  takes : Option Nat := none
  cancels : Option Nat := none

namespace Client

variable (lib : Libraries)

/-- After an error, the messages up to `ReadyForQuery`. -/
def skipToReady : Nat → Client Unit
  | 0 => throw .connectionClosed
  | turns + 1 => do
    let msg ← receiveMessage
    match msg with
    | .readyForQuery _ => return
    | _ => skipToReady turns

/-- The loop of `streaming_query` up to `RowDescription`. -/
def readHeader : Nat → Client BackendMessage
  | 0 => throw .connectionClosed
  | turns + 1 => do
    let msg ← receiveMessage
    match msg with
    | .errorResponse err => do
      skipToReady turns
      throw (.sql err.display)
    | .backendKeyData _ _ => readHeader turns
    | .parameterStatus _ _ => readHeader turns
    | .noticeResponse _ => readHeader turns
    | .rowDescription _ => return msg
    | .readyForQuery _ =>
      throw (.protocol ("no result set received from query - check that the entity name is correct " ++
        "and the table/view exists") none)
    | msg => throw (.protocol "unexpected message type in query response: " (some msg))

def isJsonOid (oid : Nat) : Bool := oid = 114 || oid = 3802

def validateRowDescription : BackendMessage → Except WireError Unit
  | .rowDescription [field] =>
    if field.name ≠ "data" then
      .error (.invalidSchema ("expected column named 'data', got '" ++ field.name ++ "'"))
    else if !isJsonOid field.typeOid then
      .error (.invalidSchema ("expected json/jsonb type, got OID " ++ toString field.typeOid))
    else .ok ()
  | .rowDescription fields =>
    .error (.invalidSchema ("expected 1 column, got " ++ toString fields.length))
  | _ => .error (.protocol "expected RowDescription" none)

/-- `streaming_query`: what the task sends to the consumer, once the header is read. -/
def streamingQuery (query : String) (chunkSize : Nat) (consumer : Consumer) : Client (List Item) := do
  let c ← get
  if c.state ≠ .idle then
    throw (.connectionBusy ("connection in state: " ++ c.state.display))
  transition .queryInProgress
  sendMessage (.query query)
  transition .readingResults
  let c ← get
  let rowDesc ← readHeader (c.inbox.length + 1)
  of (validateRowDescription rowDesc)
  let c ← get
  return (rowLoop lib chunkSize consumer.cancels c.inbox [] { room := consumer.takes }).items

end Client

end FraiseQL.Wire
