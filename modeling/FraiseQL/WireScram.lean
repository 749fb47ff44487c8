import Mathlib.Data.List.Basic
import FraiseQL.WireMessage

/-!
`auth/scram.rs`: the client's part of SCRAM-SHA-256. The primitives of the hashing and Base64 crates and
the random source are parameters; the messages, their parsing and the comparison of the signatures are the
source's.
-/

namespace FraiseQL.Wire

/-- The functions of the `hmac`, `sha2`, `pbkdf2` and `base64` crates. -/
structure Crypto where
  hmac : Bytes → Bytes → Bytes
  sha256 : Bytes → Bytes
  pbkdf2 : Bytes → Bytes → Nat → Bytes
  base64Encode : Bytes → String
  base64Decode : String → Option Bytes

def maxScramIterations : Nat := 1000000

inductive ScramError where
  | invalidServerProof (text : String)
  | invalidServerMessage (text : String)
  | base64Error (text : String)

def ScramError.display : ScramError → String
  | .invalidServerProof text => "invalid server proof: " ++ text
  | .invalidServerMessage text => "invalid server message: " ++ text
  | .base64Error text => "Base64 error: " ++ text

structure ScramState where
  authMessage : Bytes
  serverKey : Bytes

structure ScramClient where
  username : String
  password : String
  nonce : String

/-- `String::into_bytes`. -/
def bytesOf (s : String) : Bytes := s.toUTF8.toList

def stripPrefix (start : String) (s : String) : Option String :=
  if start.toList.isPrefixOf s.toList then some (String.ofList (s.toList.drop start.toList.length)) else none

/-- `str::parse::<u32>`. -/
def parseU32 (s : String) : Option Nat :=
  let digits := match s.toList with
    | '+' :: cs => cs
    | cs => cs
  if digits ≠ [] ∧ digits.all Char.isDigit ∧ Nat.ofDigitChars 10 digits 0 < 2 ^ 32 then
    some (Nat.ofDigitChars 10 digits 0)
  else none

/-- The user name with `=` and `,` escaped. -/
def escapeUsername (username : String) : String :=
  String.ofList (username.toList.flatMap fun c =>
    if c = '=' then ['=', '3', 'D'] else if c = ',' then ['=', '2', 'C'] else [c])

/-- One part of the server's first message; a later part of a kind replaces an earlier one. -/
def readServerPart (fields : String × String × String) (part : String) : String × String × String :=
  match stripPrefix "r=" part with
  | some value => (value, fields.2.1, fields.2.2)
  | none =>
    match stripPrefix "s=" part with
    | some value => (fields.1, value, fields.2.2)
    | none =>
      match stripPrefix "i=" part with
      | some value => (fields.1, fields.2.1, value)
      | none => fields

/-- `parse_server_first`: the nonce, the salt and the iteration count as texts. -/
def parseServerFirst (msg : String) : Except ScramError (String × String × String) :=
  let parts := (msg.toList.splitOn ',').map String.ofList
  let fields := parts.foldl readServerPart ("", "", "")
  if fields.1 = "" ∨ fields.2.1 = "" ∨ fields.2.2 = "" then
    .error (.invalidServerMessage "missing required fields in server first message")
  else .ok fields

namespace ScramClient

variable (crypto : Crypto) (client : ScramClient)

/-- `ScramClient::new`, from the 24 bytes its random source gives. -/
def new (username password : String) (nonceBytes : Bytes) : ScramClient :=
  ⟨username, password, crypto.base64Encode nonceBytes⟩

def clientFirstBare : String :=
  "n=" ++ escapeUsername client.username ++ ",r=" ++ client.nonce

def clientFirst : String := "n,," ++ client.clientFirstBare

def saltedPassword (salt : Bytes) (iterations : Nat) : Bytes :=
  crypto.pbkdf2 (bytesOf client.password) salt iterations

def calculateClientProof (salt : Bytes) (iterations : Nat) (authMessage : Bytes) : Bytes :=
  let clientKey := crypto.hmac (client.saltedPassword crypto salt iterations) (bytesOf "Client Key")
  let storedKey := crypto.sha256 clientKey
  let clientSignature := crypto.hmac storedKey authMessage
  List.zipWith (· ^^^ ·) clientKey clientSignature ++ clientKey.drop clientSignature.length

def calculateServerKey (salt : Bytes) (iterations : Nat) : Bytes :=
  crypto.hmac (client.saltedPassword crypto salt iterations) (bytesOf "Server Key")

/-- `client_final`: the client's final message and what verifying the server's needs. -/
def clientFinal (serverFirst : String) : Except ScramError (String × ScramState) := do
  let (serverNonce, salt, iterations) ← parseServerFirst serverFirst
  if !client.nonce.toList.isPrefixOf serverNonce.toList then
    throw (.invalidServerMessage "server nonce doesn't contain client nonce")
  let saltBytes ← match crypto.base64Decode salt with
    | some bytes => pure bytes
    | none => throw (.base64Error "invalid salt encoding")
  let iterations ← match parseU32 iterations with
    | some n => pure n
    | none => throw (.invalidServerMessage "invalid iteration count")
  if maxScramIterations < iterations then
    throw (.invalidServerMessage ("server iteration count " ++ toString iterations ++
      " exceeds maximum of " ++ toString maxScramIterations))
  let clientFinalWithoutProof := "c=" ++ crypto.base64Encode (bytesOf "n,,") ++ ",r=" ++ serverNonce
  let authMessage := client.clientFirstBare ++ "," ++ serverFirst ++ "," ++ clientFinalWithoutProof
  let proof := client.calculateClientProof crypto saltBytes iterations (bytesOf authMessage)
  return (clientFinalWithoutProof ++ ",p=" ++ crypto.base64Encode proof,
    { authMessage := bytesOf authMessage
      serverKey := client.calculateServerKey crypto saltBytes iterations })

def verifyServerFinal (serverFinal : String) (state : ScramState) : Except ScramError Unit := do
  let encoded ← match stripPrefix "v=" serverFinal with
    | some encoded => pure encoded
    | none => throw (.invalidServerMessage "missing 'v=' prefix")
  let serverSignature ← match crypto.base64Decode encoded with
    | some signature => pure signature
    | none => throw (.base64Error "invalid server signature encoding")
  if serverSignature = crypto.hmac state.serverKey state.authMessage then return
  throw (.invalidServerProof "server signature verification failed")

end ScramClient

end FraiseQL.Wire
