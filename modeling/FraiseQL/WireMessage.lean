import Mathlib.Algebra.Group.Int.Defs
import Mathlib.Algebra.GroupWithZero.Nat
import Mathlib.Data.List.Basic

/-!
The messages of the PostgreSQL wire protocol as `fraiseql-wire` knows them, the errors of the client, and
the two readings of bytes as text that it uses: `String::from_utf8`, which refuses what is not UTF-8, and
`String::from_utf8_lossy`, which puts U+FFFD in place of each maximal ill-formed part.
-/

namespace FraiseQL.Wire

abbrev Bytes := List UInt8

/-! ### Text -/

/-- The bytes `10xxxxxx` that continue a character. -/
def isContinuation (b : UInt8) : Bool := 0x80 ≤ b && b ≤ 0xBF

/-- The second byte a three- or four-byte character may have after its first. -/
def secondByte (first second : UInt8) : Bool :=
  match first with
  | 0xE0 => 0xA0 ≤ second && second ≤ 0xBF
  | 0xED => 0x80 ≤ second && second ≤ 0x9F
  | 0xF0 => 0x90 ≤ second && second ≤ 0xBF
  | 0xF4 => 0x80 ≤ second && second ≤ 0x8F
  | _ => isContinuation second

/-- `utf8_char_width`: the length a first byte announces, none for a byte that starts no character. -/
def utf8CharWidth (b : UInt8) : Nat :=
  if b ≤ 0x7F then 1
  else if 0xC2 ≤ b && b ≤ 0xDF then 2
  else if 0xE0 ≤ b && b ≤ 0xEF then 3
  else if 0xF0 ≤ b && b ≤ 0xF4 then 4
  else 0

def payload (b : UInt8) : Nat := b.toNat % 64

/-- The piece of text at the head of `first :: rest`: a character or an ill-formed part, and the number of
bytes of `rest` it takes. -/
def headPiece (first : UInt8) (rest : Bytes) : Option Char × Nat :=
  match utf8CharWidth first, rest with
  | 1, _ => (some (Char.ofNat first.toNat), 0)
  | 2, b :: _ =>
    if isContinuation b then (some (Char.ofNat (first.toNat % 32 * 64 + payload b)), 1) else (none, 0)
  | 3, b :: more =>
    if secondByte first b then
      match more with
      | c :: _ =>
        if isContinuation c then
          (some (Char.ofNat ((first.toNat % 16 * 64 + payload b) * 64 + payload c)), 2)
        else (none, 1)
      | [] => (none, 1)
    else (none, 0)
  | 4, b :: more =>
    if secondByte first b then
      match more with
      | c :: more =>
        if isContinuation c then
          match more with
          | d :: _ =>
            if isContinuation d then
              (some (Char.ofNat
                (((first.toNat % 8 * 64 + payload b) * 64 + payload c) * 64 + payload d)), 3)
            else (none, 2)
          | [] => (none, 2)
        else (none, 1)
      | [] => (none, 1)
    else (none, 0)
  | _, _ => (none, 0)

/-- The pieces of a byte string: its characters, with `none` for each ill-formed part. -/
def utf8Pieces : Nat → Bytes → List (Option Char)
  | 0, _ => []
  | _ + 1, [] => []
  | fuel + 1, first :: rest =>
    (headPiece first rest).1 :: utf8Pieces fuel (rest.drop (headPiece first rest).2)

def fromUtf8Lossy (data : Bytes) : String :=
  String.ofList ((utf8Pieces data.length data).map fun piece => piece.getD (Char.ofNat 0xFFFD))

def fromUtf8 (data : Bytes) : Option String :=
  ((utf8Pieces data.length data).mapM id).map String.ofList

/-! ### Messages -/

inductive AuthenticationMessage where
  | ok
  | cleartextPassword
  | md5Password (salt : Bytes)
  | sasl (mechanisms : List String)
  | saslContinue (data : Bytes)
  | saslFinal (data : Bytes)
  deriving DecidableEq

structure FieldDescription where
  name : String
  tableOid : Int
  columnAttr : Int
  typeOid : Nat
  typeSize : Int
  typeModifier : Int
  formatCode : Int
  deriving DecidableEq

structure ErrorFields where
  severity : Option String := none
  code : Option String := none
  message : Option String := none
  detail : Option String := none
  hint : Option String := none
  position : Option String := none
  deriving DecidableEq

/-- `ErrorFields::fmt`. -/
def ErrorFields.display (fields : ErrorFields) : String :=
  (fields.message.getD "") ++
    match fields.code with
    | some code => " (" ++ code ++ ")"
    | none => ""

inductive BackendMessage where
  | authentication (auth : AuthenticationMessage)
  | backendKeyData (processId secretKey : Int)
  | commandComplete (tag : String)
  | dataRow (fields : List (Option Bytes))
  | errorResponse (fields : ErrorFields)
  | noticeResponse (fields : ErrorFields)
  | parameterStatus (name value : String)
  | readyForQuery (status : UInt8)
  | rowDescription (fields : List FieldDescription)
  deriving DecidableEq

inductive FrontendMessage where
  | startup (version : Int) (params : List (String × String))
  | password (password : String)
  | query (query : String)
  | terminate
  | saslInitialResponse (mechanism : String) (data : Bytes)
  | saslResponse (data : Bytes)

/-! ### Errors -/

/-- The kinds of `io::Error` the decoder raises. -/
inductive ErrorKind where
  | unexpectedEof
  | invalidData
  | unsupported
  deriving DecidableEq

structure IoError where
  kind : ErrorKind
  message : String
  deriving DecidableEq

/-- `WireError`, with the variants the modelled functions raise. A protocol error that prints a message in
its `Debug` form after its text keeps the message itself. -/
inductive WireError where
  | authentication (text : String)
  | protocol (text : String) (shown : Option BackendMessage)
  | sql (text : String)
  | jsonDecode (text : String)
  | invalidSchema (text : String)
  | connectionBusy (text : String)
  | invalidState (expected actual : String)
  | connectionClosed

end FraiseQL.Wire
