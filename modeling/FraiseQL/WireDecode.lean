import FraiseQL.WireMessage

/-!
`protocol/decode.rs`: one backend message from the head of a buffer. The header is a tag and a length that
counts itself; the body is the part of the buffer the length names, and each decoder reads nothing else.
An offset into the body is kept as the bytes that follow it.
-/

namespace FraiseQL.Wire

def maxFieldCount : Nat := 2048

def maxErrorFieldBytes : Nat := 64 * 1024

def maxSaslMechanisms : Nat := 32

def maxParameterNameBytes : Nat := 256

def maxParameterValueBytes : Nat := 64 * 1024

/-- `i32::from_be_bytes`. -/
def i32FromBeBytes (a b c d : UInt8) : Int :=
  let n := ((a.toNat * 256 + b.toNat) * 256 + c.toNat) * 256 + d.toNat
  if n < 2 ^ 31 then n else (n : Int) - 2 ^ 32

/-- `i16::from_be_bytes`. -/
def i16FromBeBytes (a b : UInt8) : Int :=
  let n := a.toNat * 256 + b.toNat
  if n < 2 ^ 15 then n else (n : Int) - 2 ^ 16

abbrev IoResult := Except IoError

def eof (message : String) : IoError := ⟨.unexpectedEof, message⟩

def invalidData (message : String) : IoError := ⟨.invalidData, message⟩

/-- The bytes before the first zero byte and those after it. -/
def splitNul (data : Bytes) : Option (Bytes × Bytes) :=
  match data.dropWhile (· ≠ 0) with
  | [] => none
  | _ :: rest => some (data.takeWhile (· ≠ 0), rest)

/-- The loop over the mechanism names of a SASL request. It stops at the end, at an empty name, at a name
without its zero byte, and when it has as many names as it accepts. -/
def saslMechanisms : Nat → List String → Bytes → List String
  | 0, mechanisms, _ => mechanisms
  | fuel + 1, mechanisms, remaining =>
    match splitNul remaining with
    | none => mechanisms
    | some (name, rest) =>
      if fromUtf8Lossy name = "" then mechanisms
      else if maxSaslMechanisms ≤ mechanisms.length then mechanisms
      else saslMechanisms fuel (mechanisms ++ [fromUtf8Lossy name]) rest

def decodeAuthentication (data : Bytes) : IoResult BackendMessage :=
  match data with
  | a :: b :: c :: d :: rest =>
    match i32FromBeBytes a b c d with
    | 0 => .ok (.authentication .ok)
    | 3 => .ok (.authentication .cleartextPassword)
    | 5 =>
      if data.length < 8 then .error (eof "salt data")
      else .ok (.authentication (.md5Password (rest.take 4)))
    | 10 => .ok (.authentication (.sasl (saslMechanisms (rest.length + 1) [] rest)))
    | 11 => .ok (.authentication (.saslContinue rest))
    | 12 => .ok (.authentication (.saslFinal rest))
    | authType => .error ⟨.unsupported, "unsupported auth type: " ++ toString authType⟩
  | _ => .error (eof "auth type")

def decodeBackendKeyData (data : Bytes) : IoResult BackendMessage :=
  match data with
  | a :: b :: c :: d :: e :: f :: g :: h :: _ =>
    .ok (.backendKeyData (i32FromBeBytes a b c d) (i32FromBeBytes e f g h))
  | _ => .error (eof "backend key data")

def decodeCommandComplete (data : Bytes) : IoResult BackendMessage :=
  match splitNul data with
  | none => .error (invalidData "missing null terminator in string")
  | some (tag, _) => .ok (.commandComplete (fromUtf8Lossy tag))

/-- The field count that opens a `DataRow` or a `RowDescription`, and the bytes after it. -/
def decodeFieldCount (message : String) (data : Bytes) : IoResult (Nat × Bytes) :=
  match data with
  | a :: b :: rest =>
    let count := i16FromBeBytes a b
    if count < 0 then .error (invalidData "negative field count")
    else if maxFieldCount < count.toNat then
      .error (invalidData (message ++ " field count " ++ toString count.toNat ++ " exceeds maximum " ++
        toString maxFieldCount))
    else .ok (count.toNat, rest)
  | _ => .error (eof "field count")

/-- The loop of `decode_data_row`. -/
def dataRowFields : Nat → Bytes → IoResult (List (Option Bytes))
  | 0, _ => .ok []
  | count + 1, a :: b :: c :: d :: rest =>
    let fieldLen := i32FromBeBytes a b c d
    if fieldLen = -1 then (dataRowFields count rest).map (none :: ·)
    else if fieldLen < 0 then .error (invalidData "negative field length")
    else if rest.length < fieldLen.toNat then .error (eof "field data")
    else (dataRowFields count (rest.drop fieldLen.toNat)).map (some (rest.take fieldLen.toNat) :: ·)
  | _ + 1, _ => .error (eof "field length")

def decodeDataRow (data : Bytes) : IoResult BackendMessage := do
  let (count, rest) ← decodeFieldCount "DataRow" data
  (dataRowFields count rest).map .dataRow

def setErrorField (fields : ErrorFields) (fieldType : UInt8) (value : String) : ErrorFields :=
  match Char.ofNat fieldType.toNat with
  | 'S' => { fields with severity := some value }
  | 'C' => { fields with code := some value }
  | 'M' => { fields with message := some value }
  | 'D' => { fields with detail := some value }
  | 'H' => { fields with hint := some value }
  | 'P' => { fields with position := some value }
  | _ => fields

/-- The loop of `decode_error_fields`; every turn but the last takes at least two bytes. -/
def errorFields : Nat → ErrorFields → Bytes → IoResult ErrorFields
  | 0, fields, _ => .ok fields
  | _ + 1, fields, [] => .ok fields
  | fuel + 1, fields, fieldType :: rest =>
    if fieldType = 0 then .ok fields
    else
      match splitNul rest with
      | none => .error (invalidData "missing null terminator in error field")
      | some (value, more) =>
        if maxErrorFieldBytes < value.length then
          .error (invalidData ("Error field too large (" ++ toString value.length ++ " bytes, max " ++
            toString maxErrorFieldBytes ++ ")"))
        else errorFields fuel (setErrorField fields fieldType (fromUtf8Lossy value)) more

def decodeErrorFields (data : Bytes) : IoResult ErrorFields :=
  errorFields (data.length + 1) {} data

def decodeParameterStatus (data : Bytes) : IoResult BackendMessage :=
  match splitNul data with
  | none => .error (invalidData "missing null terminator in parameter name")
  | some (name, rest) =>
    if maxParameterNameBytes < name.length then
      .error (invalidData ("Parameter name too long (" ++ toString name.length ++ " bytes, max " ++
        toString maxParameterNameBytes ++ ")"))
    else if rest = [] then .error (eof "parameter value")
    else
      match splitNul rest with
      | none => .error (invalidData "missing null terminator in parameter value")
      | some (value, _) =>
        if maxParameterValueBytes < value.length then
          .error (invalidData ("Parameter value too long (" ++ toString value.length ++ " bytes, max " ++
            toString maxParameterValueBytes ++ ")"))
        else .ok (.parameterStatus (fromUtf8Lossy name) (fromUtf8Lossy value))

def decodeReadyForQuery (data : Bytes) : IoResult BackendMessage :=
  match data with
  | [] => .error (eof "status byte")
  | status :: _ => .ok (.readyForQuery status)

def decodeFieldDescriptor (name : String) (data : Bytes) : IoResult (FieldDescription × Bytes) :=
  match data with
  | t0 :: t1 :: t2 :: t3 :: c0 :: c1 :: o0 :: o1 :: o2 :: o3 :: s0 :: s1 :: m0 :: m1 :: m2 :: m3 ::
      f0 :: f1 :: rest =>
      .ok ({ name
             tableOid := i32FromBeBytes t0 t1 t2 t3
             columnAttr := i16FromBeBytes c0 c1
             typeOid := (i32FromBeBytes o0 o1 o2 o3 % 2 ^ 32).toNat
             typeSize := i16FromBeBytes s0 s1
             typeModifier := i32FromBeBytes m0 m1 m2 m3
             formatCode := i16FromBeBytes f0 f1 }, rest)
  | _ => .error (eof "field descriptor")

/-- The loop of `decode_row_description`. -/
def rowDescriptionFields : Nat → Bytes → IoResult (List FieldDescription)
  | 0, _ => .ok []
  | count + 1, data =>
    match splitNul data with
    | none => .error (invalidData "missing null terminator in field name")
    | some (name, rest) => do
      let (field, rest) ← decodeFieldDescriptor (fromUtf8Lossy name) rest
      (rowDescriptionFields count rest).map (field :: ·)

def decodeRowDescription (data : Bytes) : IoResult BackendMessage := do
  let (count, rest) ← decodeFieldCount "RowDescription" data
  (rowDescriptionFields count rest).map .rowDescription

def decodeBody (tag : UInt8) (body : Bytes) : IoResult BackendMessage :=
  match Char.ofNat tag.toNat with
  | 'R' => decodeAuthentication body
  | 'K' => decodeBackendKeyData body
  | 'C' => decodeCommandComplete body
  | 'D' => decodeDataRow body
  | 'E' => (decodeErrorFields body).map .errorResponse
  | 'N' => (decodeErrorFields body).map .noticeResponse
  | 'S' => decodeParameterStatus body
  | 'Z' => decodeReadyForQuery body
  | 'T' => decodeRowDescription body
  | _ => .error (invalidData ("unknown message tag: " ++ toString tag.toNat))

/-- `decode_message`: the message and the number of bytes it took. -/
def decodeMessage (data : Bytes) : IoResult (BackendMessage × Nat) :=
  match data with
  | tag :: a :: b :: c :: d :: rest =>
    let len := i32FromBeBytes a b c d
    if len < 4 then .error (invalidData "message length too small")
    else if data.length < len.toNat + 1 then .error (eof "incomplete message body")
    else (decodeBody tag (rest.take (len.toNat - 4))).map fun msg => (msg, len.toNat + 1)
  | _ => .error (eof "incomplete message header")

end FraiseQL.Wire
