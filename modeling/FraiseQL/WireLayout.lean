import FraiseQL.WireDecode
import FraiseQL.WireText

/-!
The version 3 layout of the backend messages. `BackendMessage.encoding` is the frame a server writes for a
message; `BackendMessage.Layout` says which bodies stand for a message when what the protocol leaves to the
reader is left open: bytes after the layout, error fields the client does not know or that come twice, a
list of mechanisms longer than it keeps, text that is not UTF-8.
-/

namespace FraiseQL.Wire

open List

/-! ### Integers -/

/-- `i32::to_be_bytes`, for the value modulo `2 ^ 32`. -/
def i32Bytes (i : Int) : Bytes :=
  let n := (i % 2 ^ 32).toNat
  [UInt8.ofNat (n / 2 ^ 24), UInt8.ofNat (n / 2 ^ 16), UInt8.ofNat (n / 2 ^ 8), UInt8.ofNat n]

/-- `i16::to_be_bytes`, for the value modulo `2 ^ 16`. -/
def i16Bytes (i : Int) : Bytes :=
  let n := (i % 2 ^ 16).toNat
  [UInt8.ofNat (n / 2 ^ 8), UInt8.ofNat n]

def IsI32 (i : Int) : Prop := -2 ^ 31 ≤ i ∧ i < 2 ^ 31

def IsI16 (i : Int) : Prop := -2 ^ 15 ≤ i ∧ i < 2 ^ 15

instance : DecidablePred IsI32 := fun i => inferInstanceAs (Decidable (-2 ^ 31 ≤ i ∧ i < 2 ^ 31))

@[simp] theorem i32Bytes_length (i : Int) : (i32Bytes i).length = 4 := rfl

@[simp] theorem i16Bytes_length (i : Int) : (i16Bytes i).length = 2 := rfl

theorem i32FromBeBytes_isI32 (a b c d : UInt8) : IsI32 (i32FromBeBytes a b c d) := by
  have ha := a.toNat_lt
  have hb := b.toNat_lt
  have hc := c.toNat_lt
  have hd := d.toNat_lt
  simp only [IsI32, i32FromBeBytes]
  split <;> omega

theorem i16FromBeBytes_isI16 (a b : UInt8) : IsI16 (i16FromBeBytes a b) := by
  have ha := a.toNat_lt
  have hb := b.toNat_lt
  simp only [IsI16, i16FromBeBytes]
  split <;> omega

/-- The four bytes of an integer are read back as it. -/
theorem i32Bytes_eq {i : Int} (h : IsI32 i) :
    ∃ a b c d, i32Bytes i = [a, b, c, d] ∧ i32FromBeBytes a b c d = i := by
  refine ⟨_, _, _, _, rfl, ?_⟩
  obtain ⟨hlow, hhigh⟩ := h
  simp only [i32FromBeBytes, UInt8.toNat_ofNat']
  split <;> omega

theorem i32Bytes_append {i : Int} (h : IsI32 i) (rest : Bytes) :
    ∃ a b c d, i32Bytes i ++ rest = a :: b :: c :: d :: rest ∧ i32FromBeBytes a b c d = i := by
  obtain ⟨a, b, c, d, hbytes, hvalue⟩ := i32Bytes_eq h
  exact ⟨a, b, c, d, by rw [hbytes]; rfl, hvalue⟩

theorem i16Bytes_eq {i : Int} (h : IsI16 i) :
    ∃ a b, i16Bytes i = [a, b] ∧ i16FromBeBytes a b = i := by
  refine ⟨_, _, rfl, ?_⟩
  obtain ⟨hlow, hhigh⟩ := h
  simp only [i16FromBeBytes, UInt8.toNat_ofNat']
  split <;> omega

/-- Four bytes are the bytes of the integer they are read as. -/
theorem i32Bytes_fromBeBytes (a b c d : UInt8) : i32Bytes (i32FromBeBytes a b c d) = [a, b, c, d] := by
  have ha := a.toNat_lt
  have hb := b.toNat_lt
  have hc := c.toNat_lt
  have hd := d.toNat_lt
  have hmod : (i32FromBeBytes a b c d % 2 ^ 32).toNat =
      ((a.toNat * 256 + b.toNat) * 256 + c.toNat) * 256 + d.toNat := by
    simp only [i32FromBeBytes]
    split <;> omega
  simp only [i32Bytes, hmod, cons.injEq, and_true]
  refine ⟨byte_eq ?_, byte_eq ?_, byte_eq ?_, byte_eq ?_⟩ <;> omega

theorem i16Bytes_fromBeBytes (a b : UInt8) : i16Bytes (i16FromBeBytes a b) = [a, b] := by
  have ha := a.toNat_lt
  have hb := b.toNat_lt
  have hmod : (i16FromBeBytes a b % 2 ^ 16).toNat = a.toNat * 256 + b.toNat := by
    simp only [i16FromBeBytes]
    split <;> omega
  simp only [i16Bytes, hmod, cons.injEq, and_true]
  refine ⟨byte_eq ?_, byte_eq ?_⟩ <;> omega

/-! ### Strings -/

/-- A string and the zero byte that ends it. -/
def cString (s : String) : Bytes := bytesOf s ++ [0]

/-- A string that a zero byte can end. -/
def NulFree (s : String) : Prop := Char.ofNat 0 ∉ s.toList

instance (s : String) : Decidable (NulFree s) := inferInstanceAs (Decidable (¬ _))

theorem NulFree.zero_notMem {s : String} (h : NulFree s) : (0 : UInt8) ∉ bytesOf s := by
  rw [zero_mem_bytesOf]
  exact h

theorem splitNul_cons (b : UInt8) (rest : Bytes) : splitNul (b :: rest) =
    if b = 0 then some ([], rest) else (splitNul rest).map fun cut => (b :: cut.1, cut.2) := by
  by_cases hb : b = 0
  · simp [splitNul, hb]
  · simp only [splitNul, ne_eq, hb, not_false_eq_true, decide_true, dropWhile_cons_of_pos, if_false,
      takeWhile_cons_of_pos]
    split <;> rfl

theorem splitNul_append {raw : Bytes} (rest : Bytes) (h : 0 ∉ raw) :
    splitNul (raw ++ 0 :: rest) = some (raw, rest) := by
  induction raw with
  | nil => rw [nil_append, splitNul_cons, if_pos rfl]
  | cons b raw ih =>
    obtain ⟨hb, hraw⟩ := ne_and_not_mem_of_not_mem_cons h
    rw [cons_append, splitNul_cons, if_neg (Ne.symm hb), ih hraw, Option.map_some]

theorem splitNul_of_notMem {data : Bytes} (h : 0 ∉ data) : splitNul data = none := by
  induction data with
  | nil => rfl
  | cons b data ih =>
    obtain ⟨hb, hdata⟩ := ne_and_not_mem_of_not_mem_cons h
    rw [splitNul_cons, if_neg (Ne.symm hb), ih hdata, Option.map_none]

/-- `splitNul` cuts at the first zero byte. -/
theorem splitNul_eq_some {data raw rest : Bytes} :
    splitNul data = some (raw, rest) ↔ data = raw ++ 0 :: rest ∧ 0 ∉ raw := by
  constructor
  · intro h
    have hmem : (0 : UInt8) ∈ data := by
      by_contra hnone
      rw [splitNul_of_notMem hnone] at h
      cases h
    obtain ⟨first, second, rfl, hfirst⟩ := eq_append_cons_of_mem hmem
    rw [splitNul_append second hfirst] at h
    cases h
    exact ⟨rfl, hfirst⟩
  · rintro ⟨rfl, hraw⟩
    exact splitNul_append rest hraw

theorem splitNul_eq_none {data : Bytes} : splitNul data = none ↔ 0 ∉ data := by
  constructor
  · intro h hmem
    obtain ⟨raw, rest, rfl, hraw⟩ := eq_append_cons_of_mem hmem
    rw [splitNul_append rest hraw] at h
    cases h
  · exact splitNul_of_notMem

/-! ### What a server writes -/

/-- A column of a `DataRow`: its length and its bytes, or `-1` for a null. -/
def dataRowField : Option Bytes → Bytes
  | none => i32Bytes (-1)
  | some value => i32Bytes value.length ++ value

/-- What describes a field after its name. -/
def fieldDescriptor (field : FieldDescription) : Bytes :=
  i32Bytes field.tableOid ++ i16Bytes field.columnAttr ++ i32Bytes field.typeOid ++
    i16Bytes field.typeSize ++ i32Bytes field.typeModifier ++ i16Bytes field.formatCode

def errorField (fieldType : Char) : Option String → Bytes
  | none => []
  | some text => UInt8.ofNat fieldType.toNat :: cString text

def ErrorFields.body (fields : ErrorFields) : Bytes :=
  errorField 'S' fields.severity ++ errorField 'C' fields.code ++ errorField 'M' fields.message ++
    errorField 'D' fields.detail ++ errorField 'H' fields.hint ++ errorField 'P' fields.position ++ [0]

def AuthenticationMessage.body : AuthenticationMessage → Bytes
  | .ok => i32Bytes 0
  | .cleartextPassword => i32Bytes 3
  | .md5Password salt => i32Bytes 5 ++ salt
  | .sasl mechanisms => i32Bytes 10 ++ mechanisms.flatMap cString ++ [0]
  | .saslContinue data => i32Bytes 11 ++ data
  | .saslFinal data => i32Bytes 12 ++ data

def BackendMessage.body : BackendMessage → Bytes
  | .authentication auth => auth.body
  | .backendKeyData processId secretKey => i32Bytes processId ++ i32Bytes secretKey
  | .commandComplete tag => cString tag
  | .dataRow fields => i16Bytes fields.length ++ fields.flatMap dataRowField
  | .errorResponse fields => fields.body
  | .noticeResponse fields => fields.body
  | .parameterStatus name value => cString name ++ cString value
  | .readyForQuery status => [status]
  | .rowDescription fields =>
    i16Bytes fields.length ++ fields.flatMap fun field => cString field.name ++ fieldDescriptor field

/-- The tag of a message, as its letter. -/
def BackendMessage.letter : BackendMessage → Char
  | .authentication _ => 'R'
  | .backendKeyData _ _ => 'K'
  | .commandComplete _ => 'C'
  | .dataRow _ => 'D'
  | .errorResponse _ => 'E'
  | .noticeResponse _ => 'N'
  | .parameterStatus _ _ => 'S'
  | .readyForQuery _ => 'Z'
  | .rowDescription _ => 'T'

/-- A frame: the tag, the length that counts itself and the body. -/
def frame (letter : Char) (body : Bytes) : Bytes :=
  UInt8.ofNat letter.toNat :: i32Bytes (body.length + 4) ++ body

def BackendMessage.encoding (msg : BackendMessage) : Bytes := frame msg.letter msg.body

/-! ### The limits -/

def FieldDescription.InRange (field : FieldDescription) : Prop :=
  IsI32 field.tableOid ∧ IsI16 field.columnAttr ∧ field.typeOid < 2 ^ 32 ∧ IsI16 field.typeSize ∧
    IsI32 field.typeModifier ∧ IsI16 field.formatCode

def ErrorFields.texts (fields : ErrorFields) : List String :=
  [fields.severity, fields.code, fields.message, fields.detail, fields.hint, fields.position].filterMap id

def ErrorFields.WithinLimits (fields : ErrorFields) : Prop :=
  ∀ text ∈ fields.texts, NulFree text ∧ (bytesOf text).length ≤ maxErrorFieldBytes

/-- A name in the list of mechanisms is not empty: the empty one ends the list. -/
def AuthenticationMessage.WithinLimits : AuthenticationMessage → Prop
  | .md5Password salt => salt.length = 4
  | .sasl mechanisms =>
    mechanisms.length ≤ maxSaslMechanisms ∧ ∀ name ∈ mechanisms, name ≠ "" ∧ NulFree name
  | _ => True

def BackendMessage.PartsWithinLimits : BackendMessage → Prop
  | .authentication auth => auth.WithinLimits
  | .backendKeyData processId secretKey => IsI32 processId ∧ IsI32 secretKey
  | .commandComplete tag => NulFree tag
  | .dataRow fields => fields.length ≤ maxFieldCount
  | .errorResponse fields => fields.WithinLimits
  | .noticeResponse fields => fields.WithinLimits
  | .parameterStatus name value =>
    NulFree name ∧ (bytesOf name).length ≤ maxParameterNameBytes ∧
      NulFree value ∧ (bytesOf value).length ≤ maxParameterValueBytes
  | .readyForQuery _ => True
  | .rowDescription fields =>
    fields.length ≤ maxFieldCount ∧ ∀ field ∈ fields, NulFree field.name ∧ field.InRange

/-- The messages the decoder is meant for: the values of the message types, within the limits of the module,
whose length a frame can give. -/
def BackendMessage.WithinLimits (msg : BackendMessage) : Prop :=
  msg.PartsWithinLimits ∧ msg.body.length + 4 < 2 ^ 31

/-! ### What a client accepts -/

/-- The bytes of a string without its end, and the text the client makes of them. -/
def Spells (raw : Bytes) (text : String) : Prop := 0 ∉ raw ∧ fromUtf8Lossy raw = text

def lastText (fieldType : Char) (entries : List (UInt8 × Bytes)) : Option String :=
  (entries.reverse.find? fun entry => entry.1 = UInt8.ofNat fieldType.toNat).map fun entry =>
    fromUtf8Lossy entry.2

/-- The fields of an error are those of the known types, a later one in place of an earlier. They end with
the body or at a zero byte. -/
def ErrorFields.Layout (fields : ErrorFields) (body : Bytes) : Prop :=
  ∃ (entries : List (UInt8 × Bytes)) (extra : Bytes),
    body = (entries.flatMap fun entry => entry.1 :: entry.2 ++ [0]) ++ extra ∧
    (extra = [] ∨ extra.head? = some 0) ∧
    (∀ entry ∈ entries, entry.1 ≠ 0 ∧ 0 ∉ entry.2 ∧ entry.2.length ≤ maxErrorFieldBytes) ∧
    fields =
      { severity := lastText 'S' entries, code := lastText 'C' entries, message := lastText 'M' entries
        detail := lastText 'D' entries, hint := lastText 'H' entries, position := lastText 'P' entries }

/-- The list of mechanisms ends at an empty name, where no zero byte ends a name, or when it has as many
names as the client keeps. -/
def AuthenticationMessage.Layout : AuthenticationMessage → Bytes → Prop
  | .ok, body => ∃ extra, body = i32Bytes 0 ++ extra
  | .cleartextPassword, body => ∃ extra, body = i32Bytes 3 ++ extra
  | .md5Password salt, body => salt.length = 4 ∧ ∃ extra, body = i32Bytes 5 ++ salt ++ extra
  | .sasl mechanisms, body =>
    ∃ (names : List Bytes) (extra : Bytes),
      body = i32Bytes 10 ++ (names.flatMap fun name => name ++ [0]) ++ extra ∧
      (∀ name ∈ names, name ≠ [] ∧ 0 ∉ name) ∧
      mechanisms = names.map fromUtf8Lossy ∧ names.length ≤ maxSaslMechanisms ∧
      (names.length = maxSaslMechanisms ∨ 0 ∉ extra ∨ extra.head? = some 0)
  | .saslContinue data, body => body = i32Bytes 11 ++ data
  | .saslFinal data, body => body = i32Bytes 12 ++ data

/-- The body stands for the message. -/
def BackendMessage.Layout : BackendMessage → Bytes → Prop
  | .authentication auth, body => auth.Layout body
  | .backendKeyData processId secretKey, body =>
    IsI32 processId ∧ IsI32 secretKey ∧
      ∃ extra, body = i32Bytes processId ++ i32Bytes secretKey ++ extra
  | .commandComplete tag, body => ∃ raw extra, body = raw ++ 0 :: extra ∧ Spells raw tag
  | .dataRow fields, body =>
    fields.length ≤ maxFieldCount ∧ (∀ value, some value ∈ fields → value.length < 2 ^ 31) ∧
      ∃ extra, body = i16Bytes fields.length ++ fields.flatMap dataRowField ++ extra
  | .errorResponse fields, body => fields.Layout body
  | .noticeResponse fields, body => fields.Layout body
  | .parameterStatus name value, body =>
    ∃ rawName rawValue extra, body = rawName ++ 0 :: rawValue ++ 0 :: extra ∧
      Spells rawName name ∧ rawName.length ≤ maxParameterNameBytes ∧
      Spells rawValue value ∧ rawValue.length ≤ maxParameterValueBytes
  | .readyForQuery status, body => ∃ extra, body = status :: extra
  | .rowDescription fields, body =>
    ∃ (entries : List (Bytes × FieldDescription)) (extra : Bytes),
      entries.length ≤ maxFieldCount ∧ fields = entries.map Prod.snd ∧
      (∀ entry ∈ entries, Spells entry.1 entry.2.name ∧ entry.2.InRange) ∧
      body = i16Bytes entries.length ++
        (entries.flatMap fun entry => entry.1 ++ 0 :: fieldDescriptor entry.2) ++ extra

end FraiseQL.Wire
