import FraiseQL.Outcome
import FraiseQL.WireConnection
import FraiseQL.WireLayout

/-!
`protocol/encode.rs`, and the reading of its frames at the other end. A `PostgreSQL` server knows from the
exchange it is in what to read a message as: a startup packet before anything else, one of three kinds of
`p` message while it authenticates, a query or the end of the session after that. It recovers the message
sent exactly when the message can be written at all, which the encoder never asks.
-/

namespace FraiseQL.Wire

open Outcome List Option Except

/-! ### The encoder -/

/-- The place held for the length, filled in when the body is written. -/
def withLength (body : Bytes) : Bytes := i32Bytes (body.length + 4) ++ body

def encodeStartup (version : Int) (params : List (String × String)) : IoResult Bytes :=
  .ok (withLength (i32Bytes version ++ (params.flatMap fun pair => cString pair.1 ++ cString pair.2) ++ [0]))

def encodePassword (password : String) : IoResult Bytes := .ok (112 :: withLength (cString password))

def encodeQuery (query : String) : IoResult Bytes := .ok (81 :: withLength (cString query))

def encodeTerminate : IoResult Bytes := .ok (88 :: i32Bytes 4)

def encodeSaslInitialResponse (mechanism : String) (data : Bytes) : IoResult Bytes :=
  .ok (112 :: withLength (cString mechanism ++ i32Bytes data.length ++ data))

def encodeSaslResponse (data : Bytes) : IoResult Bytes := .ok (112 :: withLength data)

def encodeMessage : FrontendMessage → IoResult Bytes
  | .startup version params => encodeStartup version params
  | .password password => encodePassword password
  | .query query => encodeQuery query
  | .terminate => encodeTerminate
  | .saslInitialResponse mechanism data => encodeSaslInitialResponse mechanism data
  | .saslResponse data => encodeSaslResponse data

/-! ### The server -/

/-- What the server reads the next message as. -/
inductive Expected where
  | startup
  | password
  | saslInitial
  | sasl
  | query
  deriving DecidableEq

/-- The exchange a message belongs to. -/
def FrontendMessage.expected : FrontendMessage → Expected
  | .startup _ _ => .startup
  | .password _ => .password
  | .query _ => .query
  | .terminate => .query
  | .saslInitialResponse _ _ => .saslInitial
  | .saslResponse _ => .sasl

/-- The body a length counts, and the bytes behind it. -/
def readBody (data : Bytes) : Option (Bytes × Bytes) :=
  match data with
  | a :: b :: c :: d :: rest =>
    let len := i32FromBeBytes a b c d
    if 4 ≤ len ∧ len.toNat - 4 ≤ rest.length then
      some (rest.take (len.toNat - 4), rest.drop (len.toNat - 4))
    else none
  | _ => none

/-- A string up to its zero byte, and what follows that. -/
def readString (data : Bytes) : Option (String × Bytes) :=
  (splitNul data).bind fun cut => (fromUtf8 cut.1).map fun text => (text, cut.2)

/-- The parameters of a startup packet: names and values in turn up to an empty name, which is the last
byte. -/
def readParams : Nat → Bytes → Option (List (String × String))
  | 0, _ => none
  | fuel + 1, data =>
    (readString data).bind fun key =>
      if key.1 = "" then (if key.2 = [] then some [] else none)
      else
        (readString key.2).bind fun value =>
          (readParams fuel value.2).map fun more => (key.1, value.1) :: more

def readStartup (body : Bytes) : Option FrontendMessage :=
  match body with
  | a :: b :: c :: d :: rest =>
    (readParams (rest.length + 1) rest).map fun params => .startup (i32FromBeBytes a b c d) params
  | _ => none

def readLoneString (body : Bytes) : Option String :=
  (readString body).bind fun text => if text.2 = [] then some text.1 else none

/-- The name of a mechanism and the data for it, as long as its length says. -/
def readSaslInitial (body : Bytes) : Option FrontendMessage :=
  (readString body).bind fun name =>
    match name.2 with
    | a :: b :: c :: d :: data =>
      if i32FromBeBytes a b c d = data.length then some (.saslInitialResponse name.1 data) else none
    | _ => none

/-- The body of a frame with a tag, in the exchange it is read in. -/
def readTagged (expected : Expected) (letter : Char) (body : Bytes) : Option FrontendMessage :=
  match expected, letter with
  | .password, 'p' => (readLoneString body).map .password
  | .saslInitial, 'p' => readSaslInitial body
  | .sasl, 'p' => some (.saslResponse body)
  | .query, 'Q' => (readLoneString body).map .query
  | .query, 'X' => if body = [] then some .terminate else none
  | _, _ => none

/-- The first message of a byte stream, and the bytes behind it. -/
def readFrontend (expected : Expected) (data : Bytes) : Option (FrontendMessage × Bytes) :=
  match expected, data with
  | .startup, data =>
    (readBody data).bind fun packet => (readStartup packet.1).map fun msg => (msg, packet.2)
  | _, [] => none
  | expected, tag :: data =>
    (readBody data).bind fun packet =>
      (readTagged expected (Char.ofNat tag.toNat) packet.1).map fun msg => (msg, packet.2)

/-! ### Messages that can be written -/

/-- The bytes of the body of a message. -/
def FrontendMessage.bodyLength : FrontendMessage → Nat
  | .startup _ params =>
    4 + (params.map fun pair => (bytesOf pair.1).length + 1 + ((bytesOf pair.2).length + 1)).sum + 1
  | .password text => (bytesOf text).length + 1
  | .query text => (bytesOf text).length + 1
  | .terminate => 0
  | .saslInitialResponse mechanism data => (bytesOf mechanism).length + 1 + 4 + data.length
  | .saslResponse data => data.length

/-- The strings of a message can be ended by a zero byte; a parameter has a name. -/
def FrontendMessage.StringsEndable : FrontendMessage → Prop
  | .startup _ params => ∀ pair ∈ params, pair.1 ≠ "" ∧ NulFree pair.1 ∧ NulFree pair.2
  | .password text => NulFree text
  | .query text => NulFree text
  | .saslInitialResponse mechanism _ => NulFree mechanism
  | .terminate => True
  | .saslResponse _ => True

/-- The protocol has a frame for the message. -/
def FrontendMessage.Representable (msg : FrontendMessage) : Prop :=
  msg.StringsEndable ∧ msg.bodyLength + 4 < 2 ^ 31

/-- The version of a startup message is an `i32`. -/
def FrontendMessage.Typed : FrontendMessage → Prop
  | .startup version _ => IsI32 version
  | _ => True

/-! ### Reading what was written -/

variable {body : Bytes}

theorem readBody_withLength {read behind : Bytes} : readBody (withLength body) = some (read, behind) ∧ behind = [] ↔
      body.length + 4 < 2 ^ 31 ∧ read = body ∧ behind = [] := by
  constructor
  · rintro ⟨h, rfl⟩
    have hbytes : withLength body = i32Bytes (body.length + 4) ++ body := rfl
    have hlen := congrArg List.length hbytes
    rw [length_append, i32Bytes_length] at hlen
    match hdata : withLength body, h with
    | a :: b :: c :: d :: rest, h =>
      have hrest : rest = body := by
        have hdrop := congrArg (List.drop 4) (hdata.symm.trans hbytes)
        simpa [i32Bytes] using hdrop
      have hrange := (i32FromBeBytes_isI32 a b c d).2
      simp only [readBody] at h
      split at h
      · next hfit =>
          obtain ⟨rfl, hdrop⟩ := Prod.mk.inj (Option.some.inj h)
          rw [drop_eq_nil_iff] at hdrop
          rw [hrest] at hfit hdrop ⊢
          refine ⟨by omega, take_of_length_le hdrop, rfl⟩
      · cases h
  · rintro ⟨hlen, rfl, rfl⟩
    refine ⟨?_, rfl⟩
    obtain ⟨a, b, c, d, hbytes, hvalue⟩ := i32Bytes_append (i := (read.length : Int) + 4)
      ⟨by omega, by omega⟩ read
    have hto : ((read.length : Int) + 4).toNat - 4 = read.length := by omega
    rw [withLength, hbytes]
    simp only [readBody, hvalue, hto, take_length, drop_length]
    rw [if_pos ⟨by omega, Nat.le_refl _⟩]

variable {data : Bytes}

theorem readString_eq_some {rest : Bytes} {text : String} :
    readString data = some (text, rest) ↔ data = cString text ++ rest ∧ NulFree text := by
  have hzero : NulFree text ↔ (0 : UInt8) ∉ bytesOf text := by
    rw [zero_mem_bytesOf]
    rfl
  simp only [readString, bind_eq_some_iff, map_eq_some_iff, Prod.mk.injEq, Prod.exists,
    splitNul_eq_some, fromUtf8_eq_some, hzero, cString, append_assoc, singleton_append]
  constructor
  · rintro ⟨raw, more, ⟨rfl, hraw⟩, text', rfl, rfl, rfl⟩
    exact ⟨rfl, hraw⟩
  · rintro ⟨rfl, hraw⟩
    exact ⟨_, _, ⟨rfl, hraw⟩, text, rfl, rfl, rfl⟩

theorem cString_empty : cString "" = [0] := by
  rw [cString, bytesOf_empty]
  rfl

theorem readParams_eq_some {fuel : Nat} {params : List (String × String)} (hfuel : data.length < fuel) :
    readParams fuel data = some params ↔
      data = (params.flatMap fun pair => cString pair.1 ++ cString pair.2) ++ [0] ∧
        ∀ pair ∈ params, pair.1 ≠ "" ∧ NulFree pair.1 ∧ NulFree pair.2 := by
  induction fuel generalizing data params with
  | zero => omega
  | succ fuel ih =>
    simp only [readParams, bind_eq_some_iff, Prod.exists, readString_eq_some]
    constructor
    · rintro ⟨key, rest, ⟨rfl, hkey⟩, h⟩
      split at h
      · next hempty =>
          split at h
          · next hend =>
              cases h
              rw [hempty, hend, cString_empty]
              exact ⟨rfl, by simp⟩
          · cases h
      · next hname =>
          simp only [bind_eq_some_iff, map_eq_some_iff, Prod.exists,
            readString_eq_some] at h
          obtain ⟨value, more, ⟨rfl, hvalue⟩, later, hlater, rfl⟩ := h
          simp only [length_append, cString, length_cons, length_nil] at hfuel
          obtain ⟨rfl, hpairs⟩ := (ih (by omega)).mp hlater
          refine ⟨by simp, ?_⟩
          intro pair hpair
          rcases mem_cons.mp hpair with rfl | hpair
          · exact ⟨hname, hkey, hvalue⟩
          · exact hpairs pair hpair
    · rintro ⟨rfl, hpairs⟩
      cases params with
      | nil => exact ⟨"", [], ⟨by rw [cString_empty]; rfl, by decide⟩, rfl⟩
      | cons pair params =>
        obtain ⟨hname, hkey, hvalue⟩ := hpairs pair mem_cons_self
        refine ⟨pair.1, _, ⟨by rw [flatMap_cons, append_assoc, append_assoc], hkey⟩, ?_⟩
        simp only [hname, if_false]
        rw [readString_eq_some.mpr ⟨rfl, hvalue⟩, bind_some]
        simp only [flatMap_cons, length_append, cString, length_cons,
          length_nil] at hfuel
        have hshorter : ((params.flatMap fun pair : String × String => cString pair.1 ++ cString pair.2) ++
            [0]).length < fuel := by
          simp only [cString, length_append, length_cons, length_nil]
          omega
        have hrest : ∀ other ∈ params, other.1 ≠ "" ∧ NulFree other.1 ∧ NulFree other.2 :=
          fun other hother => hpairs other (mem_cons_of_mem _ hother)
        have hlater := (ih hshorter).mpr ⟨rfl, hrest⟩
        rw [hlater]
        rfl

theorem readLoneString_eq_some {text : String} :
    readLoneString body = some text ↔ body = cString text ∧ NulFree text := by
  simp only [readLoneString, bind_eq_some_iff, Prod.exists, readString_eq_some]
  constructor
  · rintro ⟨read, rest, ⟨rfl, hread⟩, h⟩
    split at h
    · next hrest =>
        cases h
        rw [hrest, append_nil]
        exact ⟨rfl, hread⟩
    · cases h
  · rintro ⟨rfl, htext⟩
    exact ⟨text, [], ⟨(append_nil _).symm, htext⟩, rfl⟩

theorem FrontendMessage.bodyLength_startup (version : Int) (params : List (String × String)) :
    (i32Bytes version ++ (params.flatMap fun pair => cString pair.1 ++ cString pair.2) ++ [0] : Bytes).length =
      (FrontendMessage.startup version params).bodyLength := by
  have hpairs : (params.flatMap fun pair => cString pair.1 ++ cString pair.2).length =
      (params.map fun pair => (bytesOf pair.1).length + 1 + ((bytesOf pair.2).length + 1)).sum := by
    rw [length_flatMap]
    congr 1
    apply map_congr_left
    intro pair _
    simp only [cString, length_append, length_singleton]
  simp only [length_append, i32Bytes_length, hpairs, FrontendMessage.bodyLength, length_singleton]

variable {msg : FrontendMessage}

/-- A frame with a tag is read back, with nothing behind it, when its length fits. -/
theorem readFrontend_frame {expected : Expected} {tag : UInt8} (hexpected : expected ≠ .startup) :
    readFrontend expected (tag :: withLength body) = some (msg, []) ↔
      body.length + 4 < 2 ^ 31 ∧ readTagged expected (Char.ofNat tag.toNat) body = some msg := by
  have hread : readFrontend expected (tag :: withLength body) =
      (readBody (withLength body)).bind fun packet =>
        (readTagged expected (Char.ofNat tag.toNat) packet.1).map fun msg => (msg, packet.2) := by
    cases expected with
    | startup => exact absurd rfl hexpected
    | password => rfl
    | saslInitial => rfl
    | sasl => rfl
    | query => rfl
  rw [hread]
  simp only [bind_eq_some_iff, map_eq_some_iff, Prod.exists, Prod.mk.injEq]
  constructor
  · rintro ⟨read, behind, hbody, msg', hmsg, rfl, hbehind⟩
    obtain ⟨hlen, rfl, -⟩ := readBody_withLength.mp ⟨hbody, hbehind⟩
    exact ⟨hlen, hmsg⟩
  · rintro ⟨hlen, hmsg⟩
    exact ⟨body, [], (readBody_withLength.mpr ⟨hlen, rfl, rfl⟩).1, msg, hmsg, rfl, rfl⟩

theorem readFrontend_startup : readFrontend .startup (withLength body) = some (msg, []) ↔
      body.length + 4 < 2 ^ 31 ∧ readStartup body = some msg := by
  simp only [readFrontend, bind_eq_some_iff, map_eq_some_iff, Prod.exists, Prod.mk.injEq]
  constructor
  · rintro ⟨read, behind, hbody, msg', hmsg, rfl, hbehind⟩
    obtain ⟨hlen, rfl, -⟩ := readBody_withLength.mp ⟨hbody, hbehind⟩
    exact ⟨hlen, hmsg⟩
  · rintro ⟨hlen, hmsg⟩
    exact ⟨body, [], (readBody_withLength.mpr ⟨hlen, rfl, rfl⟩).1, msg, hmsg, rfl, rfl⟩

theorem readStartup_eq_some {version : Int} {params : List (String × String)} (hversion : IsI32 version)

    (hbody : body = i32Bytes version ++ (params.flatMap fun pair => cString pair.1 ++ cString pair.2) ++ [0]) :
    readStartup body = some (.startup version params) ↔
      ∀ pair ∈ params, pair.1 ≠ "" ∧ NulFree pair.1 ∧ NulFree pair.2 := by
  obtain ⟨a, b, c, d, hbytes, hvalue⟩ := i32Bytes_append hversion
    ((params.flatMap fun pair => cString pair.1 ++ cString pair.2) ++ [0])
  rw [hbody, append_assoc, hbytes]
  simp only [readStartup, hvalue, map_eq_some_iff, FrontendMessage.startup.injEq, true_and,
    exists_eq_right]
  rw [readParams_eq_some (Nat.lt_succ_self _)]
  simp

theorem readSaslInitial_eq_some {mechanism : String} (hdata : data.length < 2 ^ 31) :
    readSaslInitial (cString mechanism ++ i32Bytes data.length ++ data) =
      some (.saslInitialResponse mechanism data) ↔ NulFree mechanism := by
  obtain ⟨a, b, c, d, hbytes, hvalue⟩ := i32Bytes_append (i := data.length) ⟨by omega, by omega⟩ data
  constructor
  · intro h
    obtain ⟨⟨name, rest⟩, hname, h⟩ := bind_eq_some_iff.mp h
    obtain ⟨-, hnul⟩ := readString_eq_some.mp hname
    split at h
    · split at h
      · cases h
        exact hnul
      · cases h
    · cases h
  · intro hnul
    rw [append_assoc, hbytes, readSaslInitial, readString_eq_some.mpr ⟨rfl, hnul⟩, bind_some]
    simp only [hvalue, if_true]

/-- What was sent comes back. -/
def Recovered (msg : FrontendMessage) : Prop :=
  ∃ data, encodeMessage msg = .ok data ∧ readFrontend msg.expected data = some (msg, [])

/-- Encoding is faithful: what is encoded is what the server reads and nothing else, and a message without
a frame is refused. -/
def Faithful (msg : FrontendMessage) : Prop :=
  (∀ data, encodeMessage msg = .ok data → readFrontend msg.expected data = some (msg, [])) ∧
    (¬ msg.Representable → ∃ e, encodeMessage msg = .error e)

theorem recovered_iff (htyped : msg.Typed) : Recovered msg ↔ msg.Representable := by
  cases msg with
  | startup version params =>
    simp only [Recovered, encodeMessage, encodeStartup, ok.injEq, exists_eq_left',
      FrontendMessage.expected, readFrontend_startup, readStartup_eq_some htyped rfl,
      FrontendMessage.bodyLength_startup]
    exact And.comm
  | password text =>
    have hlen : (cString text).length = (FrontendMessage.password text).bodyLength := by
      simp [cString, FrontendMessage.bodyLength]
    simp only [Recovered, encodeMessage, encodePassword, ok.injEq, exists_eq_left',
      FrontendMessage.expected, readFrontend_frame (by decide : Expected.password ≠ .startup), hlen]
    rw [show Char.ofNat (112 : UInt8).toNat = 'p' from rfl]
    simp only [readTagged, map_eq_some_iff, FrontendMessage.password.injEq, exists_eq_right,
      readLoneString_eq_some, true_and]
    exact And.comm
  | query text =>
    have hlen : (cString text).length = (FrontendMessage.query text).bodyLength := by
      simp [cString, FrontendMessage.bodyLength]
    simp only [Recovered, encodeMessage, encodeQuery, ok.injEq, exists_eq_left',
      FrontendMessage.expected, readFrontend_frame (by decide : Expected.query ≠ .startup), hlen]
    rw [show Char.ofNat (81 : UInt8).toNat = 'Q' from rfl]
    simp only [readTagged, map_eq_some_iff, FrontendMessage.query.injEq, exists_eq_right,
      readLoneString_eq_some, true_and]
    exact And.comm
  | terminate =>
    have hframe : (88 : UInt8) :: i32Bytes 4 = 88 :: withLength [] := rfl
    simp only [Recovered, encodeMessage, encodeTerminate, ok.injEq, exists_eq_left',
      FrontendMessage.expected, hframe, readFrontend_frame (by decide : Expected.query ≠ .startup)]
    rw [show Char.ofNat (88 : UInt8).toNat = 'X' from rfl]
    simp [readTagged, FrontendMessage.Representable, FrontendMessage.StringsEndable,
      FrontendMessage.bodyLength]
  | saslInitialResponse mechanism data =>
    have hlen : (cString mechanism ++ i32Bytes data.length ++ data).length =
        (FrontendMessage.saslInitialResponse mechanism data).bodyLength := by
      simp only [cString, FrontendMessage.bodyLength, length_append, i32Bytes_length,
        length_singleton]
    simp only [Recovered, encodeMessage, encodeSaslInitialResponse, ok.injEq, exists_eq_left',
      FrontendMessage.expected, readFrontend_frame (by decide : Expected.saslInitial ≠ .startup), hlen]
    rw [show Char.ofNat (112 : UInt8).toNat = 'p' from rfl]
    simp only [readTagged, FrontendMessage.Representable, FrontendMessage.StringsEndable]
    rw [And.comm]
    apply and_congr_left
    intro hfits
    simp only [FrontendMessage.bodyLength] at hfits
    exact readSaslInitial_eq_some (by omega)
  | saslResponse data =>
    simp only [Recovered, encodeMessage, encodeSaslResponse, ok.injEq, exists_eq_left',
      FrontendMessage.expected, readFrontend_frame (by decide : Expected.sasl ≠ .startup)]
    rw [show Char.ofNat (112 : UInt8).toNat = 'p' from rfl]
    simp [readTagged, FrontendMessage.Representable, FrontendMessage.StringsEndable,
      FrontendMessage.bodyLength]

theorem encodeMessage_ok (msg : FrontendMessage) : ∃ data, encodeMessage msg = .ok data := by
  cases msg with
  | startup version params => exact ⟨_, rfl⟩
  | password text => exact ⟨_, rfl⟩
  | query text => exact ⟨_, rfl⟩
  | terminate => exact ⟨_, rfl⟩
  | saslInitialResponse mechanism data => exact ⟨_, rfl⟩
  | saslResponse data => exact ⟨_, rfl⟩

/-- The encoder refuses nothing. The server recovers a message from its bytes exactly when the message can
be written: no string of it has a NUL, no startup parameter an empty name, and its length fits an `i32`; and
these are the messages whose encoding is faithful. -/
theorem encodeMessage_faithful_iff (msg : FrontendMessage) (htyped : msg.Typed) :
    (∃ data, encodeMessage msg = .ok data) ∧ (Recovered msg ↔ msg.Representable) ∧
      (Faithful msg ↔ msg.Representable) := by
  have hrecovered := recovered_iff htyped
  obtain ⟨data, hdata⟩ := encodeMessage_ok msg
  refine ⟨⟨data, hdata⟩, hrecovered, ?_⟩
  constructor
  · rintro ⟨hread, -⟩
    exact hrecovered.mp ⟨data, hdata, hread data hdata⟩
  · intro hmsg
    refine ⟨?_, fun hnot => absurd hmsg hnot⟩
    intro data' hdata'
    obtain ⟨data, hdata, hread⟩ := hrecovered.mpr hmsg
    rw [hdata'] at hdata
    cases hdata
    exact hread

/-- The password `x`. -/
theorem encodeMessage_faithful_password : Faithful (.password "x") := by
  refine (encodeMessage_faithful_iff (.password "x") trivial).2.2.mpr ⟨?_, ?_⟩
  · show NulFree "x"
    decide
  · have hlen : (FrontendMessage.password "x").bodyLength = 2 := by
      simp only [FrontendMessage.bodyLength, bytesOf_eq]
      rfl
    omega

/-! ### Injected parameters -/

/-- A value with two NULs in it is sent as the value of its parameter and a parameter more. -/
theorem encodeStartup_inject (version : Int) (name value key text : String) (rest : List (String × String)) :
    encodeMessage (.startup version ((name, value ++ "\x00" ++ key ++ "\x00" ++ text) :: rest)) =
      encodeMessage (.startup version ((name, value) :: (key, text) :: rest)) := by
  have hnul : bytesOf "\x00" = [0] := by
    rw [bytesOf_eq]
    rfl
  simp only [encodeMessage, encodeStartup, flatMap_cons, cString, bytesOf_append, hnul,
    append_assoc]

/-- A configuration whose user has more in it than a name. -/
def injectingConfig : ConnectionConfig where
  user := "app" ++ "\x00" ++ "options" ++ "\x00" ++ "-csearch_path=x"
  database := "db"

/-- The connection is opened for the user `app`, with options that the configuration does not have. -/
theorem encodeMessage_injects_options :
    ¬ Faithful (.startup Client.protocolVersion (Client.startupParams injectingConfig)) ∧
      ∃ data,
        encodeMessage (.startup Client.protocolVersion (Client.startupParams injectingConfig)) = .ok data ∧
        readFrontend .startup data = some (.startup Client.protocolVersion
          [("user", "app"), ("options", "-csearch_path=x"), ("database", "db")], []) := by
  have htyped : ∀ params, (FrontendMessage.startup Client.protocolVersion params).Typed := by
    intro params
    show IsI32 Client.protocolVersion
    decide
  constructor
  · intro hfaithful
    obtain ⟨data, hdata⟩ := encodeMessage_ok
      (.startup Client.protocolVersion (Client.startupParams injectingConfig))
    obtain ⟨hstrings, -⟩ := (recovered_iff (htyped _)).mp ⟨data, hdata, hfaithful.1 data hdata⟩
    have huser := (hstrings ("user", injectingConfig.user) mem_cons_self).2.2
    simp [NulFree, injectingConfig] at huser
  · have hsame : encodeMessage (.startup Client.protocolVersion (Client.startupParams injectingConfig)) =
        encodeMessage (.startup Client.protocolVersion
          [("user", "app"), ("options", "-csearch_path=x"), ("database", "db")]) :=
      encodeStartup_inject Client.protocolVersion "user" "app" "options" "-csearch_path=x" [("database", "db")]
    rw [hsame]
    refine (recovered_iff (htyped _)).mpr ⟨?_, ?_⟩
    · intro pair hpair
      simp only [mem_cons, not_mem_nil, or_false] at hpair
      rcases hpair with rfl | rfl | rfl <;> decide
    · simp only [FrontendMessage.bodyLength, bytesOf_eq]
      decide +kernel

end FraiseQL.Wire
