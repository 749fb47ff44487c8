import FraiseQL.Outcome
import FraiseQL.WireText

/-!
The client of `auth/scram.rs` against a server of RFC 5802. The server keeps two keys made from the
normalised password, reads the messages of the client by their attributes and builds the message both sign
from what it read. The primitives stay uninterpreted but for the laws in `Crypto.Lawful`, and so does the
normalisation of passwords.
-/

namespace FraiseQL.Wire

open Outcome List Nat

/-- What the exchange relies on of the primitives: Base64 is decoded to what was encoded, has no comma and
leaves nothing of nothing; the codes of HMAC-SHA-256 have 32 bytes. -/
structure Crypto.Lawful (crypto : Crypto) : Prop where
  decode_encode : ∀ data, crypto.base64Decode (crypto.base64Encode data) = some data
  encode_comma : ∀ data, ',' ∉ (crypto.base64Encode data).toList
  encode_nil : crypto.base64Encode [] = ""
  hmac_length : ∀ key message, (crypto.hmac key message).length = 32

theorem Crypto.Lawful.encode_eq_empty {crypto : Crypto} (lawful : crypto.Lawful) {data : Bytes} :
    crypto.base64Encode data = "" ↔ data = [] := by
  constructor
  · intro h
    have hdecoded := lawful.decode_encode data
    rw [h, ← lawful.encode_nil, lawful.decode_encode] at hdecoded
    exact (Option.some.inj hdecoded).symm
  · rintro rfl
    exact lawful.encode_nil

/-! ### The server -/

/-- What the server keeps of a user. -/
structure Account where
  salt : Bytes
  iterations : Nat
  storedKey : Bytes
  serverKey : Bytes

/-- The account made when the password was set. -/
def Account.register (crypto : Crypto) (normalize : String → String) (password : String) (salt : Bytes)
    (iterations : Nat) : Account :=
  let saltedPassword := crypto.pbkdf2 (bytesOf (normalize password)) salt iterations
  { salt, iterations
    storedKey := crypto.sha256 (crypto.hmac saltedPassword (bytesOf "Client Key"))
    serverKey := crypto.hmac saltedPassword (bytesOf "Server Key") }

/-- The user name behind its escapes; an `=` opens one of the two. -/
def unescapeName : List Char → Option (List Char)
  | [] => some []
  | '=' :: '2' :: 'C' :: rest => (unescapeName rest).map (',' :: ·)
  | '=' :: '3' :: 'D' :: rest => (unescapeName rest).map ('=' :: ·)
  | '=' :: _ => none
  | c :: rest => (unescapeName rest).map (c :: ·)

structure ClientFirst where
  username : String
  nonce : String
  bare : String

/-- The client's first message: no channel binding, no authorization identity, the name and the nonce. -/
def readClientFirst (msg : String) : Option ClientFirst :=
  match msg.toList.splitOn ',' with
  | [['n'], [], 'n' :: '=' :: name, 'r' :: '=' :: nonce] =>
    (unescapeName name).map fun username =>
      { username := String.ofList username
        nonce := String.ofList nonce
        bare := "n=" ++ String.ofList name ++ ",r=" ++ String.ofList nonce }
  | _ => none

structure ClientFinal where
  binding : String
  nonce : String
  proof : String
  withoutProof : String

def readClientFinal (msg : String) : Option ClientFinal :=
  match msg.toList.splitOn ',' with
  | ['c' :: '=' :: binding, 'r' :: '=' :: nonce, 'p' :: '=' :: proof] =>
    some
      { binding := String.ofList binding
        nonce := String.ofList nonce
        proof := String.ofList proof
        withoutProof := "c=" ++ String.ofList binding ++ ",r=" ++ String.ofList nonce }
  | _ => none

def serverFirstText (nonce salt iterations : String) : String :=
  "r=" ++ nonce ++ ",s=" ++ salt ++ ",i=" ++ iterations

section Server

variable (crypto : Crypto) (account : Account)

def Account.serverFirst (nonce : String) : String :=
  serverFirstText nonce (crypto.base64Encode account.salt) (toString account.iterations)

structure Judgement where
  authMessage : String
  recoveredKey : Bytes
  serverFinal : String

/-- The client's final message, read and checked. The key behind the proof is the stored one, and then the
server signs in its turn; or there is no answer. -/
def Account.judge (first : ClientFirst) (nonce clientFinal : String) : Option Judgement :=
  (readClientFinal clientFinal).bind fun final =>
    (crypto.base64Decode final.proof).bind fun proof =>
      let authMessage := first.bare ++ "," ++ account.serverFirst crypto nonce ++ "," ++ final.withoutProof
      let clientSignature := crypto.hmac account.storedKey (bytesOf authMessage)
      let recoveredKey := crypto.sha256 (List.zipWith (· ^^^ ·) proof clientSignature)
      if final.binding = crypto.base64Encode (bytesOf "n,,") ∧ final.nonce = nonce ∧
          recoveredKey = account.storedKey then
        some
          { authMessage, recoveredKey
            serverFinal := "v=" ++ crypto.base64Encode (crypto.hmac account.serverKey (bytesOf authMessage)) }
      else none

end Server

/-- The exchange of a client with the server that has its password: the server reads the name and the nonce
of the first message, the client takes the answer, the server finds the stored key behind the proof, both
have the same authentication message, and the client takes the server's signature. -/
def Agrees (crypto : Crypto) (normalize : String → String) (client : ScramClient) (salt : Bytes)
    (iterations : Nat) (serverNonce : String) : Prop :=
  let account := Account.register crypto normalize client.password salt iterations
  ∃ first, readClientFirst client.clientFirst = some first ∧ first.username = client.username ∧
    ∃ clientFinal state,
      client.clientFinal crypto (account.serverFirst crypto (first.nonce ++ serverNonce)) =
        .ok (clientFinal, state) ∧
      ∃ judgement, account.judge crypto first (first.nonce ++ serverNonce) clientFinal = some judgement ∧
        bytesOf judgement.authMessage = state.authMessage ∧
        judgement.recoveredKey = account.storedKey ∧
        ScramClient.verifyServerFinal crypto judgement.serverFinal state = .ok ()

/-! ### The messages read back -/

theorem splitOn_append {cs : List Char} (h : ',' ∉ cs) (rest : List Char) :
    (cs ++ ',' :: rest).splitOn ',' = cs :: rest.splitOn ',' :=
  splitOn_append_cons_self_of_not_mem h rest

theorem splitOn_self {cs : List Char} (h : ',' ∉ cs) : cs.splitOn ',' = [cs] :=
  splitOn_eq_singleton h

theorem notMem_cons {c d : Char} {cs : List Char} (hne : c ≠ d) (h : c ∉ cs) : c ∉ d :: cs := by
  rw [mem_cons, not_or]
  exact ⟨hne, h⟩

theorem unescapeName_escape (name : List Char) :
    unescapeName (name.flatMap fun c =>
      if c = '=' then ['=', '3', 'D'] else if c = ',' then ['=', '2', 'C'] else [c]) = some name := by
  induction name with
  | nil => rfl
  | cons c name ih =>
    rw [flatMap_cons]
    by_cases heq : c = '='
    · subst heq
      simp only [if_true, cons_append, nil_append, unescapeName, ih, Option.map_some]
    · by_cases hcomma : c = ','
      · subst hcomma
        simp only [heq, if_false, if_true, cons_append, nil_append, unescapeName, ih,
          Option.map_some]
      · simp only [heq, hcomma, if_false, cons_append, nil_append]
        rw [unescapeName, ih, Option.map_some]
        · rintro rest' rfl
          exact absurd rfl heq
        · rintro rest' rfl
          exact absurd rfl heq
        · rintro rfl
          exact absurd rfl heq

theorem comma_notMem_escape (username : String) : ',' ∉ (escapeUsername username).toList := by
  rw [escapeUsername, String.toList_ofList, mem_flatMap]
  rintro ⟨c, -, hc⟩
  split_ifs at hc with heq hcomma
  · simp at hc
  · simp at hc
  · rw [mem_singleton] at hc
    exact hcomma hc.symm

theorem readClientFirst_clientFirst (client : ScramClient) (hnonce : ',' ∉ client.nonce.toList) :
    readClientFirst client.clientFirst =
      some { username := client.username, nonce := client.nonce, bare := client.clientFirstBare } := by
  have hlist : client.clientFirst.toList =
      ['n'] ++ ',' :: ([] ++ ',' :: ('n' :: '=' :: (escapeUsername client.username).toList ++
        ',' :: 'r' :: '=' :: client.nonce.toList)) := by
    simp [ScramClient.clientFirst, ScramClient.clientFirstBare]
  have hname : ',' ∉ 'n' :: '=' :: (escapeUsername client.username).toList :=
    notMem_cons (by decide) (notMem_cons (by decide) (comma_notMem_escape client.username))
  have hlast : ',' ∉ 'r' :: '=' :: client.nonce.toList :=
    notMem_cons (by decide) (notMem_cons (by decide) hnonce)
  have hsplit : client.clientFirst.toList.splitOn ',' =
      [['n'], [], 'n' :: '=' :: (escapeUsername client.username).toList, 'r' :: '=' :: client.nonce.toList] := by
    rw [hlist, splitOn_append (by decide), splitOn_append (by simp), splitOn_append hname, splitOn_self hlast]
  have hunescape : unescapeName (escapeUsername client.username).toList = some client.username.toList := by
    rw [escapeUsername, String.toList_ofList, unescapeName_escape]
  rw [readClientFirst, hsplit]
  simp only [hunescape, Option.map_some, String.ofList_toList]
  rfl

theorem readClientFinal_text {binding nonce proof : String} (hbinding : ',' ∉ binding.toList)
    (hnonce : ',' ∉ nonce.toList) (hproof : ',' ∉ proof.toList) :
    readClientFinal ("c=" ++ binding ++ ",r=" ++ nonce ++ ",p=" ++ proof) =
      some { binding, nonce, proof, withoutProof := "c=" ++ binding ++ ",r=" ++ nonce } := by
  have hlist : ("c=" ++ binding ++ ",r=" ++ nonce ++ ",p=" ++ proof).toList =
      ('c' :: '=' :: binding.toList) ++ ',' :: (('r' :: '=' :: nonce.toList) ++
        ',' :: 'p' :: '=' :: proof.toList) := by
    simp
  rw [readClientFinal, hlist, splitOn_append (notMem_cons (by decide) (notMem_cons (by decide) hbinding)),
    splitOn_append (notMem_cons (by decide) (notMem_cons (by decide) hnonce)),
    splitOn_self (notMem_cons (by decide) (notMem_cons (by decide) hproof))]
  simp only [String.ofList_toList]

theorem parseServerFirst_text {nonce salt iterations : String} (hnonce : ',' ∉ nonce.toList)
    (hsalt : ',' ∉ salt.toList) (hiterations : ',' ∉ iterations.toList) :
    parseServerFirst (serverFirstText nonce salt iterations) =
      if nonce = "" ∨ salt = "" ∨ iterations = "" then
        .error (.invalidServerMessage "missing required fields in server first message")
      else .ok (nonce, salt, iterations) := by
  have hlist : (serverFirstText nonce salt iterations).toList =
      ('r' :: '=' :: nonce.toList) ++ ',' :: (('s' :: '=' :: salt.toList) ++
        ',' :: 'i' :: '=' :: iterations.toList) := by
    simp [serverFirstText]
  have hstrip : ∀ (a b : Char) (cs : List Char),
      stripPrefix (String.ofList [a, '=']) (String.ofList (b :: '=' :: cs)) =
        if a = b then some (String.ofList cs) else none := by
    intro a b cs
    by_cases hab : a = b
    · simp [stripPrefix, hab]
    · simp [stripPrefix, hab]
  have hread : ∀ (fields : String × String × String) (b : Char) (cs : List Char),
      readServerPart fields (String.ofList (b :: '=' :: cs)) =
        if 'r' = b then (String.ofList cs, fields.2.1, fields.2.2)
        else if 's' = b then (fields.1, String.ofList cs, fields.2.2)
        else if 'i' = b then (fields.1, fields.2.1, String.ofList cs)
        else fields := by
    intro fields b cs
    have hr := hstrip 'r' b cs
    have hs := hstrip 's' b cs
    have hi := hstrip 'i' b cs
    rw [show String.ofList ['r', '='] = "r=" from rfl] at hr
    rw [show String.ofList ['s', '='] = "s=" from rfl] at hs
    rw [show String.ofList ['i', '='] = "i=" from rfl] at hi
    rw [readServerPart, hr, hs, hi]
    by_cases h1 : 'r' = b
    · rw [if_pos h1, if_pos h1]
    · rw [if_neg h1, if_neg h1]
      by_cases h2 : 's' = b
      · rw [if_pos h2, if_pos h2]
      · rw [if_neg h2, if_neg h2]
        by_cases h3 : 'i' = b
        · rw [if_pos h3, if_pos h3]
        · rw [if_neg h3, if_neg h3]
  rw [parseServerFirst, hlist, splitOn_append (notMem_cons (by decide) (notMem_cons (by decide) hnonce)),
    splitOn_append (notMem_cons (by decide) (notMem_cons (by decide) hsalt)),
    splitOn_self (notMem_cons (by decide) (notMem_cons (by decide) hiterations))]
  simp only [map_cons, map_nil, foldl_cons, foldl_nil, hread, String.ofList_toList]
  rfl

theorem toString_toList (n : Nat) : (toString n).toList = toDigits 10 n := toList_repr

theorem comma_notMem_toString (n : Nat) : ',' ∉ (toString n).toList := by
  rw [toString_toList]
  intro hmem
  have hdigit := isDigit_of_mem_toDigits (by decide) (by decide) hmem
  cases hdigit

theorem parseU32_toString {n : Nat} (h : n < 2 ^ 32) : parseU32 (toString n) = some n := by
  have hdigits : (toDigits 10 n).all Char.isDigit = true := by
    rw [all_eq_true]
    intro c hc
    exact isDigit_of_mem_toDigits (by decide) (by decide) hc
  have hplus : ∀ cs, toDigits 10 n ≠ '+' :: cs := by
    intro cs heq
    rw [heq] at hdigits
    simp at hdigits
  rw [parseU32, toString_toList]
  split
  · next cs heq => exact absurd heq (hplus cs)
  · rw [if_pos ⟨toDigits_ne_nil, hdigits, by rw [ofDigitChars_ten_toDigits]; exact h⟩,
      ofDigitChars_ten_toDigits]

/-! ### What the client checks -/

/-- The client's final message up to the proof. -/
def withoutProof (crypto : Crypto) (nonce : String) : String :=
  "c=" ++ crypto.base64Encode (bytesOf "n,,") ++ ",r=" ++ nonce

theorem stripPrefix_eq_some {start s rest : String} : stripPrefix start s = some rest ↔ s = start ++ rest := by
  rw [stripPrefix]
  constructor
  · intro h
    split at h
    · next hstart =>
        obtain ⟨tail, htail⟩ := isPrefixOf_iff_prefix.mp hstart
        rw [← htail, drop_left, Option.some.injEq] at h
        subst h
        rw [← String.toList_inj, String.toList_append, String.toList_ofList, htail]
    · cases h
  · rintro rfl
    have hstart : start.toList.isPrefixOf (start ++ rest).toList = true := by
      rw [List.isPrefixOf_iff_prefix, String.toList_append]
      exact prefix_append _ _
    rw [if_pos hstart, String.toList_append, drop_left, String.ofList_toList]

/-- The server's last message is taken exactly when its signature is the one the client computes. -/
theorem verifyServerFinal_ok {crypto : Crypto} {serverFinal : String} {state : ScramState} :
    ScramClient.verifyServerFinal crypto serverFinal state = .ok () ↔
      ∃ encoded, serverFinal = "v=" ++ encoded ∧
        crypto.base64Decode encoded = some (crypto.hmac state.serverKey state.authMessage) := by
  unfold ScramClient.verifyServerFinal
  constructor
  · intro h
    cases hstrip : stripPrefix "v=" serverFinal with
    | none =>
      rw [hstrip] at h
      cases h
    | some encoded =>
      cases hdecode : crypto.base64Decode encoded with
      | none =>
        simp only [hstrip, pure, Except.pure, ok_bind, hdecode] at h
        cases h
      | some signature =>
        simp only [hstrip, pure, Except.pure, ok_bind, hdecode] at h
        split at h
        · next hsame => exact ⟨encoded, stripPrefix_eq_some.mp hstrip, by rw [hdecode, hsame]⟩
        · cases h
  · rintro ⟨encoded, rfl, hdecode⟩
    simp only [stripPrefix_eq_some.mpr rfl, pure, Except.pure, ok_bind, hdecode, if_true]

/-- What a final message of the client rests on: a nonce that goes on from its own, a salt and a count
within the limit. -/
theorem clientFinal_ok {crypto : Crypto} {client : ScramClient} {serverFirst : String}
    {result : String × ScramState} (h : client.clientFinal crypto serverFirst = .ok result) :
    ∃ nonce salt iterations saltBytes count,
      parseServerFirst serverFirst = .ok (nonce, salt, iterations) ∧
      (∃ more, nonce = client.nonce ++ more) ∧ crypto.base64Decode salt = some saltBytes ∧
      parseU32 iterations = some count ∧ count ≤ maxScramIterations ∧
      result.2.serverKey = client.calculateServerKey crypto saltBytes count ∧
      result.1 = withoutProof crypto nonce ++ ",p=" ++
        crypto.base64Encode (client.calculateClientProof crypto saltBytes count result.2.authMessage) := by
  unfold ScramClient.clientFinal at h
  obtain ⟨⟨nonce, salt, iterations⟩, hparse, h⟩ := bind_eq_ok.mp h
  simp only at h
  split at h
  · cases h
  · next hnonce =>
      cases hsalt : crypto.base64Decode salt with
      | none =>
        simp only [hsalt] at h
        cases h
      | some saltBytes =>
        cases hcount : parseU32 iterations with
        | none =>
          simp only [hsalt, hcount] at h
          cases h
        | some count =>
          simp only [hsalt, hcount, pure, Except.pure, ok_bind] at h
          split at h
          · cases h
          · next hmax =>
              cases h
              refine ⟨nonce, salt, iterations, saltBytes, count, hparse, ?_, hsalt, hcount, by omega,
                rfl, rfl⟩
              simp only [Bool.not_eq_true, Bool.not_eq_false', isPrefixOf_iff_prefix] at hnonce
              obtain ⟨more, hmore⟩ := hnonce
              exact ⟨String.ofList more, by
                rw [← String.toList_inj, String.toList_append, String.toList_ofList, hmore]⟩

/-! ### The agreement -/

/-- Masked twice with one mask, the bytes are themselves. -/
theorem xor_cancel {key mask : Bytes} (h : key.length = mask.length) :
    zipWith (· ^^^ ·) (zipWith (· ^^^ ·) key mask) mask = key := by
  induction key generalizing mask with
  | nil => rfl
  | cons k key ih =>
    cases mask with
    | nil => cases h
    | cons m mask =>
      simp only [length_cons, Nat.add_right_cancel_iff] at h
      simp only [zipWith_cons_cons, ih h, UInt8.xor_assoc, UInt8.xor_self, UInt8.xor_zero]

theorem comma_notMem_append {s t : String} (hs : ',' ∉ s.toList) (ht : ',' ∉ t.toList) :
    ',' ∉ (s ++ t).toList := by
  rw [String.toList_append, mem_append, not_or]
  exact ⟨hs, ht⟩

/-- The authentication message of an exchange. -/
def exchangeMessage (crypto : Crypto) (client : ScramClient) (account : Account) (nonce : String) : String :=
  client.clientFirstBare ++ "," ++ account.serverFirst crypto nonce ++ "," ++ withoutProof crypto nonce

section Exchange

variable {crypto : Crypto} (lawful : crypto.Lawful) {client : ScramClient} {account : Account}
  {serverNonce : String}

include lawful

theorem parseServerFirst_serverFirst {nonce : String} (hnonce : ',' ∉ nonce.toList) :
    parseServerFirst (account.serverFirst crypto nonce) =
      if nonce = "" ∨ account.salt = [] then
        .error (.invalidServerMessage "missing required fields in server first message")
      else .ok (nonce, crypto.base64Encode account.salt, toString account.iterations) := by
  have hcount : toString account.iterations ≠ "" := by
    intro hempty
    have hlist := congrArg String.toList hempty
    rw [toString_toList] at hlist
    exact toDigits_ne_nil hlist
  rw [Account.serverFirst, parseServerFirst_text hnonce (lawful.encode_comma _) (comma_notMem_toString _)]
  simp only [lawful.encode_eq_empty, hcount, or_false]

/-- Without a salt, or without a nonce, the client refuses what the server sends. -/
theorem clientFinal_refused (hclient : ',' ∉ client.nonce.toList) (hserver : ',' ∉ serverNonce.toList)
    (h : client.nonce ++ serverNonce = "" ∨ account.salt = []) (result : String × ScramState) :
    client.clientFinal crypto (account.serverFirst crypto (client.nonce ++ serverNonce)) ≠ .ok result := by
  intro hok
  obtain ⟨nonce, salt, iterations, -, -, hparse, -⟩ := clientFinal_ok hok
  rw [parseServerFirst_serverFirst lawful (comma_notMem_append hclient hserver), if_pos h] at hparse
  cases hparse

/-- The final message the client makes of what the server of an account sends. -/
theorem clientFinal_serverFirst (hclient : ',' ∉ client.nonce.toList) (hserver : ',' ∉ serverNonce.toList)
    (hnonce : client.nonce ++ serverNonce ≠ "") (hsalt : account.salt ≠ [])
    (hcount : account.iterations ≤ maxScramIterations) :
    client.clientFinal crypto (account.serverFirst crypto (client.nonce ++ serverNonce)) =
      .ok (withoutProof crypto (client.nonce ++ serverNonce) ++ ",p=" ++ crypto.base64Encode
          (client.calculateClientProof crypto account.salt account.iterations
            (bytesOf (exchangeMessage crypto client account (client.nonce ++ serverNonce)))),
        { authMessage := bytesOf (exchangeMessage crypto client account (client.nonce ++ serverNonce))
          serverKey := client.calculateServerKey crypto account.salt account.iterations }) := by
  have hstarts : client.nonce.toList.isPrefixOf (client.nonce ++ serverNonce).toList = true := by
    rw [List.isPrefixOf_iff_prefix, String.toList_append]
    exact prefix_append _ _
  have hfits : account.iterations < 2 ^ 32 := by
    simp only [maxScramIterations] at hcount
    omega
  have hmax : ¬ maxScramIterations < account.iterations := by omega
  unfold ScramClient.clientFinal
  rw [parseServerFirst_serverFirst lawful (comma_notMem_append hclient hserver),
    if_neg (by rw [not_or]; exact ⟨hnonce, hsalt⟩), ok_bind]
  simp only [hstarts, Bool.not_true, Bool.false_eq_true, if_false, pure, Except.pure, ok_bind,
    lawful.decode_encode, parseU32_toString hfits, hmax]
  rfl

/-- The server's answer to a proof sent with the nonce of the exchange. -/
theorem judge_text {first : ClientFirst} {nonce : String} {proof : Bytes} (hnonce : ',' ∉ nonce.toList)
    (hbare : first.bare = client.clientFirstBare) :
    account.judge crypto first nonce (withoutProof crypto nonce ++ ",p=" ++ crypto.base64Encode proof) =
      let authMessage := exchangeMessage crypto client account nonce
      let recoveredKey := crypto.sha256 (zipWith (· ^^^ ·) proof
        (crypto.hmac account.storedKey (bytesOf authMessage)))
      if recoveredKey = account.storedKey then
        some
          { authMessage, recoveredKey
            serverFinal := "v=" ++ crypto.base64Encode (crypto.hmac account.serverKey (bytesOf authMessage)) }
      else none := by
  have hread := readClientFinal_text (lawful.encode_comma (bytesOf "n,,")) hnonce (lawful.encode_comma proof)
  rw [Account.judge, withoutProof, hread]
  simp only [Option.bind_some, lawful.decode_encode, hbare, true_and]
  rfl

variable {normalize : String → String} {salt : Bytes} {iterations : Nat}

/-- With a salt, a nonce and a password that is its own normal form, client and server agree. -/
theorem agrees_of_normal (hclient : ',' ∉ client.nonce.toList) (hserver : ',' ∉ serverNonce.toList)
    (hcount : iterations ≤ maxScramIterations) (hnonce : client.nonce ++ serverNonce ≠ "")
    (hsalt : salt ≠ []) (hnormal : normalize client.password = client.password) :
    Agrees crypto normalize client salt iterations serverNonce := by
  have hserved : (Account.register crypto normalize client.password salt iterations).salt ≠ [] ∧
      (Account.register crypto normalize client.password salt iterations).iterations ≤ maxScramIterations :=
    ⟨hsalt, hcount⟩
  have hfinal := clientFinal_serverFirst lawful hclient hserver hnonce hserved.1 hserved.2
  have hserverKey : (Account.register crypto normalize client.password salt iterations).serverKey =
      client.calculateServerKey crypto salt iterations := by
    rw [Account.register, hnormal]
    rfl
  have hstored : (Account.register crypto normalize client.password salt iterations).storedKey =
      crypto.sha256 (crypto.hmac (client.saltedPassword crypto salt iterations) (bytesOf "Client Key")) := by
    rw [Account.register, hnormal]
    rfl
  have hrecovered : ∀ message : Bytes,
      crypto.sha256 (zipWith (· ^^^ ·) (client.calculateClientProof crypto salt iterations message)
        (crypto.hmac (Account.register crypto normalize client.password salt iterations).storedKey message)) =
      (Account.register crypto normalize client.password salt iterations).storedKey := by
    intro message
    rw [hstored, ScramClient.calculateClientProof,
      drop_of_length_le (Nat.le_of_eq (by rw [lawful.hmac_length, lawful.hmac_length])), append_nil,
      xor_cancel (by rw [lawful.hmac_length, lawful.hmac_length])]
  refine ⟨_, readClientFirst_clientFirst client hclient, rfl, _, _, hfinal, ?_⟩
  refine ⟨_, (judge_text lawful (comma_notMem_append hclient hserver) rfl).trans
    (if_pos (hrecovered _)), rfl, hrecovered _, ?_⟩
  refine verifyServerFinal_ok.mpr ⟨_, rfl, ?_⟩
  rw [lawful.decode_encode, hserverKey]
  rfl

end Exchange

/-- Primitives that tell one password from all others and nothing else. -/
def tellingApart (password : String) : Crypto where
  hmac key _ := if key.head? = some 0 then List.replicate 32 0 else List.replicate 32 1
  sha256 data := data
  pbkdf2 text _ _ := if text = bytesOf password then [0] else [1]
  base64Encode data := String.ofList (data.map fun b => Char.ofNat (b.toNat + 256))
  base64Decode text := some (text.toList.map fun c => UInt8.ofNat c.toNat)

theorem tellingApart_lawful (password : String) : (tellingApart password).Lawful where
  decode_encode data := by
    simp only [tellingApart, String.toList_ofList, map_map, Option.some.injEq]
    conv_rhs => rw [← map_id data]
    apply map_congr_left
    intro b _
    have hlt := b.toNat_lt
    have hval : (Char.ofNat (b.toNat + 256)).toNat = b.toNat + 256 := val_ofNat (by omega)
    simp only [Function.comp, hval, id]
    exact byte_eq (by omega)
  encode_comma data := by
    simp only [tellingApart, String.toList_ofList, mem_map, not_exists, not_and]
    intro b _ hcomma
    have hlt := b.toNat_lt
    have hval : (Char.ofNat (b.toNat + 256)).toNat = b.toNat + 256 := val_ofNat (by omega)
    rw [hcomma] at hval
    have hcode : (','.toNat : Nat) = 44 := rfl
    omega
  encode_nil := rfl
  hmac_length key message := by
    simp only [tellingApart]
    split <;> rfl

/-- A server that has another password's keys is refused, when the primitives tell the two apart. -/
theorem normal_of_agrees {client : ScramClient} {normalize : String → String} {salt : Bytes}
    {iterations : Nat} {serverNonce : String}
    (h : Agrees (tellingApart client.password) normalize client salt iterations serverNonce) :
    normalize client.password = client.password := by
  by_contra hother
  obtain ⟨first, -, -, clientFinal, state, hfinal, judgement, hjudge, -, -, hverify⟩ := h
  obtain ⟨-, -, -, saltBytes, count, -, -, -, -, -, hserverKey, -⟩ := clientFinal_ok hfinal
  have hbytes : bytesOf (normalize client.password) ≠ bytesOf client.password :=
    fun hsame => hother (bytesOf_injective hsame)
  have hsent : ∃ message, judgement.serverFinal = "v=" ++ (tellingApart client.password).base64Encode
      ((tellingApart client.password).hmac (Account.register (tellingApart client.password) normalize
        client.password salt iterations).serverKey message) := by
    obtain ⟨final, -, hjudge⟩ := Option.bind_eq_some_iff.mp hjudge
    obtain ⟨proof, -, hjudge⟩ := Option.bind_eq_some_iff.mp hjudge
    simp only at hjudge
    split at hjudge
    · cases hjudge
      exact ⟨_, rfl⟩
    · cases hjudge
  obtain ⟨message, hsent⟩ := hsent
  obtain ⟨encoded, hencoded, hdecoded⟩ := verifyServerFinal_ok.mp hverify
  have htext := hencoded.symm.trans hsent
  rw [← String.toList_inj, String.toList_append, String.toList_append] at htext
  rw [String.toList_inj.mp (append_cancel_left htext), (tellingApart_lawful client.password).decode_encode] at hdecoded
  simp only at hserverKey
  rw [hserverKey] at hdecoded
  simp only [tellingApart, Account.register, ScramClient.calculateServerKey, ScramClient.saltedPassword,
    hbytes, if_false, if_true] at hdecoded
  revert hdecoded
  decide

/-- The exchange with an honest server comes to agreement, whatever the primitives, exactly when there is a
salt and a nonce and the password is its own normal form. In every exchange a final message of the server
with another signature is refused, and so is a nonce that does not go on from the client's: the nonce the
client sends back begins with its own, and a server message with another nonce has no answer. -/
theorem scram_agrees_iff (normalize : String → String) (client : ScramClient) (salt : Bytes)
    (iterations : Nat) (serverNonce : String) (hcount : iterations ≤ maxScramIterations)
    (hclient : ',' ∉ client.nonce.toList) (hserver : ',' ∉ serverNonce.toList) :
    ((∀ crypto : Crypto, crypto.Lawful → Agrees crypto normalize client salt iterations serverNonce) ↔
      salt ≠ [] ∧ client.nonce ++ serverNonce ≠ "" ∧ normalize client.password = client.password) ∧
    (∀ (crypto : Crypto) (serverFinal encoded : String) (signature : Bytes) (state : ScramState),
      serverFinal = "v=" ++ encoded → crypto.base64Decode encoded = some signature →
      signature ≠ crypto.hmac state.serverKey state.authMessage →
      ∃ e, ScramClient.verifyServerFinal crypto serverFinal state = .error e) ∧
    (∀ (crypto : Crypto) (serverFirst clientFinal : String) (state : ScramState),
      client.clientFinal crypto serverFirst = .ok (clientFinal, state) →
      ∃ more, ∃ final, clientFinal =
        withoutProof crypto (client.nonce ++ more) ++ ",p=" ++ final) ∧
    ∀ (crypto : Crypto) (nonce saltText iterationsText : String), ',' ∉ nonce.toList → ',' ∉ saltText.toList →
      ',' ∉ iterationsText.toList → (∀ more, nonce ≠ client.nonce ++ more) →
      ∃ e, client.clientFinal crypto (serverFirstText nonce saltText iterationsText) = .error e := by
  refine ⟨⟨?_, ?_⟩, ?_, ?_, ?_⟩
  · intro h
    have htold := h (tellingApart client.password) (tellingApart_lawful client.password)
    obtain ⟨first, hfirst, -, clientFinal, state, hfinal, -⟩ := htold
    rw [readClientFirst_clientFirst client hclient, Option.some.injEq] at hfirst
    subst hfirst
    refine ⟨?_, ?_, normal_of_agrees (h _ (tellingApart_lawful client.password))⟩
    · intro hsalt
      exact clientFinal_refused (tellingApart_lawful _) hclient hserver (.inr hsalt) _ hfinal
    · intro hnonce
      exact clientFinal_refused (tellingApart_lawful _) hclient hserver (.inl hnonce) _ hfinal
  · rintro ⟨hsalt, hnonce, hnormal⟩ crypto lawful
    exact agrees_of_normal lawful hclient hserver hcount hnonce hsalt hnormal
  · intro crypto serverFinal encoded signature state hfinal hdecoded hother
    cases hverify : ScramClient.verifyServerFinal crypto serverFinal state with
    | error e => exact ⟨e, rfl⟩
    | ok _ =>
      obtain ⟨encoded', hfinal', hdecoded'⟩ := verifyServerFinal_ok.mp hverify
      rw [hfinal, ← String.toList_inj, String.toList_append, String.toList_append] at hfinal'
      rw [← String.toList_inj.mp (append_cancel_left hfinal'), hdecoded] at hdecoded'
      exact absurd (Option.some.inj hdecoded') hother
  · intro crypto serverFirst clientFinal state hok
    obtain ⟨nonce, salt', iterations', saltBytes, count, -, ⟨more, rfl⟩, -, -, -, -, hmessage⟩ :=
      clientFinal_ok hok
    exact ⟨more, _, hmessage⟩
  · intro crypto nonce saltText iterationsText hnonce hsalt hiterations hother
    cases hok : client.clientFinal crypto (serverFirstText nonce saltText iterationsText) with
    | error e => exact ⟨e, rfl⟩
    | ok result =>
      obtain ⟨nonce', salt', iterations', saltBytes, count, hparse, ⟨more, rfl⟩, -⟩ := clientFinal_ok hok
      rw [parseServerFirst_text hnonce hsalt hiterations] at hparse
      split at hparse
      · cases hparse
      · cases hparse
        exact absurd rfl (hother more)

/-- The user `a,b` with the password `secret`; another nonce is refused. -/
theorem scram_agrees_secret :
    (∀ crypto : Crypto, crypto.Lawful → Agrees crypto id ⟨"a,b", "secret", "abc"⟩ [91, 109, 153] 4096 "def") ∧
    ∀ crypto : Crypto, ∃ e, ScramClient.clientFinal crypto ⟨"a,b", "secret", "abc"⟩
      (serverFirstText "xyz" "W22Z" "4096") = .error e := by
  have hspec := scram_agrees_iff id ⟨"a,b", "secret", "abc"⟩ [91, 109, 153] 4096 "def" (by decide) (by decide) (by decide)
  refine ⟨hspec.1.mpr ⟨by decide, by decide, rfl⟩, fun crypto => ?_⟩
  refine hspec.2.2.2 crypto "xyz" "W22Z" "4096" (by decide) (by decide) (by decide) fun more hmore => ?_
  have hfirst := congrArg (fun s => s.toList.head?) hmore
  simp at hfirst

/-- The mapping to nothing of the soft hyphen, a step of the normalisation of passwords. -/
def dropSoftHyphens (password : String) : String :=
  String.ofList (password.toList.filter (· ≠ Char.ofNat 0xAD))

/-- There is no agreement on an account with no salt, nor for the password `I`, soft hyphen, `X`, which the
server knows as `IX`. -/
theorem scram_disagrees :
    ¬ (∀ crypto : Crypto, crypto.Lawful → Agrees crypto dropSoftHyphens ⟨"user", "IX", "abc"⟩ [] 4096 "def") ∧
    ¬ ∀ crypto : Crypto, crypto.Lawful →
      Agrees crypto dropSoftHyphens ⟨"user", String.ofList ['I', Char.ofNat 0xAD, 'X'], "abc"⟩ [1] 4096 "def" := by
  constructor
  · intro h
    obtain ⟨first, hfirst, -, clientFinal, state, hfinal, -⟩ := h _ (tellingApart_lawful "IX")
    rw [readClientFirst_clientFirst _ (by decide), Option.some.injEq] at hfirst
    subst hfirst
    exact clientFinal_refused (tellingApart_lawful _) (by decide) (by decide) (.inr rfl) _ hfinal
  · intro h
    have hnormal := normal_of_agrees (h _ (tellingApart_lawful _))
    have hlist := congrArg String.toList hnormal
    simp only [dropSoftHyphens, String.toList_ofList] at hlist
    revert hlist
    decide

end FraiseQL.Wire
