import FraiseQL.Outcome
import FraiseQL.WireConnection

/-!
What a server, hostile or not, can make `startup` do. The loop of `authenticate` leaves at the first
`ReadyForQuery`, whether or not `AuthenticationOk` came before it, and answers a request for the cleartext
password also after a SASL exchange. A SASL exchange itself is all or nothing: the loop goes on after it
only when the server's signature was accepted.
-/

namespace FraiseQL.Wire

namespace Event

def isOk : Event → Bool
  | .received (.authentication .ok) => true
  | _ => false

def isPassword : Event → Bool
  | .sent (.password _) => true
  | _ => false

/-- SCRAM starts with the client's first message. -/
def isScramStart : Event → Bool
  | .sent (.saslInitialResponse _ _) => true
  | _ => false

def isVerified : Event → Bool
  | .verified _ => true
  | _ => false

end Event

/-! ### Traces -/

/-- `AuthenticationOk` was received. -/
def OkReceived (trace : List Event) : Prop := ∃ e ∈ trace, e.isOk = true

def ScramStarted (trace : List Event) : Prop := ∃ e ∈ trace, e.isScramStart = true

/-- Every SASL exchange that was begun came to an accepted signature. -/
def ExchangesVerified (trace : List Event) : Prop :=
  ∀ before start after, trace = before ++ start :: after → start.isScramStart = true →
    ∃ e ∈ after, e.isVerified = true

/-- No password is sent once SCRAM has started. -/
def PasswordKept (trace : List Event) : Prop :=
  trace.Pairwise fun earlier later => earlier.isScramStart = true → later.isPassword = false

variable {trace more : List Event}

theorem passwordKept_append (h : PasswordKept trace)
    (hmore : ∀ e ∈ more, e.isPassword = false) : PasswordKept (trace ++ more) := by
  refine List.pairwise_append.mpr ⟨h, ?_, fun _ _ e he _ => hmore e he⟩
  exact List.Pairwise.imp_of_mem (fun _ hlater _ _ => hmore _ hlater) (List.pairwise_of_forall fun _ _ => trivial)

theorem passwordKept_of_append (h : PasswordKept (trace ++ more)) : PasswordKept trace :=
  (List.pairwise_append.mp h).1

theorem passwordKept_send {password : String} (h : PasswordKept trace) :
    PasswordKept (trace ++ [.sent (.password password)]) ↔ ¬ ScramStarted trace := by
  constructor
  · rintro hkept ⟨start, hmem, hstart⟩
    have hno := (List.pairwise_append.mp hkept).2.2 start hmem _ (List.mem_singleton_self _) hstart
    cases hno
  · intro hnot
    refine List.pairwise_append.mpr ⟨h, List.pairwise_singleton _ _, fun e he _ _ hstart => ?_⟩
    exact absurd ⟨e, he, hstart⟩ hnot

theorem exchangesVerified_append (h : ExchangesVerified trace)
    (hmore : ExchangesVerified more) : ExchangesVerified (trace ++ more) := by
  intro before start after hsplit hstart
  rcases List.append_eq_append_iff.mp hsplit with ⟨tail, hbefore, hmore'⟩ | ⟨tail, htrace, hcons⟩
  · exact hmore tail start after hmore' hstart
  · cases tail with
    | nil =>
      rw [List.nil_append] at hcons
      exact hmore [] start after hcons.symm hstart
    | cons e tail =>
      rw [List.cons_append, List.cons.injEq] at hcons
      obtain ⟨rfl, rfl⟩ := hcons
      obtain ⟨v, hv, hverified⟩ := h before start tail htrace hstart
      exact ⟨v, List.mem_append_left _ hv, hverified⟩

theorem exchangesVerified_of_none (h : ∀ e ∈ more, e.isScramStart = false) : ExchangesVerified more := by
  intro before start after hsplit hstart
  have hno := h start (by rw [hsplit]; simp)
  rw [hstart] at hno
  cases hno

/-! ### One SASL exchange -/

namespace Client

variable (lib : Libraries) (config : ConnectionConfig)

def after {α : Type} : EStateM.Result WireError Connection α → Connection
  | .ok _ c => c
  | .error _ c => c

/-- The events of an exchange the client goes through with. -/
def exchangeEvents (scram : ScramClient) (first final : BackendMessage) (clientFinal accepted : String) :
    List Event :=
  [.sent (.saslInitialResponse scramSha256 (bytesOf scram.clientFirst)), .received first,
    .sent (.saslResponse (bytesOf clientFinal)), .received final, .verified accepted]

/-- An exchange with the server's two messages: it goes through when the mechanism is offered, a password is
there, and both messages are accepted. -/
def exchange (draw : Nat) (mechanisms : List String) (first final : BackendMessage) :
    Except WireError (List Event) := do
  let password ← saslPassword config mechanisms
  let (clientFinal, state) ← answer lib (scramClient lib config password draw) first
  let accepted ← verify lib state final
  return exchangeEvents (scramClient lib config password draw) first final clientFinal accepted

def exchangeAccepted (draw : Nat) (mechanisms : List String) (first final : BackendMessage) : Bool :=
  (exchange lib config draw mechanisms first final).isOk

variable {msg : BackendMessage}

theorem serverFirstData_ok {data : Bytes} (h : serverFirstData msg = .ok data) :
    msg = .authentication (.saslContinue data) := by
  unfold serverFirstData at h
  split at h <;> cases h
  rfl

theorem serverFinalData_ok {data : Bytes} (h : serverFinalData msg = .ok data) :
    msg = .authentication (.saslFinal data) := by
  unfold serverFinalData at h
  split at h <;> cases h
  rfl

variable {draw : Nat}

theorem exchange_ok {mechanisms : List String} {first final : BackendMessage} {events : List Event}
    (h : exchange lib config draw mechanisms first final = .ok events) :
    ∃ scram challenge signature clientFinal accepted,
      first = .authentication (.saslContinue challenge) ∧ final = .authentication (.saslFinal signature) ∧
      events = exchangeEvents scram first final clientFinal accepted := by
  simp only [exchange, answer, verify, Outcome.bind_eq_ok, Outcome.pure_eq_ok] at h
  obtain ⟨password, -, reply, ⟨challenge, hfirst, -⟩, accepted, ⟨signature, hfinal, -⟩, hevents⟩ := h
  exact ⟨_, challenge, signature, reply.1, accepted, serverFirstData_ok hfirst, serverFinalData_ok hfinal,
    hevents.symm⟩

/-- `handle_sasl` returns after two messages it accepts. Otherwise it fails, and no password was sent. -/
theorem handleSasl_spec (mechanisms : List String) (c : Connection) :
    (∃ first final rest events,
      c.inbox = first :: final :: rest ∧
      exchange lib config c.draws mechanisms first final = .ok events ∧
      handleSasl lib config mechanisms c = .ok () ((c.withInbox rest).drew.log events)) ∨
    (∃ e c' more, handleSasl lib config mechanisms c = .error e c' ∧
      c'.state = c.state ∧ c'.trace = c.trace ++ more ∧ (∀ e ∈ more, e.isPassword = false) ∧
      ∀ first final rest, c.inbox = first :: final :: rest →
        exchangeAccepted lib config c.draws mechanisms first final = false) := by
  generalize hrun : handleSasl lib config mechanisms c = result
  rw [handleSasl] at hrun
  cases hpassword : saslPassword config mechanisms with
  | error e =>
    rw [hpassword, of_error_bind] at hrun
    refine .inr ⟨e, c, [], hrun.symm, rfl, by simp, by simp, ?_⟩
    intro first final rest _
    rw [exchangeAccepted, exchange, hpassword]
    rfl
  | ok password =>
    rw [hpassword, of_ok_bind, newScram_bind, sendMessage_bind] at hrun
    rcases hinbox : c.inbox with _ | ⟨first, inbox⟩
    · rw [receiveMessage_bind_nil (by simpa using hinbox)] at hrun
      exact .inr ⟨.connectionClosed, _, [_], hrun.symm, rfl, rfl, by simp [Event.isPassword],
        fun _ _ _ h => nomatch h⟩
    · rw [receiveMessage_bind_cons (by simpa using hinbox)] at hrun
      simp only [Connection.withInbox_log, Connection.withInbox_drew, Connection.log_log] at hrun
      have hexchange : ∀ final, exchange lib config c.draws mechanisms first final =
          (answer lib (scramClient lib config password c.draws) first >>= fun reply =>
            verify lib reply.2 final >>= fun accepted =>
              pure (exchangeEvents (scramClient lib config password c.draws) first final reply.1 accepted)) := by
        intro final
        rw [exchange, hpassword]
        rfl
      cases hanswer : answer lib (scramClient lib config password c.draws) first with
      | error e =>
        rw [hanswer, of_error_bind] at hrun
        refine .inr ⟨e, _, _, hrun.symm, rfl, rfl, by simp [Event.isPassword], ?_⟩
        intro first' final rest h
        cases h
        rw [exchangeAccepted, hexchange, hanswer]
        rfl
      | ok reply =>
        rw [hanswer, of_ok_bind, sendMessage_bind, Connection.log_log] at hrun
        rcases hrest : inbox with _ | ⟨final, rest⟩
        · rw [receiveMessage_bind_nil (by simpa using hrest)] at hrun
          exact .inr ⟨.connectionClosed, _, _, hrun.symm, rfl, rfl, by simp [Event.isPassword],
            fun _ _ _ h => nomatch h⟩
        · rw [receiveMessage_bind_cons (by simpa using hrest)] at hrun
          simp only [Connection.withInbox_log, Connection.withInbox_drew, Connection.withInbox_withInbox,
            Connection.log_log] at hrun
          cases hverify : verify lib reply.2 final with
          | error e =>
            rw [hverify, of_error_bind] at hrun
            refine .inr ⟨e, _, _, hrun.symm, rfl, rfl, by simp [Event.isPassword], ?_⟩
            intro first' final' rest' h
            cases h
            rw [exchangeAccepted, hexchange, hanswer]
            simp only [bind, Except.bind, hverify]
            rfl
          | ok accepted =>
            rw [hverify, of_ok_bind, record_apply, Connection.log_log] at hrun
            refine .inl ⟨first, final, rest, _, rfl, ?_, hrun.symm⟩
            rw [hexchange, hanswer]
            simp only [bind, Except.bind, hverify]
            rfl

/-! ### One turn of the loop -/

/-- The messages the loop passes over. -/
def quiet : BackendMessage → Bool
  | .authentication .ok => true
  | .backendKeyData _ _ => true
  | .parameterStatus _ _ => true
  | _ => false

/-- What the connection keeps of a message passed over. -/
def learn (msg : BackendMessage) (c : Connection) : Connection :=
  match msg with
  | .backendKeyData processId secretKey => c.withKeys processId secretKey
  | _ => c

theorem learn_fields (msg : BackendMessage) (c : Connection) :
    (learn msg c).inbox = c.inbox ∧ (learn msg c).state = c.state ∧ (learn msg c).draws = c.draws ∧
      (learn msg c).trace = c.trace := by
  cases msg <;> exact ⟨rfl, rfl, rfl, rfl⟩

/-- The messages the loop fails at: those it does not know, a request it has no password for, and a SASL
request whose exchange is not accepted. -/
def Refused (draw : Nat) (msg : BackendMessage) (rest : List BackendMessage) : Prop :=
  match msg with
  | .authentication .ok | .backendKeyData _ _ | .parameterStatus _ _ | .readyForQuery _ => False
  | .authentication .cleartextPassword => config.password = none
  | .authentication (.sasl mechanisms) =>
    ∀ first final rest', rest = first :: final :: rest' →
      exchangeAccepted lib config draw mechanisms first final = false
  | _ => True

variable {rest : List BackendMessage}

/-- Everything one turn of `authenticate` can do: pass over a message, answer a password request, go
through a SASL exchange, leave at `ReadyForQuery`, or fail. -/
theorem authenticate_turn {c : Connection} (hinbox : c.inbox = msg :: rest) (turns : Nat) :
    (quiet msg = true ∧ authenticate lib config (turns + 1) c =
      authenticate lib config turns ((learn msg (c.withInbox rest)).log [.received msg])) ∨
    (msg = .authentication .cleartextPassword ∧ ∃ password, config.password = some password ∧
      authenticate lib config (turns + 1) c = authenticate lib config turns
        ((c.withInbox rest).log [.received msg, .sent (.password password)])) ∨
    (∃ mechanisms first final rest' events,
      msg = .authentication (.sasl mechanisms) ∧ rest = first :: final :: rest' ∧
      exchange lib config c.draws mechanisms first final = .ok events ∧
      authenticate lib config (turns + 1) c = authenticate lib config turns
        ((c.withInbox rest').drew.log (.received msg :: events))) ∨
    (∃ status, msg = .readyForQuery status ∧
      authenticate lib config (turns + 1) c = .ok () ((c.withInbox rest).log [.received msg])) ∨
    (Refused lib config c.draws msg rest ∧ ∃ e c' more,
      authenticate lib config (turns + 1) c = .error e c' ∧ c'.state = c.state ∧
      c'.trace = c.trace ++ more ∧ ∀ e ∈ more, e.isPassword = false) := by
  generalize hrun : authenticate lib config (turns + 1) c = result
  rw [authenticate, receiveMessage_bind_cons hinbox] at hrun
  have hfails : ∀ e, result = .error e ((c.withInbox rest).log [.received msg]) →
      ∃ e c' more, result = .error e c' ∧ c'.state = c.state ∧ c'.trace = c.trace ++ more ∧
        ∀ e ∈ more, e.isPassword = false := fun e he =>
    ⟨e, _, [.received msg], he, rfl, rfl, by simp [Event.isPassword]⟩
  cases msg with
  | authentication auth =>
    cases auth with
    | ok => exact .inl ⟨rfl, hrun.symm⟩
    | cleartextPassword =>
      cases hpassword : config.password with
      | none =>
        simp only [passwordRequired, hpassword, of_error_bind] at hrun
        exact .inr (.inr (.inr (.inr ⟨hpassword, hfails _ hrun.symm⟩)))
      | some password =>
        simp only [passwordRequired, hpassword, of_ok_bind, sendMessage_bind, Connection.log_log] at hrun
        exact .inr (.inl ⟨rfl, password, rfl, hrun.symm⟩)
    | md5Password salt => exact .inr (.inr (.inr (.inr ⟨trivial, hfails _ hrun.symm⟩)))
    | sasl mechanisms =>
      simp only at hrun
      rcases handleSasl_spec lib config mechanisms
        ((c.withInbox rest).log [.received (.authentication (.sasl mechanisms))]) with
        ⟨first, final, rest', events, hrest, hexchange, hdone⟩ |
        ⟨e, c', more, hfailed, hstate, htrace, hmore, hrefused⟩
      · rw [bind_ok hdone] at hrun
        refine .inr (.inr (.inl ⟨mechanisms, first, final, rest', events, rfl, hrest, hexchange, ?_⟩))
        rw [← hrun]
        simp [Connection.drew, Connection.log, Connection.withInbox]
      · rw [bind_error hfailed] at hrun
        refine .inr (.inr (.inr (.inr ⟨hrefused, e, c',
          .received (.authentication (.sasl mechanisms)) :: more, hrun.symm, hstate, ?_, ?_⟩)))
        · rw [htrace]
          simp
        · simpa [Event.isPassword] using hmore
    | saslContinue data | saslFinal data => exact .inr (.inr (.inr (.inr ⟨trivial, hfails _ hrun.symm⟩)))
  | backendKeyData processId secretKey => exact .inl ⟨rfl, hrun.symm⟩
  | commandComplete tag | dataRow fields
  | errorResponse fields | noticeResponse fields => exact .inr (.inr (.inr (.inr ⟨trivial, hfails _ hrun.symm⟩)))
  | parameterStatus name value => exact .inl ⟨rfl, hrun.symm⟩
  | readyForQuery status => exact .inr (.inr (.inr (.inl ⟨status, rfl, hrun.symm⟩)))
  | rowDescription fields => exact .inr (.inr (.inr (.inr ⟨trivial, hfails _ hrun.symm⟩)))

theorem not_refused_of_quiet (hquiet : quiet msg = true) : ¬ Refused lib config draw msg rest := by
  cases msg with
  | authentication auth =>
    cases auth with
    | ok => exact id
    | _ => cases hquiet
  | backendKeyData _ _ | parameterStatus _ _ => exact id
  | _ => cases hquiet

section Turns

variable {c : Connection} {rest : List BackendMessage} (turns : Nat)

theorem authenticate_quiet {msg : BackendMessage} (hinbox : c.inbox = msg :: rest)
    (hquiet : quiet msg = true) :
    authenticate lib config (turns + 1) c =
      authenticate lib config turns ((learn msg (c.withInbox rest)).log [.received msg]) := by
  rcases authenticate_turn lib config hinbox turns with
    ⟨-, hrun⟩ | ⟨rfl, -⟩ | ⟨_, _, _, _, _, rfl, -⟩ | ⟨_, rfl, -⟩ | ⟨hrefused, -⟩
  · exact hrun
  · cases hquiet
  · cases hquiet
  · cases hquiet
  · exact absurd hrefused (not_refused_of_quiet lib config hquiet)

theorem authenticate_refused {msg : BackendMessage} (hinbox : c.inbox = msg :: rest)
    (hrefused : Refused lib config c.draws msg rest) :
    ∃ e c', authenticate lib config (turns + 1) c = .error e c' := by
  rcases authenticate_turn lib config hinbox turns with
    ⟨hquiet, -⟩ | ⟨rfl, password, hpassword, -⟩ | ⟨_, first, final, rest', events, rfl, rfl, hexchange, -⟩ |
    ⟨_, rfl, -⟩ | ⟨-, e, c', -, hrun, -⟩
  · exact absurd hrefused (not_refused_of_quiet lib config hquiet)
  · have hnone : config.password = none := hrefused
    rw [hpassword] at hnone
    cases hnone
  · have hno := hrefused first final rest' rfl
    rw [exchangeAccepted, hexchange] at hno
    cases hno
  · exact hrefused.elim
  · exact ⟨e, c', hrun⟩

theorem authenticate_password {password : String} (hpassword : config.password = some password)
    (hinbox : c.inbox = .authentication .cleartextPassword :: rest) :
    authenticate lib config (turns + 1) c = authenticate lib config turns
      ((c.withInbox rest).log [.received (.authentication .cleartextPassword), .sent (.password password)]) := by
  rw [authenticate, receiveMessage_bind_cons hinbox]
  simp only [passwordRequired, hpassword, of_ok_bind, sendMessage_bind, Connection.log_log]
  rfl

theorem authenticate_exchange {mechanisms : List String} {first final : BackendMessage} {events : List Event}
    (hinbox : c.inbox = .authentication (.sasl mechanisms) :: first :: final :: rest)
    (hexchange : exchange lib config c.draws mechanisms first final = .ok events) :
    authenticate lib config (turns + 1) c = authenticate lib config turns
      ((c.withInbox rest).drew.log (.received (.authentication (.sasl mechanisms)) :: events)) := by
  rcases authenticate_turn lib config hinbox turns with
    ⟨hquiet, -⟩ | ⟨hmsg, -⟩ | ⟨_, _, _, _, _, hmsg, hrest, hsame, hrun⟩ | ⟨_, hmsg, -⟩ | ⟨hrefused, -⟩
  · cases hquiet
  · cases hmsg
  · cases hmsg
    cases hrest
    rw [hexchange] at hsame
    cases hsame
    exact hrun
  · cases hmsg
  · have hno := hrefused first final rest rfl
    rw [exchangeAccepted, hexchange] at hno
    cases hno

theorem authenticate_ready {status : UInt8} (hinbox : c.inbox = .readyForQuery status :: rest) :
    authenticate lib config (turns + 1) c = .ok () ((c.withInbox rest).log [.received (.readyForQuery status)]) := by
  rw [authenticate, receiveMessage_bind_cons hinbox]
  rfl

end Turns

/-! ### Whole handshakes -/

/-- The loop keeps the connection's state and adds to its trace. -/
theorem authenticate_frame (turns : Nat) (c : Connection) :
    (after (authenticate lib config turns c)).state = c.state ∧
      ∃ more, (after (authenticate lib config turns c)).trace = c.trace ++ more := by
  induction turns generalizing c with
  | zero => exact ⟨rfl, [], (List.append_nil _).symm⟩
  | succ turns ih =>
    rcases hinbox : c.inbox with _ | ⟨msg, rest⟩
    · rw [authenticate, receiveMessage_bind_nil hinbox]
      exact ⟨rfl, [], (List.append_nil _).symm⟩
    · rcases authenticate_turn lib config hinbox turns with
        ⟨-, hrun⟩ | ⟨-, password, -, hrun⟩ | ⟨_, _, _, _, _, -, -, -, hrun⟩ |
        ⟨status, -, hrun⟩ | ⟨-, e, c', more, hrun, hstate, htrace, -⟩
      · obtain ⟨hstate, more, htrace⟩ := ih ((learn msg (c.withInbox rest)).log [.received msg])
        obtain ⟨-, hstate', -, htrace'⟩ := learn_fields msg (c.withInbox rest)
        rw [hrun]
        refine ⟨hstate.trans hstate', .received msg :: more, ?_⟩
        rw [htrace, Connection.log_trace, htrace']
        simp
      · obtain ⟨hstate, more, htrace⟩ := ih ((c.withInbox rest).log [.received msg, .sent (.password password)])
        rw [hrun]
        exact ⟨hstate, _, htrace.trans (List.append_assoc ..)⟩
      · rw [hrun]
        exact ⟨(ih _).1, _, (ih _).2.choose_spec.trans (List.append_assoc ..)⟩
      · rw [hrun]
        exact ⟨rfl, _, rfl⟩
      · rw [hrun]
        exact ⟨hstate, more, htrace⟩

/-- A server that keeps to the protocol, as far as the client's safety goes: `ReadyForQuery` ends the
handshake only after `AuthenticationOk`, and the password of a client that has one is not asked for once
a SASL exchange went through. What follows a message the loop fails at does not matter. -/
def Orderly : Nat → Prop → Prop → List BackendMessage → Prop
  | _, _, _, [] => True
  | draw, okReceived, started, msg :: rest =>
    match msg with
    | .authentication .ok => Orderly draw True started rest
    | .backendKeyData _ _ | .parameterStatus _ _ => Orderly draw okReceived started rest
    | .authentication .cleartextPassword =>
      config.password ≠ none → ¬ started ∧ Orderly draw okReceived started rest
    | .authentication (.sasl mechanisms) =>
      match rest with
      | first :: final :: rest =>
        exchangeAccepted lib config draw mechanisms first final = true →
          Orderly (draw + 1) okReceived True rest
      | _ => True
    | .readyForQuery _ => okReceived
    | _ => True

theorem orderly_of_refused {okReceived started : Prop} (h : Refused lib config draw msg rest) :
    Orderly lib config draw okReceived started (msg :: rest) := by
  cases msg with
  | authentication auth =>
    cases auth with
    | cleartextPassword => exact fun hpassword => absurd h hpassword
    | sasl mechanisms =>
      match rest, h with
      | first :: final :: rest, h =>
        intro haccepted
        rw [h first final rest rfl] at haccepted
        cases haccepted
      | [], _ | [_], _ => trivial
    | ok => exact h.elim
    | _ => trivial
  | backendKeyData _ _ | parameterStatus _ _ | readyForQuery _ => exact h.elim
  | _ => trivial

theorem orderly_quiet {okReceived started : Prop} (h : quiet msg = true) :
    Orderly lib config draw okReceived started (msg :: rest) ↔
      Orderly lib config draw (okReceived ∨ (Event.received msg).isOk = true) started rest := by
  cases msg with
  | authentication auth =>
    cases auth with
    | ok => simp [Orderly, Event.isOk]
    | _ => cases h
  | backendKeyData _ _ | parameterStatus _ _ => simp [Orderly, Event.isOk]
  | _ => cases h

theorem okReceived_append (trace more : List Event) :
    OkReceived (trace ++ more) ↔ OkReceived trace ∨ ∃ e ∈ more, e.isOk = true := by
  simp only [OkReceived, List.mem_append, or_and_right, exists_or]

theorem scramStarted_append (trace more : List Event) :
    ScramStarted (trace ++ more) ↔ ScramStarted trace ∨ ∃ e ∈ more, e.isScramStart = true := by
  simp only [ScramStarted, List.mem_append, or_and_right, exists_or]

/-- The handshake did no harm: the password was kept, and if it ended well, then after `AuthenticationOk`
and with every exchange verified. -/
def Kept (result : EStateM.Result WireError Connection Unit) : Prop :=
  PasswordKept (after result).trace ∧
    ∀ c, result = .ok () c → OkReceived c.trace ∧ ExchangesVerified c.trace

theorem kept_error (e : WireError) (c : Connection) : Kept (.error e c) ↔ PasswordKept c.trace :=
  ⟨And.left, fun h => ⟨h, nofun⟩⟩

theorem kept_ok {c : Connection} (hkept : PasswordKept c.trace) (hverified : ExchangesVerified c.trace) :
    Kept (.ok () c) ↔ OkReceived c.trace := by
  constructor
  · exact fun h => (h.2 c rfl).1
  · intro h
    refine ⟨hkept, fun c' hc => ?_⟩
    cases hc
    exact ⟨h, hverified⟩

theorem exchangeEvents_verified (scram : ScramClient) (msg first final : BackendMessage)
    (clientFinal accepted : String) :
    ExchangesVerified (.received msg :: exchangeEvents scram first final clientFinal accepted) := by
  intro before start rest hsplit hstart
  match before, hsplit with
  | [_], hsplit =>
    simp only [exchangeEvents, List.cons_append, List.nil_append, List.cons.injEq] at hsplit
    refine ⟨.verified accepted, ?_, rfl⟩
    rw [← hsplit.2.2]
    simp
  | [], hsplit | [_, _], hsplit | [_, _, _], hsplit | [_, _, _, _], hsplit | [_, _, _, _, _], hsplit =>
    -- only the second event starts an exchange
    simp only [exchangeEvents, List.cons_append, List.nil_append, List.cons.injEq] at hsplit
    simp [← hsplit, Event.isScramStart] at hstart
  | _ :: _ :: _ :: _ :: _ :: _ :: _, hsplit => simp [exchangeEvents] at hsplit

/-- The loop does no harm exactly when the server is orderly. -/
theorem authenticate_kept_iff (turns : Nat) (c : Connection) (hturns : c.inbox.length < turns)
    (hkept : PasswordKept c.trace) (hverified : ExchangesVerified c.trace) :
    Kept (authenticate lib config turns c) ↔
      Orderly lib config c.draws (OkReceived c.trace) (ScramStarted c.trace) c.inbox := by
  induction turns generalizing c with
  | zero => omega
  | succ turns ih =>
    rcases hinbox : c.inbox with _ | ⟨msg, rest⟩
    · rw [authenticate, receiveMessage_bind_nil hinbox, kept_error]
      exact iff_of_true hkept trivial
    · have hlength : rest.length < turns := by
        rw [hinbox, List.length_cons] at hturns
        omega
      rcases authenticate_turn lib config hinbox turns with
        ⟨hquiet, hrun⟩ | ⟨rfl, password, hpassword, hrun⟩ |
        ⟨mechanisms, first, final, rest', events, rfl, rfl, hexchange, hrun⟩ |
        ⟨status, rfl, hrun⟩ | ⟨hrefused, e, c', more, hrun, -, htrace, hmore⟩
      · obtain ⟨hinbox', hstate', hdraws', htrace'⟩ := learn_fields msg (c.withInbox rest)
        rw [hrun, ih _ (by simpa [hinbox'] using hlength) ?_ ?_, orderly_quiet lib config hquiet]
        · simp [hinbox', hdraws', htrace', okReceived_append, scramStarted_append, Event.isScramStart]
        · rw [Connection.log_trace, htrace']
          exact passwordKept_append hkept (by simp [Event.isPassword])
        · rw [Connection.log_trace, htrace']
          exact exchangesVerified_append hverified (exchangesVerified_of_none (by simp [Event.isScramStart]))
      · have hrequest : ∀ password, PasswordKept (c.trace ++
            [.received (.authentication .cleartextPassword), .sent (.password password)]) ↔
              ¬ ScramStarted c.trace := by
          intro password
          have hasked : PasswordKept (c.trace ++ [.received (.authentication .cleartextPassword)]) :=
            passwordKept_append hkept (by simp [Event.isPassword])
          rw [List.append_cons, passwordKept_send hasked]
          simp [scramStarted_append, Event.isScramStart]
        rw [hrun]
        by_cases hstarted : ScramStarted c.trace
        · refine iff_of_false (fun h => ?_) fun h => (h (by simp [hpassword])).1 hstarted
          obtain ⟨-, more, htrace⟩ := authenticate_frame lib config turns
            ((c.withInbox rest).log [.received (.authentication .cleartextPassword), .sent (.password password)])
          have hsent := passwordKept_of_append (htrace ▸ h.1)
          exact (hrequest password).mp hsent hstarted
        · rw [ih _ (by simpa using hlength) ?_ ?_]
          · simp [okReceived_append, scramStarted_append, Event.isScramStart, Event.isOk, Orderly, hpassword,
              hstarted]
          · exact (hrequest password).mpr hstarted
          · exact exchangesVerified_append hverified
              (exchangesVerified_of_none (by simp [Event.isScramStart]))
      · have haccepted : exchangeAccepted lib config c.draws mechanisms first final = true := by
          rw [exchangeAccepted, hexchange]
          rfl
        obtain ⟨scram, challenge, signature, clientFinal, accepted, rfl, rfl, rfl⟩ :=
          exchange_ok lib config hexchange
        rw [hrun, ih _ (by simpa using Nat.lt_of_succ_lt (Nat.lt_of_succ_lt hlength)) ?_ ?_]
        · simp [okReceived_append, scramStarted_append, exchangeEvents, Event.isScramStart, Event.isOk, Orderly,
            haccepted]
        · exact passwordKept_append hkept (by simp [exchangeEvents, Event.isPassword])
        · exact exchangesVerified_append hverified (exchangeEvents_verified scram _ _ _ clientFinal accepted)
      · rw [hrun, kept_ok]
        · simp [okReceived_append, Orderly, Event.isOk]
        · exact passwordKept_append hkept (by simp [Event.isPassword])
        · exact exchangesVerified_append hverified (exchangesVerified_of_none (by simp [Event.isScramStart]))
      · rw [hrun, kept_error, htrace]
        exact iff_of_true (passwordKept_append hkept hmore) (orderly_of_refused lib config hrefused)

/-- A loop that ends well leaves no exchange unverified. -/
theorem authenticate_verified (turns : Nat) (c : Connection) (hverified : ExchangesVerified c.trace)
    {c' : Connection} (hdone : authenticate lib config turns c = .ok () c') :
    ExchangesVerified c'.trace := by
  induction turns generalizing c with
  | zero => cases hdone
  | succ turns ih =>
    rcases hinbox : c.inbox with _ | ⟨msg, rest⟩
    · rw [authenticate, receiveMessage_bind_nil hinbox] at hdone
      cases hdone
    · have hreceived : ExchangesVerified (c.trace ++ [.received msg]) :=
        exchangesVerified_append hverified (exchangesVerified_of_none (by simp [Event.isScramStart]))
      rcases authenticate_turn lib config hinbox turns with
        ⟨-, hrun⟩ | ⟨-, password, -, hrun⟩ |
        ⟨mechanisms, first, final, rest', events, -, -, hexchange, hrun⟩ |
        ⟨status, -, hrun⟩ | ⟨-, e, d, more, hrun, -⟩
      · refine ih _ ?_ (hrun ▸ hdone)
        rw [Connection.log_trace, (learn_fields msg (c.withInbox rest)).2.2.2]
        exact hreceived
      · refine ih _ ?_ (hrun ▸ hdone)
        exact exchangesVerified_append hverified (exchangesVerified_of_none (by simp [Event.isScramStart]))
      · obtain ⟨scram, -, -, clientFinal, accepted, -, -, rfl⟩ := exchange_ok lib config hexchange
        refine ih _ ?_ (hrun ▸ hdone)
        exact exchangesVerified_append hverified (exchangeEvents_verified scram msg _ _ clientFinal accepted)
      · rw [hrun] at hdone
        cases hdone
        exact hreceived
      · rw [hrun] at hdone
        cases hdone

/-- The connection when the loop of `startup` begins. -/
def handshaking (inbox : List BackendMessage) : Connection :=
  { inbox, state := .authenticating, trace := [.sent (.startup protocolVersion (startupParams config))] }

theorem startup_eq (inbox : List BackendMessage) :
    startup lib config { inbox } =
      match authenticate lib config (inbox.length + 1) (handshaking config inbox) with
      | .ok _ c => transition .idle c
      | .error e c => .error e c := by
  have hbegin : startup lib config { inbox } =
      (authenticate lib config (inbox.length + 1) >>= fun _ => transition .idle) (handshaking config inbox) := rfl
  rw [hbegin]
  cases hrun : authenticate lib config (inbox.length + 1) (handshaking config inbox) with
  | ok a c => rw [bind_ok hrun]
  | error e c => rw [bind_error hrun]

/-- The state after `startup`: `Idle` only once `AuthenticationOk` was received and every exchange that was
begun was verified, and the password kept from the start of SCRAM on. -/
def Safe (c : Connection) : Prop :=
  (c.state = .idle → OkReceived c.trace ∧ ExchangesVerified c.trace) ∧ PasswordKept c.trace

/-- No server brings `startup` to `Idle` over an unverified exchange; the rest of the safety of `startup`
holds exactly against an orderly server. -/
theorem startup_safe_iff (inbox : List BackendMessage) :
    ((after (startup lib config { inbox })).state = .idle →
      ExchangesVerified (after (startup lib config { inbox })).trace) ∧
    (Safe (after (startup lib config { inbox })) ↔ Orderly lib config 0 False False inbox) := by
  have hempty : ExchangesVerified (handshaking config inbox).trace :=
    exchangesVerified_of_none (by simp [handshaking, Event.isScramStart])
  have hiff := authenticate_kept_iff lib config (inbox.length + 1) (handshaking config inbox)
    (Nat.lt_succ_self _) (List.pairwise_singleton _ _) hempty
  have hframe := (authenticate_frame lib config (inbox.length + 1) (handshaking config inbox)).1
  have hstart : OkReceived (handshaking config inbox).trace ↔ False := by
    simp [OkReceived, handshaking, Event.isOk]
  have hscram : ScramStarted (handshaking config inbox).trace ↔ False := by
    simp [ScramStarted, handshaking, Event.isScramStart]
  rw [hstart, hscram] at hiff
  rw [startup_eq]
  cases hrun : authenticate lib config (inbox.length + 1) (handshaking config inbox) with
  | ok a c =>
    rw [hrun] at hiff hframe
    have hverified := authenticate_verified lib config _ _ hempty hrun
    have hidle : transition .idle c = .ok () { c with state := .idle } := by
      have hstate : c.state = .authenticating := hframe
      simp [transition, hstate, ConnectionState.canTransitionTo]
    simp only [hidle, after]
    refine ⟨fun _ => hverified, Iff.trans ?_ hiff⟩
    constructor
    · rintro ⟨hok, hkept⟩
      refine ⟨hkept, fun c' hc => ?_⟩
      cases hc
      exact hok rfl
    · rintro ⟨hkept, hok⟩
      exact ⟨fun _ => hok c rfl, hkept⟩
  | error e c =>
    rw [hrun, kept_error] at hiff
    rw [hrun] at hframe
    have hstate : c.state = .authenticating := hframe
    refine ⟨fun h => ?_, Iff.trans ?_ hiff⟩
    · rw [after, hstate] at h
      cases h
    · refine ⟨And.right, fun hkept => ⟨fun h => ?_, hkept⟩⟩
      rw [after, hstate] at h
      cases h

/-- A server that sends nothing but `ReadyForQuery` is let in. -/
theorem startup_ready_only : ¬ ∀ (lib : Libraries) (config : ConnectionConfig),
    Safe (after (startup lib config { inbox := [.readyForQuery 73] })) := by
  intro h
  let lib := Libraries.ofParser fun _ => .ok .null
  let config : ConnectionConfig := { database := "app", user := "app" }
  obtain ⟨e, hmem, hok⟩ := ((h lib config).1 rfl).1
  have htrace : (after (startup lib config { inbox := [.readyForQuery 73] })).trace =
      [.sent (.startup protocolVersion (startupParams config)), .received (.readyForQuery 73)] := rfl
  rw [htrace, List.mem_cons, List.mem_singleton] at hmem
  rcases hmem with rfl | rfl <;> cases hok

end Client

end FraiseQL.Wire
