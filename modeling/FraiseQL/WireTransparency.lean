import FraiseQL.WireAuthentication
import FraiseQL.WireStreamIntegrity

/-!
PostgreSQL may send `NoticeResponse` and `ParameterStatus` at any time. The three receive loops differ in
what they make of them: the header loop passes over both, the authentication loop over `ParameterStatus`
only and over nothing inside a SASL exchange, and the row loop over neither. A session is compared with the
same session with such messages put in anywhere.
-/

namespace FraiseQL.Wire

open List

def isAsync : BackendMessage → Bool
  | .noticeResponse _ => true
  | .parameterStatus _ _ => true
  | _ => false

/-- The second sequence is the first with asynchronous messages put in. -/
inductive Inserted : List BackendMessage → List BackendMessage → Prop
  | nil : Inserted [] []
  | keep (msg : BackendMessage) {inbox inbox' : List BackendMessage} (rest : Inserted inbox inbox') :
      Inserted (msg :: inbox) (msg :: inbox')
  | insert {msg : BackendMessage} (hasync : isAsync msg = true) {inbox inbox' : List BackendMessage}
      (rest : Inserted inbox inbox') : Inserted inbox (msg :: inbox')

/-! ### Where the loops tolerate them -/

/-- No asynchronous message before the `ReadyForQuery` that ends the rows. -/
def RowsPlaced : List BackendMessage → Prop
  | [] => True
  | msg :: rest =>
    match msg with
    | .readyForQuery _ => True
    | msg => isAsync msg = false ∧ RowsPlaced rest

/-- Anything before `RowDescription`. -/
def HeaderPlaced : List BackendMessage → Prop
  | [] => True
  | msg :: rest =>
    match msg with
    | .rowDescription _ => RowsPlaced rest
    | _ => HeaderPlaced rest

/-- No notice before the `ReadyForQuery` that ends the handshake, and nothing inside a SASL exchange. -/
def SessionPlaced : List BackendMessage → Prop
  | [] => True
  | msg :: rest =>
    match msg with
    | .readyForQuery _ => HeaderPlaced rest
    | .noticeResponse _ => False
    | .authentication (.sasl _) =>
      match rest with
      | first :: final :: rest => isAsync first = false ∧ isAsync final = false ∧ SessionPlaced rest
      | _ => True
    | _ => SessionPlaced rest

/-! ### What an observer of the client sees -/

def Event.isSent : Event → Bool
  | .sent _ => true
  | _ => false

/-- A connection without what it has received and has yet to receive. -/
def Connection.erase (c : Connection) : Connection :=
  { c with inbox := [], trace := c.trace.filter Event.isSent }

namespace Connection

variable (c : Connection)

@[simp] theorem erase_log (events : List Event) :
    (c.log events).erase = c.erase.log (events.filter Event.isSent) := by
  simp [erase, log]

@[simp] theorem erase_withInbox (rest : List BackendMessage) : (c.withInbox rest).erase = c.erase := rfl

@[simp] theorem erase_drew : c.drew.erase = c.erase.drew := rfl

theorem erase_draws {c c' : Connection} (h : c.erase = c'.erase) : c.draws = c'.draws :=
  show c.erase.draws = c'.erase.draws from congrArg Connection.draws h

end Connection

namespace Client

variable (lib : Libraries) (config : ConnectionConfig) (query : String) (chunkSize : Nat)

theorem erase_learn (msg : BackendMessage) (c c' : Connection) (h : c.erase = c'.erase) :
    (learn msg c).erase = (learn msg c').erase := by
  cases msg with
  | backendKeyData processId secretKey =>
    show c.erase.withKeys _ _ = c'.erase.withKeys _ _
    rw [h]
  | _ => exact h

/-- A session: the handshake, then one streaming query read to its end. -/
def runSession : Client (List Item) := do
  startup lib config
  streamingQuery lib query chunkSize {}

/-- The outcome of a session and the connection it leaves, without the messages received. -/
def observe (result : EStateM.Result WireError Connection (List Item)) :
    Except WireError (List Item) × Connection :=
  match result with
  | .ok items c => (.ok items, c.erase)
  | .error e c => (.error e, c.erase)

/-- The session ends with rows and no error. -/
def Successful (inbox : List BackendMessage) : Prop :=
  ∃ items c, runSession lib config query chunkSize { inbox } = .ok items c ∧
    ∀ item ∈ items, item.isOk = true

/-! ### The authentication loop -/

variable {msg : BackendMessage}

theorem sessionPlaced_quiet (hquiet : quiet msg = true) (rest : List BackendMessage) :
    SessionPlaced (msg :: rest) ↔ SessionPlaced rest := by
  cases msg with
  | authentication auth =>
    cases auth with
    | ok => rfl
    | _ => cases hquiet
  | backendKeyData _ _ | parameterStatus _ _ => rfl
  | _ => cases hquiet

variable {rest : List BackendMessage}

/-- An exchange into which an asynchronous message was put does not go through. -/
theorem refused_of_async {draw : Nat} {mechanisms : List String}
    (h : ∀ first final rest', rest = first :: final :: rest' → isAsync first = true ∨ isAsync final = true) :
    Refused lib config draw (.authentication (.sasl mechanisms)) rest := by
  intro first final rest' hrest
  by_contra haccepted
  obtain ⟨events, hexchange⟩ := Outcome.isOk_iff.mp (by simpa [exchangeAccepted] using haccepted)
  obtain ⟨-, challenge, signature, -, -, rfl, rfl, -⟩ := exchange_ok lib config hexchange
  rcases h _ _ _ hrest with hasync | hasync <;> cases hasync

/-- The loop over the messages with the insertions, against the loop without them. -/
def AuthenticatesAlike (c' d : Connection) (turns' : Nat) : Prop :=
  (∃ d', authenticate lib config turns' c' = .ok () d' ∧ d.erase = d'.erase ∧ Inserted d.inbox d'.inbox ∧
    (SessionPlaced c'.inbox ↔ HeaderPlaced d'.inbox)) ∨
  (¬ SessionPlaced c'.inbox ∧ ∃ e d', authenticate lib config turns' c' = .error e d')

theorem authenticate_inserted (turns' : Nat) :
    ∀ (turns : Nat) (c c' d : Connection), c.erase = c'.erase → Inserted c.inbox c'.inbox →
      c'.inbox.length < turns' → authenticate lib config turns c = .ok () d →
      AuthenticatesAlike lib config c' d turns' := by
  induction turns' with
  | zero => intro turns c c' d _ _ hturns _; omega
  | succ turns' ih =>
    intro turns c c' d halike hinserted hturns hdone
    unfold AuthenticatesAlike at ih ⊢
    generalize hinbox : c.inbox = inbox at hinserted
    generalize hinbox' : c'.inbox = inbox' at hinserted hturns ⊢
    -- the loop without the insertions takes a message too
    obtain ⟨turns, rfl⟩ : ∃ n, turns = n + 1 := by
      cases turns with
      | zero => cases hdone
      | succ n => exact ⟨n, rfl⟩
    cases hinserted with
    | nil =>
      rw [authenticate, receiveMessage_bind_nil hinbox] at hdone
      cases hdone
    | @insert msg hasync _ rest' hrest =>
      have hlength : rest'.length < turns' := by
        rw [length_cons] at hturns
        omega
      cases msg with
      | parameterStatus name value =>
        rw [authenticate_quiet lib config turns' hinbox' rfl]
        subst hinbox
        exact ih _ c _ d (by simpa [learn, Event.isSent] using halike) hrest hlength hdone
      | noticeResponse fields =>
        exact .inr ⟨id, authenticate_refused lib config turns' hinbox' trivial⟩
      | _ => cases hasync
    | @keep msg rest rest' hrest =>
      have hlength : rest'.length < turns' := by
        rw [length_cons] at hturns
        omega
      rcases authenticate_turn lib config hinbox turns with
        ⟨hquiet, hrun⟩ | ⟨rfl, password, hpassword, hrun⟩ |
        ⟨mechanisms, first, final, after, events, rfl, rfl, hexchange, hrun⟩ |
        ⟨status, rfl, hrun⟩ | ⟨hrefused, e, d', more, hrun, -⟩
      · rw [authenticate_quiet lib config turns' hinbox' hquiet, sessionPlaced_quiet hquiet]
        rw [hrun] at hdone
        obtain ⟨hrest₁, -⟩ := learn_fields msg (c.withInbox rest)
        obtain ⟨hrest₂, -⟩ := learn_fields msg (c'.withInbox rest')
        have hlearn := erase_learn msg (c.withInbox rest) (c'.withInbox rest') halike
        have hnext := ih turns _ ((learn msg (c'.withInbox rest')).log [.received msg]) d
          (by simpa [Event.isSent] using hlearn) (by simpa [hrest₁, hrest₂] using hrest)
          (by simpa [hrest₂] using hlength) hdone
        simpa [hrest₂] using hnext
      · rw [authenticate_password lib config turns' hpassword hinbox']
        rw [hrun] at hdone
        exact ih turns _ _ d (by simp [Event.isSent, halike]) hrest hlength hdone
      · have hdraws := Connection.erase_draws halike
        rw [hrun] at hdone
        obtain ⟨scram, challenge, signature, clientFinal, accepted, rfl, rfl, hevents⟩ :=
          exchange_ok lib config hexchange
        cases hrest with
        | @insert other hasync _ later hlater =>
          refine .inr ⟨?_, authenticate_refused lib config turns' hinbox'
            (refused_of_async lib config fun _ _ _ h => by cases h; exact .inl hasync)⟩
          cases hlater <;> simp [SessionPlaced, hasync]
        | @keep _ _ later hlater =>
          cases hlater with
          | @insert other hasync _ later hlater =>
            refine .inr ⟨?_, authenticate_refused lib config turns' hinbox'
              (refused_of_async lib config fun _ _ _ h => by cases h; exact .inr hasync)⟩
            simp [SessionPlaced, hasync]
          | @keep _ _ later hlater =>
            rw [authenticate_exchange lib config turns' hinbox' (hdraws ▸ hexchange)]
            have hnext := ih turns _ ((c'.withInbox later).drew.log
              (.received (.authentication (.sasl mechanisms)) :: events)) d
              (by simp [Event.isSent, halike]) hlater
              (by simp only [length_cons] at hlength; simp; omega) hdone
            simpa [SessionPlaced, isAsync] using hnext
      · rw [authenticate_ready lib config turns' hinbox']
        rw [hrun] at hdone
        cases hdone
        exact .inl ⟨_, rfl, by simp [Event.isSent, halike], hrest, Iff.rfl⟩
      · rw [hrun] at hdone
        cases hdone

/-! ### The header loop -/

/-- The messages the header loop passes over. -/
def headerSkips : BackendMessage → Bool
  | .backendKeyData _ _ => true
  | .parameterStatus _ _ => true
  | .noticeResponse _ => true
  | _ => false

variable {c : Connection}

theorem readHeader_skip (turns : Nat) (hinbox : c.inbox = msg :: rest) (hskips : headerSkips msg = true) :
    readHeader (turns + 1) c = readHeader turns ((c.withInbox rest).log [.received msg]) := by
  rw [readHeader, receiveMessage_bind_cons hinbox]
  cases msg with
  | backendKeyData _ _ | parameterStatus _ _ | noticeResponse _ => rfl
  | _ => cases hskips

/-- A turn that ends well passes over its message or returns the description. -/
theorem readHeader_turn {d : Connection} {desc : BackendMessage}
    {turns : Nat} (hinbox : c.inbox = msg :: rest) (hdone : readHeader (turns + 1) c = .ok desc d) :
    (headerSkips msg = true ∧ readHeader turns ((c.withInbox rest).log [.received msg]) = .ok desc d) ∨
    (∃ fields, msg = .rowDescription fields ∧ desc = msg ∧ d = (c.withInbox rest).log [.received msg]) := by
  rw [readHeader, receiveMessage_bind_cons hinbox] at hdone
  cases msg with
  | backendKeyData _ _ | parameterStatus _ _ | noticeResponse _ => exact .inl ⟨rfl, hdone⟩
  | rowDescription fields =>
    cases hdone
    exact .inr ⟨fields, rfl, rfl, rfl⟩
  | errorResponse err =>
    cases hskip : skipToReady turns ((c.withInbox rest).log [.received (.errorResponse err)]) with
    | ok _ c' => simp only [bind_ok hskip, throw_apply] at hdone; cases hdone
    | error e c' => simp only [bind_error hskip] at hdone; cases hdone
  | _ => cases hdone

theorem headerPlaced_skip (hskips : headerSkips msg = true)
    (rest : List BackendMessage) : HeaderPlaced (msg :: rest) ↔ HeaderPlaced rest := by
  cases msg with
  | backendKeyData _ _ | parameterStatus _ _ | noticeResponse _ => rfl
  | _ => cases hskips

theorem headerSkips_of_async (hasync : isAsync msg = true) : headerSkips msg = true := by
  cases msg with
  | parameterStatus _ _ | noticeResponse _ => rfl
  | _ => cases hasync

theorem readHeader_inserted (turns' : Nat) :
    ∀ (turns : Nat) (c c' d : Connection) (desc : BackendMessage), c.erase = c'.erase →
      Inserted c.inbox c'.inbox → c'.inbox.length < turns' → readHeader turns c = .ok desc d →
      ∃ d', readHeader turns' c' = .ok desc d' ∧ d.erase = d'.erase ∧ Inserted d.inbox d'.inbox ∧
        (HeaderPlaced c'.inbox ↔ RowsPlaced d'.inbox) := by
  induction turns' with
  | zero => intro turns c c' d desc _ _ hturns _; omega
  | succ turns' ih =>
    intro turns c c' d desc halike hinserted hturns hdone
    generalize hinbox : c.inbox = inbox at hinserted
    generalize hinbox' : c'.inbox = inbox' at hinserted hturns ⊢
    obtain ⟨turns, rfl⟩ : ∃ n, turns = n + 1 := by
      cases turns with
      | zero => cases hdone
      | succ n => exact ⟨n, rfl⟩
    cases hinserted with
    | nil =>
      rw [readHeader, receiveMessage_bind_nil hinbox] at hdone
      cases hdone
    | @insert msg hasync _ rest' hrest =>
      have hskips := headerSkips_of_async hasync
      rw [readHeader_skip turns' hinbox' hskips, headerPlaced_skip hskips]
      subst hinbox
      exact ih _ c _ d desc (by simpa [Event.isSent] using halike) hrest
        (by simpa using Nat.lt_of_succ_lt_succ hturns) hdone
    | @keep msg rest rest' hrest =>
      rcases readHeader_turn hinbox hdone with ⟨hskips, hrun⟩ | ⟨fields, rfl, rfl, rfl⟩
      · rw [readHeader_skip turns' hinbox' hskips, headerPlaced_skip hskips]
        exact ih _ _ _ d desc (by simpa [Event.isSent] using halike) hrest
          (by simpa using Nat.lt_of_succ_lt_succ hturns) hrun
      · rw [readHeader, receiveMessage_bind_cons hinbox']
        exact ⟨_, rfl, by simp [Event.isSent, halike], hrest, Iff.rfl⟩

/-! ### The row loop -/

variable {inbox : List BackendMessage}

theorem taskItems_inserted {inbox' : List BackendMessage} (hinserted : Inserted inbox inbox') :
    ∀ chunk, (∀ item ∈ taskItems lib chunkSize inbox chunk, item.isOk = true) →
      (RowsPlaced inbox' → taskItems lib chunkSize inbox' chunk = taskItems lib chunkSize inbox chunk) ∧
      (¬ RowsPlaced inbox' → ∃ item ∈ taskItems lib chunkSize inbox' chunk, item.isOk = false) := by
  induction hinserted with
  | nil => exact fun chunk _ => ⟨fun _ => rfl, fun h => absurd trivial h⟩
  | @insert msg hasync inbox inbox' _ ih =>
    intro chunk _
    cases msg with
    | parameterStatus _ _ | noticeResponse _ =>
      exact ⟨fun h => (nomatch h.1), fun _ => ⟨_, mem_singleton_self _, rfl⟩⟩
    | _ => cases hasync
  | @keep msg inbox inbox' _ ih =>
    intro chunk hok
    -- a chunk that goes out, the same in both runs
    have hchunk : ∀ sent : List Item,
        (∀ item ∈ sent ++ taskItems lib chunkSize inbox [], item.isOk = true) →
        (RowsPlaced inbox' → sent ++ taskItems lib chunkSize inbox' [] = sent ++ taskItems lib chunkSize inbox []) ∧
        (¬ RowsPlaced inbox' → ∃ item ∈ sent ++ taskItems lib chunkSize inbox' [], item.isOk = false) := by
      intro sent hsent
      obtain ⟨hsame, hdiffers⟩ := ih [] fun item hmem => hsent item (mem_append_right _ hmem)
      refine ⟨fun h => by rw [hsame h], fun h => ?_⟩
      obtain ⟨item, hmem, herror⟩ := hdiffers h
      exact ⟨item, mem_append_right _ hmem, herror⟩
    cases msg with
    | dataRow fields =>
      simp only [taskItems, RowsPlaced, isAsync, true_and] at hok ⊢
      cases hextract : extractJsonBytes (.dataRow fields) with
      | error e =>
        simp only [hextract] at hok
        have hno := hok _ (mem_singleton_self _)
        cases hno
      | ok bytes =>
        simp only [hextract] at hok
        by_cases hfull : isFull chunkSize (chunk ++ [bytes]) = true
        · simp only [hfull, if_true] at hok ⊢
          exact hchunk _ hok
        · rw [if_neg hfull] at hok
          simp only [hfull]
          exact ih _ hok
    | commandComplete tag =>
      simp only [taskItems, RowsPlaced, isAsync, true_and] at hok ⊢
      by_cases hempty : chunk.isEmpty = true
      · simp only [hempty, if_true] at hok ⊢
        exact ih _ hok
      · rw [if_neg hempty] at hok
        simp only [hempty]
        exact hchunk _ hok
    | readyForQuery status => exact ⟨fun _ => rfl, fun h => absurd trivial h⟩
    | _ =>
      have hno := hok _ (mem_singleton_self _)
      cases hno

/-! ### Sessions -/

/-- The connection when the header loop begins. -/
def querying (c : Connection) : Connection :=
  ({ c with state := .readingResults } : Connection).log [.sent (.query query)]

/-- The rows, read from what is left. -/
def deliver : Client (List Item) := fun c => .ok (streamed lib chunkSize c.inbox) c

theorem streamingQuery_eq (hidle : c.state = .idle) : streamingQuery lib query chunkSize {} c =
      (readHeader (c.inbox.length + 1) >>= fun desc => of (validateRowDescription desc) >>= fun _ =>
        deliver lib chunkSize) (querying query c) := by
  obtain ⟨inbox, state, processId, secretKey, draws, trace⟩ := c
  cases hidle
  rfl

/-- What a session that starts up and reads a header comes to. -/
theorem runSession_eq (hauth : authenticate lib config (inbox.length + 1) (handshaking config inbox) = .ok () c) :
    runSession lib config query chunkSize { inbox } =
      (readHeader (c.inbox.length + 1) >>= fun desc => of (validateRowDescription desc) >>= fun _ =>
        deliver lib chunkSize) (querying query c) := by
  have hstate : c.state = .authenticating := by
    have hframe := (authenticate_frame lib config (inbox.length + 1) (handshaking config inbox)).1
    rw [hauth] at hframe
    exact hframe
  have hstartup : startup lib config { inbox } = .ok () { c with state := .idle } := by
    rw [startup_eq, hauth]
    simp [transition, hstate, ConnectionState.canTransitionTo]
  rw [runSession, bind_ok hstartup, streamingQuery_eq lib query chunkSize rfl]
  rfl

theorem runSession_error {e : WireError}
    (hauth : authenticate lib config (inbox.length + 1) (handshaking config inbox) = .error e c) :
    runSession lib config query chunkSize { inbox } = .error e c := by
  have hstartup : startup lib config { inbox } = .error e c := by
    rw [startup_eq, hauth]
  rw [runSession, bind_error hstartup]

/-- The steps of a successful session. -/
theorem successful_steps (h : Successful lib config query chunkSize inbox) :
    ∃ c d desc, authenticate lib config (inbox.length + 1) (handshaking config inbox) = .ok () c ∧
      readHeader (c.inbox.length + 1) (querying query c) = .ok desc d ∧
      validateRowDescription desc = .ok () ∧
      runSession lib config query chunkSize { inbox } = .ok (streamed lib chunkSize d.inbox) d ∧
      ∀ item ∈ streamed lib chunkSize d.inbox, item.isOk = true := by
  obtain ⟨items, last, hrun, hitems⟩ := h
  cases hauth : authenticate lib config (inbox.length + 1) (handshaking config inbox) with
  | error e c =>
    rw [runSession_error lib config query chunkSize hauth] at hrun
    cases hrun
  | ok _ c =>
    have hsession := runSession_eq lib config query chunkSize hauth
    cases hheader : readHeader (c.inbox.length + 1) (querying query c) with
    | error e d =>
      rw [hsession, bind_error hheader] at hrun
      cases hrun
    | ok desc d =>
      rw [bind_ok hheader] at hsession
      cases hvalid : validateRowDescription desc with
      | error e =>
        rw [hsession, hvalid] at hrun
        cases hrun
      | ok _ =>
        rw [hvalid, of_ok_bind] at hsession
        rw [hsession] at hrun
        cases hrun
        exact ⟨c, _, desc, rfl, hheader, hvalid, hsession, hitems⟩

/-- A successful session with asynchronous messages put in comes to the same exactly when they stand where
the loops tolerate them. -/
theorem session_transparent_iff {inbox inbox' : List BackendMessage}
    (hsuccess : Successful lib config query chunkSize inbox) (hinserted : Inserted inbox inbox') :
    observe (runSession lib config query chunkSize { inbox := inbox' }) =
        observe (runSession lib config query chunkSize { inbox }) ↔
      SessionPlaced inbox' := by
  obtain ⟨c, d, desc, hauth, hheader, hvalid, hrun, hitems⟩ := successful_steps lib config query chunkSize hsuccess
  rw [hrun]
  rcases authenticate_inserted lib config (inbox'.length + 1) _ (handshaking config inbox)
    (handshaking config inbox') _ rfl hinserted
    (Nat.lt_succ_self _) hauth with ⟨c', hauth', halike, hrest, hplaced⟩ | ⟨hnot, e, c', hauth'⟩
  · have hplaced : SessionPlaced inbox' ↔ HeaderPlaced c'.inbox := hplaced
    have hquerying : (querying query c).erase = (querying query c').erase := by
      rw [querying, querying, Connection.erase_log, Connection.erase_log]
      show Connection.log { c.erase with state := .readingResults } _ =
        Connection.log { c'.erase with state := .readingResults } _
      rw [halike]
    obtain ⟨d', hheader', hsame, hrows, hheaderPlaced⟩ := readHeader_inserted (c'.inbox.length + 1) _ _
      (querying query c') _ _ hquerying hrest (Nat.lt_succ_self _) hheader
    have hsession := runSession_eq lib config query chunkSize hauth'
    rw [bind_ok hheader', hvalid, of_ok_bind] at hsession
    rw [hsession, hplaced]
    rw [streamed_eq] at hitems
    obtain ⟨heq, hdiffers⟩ := taskItems_inserted lib chunkSize hrows [] hitems
    have hheaderPlaced : HeaderPlaced c'.inbox ↔ RowsPlaced d'.inbox := hheaderPlaced
    rw [hheaderPlaced]
    show (Except.ok (streamed lib chunkSize d'.inbox), d'.erase) =
      (Except.ok (streamed lib chunkSize d.inbox), d.erase) ↔ _
    rw [streamed_eq, streamed_eq, Prod.mk.injEq, Except.ok.injEq]
    constructor
    · rintro ⟨hitems', -⟩
      by_contra hrowsNot
      obtain ⟨item, hmem, herror⟩ := hdiffers hrowsNot
      rw [hitems'] at hmem
      rw [hitems item hmem] at herror
      cases herror
    · exact fun h => ⟨heq h, hsame.symm⟩
  · refine iff_of_false ?_ hnot
    rw [runSession_error lib config query chunkSize hauth']
    intro h
    cases congrArg Prod.fst h

/-- A session of one row: the number 1. -/
def oneRow : List BackendMessage :=
  [.authentication .ok, .readyForQuery 73,
    .rowDescription [⟨"data", 0, 0, 3802, -1, -1, 0⟩], .dataRow [some [49]],
    .commandComplete "SELECT 1", .readyForQuery 73]

def oneRowLibraries : Libraries := Libraries.ofParser fun _ => .ok (.ofNat 1)

theorem oneRow_successful :
    Successful oneRowLibraries { database := "app", user := "app" } "SELECT data FROM v_n" 256 oneRow := by
  refine ⟨[.ok (.ofNat 1)], _, rfl, ?_⟩
  intro item hitem
  rw [mem_singleton.mp hitem]
  rfl

/-- A changed parameter during the handshake and a notice before the rows make no difference. -/
theorem oneRow_transparent :
    observe (runSession oneRowLibraries { database := "app", user := "app" } "SELECT data FROM v_n" 256
      { inbox := [.authentication .ok, .parameterStatus "TimeZone" "UTC", .readyForQuery 73, .noticeResponse {},
          .rowDescription [⟨"data", 0, 0, 3802, -1, -1, 0⟩], .dataRow [some [49]],
          .commandComplete "SELECT 1", .readyForQuery 73] }) =
      observe (runSession oneRowLibraries { database := "app", user := "app" } "SELECT data FROM v_n" 256
        { inbox := oneRow }) := by
  apply (session_transparent_iff _ _ _ _ oneRow_successful ?_).mpr
  · exact ⟨rfl, rfl, trivial⟩
  · exact .keep _ (.insert rfl (.keep _ (.insert rfl (.keep _ (.keep _ (.keep _ (.keep _ .nil)))))))

/-- A notice between the last row and the end of the command turns the session's rows into an error. -/
theorem oneRow_notice : ¬ ∀ (lib : Libraries) (config : ConnectionConfig) (query : String) (chunkSize : Nat)
    (inbox inbox' : List BackendMessage), Successful lib config query chunkSize inbox →
    Inserted inbox inbox' →
    observe (runSession lib config query chunkSize { inbox := inbox' }) =
      observe (runSession lib config query chunkSize { inbox }) := by
  intro h
  have hsame := h oneRowLibraries { database := "app", user := "app" } "SELECT data FROM v_n" 256 oneRow
    [.authentication .ok, .readyForQuery 73, .rowDescription [⟨"data", 0, 0, 3802, -1, -1, 0⟩],
      .dataRow [some [49]], .noticeResponse {}, .commandComplete "SELECT 1", .readyForQuery 73]
    oneRow_successful
    (.keep _ (.keep _ (.keep _ (.keep _ (.insert rfl (.keep _ (.keep _ .nil)))))))
  cases congrArg Prod.fst hsame

end Client

end FraiseQL.Wire
