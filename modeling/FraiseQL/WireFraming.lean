import FraiseQL.ChunkedDecoder
import FraiseQL.WireDecode

/-!
`Connection::receive_message` over a server stream that arrives in reads of any size. Decoding looks at
nothing beyond the head message, so the messages returned are those of the whole stream. The loop treats
every decoding error as a sign that bytes are missing; at a head message that is all there and does not
decode it therefore asks the transport instead of failing.
-/

namespace FraiseQL.Wire

open ChunkedDecoder List

/-- One call of `receive_message`. Besides its result and what it leaves in `read_buf` and on the
transport, it keeps the contents of `read_buf` at each of its `transport.read_buf` calls. -/
structure Reception where
  result : Except WireError BackendMessage
  readBuf : Bytes
  transport : List Bytes
  asked : List Bytes

/-- `Connection::receive_message`. The transport is the list of its reads to come; past them a read
returns zero bytes. -/
def receiveMessage (readBuf : Bytes) (transport : List Bytes) : Reception :=
  match decodeMessage readBuf with
  | .ok (msg, consumed) => ⟨.ok msg, readBuf.drop consumed, transport, []⟩
  | .error _ =>
    match transport with
    | [] => ⟨.error .connectionClosed, readBuf, [], [readBuf]⟩
    | [] :: rest => ⟨.error .connectionClosed, readBuf, rest, [readBuf]⟩
    | (byte :: bytes) :: rest =>
      let reception := receiveMessage (readBuf ++ byte :: bytes) rest
      { reception with asked := readBuf :: reception.asked }

/-- `receive_message` called until it fails: the messages and all the buffers at which it read. -/
def receiveAll : Nat → Bytes → List Bytes → List BackendMessage × List Bytes
  | 0, _, _ => ([], [])
  | fuel + 1, readBuf, transport =>
    let reception := receiveMessage readBuf transport
    match reception.result with
    | .error _ => ([], reception.asked)
    | .ok msg =>
      let later := receiveAll fuel reception.readBuf reception.transport
      (msg :: later.1, reception.asked ++ later.2)

def drain (transport : List Bytes) : List BackendMessage × List Bytes :=
  receiveAll (transport.flatten.length + 1) [] transport

/-- The messages of a stream that is all there, and the bytes where the next one does not decode. -/
def decodeAll : Nat → Bytes → List BackendMessage × Bytes
  | 0, data => ([], data)
  | fuel + 1, data =>
    match decodeMessage data with
    | .error _ => ([], data)
    | .ok (msg, consumed) =>
      let later := decodeAll fuel (data.drop consumed)
      (msg :: later.1, later.2)

def decodeWhole (stream : Bytes) : List BackendMessage × Bytes := decodeAll (stream.length + 1) stream

/-- The head message is complete according to its length field. -/
def headComplete (data : Bytes) : Bool :=
  match data with
  | _ :: a :: b :: c :: d :: _ => i32FromBeBytes a b c d + 1 ≤ data.length
  | _ => false

/-! ### What the decoder looks at -/

theorem decodeMessage_append {data : Bytes} (more : Bytes) (h : headComplete data = true) :
    headComplete (data ++ more) = true ∧ decodeMessage (data ++ more) = decodeMessage data := by
  match data, h with
  | tag :: a :: b :: c :: d :: rest, h =>
    have hlen : i32FromBeBytes a b c d + 1 ≤ (rest.length : Int) + 5 := by
      simp only [headComplete, length_cons, decide_eq_true_eq] at h
      omega
    constructor
    · simp only [headComplete, cons_append, length_cons, length_append, decide_eq_true_eq]
      omega
    · simp only [decodeMessage, cons_append, length_cons, length_append]
      by_cases hsmall : i32FromBeBytes a b c d < 4
      · simp only [hsmall, if_true]
      · have hfit : (i32FromBeBytes a b c d).toNat - 4 ≤ rest.length := by omega
        have hleft : ¬ rest.length + more.length + 1 + 1 + 1 + 1 + 1 <
            (i32FromBeBytes a b c d).toNat + 1 := by omega
        have hright : ¬ rest.length + 1 + 1 + 1 + 1 + 1 < (i32FromBeBytes a b c d).toNat + 1 := by omega
        simp only [hsmall, hleft, hright, if_false, take_append_of_le_length hfit]
  | [], h | [_], h | [_, _], h | [_, _, _], h | [_, _, _, _], h => simp [headComplete] at h

theorem decodeMessage_ok {data : Bytes} {msg : BackendMessage} {consumed : Nat}
    (h : decodeMessage data = .ok (msg, consumed)) :
    headComplete data = true ∧ 0 < consumed ∧ consumed ≤ data.length := by
  match data, h with
  | tag :: a :: b :: c :: d :: rest, h =>
    simp only [decodeMessage] at h
    split at h
    · cases h
    · next hlarge =>
        split at h
        · cases h
        · next hfit =>
            cases hbody : decodeBody tag (rest.take ((i32FromBeBytes a b c d).toNat - 4)) with
            | error e => rw [hbody] at h; cases h
            | ok m =>
              rw [hbody] at h
              cases h
              simp only [headComplete, length_cons, decide_eq_true_eq] at hfit ⊢
              omega
  | [], h | [_], h | [_, _], h | [_, _, _], h | [_, _, _, _], h => cases h

/-- `decode_message` as a decoder of the head of a buffer. -/
def headDecoder (data : Bytes) : Option (BackendMessage × Bytes) :=
  match decodeMessage data with
  | .ok (msg, consumed) => some (msg, data.drop consumed)
  | .error _ => none

theorem headDecoder_some {data rest : Bytes} {msg : BackendMessage}
    (h : headDecoder data = some (msg, rest)) :
    ∃ consumed, decodeMessage data = .ok (msg, consumed) ∧ rest = data.drop consumed := by
  unfold headDecoder at h
  split at h
  · next m n hdec =>
      cases h
      exact ⟨n, hdec, rfl⟩
  · cases h

def wireDecoder : Decoder UInt8 BackendMessage where
  decode := headDecoder
  stable := by
    intro data msg rest more h
    obtain ⟨consumed, hdec, rfl⟩ := headDecoder_some h
    obtain ⟨hcomplete, -, hle⟩ := decodeMessage_ok hdec
    unfold headDecoder
    rw [(decodeMessage_append more hcomplete).2, hdec]
    simp only [List.drop_append_of_le_length hle]
  consumes := by
    intro data msg rest h
    obtain ⟨consumed, hdec, rfl⟩ := headDecoder_some h
    obtain ⟨-, hpos, hle⟩ := decodeMessage_ok hdec
    rw [List.length_drop]
    omega

theorem headComplete_lasting : wireDecoder.Lasting fun data => headComplete data = true := by
  intro data more hcomplete hnone
  obtain ⟨hmore, hsame⟩ := decodeMessage_append more hcomplete
  refine ⟨hmore, ?_⟩
  have hnone : headDecoder data = none := hnone
  show headDecoder (data ++ more) = none
  unfold headDecoder at hnone ⊢
  rw [hsame]
  cases hdec : decodeMessage data with
  | error e => rfl
  | ok p => rw [hdec] at hnone; cases hnone

/-! ### The loops are the reader's of the library -/

theorem receiveMessage_eq (readBuf : Bytes) (transport : List Bytes) :
    ((receiveMessage readBuf transport).result =
        match (wireDecoder.receive readBuf transport).message with
        | some msg => .ok msg
        | none => .error .connectionClosed) ∧
      (receiveMessage readBuf transport).readBuf = (wireDecoder.receive readBuf transport).buffer ∧
      (receiveMessage readBuf transport).transport = (wireDecoder.receive readBuf transport).reads ∧
      (receiveMessage readBuf transport).asked = (wireDecoder.receive readBuf transport).asked := by
  have hhead : ∀ data, wireDecoder.decode data = headDecoder data := fun _ => rfl
  induction transport generalizing readBuf with
  | nil =>
    unfold receiveMessage Decoder.receive
    rw [hhead, headDecoder]
    cases hdec : decodeMessage readBuf with
    | error e => simp
    | ok p => simp
  | cons piece rest ih =>
    unfold receiveMessage Decoder.receive
    rw [hhead, headDecoder]
    cases hdec : decodeMessage readBuf with
    | ok p => simp
    | error e =>
      cases piece with
      | nil => simp
      | cons byte bytes =>
        obtain ⟨hresult, hbuf, htransport, hasked⟩ := ih (readBuf ++ byte :: bytes)
        exact ⟨hresult, hbuf, htransport, congrArg (readBuf :: ·) hasked⟩

theorem receiveAll_eq (fuel : Nat) (readBuf : Bytes) (transport : List Bytes)
    (hfuel : (readBuf ++ transport.flatten).length < fuel) :
    receiveAll fuel readBuf transport = wireDecoder.session readBuf transport := by
  induction fuel generalizing readBuf transport with
  | zero => omega
  | succ fuel ih =>
    obtain ⟨hresult, hbuf, htransport, hasked⟩ := receiveMessage_eq readBuf transport
    unfold receiveAll
    cases hmsg : (wireDecoder.receive readBuf transport).message with
    | none =>
      rw [wireDecoder.session_closed hmsg]
      simp only [hresult, hmsg, hasked]
    | some msg =>
      have hless := wireDecoder.consumes (wireDecoder.receive_stream hmsg)
      rw [wireDecoder.session_message hmsg]
      simp only [hresult, hmsg, hasked, hbuf, htransport]
      rw [ih _ _ (by omega)]

theorem decodeAll_eq (fuel : Nat) (data : Bytes) (hfuel : data.length < fuel) :
    decodeAll fuel data = wireDecoder.all data := by
  induction fuel generalizing data with
  | zero => omega
  | succ fuel ih =>
    unfold decodeAll
    cases hdec : decodeMessage data with
    | error e =>
      have hnone : wireDecoder.decode data = none := by
        show headDecoder data = none
        rw [headDecoder, hdec]
      rw [wireDecoder.all_none hnone]
    | ok p =>
      have hsome : wireDecoder.decode data = some (p.1, data.drop p.2) := by
        show headDecoder data = _
        rw [headDecoder, hdec]
      have hless := wireDecoder.consumes hsome
      rw [wireDecoder.all_some hsome]
      simp only
      rw [ih _ (by omega)]

theorem drain_eq (transport : List Bytes) : drain transport = wireDecoder.session [] transport :=
  receiveAll_eq _ _ _ (by simp)

theorem decodeWhole_eq (stream : Bytes) : decodeWhole stream = wireDecoder.all stream :=
  decodeAll_eq _ _ (Nat.lt_succ_self _)

/-! ### Framing -/

/-- The messages returned are those of the whole stream, and no read is made while the head message in the
buffer is complete. -/
def Framed (transport : List Bytes) : Prop :=
  (drain transport).1 = (decodeWhole transport.flatten).1 ∧
    ∀ buffer ∈ (drain transport).2, headComplete buffer = false

instance (transport : List Bytes) : Decidable (Framed transport) :=
  inferInstanceAs (Decidable (_ ∧ _))

/-- However the stream is cut into reads, `receive_message` returns the messages of the whole stream. It
reads on at a complete head message exactly when the stream, after the messages that decode, goes on with
a complete one. -/
theorem framed_iff (transport : List Bytes) (hreads : ∀ read ∈ transport, read ≠ []) :
    (drain transport).1 = (decodeWhole transport.flatten).1 ∧
      (Framed transport ↔ headComplete (decodeWhole transport.flatten).2 = false) := by
  have hmessages := wireDecoder.session_messages [] transport hreads
  have hasked := wireDecoder.session_asked_iff headComplete_lasting [] transport hreads
  rw [nil_append] at hmessages hasked
  rw [Framed, drain_eq, decodeWhole_eq]
  refine ⟨hmessages, ?_⟩
  constructor
  · rintro ⟨-, hnever⟩
    by_contra htail
    obtain ⟨buffer, hmem, hcomplete⟩ := hasked.mpr (by simpa using htail)
    rw [hnever buffer hmem] at hcomplete
    cases hcomplete
  · intro htail
    refine ⟨hmessages, fun buffer hmem => ?_⟩
    by_contra hcomplete
    have hlast : headComplete (wireDecoder.all transport.flatten).2 = true := hasked.mp ⟨buffer, hmem, by simpa using hcomplete⟩
    rw [htail] at hlast
    cases hlast

/-- `ReadyForQuery` in two reads. -/
theorem framed_ready : Framed [[90, 0, 0], [0, 5, 73]] := by
  have h := framed_iff [[90, 0, 0], [0, 5, 73]] (by decide)
  exact h.2.mpr (by decide +kernel)

/-- `EmptyQueryResponse`, which the decoder does not know, is all in the buffer when the loop asks the
transport for more. -/
theorem framed_empty_query_response : ¬ Framed [[73, 0, 0, 0, 4]] := by
  decide +kernel

end FraiseQL.Wire
