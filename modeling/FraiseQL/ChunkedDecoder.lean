import Mathlib.Data.List.Basic

/-!
Decoding a stream that arrives in pieces. A reader holds a buffer, tries to decode a message from its
head and asks for another piece whenever that fails; an empty piece, or none, ends it. When a decoded
head stays decoded whatever follows it, the messages handed out are those of the whole stream, however
the stream is cut. The buffers at which the reader asks are recorded, so that a reader which goes on
asking at a head that no later byte can repair is seen to do so.
-/

namespace ChunkedDecoder

open List

/-- A decoder of one message at the head of a buffer. What it makes of a head does not depend on what
follows it, and a message takes at least one item. -/
structure Decoder (β μ : Type) where
  decode : List β → Option (μ × List β)
  stable : ∀ {b m r} (c : List β), decode b = some (m, r) → decode (b ++ c) = some (m, r ++ c)
  consumes : ∀ {b m r}, decode b = some (m, r) → r.length < b.length

variable {β μ : Type}

/-- One call of the reader: the message, if the stream did not end first, what is left in the buffer
and on the way, and the buffers at which a further piece was asked for. -/
structure Receipt (β μ : Type) where
  message : Option μ
  buffer : List β
  reads : List (List β)
  asked : List (List β)

namespace Decoder

variable (D : Decoder β μ)

/-- The messages of a whole buffer, and what is left when the next one does not decode. -/
def all (b : List β) : List μ × List β :=
  match _h : D.decode b with
  | none => ([], b)
  | some (m, r) => (m :: (all r).1, (all r).2)
termination_by b.length
decreasing_by all_goals exact D.consumes _h

def receive (buffer : List β) (reads : List (List β)) : Receipt β μ :=
  match D.decode buffer with
  | some (m, r) => ⟨some m, r, reads, []⟩
  | none =>
    match reads with
    | [] => ⟨none, buffer, [], [buffer]⟩
    | [] :: rest => ⟨none, buffer, rest, [buffer]⟩
    | (x :: xs) :: rest =>
      let receipt := receive (buffer ++ x :: xs) rest
      { receipt with asked := buffer :: receipt.asked }

variable {b : List β}

theorem all_none (h : D.decode b = none) : D.all b = ([], b) := by
  rw [all]
  split
  · rfl
  · next hsome => rw [h] at hsome; cases hsome

variable {m : μ}

theorem all_some {r : List β} (h : D.decode b = some (m, r)) : D.all b = (m :: (D.all r).1, (D.all r).2) := by
  rw [all]
  split
  · next hnone => rw [h] at hnone; cases hnone
  · next hsome =>
      rw [h] at hsome
      cases hsome
      rfl

theorem receive_decoded {r : List β} (reads : List (List β))
    (h : D.decode b = some (m, r)) : D.receive b reads = ⟨some m, r, reads, []⟩ := by
  unfold receive
  rw [h]

theorem receive_more (x : β) (xs : List β) (rest : List (List β)) (h : D.decode b = none) :
    D.receive b ((x :: xs) :: rest) =
      { D.receive (b ++ x :: xs) rest with
        asked := b :: (D.receive (b ++ x :: xs) rest).asked } := by
  rw [receive, h]

variable {reads : List (List β)}

/-- A call that returns a message has decoded it from a buffer that is a first part of the stream. -/
theorem receive_message (h : (D.receive b reads).message = some m) : ∃ head tail, b ++ reads.flatten = head ++ tail ∧
      D.decode head = some (m, (D.receive b reads).buffer) ∧
      tail = (D.receive b reads).reads.flatten := by
  induction reads generalizing b with
  | nil =>
    cases hdec : D.decode b with
    | none => simp [receive, hdec] at h
    | some p =>
      rw [receive_decoded D _ hdec] at h ⊢
      cases h
      exact ⟨b, [], rfl, hdec, rfl⟩
  | cons piece rest ih =>
    cases hdec : D.decode b with
    | some p =>
      rw [receive_decoded D _ hdec] at h ⊢
      cases h
      exact ⟨b, _, rfl, hdec, rfl⟩
    | none =>
      cases piece with
      | nil => simp [receive, hdec] at h
      | cons x xs =>
        rw [D.receive_more x xs rest hdec] at h ⊢
        obtain ⟨head, tail, hsplit, hhead, htail⟩ := ih h
        refine ⟨head, tail, ?_, hhead, htail⟩
        rw [← hsplit]
        simp

theorem receive_stream (h : (D.receive b reads).message = some m) : D.decode (b ++ reads.flatten) =
      some (m, (D.receive b reads).buffer ++ (D.receive b reads).reads.flatten) := by
  obtain ⟨head, tail, hsplit, hhead, htail⟩ := D.receive_message h
  rw [hsplit, ← htail]
  exact D.stable tail hhead

/-- Calling the reader until the stream ends: the messages it returns and every buffer at which it
asked for a further piece. -/
def session (buffer : List β) (reads : List (List β)) : List μ × List (List β) :=
  match _h : (D.receive buffer reads).message with
  | none => ([], (D.receive buffer reads).asked)
  | some m =>
    let next := session (D.receive buffer reads).buffer (D.receive buffer reads).reads
    (m :: next.1, (D.receive buffer reads).asked ++ next.2)
termination_by (buffer ++ reads.flatten).length
decreasing_by exact D.consumes (D.receive_stream _h)

theorem session_closed (h : (D.receive b reads).message = none) :
    D.session b reads = ([], (D.receive b reads).asked) := by
  rw [session]
  split
  · rfl
  · next hsome => rw [h] at hsome; cases hsome

theorem session_message (h : (D.receive b reads).message = some m) : D.session b reads =
      (m :: (D.session (D.receive b reads).buffer (D.receive b reads).reads).1,
        (D.receive b reads).asked ++
          (D.session (D.receive b reads).buffer (D.receive b reads).reads).2) := by
  rw [session]
  split
  · next hnone => rw [h] at hnone; cases hnone
  · next hsome =>
      rw [h] at hsome
      cases hsome
      rfl

/-- A call that ends with the stream has seen all of it, without finding a message. -/
theorem receive_closed (hreads : ∀ piece ∈ reads, piece ≠ []) (h : (D.receive b reads).message = none) :
    D.decode (b ++ reads.flatten) = none ∧ b ++ reads.flatten ∈ (D.receive b reads).asked := by
  induction reads generalizing b with
  | nil =>
    cases hdec : D.decode b with
    | none => simp [receive, hdec]
    | some p => rw [receive_decoded D _ hdec] at h; cases h
  | cons piece rest ih =>
    cases hdec : D.decode b with
    | some p => rw [receive_decoded D _ hdec] at h; cases h
    | none =>
      cases piece with
      | nil => exact absurd rfl (hreads [] (mem_cons_self ..))
      | cons x xs =>
        rw [D.receive_more x xs rest hdec] at h ⊢
        obtain ⟨hnone, hmem⟩ := ih (fun p hp => hreads p (mem_cons_of_mem _ hp)) h
        rw [flatten_cons, ← append_assoc]
        exact ⟨hnone, mem_cons_of_mem _ hmem⟩

/-- Every buffer at which the reader asks is a first part of the stream and does not decode. -/
theorem receive_asked {a : List β} (h : a ∈ (D.receive b reads).asked) :
    D.decode a = none ∧ ∃ c, b ++ reads.flatten = a ++ c := by
  induction reads generalizing b with
  | nil =>
    cases hdec : D.decode b with
    | some p => rw [receive_decoded D _ hdec] at h; cases h
    | none =>
      simp only [receive, hdec, mem_singleton] at h
      subst h
      exact ⟨hdec, [], rfl⟩
  | cons piece rest ih =>
    cases hdec : D.decode b with
    | some p => rw [receive_decoded D _ hdec] at h; cases h
    | none =>
      cases piece with
      | nil =>
        simp only [receive, hdec, mem_singleton] at h
        subst h
        exact ⟨hdec, _, rfl⟩
      | cons x xs =>
        rw [D.receive_more x xs rest hdec] at h
        rcases mem_cons.mp h with rfl | hmem
        · exact ⟨hdec, _, rfl⟩
        · obtain ⟨hnone, c, hc⟩ := ih hmem
          refine ⟨hnone, c, ?_⟩
          rw [← hc]
          simp

theorem reads_receive (hreads : ∀ piece ∈ reads, piece ≠ []) : ∀ piece ∈ (D.receive b reads).reads, piece ≠ [] := by
  induction reads generalizing b with
  | nil => cases hdec : D.decode b <;> simp [receive, hdec]
  | cons piece rest ih =>
    cases hdec : D.decode b with
    | some p => rw [receive_decoded D _ hdec]; exact hreads
    | none =>
      cases piece with
      | nil => exact absurd rfl (hreads [] (mem_cons_self ..))
      | cons x xs =>
        rw [D.receive_more x xs rest hdec]
        exact ih fun p hp => hreads p (mem_cons_of_mem _ hp)

/-- However the stream is cut, the messages handed out are those of the whole of it. -/
theorem session_messages (b : List β) (reads : List (List β)) (hreads : ∀ piece ∈ reads, piece ≠ []) :
    (D.session b reads).1 = (D.all (b ++ reads.flatten)).1 := by
  cases hmsg : (D.receive b reads).message with
  | none =>
    rw [D.session_closed hmsg, D.all_none (D.receive_closed hreads hmsg).1]
  | some m =>
    rw [D.session_message hmsg, D.all_some (D.receive_stream hmsg)]
    simp only [cons.injEq, true_and]
    exact session_messages _ _ (D.reads_receive hreads)
termination_by (b ++ reads.flatten).length
decreasing_by exact D.consumes (D.receive_stream hmsg)

/-- A property of buffers that no further piece removes while the head does not decode. -/
def Lasting (P : List β → Prop) : Prop :=
  ∀ {b : List β} (c : List β), P b → D.decode b = none → P (b ++ c) ∧ D.decode (b ++ c) = none

/-- The reader asks at a buffer with a lasting property exactly when the stream, less its messages,
has it. -/
theorem session_asked_iff {P : List β → Prop} (hlasting : D.Lasting P) (b : List β)
    (reads : List (List β)) (hreads : ∀ piece ∈ reads, piece ≠ []) :
    (∃ a ∈ (D.session b reads).2, P a) ↔ P (D.all (b ++ reads.flatten)).2 := by
  cases hmsg : (D.receive b reads).message with
  | none =>
    obtain ⟨hnone, hmem⟩ := D.receive_closed hreads hmsg
    rw [D.session_closed hmsg, D.all_none hnone]
    constructor
    · rintro ⟨a, ha, hP⟩
      obtain ⟨hdec, c, hc⟩ := D.receive_asked ha
      simp only
      rw [hc]
      exact (hlasting c hP hdec).1
    · exact fun hP => ⟨_, hmem, hP⟩
  | some m =>
    have hstream := D.receive_stream hmsg
    have htail := session_asked_iff hlasting (D.receive b reads).buffer
      (D.receive b reads).reads (D.reads_receive hreads)
    rw [D.session_message hmsg, D.all_some hstream, ← htail]
    simp only [mem_append]
    constructor
    · rintro ⟨a, ha | ha, hP⟩
      · -- a head with the property would keep the message of this call from decoding
        obtain ⟨hdec, c, hc⟩ := D.receive_asked ha
        rw [hc, (hlasting c hP hdec).2] at hstream
        cases hstream
      · exact ⟨a, ha, hP⟩
    · rintro ⟨a, ha, hP⟩
      exact ⟨a, .inr ha, hP⟩
termination_by (b ++ reads.flatten).length
decreasing_by exact D.consumes (D.receive_stream hmsg)

end Decoder

end ChunkedDecoder
