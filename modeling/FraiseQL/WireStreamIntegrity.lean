import FraiseQL.Outcome
import FraiseQL.WireStream

/-!
What the streaming task sends, for every sequence of messages and every chunk size. The rows of a chunk
go out when the chunk is full or the command is complete; a message that stops the task in between loses
them. A row that does not parse takes the unsent part of its batch with it, and the task goes on with the
next chunk.
-/

namespace FraiseQL.Wire

open List

section Task

variable (lib : Libraries)

/-- The value of a row, if the row is one field and the field is JSON. -/
def rowValue (msg : BackendMessage) : Except WireError Json := do
  let bytes ← extractJsonBytes msg
  lib.fromSlice bytes

/-- The values of the rows up to the first error, whatever message it comes from. -/
def valuesUpToError : List BackendMessage → List Json
  | [] => []
  | msg :: rest =>
    match msg with
    | .dataRow _ =>
      match rowValue lib msg with
      | .ok value => value :: valuesUpToError rest
      | .error _ => []
    | .commandComplete _ => valuesUpToError rest
    | _ => []

/-- The items are the values of the rows up to the first error, then at most one error. -/
def Intact (items : List Item) (values : List Json) : Prop :=
  ∃ errors : List WireError, errors.length ≤ 1 ∧ items = values.map .ok ++ errors.map .error

/-! ### What is sent -/

/-- The items of one chunk, for a consumer that takes them all. -/
def chunkItems : List Bytes → List Item → List Item
  | [], batch => batch
  | row :: rows, batch =>
    match lib.fromSlice row with
    | .ok value =>
      if (batch ++ [Except.ok value]).length = batchSize then batch ++ [.ok value] ++ chunkItems rows []
      else chunkItems rows (batch ++ [.ok value])
    | .error e => [.error e]

/-- The items of the rest of a run, from the rows waiting in the chunk on. -/
def taskItems (chunkSize : Nat) : List BackendMessage → List Bytes → List Item
  | [], _ => [.error .connectionClosed]
  | msg :: rest, chunk =>
    match msg with
    | .dataRow _ =>
      match extractJsonBytes msg with
      | .ok bytes =>
        if isFull chunkSize (chunk ++ [bytes]) then
          chunkItems lib (chunk ++ [bytes]) [] ++ taskItems chunkSize rest []
        else taskItems chunkSize rest (chunk ++ [bytes])
      | .error e => [.error e]
    | .commandComplete _ =>
      if chunk.isEmpty then taskItems chunkSize rest chunk
      else chunkItems lib chunk [] ++ taskItems chunkSize rest []
    | .readyForQuery _ => []
    | .errorResponse err => [.error (.sql err.display)]
    | msg => [.error (.protocol "unexpected message: " (some msg))]

theorem sendAll_attentive (items batch : List Item) :
    Channel.sendAll { items } batch = (true, { items := items ++ batch }) := by
  induction batch generalizing items with
  | nil => simp [Channel.sendAll]
  | cons item batch ih => simp [Channel.sendAll, Channel.send, ih]

theorem sendRows_attentive (rows : List Bytes) (batch items : List Item) :
    sendRows lib rows batch { items } = { items := items ++ chunkItems lib rows batch } := by
  induction rows generalizing batch items with
  | nil => simp [sendRows, chunkItems, sendAll_attentive]
  | cons row rows ih =>
    unfold sendRows chunkItems
    cases hparse : lib.fromSlice row with
    | error e => rfl
    | ok value =>
      by_cases hfull : (batch ++ [Except.ok value]).length = batchSize
      · simp only [hfull, if_true, sendAll_attentive, ih, append_assoc]
      · simp only [hfull, if_false, ih]

variable (chunkSize : Nat) (inbox : List BackendMessage) (chunk : List Bytes)

theorem rowLoop_attentive (items : List Item) :
    rowLoop lib chunkSize none inbox chunk { items } = { items := items ++ taskItems lib chunkSize inbox chunk } := by
  induction inbox generalizing chunk items with
  | nil => rfl
  | cons msg rest ih =>
    cases msg with
    | dataRow fields =>
      simp only [rowLoop, taskItems, Option.map_none]
      cases hextract : extractJsonBytes (.dataRow fields) with
      | error e => rfl
      | ok bytes =>
        by_cases hfull : isFull chunkSize (chunk ++ [bytes]) = true
        · simp only [hfull, if_true, sendRows_attentive, ih, append_assoc]
        · simp only [hfull, ih]
          simp
    | commandComplete tag =>
      simp only [rowLoop, taskItems, Option.map_none]
      by_cases hempty : chunk.isEmpty = true
      · simp only [hempty, if_true, ih]
      · simp only [hempty, sendRows_attentive, ih, append_assoc]
        simp
    | readyForQuery status => simp [rowLoop, taskItems]
    | _ => rfl

/-! ### One chunk -/

/-- The rows of a chunk before the first that does not parse. -/
def goodRows (chunk : List Bytes) : List Bytes := chunk.takeWhile fun row => (lib.fromSlice row).isOk

def goodValues : List Bytes → List Json
  | [] => []
  | row :: rows =>
    match lib.fromSlice row with
    | .ok value => value :: goodValues rows
    | .error _ => []

theorem length_goodValues : (goodValues lib chunk).length = (goodRows lib chunk).length := by
  induction chunk with
  | nil => rfl
  | cons row rows ih =>
    cases hparse : lib.fromSlice row with
    | error e => simp [goodValues, goodRows, hparse, Except.isOk, Except.toBool]
    | ok value => simpa [goodValues, goodRows, hparse, Except.isOk, Except.toBool] using ih

theorem chunkItems_good {rows : List Bytes} (hgood : goodRows lib rows = rows) (batch : List Item) :
    chunkItems lib rows batch = batch ++ (goodValues lib rows).map .ok := by
  induction rows generalizing batch with
  | nil => simp [chunkItems, goodValues]
  | cons row rows ih =>
    cases hparse : lib.fromSlice row with
    | error e => simp [goodRows, hparse, Except.isOk, Except.toBool] at hgood
    | ok value =>
      have hrest : goodRows lib rows = rows := by
        simpa [goodRows, hparse, Except.isOk, Except.toBool] using hgood
      unfold chunkItems goodValues
      rw [hparse]
      by_cases hfull : (batch ++ [Except.ok value]).length = batchSize
      · simp only [hfull, if_true, ih hrest, map_cons]
        simp
      · simp only [hfull, if_false, ih hrest, map_cons]
        simp

/-- At a row that does not parse, whole batches have gone out and the values after them are dropped. -/
theorem chunkItems_bad {rows : List Bytes} (hbad : goodRows lib rows ≠ rows) {batch : List Item}
    (hbatch : batch.length < batchSize) :
    ∃ sent dropped e, batch ++ (goodValues lib rows).map .ok = sent ++ dropped ∧
      dropped.length < batchSize ∧ sent.length % batchSize = 0 ∧
      chunkItems lib rows batch = sent ++ [.error e] := by
  induction rows generalizing batch with
  | nil => exact absurd rfl hbad
  | cons row rows ih =>
    unfold chunkItems goodValues
    cases hparse : lib.fromSlice row with
    | error e => exact ⟨[], batch, e, by simp, hbatch, rfl, rfl⟩
    | ok value =>
      have hrest : goodRows lib rows ≠ rows := by
        simpa [goodRows, hparse, Except.isOk, Except.toBool] using hbad
      by_cases hfull : (batch ++ [Except.ok value]).length = batchSize
      · obtain ⟨sent, dropped, e, hsplit, hdropped, hsent, hitems⟩ :=
          ih hrest (show ([] : List Item).length < batchSize by decide)
        refine ⟨batch ++ [.ok value] ++ sent, dropped, e, ?_, hdropped, ?_, ?_⟩
        · rw [append_assoc _ sent, ← hsplit]
          simp
        · rw [length_append, hfull, Nat.add_mod_left]
          exact hsent
        · simp only [hfull, if_true, hitems, append_assoc]
      · have hless : (batch ++ [Except.ok value]).length < batchSize := by
          rw [length_append, length_singleton] at hfull ⊢
          omega
        obtain ⟨sent, dropped, e, hsplit, hdropped, hsent, hitems⟩ := ih hrest hless
        refine ⟨sent, dropped, e, ?_, hdropped, hsent, ?_⟩
        · rw [← hsplit]
          simp
        · simp only [hfull, if_false, hitems]

/-! ### When the stream is intact -/

/-- Messages from which the task, with so many rows in its chunk, sends nothing more. -/
def Silent (chunkSize : Nat) : List BackendMessage → Nat → Prop
  | [], _ => False
  | msg :: rest, waiting =>
    match msg with
    | .dataRow _ =>
      (extractJsonBytes msg).isOk = true ∧ waiting + 1 < chunkSize ∧ Silent chunkSize rest (waiting + 1)
    | .commandComplete _ => waiting = 0 ∧ Silent chunkSize rest 0
    | .readyForQuery _ => True
    | _ => False

/-- The rows of a chunk that goes out all parse, or the first that does not begins a batch and nothing
follows that the task would send. -/
def ChunkSound (chunkSize : Nat) (chunk : List Bytes) (rest : List BackendMessage) (later : Prop) : Prop :=
  if goodRows lib chunk = chunk then later
  else (goodRows lib chunk).length % batchSize = 0 ∧ Silent chunkSize rest 0

/-- The messages, with the rows that wait in the chunk: every chunk that goes out is sound, and when the
task stops, whether for an error or for `ReadyForQuery`, no row that parses waits first in the chunk. -/
def Sound (chunkSize : Nat) : List BackendMessage → List Bytes → Prop
  | [], chunk => goodRows lib chunk = []
  | msg :: rest, chunk =>
    match msg with
    | .dataRow _ =>
      match extractJsonBytes msg with
      | .ok bytes =>
        if isFull chunkSize (chunk ++ [bytes]) then
          ChunkSound lib chunkSize (chunk ++ [bytes]) rest (Sound chunkSize rest [])
        else Sound chunkSize rest (chunk ++ [bytes])
      | .error _ => goodRows lib chunk = []
    | .commandComplete _ =>
      if chunk.isEmpty then Sound chunkSize rest chunk
      else ChunkSound lib chunkSize chunk rest (Sound chunkSize rest [])
    | _ => goodRows lib chunk = []

/-- The values that are due: those of the rows in the chunk, then those of the messages. -/
def valuesDue : List Bytes → List BackendMessage → List Json
  | [], inbox => valuesUpToError lib inbox
  | row :: rows, inbox =>
    match lib.fromSlice row with
    | .ok value => value :: valuesDue rows inbox
    | .error _ => []

theorem valuesDue_good {chunk : List Bytes} (hgood : goodRows lib chunk = chunk)
    (inbox : List BackendMessage) :
    valuesDue lib chunk inbox = goodValues lib chunk ++ valuesUpToError lib inbox := by
  induction chunk with
  | nil => rfl
  | cons row rows ih =>
    cases hparse : lib.fromSlice row with
    | error e => simp [goodRows, hparse, Except.isOk, Except.toBool] at hgood
    | ok value =>
      have hrest : goodRows lib rows = rows := by
        simpa [goodRows, hparse, Except.isOk, Except.toBool] using hgood
      simp [valuesDue, goodValues, hparse, ih hrest]

theorem valuesDue_bad {chunk : List Bytes} (hbad : goodRows lib chunk ≠ chunk)
    (inbox : List BackendMessage) : valuesDue lib chunk inbox = goodValues lib chunk := by
  induction chunk with
  | nil => exact absurd rfl hbad
  | cons row rows ih =>
    cases hparse : lib.fromSlice row with
    | error e => simp [valuesDue, goodValues, hparse]
    | ok value =>
      have hrest : goodRows lib rows ≠ rows := by
        simpa [goodRows, hparse, Except.isOk, Except.toBool] using hbad
      simp [valuesDue, goodValues, hparse, ih hrest]

/-- A row received is a row in the chunk. -/
theorem valuesDue_row {fields : List (Option Bytes)} {bytes : Bytes}
    (hextract : extractJsonBytes (.dataRow fields) = .ok bytes) (chunk : List Bytes)
    (rest : List BackendMessage) :
    valuesDue lib chunk (.dataRow fields :: rest) = valuesDue lib (chunk ++ [bytes]) rest := by
  induction chunk with
  | nil =>
    simp only [valuesDue, valuesUpToError, rowValue, hextract, nil_append, bind, Except.bind]
  | cons row rows ih =>
    cases hparse : lib.fromSlice row with
    | error e => simp [valuesDue, hparse]
    | ok value => simp [valuesDue, hparse, ih]

theorem valuesDue_congr {inbox inbox' : List BackendMessage}
    (h : valuesUpToError lib inbox = valuesUpToError lib inbox') (chunk : List Bytes) :
    valuesDue lib chunk inbox = valuesDue lib chunk inbox' := by
  induction chunk with
  | nil => exact h
  | cons row rows ih => simp only [valuesDue, ih]

/-- With nothing due from the messages, only the rows that wait count. -/
theorem valuesDue_eq_nil_iff {inbox : List BackendMessage} (hnone : valuesUpToError lib inbox = [])
    (chunk : List Bytes) : valuesDue lib chunk inbox = [] ↔ goodRows lib chunk = [] := by
  cases chunk with
  | nil => simp [valuesDue, goodRows, hnone]
  | cons row rows =>
    cases hparse : lib.fromSlice row <;> simp [valuesDue, goodRows, hparse, Except.isOk, Except.toBool]

theorem chunkItems_ne_nil (hchunk : chunk ≠ []) : chunkItems lib chunk [] ≠ [] := by
  by_cases hgood : goodRows lib chunk = chunk
  · rw [chunkItems_good lib hgood]
    have hlength := length_goodValues lib chunk
    rw [hgood] at hlength
    intro hnil
    have hnone : goodValues lib chunk = [] := by simpa using hnil
    rw [hnone] at hlength
    exact hchunk (eq_nil_of_length_eq_zero hlength.symm)
  · obtain ⟨sent, dropped, e, -, -, -, hitems⟩ :=
      chunkItems_bad lib hgood (show ([] : List Item).length < batchSize by decide)
    rw [hitems]
    simp

theorem taskItems_eq_nil_iff : taskItems lib chunkSize inbox chunk = [] ↔ Silent chunkSize inbox chunk.length := by
  induction inbox generalizing chunk with
  | nil => simp [taskItems, Silent]
  | cons msg rest ih =>
    cases msg with
    | dataRow fields =>
      simp only [taskItems, Silent]
      cases hextract : extractJsonBytes (.dataRow fields) with
      | error e => simp [Except.isOk, Except.toBool]
      | ok bytes =>
        by_cases hfull : chunkSize ≤ (chunk ++ [bytes]).length
        · have hitems := chunkItems_ne_nil lib (chunk ++ [bytes]) (by simp)
          simp only [isFull, hfull, decide_true, if_true, append_eq_nil_iff, hitems, false_and,
            false_iff]
          rw [length_append, length_singleton] at hfull
          rintro ⟨-, hless, -⟩
          omega
        · have hless : chunk.length + 1 < chunkSize := by
            rw [length_append, length_singleton] at hfull
            omega
          have hsame := ih (chunk ++ [bytes])
          rw [length_append, length_singleton] at hsame
          simp only [isFull, hfull, decide_false, hless, Except.isOk, Except.toBool, true_and]
          simpa using hsame
    | commandComplete tag =>
      simp only [taskItems, Silent]
      cases chunk with
      | nil => simp [ih]
      | cons row rows =>
        have hitems := chunkItems_ne_nil lib (row :: rows) (by simp)
        simp [hitems]
    | readyForQuery status => simp [taskItems, Silent]
    | _ => simp [taskItems, Silent]

theorem intact_nil_iff (values : List Json) : Intact [] values ↔ values = [] := by
  constructor
  · rintro ⟨errors, -, hitems⟩
    simpa using (append_eq_nil_iff.mp hitems.symm).1
  · rintro rfl
    exact ⟨[], Nat.zero_le _, rfl⟩

theorem intact_error_iff (e : WireError) (more : List Item) (values : List Json) :
    Intact (.error e :: more) values ↔ values = [] ∧ more = [] := by
  constructor
  · rintro ⟨errors, hone, hitems⟩
    cases values with
    | cons value values => simp at hitems
    | nil =>
      refine ⟨rfl, ?_⟩
      cases errors with
      | nil => simp at hitems
      | cons first errors =>
        have hnil : errors = [] := by
          rw [length_cons] at hone
          exact eq_nil_of_length_eq_zero (by omega)
        subst hnil
        simpa using (List.cons.inj hitems).2
  · rintro ⟨rfl, rfl⟩
    exact ⟨[e], Nat.le_refl _, rfl⟩

theorem intact_append_iff (sent : List Json) (more : List Item) (values : List Json) :
    Intact (sent.map .ok ++ more) (sent ++ values) ↔ Intact more values := by
  unfold Intact
  simp only [map_append, append_assoc, append_cancel_left_eq]

/-- The run is intact exactly when the messages are sound for what waits in the chunk. -/
theorem intact_taskItems_iff :
    Intact (taskItems lib chunkSize inbox chunk) (valuesDue lib chunk inbox) ↔ Sound lib chunkSize inbox chunk := by
  -- a chunk that goes out: its values cancel when they are all sent, and end the values due otherwise
  have hchunk : ∀ (chunk : List Bytes) (rest : List BackendMessage) (later : Prop),
      (Intact (taskItems lib chunkSize rest []) (valuesUpToError lib rest) ↔ later) →
      (Intact (chunkItems lib chunk [] ++ taskItems lib chunkSize rest []) (valuesDue lib chunk rest) ↔
        ChunkSound lib chunkSize chunk rest later) := by
    intro chunk rest later hlater
    unfold ChunkSound
    by_cases hgood : goodRows lib chunk = chunk
    · rw [chunkItems_good lib hgood, valuesDue_good lib hgood, nil_append, intact_append_iff, hlater,
        if_pos hgood]
    · obtain ⟨sent, dropped, e, hsplit, hdropped, hsent, hitems⟩ :=
        chunkItems_bad lib hgood (show ([] : List Item).length < batchSize by decide)
      obtain ⟨before, after, hvalues, rfl, rfl⟩ := map_eq_append_iff.mp hsplit
      rw [hitems, valuesDue_bad lib hgood, hvalues, append_assoc, intact_append_iff, singleton_append,
        intact_error_iff, taskItems_eq_nil_iff, if_neg hgood]
      have hlength := length_goodValues lib chunk
      rw [hvalues, length_append] at hlength
      rw [length_map] at hdropped hsent
      rw [← hlength, Nat.add_mod, hsent, Nat.zero_add, Nat.mod_mod, Nat.mod_eq_of_lt hdropped,
        length_eq_zero_iff]
      rfl
  induction inbox generalizing chunk with
  | nil =>
    show Intact [.error .connectionClosed] _ ↔ _
    rw [intact_error_iff, valuesDue_eq_nil_iff lib rfl]
    simp [Sound]
  | cons msg rest ih =>
    have hstop : ∀ e, valuesUpToError lib (msg :: rest) = [] →
        (Intact [.error e] (valuesDue lib chunk (msg :: rest)) ↔ goodRows lib chunk = []) := by
      intro e hnone
      rw [intact_error_iff, valuesDue_eq_nil_iff lib hnone]
      simp
    cases msg with
    | dataRow fields =>
      simp only [taskItems, Sound]
      cases hextract : extractJsonBytes (.dataRow fields) with
      | error e =>
        apply hstop
        simp only [valuesUpToError, rowValue, hextract, bind, Except.bind]
      | ok bytes =>
        rw [valuesDue_row lib hextract]
        by_cases hfull : isFull chunkSize (chunk ++ [bytes]) = true
        · simp only [hfull, if_true]
          exact hchunk _ _ _ (ih [])
        · simp only [hfull]
          exact ih (chunk ++ [bytes])
    | commandComplete tag =>
      rw [valuesDue_congr lib (show valuesUpToError lib (.commandComplete tag :: rest) =
        valuesUpToError lib rest from rfl)]
      simp only [taskItems, Sound]
      by_cases hempty : chunk.isEmpty = true
      · simp only [hempty, if_true]
        exact ih chunk
      · simp only [hempty]
        exact hchunk _ _ _ (ih [])
    | readyForQuery status =>
      show Intact [] _ ↔ _
      rw [intact_nil_iff, valuesDue_eq_nil_iff lib rfl]
      rfl
    | _ => exact hstop _ rfl

/-- The items the task sends to a consumer that takes them all. -/
def streamed (chunkSize : Nat) (inbox : List BackendMessage) : List Item :=
  (rowLoop lib chunkSize none inbox [] {}).items

theorem streamed_eq : streamed lib chunkSize inbox = taskItems lib chunkSize inbox [] := by
  have h := rowLoop_attentive lib chunkSize inbox [] []
  rw [streamed, h]
  rfl

theorem good_snoc {chunk : List Bytes} {bytes : Bytes} {value : Json} (hgood : goodRows lib chunk = chunk)
    (hparse : lib.fromSlice bytes = .ok value) :
    goodRows lib (chunk ++ [bytes]) = chunk ++ [bytes] ∧
      goodValues lib (chunk ++ [bytes]) = goodValues lib chunk ++ [value] := by
  induction chunk with
  | nil => simp [goodRows, goodValues, hparse, Except.isOk, Except.toBool]
  | cons row rows ih =>
    cases hrow : lib.fromSlice row with
    | error e => simp [goodRows, hrow, Except.isOk, Except.toBool] at hgood
    | ok first =>
      have hrest : goodRows lib rows = rows := by
        simpa [goodRows, hrow, Except.isOk, Except.toBool] using hgood
      obtain ⟨hrows, hvalues⟩ := ih hrest
      constructor
      · simpa [goodRows, hrow, Except.isOk, Except.toBool] using hrows
      · simp [goodValues, hrow, hvalues]

/-- Rows that all parse, up to `CommandComplete` and `ReadyForQuery`. -/
theorem taskItems_complete (rows : List (List (Option Bytes))) (values : List Json)
    (hrows : rows.map (fun fields => rowValue lib (.dataRow fields)) = values.map .ok) (tag : String)
    (status : UInt8) (rest : List BackendMessage) (chunk : List Bytes) (hchunk : goodRows lib chunk = chunk) :
    taskItems lib chunkSize (rows.map .dataRow ++ .commandComplete tag :: .readyForQuery status :: rest) chunk =
      (goodValues lib chunk ++ values).map .ok := by
  induction rows generalizing chunk values with
  | nil =>
    have hnone : values = [] := by simpa using hrows.symm
    subst hnone
    cases chunk with
    | nil => rfl
    | cons row rows =>
      simp only [map_nil, nil_append, taskItems, isEmpty_cons, append_nil]
      rw [chunkItems_good lib hchunk]
      rfl
  | cons fields rows ih =>
    cases values with
    | nil => simp at hrows
    | cons value values =>
      simp only [map_cons, List.cons.injEq] at hrows
      obtain ⟨hrow, hrest⟩ := hrows
      obtain ⟨bytes, hextract, hparse⟩ := Outcome.bind_eq_ok.mp hrow
      obtain ⟨hgood, hvalues⟩ := good_snoc lib hchunk hparse
      simp only [map_cons, cons_append, taskItems, hextract]
      by_cases hfull : isFull chunkSize (chunk ++ [bytes]) = true
      · simp only [hfull, if_true]
        rw [ih values hrest [] rfl, chunkItems_good lib hgood, hvalues]
        simp [goodValues]
      · simp only [hfull]
        rw [if_neg (by simp), ih values hrest _ hgood, hvalues]
        simp

/-- The stream is intact exactly when the messages are sound; and when every row parses and the command
completes, every row is delivered. -/
theorem streamed_intact_iff (chunkSize : Nat) (inbox : List BackendMessage) :
    (Intact (streamed lib chunkSize inbox) (valuesUpToError lib inbox) ↔ Sound lib chunkSize inbox []) ∧
    ∀ (rows : List (List (Option Bytes))) (values : List Json) tag status rest,
      inbox = rows.map .dataRow ++ .commandComplete tag :: .readyForQuery status :: rest →
      rows.map (fun fields => rowValue lib (.dataRow fields)) = values.map .ok →
      streamed lib chunkSize inbox = values.map .ok := by
  rw [streamed_eq]
  refine ⟨intact_taskItems_iff lib chunkSize inbox [], ?_⟩
  rintro rows values tag status rest rfl hrows
  exact taskItems_complete lib chunkSize rows values hrows tag status rest [] rfl

end Task

/-- A row that parses, and one that does not in the same batch: the first is lost. -/
theorem streamed_loses_batch : ¬ ∀ (lib : Libraries) (chunkSize : Nat), 1 ≤ chunkSize →
    Intact (streamed lib chunkSize
        [.dataRow [some [49]], .dataRow [some [120]], .commandComplete "SELECT 2", .readyForQuery 73])
      (valuesUpToError lib
        [.dataRow [some [49]], .dataRow [some [120]], .commandComplete "SELECT 2", .readyForQuery 73]) := by
  intro h
  let lib := Libraries.ofParser fun bytes =>
    if bytes = [49] then .ok (.ofNat 1) else .error (.jsonDecode "expected value at line 1 column 1")
  obtain ⟨errors, -, hitems⟩ := h lib 256 (by decide)
  have hsent : streamed lib 256
      [.dataRow [some [49]], .dataRow [some [120]], .commandComplete "SELECT 2", .readyForQuery 73] =
        [.error (.jsonDecode "expected value at line 1 column 1")] := rfl
  have hdue : valuesUpToError lib
      [.dataRow [some [49]], .dataRow [some [120]], .commandComplete "SELECT 2", .readyForQuery 73] =
        [.ofNat 1] := rfl
  rw [hsent, hdue] at hitems
  simp at hitems

end FraiseQL.Wire
