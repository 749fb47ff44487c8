import FraiseQL.EventRun
import FraiseQL.Json
import FraiseQL.ObserverError

/-! The outbox bridge from PostgreSQL to NATS (`transport/bridge.rs`). A writer's row takes its key when it is
inserted and is seen by others from the commit on. The bridge fetches committed rows past its cursor, publishes
them one by one, marks each as published and saves the cursor after the batch. Every `?` of the loop ends `run`:
a database call that fails is a crash before the call took effect, or after it. The clock, the drawn ids, the
answers of NATS and the order of all these steps are the environment's choice. -/

namespace FraiseQL.ChangeLogBridge

open EventRun List

inductive EventKind where
  | created | updated | deleted | custom
  deriving DecidableEq

/-- `EntityEvent`, without the field changes, which the bridge never sets. -/
structure EntityEvent where
  id : String
  eventType : EventKind
  entityType : String
  entityId : String
  data : Json
  userId : Option String
  tenantId : Option String
  timestamp : Nat

/-- `ChangeLogEntry`, the columns the bridge reads or writes. -/
structure ChangeLogEntry where
  pkEntityChangeLog : Nat
  fkContact : Option Int
  objectType : String
  objectId : String
  modificationType : String
  objectData : Option Json
  natsPublishedAt : Option Nat
  natsEventId : Option String

/-- A row and the transaction that inserted it. -/
structure Row where
  tx : Nat
  entry : ChangeLogEntry

/-- Where the loop of `run` stands: before the next fetch, before the next of the entries left (with none left
the cursor is saved next), or between the acknowledged publication of an entry and its mark. -/
inductive Phase where
  | polling
  | batch (entries : List ChangeLogEntry)
  | marking (entry : ChangeLogEntry) (event : EntityEvent) (rest : List ChangeLogEntry)

def Phase.pending : Phase → List ChangeLogEntry
  | .polling => []
  | .batch entries => entries
  | .marking entry _ rest => entry :: rest

structure Bridge where
  cursor : Nat
  phase : Phase

/-- What comes of a publication: an acknowledgement, nothing, or an event that is stored while the
acknowledgement is lost. -/
inductive Publication where
  | acknowledged | refused | unconfirmed

/-- The change log in the order of its keys, the checkpoint, the bridge if it runs, and every event NATS has
stored, with the key of its row. -/
structure System where
  nextPk : Nat
  rows : List Row
  committed : List Nat
  saved : Option Nat
  bridge : Option Bridge
  published : List (Nat × EntityEvent)

inductive Event where
  | insert (tx : Nat) (change : ChangeLogEntry)
  | commit (tx : Nat)
  | abort (tx : Nat)
  | start
  | fetch
  | handle (now : Nat) (fresh : String) (publication : Publication)
  | mark (now : Nat)
  | save
  | shutdown
  | crash

def System.initial : System := ⟨1, [], [], none, none, []⟩

namespace System

def loadCursor (s : System) : Nat := s.saved.getD 0

/-- The cursor of the running bridge, or the one it would start from. -/
def cursor (s : System) : Nat := s.bridge.elim s.loadCursor (·.cursor)

def pending (s : System) : List ChangeLogEntry := s.bridge.elim [] (·.phase.pending)

def IsPublished (s : System) (pk : Nat) : Prop := ∃ event, (pk, event) ∈ s.published

/-- `fetch_batch_from_cursor`: the rows are kept in the order of their keys. -/
def fetchBatchFromCursor (s : System) (batchSize cursor : Nat) : List ChangeLogEntry :=
  ((s.rows.filter fun row => row.tx ∈ s.committed ∧ cursor < row.entry.pkEntityChangeLog).map (·.entry)).take
    batchSize

end System

/-- The update of `mark_published`. -/
def Row.markPublished (pk : Nat) (eventId : String) (now : Nat) (row : Row) : Row :=
  if row.entry.pkEntityChangeLog = pk ∧ row.entry.natsPublishedAt.isNone then
    { row with entry := { row.entry with natsPublishedAt := some now, natsEventId := some eventId } }
  else row

section Bridge

variable (toUppercase : String → String)

/-- The match of `to_entity_event` on the modification type. -/
def eventKind (modificationType : String) : Except ObserverError EventKind :=
  match toUppercase modificationType with
  | "INSERT" => .ok .created
  | "UPDATE" => .ok .updated
  | "DELETE" => .ok .deleted
  | other => .error (.invalidConfig ("Unknown modification type: " ++ other))

/-- `ChangeLogEntry::to_entity_event`. The id that `EntityEvent::new` draws is overwritten. -/
def ChangeLogEntry.toEntityEvent (entry : ChangeLogEntry) (fresh : String) (now : Nat) :
    Except ObserverError EntityEvent :=
  match eventKind toUppercase entry.modificationType with
  | .error e => .error e
  | .ok eventType =>
    .ok
      { id := entry.natsEventId.getD fresh
        eventType := eventType
        entityType := entry.objectType
        entityId := entry.objectId
        data := entry.objectData.getD .null
        userId := entry.fkContact.map toString
        tenantId := none
        timestamp := now }

/-- The entry has an event. -/
def ChangeLogEntry.convertible (entry : ChangeLogEntry) : Bool :=
  (eventKind toUppercase entry.modificationType).isOk

/-- One turn of the loop over the batch, up to the mark. -/
def System.handleEntry (s : System) (cursor : Nat) (entry : ChangeLogEntry) (rest : List ChangeLogEntry) (now : Nat)
    (fresh : String) (publication : Publication) : System :=
  if entry.natsPublishedAt.isSome then
    { s with bridge := some ⟨entry.pkEntityChangeLog, .batch rest⟩ }
  else
    match entry.toEntityEvent toUppercase fresh now with
    | .error _ => { s with bridge := some ⟨entry.pkEntityChangeLog, .batch rest⟩ }
    | .ok event =>
      match publication with
      | .acknowledged =>
        { s with
          published := (entry.pkEntityChangeLog, event) :: s.published
          bridge := some ⟨cursor, .marking entry event rest⟩ }
      | .refused => { s with bridge := some ⟨cursor, .batch []⟩ }
      | .unconfirmed =>
        { s with
          published := (entry.pkEntityChangeLog, event) :: s.published
          bridge := some ⟨cursor, .batch []⟩ }

/-- A batch size from `2 ^ 63` on is a negative `LIMIT`, which PostgreSQL refuses. -/
def System.fetch (s : System) (batchSize cursor : Nat) : System :=
  if batchSize < 2 ^ 63 then
    match s.fetchBatchFromCursor batchSize cursor with
    | [] => s
    | entry :: rest => { s with bridge := some ⟨cursor, .batch (entry :: rest)⟩ }
  else { s with bridge := none }

variable (batchSize : Nat)

def step (s : System) : Event → System
  | .insert tx change =>
    if tx ∈ s.committed then s
    else
      { s with
        nextPk := s.nextPk + 1
        rows := s.rows ++ [⟨tx, { change with pkEntityChangeLog := s.nextPk, natsPublishedAt := none }⟩] }
  | .commit tx => { s with committed := tx :: s.committed }
  | .abort tx =>
    if tx ∈ s.committed then s else { s with rows := s.rows.filter fun row => row.tx ≠ tx }
  | .start =>
    match s.bridge with
    | none => { s with bridge := some ⟨s.loadCursor, .polling⟩ }
    | some _ => s
  | .fetch =>
    match s.bridge with
    | some ⟨cursor, .polling⟩ => s.fetch batchSize cursor
    | _ => s
  | .handle now fresh publication =>
    match s.bridge with
    | some ⟨cursor, .batch (entry :: rest)⟩ => s.handleEntry toUppercase cursor entry rest now fresh publication
    | _ => s
  | .mark now =>
    match s.bridge with
    | some ⟨_, .marking entry event rest⟩ =>
      { s with
        rows := s.rows.map (Row.markPublished entry.pkEntityChangeLog event.id now)
        bridge := some ⟨entry.pkEntityChangeLog, .batch rest⟩ }
    | _ => s
  | .save =>
    match s.bridge with
    | some ⟨cursor, .batch []⟩ => { s with saved := some cursor, bridge := some ⟨cursor, .polling⟩ }
    | _ => s
  | .shutdown =>
    match s.bridge with
    | some ⟨cursor, .polling⟩ => { s with saved := some cursor, bridge := none }
    | _ => s
  | .crash => { s with bridge := none }

/-! ### The bridge and the log -/

/-- Keys ascend and are below the sequence; the checkpoint is behind the cursor and the cursor behind the
entries in work, which are committed rows as they stand; what is marked or being marked is published. -/
structure Inv (s : System) : Prop where
  ordered : s.rows.Pairwise fun a b => a.entry.pkEntityChangeLog < b.entry.pkEntityChangeLog
  bounded : ∀ row ∈ s.rows, row.entry.pkEntityChangeLog < s.nextPk
  saved : s.loadCursor ≤ s.cursor
  ahead : ∀ entry ∈ s.pending, s.cursor < entry.pkEntityChangeLog
  ascending : s.pending.Pairwise fun a b => a.pkEntityChangeLog < b.pkEntityChangeLog
  current : ∀ entry ∈ s.pending, ∃ row ∈ s.rows, row.tx ∈ s.committed ∧ row.entry = entry
  marked : ∀ row ∈ s.rows, row.entry.natsPublishedAt.isSome → s.IsPublished row.entry.pkEntityChangeLog
  marking : ∀ cursor entry event rest, s.bridge = some ⟨cursor, .marking entry event rest⟩ →
    s.IsPublished entry.pkEntityChangeLog

theorem inv_initial : Inv .initial := by
  refine ⟨List.Pairwise.nil, nofun, Nat.le_refl 0, nofun, List.Pairwise.nil, nofun, nofun, ?_⟩
  rintro _ _ _ _ ⟨⟩

variable {toUppercase batchSize} {s : System}

/-- A bridge that starts, stops or goes on with a part of its entries keeps the invariant, as long as its cursor
stays between the checkpoint and those entries. -/
theorem Inv.rebridge (hinv : Inv s) {saved : Option Nat} {bridge : Option Bridge}
    (hsaved : saved.getD 0 ≤ bridge.elim (saved.getD 0) (·.cursor))
    (hsublist : List.Sublist (bridge.elim [] (·.phase.pending)) s.pending)
    (hahead : ∀ entry ∈ bridge.elim [] (·.phase.pending),
      bridge.elim (saved.getD 0) (·.cursor) < entry.pkEntityChangeLog)
    (hmarking : ∀ cursor entry event rest, bridge ≠ some ⟨cursor, .marking entry event rest⟩) :
    Inv { s with saved := saved, bridge := bridge } where
  ordered := hinv.ordered
  bounded := hinv.bounded
  saved := hsaved
  ahead := hahead
  ascending := hinv.ascending.sublist hsublist
  current := fun entry hentry => hinv.current entry (hsublist.subset hentry)
  marked := hinv.marked
  marking := fun cursor entry event rest h => absurd h (hmarking cursor entry event rest)

theorem Inv.stop (hinv : Inv s) : Inv { s with bridge := none } := by
  refine hinv.rebridge ?_ (nil_sublist _) nofun ?_
  · exact Nat.le_refl _
  · rintro _ _ _ _ ⟨⟩

theorem Inv.insert (hinv : Inv s) {tx : Nat} (change : ChangeLogEntry) :
    Inv
      { s with
        nextPk := s.nextPk + 1
        rows := s.rows ++ [⟨tx, { change with pkEntityChangeLog := s.nextPk, natsPublishedAt := none }⟩] } where
  ordered := by
    apply pairwise_append.mpr
    refine ⟨hinv.ordered, pairwise_singleton _ _, ?_⟩
    intro row hrow new hnew
    rw [mem_singleton.mp hnew]
    exact hinv.bounded row hrow
  bounded := by
    intro row hrow
    rcases mem_append.mp hrow with hrow | hrow
    · exact Nat.lt_succ_of_lt (hinv.bounded row hrow)
    · rw [mem_singleton.mp hrow]
      exact Nat.lt_succ_self _
  saved := hinv.saved
  ahead := hinv.ahead
  ascending := hinv.ascending
  current := by
    intro entry hentry
    obtain ⟨row, hrow, hcommitted⟩ := hinv.current entry hentry
    exact ⟨row, mem_append_left _ hrow, hcommitted⟩
  marked := by
    intro row hrow hmarked
    rcases mem_append.mp hrow with hrow | hrow
    · exact hinv.marked row hrow hmarked
    · rw [mem_singleton.mp hrow] at hmarked
      cases hmarked
  marking := hinv.marking

theorem Inv.commit (hinv : Inv s) (tx : Nat) : Inv { s with committed := tx :: s.committed } :=
  { hinv with
    current := by
      intro entry hentry
      obtain ⟨row, hrow, hcommitted, heq⟩ := hinv.current entry hentry
      exact ⟨row, hrow, mem_cons_of_mem tx hcommitted, heq⟩ }

theorem Inv.abort (hinv : Inv s) {tx : Nat} (htx : tx ∉ s.committed) :
    Inv { s with rows := s.rows.filter fun row => row.tx ≠ tx } where
  ordered := hinv.ordered.filter _
  bounded := fun row hrow => hinv.bounded row (mem_of_mem_filter hrow)
  saved := hinv.saved
  ahead := hinv.ahead
  ascending := hinv.ascending
  current := by
    intro entry hentry
    obtain ⟨row, hrow, hcommitted, heq⟩ := hinv.current entry hentry
    refine ⟨row, mem_filter.mpr ⟨hrow, ?_⟩, hcommitted, heq⟩
    apply decide_eq_true
    rintro rfl
    exact htx hcommitted
  marked := fun row hrow => hinv.marked row (mem_of_mem_filter hrow)
  marking := hinv.marking

variable {cursor : Nat} {entry : ChangeLogEntry}

theorem mem_fetchBatch (hentry : entry ∈ s.fetchBatchFromCursor batchSize cursor) :
    cursor < entry.pkEntityChangeLog ∧ ∃ row ∈ s.rows, row.tx ∈ s.committed ∧ row.entry = entry := by
  obtain ⟨row, hrow, rfl⟩ := mem_map.mp (mem_of_mem_take hentry)
  obtain ⟨hmem, hvisible⟩ := mem_filter.mp hrow
  obtain ⟨hcommitted, hpast⟩ := of_decide_eq_true hvisible
  exact ⟨hpast, row, hmem, hcommitted, rfl⟩

theorem Inv.fetchBatch_ascending (hinv : Inv s) (cursor : Nat) :
    (s.fetchBatchFromCursor batchSize cursor).Pairwise
      fun a b => a.pkEntityChangeLog < b.pkEntityChangeLog := by
  apply List.Pairwise.sublist (take_sublist _ _)
  apply pairwise_map.mpr
  exact hinv.ordered.filter _

/-- What a fetch comes to: the bridge stops, finds nothing, or takes a batch. -/
theorem fetch_cases (cursor : Nat) :
    s.fetch batchSize cursor = { s with bridge := none } ∨ s.fetch batchSize cursor = s ∨
      s.fetch batchSize cursor =
        { s with bridge := some ⟨cursor, .batch (s.fetchBatchFromCursor batchSize cursor)⟩ } := by
  unfold System.fetch
  by_cases hsize : batchSize < 2 ^ 63
  · rw [if_pos hsize]
    cases hbatch : s.fetchBatchFromCursor batchSize cursor with
    | nil => exact .inr (.inl rfl)
    | cons entry rest => exact .inr (.inr rfl)
  · rw [if_neg hsize]
    exact .inl rfl

theorem Inv.fetch (hinv : Inv s) (hbridge : s.bridge = some ⟨cursor, .polling⟩) : Inv (s.fetch batchSize cursor) := by
  rcases fetch_cases cursor with h | h | h
  · rw [h]
    exact hinv.stop
  · rw [h]
    exact hinv
  · rw [h]
    have hcursor : s.cursor = cursor := by rw [System.cursor, hbridge]; rfl
    exact
      { hinv with
        saved := hcursor ▸ hinv.saved
        ahead := fun entry hentry => (mem_fetchBatch hentry).1
        ascending := hinv.fetchBatch_ascending cursor
        current := fun entry hentry => (mem_fetchBatch hentry).2
        marking := by rintro _ _ _ _ ⟨⟩ }

/-- What becomes of the head of the batch: the bridge skips it, publishes it and turns to its mark, or leaves the
loop, with the event stored or not. -/
theorem handleEntry_cases (cursor : Nat) (entry : ChangeLogEntry) (rest : List ChangeLogEntry) (now : Nat)
    (fresh : String) (publication : Publication) :
    ((entry.natsPublishedAt.isSome = true ∨ entry.convertible toUppercase = false) ∧
      s.handleEntry toUppercase cursor entry rest now fresh publication =
        { s with bridge := some ⟨entry.pkEntityChangeLog, .batch rest⟩ }) ∨
    ∃ event, entry.natsPublishedAt = none ∧ entry.toEntityEvent toUppercase fresh now = .ok event ∧
      ((publication = .acknowledged ∧ s.handleEntry toUppercase cursor entry rest now fresh publication =
        { s with
          published := (entry.pkEntityChangeLog, event) :: s.published
          bridge := some ⟨cursor, .marking entry event rest⟩ }) ∨
      (publication = .refused ∧ s.handleEntry toUppercase cursor entry rest now fresh publication =
        { s with bridge := some ⟨cursor, .batch []⟩ }) ∨
      (publication = .unconfirmed ∧ s.handleEntry toUppercase cursor entry rest now fresh publication =
        { s with
          published := (entry.pkEntityChangeLog, event) :: s.published
          bridge := some ⟨cursor, .batch []⟩ })) := by
  unfold System.handleEntry
  by_cases hmarked : entry.natsPublishedAt.isSome = true
  · rw [if_pos hmarked]
    exact .inl ⟨.inl hmarked, rfl⟩
  · rw [if_neg hmarked]
    have hnone := Option.not_isSome_iff_eq_none.mp hmarked
    cases hevent : entry.toEntityEvent toUppercase fresh now with
    | error e =>
      refine .inl ⟨.inr ?_, rfl⟩
      unfold ChangeLogEntry.toEntityEvent at hevent
      cases hkind : eventKind toUppercase entry.modificationType with
      | error e => rw [ChangeLogEntry.convertible, hkind]; rfl
      | ok kind => rw [hkind] at hevent; cases hevent
    | ok event =>
      refine .inr ⟨event, hnone, rfl, ?_⟩
      cases publication with
      | acknowledged => exact .inl ⟨rfl, rfl⟩
      | refused => exact .inr (.inl ⟨rfl, rfl⟩)
      | unconfirmed => exact .inr (.inr ⟨rfl, rfl⟩)

/-- A further event in the stream. -/
theorem Inv.publish (hinv : Inv s) (pk : Nat) (event : EntityEvent) :
    Inv { s with published := (pk, event) :: s.published } :=
  { hinv with
    marked := by
      intro row hrow hmarked
      obtain ⟨stored, hstored⟩ := hinv.marked row hrow hmarked
      exact ⟨stored, mem_cons_of_mem _ hstored⟩
    marking := by
      intro cursor entry event' rest hbridge
      obtain ⟨stored, hstored⟩ := hinv.marking cursor entry event' rest hbridge
      exact ⟨stored, mem_cons_of_mem _ hstored⟩ }

theorem pending_batch {entries : List ChangeLogEntry}
    (hbridge : s.bridge = some ⟨cursor, .batch entries⟩) : s.pending = entries := by
  rw [System.pending, hbridge]
  rfl

variable {rest : List ChangeLogEntry}

theorem pending_marking {event : EntityEvent}
    (hbridge : s.bridge = some ⟨cursor, .marking entry event rest⟩) : s.pending = entry :: rest := by
  rw [System.pending, hbridge]
  rfl

theorem cursor_running {bridge : Bridge} (hbridge : s.bridge = some bridge) : s.cursor = bridge.cursor := by
  rw [System.cursor, hbridge]
  rfl

/-- The cursor moves to the head of the entries in work. -/
theorem Inv.advance (hinv : Inv s) (hpending : s.pending = entry :: rest) :
    Inv { s with bridge := some ⟨entry.pkEntityChangeLog, .batch rest⟩ } := by
  have hahead : s.cursor < entry.pkEntityChangeLog :=
    hinv.ahead entry (hpending ▸ mem_cons_self)
  have hascending := hinv.ascending
  rw [hpending, pairwise_cons] at hascending
  refine hinv.rebridge ?_ ?_ hascending.1 ?_
  · exact Nat.le_of_lt (Nat.lt_of_le_of_lt hinv.saved hahead)
  · rw [hpending]
    exact sublist_cons_self entry rest
  · rintro _ _ _ _ ⟨⟩

/-- The loop ends with the cursor where it is. -/
theorem Inv.leave (hinv : Inv s) {bridge : Bridge} (hbridge : s.bridge = some bridge) :
    Inv { s with bridge := some ⟨bridge.cursor, .batch []⟩ } := by
  refine hinv.rebridge ?_ (nil_sublist _) nofun ?_
  · exact (cursor_running hbridge) ▸ hinv.saved
  · rintro _ _ _ _ ⟨⟩

theorem Inv.handle (hinv : Inv s)
    (hbridge : s.bridge = some ⟨cursor, .batch (entry :: rest)⟩) (now : Nat) (fresh : String)
    (publication : Publication) : Inv (s.handleEntry toUppercase cursor entry rest now fresh publication) := by
  rcases handleEntry_cases cursor entry rest now fresh publication with
    ⟨-, h⟩ | ⟨event, -, -, ⟨-, h⟩ | ⟨-, h⟩ | ⟨-, h⟩⟩
  · rw [h]
    exact hinv.advance (pending_batch hbridge)
  · rw [h]
    have hpublished := hinv.publish entry.pkEntityChangeLog event
    have hcursor : s.cursor = cursor := cursor_running hbridge
    have hpending := pending_batch hbridge
    exact
      { hpublished with
        saved := hcursor ▸ hinv.saved
        ahead := by
          intro e he
          exact hcursor ▸ hinv.ahead e (hpending ▸ he)
        ascending := by
          show (entry :: rest).Pairwise _
          exact hpending ▸ hinv.ascending
        current := by
          intro e he
          exact hinv.current e (hpending ▸ he)
        marking := by
          rintro _ _ _ _ ⟨⟩
          exact ⟨event, mem_cons_self⟩ }
  · rw [h]
    exact hinv.leave hbridge
  · rw [h]
    exact (hinv.publish entry.pkEntityChangeLog event).leave hbridge

@[simp] theorem markPublished_tx (pk : Nat) (eventId : String) (now : Nat) (row : Row) :
    (row.markPublished pk eventId now).tx = row.tx := by
  unfold Row.markPublished
  split
  · rfl
  · rfl

@[simp] theorem markPublished_pk (pk : Nat) (eventId : String) (now : Nat) (row : Row) :
    (row.markPublished pk eventId now).entry.pkEntityChangeLog = row.entry.pkEntityChangeLog := by
  unfold Row.markPublished
  split
  · rfl
  · rfl

@[simp] theorem markPublished_modificationType (pk : Nat) (eventId : String) (now : Nat) (row : Row) :
    (row.markPublished pk eventId now).entry.modificationType = row.entry.modificationType := by
  unfold Row.markPublished
  split
  · rfl
  · rfl

theorem markPublished_of_ne {pk : Nat} {row : Row} (hne : row.entry.pkEntityChangeLog ≠ pk) (eventId : String)
    (now : Nat) : row.markPublished pk eventId now = row :=
  if_neg fun h => hne h.1

theorem Inv.markRow (hinv : Inv s) {event : EntityEvent}
    (hbridge : s.bridge = some ⟨cursor, .marking entry event rest⟩) (now : Nat) :
    Inv
      { s with
        rows := s.rows.map (Row.markPublished entry.pkEntityChangeLog event.id now)
        bridge := some ⟨entry.pkEntityChangeLog, .batch rest⟩ } := by
  have hadvanced := hinv.advance (pending_marking hbridge)
  refine { hadvanced with ordered := ?_, bounded := ?_, current := ?_, marked := ?_ }
  · apply pairwise_map.mpr
    simpa only [markPublished_pk] using hinv.ordered
  · intro row hrow
    obtain ⟨old, hold, rfl⟩ := mem_map.mp hrow
    rw [markPublished_pk]
    exact hinv.bounded old hold
  · intro e he
    obtain ⟨row, hrow, hcommitted, rfl⟩ := hadvanced.current e he
    have hlater : entry.pkEntityChangeLog < row.entry.pkEntityChangeLog := hadvanced.ahead row.entry he
    have hsame := markPublished_of_ne (Nat.ne_of_gt hlater) event.id now
    exact ⟨row, mem_map.mpr ⟨row, hrow, hsame⟩, hcommitted, rfl⟩
  · intro row hrow hmarked
    obtain ⟨old, hold, rfl⟩ := mem_map.mp hrow
    rw [markPublished_pk]
    by_cases hpk : old.entry.pkEntityChangeLog = entry.pkEntityChangeLog
    · rw [hpk]
      exact hinv.marking cursor entry event rest hbridge
    · rw [markPublished_of_ne hpk] at hmarked
      exact hinv.marked old hold hmarked

theorem Inv.keep (hinv : Inv s) (e : Event) : Inv (step toUppercase batchSize s e) := by
  cases e with
  | insert tx change =>
    dsimp only [step]
    split
    · exact hinv
    · exact hinv.insert change
  | commit tx => exact hinv.commit tx
  | abort tx =>
    dsimp only [step]
    split
    · exact hinv
    · rename_i htx
      exact hinv.abort htx
  | start =>
    dsimp only [step]
    split
    · refine hinv.rebridge ?_ (nil_sublist _) nofun ?_
      · exact Nat.le_refl _
      · rintro _ _ _ _ ⟨⟩
    · exact hinv
  | fetch =>
    dsimp only [step]
    split
    · rename_i cursor hbridge
      exact hinv.fetch hbridge
    · exact hinv
  | handle now fresh publication =>
    dsimp only [step]
    split
    · rename_i cursor entry rest hbridge
      exact hinv.handle hbridge now fresh publication
    · exact hinv
  | mark now =>
    dsimp only [step]
    split
    · rename_i cursor entry event rest hbridge
      exact hinv.markRow hbridge now
    · exact hinv
  | save | shutdown =>
    dsimp only [step]
    split
    · refine hinv.rebridge ?_ (nil_sublist _) nofun ?_
      · exact Nat.le_refl _
      · rintro _ _ _ _ ⟨⟩
    · exact hinv
  | crash => exact hinv.stop

theorem inv_run (toUppercase : String → String) (batchSize : Nat) (events : List Event) :
    Inv (run (step toUppercase batchSize) .initial events) := by
  have hkeep : ∀ s e, Inv s → Inv (step toUppercase batchSize s e) := fun _ e hinv => hinv.keep e
  exact run_invariant hkeep events inv_initial

/-- In every run, whatever crashes or is lost, the bridge works on committed rows as they stand, in the order of their
keys and past its cursor, which the checkpoint never overtakes, and every row it marks is published. -/
theorem works_in_order (toUppercase : String → String) (batchSize : Nat) (events : List Event) :
    let s := run (step toUppercase batchSize) .initial events
    s.loadCursor ≤ s.cursor ∧ s.pending.Pairwise (fun a b => a.pkEntityChangeLog < b.pkEntityChangeLog) ∧
      (∀ entry ∈ s.pending, s.cursor < entry.pkEntityChangeLog ∧
        ∃ row ∈ s.rows, row.tx ∈ s.committed ∧ row.entry = entry) ∧
      ∀ row ∈ s.rows, row.entry.natsPublishedAt.isSome → s.IsPublished row.entry.pkEntityChangeLog := by
  have hinv := inv_run toUppercase batchSize events
  exact ⟨hinv.saved, hinv.ascending, fun entry h => ⟨hinv.ahead entry h, hinv.current entry h⟩, hinv.marked⟩

end Bridge

end FraiseQL.ChangeLogBridge
