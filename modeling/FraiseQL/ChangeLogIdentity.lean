import FraiseQL.ChangeLogDelivery
import FraiseQL.DedupedExecutor
import Mathlib.Data.List.Pairwise

/-! The identity of an event across redeliveries. The bridge draws an event's id before it publishes and stores it
only with the mark, so a row that is published twice keeps its id when the row brought one along, or when nothing
comes between the publication and the mark. The deduplicating executor tells events apart by their ids. -/

namespace FraiseQL.ChangeLogBridge

open EventRun List
open DedupedExecutor (Delivery TenantScope ClaimsKept)

/-- All events of a row have one id. -/
def SameIds (s : System) : Prop :=
  ∀ pk first second, (pk, first) ∈ s.published → (pk, second) ∈ s.published → first.id = second.id

instance (s : System) : Decidable (SameIds s) :=
  decidable_of_iff (∀ first ∈ s.published, ∀ second ∈ s.published, first.1 = second.1 → first.2.id = second.2.id)
    ⟨fun h _ _ _ hfirst hsecond => h _ hfirst _ hsecond rfl,
      fun h first hfirst second hsecond heq => h first.1 first.2 second.2 hfirst (heq ▸ hsecond)⟩

def OfRow (s : System) (pk : Nat) (delivery : Delivery) : Prop :=
  ∃ event, (pk, event) ∈ s.published ∧ delivery.event = ⟨event.id, event.tenantId⟩

/-- Successful deliveries of one row made their claims at least a window apart. -/
def OncePerWindow (s : System) (windowSeconds : Nat) (succeeded : List Delivery) : Prop :=
  ∀ pk, ∀ first ∈ succeeded, ∀ second ∈ succeeded, OfRow s pk first → OfRow s pk second →
    first.number < second.number → 0 < windowSeconds →
      ∃ t u, first.claimedAt = some t ∧ second.claimedAt = some u ∧ t + windowSeconds * 1000 ≤ u

/-- An entry without an id of its own gets its mark once it is published: the bridge does not stop in between, and
no acknowledgement is lost. -/
def DrawnIdsMarked (toUppercase : String → String) (s : System) : Event → Prop
  | .crash => ∀ cursor entry event rest, s.bridge = some ⟨cursor, .marking entry event rest⟩ →
      entry.natsEventId.isSome = true
  | .handle _ _ publication => ∀ cursor entry rest, s.bridge = some ⟨cursor, .batch (entry :: rest)⟩ →
      publication = .unconfirmed → entry.natsPublishedAt = none → entry.convertible toUppercase = true →
        entry.natsEventId.isSome = true
  | _ => True

section Identity

/-- Every event belongs to a committed row; it has the row's id, or the row has none yet and is being marked with
the event's. -/
structure Identified (s : System) : Prop extends Inv s where
  stored : ∀ pk event, (pk, event) ∈ s.published →
    ∃ row ∈ s.rows, row.tx ∈ s.committed ∧ row.entry.pkEntityChangeLog = pk
  named : ∀ row ∈ s.rows, ∀ id, row.entry.natsEventId = some id →
    ∀ event, (row.entry.pkEntityChangeLog, event) ∈ s.published → event.id = id
  unnamed : ∀ row ∈ s.rows, row.entry.natsEventId = none →
    ∀ event, (row.entry.pkEntityChangeLog, event) ∈ s.published →
      ∃ cursor entry drawn rest, s.bridge = some ⟨cursor, .marking entry drawn rest⟩ ∧
        entry.pkEntityChangeLog = row.entry.pkEntityChangeLog ∧ event.id = drawn.id
  marks : ∀ cursor entry event rest, s.bridge = some ⟨cursor, .marking entry event rest⟩ →
    entry.natsPublishedAt = none ∧ ∀ id, entry.natsEventId = some id → event.id = id

theorem identified_initial : Identified .initial where
  toInv := inv_initial
  stored := nofun
  named := nofun
  unnamed := nofun
  marks := by rintro _ _ _ _ ⟨⟩

variable {toUppercase : String → String} {batchSize : Nat} {s : System}

/-- A key belongs to one row. -/
theorem Inv.row_unique (hinv : Inv s) {a b : Row} (ha : a ∈ s.rows) (hb : b ∈ s.rows)
    (hpk : a.entry.pkEntityChangeLog = b.entry.pkEntityChangeLog) : a = b := by
  by_contra hne
  have hsymm : Std.Symm fun a b : Row => a.entry.pkEntityChangeLog ≠ b.entry.pkEntityChangeLog :=
    ⟨fun _ _ h => h.symm⟩
  have hdistinct : s.rows.Pairwise fun a b => a.entry.pkEntityChangeLog ≠ b.entry.pkEntityChangeLog :=
    hinv.ordered.imp fun h => Nat.ne_of_lt h
  exact hdistinct.forall ha hb hne hpk

theorem Identified.sameIds (hs : Identified s) : SameIds s := by
  intro pk first second hfirst hsecond
  obtain ⟨row, hrow, -, rfl⟩ := hs.stored pk first hfirst
  cases hid : row.entry.natsEventId with
  | some id =>
    calc first.id
        _ = id := hs.named row hrow id hid first hfirst
        _ = second.id := (hs.named row hrow id hid second hsecond).symm
  | none =>
    obtain ⟨_, _, drawn, _, hbridge, -, hdrawn⟩ := hs.unnamed row hrow hid first hfirst
    obtain ⟨_, _, drawn', _, hbridge', -, hdrawn'⟩ := hs.unnamed row hrow hid second hsecond
    rw [hbridge] at hbridge'
    cases hbridge'
    rw [hdrawn, hdrawn']

/-- A bridge that goes on without a mark in work, when none was in work or the entry brought its id along. -/
theorem Identified.unmark (hs : Identified s) {saved : Option Nat} {bridge : Option Bridge}
    (hinv : Inv { s with saved := saved, bridge := bridge })
    (hbefore : ∀ cursor entry event rest, s.bridge = some ⟨cursor, .marking entry event rest⟩ →
      entry.natsEventId.isSome = true)
    (hafter : ∀ cursor entry event rest, bridge ≠ some ⟨cursor, .marking entry event rest⟩) :
    Identified { s with saved := saved, bridge := bridge } where
  toInv := hinv
  stored := hs.stored
  named := hs.named
  unnamed := by
    intro row hrow hid event hevent
    obtain ⟨cursor, entry, drawn, rest, hbridge, hpk, -⟩ := hs.unnamed row hrow hid event hevent
    obtain ⟨marked, hmarked, -, rfl⟩ := hs.current entry (pending_marking hbridge ▸ mem_cons_self)
    have hsome := hbefore cursor marked.entry drawn rest hbridge
    rw [hs.toInv.row_unique hmarked hrow hpk, hid] at hsome
    cases hsome
  marks := fun cursor entry event rest h => absurd h (hafter cursor entry event rest)

theorem Identified.insert (hs : Identified s) {tx : Nat} (change : ChangeLogEntry) :
    Identified
      { s with
        nextPk := s.nextPk + 1
        rows := s.rows ++ [⟨tx, { change with pkEntityChangeLog := s.nextPk, natsPublishedAt := none }⟩] } := by
  have hold : ∀ row ∈ s.rows ++ [⟨tx, { change with pkEntityChangeLog := s.nextPk, natsPublishedAt := none }⟩],
      ∀ event, (row.entry.pkEntityChangeLog, event) ∈ s.published → row ∈ s.rows := by
    intro row hrow event hevent
    rcases mem_append.mp hrow with hrow | hrow
    · exact hrow
    · rw [mem_singleton.mp hrow] at hevent
      obtain ⟨old, hold, -, hpk⟩ := hs.stored s.nextPk event hevent
      exact absurd hpk (Nat.ne_of_lt (hs.bounded old hold))
  refine { hs.toInv.insert change with stored := ?_, named := ?_, unnamed := ?_, marks := hs.marks }
  · intro pk event hevent
    obtain ⟨row, hrow, hcommitted⟩ := hs.stored pk event hevent
    exact ⟨row, mem_append_left _ hrow, hcommitted⟩
  · intro row hrow id hid event hevent
    exact hs.named row (hold row hrow event hevent) id hid event hevent
  · intro row hrow hid event hevent
    exact hs.unnamed row (hold row hrow event hevent) hid event hevent

theorem Identified.commit (hs : Identified s) (tx : Nat) : Identified { s with committed := tx :: s.committed } :=
  { hs.toInv.commit tx with
    stored := by
      intro pk event hevent
      obtain ⟨row, hrow, hcommitted, hpk⟩ := hs.stored pk event hevent
      exact ⟨row, hrow, mem_cons_of_mem tx hcommitted, hpk⟩
    named := hs.named
    unnamed := hs.unnamed
    marks := hs.marks }

theorem Identified.abort (hs : Identified s) {tx : Nat} (htx : tx ∉ s.committed) :
    Identified { s with rows := s.rows.filter fun row => row.tx ≠ tx } :=
  { hs.toInv.abort htx with
    stored := by
      intro pk event hevent
      obtain ⟨row, hrow, hcommitted, hpk⟩ := hs.stored pk event hevent
      refine ⟨row, mem_filter.mpr ⟨hrow, ?_⟩, hcommitted, hpk⟩
      apply decide_eq_true
      rintro rfl
      exact htx hcommitted
    named := fun row hrow => hs.named row (mem_of_mem_filter hrow)
    unnamed := fun row hrow => hs.unnamed row (mem_of_mem_filter hrow)
    marks := hs.marks }

variable {entry : ChangeLogEntry} {fresh : String} {now : Nat} {event : EntityEvent}

theorem toEntityEvent_id
    (hevent : entry.toEntityEvent toUppercase fresh now = .ok event) : event.id = entry.natsEventId.getD fresh := by
  unfold ChangeLogEntry.toEntityEvent at hevent
  split at hevent
  · cases hevent
  · cases hevent
    rfl

theorem convertible_of_toEntityEvent
    (hevent : entry.toEntityEvent toUppercase fresh now = .ok event) : entry.convertible toUppercase = true := by
  unfold ChangeLogEntry.toEntityEvent at hevent
  split at hevent
  · cases hevent
  · rename_i kind hkind
    rw [ChangeLogEntry.convertible, hkind]
    rfl

variable {cursor : Nat} {rest : List ChangeLogEntry}

/-- The bridge publishes the head of its batch and turns to the mark, or leaves the batch when the entry brought
its id along. -/
theorem Identified.publish (hs : Identified s) {rest : List ChangeLogEntry} {bridge : Bridge}
    (hbridge : s.bridge = some ⟨cursor, .batch (entry :: rest)⟩)
    (hevent : entry.toEntityEvent toUppercase fresh now = .ok event) (hunmarked : entry.natsPublishedAt = none)
    (hinv : Inv { s with published := (entry.pkEntityChangeLog, event) :: s.published, bridge := some bridge })
    (hnext : bridge = ⟨cursor, .marking entry event rest⟩ ∨
      (entry.natsEventId.isSome = true ∧ bridge = ⟨cursor, .batch []⟩)) :
    Identified { s with published := (entry.pkEntityChangeLog, event) :: s.published, bridge := some bridge } := by
  obtain ⟨head, hhead, hcommitted, rfl⟩ := hs.current entry (pending_batch hbridge ▸ mem_cons_self)
  have hid := toEntityEvent_id hevent
  have hcases : ∀ row ∈ s.rows, ∀ stored,
      (row.entry.pkEntityChangeLog, stored) ∈ (head.entry.pkEntityChangeLog, event) :: s.published →
        (row = head ∧ stored = event) ∨ (row.entry.pkEntityChangeLog, stored) ∈ s.published := by
    intro row hrow stored hstored
    rcases mem_cons.mp hstored with hnew | hold
    · obtain ⟨hpk, rfl⟩ := Prod.mk.inj hnew
      exact .inl ⟨hs.toInv.row_unique hrow hhead hpk, rfl⟩
    · exact .inr hold
  refine { hinv with stored := ?_, named := ?_, unnamed := ?_, marks := ?_ }
  · intro pk stored hstored
    rcases mem_cons.mp hstored with hnew | hold
    · obtain ⟨rfl, rfl⟩ := Prod.mk.inj hnew
      exact ⟨head, hhead, hcommitted, rfl⟩
    · exact hs.stored pk stored hold
  · intro row hrow id hrowId stored hstored
    rcases hcases row hrow stored hstored with ⟨rfl, rfl⟩ | hold
    · rw [hid, hrowId]
      rfl
    · exact hs.named row hrow id hrowId stored hold
  · intro row hrow hrowId stored hstored
    rcases hcases row hrow stored hstored with ⟨rfl, rfl⟩ | hold
    · rcases hnext with rfl | ⟨hsome, -⟩
      · exact ⟨cursor, row.entry, stored, rest, rfl, rfl, rfl⟩
      · rw [hrowId] at hsome
        cases hsome
    · obtain ⟨_, _, _, _, hmarking, -⟩ := hs.unnamed row hrow hrowId stored hold
      rw [hbridge] at hmarking
      cases hmarking
  · rintro cursor' entry' event' rest' heq
    rcases hnext with rfl | ⟨-, rfl⟩
    · cases heq
      refine ⟨hunmarked, ?_⟩
      intro id hheadId
      rw [hid, hheadId]
      rfl
    · cases heq

theorem Identified.handle (hs : Identified s)
    (hbridge : s.bridge = some ⟨cursor, .batch (entry :: rest)⟩) (now : Nat) (fresh : String)
    (publication : Publication) (hmarked : DrawnIdsMarked toUppercase s (.handle now fresh publication)) :
    Identified (s.handleEntry toUppercase cursor entry rest now fresh publication) := by
  have hhandled : Inv (s.handleEntry toUppercase cursor entry rest now fresh publication) :=
    hs.toInv.handle hbridge now fresh publication
  have hbefore : ∀ cursor' entry' event' rest', s.bridge = some ⟨cursor', .marking entry' event' rest'⟩ →
      entry'.natsEventId.isSome = true := by
    intro _ _ _ _ h
    rw [hbridge] at h
    cases h
  rcases @handleEntry_cases toUppercase s cursor entry rest now fresh publication with
    ⟨-, h⟩ | ⟨event, hunmarked, hevent, ⟨-, h⟩ | ⟨-, h⟩ | ⟨hlost, h⟩⟩
  · rw [h] at hhandled ⊢
    apply hs.unmark hhandled hbefore
    rintro _ _ _ _ ⟨⟩
  · rw [h] at hhandled ⊢
    exact hs.publish hbridge hevent hunmarked hhandled (.inl rfl)
  · rw [h] at hhandled ⊢
    apply hs.unmark hhandled hbefore
    rintro _ _ _ _ ⟨⟩
  · rw [h] at hhandled ⊢
    have hsome := hmarked cursor entry rest hbridge hlost hunmarked (convertible_of_toEntityEvent hevent)
    exact hs.publish hbridge hevent hunmarked hhandled (.inr ⟨hsome, rfl⟩)

theorem markPublished_self {row : Row} (hnone : row.entry.natsPublishedAt = none) (eventId : String) (now : Nat) :
    (row.markPublished row.entry.pkEntityChangeLog eventId now).entry.natsEventId = some eventId := by
  rw [Row.markPublished, if_pos ⟨rfl, Option.isNone_iff_eq_none.mpr hnone⟩]

/-- The mark gives the row the id its events have. -/
theorem Identified.markRow (hs : Identified s)
    (hbridge : s.bridge = some ⟨cursor, .marking entry event rest⟩) (now : Nat) :
    Identified
      { s with
        rows := s.rows.map (Row.markPublished entry.pkEntityChangeLog event.id now)
        bridge := some ⟨entry.pkEntityChangeLog, .batch rest⟩ } := by
  obtain ⟨hunmarked, hown⟩ := hs.marks cursor entry event rest hbridge
  obtain ⟨head, hhead, -, rfl⟩ := hs.current entry (pending_marking hbridge ▸ mem_cons_self)
  have hheadIds : ∀ stored, (head.entry.pkEntityChangeLog, stored) ∈ s.published → stored.id = event.id := by
    intro stored hstored
    cases hid : head.entry.natsEventId with
    | some id => rw [hs.named head hhead id hid stored hstored, hown id hid]
    | none =>
      obtain ⟨_, _, _, _, hbridge', -, hdrawn⟩ := hs.unnamed head hhead hid stored hstored
      rw [hbridge] at hbridge'
      cases hbridge'
      exact hdrawn
  have hrows : ∀ row ∈ s.rows.map (Row.markPublished head.entry.pkEntityChangeLog event.id now),
      row = head.markPublished head.entry.pkEntityChangeLog event.id now ∨
        (row ∈ s.rows ∧ row.entry.pkEntityChangeLog ≠ head.entry.pkEntityChangeLog) := by
    intro row hrow
    obtain ⟨old, hold, rfl⟩ := mem_map.mp hrow
    by_cases hpk : old.entry.pkEntityChangeLog = head.entry.pkEntityChangeLog
    · rw [hs.toInv.row_unique hold hhead hpk]
      exact .inl rfl
    · rw [markPublished_of_ne hpk]
      exact .inr ⟨hold, hpk⟩
  refine { hs.toInv.markRow hbridge now with stored := ?_, named := ?_, unnamed := ?_, marks := ?_ }
  · intro pk stored hstored
    obtain ⟨row, hrow, hcommitted, hpk⟩ := hs.stored pk stored hstored
    refine ⟨_, mem_map_of_mem hrow, ?_, ?_⟩
    · rw [markPublished_tx]
      exact hcommitted
    · rw [markPublished_pk]
      exact hpk
  · intro row hrow id hid stored hstored
    rcases hrows row hrow with rfl | ⟨hold, -⟩
    · rw [markPublished_pk] at hstored
      rw [markPublished_self hunmarked] at hid
      rw [hheadIds stored hstored]
      exact Option.some.inj hid
    · exact hs.named row hold id hid stored hstored
  · intro row hrow hid stored hstored
    rcases hrows row hrow with rfl | ⟨hold, hpk⟩
    · rw [markPublished_self hunmarked] at hid
      cases hid
    · obtain ⟨_, _, _, _, hbridge', hsame, -⟩ := hs.unnamed row hold hid stored hstored
      rw [hbridge] at hbridge'
      cases hbridge'
      exact absurd hsame.symm hpk
  · rintro _ _ _ _ ⟨⟩

theorem Identified.fetch (hs : Identified s) (hbridge : s.bridge = some ⟨cursor, .polling⟩) :
    Identified (s.fetch batchSize cursor) := by
  have hfetched : Inv (s.fetch batchSize cursor) := hs.toInv.fetch hbridge
  have hbefore : ∀ cursor' entry event rest, s.bridge = some ⟨cursor', .marking entry event rest⟩ →
      entry.natsEventId.isSome = true := by
    intro _ _ _ _ h
    rw [hbridge] at h
    cases h
  rcases @fetch_cases batchSize s cursor with h | h | h
  · rw [h] at hfetched ⊢
    apply hs.unmark hfetched hbefore
    rintro _ _ _ _ ⟨⟩
  · rw [h]
    exact hs
  · rw [h] at hfetched ⊢
    apply hs.unmark hfetched hbefore
    rintro _ _ _ _ ⟨⟩

theorem Identified.keep (hs : Identified s) (e : Event) (hmarked : DrawnIdsMarked toUppercase s e) :
    Identified (step toUppercase batchSize s e) := by
  have hinv : Inv (step toUppercase batchSize s e) := hs.toInv.keep e
  cases e with
  | insert tx change =>
    dsimp only [step]
    split
    · exact hs
    · exact hs.insert change
  | commit tx => exact hs.commit tx
  | abort tx =>
    dsimp only [step]
    split
    · exact hs
    · rename_i htx
      exact hs.abort htx
  | start =>
    dsimp only [step] at hinv ⊢
    split at hinv
    · rename_i hbridge
      apply hs.unmark hinv
      · intro _ _ _ _ h
        rw [hbridge] at h
        cases h
      · rintro _ _ _ _ ⟨⟩
    · exact hs
  | fetch =>
    dsimp only [step]
    split
    · rename_i cursor hbridge
      exact hs.fetch hbridge
    · exact hs
  | handle now fresh publication =>
    dsimp only [step]
    split
    · rename_i cursor entry rest hbridge
      exact hs.handle hbridge now fresh publication hmarked
    · exact hs
  | mark now =>
    dsimp only [step]
    split
    · rename_i cursor entry event rest hbridge
      exact hs.markRow hbridge now
    · exact hs
  | save | shutdown =>
    dsimp only [step] at hinv ⊢
    split at hinv
    · rename_i cursor hbridge
      apply hs.unmark hinv
      · intro _ _ _ _ h
        rw [hbridge] at h
        cases h
      · rintro _ _ _ _ ⟨⟩
    · exact hs
  | crash =>
    apply hs.unmark hs.toInv.stop hmarked
    rintro _ _ _ _ ⟨⟩

/-- Where a row's events have one id, the executor's claims keep its successes a window apart. -/
theorem SameIds.oncePerWindow (hsame : SameIds s) {windowSeconds : Nat} {scope : TenantScope}
    {deliveries : List DedupedExecutor.Event}
    (hkept : Along (DedupedExecutor.step windowSeconds scope) (ClaimsKept windowSeconds) (.start now) deliveries) :
    OncePerWindow s windowSeconds
      (run (DedupedExecutor.step windowSeconds scope) (.start now) deliveries).succeeded := by
  rintro pk first hfirst second hsecond ⟨event, hevent, heq⟩ ⟨event', hevent', heq'⟩ hlt hwindow
  have hid : first.event.id = second.event.id := by
    rw [heq, heq']
    exact hsame pk event event' hevent hevent'
  exact DedupedExecutor.successes_apart hkept hwindow hfirst hsecond hid hlt

end Identity

/-- In every run of the bridge in which drawn ids get their mark, all events of a row have one id; and in every run
of the executor in which claims are kept, a row's event is processed successfully at most once within the window. -/
theorem redelivery_recognisable (toUppercase : String → String) (batchSize : Nat) (events : List Event)
    (hmarked : Along (step toUppercase batchSize) (DrawnIdsMarked toUppercase) .initial events) :
    SameIds (run (step toUppercase batchSize) .initial events) ∧
      ∀ windowSeconds scope now deliveries,
        Along (DedupedExecutor.step windowSeconds scope) (ClaimsKept windowSeconds) (.start now) deliveries →
          OncePerWindow (run (step toUppercase batchSize) .initial events) windowSeconds
            (run (DedupedExecutor.step windowSeconds scope) (.start now) deliveries).succeeded := by
  have hkeep : ∀ s e, Identified s → DrawnIdsMarked toUppercase s e → Identified (step toUppercase batchSize s e) :=
    fun _ e hs => hs.keep e
  have hsame := (hmarked.invariant hkeep identified_initial).sameIds
  refine ⟨hsame, ?_⟩
  intro windowSeconds scope now deliveries hkept
  exact hsame.oncePerWindow hkept

/-- A crash while every entry in work has an id of its own loses none. -/
theorem drawnIdsMarked_crash {toUppercase : String → String} {s : System}
    (hown : ∀ entry ∈ s.pending, entry.natsEventId.isSome = true) : DrawnIdsMarked toUppercase s .crash := by
  intro cursor entry event rest hbridge
  apply hown
  rw [pending_marking hbridge]
  exact mem_cons_self

/-- A row that brings its id along is published again after a crash before the mark. -/
theorem own_id_survives_crash :
    SameIds
      (run (step String.toUpper 100) .initial
        [.insert 1 { orderInserted with natsEventId := some "k" }, .commit 1, .start, .fetch,
          .handle 0 "a" .acknowledged, .crash, .start, .fetch, .handle 1 "b" .acknowledged, .mark 2, .save]) := by
  refine (redelivery_recognisable String.toUpper 100 _ ?_).1
  refine ⟨trivial, trivial, trivial, trivial, ?_, ?_, trivial, trivial, ?_, trivial, trivial, trivial⟩
  · rintro _ _ _ - ⟨⟩
  · apply drawnIdsMarked_crash
    decide +kernel
  · rintro _ _ _ - ⟨⟩

/-- The bridge stops between the publication and the mark, and the row is published again under another id. -/
theorem drawn_id_lost_in_crash :
    ¬SameIds
      (run (step String.toUpper 100) .initial
        [.insert 1 orderInserted, .commit 1, .start, .fetch, .handle 0 "a" .acknowledged, .crash, .start, .fetch,
          .handle 1 "b" .acknowledged, .mark 2, .save]) := by
  decide +kernel

end FraiseQL.ChangeLogBridge
