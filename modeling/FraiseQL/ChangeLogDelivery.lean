import FraiseQL.ChangeLogBridge

/-! The bridge's promise to lose no change: what the cursor has passed is published. The cursor follows the keys,
and keys are taken before they are committed, so the promise rests on the order of the commits. -/

namespace FraiseQL.ChangeLogBridge

open EventRun List

section Delivery

variable (toUppercase : String → String)

/-- Every committed row that converts and that the cursor has reached is published. -/
def Delivered (s : System) : Prop :=
  ∀ row ∈ s.rows, row.tx ∈ s.committed → row.entry.convertible toUppercase = true →
    row.entry.pkEntityChangeLog ≤ s.cursor → s.IsPublished row.entry.pkEntityChangeLog

instance (s : System) (pk : Nat) : Decidable (s.IsPublished pk) :=
  decidable_of_iff (pk ∈ s.published.map Prod.fst) (by simp [System.IsPublished])

instance (s : System) : Decidable (Delivered toUppercase s) :=
  inferInstanceAs (Decidable (∀ row ∈ s.rows, row.tx ∈ s.committed → row.entry.convertible toUppercase = true →
    row.entry.pkEntityChangeLog ≤ s.cursor → s.IsPublished row.entry.pkEntityChangeLog))

/-- A transaction that commits has its convertible rows past the cursor and past the entries in work. -/
def CommitsAhead (s : System) : Event → Prop
  | .commit tx => tx ∉ s.committed → ∀ row ∈ s.rows, row.tx = tx → row.entry.convertible toUppercase = true →
      s.cursor < row.entry.pkEntityChangeLog ∧
        ∀ entry ∈ s.pending, entry.pkEntityChangeLog < row.entry.pkEntityChangeLog
  | _ => True

instance (s : System) : (e : Event) → Decidable (CommitsAhead toUppercase s e)
  | .commit tx => inferInstanceAs (Decidable (tx ∉ s.committed → ∀ row ∈ s.rows, row.tx = tx →
      row.entry.convertible toUppercase = true → s.cursor < row.entry.pkEntityChangeLog ∧
        ∀ entry ∈ s.pending, entry.pkEntityChangeLog < row.entry.pkEntityChangeLog))
  | .insert _ _ | .abort _ | .start | .fetch | .handle _ _ _ | .mark _ | .save | .shutdown | .crash =>
    isTrue trivial

/-- The rows between the cursor and an entry in work are in work too. -/
def Covered (s : System) : Prop :=
  ∀ row ∈ s.rows, row.tx ∈ s.committed → row.entry.convertible toUppercase = true →
    s.cursor < row.entry.pkEntityChangeLog →
      ∀ last ∈ s.pending, row.entry.pkEntityChangeLog ≤ last.pkEntityChangeLog → row.entry ∈ s.pending

structure Lossless (s : System) : Prop extends Inv s where
  delivered : Delivered toUppercase s
  covered : Covered toUppercase s

theorem lossless_initial : Lossless toUppercase .initial :=
  { inv_initial with delivered := nofun, covered := nofun }

variable {toUppercase} {batchSize : Nat} {s : System}

/-- A bridge with the cursor no further and with no entries in work. -/
theorem Lossless.idle (hs : Lossless toUppercase s) {saved : Option Nat} {bridge : Option Bridge}
    (hinv : Inv { s with saved := saved, bridge := bridge }) (hcursor : bridge.elim (saved.getD 0) (·.cursor) ≤ s.cursor)
    (hpending : bridge.elim [] (·.phase.pending) = []) :
    Lossless toUppercase { s with saved := saved, bridge := bridge } :=
  { hinv with
    delivered := by
      intro row hrow hcommitted hconvertible hreached
      exact hs.delivered row hrow hcommitted hconvertible (Nat.le_trans hreached hcursor)
    covered := by
      intro row _ _ _ _ last hlast
      have hnil : last ∈ bridge.elim [] (·.phase.pending) := hlast
      rw [hpending] at hnil
      cases hnil }

variable {tx : Nat}

theorem Lossless.insert (hs : Lossless toUppercase s) (htx : tx ∉ s.committed) (change : ChangeLogEntry) :
    Lossless toUppercase
      { s with
        nextPk := s.nextPk + 1
        rows := s.rows ++ [⟨tx, { change with pkEntityChangeLog := s.nextPk, natsPublishedAt := none }⟩] } :=
  have hold : ∀ row ∈ s.rows ++ [⟨tx, { change with pkEntityChangeLog := s.nextPk, natsPublishedAt := none }⟩],
      row.tx ∈ s.committed → row ∈ s.rows := by
    intro row hrow hcommitted
    rcases mem_append.mp hrow with hrow | hrow
    · exact hrow
    · rw [mem_singleton.mp hrow] at hcommitted
      exact absurd hcommitted htx
  { hs.toInv.insert change with
    delivered := fun row hrow hcommitted => hs.delivered row (hold row hrow hcommitted) hcommitted
    covered := fun row hrow hcommitted => hs.covered row (hold row hrow hcommitted) hcommitted }

theorem Lossless.commit (hs : Lossless toUppercase s) (hahead : CommitsAhead toUppercase s (.commit tx)) :
    Lossless toUppercase { s with committed := tx :: s.committed } :=
  have hcases : ∀ row ∈ s.rows, row.tx ∈ tx :: s.committed → row.entry.convertible toUppercase = true →
      row.tx ∈ s.committed ∨ (s.cursor < row.entry.pkEntityChangeLog ∧
        ∀ entry ∈ s.pending, entry.pkEntityChangeLog < row.entry.pkEntityChangeLog) := by
    intro row hrow hcommitted hconvertible
    by_cases hold : row.tx ∈ s.committed
    · exact .inl hold
    · rcases mem_cons.mp hcommitted with htx | hmem
      · exact .inr (hahead (htx ▸ hold) row hrow htx hconvertible)
      · exact absurd hmem hold
  { hs.toInv.commit tx with
    delivered := by
      intro row hrow hcommitted hconvertible hreached
      rcases hcases row hrow hcommitted hconvertible with hold | ⟨hpast, -⟩
      · exact hs.delivered row hrow hold hconvertible hreached
      · exact absurd hreached (Nat.not_le_of_lt hpast)
    covered := by
      intro row hrow hcommitted hconvertible hpast last hlast hle
      rcases hcases row hrow hcommitted hconvertible with hold | ⟨-, hlater⟩
      · exact hs.covered row hrow hold hconvertible hpast last hlast hle
      · exact absurd hle (Nat.not_le_of_lt (hlater last hlast)) }

theorem Lossless.abort (hs : Lossless toUppercase s) (htx : tx ∉ s.committed) :
    Lossless toUppercase { s with rows := s.rows.filter fun row => row.tx ≠ tx } :=
  { hs.toInv.abort htx with
    delivered := fun row hrow => hs.delivered row (mem_of_mem_filter hrow)
    covered := fun row hrow => hs.covered row (mem_of_mem_filter hrow) }

variable {cursor : Nat}

/-- A batch holds every committed row up to its last one. -/
theorem fetchBatch_covers (hinv : Inv s) {row : Row} (hrow : row ∈ s.rows)
    (hcommitted : row.tx ∈ s.committed) (hpast : cursor < row.entry.pkEntityChangeLog) {last : ChangeLogEntry}
    (hlast : last ∈ s.fetchBatchFromCursor batchSize cursor)
    (hle : row.entry.pkEntityChangeLog ≤ last.pkEntityChangeLog) :
    row.entry ∈ s.fetchBatchFromCursor batchSize cursor := by
  unfold System.fetchBatchFromCursor at hlast ⊢
  generalize hvisible : (s.rows.filter fun row =>
    row.tx ∈ s.committed ∧ cursor < row.entry.pkEntityChangeLog).map (·.entry) = visible at hlast ⊢
  have hmem : row.entry ∈ visible := by
    rw [← hvisible]
    refine mem_map.mpr ⟨row, mem_filter.mpr ⟨hrow, ?_⟩, rfl⟩
    exact decide_eq_true ⟨hcommitted, hpast⟩
  have hordered : visible.Pairwise fun a b => a.pkEntityChangeLog < b.pkEntityChangeLog := by
    rw [← hvisible]
    apply pairwise_map.mpr
    exact hinv.ordered.filter _
  rw [← take_append_drop batchSize visible] at hmem hordered
  rcases mem_append.mp hmem with htaken | hleft
  · exact htaken
  · have hlater := (pairwise_append.mp hordered).2.2 last hlast row.entry hleft
    omega

theorem Lossless.fetch (hs : Lossless toUppercase s) (hbridge : s.bridge = some ⟨cursor, .polling⟩) :
    Lossless toUppercase (s.fetch batchSize cursor) := by
  have hfetched : Inv (s.fetch batchSize cursor) := hs.toInv.fetch hbridge
  have hcursor : s.cursor = cursor := cursor_running hbridge
  rcases @fetch_cases batchSize s cursor with h | h | h
  · rw [h]
    exact hs.idle hs.toInv.stop hs.saved rfl
  · rw [h]
    exact hs
  · rw [h] at hfetched ⊢
    refine { hfetched with delivered := ?_, covered := ?_ }
    · intro row hrow hcommitted hconvertible hreached
      exact hs.delivered row hrow hcommitted hconvertible (hcursor ▸ hreached)
    · intro row hrow hcommitted _ hpast last hlast hle
      exact fetchBatch_covers hs.toInv hrow hcommitted hpast hlast hle

variable {entry : ChangeLogEntry} {rest : List ChangeLogEntry}

/-- The cursor moves to the head of the entries in work when the head is published or has no event. -/
theorem Lossless.advance (hs : Lossless toUppercase s) (hpending : s.pending = entry :: rest)
    (hdone : entry.convertible toUppercase = true → s.IsPublished entry.pkEntityChangeLog) :
    Lossless toUppercase { s with bridge := some ⟨entry.pkEntityChangeLog, .batch rest⟩ } := by
  have hadvanced := hs.toInv.advance hpending
  have hahead : s.cursor < entry.pkEntityChangeLog := hs.ahead entry (hpending ▸ mem_cons_self)
  have hlater : ∀ e ∈ rest, entry.pkEntityChangeLog < e.pkEntityChangeLog := hadvanced.ahead
  refine { hadvanced with delivered := ?_, covered := ?_ }
  · intro row hrow hcommitted hconvertible hreached
    have hreached : row.entry.pkEntityChangeLog ≤ entry.pkEntityChangeLog := hreached
    by_cases hpast : s.cursor < row.entry.pkEntityChangeLog
    · have hwork := hs.covered row hrow hcommitted hconvertible hpast entry (hpending ▸ mem_cons_self) hreached
      rw [hpending] at hwork
      rcases mem_cons.mp hwork with heq | hrest
      · rw [heq] at hconvertible ⊢
        exact hdone hconvertible
      · exact absurd hreached (Nat.not_le_of_lt (hlater row.entry hrest))
    · exact hs.delivered row hrow hcommitted hconvertible (Nat.le_of_not_lt hpast)
  · intro row hrow hcommitted hconvertible hpast last hlast hle
    have hpast : entry.pkEntityChangeLog < row.entry.pkEntityChangeLog := hpast
    have hwork := hs.covered row hrow hcommitted hconvertible (Nat.lt_trans hahead hpast) last
      (hpending ▸ mem_cons_of_mem entry hlast) hle
    rw [hpending] at hwork
    rcases mem_cons.mp hwork with heq | hrest
    · rw [heq] at hpast
      exact absurd hpast (Nat.lt_irrefl _)
    · exact hrest

theorem Lossless.publish (hs : Lossless toUppercase s) (pk : Nat) (event : EntityEvent) :
    Lossless toUppercase { s with published := (pk, event) :: s.published } :=
  { hs.toInv.publish pk event with
    delivered := by
      intro row hrow hcommitted hconvertible hreached
      obtain ⟨stored, hstored⟩ := hs.delivered row hrow hcommitted hconvertible hreached
      exact ⟨stored, mem_cons_of_mem _ hstored⟩
    covered := hs.covered }

theorem Lossless.handle (hs : Lossless toUppercase s)
    (hbridge : s.bridge = some ⟨cursor, .batch (entry :: rest)⟩) (now : Nat)
    (fresh : String) (publication : Publication) :
    Lossless toUppercase (s.handleEntry toUppercase cursor entry rest now fresh publication) := by
  have hpending := pending_batch hbridge
  have hcursor : s.cursor = cursor := cursor_running hbridge
  have hhandled : Inv (s.handleEntry toUppercase cursor entry rest now fresh publication) :=
    hs.toInv.handle hbridge now fresh publication
  rcases @handleEntry_cases toUppercase s cursor entry rest now fresh publication with
    ⟨hskipped, h⟩ | ⟨event, -, -, ⟨-, h⟩ | ⟨-, h⟩ | ⟨-, h⟩⟩
  · rw [h]
    apply hs.advance hpending
    intro hconvertible
    rcases hskipped with hmarked | hunconvertible
    · obtain ⟨row, hrow, -, rfl⟩ := hs.current entry (hpending ▸ mem_cons_self)
      exact hs.marked row hrow hmarked
    · rw [hunconvertible] at hconvertible
      cases hconvertible
  · have hpublished := hs.publish entry.pkEntityChangeLog event
    rw [h] at hhandled ⊢
    refine { hhandled with delivered := ?_, covered := ?_ }
    · intro row hrow hcommitted hconvertible hreached
      exact hpublished.delivered row hrow hcommitted hconvertible (hcursor ▸ hreached)
    · intro row hrow hcommitted hconvertible hpast last hlast hle
      have hwork := hpublished.covered row hrow hcommitted hconvertible (hcursor ▸ hpast) last
        (hpending ▸ hlast) hle
      show row.entry ∈ entry :: rest
      exact hpending ▸ hwork
  · rw [h] at hhandled ⊢
    exact hs.idle hhandled (Nat.le_of_eq hcursor.symm) rfl
  · rw [h] at hhandled ⊢
    exact (hs.publish entry.pkEntityChangeLog event).idle hhandled (Nat.le_of_eq hcursor.symm) rfl

theorem convertible_markPublished (pk : Nat) (eventId : String) (now : Nat) (row : Row) :
    (row.markPublished pk eventId now).entry.convertible toUppercase = row.entry.convertible toUppercase := by
  rw [ChangeLogEntry.convertible, markPublished_modificationType]
  rfl

theorem Lossless.markRow (hs : Lossless toUppercase s) {event : EntityEvent}
    (hbridge : s.bridge = some ⟨cursor, .marking entry event rest⟩) (now : Nat) :
    Lossless toUppercase
      { s with
        rows := s.rows.map (Row.markPublished entry.pkEntityChangeLog event.id now)
        bridge := some ⟨entry.pkEntityChangeLog, .batch rest⟩ } := by
  have hadvanced := hs.advance (pending_marking hbridge) fun _ => hs.marking cursor entry event rest hbridge
  refine { hs.toInv.markRow hbridge now with delivered := ?_, covered := ?_ }
  · intro row hrow hcommitted hconvertible hreached
    obtain ⟨old, hold, rfl⟩ := mem_map.mp hrow
    rw [markPublished_tx] at hcommitted
    rw [convertible_markPublished] at hconvertible
    rw [markPublished_pk] at hreached ⊢
    exact hadvanced.delivered old hold hcommitted hconvertible hreached
  · intro row hrow hcommitted hconvertible hpast last hlast hle
    obtain ⟨old, hold, rfl⟩ := mem_map.mp hrow
    rw [markPublished_pk] at hpast
    have hsame : old.markPublished entry.pkEntityChangeLog event.id now = old :=
      markPublished_of_ne (Nat.ne_of_gt hpast) event.id now
    rw [hsame] at hcommitted hconvertible hle ⊢
    exact hadvanced.covered old hold hcommitted hconvertible hpast last hlast hle

theorem Lossless.keep (hs : Lossless toUppercase s) (e : Event) (hahead : CommitsAhead toUppercase s e) :
    Lossless toUppercase (step toUppercase batchSize s e) := by
  have hinv : Inv (step toUppercase batchSize s e) := hs.toInv.keep e
  cases e with
  | insert tx change =>
    dsimp only [step]
    split
    · exact hs
    · rename_i htx
      exact hs.insert htx change
  | commit tx => exact hs.commit hahead
  | abort tx =>
    dsimp only [step]
    split
    · exact hs
    · rename_i htx
      exact hs.abort htx
  | start =>
    dsimp only [step] at hinv ⊢
    split at hinv
    · exact hs.idle hinv hs.saved rfl
    · exact hs
  | fetch =>
    dsimp only [step]
    split
    · rename_i cursor hbridge
      exact hs.fetch hbridge
    · exact hs
  | handle now fresh publication =>
    dsimp only [step]
    split
    · rename_i cursor entry rest hbridge
      exact hs.handle hbridge now fresh publication
    · exact hs
  | mark now =>
    dsimp only [step]
    split
    · rename_i cursor entry event rest hbridge
      exact hs.markRow hbridge now
    · exact hs
  | save | shutdown =>
    dsimp only [step] at hinv ⊢
    split at hinv
    · rename_i cursor hbridge
      exact hs.idle hinv (Nat.le_of_eq (cursor_running hbridge).symm) rfl
    · exact hs
  | crash => exact hs.idle hs.toInv.stop hs.saved rfl

/-- No step moves the checkpoint back. -/
theorem loadCursor_le_step (hinv : Inv s) (e : Event) :
    s.loadCursor ≤ (step toUppercase batchSize s e).loadCursor := by
  cases e with
  | insert tx change =>
    dsimp only [step]
    split
    · exact Nat.le_refl _
    · exact Nat.le_refl _
  | commit tx => exact Nat.le_refl _
  | abort tx | start =>
    dsimp only [step]
    split
    · exact Nat.le_refl _
    · exact Nat.le_refl _
  | fetch =>
    dsimp only [step]
    split
    · rename_i cursor hbridge
      rcases @fetch_cases batchSize s cursor with h | h | h
      all_goals exact Nat.le_of_eq (congrArg System.loadCursor h).symm
    · exact Nat.le_refl _
  | handle now fresh publication =>
    dsimp only [step]
    split
    · rename_i cursor entry rest hbridge
      rcases @handleEntry_cases toUppercase s cursor entry rest now fresh publication with
        ⟨-, h⟩ | ⟨event, -, -, ⟨-, h⟩ | ⟨-, h⟩ | ⟨-, h⟩⟩
      all_goals exact Nat.le_of_eq (congrArg System.loadCursor h).symm
    · exact Nat.le_refl _
  | mark now =>
    dsimp only [step]
    split
    · exact Nat.le_refl _
    · exact Nat.le_refl _
  | save | shutdown =>
    dsimp only [step]
    split
    · rename_i cursor hbridge
      have hcursor : s.cursor = cursor := cursor_running hbridge
      show s.loadCursor ≤ cursor
      exact hcursor ▸ hinv.saved
    · exact Nat.le_refl _
  | crash => exact Nat.le_refl _

theorem loadCursor_le_run (hinv : Inv s) (events : List Event) :
    s.loadCursor ≤ (run (step toUppercase batchSize) s events).loadCursor := by
  induction events generalizing s with
  | nil => exact Nat.le_refl _
  | cons e rest ih =>
    calc s.loadCursor
        _ ≤ (step toUppercase batchSize s e).loadCursor := loadCursor_le_step hinv e
        _ ≤ (run (step toUppercase batchSize) (step toUppercase batchSize s e) rest).loadCursor := ih (hinv.keep e)

end Delivery

/-- In every run in which transactions commit ahead of the bridge, what the cursor has reached is published; and
the checkpoint never goes back. -/
theorem no_entry_skipped (toUppercase : String → String) (batchSize : Nat) (events : List Event)
    (hahead : Along (step toUppercase batchSize) (CommitsAhead toUppercase) .initial events) :
    Delivered toUppercase (run (step toUppercase batchSize) .initial events) ∧
      ∀ earlier later, events = earlier ++ later →
        (run (step toUppercase batchSize) .initial earlier).loadCursor ≤
          (run (step toUppercase batchSize) .initial events).loadCursor := by
  constructor
  · have hkeep : ∀ s e, Lossless toUppercase s → CommitsAhead toUppercase s e →
        Lossless toUppercase (step toUppercase batchSize s e) := fun _ e hs => hs.keep e
    exact (hahead.invariant hkeep (lossless_initial toUppercase)).delivered
  · rintro earlier later rfl
    rw [run_append]
    apply loadCursor_le_run
    exact inv_run toUppercase batchSize earlier

/-- An inserted order. -/
def orderInserted : ChangeLogEntry := ⟨0, none, "Order", "o", "INSERT", none, none, none⟩

theorem commits_in_key_order_delivered :
    Delivered String.toUpper
      (run (step String.toUpper 100) .initial
        [.insert 1 orderInserted, .insert 2 orderInserted, .commit 1, .start, .fetch, .handle 0 "a" .acknowledged,
          .mark 0, .save, .commit 2, .fetch, .handle 0 "b" .acknowledged, .mark 0, .save]) :=
  (no_entry_skipped String.toUpper 100 _ (by decide +kernel)).1

/-- Two writers take the keys 1 and 2; the second commits, the bridge passes both keys, and the first commits. -/
theorem late_commit_skipped :
    ¬Delivered String.toUpper
      (run (step String.toUpper 100) .initial
        [.insert 1 orderInserted, .insert 2 orderInserted, .commit 2, .start, .fetch, .handle 0 "a" .acknowledged,
          .mark 0, .save, .commit 1]) := by
  decide +kernel

end FraiseQL.ChangeLogBridge
