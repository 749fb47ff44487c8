import FraiseQL.CheckpointStore

/-! Callers that compete for the checkpoint. While nothing but swaps from one expected id runs, the id is the
expected one until a swap succeeds and another one from then on, so exactly one succeeds. -/

namespace FraiseQL.CheckpointStore

open EventRun Linearizability Function List Nat

/-- The id a `compare_and_swap` has to expect. -/
def Expects (table : Option Row) (expectedId : Int) : Prop :=
  table.elim (expectedId = 0) (·.lastProcessedId = expectedId)

/-- No call is in work. -/
def System.Quiet (s : System) : Prop := ∀ number, s.active number = none

/-- A new call is a swap from the expected id to another one. -/
def SwapsFrom (expectedId : Int) : Event → Prop
  | .invoke (.compareAndSwap expected newId) => expected = expectedId ∧ newId ≠ expectedId
  | .invoke _ => False
  | .statement _ _ => True

def Succeeds (s : System) (number : Nat) : Prop := .respond number (.ok (.swapped true)) ∈ s.history

/-- Exactly one of the calls from the given number on has succeeded. -/
def OneWinner (s : System) (since : Nat) : Prop := ∃! number, since ≤ number ∧ Succeeds s number

/-- Before a swap has succeeded: the id is the expected one, and every call since the start is in work. -/
structure Undecided (expectedId : Int) (since : Nat) (s : System) : Prop where
  expects : Expects s.table expectedId
  noWinner : ∀ number, since ≤ number → ¬Succeeds s number
  inWork : ∀ number, since ≤ number → number < s.invoked → s.active number ≠ none

/-- After a swap has succeeded. -/
structure Decided (expectedId : Int) (since : Nat) (s : System) : Prop where
  swapped : ∃ row, s.table = some row ∧ row.lastProcessedId ≠ expectedId
  winner : OneWinner s since

structure Contest (expectedId : Int) (since : Nat) (s : System) : Prop where
  swaps : ∀ number progress, s.active number = some progress →
    since ≤ number ∧ ∃ newId, newId ≠ expectedId ∧ progress.call = .compareAndSwap expectedId newId
  started : since ≤ s.invoked
  state : Undecided expectedId since s ∨ Decided expectedId since s

section Contest

variable {violation : Row → Option String} {listenerId : String} {expectedId : Int} {since : Nat} {s : System}

section

variable (h : Contest expectedId since s)
include h

theorem Contest.invoke {newId : Int} (hnew : newId ≠ expectedId) : Contest expectedId since
      { s with
        active := Function.update s.active s.invoked (some (.begun (.compareAndSwap expectedId newId)))
        invoked := s.invoked + 1
        history := s.history ++ [.invoke s.invoked (.compareAndSwap expectedId newId)] } := by
  have hsucceeds : ∀ number, Succeeds
      { s with
        active := Function.update s.active s.invoked (some (.begun (.compareAndSwap expectedId newId)))
        invoked := s.invoked + 1
        history := s.history ++ [.invoke s.invoked (.compareAndSwap expectedId newId)] } number ↔
      Succeeds s number := by
    intro number
    simp [Succeeds]
  refine ⟨?_, le_succ_of_le h.started, ?_⟩
  · intro number progress hactive
    change Function.update s.active s.invoked _ number = some progress at hactive
    by_cases hnumber : number = s.invoked
    · rw [hnumber, update_self] at hactive
      cases hactive
      rw [hnumber]
      exact ⟨h.started, newId, hnew, rfl⟩
    · rw [update_of_ne hnumber] at hactive
      exact h.swaps number progress hactive
  · rcases h.state with hopen | hdone
    · refine .inl ⟨hopen.expects, ?_, ?_⟩
      · intro number hnumber
        rw [hsucceeds]
        exact hopen.noWinner number hnumber
      · intro number hsince hlt
        show Function.update s.active s.invoked _ number ≠ none
        by_cases hnumber : number = s.invoked
        · rw [hnumber, update_self]
          exact nofun
        · rw [update_of_ne hnumber]
          have hold : number < s.invoked := Nat.lt_of_le_of_ne (Nat.lt_succ_iff.mp hlt) hnumber
          exact hopen.inWork number hsince hold
    · refine .inr ⟨hdone.swapped, ?_⟩
      simpa only [OneWinner, hsucceeds] using hdone.winner

/-- A call goes on to its second statement, and the table is as before. -/
theorem Contest.goesOn {number : Nat} {progress next : Progress}
    (hactive : s.active number = some progress) (hcall : next.call = progress.call) :
    Contest expectedId since { s with active := Function.update s.active number (some next) } := by
  refine ⟨?_, h.started, ?_⟩
  · intro other progress' hother
    change Function.update s.active number (some next) other = some progress' at hother
    by_cases hsame : other = number
    · rw [hsame, update_self] at hother
      cases hother
      rw [hsame, hcall]
      exact h.swaps number progress hactive
    · rw [update_of_ne hsame] at hother
      exact h.swaps other progress' hother
  · rcases h.state with hopen | hdone
    · refine .inl ⟨hopen.expects, hopen.noWinner, ?_⟩
      intro other hsince hlt
      show Function.update s.active number (some next) other ≠ none
      by_cases hsame : other = number
      · rw [hsame, update_self]
        exact nofun
      · rw [update_of_ne hsame]
        exact hopen.inWork other hsince hlt
    · exact .inr ⟨hdone.swapped, hdone.winner⟩

theorem swaps_of_returns {number other : Nat} {progress : Progress}
    (hother : Function.update s.active number none other = some progress) :
    since ≤ other ∧ ∃ newId, newId ≠ expectedId ∧ progress.call = .compareAndSwap expectedId newId := by
  by_cases hsame : other = number
  · rw [hsame, update_self] at hother
    cases hother
  · rw [update_of_ne hsame] at hother
    exact h.swaps other progress hother

/-- The first success decides the contest. -/
theorem Contest.wins (hopen : Undecided expectedId since s) {number : Nat}
    {altered : Bool} {row : Row} (hsince : since ≤ number) (hrow : row.lastProcessedId ≠ expectedId) :
    Contest expectedId since
      { s with
        table := some row
        altered := altered
        active := Function.update s.active number none
        history := s.history ++ [.respond number (.ok (.swapped true))] } := by
  refine ⟨fun _ _ hother => swaps_of_returns h hother, h.started, .inr ⟨⟨row, rfl, hrow⟩, number, ?_, ?_⟩⟩
  · exact ⟨hsince, mem_append_right _ mem_cons_self⟩
  · rintro other ⟨hother, hmem⟩
    rcases mem_append.mp hmem with hold | hnew
    · exact absurd hold (hopen.noWinner other hother)
    · cases mem_singleton.mp hnew
      rfl

/-- A swap that fails after the decision changes nothing. -/
theorem Contest.loses (hdone : Decided expectedId since s) (number : Nat) (altered : Bool) :
    Contest expectedId since
      { s with
        altered := altered
        active := Function.update s.active number none
        history := s.history ++ [.respond number (.ok (.swapped false))] } := by
  refine ⟨fun _ _ hother => swaps_of_returns h hother, h.started, .inr ⟨hdone.swapped, ?_⟩⟩
  have hsucceeds : ∀ other, Succeeds
      { s with
        altered := altered
        active := Function.update s.active number none
        history := s.history ++ [.respond number (.ok (.swapped false))] } other ↔ Succeeds s other := by
    intro other
    simp [Succeeds]
  simpa only [OneWinner, hsucceeds] using hdone.winner

end

/-- What a statement of the contest does: the `UPDATE` misses and the call goes on, the swap succeeds on the
expected id, or it fails on another one. -/
theorem statement_swap {number : Nat} {now newId : Int} {progress : Progress}
    (hactive : s.active number = some progress) (hadmissible : Admissible violation s (.statement number now))
    (hcall : progress.call = .compareAndSwap expectedId newId) :
    (∃ next, next.call = progress.call ∧
      statement violation listenerId s.table now progress = (.goesOn next, s.table)) ∨
    (Expects s.table expectedId ∧ ∃ row, row.lastProcessedId = newId ∧
      statement violation listenerId s.table now progress = (.returns (.ok (.swapped true)), some row)) ∨
    (¬Expects s.table expectedId ∧
      statement violation listenerId s.table now progress = (.returns (.ok (.swapped false)), s.table)) := by
  have hallowed := hadmissible progress hactive
  cases progress with
  | inserting newId' =>
    cases hcall
    obtain ⟨hnone, hdiffers⟩ := hallowed
    dsimp only [statement, insertFirst]
    rw [hnone]
    cases htable : s.table with
    | none => exact .inr (.inl ⟨rfl, .first newId now, rfl, rfl⟩)
    | some row => exact .inr (.inr ⟨hdiffers row htable, rfl⟩)
  | begun call =>
    change call = .compareAndSwap expectedId newId at hcall
    rw [hcall] at hallowed ⊢
    have hmissed : ¬Expects s.table expectedId ∨ s.table = none →
        (∃ next, next.call = Progress.call (.begun (.compareAndSwap expectedId newId)) ∧
          (missed expectedId newId, s.table) = (.goesOn next, s.table)) ∨
        (¬Expects s.table expectedId ∧
          (missed expectedId newId, s.table) = (.returns (.ok (.swapped false)), s.table)) := by
      intro hmiss
      unfold missed
      by_cases hzero : expectedId = 0
      · rw [if_pos hzero, hzero]
        exact .inl ⟨.inserting newId, rfl, rfl⟩
      · rw [if_neg hzero]
        refine .inr ⟨?_, rfl⟩
        rcases hmiss with hne | hnone
        · exact hne
        · rw [hnone]
          exact hzero
    dsimp only [statement, updateId]
    cases htable : s.table with
    | none =>
      rw [htable] at hmissed
      rcases hmissed (.inr rfl) with h | h
      · exact .inl h
      · exact .inr (.inr h)
    | some row =>
      dsimp only
      by_cases hid : row.lastProcessedId = expectedId
      · rw [if_pos hid, hallowed row htable hid]
        exact .inr (.inl ⟨hid, _, rfl, rfl⟩)
      · rw [if_neg hid]
        rw [htable] at hmissed
        rcases hmissed (.inl hid) with h | h
        · exact .inl h
        · exact .inr (.inr h)

theorem Contest.keep (h : Contest expectedId since s) (e : Event) (hadmissible : Admissible violation s e)
    (hswaps : SwapsFrom expectedId e) : Contest expectedId since (step violation listenerId s e) := by
  cases e with
  | invoke call =>
    cases call with
    | compareAndSwap expected newId =>
      obtain ⟨rfl, hnew⟩ := hswaps
      exact h.invoke hnew
    | load => cases hswaps
    | save state => cases hswaps
    | delete => cases hswaps
  | statement number now =>
    cases hactive : s.active number with
    | none =>
      rw [step_idle hactive]
      exact h
    | some progress =>
      obtain ⟨hsince, newId, hnew, hcall⟩ := h.swaps number progress hactive
      rcases @statement_swap violation listenerId expectedId s number now newId progress hactive hadmissible
        hcall with ⟨next, hnext, hstatement⟩ | ⟨hexpects, row, hrow, hstatement⟩ | ⟨hdiffers, hstatement⟩
      · rw [step_goesOn hactive hstatement]
        exact h.goesOn hactive hnext
      · rw [step_returns hactive hstatement]
        rcases h.state with hopen | hdone
        · exact h.wins hopen hsince (hrow ▸ hnew)
        · obtain ⟨current, htable, hne⟩ := hdone.swapped
          rw [htable] at hexpects
          exact absurd hexpects hne
      · rw [step_returns hactive hstatement]
        rcases h.state with hopen | hdone
        · exact absurd hopen.expects hdiffers
        · exact h.loses hdone number _

theorem Contest.keep_run {events : List Event} (h : Contest expectedId since s)
    (hadmissible : Along (step violation listenerId) (Admissible violation) s events)
    (hswaps : ∀ e ∈ events, SwapsFrom expectedId e) :
    Contest expectedId since (run (step violation listenerId) s events) := by
  induction events generalizing s with
  | nil => exact h
  | cons e rest ih =>
    obtain ⟨hfirst, hrest⟩ := hadmissible
    rw [forall_mem_cons] at hswaps
    apply ih (h.keep e hfirst hswaps.1) hrest hswaps.2

theorem invoked_le_step (e : Event) : s.invoked ≤ (step violation listenerId s e).invoked := by
  cases e with
  | invoke call => exact le_succ _
  | statement number now =>
    dsimp only [step]
    split
    · exact le_refl _
    · split
      · exact le_refl _
      · exact le_refl _

theorem invoked_le_run (events : List Event) : s.invoked ≤ (run (step violation listenerId) s events).invoked := by
  induction events generalizing s with
  | nil => exact le_refl _
  | cons e rest ih => exact le_trans (invoked_le_step e) ih

theorem invoked_lt_run {call : Call} {events : List Event} (hmem : .invoke call ∈ events) :
    s.invoked < (run (step violation listenerId) s events).invoked := by
  induction events generalizing s with
  | nil => cases hmem
  | cons e rest ih =>
    rcases mem_cons.mp hmem with rfl | hrest
    · apply lt_of_succ_le
      show (step violation listenerId s (.invoke call)).invoked ≤ _
      exact invoked_le_run rest
    · exact lt_of_le_of_lt (invoked_le_step e) (ih hrest)

/-- Once all swaps have responded, one of them has succeeded. -/
theorem Contest.oneWinner (h : Contest expectedId since s) (hquiet : s.Quiet) (hsome : since < s.invoked) :
    OneWinner s since := by
  rcases h.state with hopen | hdone
  · exact absurd (hquiet since) (hopen.inWork since (le_refl _) hsome)
  · exact hdone.winner

theorem contest_opens (hsim : Sim listenerId s) (hquiet : s.Quiet) (hexpects : Expects s.table expectedId) :
    Contest expectedId s.invoked s := by
  refine ⟨?_, le_refl _, .inl ⟨hexpects, ?_, ?_⟩⟩
  · intro number progress hactive
    rw [hquiet number] at hactive
    cases hactive
  · intro number hnumber hmem
    obtain ⟨turns, hlinear, -, -, hpast⟩ := hsim.linearized
    obtain ⟨turn, hturn, rfl, -⟩ := hlinear.responded number _ hmem
    exact absurd (hpast turn hturn).1 (Nat.not_lt_of_le hnumber)
  · intro number hnumber hlt
    exact absurd hlt (Nat.not_lt_of_le hnumber)

end Contest

/-- In every run of admissible statements the calls are linearizable on the in-memory store; and of any swaps from
the stored id that run among themselves exactly one succeeds. -/
theorem postgres_calls_linearizable (violation : Row → Option String) (listenerId : String) (events : List Event)
    (hadmissible : Along (step violation listenerId) (Admissible violation) .start events) :
    Linearizable (inMemory listenerId) none (run (step violation listenerId) .start events).history ∧
      ∀ before swaps expectedId newId, events = before ++ swaps →
        (run (step violation listenerId) .start before).Quiet →
        Expects (run (step violation listenerId) .start before).table expectedId →
        (∀ e ∈ swaps, SwapsFrom expectedId e) → .invoke (.compareAndSwap expectedId newId) ∈ swaps →
        (run (step violation listenerId) .start events).Quiet →
          OneWinner (run (step violation listenerId) .start events)
            (run (step violation listenerId) .start before).invoked := by
  have hkeep : ∀ s e, Sim listenerId s → Admissible violation s e → Sim listenerId (step violation listenerId s e) :=
    fun _ e hsim => hsim.keep e
  constructor
  · have hsim := hadmissible.invariant hkeep (sim_start listenerId)
    obtain ⟨turns, hlinear, hexplains, -⟩ := hsim.linearized
    exact ⟨turns, hlinear, hexplains⟩
  · rintro before swaps expectedId newId rfl hquiet hexpects hswaps hsome hdone
    obtain ⟨hbefore, hduring⟩ := (along_append before swaps).mp hadmissible
    have hsim := hbefore.invariant hkeep (sim_start listenerId)
    rw [run_append] at hdone ⊢
    have hcontest := (contest_opens hsim hquiet hexpects).keep_run hduring hswaps
    exact hcontest.oneWinner hdone (invoked_lt_run hsome)

/-- The constraints of the migration, in the order PostgreSQL checks them. -/
def shippedViolation (row : Row) : Option String :=
  if ¬(0 < row.batchSize ∧ row.batchSize ≤ 10000) then
    some ("error returned from database: new row for relation \"observer_checkpoints\" violates check constraint " ++
      "\"valid_batch\"")
  else if row.lastProcessedId < 0 then
    some ("error returned from database: new row for relation \"observer_checkpoints\" violates check constraint " ++
      "\"valid_ids\"")
  else none

/-- Two callers swap a saved checkpoint at once. -/
theorem saved_checkpoint_swapped_once :
    OneWinner
      (run (step shippedViolation "l") .start
        [.invoke (.save ⟨"l", 1, 0, 10, 10⟩), .statement 0 0, .invoke (.compareAndSwap 1 2),
          .invoke (.compareAndSwap 1 3), .statement 2 5, .statement 1 7]) 1 := by
  refine (postgres_calls_linearizable shippedViolation "l" _ ?_).2
    [.invoke (.save ⟨"l", 1, 0, 10, 10⟩), .statement 0 0] _ 1 2 rfl ?_ rfl ?_ mem_cons_self ?_
  · refine ⟨trivial, ?_, trivial, trivial, ?_, ?_, trivial⟩
    · intro progress hactive
      cases hactive
      rfl
    · intro progress hactive
      cases hactive
      rintro row ⟨⟩ -
      rfl
    · intro progress hactive
      cases hactive
      rintro row ⟨⟩ hid
      exact absurd hid (by decide)
  · intro number
    cases number with
    | zero => rfl
    | succ n => rfl
  · simp only [forall_mem_cons]
    exact ⟨⟨rfl, by decide⟩, ⟨rfl, by decide⟩, trivial, trivial, nofun⟩
  · intro number
    match number with
    | 0 => rfl
    | 1 => rfl
    | 2 => rfl
    | n + 3 => rfl

theorem inMemory_ok (listenerId : String) (now : Int) (call : Call) (entry : Option CheckpointState) :
    ∃ reply, (inMemory listenerId now call entry).1 = .ok reply := by
  cases call with
  | load => exact ⟨_, rfl⟩
  | save state => exact ⟨_, rfl⟩
  | delete => exact ⟨_, rfl⟩
  | compareAndSwap expectedId newId =>
    cases entry with
    | none | some state =>
      dsimp only [inMemory]
      split
      · exact ⟨_, rfl⟩
      · exact ⟨_, rfl⟩

/-- The in-memory store returns no errors. -/
theorem explains_ok {listenerId : String} {entry : Option CheckpointState} {turns : List (Turn Int Call Result)}
    (hexplains : Explains (inMemory listenerId) entry turns) : ∀ turn ∈ turns, ∃ reply, turn.reply = .ok reply := by
  induction turns generalizing entry with
  | nil => nofun
  | cons first rest ih =>
    obtain ⟨hfirst, hrest⟩ := hexplains
    obtain ⟨reply, hreply⟩ := inMemory_ok listenerId first.reading first.call entry
    rw [forall_mem_cons]
    exact ⟨⟨reply, hfirst.symm.trans hreply⟩, ih hrest⟩

/-- The first checkpoint's `INSERT` has the batch size 0, which the shipped table refuses. -/
theorem first_swap_refused :
    ¬Linearizable (inMemory "l") none
      (run (step shippedViolation "l") .start
        [.invoke (.compareAndSwap 0 100), .statement 0 0, .statement 0 0]).history := by
  rintro ⟨turns, hlinear, hexplains⟩
  obtain ⟨message, hmessage⟩ : ∃ message, shippedViolation (.first 100 0) = some message := ⟨_, rfl⟩
  have hresponse : .respond 0 (.error (.sqlxError message)) ∈ (run (step shippedViolation "l") .start
      [.invoke (.compareAndSwap 0 100), .statement 0 0, .statement 0 0]).history := by
    cases hmessage
    exact mem_cons_of_mem _ mem_cons_self
  obtain ⟨turn, hturn, -, hreply⟩ := hlinear.responded 0 _ hresponse
  obtain ⟨reply, hok⟩ := explains_ok hexplains turn hturn
  rw [hreply] at hok
  cases hok

end FraiseQL.CheckpointStore
