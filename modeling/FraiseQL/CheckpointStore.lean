import FraiseQL.EventRun
import FraiseQL.Linearizability
import FraiseQL.ObserverError

/-! The checkpoint stores (`checkpoint/mod.rs`, `checkpoint/postgres.rs`). All calls here are about one listener
id, so the in-memory store is one entry and the table one row. The in-memory store takes a call in one step; the
PostgreSQL store runs it as one SQL statement, a `compare_and_swap` from 0 as up to two, and the statements of
several callers interleave. Times are nanoseconds from the epoch of PostgreSQL; a column keeps microseconds. The
constraints of the table are a parameter, for the table of the migration and that of the server's tests differ. -/

namespace FraiseQL.CheckpointStore

open EventRun Linearizability Function List

structure CheckpointState where
  listenerId : String
  lastProcessedId : Int
  lastProcessedAt : Int
  batchSize : Nat
  eventCount : Nat
  deriving DecidableEq

/-- The calls of the trait `CheckpointStore`. -/
inductive Call where
  | load
  | save (state : CheckpointState)
  | compareAndSwap (expectedId newId : Int)
  | delete

inductive Reply where
  | loaded (state : Option CheckpointState)
  | done
  | swapped (success : Bool)

abbrev Result := Except ObserverError Reply

/-- `InMemoryCheckpointStore`, one call on the entry of the listener. -/
def inMemory (listenerId : String) (now : Int) : Call → Option CheckpointState → Result × Option CheckpointState
  | .load, entry => (.ok (.loaded entry), entry)
  | .save state, _ => (.ok .done, some state)
  | .compareAndSwap expectedId newId, none =>
    if expectedId = 0 then (.ok (.swapped true), some ⟨listenerId, newId, now, 0, 0⟩)
    else (.ok (.swapped false), none)
  | .compareAndSwap expectedId newId, some entry =>
    if entry.lastProcessedId = expectedId then
      (.ok (.swapped true), some { entry with lastProcessedId := newId, lastProcessedAt := now })
    else (.ok (.swapped false), some entry)
  | .delete, _ => (.ok .done, none)

/-- The columns of `observer_checkpoints` that the store reads and writes. -/
structure Row where
  lastProcessedId : Int
  lastProcessedAt : Int
  batchSize : Int
  eventCount : Int

/-- `usize as i32`. -/
def asI32 (n : Nat) : Int := (BitVec.ofNat 32 n).toInt

/-- `i32 as usize`. -/
def asUsize (i : Int) : Nat := (BitVec.ofInt 64 i).toNat

/-- `NOW()` and every other time in a column of whole microseconds. -/
def toMicros (nanoseconds : Int) : Int := nanoseconds.tdiv 1000

/-- The values `save` binds. -/
def Row.ofState (state : CheckpointState) : Row :=
  ⟨state.lastProcessedId, toMicros state.lastProcessedAt, asI32 state.batchSize, asI32 state.eventCount⟩

/-- The state `load` builds. -/
def Row.toState (listenerId : String) (row : Row) : CheckpointState :=
  ⟨listenerId, row.lastProcessedId, row.lastProcessedAt * 1000, asUsize row.batchSize, asUsize row.eventCount⟩

/-- The values of the first checkpoint's `INSERT`. -/
def Row.first (newId now : Int) : Row := ⟨newId, toMicros now, 0, 0⟩

/-- A call in work: before its first statement, or before the `INSERT` of a `compare_and_swap` from 0 whose
`UPDATE` found nothing. -/
inductive Progress where
  | begun (call : Call)
  | inserting (newId : Int)

def Progress.call : Progress → Call
  | .begun call => call
  | .inserting newId => .compareAndSwap 0 newId

/-- What a statement leaves of its call: more to do, or the result. -/
inductive Outcome where
  | goesOn (progress : Progress)
  | returns (result : Result)

section Statements

variable (violation : Row → Option String) (listenerId : String)

/-- `INSERT … ON CONFLICT DO UPDATE` of `save`. -/
def upsert (table : Option Row) (state : CheckpointState) : Outcome × Option Row :=
  match violation (.ofState state) with
  | some message => (.returns (.error (.sqlxError message)), table)
  | none => (.returns (.ok .done), some (.ofState state))

/-- What follows an `UPDATE` of `compare_and_swap` that affects no row. -/
def missed (expectedId newId : Int) : Outcome :=
  if expectedId = 0 then .goesOn (.inserting newId) else .returns (.ok (.swapped false))

/-- `UPDATE` of `compare_and_swap`. -/
def updateId (table : Option Row) (expectedId newId : Int) : Outcome × Option Row :=
  match table with
  | none => (missed expectedId newId, none)
  | some row =>
    if row.lastProcessedId = expectedId then
      match violation { row with lastProcessedId := newId } with
      | some message => (.returns (.error (.sqlxError message)), some row)
      | none => (.returns (.ok (.swapped true)), some { row with lastProcessedId := newId })
    else (missed expectedId newId, some row)

/-- `INSERT … ON CONFLICT DO NOTHING` of `compare_and_swap`: the constraints are checked before the conflict. -/
def insertFirst (table : Option Row) (newId now : Int) : Outcome × Option Row :=
  match violation (.first newId now) with
  | some message => (.returns (.error (.sqlxError message)), table)
  | none =>
    match table with
    | none => (.returns (.ok (.swapped true)), some (.first newId now))
    | some row => (.returns (.ok (.swapped false)), some row)

/-- The next statement of a call of `PostgresCheckpointStore`. -/
def statement (table : Option Row) (now : Int) : Progress → Outcome × Option Row
  | .begun .load => (.returns (.ok (.loaded (table.map (Row.toState listenerId)))), table)
  | .begun (.save state) => upsert violation table state
  | .begun (.compareAndSwap expectedId newId) => updateId violation table expectedId newId
  | .begun .delete => (.returns (.ok .done), none)
  | .inserting newId => insertFirst violation table newId now

/-- Whether the row still says what the calls gave: not after a save of a state that the columns do not keep, and
not after a swap of an existing row, which leaves the time as it was. -/
def alteredBy (altered : Bool) : Progress → Result → Bool
  | .begun (.save state), .ok _ => (Row.ofState state).toState listenerId ≠ state
  | .begun (.compareAndSwap _ _), .ok (.swapped true) => true
  | .inserting _, .ok (.swapped true) => false
  | _, _ => altered

end Statements

/-- The table, the calls in work by number, and the history. -/
structure System where
  table : Option Row
  altered : Bool
  active : Nat → Option Progress
  invoked : Nat
  history : List (Action Call Result)

inductive Event where
  | invoke (call : Call)
  | statement (number : Nat) (now : Int)

def System.start : System := ⟨none, false, fun _ => none, 0, []⟩

section Store

variable (violation : Row → Option String) (listenerId : String)

def step (s : System) : Event → System
  | .invoke call =>
    { s with
      active := Function.update s.active s.invoked (some (.begun call))
      invoked := s.invoked + 1
      history := s.history ++ [.invoke s.invoked call] }
  | .statement number now =>
    match s.active number with
    | none => s
    | some progress =>
      match statement violation listenerId s.table now progress with
      | (.goesOn next, table) =>
        { s with table := table, active := Function.update s.active number (some next) }
      | (.returns result, table) =>
        { s with
          table := table
          altered := alteredBy listenerId s.altered progress result
          active := Function.update s.active number none
          history := s.history ++ [.respond number result] }

/-- No statement breaks a constraint, no load reads a row that does not say what the calls gave, and no `INSERT` of
a `compare_and_swap` from 0 finds a row with the id 0. -/
def Admissible (s : System) : Event → Prop
  | .invoke _ => True
  | .statement number now => ∀ progress, s.active number = some progress →
      match progress with
      | .begun .load => s.table.isSome = true → s.altered = false
      | .begun (.save state) => violation (.ofState state) = none
      | .begun (.compareAndSwap expectedId newId) => ∀ row, s.table = some row →
          row.lastProcessedId = expectedId → violation { row with lastProcessedId := newId } = none
      | .begun .delete => True
      | .inserting newId =>
        violation (.first newId now) = none ∧ ∀ row, s.table = some row → row.lastProcessedId ≠ 0

end Store

/-! ### The table and the entry -/

/-- The table holds the entry's id, and the whole entry unless it was altered. -/
structure Represents (listenerId : String) (table : Option Row) (altered : Bool) (entry : Option CheckpointState) :
    Prop where
  ids : entry.map (·.lastProcessedId) = table.map (·.lastProcessedId)
  same : altered = false → entry = table.map (Row.toState listenerId)

section Simulation

variable {violation : Row → Option String} {listenerId : String} {table : Option Row} {altered : Bool}
  {entry : Option CheckpointState}

theorem Represents.none_iff (h : Represents listenerId table altered entry) : entry = none ↔ table = none := by
  rw [← Option.map_eq_none_iff (f := (·.lastProcessedId)), h.ids, Option.map_eq_none_iff]

/-- The row of an entry. -/
theorem Represents.row {state : CheckpointState} (h : Represents listenerId table altered (some state)) :
    ∃ row, table = some row ∧ state.lastProcessedId = row.lastProcessedId := by
  have hids := h.ids
  cases table with
  | none => cases hids
  | some row => exact ⟨row, rfl, Option.some.inj hids⟩

/-- The reading of the clock that a statement at the given time stands for. -/
def reading (now : Int) : Int := toMicros now * 1000

/-- A statement that returns does on the table what the call does in memory. -/
def Matches (listenerId : String) (table : Option Row) (altered : Bool) (now : Int) (progress : Progress) :
    Outcome × Option Row → Prop
  | (.goesOn next, table') => table' = table ∧ next.call = progress.call
  | (.returns result, table') => ∀ entry, Represents listenerId table altered entry →
      (inMemory listenerId (reading now) progress.call entry).1 = result ∧
        Represents listenerId table' (alteredBy listenerId altered progress result)
          (inMemory listenerId (reading now) progress.call entry).2

variable {newId now : Int}

theorem matches_missed {expectedId : Int} (hdiffers : ∀ row, table = some row → row.lastProcessedId ≠ expectedId) :
    Matches listenerId table altered now (.begun (.compareAndSwap expectedId newId))
      (missed expectedId newId, table) := by
  unfold missed
  by_cases hzero : expectedId = 0
  · rw [if_pos hzero]
    exact ⟨rfl, by rw [hzero]; rfl⟩
  · rw [if_neg hzero]
    intro entry hrep
    cases entry with
    | none =>
      simp only [Progress.call, inMemory, if_neg hzero]
      exact ⟨trivial, hrep⟩
    | some state =>
      obtain ⟨row, htable, hid⟩ := hrep.row
      have hne : state.lastProcessedId ≠ expectedId := hid ▸ hdiffers row htable
      simp only [Progress.call, inMemory, if_neg hne]
      exact ⟨trivial, hrep⟩

theorem matches_updateId {expectedId : Int} (hadmissible : ∀ row, table = some row → row.lastProcessedId = expectedId →
      violation { row with lastProcessedId := newId } = none) :
    Matches listenerId table altered now (.begun (.compareAndSwap expectedId newId))
      (updateId violation table expectedId newId) := by
  unfold updateId
  cases table with
  | none => exact matches_missed nofun
  | some row =>
    dsimp only
    by_cases hid : row.lastProcessedId = expectedId
    · rw [if_pos hid, hadmissible row rfl hid]
      intro entry hrep
      cases entry with
      | none => cases hrep.none_iff.mp rfl
      | some state =>
        obtain ⟨_, heq, hstate⟩ := hrep.row
        cases heq
        have heq : state.lastProcessedId = expectedId := hstate.trans hid
        simp only [Progress.call, inMemory, if_pos heq]
        exact ⟨trivial, rfl, nofun⟩
    · rw [if_neg hid]
      apply matches_missed
      rintro _ ⟨⟩
      exact hid

theorem matches_insertFirst (hallowed : violation (.first newId now) = none)
    (hdiffers : ∀ row, table = some row → row.lastProcessedId ≠ 0) :
    Matches listenerId table altered now (.inserting newId) (insertFirst violation table newId now) := by
  unfold insertFirst
  rw [hallowed]
  cases table with
  | none =>
    intro entry hrep
    rw [hrep.none_iff.mpr rfl]
    exact ⟨rfl, rfl, fun _ => rfl⟩
  | some row =>
    intro entry hrep
    cases entry with
    | none => cases hrep.none_iff.mp rfl
    | some state =>
      obtain ⟨_, heq, hstate⟩ := hrep.row
      cases heq
      have hne : state.lastProcessedId ≠ 0 := hstate ▸ hdiffers row rfl
      simp only [Progress.call, inMemory, if_neg hne]
      exact ⟨trivial, hrep⟩

variable {number : Nat} {progress : Progress}

theorem matches_statement {s : System}
    (hactive : s.active number = some progress) (hadmissible : Admissible violation s (.statement number now)) :
    Matches listenerId s.table s.altered now progress (statement violation listenerId s.table now progress) := by
  have hallowed := hadmissible progress hactive
  cases progress with
  | inserting newId => exact matches_insertFirst hallowed.1 hallowed.2
  | begun call =>
    cases call with
    | load =>
      intro entry hrep
      refine ⟨?_, hrep⟩
      show Except.ok (Reply.loaded entry) = Except.ok (Reply.loaded (s.table.map (Row.toState listenerId)))
      cases htable : s.table with
      | none => rw [hrep.none_iff.mpr htable]; rfl
      | some row =>
        have hsame := hallowed (by rw [htable]; rfl)
        rw [hrep.same hsame, htable]
    | save state =>
      have hnone : violation (.ofState state) = none := hallowed
      dsimp only [statement, upsert]
      rw [hnone]
      intro entry hrep
      refine ⟨rfl, rfl, ?_⟩
      intro hkept
      have heq : (Row.ofState state).toState listenerId = state := by
        simpa [alteredBy] using hkept
      show some state = some ((Row.ofState state).toState listenerId)
      rw [heq]
    | compareAndSwap expectedId newId => exact matches_updateId hallowed
    | delete =>
      intro entry hrep
      exact ⟨rfl, rfl, fun _ => rfl⟩

/-- Some order of the calls that have responded explains the history, and leads the in-memory store to an entry
that the table represents. -/
structure Sim (listenerId : String) (s : System) : Prop where
  linearized : ∃ turns, Linearization s.history turns ∧ Explains (inMemory listenerId) none turns ∧
    Represents listenerId s.table s.altered (after (inMemory listenerId) none turns) ∧
    ∀ turn ∈ turns, turn.number < s.invoked ∧ s.active turn.number = none
  active : ∀ number progress, s.active number = some progress →
    number < s.invoked ∧ .invoke number progress.call ∈ s.history

theorem sim_start (listenerId : String) : Sim listenerId .start where
  linearized := ⟨[], linearization_nil, trivial, ⟨rfl, fun _ => rfl⟩, nofun⟩
  active := nofun

variable {s : System}

theorem Sim.invoke (hsim : Sim listenerId s) (call : Call) :
    Sim listenerId
      { s with
        active := Function.update s.active s.invoked (some (.begun call))
        invoked := s.invoked + 1
        history := s.history ++ [.invoke s.invoked call] } where
  linearized := by
    obtain ⟨turns, hlinear, hexplains, hrep, hpast⟩ := hsim.linearized
    have hfresh : ∀ turn ∈ turns, turn.number ≠ s.invoked := fun turn hturn => Nat.ne_of_lt (hpast turn hturn).1
    refine ⟨turns, hlinear.invoke call hfresh, hexplains, hrep, ?_⟩
    intro turn hturn
    refine ⟨Nat.lt_succ_of_lt (hpast turn hturn).1, ?_⟩
    show Function.update s.active s.invoked _ turn.number = none
    rw [update_of_ne (hfresh turn hturn)]
    exact (hpast turn hturn).2
  active := by
    intro number progress hactive
    change Function.update s.active s.invoked (some (.begun call)) number = some progress at hactive
    by_cases hnew : number = s.invoked
    · rw [hnew, update_self] at hactive
      cases hactive
      rw [hnew]
      exact ⟨Nat.lt_succ_self _, mem_append_right _ mem_cons_self⟩
    · rw [update_of_ne hnew] at hactive
      obtain ⟨hlt, hinvoked⟩ := hsim.active number progress hactive
      exact ⟨Nat.lt_succ_of_lt hlt, mem_append_left _ hinvoked⟩

section

variable (hactive : s.active number = some progress)
include hactive

/-- A call goes on to its second statement. -/
theorem Sim.goesOn (hsim : Sim listenerId s) {next : Progress} (hcall : next.call = progress.call) :
    Sim listenerId { s with active := Function.update s.active number (some next) } where
  linearized := by
    obtain ⟨turns, hlinear, hexplains, hrep, hpast⟩ := hsim.linearized
    refine ⟨turns, hlinear, hexplains, hrep, ?_⟩
    intro turn hturn
    refine ⟨(hpast turn hturn).1, ?_⟩
    have hne : turn.number ≠ number := by
      rintro rfl
      rw [(hpast turn hturn).2] at hactive
      cases hactive
    show Function.update s.active number _ turn.number = none
    rw [update_of_ne hne]
    exact (hpast turn hturn).2
  active := by
    intro other progress' hother
    change Function.update s.active number (some next) other = some progress' at hother
    by_cases hsame : other = number
    · rw [hsame, update_self] at hother
      cases hother
      rw [hsame, hcall]
      exact hsim.active number progress hactive
    · rw [update_of_ne hsame] at hother
      exact hsim.active other progress' hother

/-- A call responds with the reply of the in-memory store. -/
theorem Sim.returns (hsim : Sim listenerId s) {result : Result}
    {table : Option Row} {altered : Bool} (hmatches : ∀ entry, Represents listenerId s.table s.altered entry →
      (inMemory listenerId (reading now) progress.call entry).1 = result ∧
        Represents listenerId table altered (inMemory listenerId (reading now) progress.call entry).2) :
    Sim listenerId
      { s with
        table := table
        altered := altered
        active := Function.update s.active number none
        history := s.history ++ [.respond number result] } where
  linearized := by
    obtain ⟨turns, hlinear, hexplains, hrep, hpast⟩ := hsim.linearized
    obtain ⟨hlt, hinvoked⟩ := hsim.active number progress hactive
    obtain ⟨hreply, hrep'⟩ := hmatches _ hrep
    have hfresh : ∀ turn ∈ turns, turn.number ≠ number := by
      rintro turn hturn rfl
      rw [(hpast turn hturn).2] at hactive
      cases hactive
    refine ⟨turns ++ [⟨number, progress.call, reading now, result⟩], ?_, ?_, ?_, ?_⟩
    · exact hlinear.respond ⟨number, progress.call, reading now, result⟩ hinvoked hfresh
    · exact explains_append hexplains hreply
    · rw [after_append]
      exact hrep'
    · intro turn hturn
      rcases mem_append.mp hturn with hold | hnew
      · refine ⟨(hpast turn hold).1, ?_⟩
        show Function.update s.active number none turn.number = none
        rw [update_of_ne (hfresh turn hold)]
        exact (hpast turn hold).2
      · rw [mem_singleton.mp hnew]
        exact ⟨hlt, update_self number none s.active⟩
  active := by
    intro other progress' hother
    change Function.update s.active number none other = some progress' at hother
    by_cases hsame : other = number
    · rw [hsame, update_self] at hother
      cases hother
    · rw [update_of_ne hsame] at hother
      obtain ⟨hlt, hinvoked⟩ := hsim.active other progress' hother
      exact ⟨hlt, mem_append_left _ hinvoked⟩

theorem step_goesOn {next : Progress} {table : Option Row}
    (hstatement : statement violation listenerId s.table now progress = (.goesOn next, table)) :
    step violation listenerId s (.statement number now) =
      { s with table := table, active := Function.update s.active number (some next) } := by
  dsimp only [step]
  rw [hactive]
  dsimp only
  rw [hstatement]

theorem step_returns {result : Result} {table : Option Row}
    (hstatement : statement violation listenerId s.table now progress = (.returns result, table)) :
    step violation listenerId s (.statement number now) =
      { s with
        table := table
        altered := alteredBy listenerId s.altered progress result
        active := Function.update s.active number none
        history := s.history ++ [.respond number result] } := by
  dsimp only [step]
  rw [hactive]
  dsimp only
  rw [hstatement]

end

theorem step_idle (hactive : s.active number = none) : step violation listenerId s (.statement number now) = s := by
  dsimp only [step]
  rw [hactive]

theorem Sim.keep (hsim : Sim listenerId s) (e : Event) (hadmissible : Admissible violation s e) :
    Sim listenerId (step violation listenerId s e) := by
  cases e with
  | invoke call => exact hsim.invoke call
  | statement number now =>
    cases hactive : s.active number with
    | none =>
      rw [step_idle hactive]
      exact hsim
    | some progress =>
      have hmatches : Matches listenerId s.table s.altered now progress _ := matches_statement hactive hadmissible
      rcases hstatement : statement violation listenerId s.table now progress with ⟨next | result, table⟩
      · rw [hstatement] at hmatches
        obtain ⟨rfl, hcall⟩ := hmatches
        rw [step_goesOn hactive hstatement]
        exact hsim.goesOn hactive hcall
      · rw [hstatement] at hmatches
        rw [step_returns hactive hstatement]
        exact hsim.returns hactive hmatches

end Simulation

end FraiseQL.CheckpointStore
