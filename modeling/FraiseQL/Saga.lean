import FraiseQL.EventRun
import FraiseQL.Projection
import Mathlib.Data.List.Sort

/-! Sagas of the federation layer (`saga_executor`, `saga_compensator.rs`, `saga_recovery_manager.rs`,
`saga_store.rs`). One saga is stored with its steps; any number of instances execute it, compensate it and recover
it, each call of the store being one event that others can fall between, that can fail with or without effect, and
after which the instance can crash. State is written by unconditional updates. -/

namespace FraiseQL.Saga

/-! ### The store -/

inductive SagaState where
  | pending | executing | completed | failed | compensating | compensated
  deriving DecidableEq

inductive StepState where
  | pending | executing | completed | failed
  deriving DecidableEq

inductive MutationType where
  | create | update | delete

def MutationType.asStr : MutationType → String
  | .create => "create"
  | .update => "update"
  | .delete => "delete"

structure SagaStep where
  id : Nat
  order : Nat
  mutationType : MutationType
  typename : String
  variableValues : Json
  state : StepState
  result : Option Json

/-- What a compensation was computed from, and the variables it computed. -/
structure Compensation where
  step : Nat
  source : Json
  compensationVariables : Json

/-! ### Drivers -/

/-- The next call of a driver. -/
inductive Phase where
  | executeLoad
  | executeBegin
  | executeSteps
  | stepSaga (current : SagaStep) (rest : List SagaStep)
  | stepLoad (current : SagaStep) (rest : List SagaStep)
  | stepBegin (current found : SagaStep) (rest : List SagaStep)
  | stepResult (step : Nat) (data : Json) (rest : List SagaStep)
  | stepFinish (step : Nat) (rest : List SagaStep)
  | executeFail
  | executeFinish
  | compensateLoad
  | compensateBegin
  | compensateSteps
  | undoLoad (current : SagaStep) (rest : List SagaStep) (failed : Bool)
  | undoResult (step : Nat) (data : Json) (rest : List SagaStep) (failed : Bool)
  | compensateFinish (failed : Bool)
  | recoverPending
  | recoverTransition
  | recoverExecuting
  | recoverCleanup
  | ended

inductive Driver where
  | execute | compensate | recover

def Driver.first : Driver → Phase
  | .execute => .executeLoad
  | .compensate => .compensateLoad
  | .recover => .recoverPending

/-- How a call of the store ends; one that fails may still have had its effect. -/
inductive Reply where
  | ok
  | lost (applied : Bool)

def Reply.isOk : Reply → Bool
  | .ok => true
  | .lost _ => false

def Reply.isApplied : Reply → Bool
  | .ok => true
  | .lost applied => applied

/-- The stored saga with its steps, whether it is old enough to be cleaned up, the drivers, and what happened: the
steps whose mutation ran, with their results, the compensations, and the steps whose result one has overwritten. -/
structure World where
  saga : Option SagaState
  steps : List SagaStep
  stale : Bool
  drivers : List Phase
  executions : List (Nat × Json)
  compensations : List Compensation
  overwritten : List Nat

inductive Event where
  | start (driver : Driver)
  | call (i : Nat) (reply : Reply)
  | crash (i : Nat)
  | age

namespace World

variable (w : World)

def loadSagaSteps : List SagaStep := w.steps.insertionSort fun a b => a.order ≤ b.order

def updateSagaState (state : SagaState) : World := { w with saga := w.saga.map fun _ => state }

def updateSagaStepState (step : Nat) (state : StepState) : World :=
  { w with steps := w.steps.map fun s => if s.id = step then { s with state := state } else s }

def updateSagaStepResult (step : Nat) (result : Json) : World :=
  { w with steps := w.steps.map fun s => if s.id = step then { s with result := some result } else s }

/-- `cleanup_stale_sagas`; the steps go with their saga. -/
def cleanupStaleSagas : World :=
  if w.stale ∧ (w.saga = some .completed ∨ w.saga = some .compensated) then { w with saga := none, steps := [] } else w

/-- A call of the store that writes. -/
def write (reply : Reply) (written : World) : World := if reply.isApplied then written else w

end World

/-! ### Steps -/

/-- The result of the mutation of a step. -/
def forwardResult (sagaId : String) (current found : SagaStep) : Json :=
  .obj (insertEntry "input" current.variableValues
    (insertEntry (current.mutationType.asStr ++ "_" ++ current.typename) (.str "executed")
    (insertEntry "id" (.str ("entity-" ++ sagaId ++ "-step-" ++ toString current.order))
    (insertEntry "__typename" (.str found.typename) []))))

def buildCompensationVariables (originalResultData : Json) : Json :=
  .obj (["id", "key", "uuid", "pk"].foldl (fun vars key =>
    match originalResultData.get? key with
    | some value => insertEntry key value vars
    | none => vars) [])

def compensationResult (current found : SagaStep) : Json :=
  .obj (insertEntry "__typename" (.str found.typename)
    (insertEntry "confirmation_id" (.str ("comp-" ++ toString current.order))
    (insertEntry "deleted" (.bool true) [])))

def nextStep : List SagaStep → Phase
  | [] => .executeFinish
  | current :: rest => .stepSaga current rest

def nextUndo (failed : Bool) : List SagaStep → Phase
  | [] => .compensateFinish failed
  | current :: rest => .undoLoad current rest failed

/-- A call of a driver: the world it leaves, and the next call. -/
def advance (sagaId : String) (w : World) (reply : Reply) : Phase → World × Phase
  | .executeLoad => (w, if reply.isOk ∧ w.saga.isSome then .executeBegin else .ended)
  | .executeBegin => (w.write reply (w.updateSagaState .executing), if reply.isOk then .executeSteps else .ended)
  | .executeSteps => (w, if reply.isOk then nextStep w.loadSagaSteps else .ended)
  | .stepSaga current rest => (w, if reply.isOk ∧ w.saga.isSome then .stepLoad current rest else .executeFail)
  | .stepLoad current rest =>
    match w.loadSagaSteps.find? fun s => s.order = current.order with
    | some found =>
      (w, if reply.isOk ∧ found.state = .pending then .stepBegin current found rest else .executeFail)
    | none => (w, .executeFail)
  | .stepBegin current found rest =>
    let w := w.write reply (w.updateSagaStepState found.id .executing)
    if reply.isOk then
      let data := forwardResult sagaId current found
      ({ w with executions := (found.id, data) :: w.executions }, .stepResult found.id data rest)
    else (w, .executeFail)
  | .stepResult step data rest =>
    (w.write reply (w.updateSagaStepResult step data), if reply.isOk then .stepFinish step rest else .executeFail)
  | .stepFinish step rest =>
    (w.write reply (w.updateSagaStepState step .completed), if reply.isOk then nextStep rest else .executeFail)
  | .executeFail => (w.write reply (w.updateSagaState .failed), .ended)
  | .executeFinish => (w.write reply (w.updateSagaState .completed), .ended)
  | .compensateLoad => (w, if reply.isOk ∧ w.saga = some .failed then .compensateBegin else .ended)
  | .compensateBegin =>
    (w.write reply (w.updateSagaState .compensating), if reply.isOk then .compensateSteps else .ended)
  | .compensateSteps =>
    (w, if reply.isOk then nextUndo false (w.loadSagaSteps.filter fun s => s.state = .completed).reverse else .ended)
  | .undoLoad current rest failed =>
    match w.loadSagaSteps.find? fun s => s.order = current.order with
    | some found =>
      if reply.isOk ∧ found.state = .completed then
        let source := current.result.getD (.obj [])
        ({ w with compensations := ⟨current.id, source, buildCompensationVariables source⟩ :: w.compensations },
          .undoResult found.id (compensationResult current found) rest failed)
      else (w, nextUndo true rest)
    | none => (w, nextUndo true rest)
  | .undoResult step data rest failed =>
    (w.write reply { w.updateSagaStepResult step data with overwritten := step :: w.overwritten },
      nextUndo (failed || !reply.isOk) rest)
  | .compensateFinish failed =>
    (w.write reply (w.updateSagaState (if failed then .failed else .compensated)), .ended)
  | .recoverPending => (w, if reply.isOk ∧ w.saga = some .pending then .recoverTransition else .recoverExecuting)
  | .recoverTransition => (w.write reply (w.updateSagaState .executing), .recoverExecuting)
  | .recoverExecuting => (w, .recoverCleanup)
  | .recoverCleanup => (w.write reply w.cleanupStaleSagas, .ended)
  | .ended => (w, .ended)

def World.setPhase (w : World) (i : Nat) (phase : Phase) : World := { w with drivers := w.drivers.set i phase }

def World.step (sagaId : String) (w : World) : Event → World
  | .start driver => { w with drivers := w.drivers ++ [driver.first] }
  | .call i reply =>
    match w.drivers[i]? with
    | some phase =>
      let (next, phase) := advance sagaId w reply phase
      next.setPhase i phase
    | none => w
  | .crash i => w.setPhase i .ended
  | .age => { w with stale := true }

/-- A saga that nobody has touched. -/
def World.created (steps : List SagaStep) : World :=
  ⟨some .pending, steps.map fun s => { s with state := .pending, result := none }, false, [], [], [], []⟩

end FraiseQL.Saga
