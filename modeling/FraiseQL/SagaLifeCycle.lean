import FraiseQL.Saga

/-! The life cycle of a saga. The stores' updates compare nothing, so what keeps a saga on its life cycle is who
works on it: a driver is engaged from the call that finds it something to do until its last write, and a run is
orderly when no driver engages while another one is, execution engages only with a saga that is pending or
executing, and compensation only with one that no earlier compensation has written results into. In an orderly run
the engaged driver knows the stored state, whatever fails and whoever crashes. -/

namespace FraiseQL.Saga

open EventRun World List

/-! ### The property -/

/-- The edges of the life cycle. -/
def SagaState.leadsTo : SagaState → SagaState → Bool
  | .pending, .executing => true
  | .executing, .completed => true
  | .executing, .failed => true
  | .failed, .compensating => true
  | .compensating, .compensated => true
  | .compensating, .failed => true
  | _, _ => false

/-- The stored state stays, moves along an edge, or goes with a saga that is cleaned up at its end. -/
def Follows : Option SagaState → Option SagaState → Prop
  | some s, some t => s = t ∨ s.leadsTo t
  | some s, none => s = .completed ∨ s = .compensated
  | none, t => t = none

instance : DecidableRel Follows
  | some s, some t => inferInstanceAs (Decidable (s = t ∨ s.leadsTo t))
  | some s, none => inferInstanceAs (Decidable (s = .completed ∨ s = .compensated))
  | none, t => inferInstanceAs (Decidable (t = none))

def KeepsLifeCycle (sagaId : String) (w : World) (e : Event) : Prop := Follows w.saga (w.step sagaId e).saga

instance (sagaId : String) (w : World) (e : Event) : Decidable (KeepsLifeCycle sagaId w e) :=
  inferInstanceAs (Decidable (Follows w.saga (w.step sagaId e).saga))

/-- No step's mutation has run twice, and every compensation was computed from the result its step's gave. -/
structure Sound (w : World) : Prop where
  once : (w.executions.map Prod.fst).Nodup
  undone : ∀ c ∈ w.compensations, ∃ result, (c.step, result) ∈ w.executions ∧
    c.compensationVariables = buildCompensationVariables result

/-! ### The condition -/

/-- Between the call that finds a driver something to do and its last write. -/
def Phase.engaged : Phase → Bool
  | .executeLoad | .compensateLoad | .recoverPending | .recoverExecuting | .recoverCleanup | .ended => false
  | _ => true

def World.idle (w : World) : Prop := ∀ phase ∈ w.drivers, phase.engaged = false

instance (w : World) : Decidable w.idle := inferInstanceAs (Decidable (∀ phase ∈ w.drivers, phase.engaged = false))

/-- No compensation has overwritten the result of a step that would be compensated. -/
def World.unspoilt (w : World) : Prop := ∀ s ∈ w.steps, s.state = .completed → s.id ∉ w.overwritten

instance (w : World) : Decidable w.unspoilt :=
  inferInstanceAs (Decidable (∀ s ∈ w.steps, s.state = .completed → s.id ∉ w.overwritten))

/-- A driver that would engage may. -/
def Admitted (w : World) : Phase → Prop
  | .executeLoad => w.saga.isSome → w.idle ∧ (w.saga = some .pending ∨ w.saga = some .executing)
  | .compensateLoad => w.saga = some .failed → w.idle ∧ w.unspoilt
  | .recoverPending => w.saga = some .pending → w.idle
  | _ => True

instance (w : World) : DecidablePred (Admitted w)
  | .executeLoad =>
    inferInstanceAs (Decidable (w.saga.isSome → w.idle ∧ (w.saga = some .pending ∨ w.saga = some .executing)))
  | .compensateLoad => inferInstanceAs (Decidable (w.saga = some .failed → w.idle ∧ w.unspoilt))
  | .recoverPending => inferInstanceAs (Decidable (w.saga = some .pending → w.idle))
  | .executeBegin | .executeSteps | .stepSaga _ _ | .stepLoad _ _ | .stepBegin _ _ _ | .stepResult _ _ _
  | .stepFinish _ _ | .executeFail | .executeFinish | .compensateBegin | .compensateSteps | .undoLoad _ _ _
  | .undoResult _ _ _ _ | .compensateFinish _ | .recoverTransition | .recoverExecuting | .recoverCleanup
  | .ended => isTrue trivial

def Orderly (w : World) : Event → Prop
  | .call i _ => ∀ phase ∈ w.drivers[i]?, Admitted w phase
  | _ => True

instance (w : World) : DecidablePred (Orderly w)
  | .call i _ => inferInstanceAs (Decidable (∀ phase ∈ w.drivers[i]?, Admitted w phase))
  | .start _ | .crash _ | .age => isTrue trivial

/-! ### What an engaged driver knows -/

/-- The stored result of a step is one that its mutation gave. -/
def Forward (w : World) (s : SagaStep) : Prop := ∃ result, s.result = some result ∧ (s.id, result) ∈ w.executions

def Held (w : World) : Phase → Prop
  | .executeBegin => w.saga = some .pending ∨ w.saga = some .executing
  | .executeSteps | .stepSaga _ _ | .stepLoad _ _ | .executeFail | .executeFinish => w.saga = some .executing
  | .stepBegin _ found _ => w.saga = some .executing ∧ found.id ∉ w.executions.map Prod.fst
  | .stepResult step data _ => w.saga = some .executing ∧ (step, data) ∈ w.executions
  | .stepFinish step _ => w.saga = some .executing ∧ ∀ s ∈ w.steps, s.id = step → Forward w s
  | .compensateBegin => w.saga = some .failed ∧ w.unspoilt
  | .compensateSteps => w.saga = some .compensating ∧ w.unspoilt
  | .undoLoad current rest _ => w.saga = some .compensating ∧ ∀ s ∈ current :: rest, Forward w s
  | .undoResult _ _ rest _ => w.saga = some .compensating ∧ ∀ s ∈ rest, Forward w s
  | .compensateFinish _ => w.saga = some .compensating
  | .recoverTransition => w.saga = some .pending
  | .executeLoad | .compensateLoad | .recoverPending | .recoverExecuting | .recoverCleanup | .ended => True

/-- What the store says of the steps is what happened. -/
structure Consistent (w : World) : Prop extends Sound w where
  fresh : ∀ s ∈ w.steps, s.state = .pending → s.id ∉ w.executions.map Prod.fst
  forward : ∀ s ∈ w.steps, s.state = .completed → s.id ∉ w.overwritten → Forward w s

variable {w w' : World} {sagaId : String}

variable {phase : Phase}

theorem held_of_not_engaged (hphase : phase.engaged = false) : Held w phase := by
  cases phase <;> trivial

theorem follows_refl (s : Option SagaState) : Follows s s := by
  cases s with
  | none => rfl
  | some s => exact .inl rfl

/-! ### The store's calls -/

variable {t : SagaState}

theorem saga_updateSagaState {s : SagaState} (hsaga : w.saga = some s) : (w.updateSagaState t).saga = some t := by
  rw [updateSagaState, hsaga, Option.map_some]

theorem consistent_updateSagaState (hw : Consistent w) (state : SagaState) : Consistent (w.updateSagaState state) :=
  ⟨⟨hw.once, hw.undone⟩, hw.fresh, hw.forward⟩

theorem consistent_write (hw : Consistent w) (hw' : Consistent w') (reply : Reply) : Consistent (w.write reply w') := by
  rw [write]
  split
  · exact hw'
  · exact hw

theorem follows_write (h : Follows w.saga w'.saga) (reply : Reply) : Follows w.saga (w.write reply w').saga := by
  rw [write]
  split
  · exact h
  · exact follows_refl _

variable {reply : Reply}

theorem write_of_ok (hreply : reply.isOk = true) : w.write reply w' = w' := by
  cases reply with
  | ok => rfl
  | lost applied => cases hreply

variable {s : SagaStep}

theorem mem_loadSagaSteps : s ∈ w.loadSagaSteps ↔ s ∈ w.steps := mem_insertionSort _

variable {step : Nat}

/-- A step after the state of one of them was written. -/
theorem mem_updateSagaStepState {state : StepState} (hs : s ∈ (w.updateSagaStepState step state).steps) :
    ∃ before ∈ w.steps, s.id = before.id ∧ s.result = before.result ∧
      (s.id = step ∧ s.state = state ∨ s.id ≠ step ∧ s = before) := by
  obtain ⟨before, hbefore, rfl⟩ := mem_map.mp hs
  refine ⟨before, hbefore, ?_⟩
  split
  · next hid => exact ⟨rfl, rfl, .inl ⟨hid, rfl⟩⟩
  · next hid => exact ⟨rfl, rfl, .inr ⟨hid, rfl⟩⟩

/-- A step after the result of one of them was written. -/
theorem mem_updateSagaStepResult {result : Json} (hs : s ∈ (w.updateSagaStepResult step result).steps) :
    ∃ before ∈ w.steps, s.id = before.id ∧ s.state = before.state ∧
      (s.id = step ∧ s.result = some result ∨ s.id ≠ step ∧ s = before) := by
  obtain ⟨before, hbefore, rfl⟩ := mem_map.mp hs
  refine ⟨before, hbefore, ?_⟩
  split
  · next hid => exact ⟨rfl, rfl, .inl ⟨hid, rfl⟩⟩
  · next hid => exact ⟨rfl, rfl, .inr ⟨hid, rfl⟩⟩

theorem consistent_updateSagaStepState {state : StepState} (hw : Consistent w) (hstate : state ≠ .pending)
    (hstep : state = .completed → ∀ s ∈ w.steps, s.id = step → Forward w s) :
    Consistent (w.updateSagaStepState step state) := by
  refine ⟨⟨hw.once, hw.undone⟩, ?_, ?_⟩
  · intro s hs hpending
    obtain ⟨before, hbefore, hid, -, ⟨-, hwritten⟩ | ⟨-, rfl⟩⟩ := mem_updateSagaStepState hs
    · exact absurd (hwritten.symm.trans hpending) hstate
    · exact hw.fresh s hbefore hpending
  · intro s hs hcompleted hover
    obtain ⟨before, hbefore, hid, hresult, ⟨hself, hwritten⟩ | ⟨-, rfl⟩⟩ := mem_updateSagaStepState hs
    · obtain ⟨result, hstored, hran⟩ := hstep (hwritten.symm.trans hcompleted) before hbefore (hid ▸ hself)
      exact ⟨result, hresult.trans hstored, hid ▸ hran⟩
    · exact hw.forward s hbefore hcompleted hover

/-- The step's mutation has just run. -/
theorem consistent_executed (hw : Consistent w) (data : Json) (hstep : step ∉ w.executions.map Prod.fst)
    (hstored : ∀ s ∈ w.steps, s.id = step → s.state ≠ .pending) :
    Consistent { w with executions := (step, data) :: w.executions } := by
  have hgrow : ∀ entry ∈ w.executions, entry ∈ (step, data) :: w.executions := fun entry h => mem_cons_of_mem _ h
  refine ⟨⟨?_, ?_⟩, ?_, ?_⟩
  · exact nodup_cons.mpr ⟨hstep, hw.once⟩
  · intro c hc
    obtain ⟨result, hresult, hvariables⟩ := hw.undone c hc
    exact ⟨result, hgrow _ hresult, hvariables⟩
  · intro s hs hpending hran
    rcases mem_cons.mp hran with hid | hran
    · exact hstored s hs hid hpending
    · exact hw.fresh s hs hpending hran
  · intro s hs hcompleted hover
    obtain ⟨result, hresult, hran⟩ := hw.forward s hs hcompleted hover
    exact ⟨result, hresult, hgrow _ hran⟩

theorem consistent_updateSagaStepResult (hw : Consistent w) {data : Json}
    (hran : (step, data) ∈ w.executions) : Consistent (w.updateSagaStepResult step data) := by
  refine ⟨⟨hw.once, hw.undone⟩, ?_, ?_⟩
  · intro s hs hpending
    obtain ⟨before, hbefore, hid, hstate, -⟩ := mem_updateSagaStepResult hs
    rw [hid]
    exact hw.fresh before hbefore (hstate.symm.trans hpending)
  · intro s hs hcompleted hover
    obtain ⟨before, hbefore, hid, hstate, ⟨hstep, hresult⟩ | ⟨-, rfl⟩⟩ := mem_updateSagaStepResult hs
    · exact ⟨data, hresult, hstep ▸ hran⟩
    · exact hw.forward s hbefore hcompleted hover

/-- A compensation's result is written over whatever the step had. -/
theorem consistent_overwritten (hw : Consistent w) (step : Nat) (data : Json) :
    Consistent { w.updateSagaStepResult step data with overwritten := step :: w.overwritten } := by
  refine ⟨⟨hw.once, hw.undone⟩, ?_, ?_⟩
  · intro s hs hpending
    obtain ⟨before, hbefore, hid, hstate, -⟩ := mem_updateSagaStepResult hs
    rw [hid]
    exact hw.fresh before hbefore (hstate.symm.trans hpending)
  · intro s hs hcompleted hover
    obtain ⟨hne, hover⟩ := not_or.mp (mt mem_cons.mpr hover)
    obtain ⟨before, hbefore, -, -, ⟨hstep, -⟩ | ⟨-, rfl⟩⟩ := mem_updateSagaStepResult hs
    · exact absurd hstep hne
    · exact hw.forward s hbefore hcompleted hover

theorem consistent_compensated (hw : Consistent w) {current : SagaStep} (hcurrent : Forward w current) :
    let source := current.result.getD (.obj [])
    Consistent { w with
      compensations := ⟨current.id, source, buildCompensationVariables source⟩ :: w.compensations } := by
  refine ⟨⟨hw.once, ?_⟩, hw.fresh, hw.forward⟩
  intro c hc
  rcases mem_cons.mp hc with rfl | hc
  · obtain ⟨result, hresult, hran⟩ := hcurrent
    refine ⟨result, hran, ?_⟩
    rw [hresult, Option.getD_some]
  · exact hw.undone c hc

theorem consistent_cleanupStaleSagas (hw : Consistent w) : Consistent w.cleanupStaleSagas := by
  rw [cleanupStaleSagas]
  split
  · exact ⟨⟨hw.once, hw.undone⟩, fun s hs => absurd hs not_mem_nil, fun s hs => absurd hs not_mem_nil⟩
  · exact hw

theorem follows_cleanupStaleSagas (w : World) : Follows w.saga w.cleanupStaleSagas.saga := by
  rw [cleanupStaleSagas]
  split
  · next hended =>
      rcases hended.2 with hsaga | hsaga
      · rw [hsaga]
        exact .inl rfl
      · rw [hsaga]
        exact .inr rfl
  · exact follows_refl _

theorem saga_write (hsaga : w'.saga = w.saga) (reply : Reply) : (w.write reply w').saga = w.saga := by
  rw [write]
  split
  · exact hsaga
  · rfl

/-! ### One call -/

/-- A call keeps the store consistent and the saga on its life cycle, and its driver still knows the stored state. -/
structure Kept (w : World) (next : World × Phase) : Prop where
  consistent : Consistent next.1
  follows : Follows w.saga next.1.saga
  held : Held next.1 next.2

theorem held_nextStep (hsaga : w.saga = some .executing) (steps : List SagaStep) : Held w (nextStep steps) := by
  cases steps with
  | nil => exact hsaga
  | cons current rest => exact hsaga

theorem held_nextUndo (hsaga : w.saga = some .compensating) (failed : Bool) {steps : List SagaStep}
    (hsteps : ∀ s ∈ steps, Forward w s) : Held w (nextUndo failed steps) := by
  cases steps with
  | nil => exact hsaga
  | cons current rest => exact ⟨hsaga, hsteps⟩

variable {p : Phase}

/-- A call that only reads. -/
theorem kept_read {c : Prop} [Decidable c] {q : Phase} (hw : Consistent w) (hp : c → Held w p) (hq : Held w q) :
    Kept w (w, if c then p else q) := by
  refine ⟨hw, follows_refl _, ?_⟩
  show Held w (if c then p else q)
  split
  · next hc => exact hp hc
  · exact hq

/-- A call that writes the state of the saga. -/
theorem kept_updateSagaState {s : SagaState} (hw : Consistent w) (hsaga : w.saga = some s) (hedge : s = t ∨ s.leadsTo t)
    (hp : reply.isOk = true → Held (w.updateSagaState t) p) :
    Kept w (w.write reply (w.updateSagaState t), if reply.isOk then p else .ended) := by
  refine ⟨consistent_write hw (consistent_updateSagaState hw t) reply, ?_, ?_⟩
  · apply follows_write
    rw [saga_updateSagaState hsaga, hsaga]
    exact hedge
  · show Held (w.write reply (w.updateSagaState t)) (if reply.isOk then p else .ended)
    split
    · next hok =>
        rw [write_of_ok hok]
        exact hp hok
    · trivial

/-- A driver's last write. -/
theorem kept_last {s : SagaState} (hw : Consistent w) (hsaga : w.saga = some s)
    (hedge : s = t ∨ s.leadsTo t) (hp : p.engaged = false) :
    Kept w (w.write reply (w.updateSagaState t), p) := by
  have hkept : Kept w (w.write reply (w.updateSagaState t), if reply.isOk then .ended else .ended) :=
    kept_updateSagaState hw hsaga hedge fun _ => trivial
  exact ⟨hkept.consistent, hkept.follows, held_of_not_engaged hp⟩

/-- A call that writes a step. -/
theorem kept_writeStep (hw : Consistent w) (hw' : Consistent w') (hsaga : w'.saga = w.saga)
    (hp : Held (w.write reply w') p) : Kept w (w.write reply w', p) := by
  refine ⟨consistent_write hw hw' reply, ?_, hp⟩
  show Follows w.saga (w.write reply w').saga
  rw [saga_write hsaga]
  exact follows_refl _

theorem held_writeStep {q : Phase} (hp : Held w' p) (hq : Held (w.write reply w') q) :
    Held (w.write reply w') (if reply.isOk then p else q) := by
  split
  · next hok =>
      rw [write_of_ok hok]
      exact hp
  · exact hq

theorem kept_stepLoad (hw : Consistent w) (hsaga : w.saga = some .executing) (reply : Reply) (current : SagaStep)
    (rest : List SagaStep) : Kept w (advance sagaId w reply (.stepLoad current rest)) := by
  rw [advance]
  split
  · next found hfound =>
      refine kept_read hw ?_ hsaga
      intro hbegin
      refine ⟨hsaga, ?_⟩
      apply hw.fresh found _ hbegin.2
      exact mem_loadSagaSteps.mp (mem_of_find?_eq_some hfound)
  · exact ⟨hw, follows_refl _, hsaga⟩

theorem kept_stepBegin (hw : Consistent w) {found : SagaStep} (hsaga : w.saga = some .executing)
    (hfound : found.id ∉ w.executions.map Prod.fst) (reply : Reply) (current : SagaStep) (rest : List SagaStep) :
    Kept w (advance sagaId w reply (.stepBegin current found rest)) := by
  have hwritten : Consistent (w.updateSagaStepState found.id .executing) :=
    consistent_updateSagaStepState hw nofun nofun
  rw [advance]
  split
  · next hok =>
      rw [write_of_ok hok]
      refine ⟨consistent_executed hwritten _ hfound ?_, follows_refl _, hsaga, mem_cons_self⟩
      intro s hs hid hpending
      obtain ⟨before, -, -, -, ⟨-, hstate⟩ | ⟨hne, -⟩⟩ := mem_updateSagaStepState hs
      · rw [hpending] at hstate
        cases hstate
      · exact hne hid
  · apply kept_writeStep hw hwritten rfl
    rw [Held, saga_write]
    · exact hsaga
    · rfl

theorem kept_undoLoad (hw : Consistent w) {current : SagaStep} {rest : List SagaStep}
    (hsaga : w.saga = some .compensating) (hsteps : ∀ s ∈ current :: rest, Forward w s) (reply : Reply)
    (failed : Bool) : Kept w (advance sagaId w reply (.undoLoad current rest failed)) := by
  obtain ⟨hcurrent, hrest⟩ := forall_mem_cons.mp hsteps
  rw [advance]
  split
  · split
    · exact ⟨consistent_compensated hw hcurrent, follows_refl _, hsaga, hrest⟩
    · exact ⟨hw, follows_refl _, held_nextUndo hsaga true hrest⟩
  · exact ⟨hw, follows_refl _, held_nextUndo hsaga true hrest⟩

theorem kept_undoResult (hw : Consistent w) {rest : List SagaStep} (hsaga : w.saga = some .compensating)
    (hrest : ∀ s ∈ rest, Forward w s) (reply : Reply) (step : Nat) (data : Json) (failed : Bool) :
    Kept w (advance sagaId w reply (.undoResult step data rest failed)) := by
  apply kept_writeStep hw (consistent_overwritten hw step data) rfl
  apply held_nextUndo
  · rw [saga_write]
    · exact hsaga
    · rfl
  · intro s hs
    obtain ⟨result, hresult, hran⟩ := hrest s hs
    refine ⟨result, hresult, ?_⟩
    rw [write]
    split
    · exact hran
    · exact hran

theorem advance_kept (hw : Consistent w) (reply : Reply) (hheld : Held w phase)
    (hadmitted : Admitted w phase) : Kept w (advance sagaId w reply phase) := by
  cases phase with
  | executeLoad => exact kept_read hw (fun hload => (hadmitted hload.2).2) trivial
  | executeBegin =>
    rcases hheld with hsaga | hsaga
    · exact kept_updateSagaState hw hsaga (.inr (by rfl)) fun _ => saga_updateSagaState hsaga
    · exact kept_updateSagaState hw hsaga (.inl rfl) fun _ => saga_updateSagaState hsaga
  | executeSteps => exact kept_read hw (fun _ => held_nextStep hheld _) trivial
  | stepSaga current rest => exact kept_read hw (fun _ => hheld) hheld
  | stepLoad current rest => exact kept_stepLoad hw hheld reply current rest
  | stepBegin current found rest => exact kept_stepBegin hw hheld.1 hheld.2 reply current rest
  | stepResult step data rest =>
    have hwritten := consistent_updateSagaStepResult hw hheld.2
    apply kept_writeStep hw hwritten rfl
    apply held_writeStep
    · refine ⟨hheld.1, ?_⟩
      intro s hs hid
      obtain ⟨before, -, -, -, ⟨-, hresult⟩ | ⟨hne, -⟩⟩ := mem_updateSagaStepResult hs
      · refine ⟨data, hresult, ?_⟩
        rw [hid]
        exact hheld.2
      · exact absurd hid hne
    · rw [Held, saga_write]
      · exact hheld.1
      · rfl
  | stepFinish step rest =>
    have hwritten : Consistent (w.updateSagaStepState step .completed) :=
      consistent_updateSagaStepState hw nofun fun _ => hheld.2
    apply kept_writeStep hw hwritten rfl
    apply held_writeStep
    · apply held_nextStep
      exact hheld.1
    · rw [Held, saga_write]
      · exact hheld.1
      · rfl
  | executeFail | executeFinish => exact kept_last hw hheld (.inr (by rfl)) rfl
  | compensateLoad => exact kept_read hw (fun hload => ⟨hload.2, (hadmitted hload.2).2⟩) trivial
  | compensateBegin =>
    apply kept_updateSagaState hw hheld.1 (.inr (by rfl))
    intro _
    exact ⟨saga_updateSagaState hheld.1, hheld.2⟩
  | compensateSteps =>
    refine kept_read hw ?_ trivial
    intro _
    apply held_nextUndo hheld.1
    intro s hs
    obtain ⟨hs, hcompleted⟩ := mem_filter.mp (mem_reverse.mp hs)
    have hs := mem_loadSagaSteps.mp hs
    have hcompleted := of_decide_eq_true hcompleted
    exact hw.forward s hs hcompleted (hheld.2 s hs hcompleted)
  | undoLoad current rest failed => exact kept_undoLoad hw hheld.1 hheld.2 reply failed
  | undoResult step data rest failed => exact kept_undoResult hw hheld.1 hheld.2 reply step data failed
  | compensateFinish failed =>
    apply kept_last hw hheld _ rfl
    cases failed with
    | false => exact .inr rfl
    | true => exact .inr rfl
  | recoverPending => exact kept_read hw (fun hload => hload.2) trivial
  | recoverTransition => exact kept_last hw hheld (.inr (by rfl)) rfl
  | recoverExecuting => exact ⟨hw, follows_refl _, trivial⟩
  | recoverCleanup =>
    have hcleaned := consistent_cleanupStaleSagas hw
    exact ⟨consistent_write hw hcleaned reply, follows_write (follows_cleanupStaleSagas w) reply, trivial⟩
  | ended => exact ⟨hw, follows_refl _, trivial⟩

/-- The call of a driver that is not engaged: the world stays but for a cleanup, and the driver engages only when
nobody is. -/
theorem advance_of_not_engaged (hphase : phase.engaged = false) (hadmitted : Admitted w phase) :
    ((advance sagaId w reply phase).1 = w ∨ (advance sagaId w reply phase).1 = w.cleanupStaleSagas) ∧
      ((advance sagaId w reply phase).2.engaged = true → w.idle) := by
  cases phase with
  | executeLoad | compensateLoad =>
    refine ⟨.inl rfl, ?_⟩
    rw [advance]
    split
    · next hload => exact fun _ => (hadmitted hload.2).1
    · nofun
  | recoverPending =>
    refine ⟨.inl rfl, ?_⟩
    rw [advance]
    split
    · next hload => exact fun _ => hadmitted hload.2
    · nofun
  | recoverExecuting => exact ⟨.inl rfl, nofun⟩
  | recoverCleanup =>
    refine ⟨?_, nofun⟩
    show w.write reply _ = w ∨ w.write reply _ = _
    rw [write]
    split
    · exact .inr rfl
    · exact .inl rfl
  | ended => exact ⟨.inl rfl, nofun⟩
  | _ => cases hphase

/-- An engaged driver's saga is not at its end. -/
theorem not_cleaned (hphase : phase.engaged = true) (hheld : Held w phase) :
    ¬(w.saga = some .completed ∨ w.saga = some .compensated) := by
  rintro (hsaga | hsaga) <;> cases phase <;> simp_all [Held, Phase.engaged]

theorem held_cleanupStaleSagas (hheld : Held w phase) : Held w.cleanupStaleSagas phase := by
  cases hphase : phase.engaged with
  | false => exact held_of_not_engaged hphase
  | true =>
    rw [cleanupStaleSagas, if_neg]
    · exact hheld
    · exact fun hended => not_cleaned hphase hheld hended.2

/-! ### Runs -/

theorem drivers_write (h : w'.drivers = w.drivers) : (w.write reply w').drivers = w.drivers := by
  rw [write]
  split
  · exact h
  · rfl

theorem drivers_cleanupStaleSagas (w : World) : w.cleanupStaleSagas.drivers = w.drivers := by
  rw [cleanupStaleSagas]
  split
  · rfl
  · rfl

theorem drivers_advance (reply : Reply) (phase : Phase) : (advance sagaId w reply phase).1.drivers = w.drivers := by
  cases phase with
  | stepLoad current rest =>
    rw [advance]
    split
    · rfl
    · rfl
  | stepBegin current found rest =>
    rw [advance]
    split
    · exact drivers_write rfl
    · exact drivers_write rfl
  | undoLoad current rest failed =>
    rw [advance]
    split
    · split
      · rfl
      · rfl
    · rfl
  | recoverCleanup => exact drivers_write (drivers_cleanupStaleSagas w)
  | executeLoad | executeSteps | stepSaga | compensateLoad | compensateSteps | recoverPending | recoverExecuting
  | ended => rfl
  | _ => exact drivers_write rfl

/-- At most one driver is engaged, and every driver knows what its phase says. -/
structure Invariant (w : World) : Prop where
  consistent : Consistent w
  held : ∀ i : Nat, ∀ phase ∈ w.drivers[i]?, Held w phase
  alone : ∀ i j : Nat, ∀ p ∈ w.drivers[i]?, ∀ q ∈ w.drivers[j]?, p.engaged = true → q.engaged = true → i = j

variable {i : Nat}

theorem held_setPhase (hp : Held w p) : Held (w.setPhase i phase) p := by
  cases p <;> exact hp

/-- The drivers after one of them has changed its phase. -/
theorem mem_setPhase {j : Nat} (hp : p ∈ (w.setPhase i phase).drivers[j]?) :
    i = j ∧ p = phase ∨ i ≠ j ∧ p ∈ w.drivers[j]? := by
  have hp : (w.drivers.set i phase)[j]? = some p := hp
  rw [getElem?_set] at hp
  by_cases hij : i = j
  · rw [if_pos hij] at hp
    split at hp
    · exact .inl ⟨hij, (Option.some.inj hp).symm⟩
    · cases hp
  · rw [if_neg hij] at hp
    exact .inr ⟨hij, hp⟩

/-- One driver moves to a phase it knows enough for; when it was not engaged and becomes so, nobody was. -/
theorem invariant_setPhase {before : Phase} (hdrivers : w'.drivers = w.drivers)
    (hbefore : before ∈ w.drivers[i]?) (hw : Invariant w) (hconsistent : Consistent w') (hphase : Held w' phase)
    (hothers : before.engaged = false → ∀ p, Held w p → Held w' p)
    (hengages : before.engaged = false → phase.engaged = true → w.idle) : Invariant (w'.setPhase i phase) := by
  have hold : ∀ j p, i ≠ j → p ∈ w.drivers[j]? → p.engaged = true → before.engaged = false := by
    intro j p hij hp hengaged
    cases hwas : before.engaged with
    | false => rfl
    | true => exact absurd (hw.alone i j before hbefore p hp hwas hengaged) hij
  have hone : ∀ j p, i ≠ j → p ∈ w.drivers[j]? → p.engaged = true → phase.engaged = false := by
    intro j p hij hp hengaged
    cases hnow : phase.engaged with
    | false => rfl
    | true =>
      have hidle := hengages (hold j p hij hp hengaged) hnow p (mem_of_getElem? hp)
      rw [hengaged] at hidle
      cases hidle
  have hmem : ∀ j p, p ∈ (w'.setPhase i phase).drivers[j]? → i = j ∧ p = phase ∨ i ≠ j ∧ p ∈ w.drivers[j]? := by
    intro j p hp
    rw [← hdrivers]
    exact mem_setPhase hp
  refine ⟨⟨⟨hconsistent.once, hconsistent.undone⟩, hconsistent.fresh, hconsistent.forward⟩, ?_, ?_⟩
  · intro j p hp
    apply held_setPhase
    rcases hmem j p hp with ⟨-, rfl⟩ | ⟨hij, hp⟩
    · exact hphase
    · cases hengaged : p.engaged with
      | false => exact held_of_not_engaged hengaged
      | true => exact hothers (hold j p hij hp hengaged) p (hw.held j p hp)
  · intro j k p hp q hq hpe hqe
    rcases hmem j p hp with ⟨rfl, rfl⟩ | ⟨hij, hp⟩
    · rcases hmem k q hq with ⟨rfl, -⟩ | ⟨hik, hq⟩
      · rfl
      · have hfree := hone k q hik hq hqe
        rw [hpe] at hfree
        cases hfree
    · rcases hmem k q hq with ⟨rfl, hnow⟩ | ⟨hik, hq⟩
      · have hfree := hone j p hij hp hpe
        rw [← hnow, hqe] at hfree
        cases hfree
      · exact hw.alone j k p hp q hq hpe hqe

theorem invariant_call (hw : Invariant w) (hphase : phase ∈ w.drivers[i]?) (hadmitted : Admitted w phase) :
    Invariant ((advance sagaId w reply phase).1.setPhase i (advance sagaId w reply phase).2) := by
  have hkept : Kept w (advance sagaId w reply phase) :=
    advance_kept hw.consistent reply (hw.held i phase hphase) hadmitted
  apply invariant_setPhase (drivers_advance reply phase) hphase hw hkept.consistent hkept.held
  · intro hfree p hp
    rcases (advance_of_not_engaged hfree hadmitted).1 with hsame | hsame
    · rw [hsame]
      exact hp
    · rw [hsame]
      exact held_cleanupStaleSagas hp
  · intro hfree
    exact (advance_of_not_engaged hfree hadmitted).2

theorem invariant_start (hw : Invariant w) (driver : Driver) :
    Invariant { w with drivers := w.drivers ++ [driver.first] } := by
  have hfirst : driver.first.engaged = false := by cases driver <;> rfl
  have hmem : ∀ (j : Nat) (p : Phase), p ∈ (w.drivers ++ [driver.first])[j]? → p.engaged = true → p ∈ w.drivers[j]? := by
    intro j p hp hengaged
    rw [Option.mem_def, getElem?_append] at hp
    split at hp
    · exact hp
    · have hp := mem_singleton.mp (mem_of_getElem? hp)
      rw [hp, hfirst] at hengaged
      cases hengaged
  refine ⟨⟨⟨hw.consistent.once, hw.consistent.undone⟩, hw.consistent.fresh, hw.consistent.forward⟩, ?_, ?_⟩
  · intro j p hp
    cases hengaged : p.engaged with
    | false => exact held_of_not_engaged hengaged
    | true =>
      have hheld := hw.held j p (hmem j p hp hengaged)
      cases p <;> exact hheld
  · intro j k p hp q hq hpe hqe
    exact hw.alone j k p (hmem j p hp hpe) q (hmem k q hq hqe) hpe hqe

theorem invariant_crash (hw : Invariant w) (i : Nat) : Invariant (w.setPhase i .ended) := by
  cases hdriver : w.drivers[i]? with
  | some phase =>
    apply invariant_setPhase rfl hdriver hw hw.consistent
    · trivial
    · exact fun _ p hp => hp
    · nofun
  | none =>
    have hset : w.drivers.set i .ended = w.drivers :=
      set_eq_of_length_le (getElem?_eq_none_iff.mp hdriver)
    rw [setPhase, hset]
    exact hw

theorem invariant_age (hw : Invariant w) : Invariant { w with stale := true } := by
  refine ⟨⟨⟨hw.consistent.once, hw.consistent.undone⟩, hw.consistent.fresh, hw.consistent.forward⟩, ?_, hw.alone⟩
  intro j p hp
  have hheld := hw.held j p hp
  cases p <;> exact hheld

theorem step_invariant (w : World) (e : Event) (hw : Invariant w) (he : Orderly w e) : Invariant (w.step sagaId e) := by
  cases e with
  | start driver => exact invariant_start hw driver
  | call i reply =>
    rw [step]
    split
    · next phase hphase => exact invariant_call hw hphase (he phase hphase)
    · exact hw
  | crash i => exact invariant_crash hw i
  | age => exact invariant_age hw

theorem step_keepsLifeCycle (w : World) (e : Event) (hw : Invariant w) (he : Orderly w e) :
    KeepsLifeCycle sagaId w e := by
  cases e with
  | call i reply =>
    rw [KeepsLifeCycle, step]
    split
    · next phase hphase =>
        exact (advance_kept hw.consistent reply (hw.held i phase hphase) (he phase hphase)).follows
    · exact follows_refl _
  | start driver => exact follows_refl _
  | crash i => exact follows_refl _
  | age => exact follows_refl _

theorem invariant_created (steps : List SagaStep) : Invariant (.created steps) := by
  refine ⟨⟨⟨nodup_nil, nofun⟩, ?_, ?_⟩, nofun, nofun⟩
  · intro s _ _
    exact not_mem_nil
  · intro s hs hcompleted
    obtain ⟨_, -, rfl⟩ := mem_map.mp hs
    cases hcompleted

/-- In an orderly run every write moves the stored saga along its life cycle, no step runs twice, and compensations
are computed from the forward results. -/
theorem orderly_saga_life_cycle (sagaId : String) (steps : List SagaStep) (events : List Event)
    (horderly : Along (World.step sagaId) Orderly (.created steps) events) :
    Along (World.step sagaId) (KeepsLifeCycle sagaId) (.created steps) events ∧
      Sound (run (World.step sagaId) (.created steps) events) := by
  constructor
  · exact horderly.mono step_invariant step_keepsLifeCycle (invariant_created steps)
  · have hend := horderly.invariant step_invariant (invariant_created steps)
    exact hend.consistent.toSound

section Runs

/-- A step of an order saga. -/
def orderStep (n : Nat) : SagaStep := ⟨n, n, .create, "Order", .obj [], .pending, none⟩

/-- The calls of one driver that all succeed. -/
def calls (i n : Nat) : List Event := List.replicate n (.call i .ok)

/-- The second step fails before it runs, an instance crashes in the compensation, recovery passes, and nothing of the
saga is done twice. -/
theorem failed_order_life_cycle :
    let events := .start .execute :: calls 0 8 ++ [.call 0 (.lost false)] ++ calls 0 1 ++
      .start .compensate :: calls 1 4 ++ [.crash 1, .start .recover] ++ calls 2 3
    Along (World.step "s") (KeepsLifeCycle "s") (.created [orderStep 1, orderStep 2]) events ∧
      Sound (run (World.step "s") (.created [orderStep 1, orderStep 2]) events) :=
  orderly_saga_life_cycle "s" _ _ (by decide +kernel)

/-- A completed saga is executed again, two instances execute a saga at once, and a compensation whose write was
reported lost is retried: the first leaves `Completed`, the second runs a step twice, the third computes a
compensation from the result of the one before. -/
theorem saga_life_cycle_left :
    ¬Along (World.step "s") (KeepsLifeCycle "s") (.created [orderStep 1])
      (.start .execute :: calls 0 9 ++ .start .execute :: calls 1 2) ∧
    ¬Sound (run (World.step "s") (.created [orderStep 1])
      ([.start .execute, .start .execute] ++ calls 0 5 ++ calls 1 5 ++ [.call 0 .ok, .call 1 .ok])) ∧
    ¬Sound (run (World.step "s") (.created [orderStep 1])
      (.start .execute :: calls 0 7 ++ [.call 0 (.lost true)] ++ calls 0 1 ++
        .start .compensate :: calls 1 4 ++ [.call 1 (.lost true)] ++ calls 1 1 ++ .start .compensate :: calls 2 4)) := by
  refine ⟨by decide +kernel, ?_, ?_⟩
  · intro hsound
    exact absurd hsound.once (by decide +kernel)
  · intro hsound
    obtain ⟨result, hran, hvariables⟩ := hsound.undone _ mem_cons_self
    obtain ⟨-, rfl⟩ := Prod.mk.inj (mem_singleton.mp hran)
    exact absurd hvariables (by decide +kernel)

end Runs

end FraiseQL.Saga
