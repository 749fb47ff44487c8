import FraiseQL.EventRun
import FraiseQL.ObserverError

/-! The state machine of a change-log listener (`fraiseql-observers/src/listener/state.rs`). A request for a state is
refused when the table has no such transition, and the recoveries since the last `Running` are counted against a
limit. The count is raised before it is compared with the limit, so the refusal of a recovery is itself counted. -/

namespace FraiseQL.Listener

inductive ListenerState where
  | initializing | connecting | running | recovering | stopped
  deriving DecidableEq

/-- `Display`. -/
def ListenerState.display : ListenerState → String
  | .initializing => "initializing"
  | .connecting => "connecting"
  | .running => "running"
  | .recovering => "recovering"
  | .stopped => "stopped"

structure Inner where
  state : ListenerState
  stateChangeTime : Nat
  recoveryAttempts : UInt32
  deriving DecidableEq

structure ListenerStateMachine where
  inner : Inner
  maxRecoveryAttempts : UInt32
  deriving DecidableEq

namespace ListenerStateMachine

/-- `new(..).with_max_recovery_attempts(max)`; without the second call the limit is 3. -/
def new (now : Nat) (max : UInt32 := 3) : ListenerStateMachine := ⟨⟨.initializing, now, 0⟩, max⟩

def isValidTransition : ListenerState → ListenerState → Bool
  | .initializing, .connecting | .initializing, .stopped => true
  | .connecting, .running | .connecting, .recovering | .connecting, .stopped => true
  | .running, .recovering | .running, .stopped => true
  | .recovering, .running | .recovering, .connecting | .recovering, .stopped => true
  | .stopped, .stopped => true
  | _, _ => false

def canRecover (m : ListenerStateMachine) : Bool := m.inner.recoveryAttempts < m.maxRecoveryAttempts

def transition (m : ListenerStateMachine) (next : ListenerState) (now : Nat) :
    Except ObserverError Unit × ListenerStateMachine :=
  if !isValidTransition m.inner.state next then
    (.error (.invalidConfig
      ("Invalid state transition: " ++ m.inner.state.display ++ " → " ++ next.display)), m)
  else
    let inner := if next = .running then { m.inner with recoveryAttempts := 0 } else m.inner
    -- The addition wraps in a build without overflow checks.
    let inner :=
      if next = .recovering then { inner with recoveryAttempts := inner.recoveryAttempts + 1 } else inner
    if next = .recovering ∧ m.maxRecoveryAttempts < inner.recoveryAttempts then
      (.error (.invalidConfig "Max recovery attempts exceeded"), { m with inner := inner })
    else
      (.ok (), { m with inner := { inner with state := next, stateChangeTime := now } })

variable {m : ListenerStateMachine} {next : ListenerState} {now : Nat}

theorem transition_invalid (h : isValidTransition m.inner.state next = false) :
    m.transition next now = (.error (.invalidConfig
      ("Invalid state transition: " ++ m.inner.state.display ++ " → " ++ next.display)), m) := by
  simp [transition, h]

theorem transition_running (h : isValidTransition m.inner.state .running = true) :
    m.transition .running now = (.ok (), { m with inner := ⟨.running, now, 0⟩ }) := by
  simp [transition, h]

theorem transition_accepted (h : isValidTransition m.inner.state next = true) (hrun : next ≠ .running)
    (hrec : next ≠ .recovering) :
    m.transition next now = (.ok (), { m with inner := ⟨next, now, m.inner.recoveryAttempts⟩ }) := by
  simp [transition, h, hrun, hrec]

/-- The count grows whether or not the recovery is granted. -/
theorem transition_recovering (h : isValidTransition m.inner.state .recovering = true) :
    m.transition .recovering now =
      if m.maxRecoveryAttempts < m.inner.recoveryAttempts + 1 then
        (.error (.invalidConfig "Max recovery attempts exceeded"),
          { m with inner := { m.inner with recoveryAttempts := m.inner.recoveryAttempts + 1 } })
      else (.ok (), { m with inner := ⟨.recovering, now, m.inner.recoveryAttempts + 1⟩ }) := by
  simp [transition, h]

theorem maxRecoveryAttempts_transition :
    (m.transition next now).2.maxRecoveryAttempts = m.maxRecoveryAttempts := by
  rw [transition]
  dsimp only
  split_ifs <;> rfl

end ListenerStateMachine

/-! ### Runs -/

/-- A request for a state, and the clock when it is served. -/
structure Request where
  next : ListenerState
  now : Nat

/-- A machine with the states it has entered, the last one first. -/
structure Observed where
  machine : ListenerStateMachine
  entered : List ListenerState

/-- Only a request that returns `Ok` enters a state. -/
def Observed.request (o : Observed) (r : Request) : Observed :=
  match o.machine.transition r.next r.now with
  | (.ok (), m) => ⟨m, r.next :: o.entered⟩
  | (.error _, m) => ⟨m, o.entered⟩

def Observed.start (now : Nat) (max : UInt32) : Observed := ⟨.new now max, []⟩

/-- The recoveries since the last `Running`. -/
def recoveries (entered : List ListenerState) : Nat :=
  (entered.takeWhile fun s => s ≠ .running).count .recovering

/-- What one request may do: an error changes nothing, the count stays within the limit and is the number of
recoveries since the last `Running`, and `Stopped` is kept. -/
structure Observed.Atomic (o : Observed) (r : Request) : Prop where
  unchanged : (o.machine.transition r.next r.now).1.isOk = false → (o.request r).machine = o.machine
  bounded : (o.request r).machine.inner.recoveryAttempts ≤ o.machine.maxRecoveryAttempts
  counted : (o.request r).machine.inner.recoveryAttempts.toNat = recoveries (o.request r).entered
  final : o.machine.inner.state = .stopped → (o.request r).machine.inner.state = .stopped

/-- A recovery that the table allows is asked for only while `can_recover` holds. -/
def Observed.WithinLimit (o : Observed) (r : Request) : Prop :=
  r.next = .recovering → ListenerStateMachine.isValidTransition o.machine.inner.state .recovering = true →
    o.machine.canRecover = true

/-- The count of a run that has kept to the limit. -/
structure Observed.Counted (o : Observed) : Prop where
  bounded : o.machine.inner.recoveryAttempts ≤ o.machine.maxRecoveryAttempts
  counted : o.machine.inner.recoveryAttempts.toNat = recoveries o.entered

namespace Observed

open ListenerStateMachine

variable {o : Observed} {r : Request}

theorem machine_request : (o.request r).machine = (o.machine.transition r.next r.now).2 := by
  rw [request]
  split
  · rename_i h
    rw [h]
  · rename_i h
    rw [h]

theorem recoveries_cons_running (entered : List ListenerState) : recoveries (.running :: entered) = 0 := by
  simp [recoveries]

theorem recoveries_cons_recovering (entered : List ListenerState) :
    recoveries (.recovering :: entered) = recoveries entered + 1 := by
  simp [recoveries]

theorem recoveries_cons {next : ListenerState} (hrun : next ≠ .running) (hrec : next ≠ .recovering)
    (entered : List ListenerState) : recoveries (next :: entered) = recoveries entered := by
  simp [recoveries, hrun, hrec]

theorem counted_start (now : Nat) (max : UInt32) : (start now max).Counted :=
  ⟨UInt32.zero_le, by simp [start, new, recoveries]⟩

theorem Atomic.counted_request (h : o.Atomic r) : (o.request r).Counted := by
  refine ⟨?_, h.counted⟩
  have hmax : (o.request r).machine.maxRecoveryAttempts = o.machine.maxRecoveryAttempts := by
    rw [machine_request, maxRecoveryAttempts_transition]
  rw [hmax]
  exact h.bounded

theorem atomic_invalid (hc : o.Counted) (h : isValidTransition o.machine.inner.state r.next = false) :
    o.Atomic r := by
  have hstay : o.request r = o := by
    rw [request, transition_invalid h]
  refine ⟨fun _ => ?_, ?_, ?_, fun hs => ?_⟩
  · rw [hstay]
  · rw [hstay]
    exact hc.bounded
  · rw [hstay]
    exact hc.counted
  · rw [hstay]
    exact hs

theorem not_stopped (h : isValidTransition o.machine.inner.state r.next = true) (hnext : r.next ≠ .stopped) :
    o.machine.inner.state ≠ .stopped := by
  intro hs
  rw [hs] at h
  cases hn : r.next with
  | stopped => exact hnext hn
  | initializing => rw [hn] at h; cases h
  | connecting => rw [hn] at h; cases h
  | running => rw [hn] at h; cases h
  | recovering => rw [hn] at h; cases h

/-- A request that is granted. -/
theorem atomic_granted {m : ListenerStateMachine} (h : o.machine.transition r.next r.now = (.ok (), m))
    (hstate : m.inner.state = r.next) (hvalid : isValidTransition o.machine.inner.state r.next = true)
    (hbound : m.inner.recoveryAttempts ≤ o.machine.maxRecoveryAttempts)
    (hcount : m.inner.recoveryAttempts.toNat = recoveries (r.next :: o.entered)) : o.Atomic r := by
  have hstep : o.request r = ⟨m, r.next :: o.entered⟩ := by
    rw [request, h]
  refine ⟨fun herr => ?_, ?_, ?_, fun hs => ?_⟩
  · rw [h] at herr
    cases herr
  · rwa [hstep]
  · rwa [hstep]
  · rw [hstep, hstate]
    by_contra hnext
    exact not_stopped hvalid hnext hs

theorem atomic_running (h : isValidTransition o.machine.inner.state r.next = true) (hr : r.next = .running) :
    o.Atomic r := by
  have hvalid := h
  rw [hr] at h
  apply atomic_granted (by rw [hr]; exact transition_running h) hr.symm hvalid UInt32.zero_le
  rw [hr, recoveries_cons_running]
  rfl

theorem atomic_accepted (hc : o.Counted) (h : isValidTransition o.machine.inner.state r.next = true)
    (hrun : r.next ≠ .running) (hrec : r.next ≠ .recovering) : o.Atomic r := by
  apply atomic_granted (transition_accepted h hrun hrec) rfl h hc.bounded
  rw [recoveries_cons hrun hrec]
  exact hc.counted

/-- A recovery that is asked for keeps everything exactly when there was room for it. -/
theorem atomic_recovering (hc : o.Counted) (h : isValidTransition o.machine.inner.state r.next = true)
    (hr : r.next = .recovering) : o.Atomic r ↔ o.machine.canRecover = true := by
  have hroom : o.machine.canRecover = true ↔
      o.machine.inner.recoveryAttempts.toNat < o.machine.maxRecoveryAttempts.toNat := by
    rw [canRecover, decide_eq_true_iff, UInt32.lt_iff_toNat_lt]
  have hbound := UInt32.le_iff_toNat_le.mp hc.bounded
  have hmax := o.machine.maxRecoveryAttempts.toNat_lt
  have hsum : (o.machine.inner.recoveryAttempts + 1).toNat =
      (o.machine.inner.recoveryAttempts.toNat + 1) % 2 ^ 32 := by
    rw [UInt32.toNat_add]
    rfl
  have hstep := h
  rw [hr] at hstep
  have htrans := @transition_recovering o.machine r.now hstep
  rw [hroom]
  constructor
  · intro hatomic
    have hunchanged := hatomic.unchanged
    have hcounted := hatomic.counted
    rw [machine_request, hr, htrans] at hunchanged
    rw [request, hr, htrans] at hcounted
    split_ifs at hunchanged hcounted with hover
    · -- A refusal has moved the count.
      have hsame := congrArg (fun m => m.inner.recoveryAttempts.toNat) (hunchanged rfl)
      simp only [hsum] at hsame
      omega
    · rw [UInt32.lt_iff_toNat_lt, hsum] at hover
      simp only [hsum, recoveries_cons_recovering, ← hc.counted] at hcounted
      omega
  · intro hlt
    have hgranted : ¬o.machine.maxRecoveryAttempts < o.machine.inner.recoveryAttempts + 1 := by
      rw [UInt32.lt_iff_toNat_lt, hsum]
      omega
    rw [if_neg hgranted, ← hr] at htrans
    apply atomic_granted htrans rfl h
    · rw [UInt32.le_iff_toNat_le, hsum]
      omega
    · rw [hr, recoveries_cons_recovering, ← hc.counted, hsum]
      omega

theorem atomic_iff (hc : o.Counted) : o.Atomic r ↔ o.WithinLimit r := by
  by_cases hr : r.next = .recovering
  · cases h : isValidTransition o.machine.inner.state r.next with
    | false =>
      refine iff_of_true (atomic_invalid hc h) fun _ hvalid => ?_
      rw [hr, hvalid] at h
      cases h
    | true =>
      rw [atomic_recovering hc h hr]
      rw [hr] at h
      exact ⟨fun hroom _ _ => hroom, fun hlimit => hlimit hr h⟩
  · refine iff_of_true ?_ fun hnext => absurd hnext hr
    cases h : isValidTransition o.machine.inner.state r.next with
    | false => exact atomic_invalid hc h
    | true =>
      by_cases hrun : r.next = .running
      · exact atomic_running h hrun
      · exact atomic_accepted hc h hrun hr

/-- Every request of a run is served atomically exactly when no recovery is asked for beyond the limit. -/
theorem transitions_atomic_iff (now : Nat) (max : UInt32) (requests : List Request) :
    EventRun.Along request Atomic (start now max) requests ↔
      EventRun.Along request WithinLimit (start now max) requests := by
  have hkept : ∀ o r, Counted o → Atomic o r → Counted (request o r) := fun _ _ _ h => h.counted_request
  exact EventRun.along_iff hkept (fun _ _ hc => atomic_iff hc) (counted_start now max)

/-- Three failed reconnections use up the default limit, and the fourth is refused with the count at 4. -/
theorem transitions_drift : ¬ ∀ requests : List Request,
    EventRun.Along request Atomic (start 0 3) requests := by
  intro h
  obtain ⟨-, -, -, -, -, -, -, hlast, -⟩ := h ([.connecting, .recovering, .connecting, .recovering,
    .connecting, .recovering, .connecting, .recovering].map fun next => ⟨next, 0⟩)
  exact absurd (hlast.unchanged (by decide)) (by decide)

end Observed

end FraiseQL.Listener
