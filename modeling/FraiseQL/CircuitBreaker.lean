import FraiseQL.EventRun

/-! The circuit breaker of a federated entity (`federation/circuit_breaker.rs`). An outcome is recorded in whatever
state it finds, and does not say which request it belongs to. Runs therefore keep what the breaker does not: which
requests still wait for their outcome, and what was recorded since when. -/

namespace FraiseQL.CircuitBreaker

structure CircuitBreakerConfig where
  failureThreshold : Nat
  recoveryTimeoutSecs : Nat
  successThreshold : Nat

/-- Moments and durations are in nanoseconds. -/
inductive CircuitState where
  | closed (consecutiveFailures : Nat)
  | opened (openedAt recoveryTimeout : Nat)
  | halfOpen (consecutiveFailures : Nat) (probeInFlight : Bool) (successes : Nat)

open CircuitState

def CircuitState.isOpen : CircuitState → Bool
  | opened .. => true
  | _ => false

variable (config : CircuitBreakerConfig)

def CircuitBreakerConfig.recoveryTimeout : Nat := config.recoveryTimeoutSecs * 1000000000

/-- The state that is left, and the seconds to wait of a request that is rejected. -/
def check (now : Nat) : CircuitState → CircuitState × Option Nat
  | closed n => (closed n, none)
  | opened openedAt recoveryTimeout =>
    if now - openedAt < recoveryTimeout then (opened openedAt recoveryTimeout, some config.recoveryTimeoutSecs)
    else (halfOpen 0 true 0, none)
  | halfOpen n true successes => (halfOpen n true successes, some config.recoveryTimeoutSecs)
  | halfOpen n false successes => (halfOpen n true successes, none)

def recordSuccess : CircuitState → CircuitState
  | halfOpen n _ successes =>
    if config.successThreshold ≤ successes + 1 then closed 0 else halfOpen n false (successes + 1)
  | state => state

def recordFailure (now : Nat) : CircuitState → CircuitState
  | opened openedAt recoveryTimeout => opened openedAt recoveryTimeout
  | closed n => if config.failureThreshold ≤ n + 1 then opened now config.recoveryTimeout else closed (n + 1)
  | halfOpen n _ successes =>
    if config.failureThreshold ≤ n + 1 then opened now config.recoveryTimeout else halfOpen (n + 1) false successes

/-! ### Runs -/

/-- A breaker with its clock and its history. Of the requests that wait for their outcome the probes are those that
were admitted since the state became `HalfOpen`. -/
structure Observed where
  state : CircuitState
  clock : Nat
  probes : Nat
  others : Nat
  /-- The failures since the last success or opening. -/
  failures : Nat
  /-- The successes of probes since the state became `HalfOpen` or a probe failed. -/
  probeSuccesses : Nat
  /-- The last opening. -/
  openedAt : Option Nat

def start : Observed := ⟨closed 0, 0, 0, 0, 0, 0, none⟩

inductive Event where
  | tick (nanoseconds : Nat)
  | check
  | outcome (probe success : Bool)

namespace Observed

variable (o : Observed)

/-- A request is admitted, and the circuit is left in a state. -/
def grant (state : CircuitState) : Observed :=
  match o.state with
  | closed _ => { o with state, others := o.others + 1 }
  | opened .. => { o with state, probes := 1, others := o.others + o.probes, probeSuccesses := 0 }
  | halfOpen .. => { o with state, probes := o.probes + 1 }

/-- A request of this kind waits for its outcome. -/
def Waiting (probe : Bool) : Prop := 0 < if probe then o.probes else o.others

instance (probe : Bool) : Decidable (o.Waiting probe) := inferInstanceAs (Decidable (_ < _))

/-- An outcome leaves the circuit in a state; probes are probes only as long as it is `HalfOpen`. -/
def record (probe success : Bool) (state : CircuitState) : Observed :=
  let tripped := state.isOpen && !o.state.isOpen
  let probes := if probe then o.probes - 1 else o.probes
  let others := if probe then o.others else o.others - 1
  let o := { o with
    state
    failures := if success || tripped then 0 else o.failures + 1
    probeSuccesses := if probe then (if success then o.probeSuccesses + 1 else 0) else o.probeSuccesses
    openedAt := if tripped then some o.clock else o.openedAt }
  match state with
  | halfOpen .. => { o with probes, others }
  | _ => { o with probes := 0, others := others + probes }

def step : Event → Observed
  | .tick nanoseconds => { o with clock := o.clock + nanoseconds }
  | .check =>
    match check config o.clock o.state with
    | (state, none) => o.grant state
    | (_, some _) => o
  | .outcome probe success =>
    if o.Waiting probe then
      o.record probe success (if success then recordSuccess config o.state else recordFailure config o.clock o.state)
    else o

/-- The last opening is past its timeout. -/
def Rested : Prop := ∀ t ∈ o.openedAt, t + config.recoveryTimeout ≤ o.clock

/-- What is promised of a step: a closed circuit opens exactly with the failure that reaches the threshold, none is
admitted before the timeout, a half-open circuit has one probe at most, and it closes after enough probes in a row. -/
structure Promised (e : Event) : Prop where
  opens : ∀ n, o.state = closed n → ((o.step config e).state.isOpen = true ↔
    ∃ probe, e = .outcome probe false ∧ o.Waiting probe ∧ config.failureThreshold ≤ o.failures + 1)
  rested : e = .check → (check config o.clock o.state).2 = none → o.Rested config
  single : ∀ n inFlight successes, (o.step config e).state = halfOpen n inFlight successes →
    (o.step config e).probes ≤ 1
  closes : ∀ n m inFlight successes, o.state = halfOpen m inFlight successes → (o.step config e).state = closed n →
    config.successThreshold ≤ (o.step config e).probeSuccesses

/-- A success finds a closed circuit without a failure on count, the outcome that finds a half-open one is that of its
probe, and the probe fails only if it opens the circuit or no success is on count. -/
def InOrder : Event → Prop
  | .outcome probe success => o.Waiting probe →
    match o.state with
    | closed n => success = true → n = 0
    | opened .. => True
    | halfOpen n _ successes => probe = true ∧ (success = true ∨ successes = 0 ∨ config.failureThreshold ≤ n + 1)
  | _ => True

/-- The counters of the breaker are those of its history. -/
def Inv : Prop :=
  match o.state with
  | closed n => o.failures = n ∧ o.Rested config
  | opened t timeout => o.openedAt = some t ∧ t ≤ o.clock ∧ timeout = config.recoveryTimeout
  | halfOpen _ inFlight successes =>
    o.probes = (if inFlight then 1 else 0) ∧ o.probeSuccesses = successes ∧ o.Rested config

variable {config} {o}

/-- A request is only admitted past the timeout. -/
theorem Inv.rested (h : o.Inv config) (hadmitted : (check config o.clock o.state).2 = none) : o.Rested config := by
  unfold Inv at h
  cases hstate : o.state with
  | closed n =>
    rw [hstate] at h
    exact h.2
  | opened openedAt timeout =>
    rw [hstate] at h hadmitted
    obtain ⟨hopened, hle, rfl⟩ := h
    intro t ht
    obtain rfl := Option.some.inj (hopened.symm.trans ht)
    rw [check] at hadmitted
    split_ifs at hadmitted with hearly
    omega
  | halfOpen n inFlight successes =>
    rw [hstate] at h
    exact h.2.2

theorem Inv.step (h : o.Inv config) {e : Event} (hok : o.InOrder config e) : (o.step config e).Inv config := by
  have hrested := h.rested
  obtain ⟨state, clock, probes, others, failures, probeSuccesses, openedAt⟩ := o
  cases e with
  | tick d =>
    cases state <;> simp only [Observed.step, Inv, Rested] at h ⊢ <;> grind
  | check =>
    rcases state with n | ⟨t, timeout⟩ | ⟨n, _ | _, successes⟩ <;>
      simp only [Observed.step, check, grant, Inv] at h hrested ⊢ <;> grind [Rested]
  | outcome probe success =>
    cases state <;> cases success <;> cases probe <;>
      simp only [Observed.step, record, recordSuccess, recordFailure, InOrder, Waiting, Inv] at h hok hrested ⊢ <;>
      grind [Rested, isOpen]

theorem Inv.opens (h : o.Inv config) {e : Event} (hok : o.InOrder config e) {n : Nat} (hstate : o.state = closed n) :
    (o.step config e).state.isOpen = true ↔
      ∃ probe, e = .outcome probe false ∧ o.Waiting probe ∧ config.failureThreshold ≤ o.failures + 1 := by
  obtain ⟨state, clock, probes, others, failures, probeSuccesses, openedAt⟩ := o
  obtain rfl : state = closed n := hstate
  cases e with
  | tick d => simp [Observed.step, isOpen]
  | check => simp [Observed.step, isOpen, check, grant]
  | outcome probe success =>
    cases success <;>
      simp only [Observed.step, record, recordSuccess, recordFailure, InOrder, Waiting, Inv] at h hok ⊢ <;>
      grind [isOpen]

theorem Inv.closes (h : o.Inv config) {e : Event} (hok : o.InOrder config e) {n m successes : Nat} {inFlight : Bool}
    (hstate : o.state = halfOpen m inFlight successes) (hclosed : (o.step config e).state = closed n) :
    config.successThreshold ≤ (o.step config e).probeSuccesses := by
  obtain ⟨state, clock, probes, others, failures, probeSuccesses, openedAt⟩ := o
  obtain rfl : state = halfOpen m inFlight successes := hstate
  cases e with
  | tick d => cases hclosed
  | check => cases inFlight <;> cases hclosed
  | outcome probe success =>
    cases success <;>
      simp only [Observed.step, record, recordSuccess, recordFailure, InOrder, Waiting, Inv] at h hok hclosed ⊢ <;>
      grind

theorem Inv.promised (h : o.Inv config) {e : Event} (hok : o.InOrder config e) : o.Promised config e where
  opens := fun _ => h.opens hok
  rested := fun _ => h.rested
  single := by
    intro n inFlight successes hstate
    have hinv := h.step hok
    unfold Inv at hinv
    rw [hstate] at hinv
    rw [hinv.1]
    split <;> omega
  closes := fun _ _ _ _ => h.closes hok

theorem inv_start : start.Inv config := ⟨rfl, nofun⟩

/-- In a run whose outcomes come in order every step is as promised. -/
theorem promised_along_run (config : CircuitBreakerConfig) (events : List Event)
    (h : EventRun.Along (step config) (InOrder config) start events) :
    EventRun.Along (step config) (Promised config) start events :=
  h.mono (fun _ _ hinv hok => hinv.step hok) (fun _ _ hinv hok => hinv.promised hok) inv_start

/-- Two failures open the circuit, and 30 s later a probe closes it. -/
theorem promised_recovery : EventRun.Along (step ⟨2, 30, 1⟩) (Promised ⟨2, 30, 1⟩) start
    [.check, .check, .outcome false false, .outcome false false, .tick 30000000000, .check, .outcome true true] :=
  promised_along_run _ _ ⟨trivial, trivial, nofun, nofun, trivial, trivial, fun _ => ⟨rfl, .inl rfl⟩, trivial⟩

/-- The second of two failures opens the circuit although a success was recorded between them. -/
theorem success_forgotten : ¬∀ events, EventRun.Along (step ⟨2, 30, 1⟩) (Promised ⟨2, 30, 1⟩) start events := by
  intro h
  obtain ⟨-, -, -, -, -, hlast, -⟩ :=
    h [.check, .check, .check, .outcome false false, .outcome false true, .outcome false false]
  obtain ⟨_, _, _, hle⟩ := (hlast.opens 1 rfl).mp rfl
  exact absurd hle (by decide)

/-! ### Runs in any order -/

open EventRun

/-- What outcomes in any order leave: an open circuit knows when it opened, and another one is past the timeout. -/
def Timed (config : CircuitBreakerConfig) (o : Observed) : Prop :=
  match o.state with
  | opened t timeout => o.openedAt = some t ∧ t ≤ o.clock ∧ timeout = config.recoveryTimeout
  | _ => o.Rested config

theorem Timed.rested (h : o.Timed config) (hadmitted : (check config o.clock o.state).2 = none) : o.Rested config := by
  obtain ⟨state, clock, probes, others, failures, probeSuccesses, openedAt⟩ := o
  cases state <;> simp only [Timed, check, Rested] at h hadmitted ⊢ <;> grind

theorem Timed.step (h : o.Timed config) (e : Event) : (o.step config e).Timed config := by
  have hrested := h.rested
  obtain ⟨state, clock, probes, others, failures, probeSuccesses, openedAt⟩ := o
  cases e with
  | tick d =>
    cases state <;> simp only [Observed.step, Timed, Rested] at h ⊢ <;> grind
  | check =>
    rcases state with n | ⟨t, timeout⟩ | ⟨n, _ | _, successes⟩ <;>
      simp only [Observed.step, check, grant, Timed] at h hrested ⊢ <;> grind [Rested]
  | outcome probe success =>
    cases state <;> cases success <;> cases probe <;>
      simp only [Observed.step, record, recordSuccess, recordFailure, Waiting, Timed] at h hrested ⊢ <;>
      grind [Rested, isOpen]

/-- A probe that succeeds, and the next request. -/
def succeeding (n : Nat) : List Event := (List.replicate n [Event.outcome true true, .check]).flatten

theorem closes_succeeding {m successes n : Nat} (hhalf : o.state = halfOpen m true successes) (hprobes : o.probes = 1)
    (hn : successes + n = max 1 config.successThreshold) (hpos : 0 < n) :
    (run (step config) o (succeeding n)).state = closed 0 := by
  induction n generalizing o successes with
  | zero => omega
  | succ n ih =>
    by_cases henough : config.successThreshold ≤ successes + 1
    · obtain rfl : n = 0 := by omega
      simp [succeeding, Observed.step, Waiting, hprobes, hhalf, recordSuccess, henough, record, check, grant]
    · rw [succeeding, List.replicate_succ, List.flatten_cons, run_append]
      have hnext : let next := run (step config) o [.outcome true true, .check]
          next.state = halfOpen m true (successes + 1) ∧ next.probes = 1 := by
        simp [Observed.step, Waiting, hprobes, hhalf, recordSuccess, henough, record, check, grant]
      apply ih hnext.1 hnext.2
      · omega
      · omega

/-- In every run, whatever the order of the outcomes, no request is admitted within the timeout of the last opening, and
an open circuit closes after the timeout and as many successful probes as it asks for. -/
theorem rests_and_recovers (config : CircuitBreakerConfig) (events : List Event) :
    let o := run (step config) start events
    Along (step config) (fun o e => e = .check → (check config o.clock o.state).2 = none → o.Rested config)
      start events ∧
    (o.state.isOpen = true → (run (step config) o
      (.tick config.recoveryTimeout :: .check :: succeeding (max 1 config.successThreshold))).state = closed 0) := by
  intro o
  have hstart : start.Timed config := fun t ht => by cases ht
  constructor
  · have hany : Along (step config) (fun _ _ => True) start events := along_const.mpr fun _ _ => trivial
    exact hany.mono (fun _ e h _ => h.step e) (fun _ _ h _ _ hadmitted => h.rested hadmitted) hstart
  · intro hopen
    have htimed : o.Timed config := run_invariant (fun o e (h : o.Timed config) => h.step e) events hstart
    clear_value o
    obtain ⟨state, clock, probes, others, failures, probeSuccesses, openedAt⟩ := o
    cases state with
    | opened t timeout =>
      obtain ⟨-, hpast, htimeout⟩ := htimed
      have hlate : ¬clock + timeout - t < timeout := by
        dsimp only at hpast
        omega
      rw [← htimeout, run_cons, run_cons]
      refine closes_succeeding (?_ : _ = halfOpen 0 true 0) ?_ (by omega) (by omega)
      · simp [Observed.step, check, hlate, grant]
      · simp [Observed.step, check, hlate, grant]
    | _ => cases hopen

end Observed

end FraiseQL.CircuitBreaker
