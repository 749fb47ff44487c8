import Mathlib.Data.List.AList
import Mathlib.Data.List.Sort
import Mathlib.Data.String.Basic
import FraiseQL.ListenerState

/-! Several listeners with one leader (`fraiseql-observers/src/listener/coordinator.rs`, `failover.rs`). Whoever is
elected takes over from a failed listener. A failure is a state other than `Running` or a heartbeat older than a
threshold; an election keeps a leader by its state alone and otherwise goes by a heartbeat within 60 seconds. -/

namespace FraiseQL.Listener

open List

/-- Times are in nanoseconds. -/
structure ListenerHealth where
  listenerId : String
  isHealthy : Bool
  lastCheckpoint : Int64
  state : ListenerState
  lastHeartbeat : Nat

structure ListenerHandle where
  stateMachine : ListenerStateMachine
  checkpoint : UInt64
  lastHeartbeat : Nat

def ListenerHandle.state (h : ListenerHandle) : ListenerState := h.stateMachine.inner.state

/-- The order of an election. -/
def ListenerHealth.Before (a b : ListenerHealth) : Prop := a.listenerId ≤ b.listenerId

namespace ListenerHealth

instance : DecidableRel Before := fun a b => inferInstanceAs (Decidable (a.listenerId ≤ b.listenerId))

instance : IsTrans ListenerHealth Before := ⟨fun _ _ _ hab hbc => String.le_trans hab hbc⟩

instance : Std.Total Before := ⟨fun a b => String.le_total a.listenerId b.listenerId⟩

end ListenerHealth

structure MultiListenerCoordinator where
  listeners : AList fun _ : String => ListenerHandle
  leaderId : Option String

def notFound (id : String) : ObserverError := .invalidConfig ("Listener " ++ id ++ " not found")

def asSecs (nanos : Nat) : Nat := nanos / 10 ^ 9

def fromMillis (millis : UInt64) : Nat := millis.toNat * 10 ^ 6

/-- The health of one registered listener. -/
def ListenerHandle.health (id : String) (handle : ListenerHandle) (now : Nat) : ListenerHealth :=
  { listenerId := id
    isHealthy := handle.state = .running ∧ asSecs (now - handle.lastHeartbeat) < 60
    lastCheckpoint := handle.checkpoint.toInt64
    state := handle.state
    lastHeartbeat := handle.lastHeartbeat }

namespace MultiListenerCoordinator

def new : MultiListenerCoordinator := ⟨∅, none⟩

variable (c : MultiListenerCoordinator)

def registerListener (id : String) (now : Nat) : MultiListenerCoordinator :=
  { c with listeners := c.listeners.insert id ⟨.new now, 0, now⟩ }

def deregisterListener (id : String) : MultiListenerCoordinator := { c with listeners := c.listeners.erase id }

def getListenerState (id : String) : Except ObserverError ListenerState :=
  match c.listeners.lookup id with
  | some handle => .ok handle.state
  | none => .error (notFound id)

/-- What is written to a registered listener. -/
def update (id : String) (f : ListenerHandle → ListenerHandle) : Except ObserverError Unit × MultiListenerCoordinator :=
  match c.listeners.lookup id with
  | some handle => (.ok (), { c with listeners := c.listeners.insert id (f handle) })
  | none => (.error (notFound id), c)

def updateHeartbeat (id : String) (now : Nat) := c.update id fun handle => { handle with lastHeartbeat := now }

def updateCheckpoint (id : String) (checkpoint : Int64) :=
  c.update id fun handle => { handle with checkpoint := checkpoint.toUInt64 }

def transitionListenerState (id : String) (next : ListenerState) (now : Nat) :
    Except ObserverError Unit × MultiListenerCoordinator :=
  match c.listeners.lookup id with
  | some handle =>
    let (result, machine) := handle.stateMachine.transition next now
    (result, { c with listeners := c.listeners.insert id { handle with stateMachine := machine } })
  | none => (.error (notFound id), c)

/-- In the order of the map, which the two callers do not depend on. -/
def checkListenerHealth (now : Nat) : List ListenerHealth :=
  c.listeners.entries.map fun e => e.2.health e.1 now

/-- The leader as long as it is registered and running. -/
def keptLeader : Option String :=
  c.leaderId.filter fun id =>
    match c.getListenerState id with
    | .ok state => state = .running
    | .error _ => false

def electLeader (now : Nat) : Except ObserverError String × MultiListenerCoordinator :=
  match c.keptLeader with
  | some currentLeader => (.ok currentLeader, c)
  | none =>
    match ((c.checkListenerHealth now).filter (·.isHealthy)).insertionSort ListenerHealth.Before with
    | [] => (.error (.invalidConfig "No healthy listeners available for election"), c)
    | newLeader :: _ => (.ok newLeader.listenerId, { c with leaderId := some newLeader.listenerId })

end MultiListenerCoordinator

open MultiListenerCoordinator

/-! ### Failover -/

structure FailoverEvent where
  failedListenerId : String
  failoverTargetId : String
  checkpoint : Int64
  timestamp : Nat

def detectFailures (c : MultiListenerCoordinator) (failoverThresholdMs : UInt64) (now : Nat) : List String :=
  ((c.checkListenerHealth now).filter fun h =>
    h.state ≠ .running ∨ fromMillis failoverThresholdMs ≤ now - h.lastHeartbeat).map (·.listenerId)

def triggerFailover (c : MultiListenerCoordinator) (failed : String) (now : Nat) :
    Except ObserverError FailoverEvent × MultiListenerCoordinator :=
  match (c.checkListenerHealth now).find? (·.listenerId = failed) with
  | none => (.error (notFound failed), c)
  | some health =>
    match c.electLeader now with
    | (.ok target, c') => (.ok ⟨failed, target, health.lastCheckpoint, now⟩, c')
    | (.error e, c') => (.error e, c')

/-! ### Runs -/

inductive CoordinatorOp where
  | register (id : String)
  | deregister (id : String)
  | heartbeat (id : String)
  | checkpoint (id : String) (value : Int64)
  | transition (id : String) (next : ListenerState)
  | elect
  | failover (id : String)
  | pass (nanos : Nat)

structure Cluster where
  coordinator : MultiListenerCoordinator
  now : Nat

namespace Cluster

def start : Cluster := ⟨.new, 0⟩

def step (s : Cluster) : CoordinatorOp → Cluster
  | .register id => { s with coordinator := s.coordinator.registerListener id s.now }
  | .deregister id => { s with coordinator := s.coordinator.deregisterListener id }
  | .heartbeat id => { s with coordinator := (s.coordinator.updateHeartbeat id s.now).2 }
  | .checkpoint id value => { s with coordinator := (s.coordinator.updateCheckpoint id value).2 }
  | .transition id next => { s with coordinator := (s.coordinator.transitionListenerState id next s.now).2 }
  | .elect => { s with coordinator := (s.coordinator.electLeader s.now).2 }
  | .failover id => { s with coordinator := (triggerFailover s.coordinator id s.now).2 }
  | .pass nanos => { s with now := s.now + nanos }

variable (s : Cluster)

def detected (thresholdMs : UInt64) : List String := detectFailures s.coordinator thresholdMs s.now

/-- A failover from a detected listener ends at another one that is not itself detected. -/
def FailsOver (thresholdMs : UInt64) : Prop :=
  ∀ f ∈ s.detected thresholdMs, ∀ event, (triggerFailover s.coordinator f s.now).1 = .ok event →
    event.failoverTargetId ≠ f ∧ event.failoverTargetId ∉ s.detected thresholdMs

/-- Registered and running, with its last heartbeat so long ago. -/
def Silent (id : String) (nanos : Nat) : Prop :=
  ∃ handle, s.coordinator.listeners.lookup id = some handle ∧ handle.state = .running ∧
    nanos = s.now - handle.lastHeartbeat

/-- The leader while it is running; without such a leader, the first of those that were heard in the last minute. -/
def InLine (id : String) (nanos : Nat) : Prop :=
  s.coordinator.leaderId = some id ∨
    (∀ leader, s.coordinator.leaderId = some leader → ¬∃ nanos, s.Silent leader nanos) ∧
      nanos < 60 * 10 ^ 9 ∧ ∀ other nanos', s.Silent other nanos' → nanos' < 60 * 10 ^ 9 → id ≤ other

/-- Who is in line has been heard within the threshold. -/
def HeardInTime (thresholdMs : UInt64) : Prop :=
  ∀ id nanos, s.Silent id nanos → s.InLine id nanos → nanos < fromMillis thresholdMs

variable {s} {id : String} {thresholdMs : UInt64}

theorem mem_health {h : ListenerHealth} : h ∈ s.coordinator.checkListenerHealth s.now ↔
    ∃ id handle, s.coordinator.listeners.lookup id = some handle ∧ handle.health id s.now = h := by
  rw [checkListenerHealth, mem_map]
  constructor
  · rintro ⟨⟨id, handle⟩, hmem, rfl⟩
    exact ⟨id, handle, AList.mem_lookup_iff.mpr hmem, rfl⟩
  · rintro ⟨id, handle, hlookup, rfl⟩
    exact ⟨⟨id, handle⟩, AList.mem_lookup_iff.mp hlookup, rfl⟩

theorem mem_detected : id ∈ s.detected thresholdMs ↔ ∃ handle, s.coordinator.listeners.lookup id = some handle ∧
    (handle.state ≠ .running ∨ fromMillis thresholdMs ≤ s.now - handle.lastHeartbeat) := by
  rw [detected, detectFailures, mem_map]
  constructor
  · rintro ⟨h, hmem, rfl⟩
    obtain ⟨hmem, hfailed⟩ := mem_filter.mp hmem
    obtain ⟨id, handle, hlookup, rfl⟩ := mem_health.mp hmem
    exact ⟨handle, hlookup, of_decide_eq_true hfailed⟩
  · rintro ⟨handle, hlookup, hfailed⟩
    exact ⟨handle.health id s.now,
      mem_filter.mpr ⟨mem_health.mpr ⟨id, handle, hlookup, rfl⟩, decide_eq_true hfailed⟩, rfl⟩

theorem mem_detected_of_silent {nanos : Nat} (h : s.Silent id nanos) :
    id ∈ s.detected thresholdMs ↔ fromMillis thresholdMs ≤ nanos := by
  obtain ⟨handle, hlookup, hrunning, rfl⟩ := h
  rw [mem_detected]
  constructor
  · rintro ⟨handle', hlookup', hfailed⟩
    obtain rfl := Option.some.inj (hlookup'.symm.trans hlookup)
    exact hfailed.resolve_left fun hne => hne hrunning
  · intro hle
    exact ⟨handle, hlookup, .inr hle⟩

theorem keptLeader_eq_some : s.coordinator.keptLeader = some id ↔
    s.coordinator.leaderId = some id ∧ ∃ nanos, s.Silent id nanos := by
  rw [keptLeader, Option.filter_eq_some_iff]
  refine and_congr_right fun _ => ?_
  rw [getListenerState]
  cases hlookup : s.coordinator.listeners.lookup id with
  | none => simp [Silent, hlookup]
  | some handle => simp [Silent, hlookup]

theorem isHealthy_iff {handle : ListenerHandle} (hlookup : s.coordinator.listeners.lookup id = some handle) :
    (handle.health id s.now).isHealthy = true ↔ ∃ nanos, s.Silent id nanos ∧ nanos < 60 * 10 ^ 9 := by
  have hsecs : asSecs (s.now - handle.lastHeartbeat) < 60 ↔ s.now - handle.lastHeartbeat < 60 * 10 ^ 9 := by
    rw [asSecs]
    omega
  rw [ListenerHandle.health, decide_eq_true_iff, hsecs]
  constructor
  · rintro ⟨hrunning, hlt⟩
    exact ⟨_, ⟨handle, hlookup, hrunning, rfl⟩, hlt⟩
  · rintro ⟨_, ⟨handle', hlookup', hrunning, rfl⟩, hlt⟩
    obtain rfl := Option.some.inj (hlookup'.symm.trans hlookup)
    exact ⟨hrunning, hlt⟩

/-- Who is elected is a running listener that is in line. -/
theorem electLeader_eq_ok : (s.coordinator.electLeader s.now).1 = .ok id ↔
    ∃ nanos, s.Silent id nanos ∧ s.InLine id nanos := by
  rw [electLeader]
  cases hkept : s.coordinator.keptLeader with
  | some leader =>
    obtain ⟨hleader, nanos, hsilent⟩ := keptLeader_eq_some.mp hkept
    constructor
    · rintro ⟨⟩
      exact ⟨nanos, hsilent, .inl hleader⟩
    · rintro ⟨_, -, hline | ⟨hnone, -⟩⟩
      · exact congrArg _ (Option.some.inj (hleader.symm.trans hline))
      · exact absurd ⟨nanos, hsilent⟩ (hnone leader hleader)
  | none =>
    have hnone : ∀ leader, s.coordinator.leaderId = some leader → ¬∃ nanos, s.Silent leader nanos :=
      fun leader hleader hsilent => by
        rw [keptLeader_eq_some.mpr ⟨hleader, hsilent⟩] at hkept
        cases hkept
    dsimp only
    have hsorted := pairwise_insertionSort ListenerHealth.Before
      ((s.coordinator.checkListenerHealth s.now).filter (·.isHealthy))
    have hmem : ∀ h,
        h ∈ ((s.coordinator.checkListenerHealth s.now).filter (·.isHealthy)).insertionSort ListenerHealth.Before ↔
          h ∈ s.coordinator.checkListenerHealth s.now ∧ h.isHealthy = true := fun h => by
      rw [mem_insertionSort, mem_filter]
    generalize ((s.coordinator.checkListenerHealth s.now).filter (·.isHealthy)).insertionSort
      ListenerHealth.Before = sorted at hsorted hmem
    have hheard : ∀ other nanos, s.Silent other nanos → nanos < 60 * 10 ^ 9 → ∃ h ∈ sorted, h.listenerId = other := by
      rintro other nanos ⟨handle, hlookup, hrunning, rfl⟩ hlt
      exact ⟨handle.health other s.now, (hmem _).mpr ⟨mem_health.mpr ⟨other, handle, hlookup, rfl⟩,
        (isHealthy_iff hlookup).mpr ⟨_, ⟨handle, hlookup, hrunning, rfl⟩, hlt⟩⟩, rfl⟩
    cases sorted with
    | nil =>
      refine iff_of_false nofun ?_
      rintro ⟨nanos, hsilent, hline | ⟨-, hlt, -⟩⟩
      · exact hnone id hline ⟨nanos, hsilent⟩
      · obtain ⟨h, hin, -⟩ := hheard id nanos hsilent hlt
        cases hin
    | cons first rest =>
      obtain ⟨hfirst, hhealthy⟩ := (hmem first).mp mem_cons_self
      obtain ⟨id', handle, hlookup, rfl⟩ := mem_health.mp hfirst
      obtain ⟨nanos, hsilent, hlt⟩ := (isHealthy_iff hlookup).mp hhealthy
      have hleast : ∀ other nanos, s.Silent other nanos → nanos < 60 * 10 ^ 9 → id' ≤ other := by
        intro other nanos hother hheardOther
        obtain ⟨h, hin, rfl⟩ := hheard other nanos hother hheardOther
        rcases mem_cons.mp hin with rfl | hin
        · exact le_rfl
        · exact (pairwise_cons.mp hsorted).1 h hin
      constructor
      · rintro ⟨⟩
        exact ⟨nanos, hsilent, .inr ⟨hnone, hlt, hleast⟩⟩
      · rintro ⟨nanos', hsilent', hline | ⟨-, hlt', hleast'⟩⟩
        · exact absurd ⟨nanos', hsilent'⟩ (hnone id hline)
        · exact congrArg _ (le_antisymm (hleast id nanos' hsilent' hlt') (hleast' _ nanos hsilent hlt))

theorem triggerFailover_target {f : String} (hf : f ∈ s.detected thresholdMs) (target : String) :
    (∃ event, (triggerFailover s.coordinator f s.now).1 = .ok event ∧ event.failoverTargetId = target) ↔
      (s.coordinator.electLeader s.now).1 = .ok target := by
  have hfound : ((s.coordinator.checkListenerHealth s.now).find? (·.listenerId = f)).isSome := by
    obtain ⟨handle, hlookup, -⟩ := mem_detected.mp hf
    rw [find?_isSome]
    exact ⟨handle.health f s.now, mem_health.mpr ⟨f, handle, hlookup, rfl⟩, decide_eq_true rfl⟩
  obtain ⟨health, hhealth⟩ := Option.isSome_iff_exists.mp hfound
  rw [triggerFailover, hhealth]
  dsimp only
  rcases s.coordinator.electLeader s.now with ⟨e | elected, c'⟩
  · exact iff_of_false (fun ⟨_, h, _⟩ => nomatch h) nofun
  · constructor
    · rintro ⟨_, ⟨⟩, rfl⟩
      rfl
    · rintro ⟨⟩
      exact ⟨_, rfl, rfl⟩

theorem failsOver_iff : s.FailsOver thresholdMs ↔ s.HeardInTime thresholdMs := by
  constructor
  · intro h id nanos hsilent hline
    by_contra hlate
    -- Otherwise the target is itself a detected listener, whose failover ends where it began.
    have hdetected : id ∈ s.detected thresholdMs := (mem_detected_of_silent hsilent).mpr (Nat.le_of_not_lt hlate)
    obtain ⟨event, hevent, htarget⟩ :=
      (triggerFailover_target hdetected id).mpr (electLeader_eq_ok.mpr ⟨nanos, hsilent, hline⟩)
    exact (h id hdetected event hevent).1 htarget
  · intro h f hf event hevent
    obtain ⟨nanos, hsilent, hline⟩ :=
      electLeader_eq_ok.mp ((triggerFailover_target hf _).mp ⟨event, hevent, rfl⟩)
    have hhealthy : event.failoverTargetId ∉ s.detected thresholdMs := fun hdetected =>
      absurd (h _ nanos hsilent hline) (Nat.not_lt.mpr ((mem_detected_of_silent hsilent).mp hdetected))
    exact ⟨fun heq => hhealthy (heq ▸ hf), hhealthy⟩

/-- At every moment of every run, failover ends at a healthy listener exactly when whoever is in line for the
election has been heard within the threshold. -/
theorem failover_target_iff (thresholdMs : UInt64) (ops : List CoordinatorOp) :
    (EventRun.run step start ops).FailsOver thresholdMs ↔ (EventRun.run step start ops).HeardInTime thresholdMs :=
  failsOver_iff

/-- A leader that stops beating without a change of its state takes over from itself, with the default threshold. -/
theorem failover_to_silent_leader : ¬∀ ops : List CoordinatorOp,
    (EventRun.run step start ops).FailsOver 60000 := by
  intro h
  have hrun := failsOver_iff.mp (h [.register "a", .transition "a" .connecting, .transition "a" .running, .elect,
    .pass (61 * 10 ^ 9), .register "b", .transition "b" .connecting, .transition "b" .running, .heartbeat "b"])
  exact absurd (hrun "a" _ ⟨_, rfl, rfl, rfl⟩ (Or.inl (by decide))) (by decide)

end Cluster

end FraiseQL.Listener
