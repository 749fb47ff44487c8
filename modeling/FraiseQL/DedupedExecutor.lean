import FraiseQL.EventRun
import FraiseQL.ExpiringStore
import FraiseQL.ObserverError

/-! Deduplicated processing (`deduped_executor.rs`, `dedup/redis.rs`). A delivery of an event claims its id with
`SET NX EX` and processes the event while the claim lasts or longer; a failed processing removes the key, whoever
set it. The inner executor's result and the store's availability are the environment's choice. The model numbers
the deliveries to tell them apart and remembers when each made its claim; the store itself holds neither. -/

namespace FraiseQL.DedupedExecutor

open EventRun Function

/-- `EntityEvent`, as far as the wrapper reads it; an id is written as text. -/
structure EntityEvent where
  id : String
  tenantId : Option String
  deriving DecidableEq

inductive TenantScope where
  | unrestricted
  | single (tenant : String)
  | allowList (tenants : List String)

/-- `DedupedObserverExecutor::tenant_allowed`. -/
def TenantScope.allows : TenantScope → Option String → Bool
  | .unrestricted, _ => true
  | .single required, tenant => tenant = some required
  | .allowList allowed, some tenant => allowed.any (· = tenant)
  | .allowList _, none => false

/-- `ExecutionSummary`, its failure counts and its errors. -/
structure ExecutionSummary where
  failedActions : Nat
  dlqErrors : Nat
  errors : List String

def ExecutionSummary.isSuccess (summary : ExecutionSummary) : Bool :=
  summary.failedActions = 0 && summary.dlqErrors = 0 && summary.errors.isEmpty

/-- The summaries after which `process_event` removes the claim. -/
def ExecutionSummary.unclaims (summary : ExecutionSummary) : Bool :=
  0 < summary.failedActions || 0 < summary.dlqErrors

/-- Whether the store answers a call. -/
inductive StoreAnswer where
  | answered | unavailable

abbrev ClaimStore := ExpiringStore String String

/-- The Redis key of an event: `dedup:v1:` before `event:` and the id. -/
def dedupKey (eventId : String) : String := "dedup:v1:" ++ ("event:" ++ eventId)

/-- `claim_event`. Redis refuses a window of no seconds. -/
def claimEvent (store : ClaimStore) (windowSeconds : Nat) (eventId : String) :
    StoreAnswer → Except ObserverError Bool × ClaimStore
  | .unavailable => (.error (.ofRedis "connection refused"), store)
  | .answered =>
    if windowSeconds = 0 then (.error (.ofRedis "invalid expire time in 'set' command"), store)
    else
      let (claimed, store') := store.setNxEx (dedupKey eventId) "1" windowSeconds
      (.ok claimed, store')

/-- A delivery that is being processed or has been: its number, its event, and when its claim was set.
A delivery that the store refused to claim has no claim. -/
structure Delivery where
  number : Nat
  event : EntityEvent
  claimedAt : Option Nat
  deriving DecidableEq

/-- The store, what the workers process, the deliveries that were processed with the claim left in place, and
the number of deliveries started. -/
structure System where
  store : ClaimStore
  working : Nat → Option Delivery
  succeeded : List Delivery
  unfinished : List Delivery
  started : Nat

inductive Event where
  | deliver (worker : Nat) (event : EntityEvent) (claim : StoreAnswer)
  | finish (worker : Nat) (result : Except ObserverError ExecutionSummary) (remove : StoreAnswer)
  | elapse (milliseconds : Nat)

def System.start (now : Nat) : System := ⟨.empty now, fun _ => none, [], [], 0⟩

section Executor

variable (windowSeconds : Nat) (scope : TenantScope)

/-- The first part of `process_event`, up to the call of the inner executor: the delivery to process, or
nothing when the tenant is rejected or the event is a duplicate. -/
def beginProcessing (store : ClaimStore) (number : Nat) (event : EntityEvent) (claim : StoreAnswer) :
    Option Delivery × ClaimStore :=
  if scope.allows event.tenantId then
    match claimEvent store windowSeconds event.id claim with
    | (.ok true, store') => (some ⟨number, event, some store.now⟩, store')
    | (.ok false, store') => (none, store')
    | (.error _, store') => (some ⟨number, event, none⟩, store')
  else (none, store)

/-- The second part of `process_event`: an error of the inner executor is returned at once. -/
def endProcessing (s : System) (worker : Nat) (delivery : Delivery) (remove : StoreAnswer) :
    Except ObserverError ExecutionSummary → System
  | .error _ =>
    { s with working := Function.update s.working worker none, unfinished := delivery :: s.unfinished }
  | .ok summary =>
    if summary.unclaims then
      match remove with
      | .answered =>
        { s with
          working := Function.update s.working worker none
          store := s.store.del (dedupKey delivery.event.id) }
      | .unavailable =>
        { s with working := Function.update s.working worker none, unfinished := delivery :: s.unfinished }
    else if summary.isSuccess then
      { s with working := Function.update s.working worker none, succeeded := delivery :: s.succeeded }
    else
      { s with working := Function.update s.working worker none, unfinished := delivery :: s.unfinished }

def step (s : System) : Event → System
  | .deliver worker event claim =>
    match s.working worker with
    | some _ => s
    | none =>
      match beginProcessing windowSeconds scope s.store s.started event claim with
      | (some delivery, store) =>
        { s with
          store := store
          working := Function.update s.working worker (some delivery)
          started := s.started + 1 }
      | (none, store) => { s with store := store }
  | .finish worker result remove =>
    match s.working worker with
    | none => s
    | some delivery => endProcessing s worker delivery remove result
  | .elapse milliseconds => { s with store := s.store.advance milliseconds }

/-- The delivery's own claim lasts until its window is over. -/
def Delivery.live (delivery : Delivery) (now : Nat) : Prop :=
  ∃ t, delivery.claimedAt = some t ∧ now < t + windowSeconds * 1000

/-- No worker starts on an event that another has processed successfully under a claim that still lasts. -/
def StartsAlone (s : System) (e : Event) : Prop :=
  ∀ worker event claim delivery, e = .deliver worker event claim → s.working worker = none →
    (step windowSeconds scope s e).working worker = some delivery →
      ∀ done ∈ s.succeeded, done.event.id = event.id → ¬done.live windowSeconds s.store.now

/-- No other delivery has a claim on the event that still lasts. -/
def NoOtherClaim (s : System) (worker : Nat) (eventId : String) : Prop :=
  (∀ other delivery, other ≠ worker → s.working other = some delivery → delivery.event.id = eventId →
    ¬delivery.live windowSeconds s.store.now) ∧
  (∀ done ∈ s.succeeded, done.event.id = eventId → ¬done.live windowSeconds s.store.now) ∧
  ∀ done ∈ s.unfinished, done.event.id = eventId → ¬done.live windowSeconds s.store.now

/-- After a failed processing with no other claim outstanding, the next delivery of the event is processed. -/
def RetriedNext (s : System) (e : Event) : Prop :=
  ∀ worker result remove delivery, e = .finish worker result remove → s.working worker = some delivery →
    (∀ summary, result = .ok summary → summary.isSuccess = false) →
    NoOtherClaim windowSeconds s worker delivery.event.id →
      ∀ next, (step windowSeconds scope s e).working next = none →
        (step windowSeconds scope (step windowSeconds scope s e)
          (.deliver next delivery.event .answered)).working next ≠ none

def ClaimContract (s : System) (e : Event) : Prop :=
  StartsAlone windowSeconds scope s e ∧ RetriedNext windowSeconds scope s e

/-- The store answers; a processing ends with a summary, one that reports a failure reports failed actions or
dead letters, and its worker removes no claim that another delivery still has. -/
def ClaimsRespected (s : System) : Event → Prop
  | .deliver _ _ claim => claim = .answered
  | .finish worker result remove => ∀ delivery, s.working worker = some delivery →
      ∃ summary, result = .ok summary ∧
        (summary.isSuccess = true ∨
          (summary.unclaims = true ∧ remove = .answered ∧ NoOtherClaim windowSeconds s worker delivery.event.id))
  | .elapse _ => True

/-- The store answers claims, and no failure removes a claim of a delivery in work or of one that succeeded. -/
def ClaimsKept (s : System) : Event → Prop
  | .deliver _ _ claim => claim = .answered
  | .finish worker result remove => ∀ delivery summary, s.working worker = some delivery → result = .ok summary →
      summary.unclaims = true → remove = .answered →
        (∀ other busy, other ≠ worker → s.working other = some busy → busy.event.id = delivery.event.id →
          ¬busy.live windowSeconds s.store.now) ∧
        ∀ done ∈ s.succeeded, done.event.id = delivery.event.id → ¬done.live windowSeconds s.store.now
  | .elapse _ => True

/-! ### Claims that last -/

/-- A delivery in a worker's hands, or one that succeeded. -/
def System.Active (s : System) (delivery : Delivery) : Prop :=
  (∃ worker, s.working worker = some delivery) ∨ delivery ∈ s.succeeded

/-- While a delivery's claim lasts, the key in the store is the one it set. -/
def Held (s : System) (delivery : Delivery) : Prop :=
  ∀ t, delivery.claimedAt = some t → t ≤ s.store.now ∧
    (s.store.now < t + windowSeconds * 1000 →
      s.store.entry (dedupKey delivery.event.id) = some ("1", t + windowSeconds * 1000))

structure Inv (s : System) : Prop where
  allowed : ∀ worker delivery, s.working worker = some delivery → scope.allows delivery.event.tenantId = true
  claimed : ∀ delivery, s.Active delivery → 0 < windowSeconds → delivery.claimedAt.isSome = true
  held : ∀ delivery, s.Active delivery → Held windowSeconds s delivery
  numbered : ∀ delivery, s.Active delivery → delivery.number < s.started
  apart : ∀ a b, s.Active a → s.Active b → a.event.id = b.event.id → a.number < b.number →
    ∀ ta tb, a.claimedAt = some ta → b.claimedAt = some tb → ta + windowSeconds * 1000 ≤ tb

theorem inv_start (now : Nat) : Inv windowSeconds scope (.start now) := by
  have hnone : ∀ delivery, ¬(System.start now).Active delivery := by
    rintro delivery (⟨worker, h⟩ | h)
    · cases h
    · cases h
  exact ⟨nofun, fun d h => absurd h (hnone d), fun d h => absurd h (hnone d), fun d h => absurd h (hnone d),
    fun a _ h => absurd h (hnone a)⟩

variable {windowSeconds scope} {s : System}

theorem dedupKey_injective {a b : String} (heq : dedupKey a = dedupKey b) : a = b := by
  have hchars := congrArg String.toList heq
  simp only [dedupKey, String.toList_append, List.append_cancel_left_eq] at hchars
  exact String.toList_injective hchars

variable {delivery : Delivery}

/-- A claim that lasts keeps its key. -/
theorem Held.get (hheld : Held windowSeconds s delivery) (hlive : delivery.live windowSeconds s.store.now) :
    s.store.get (dedupKey delivery.event.id) = some "1" := by
  obtain ⟨t, hclaimed, hnow⟩ := hlive
  apply ExpiringStore.get_eq_some_iff.mpr
  exact ⟨t + windowSeconds * 1000, (hheld t hclaimed).2 hnow, hnow⟩

variable {eventId : String}

/-- Writing a key keeps the claims of other events, and those that are over. -/
theorem Held.write {s' : System} (hheld : Held windowSeconds s delivery) (hnow : s'.store.now = s.store.now)
    (hentry : ∀ key, key ≠ dedupKey eventId → s'.store.entry key = s.store.entry key)
    (hover : delivery.event.id = eventId → ¬delivery.live windowSeconds s.store.now) :
    Held windowSeconds s' delivery := by
  intro t hclaimed
  obtain ⟨hpast, hkey⟩ := hheld t hclaimed
  rw [hnow]
  refine ⟨hpast, ?_⟩
  intro hlive
  by_cases hid : delivery.event.id = eventId
  · exact absurd ⟨t, hclaimed, hlive⟩ (hover hid)
  · rw [hentry _ fun h => hid (dedupKey_injective h)]
    exact hkey hlive

/-- What a delivery comes to when the store answers: it is rejected or a duplicate, it is processed without a
claim because the window is empty, or it is processed under a claim on a free key. -/
theorem beginProcessing_answered (store : ClaimStore) (number : Nat) (event : EntityEvent) :
    beginProcessing windowSeconds scope store number event .answered = (none, store) ∨
      (scope.allows event.tenantId = true ∧ windowSeconds = 0 ∧
        beginProcessing windowSeconds scope store number event .answered = (some ⟨number, event, none⟩, store)) ∨
      (scope.allows event.tenantId = true ∧ store.get (dedupKey event.id) = none ∧
        beginProcessing windowSeconds scope store number event .answered =
          (some ⟨number, event, some store.now⟩, store.setEx (dedupKey event.id) "1" windowSeconds)) := by
  unfold beginProcessing
  by_cases hallowed : scope.allows event.tenantId = true
  · rw [if_pos hallowed, claimEvent]
    by_cases hwindow : windowSeconds = 0
    · rw [if_pos hwindow]
      exact .inr (.inl ⟨hallowed, hwindow, rfl⟩)
    · rw [if_neg hwindow, ExpiringStore.setNxEx]
      by_cases htaken : (store.get (dedupKey event.id)).isSome = true
      · rw [if_pos htaken]
        exact .inl rfl
      · rw [if_neg htaken]
        exact .inr (.inr ⟨hallowed, Option.not_isSome_iff_eq_none.mp htaken, rfl⟩)
  · rw [if_neg hallowed]
    exact .inl rfl

/-- A worker takes a delivery up. -/
def System.taking (s : System) (worker : Nat) (delivery : Delivery) (store : ClaimStore) : System :=
  { s with
    store := store
    working := Function.update s.working worker (some delivery)
    started := s.started + 1 }

/-- What `deliver` does to the system when the store answers. -/
theorem step_deliver (worker : Nat) (event : EntityEvent) :
    step windowSeconds scope s (.deliver worker event .answered) = s ∨
      (s.working worker = none ∧ scope.allows event.tenantId = true ∧ windowSeconds = 0 ∧
        step windowSeconds scope s (.deliver worker event .answered) =
          s.taking worker ⟨s.started, event, none⟩ s.store) ∨
      (s.working worker = none ∧ scope.allows event.tenantId = true ∧ s.store.get (dedupKey event.id) = none ∧
        step windowSeconds scope s (.deliver worker event .answered) =
          s.taking worker ⟨s.started, event, some s.store.now⟩
            (s.store.setEx (dedupKey event.id) "1" windowSeconds)) := by
  rw [step]
  cases hworker : s.working worker with
  | some busy => exact .inl rfl
  | none =>
    rcases beginProcessing_answered s.store s.started event with
      hbegin | ⟨hallowed, hwindow, hbegin⟩ | ⟨hallowed, hfree, hbegin⟩
    · rw [hbegin]
      exact .inl rfl
    · rw [hbegin]
      exact .inr (.inl ⟨rfl, hallowed, hwindow, rfl⟩)
    · rw [hbegin]
      exact .inr (.inr ⟨rfl, hallowed, hfree, rfl⟩)

variable {worker : Nat} {other : Delivery} {store : ClaimStore}

theorem working_taking {w : Nat} (hw : (s.taking worker delivery store).working w = some other) :
    other = delivery ∨ s.working w = some other := by
  have hupdate : Function.update s.working worker (some delivery) w = some other := hw
  by_cases hworker : w = worker
  · rw [hworker, update_self] at hupdate
    exact .inl (Option.some.inj hupdate).symm
  · rw [update_of_ne hworker] at hupdate
    exact .inr hupdate

theorem active_taking
    (hactive : (s.taking worker delivery store).Active other) : other = delivery ∨ s.Active other := by
  rcases hactive with ⟨w, hw⟩ | hmem
  · rcases working_taking hw with h | h
    · exact .inl h
    · exact .inr (.inl ⟨w, h⟩)
  · exact .inr (.inr hmem)

section

variable (hinv : Inv windowSeconds scope s)
include hinv

/-- A start on an event whose claims are all over keeps the invariant. -/
theorem Inv.begin (hallowed : scope.allows delivery.event.tenantId = true) (hnumber : delivery.number = s.started)
    (hnow : store.now = s.store.now)
    (hentry : ∀ key, key ≠ dedupKey delivery.event.id → store.entry key = s.store.entry key)
    (hover : ∀ other, s.Active other → other.event.id = delivery.event.id →
      ¬other.live windowSeconds s.store.now)
    (hclaimed : 0 < windowSeconds → delivery.claimedAt.isSome = true)
    (hclaim : ∀ t, delivery.claimedAt = some t → t = s.store.now ∧
      store.entry (dedupKey delivery.event.id) = some ("1", t + windowSeconds * 1000)) :
    Inv windowSeconds scope (s.taking worker delivery store) := by
  refine ⟨?_, ?_, ?_, ?_, ?_⟩
  · intro w other hw
    rcases working_taking hw with rfl | h
    · exact hallowed
    · exact hinv.allowed w other h
  · intro other hother
    rcases active_taking hother with rfl | hactive
    · exact hclaimed
    · exact hinv.claimed other hactive
  · intro other hother
    rcases active_taking hother with rfl | hactive
    · intro t ht
      obtain ⟨rfl, hkey⟩ := hclaim t ht
      exact ⟨Nat.le_of_eq hnow.symm, fun _ => hkey⟩
    · exact (hinv.held other hactive).write hnow hentry fun hid => hover other hactive hid
  · intro other hother
    rcases active_taking hother with rfl | hactive
    · rw [hnumber]
      exact Nat.lt_succ_self _
    · exact Nat.lt_succ_of_lt (hinv.numbered other hactive)
  · intro a b ha hb hid hlt ta tb hta htb
    rcases active_taking ha with hnew | hold
    · rcases active_taking hb with hnew' | hold'
      · rw [hnew, hnew'] at hlt
        exact absurd hlt (Nat.lt_irrefl _)
      · have hnumber' := hinv.numbered b hold'
        rw [hnew, hnumber] at hlt
        omega
    · rcases active_taking hb with hnew' | hold'
      · rw [hnew'] at hid htb
        rw [(hclaim tb htb).1]
        by_contra hlive
        exact hover a hold hid ⟨ta, hta, by omega⟩
      · exact hinv.apart a b hold hold' hid hlt ta tb hta htb

/-- While the key of an event is free, every claim on the event is over. -/
theorem Inv.over (hfree : s.store.get (dedupKey eventId) = none) (hactive : s.Active other)
    (hid : other.event.id = eventId) : ¬other.live windowSeconds s.store.now := by
  intro hlive
  have hget := (hinv.held other hactive).get hlive
  rw [hid, hfree] at hget
  cases hget

/-- With an empty window no claim lasts. -/
theorem Inv.over_empty (hwindow : windowSeconds = 0)
    (hactive : s.Active other) : ¬other.live windowSeconds s.store.now := by
  rintro ⟨t, hclaimed, hnow⟩
  have hpast := (hinv.held other hactive t hclaimed).1
  rw [hwindow] at hnow
  omega

theorem Inv.deliver (worker : Nat) (event : EntityEvent) :
    Inv windowSeconds scope (step windowSeconds scope s (.deliver worker event .answered)) := by
  rcases step_deliver worker event with hstep | ⟨-, hallowed, hwindow, hstep⟩ | ⟨-, hallowed, hfree, hstep⟩
  · rw [hstep]
    exact hinv
  · rw [hstep]
    refine hinv.begin hallowed rfl rfl (fun _ _ => rfl) (fun _ hactive _ => hinv.over_empty hwindow hactive) ?_ nofun
    intro hpositive
    omega
  · rw [hstep]
    refine hinv.begin hallowed rfl rfl ?_ (fun _ hactive hid => hinv.over hfree hactive hid) (fun _ => rfl) ?_
    · intro key hkey
      exact update_of_ne hkey _ _
    · intro t ht
      cases ht
      exact ⟨rfl, update_self _ _ _⟩

/-- A start happens only when every claim on the event is over. -/
theorem Inv.startsAlone (worker : Nat) (event : EntityEvent) :
    StartsAlone windowSeconds scope s (.deliver worker event .answered) := by
  rintro w ev claim delivery heq hidle hstarted done hdone hid
  cases heq
  rcases step_deliver worker event with hstep | ⟨-, -, hwindow, -⟩ | ⟨-, -, hfree, -⟩
  · rw [hstep, hidle] at hstarted
    cases hstarted
  · exact hinv.over_empty hwindow (.inr hdone)
  · exact hinv.over hfree (.inr hdone) hid

end

theorem active_of_update_none
    (hactive : (∃ w, Function.update s.working worker none w = some delivery) ∨ delivery ∈ s.succeeded) :
    (∃ w, w ≠ worker ∧ s.working w = some delivery) ∨ delivery ∈ s.succeeded := by
  rcases hactive with ⟨w, hw⟩ | hmem
  · by_cases hworker : w = worker
    · rw [hworker, update_self] at hw
      cases hw
    · rw [update_of_ne hworker] at hw
      exact .inl ⟨w, hworker, hw⟩
  · exact .inr hmem

/-- A state with fewer active deliveries and the claims of the remaining ones in place keeps the invariant. -/
theorem Inv.shrink (hinv : Inv windowSeconds scope s) {s' : System} (hstarted : s'.started = s.started)
    (hworking : ∀ w delivery, s'.working w = some delivery → s.working w = some delivery)
    (hactive : ∀ delivery, s'.Active delivery → s.Active delivery)
    (hheld : ∀ delivery, s'.Active delivery → Held windowSeconds s' delivery) : Inv windowSeconds scope s' := by
  refine ⟨?_, ?_, hheld, ?_, ?_⟩
  · intro w delivery hw
    exact hinv.allowed w delivery (hworking w delivery hw)
  · intro delivery hdelivery
    exact hinv.claimed delivery (hactive delivery hdelivery)
  · intro delivery hdelivery
    rw [hstarted]
    exact hinv.numbered delivery (hactive delivery hdelivery)
  · intro a b ha hb
    exact hinv.apart a b (hactive a ha) (hactive b hb)

variable {summary : ExecutionSummary}

theorem unclaims_of_isSuccess (hsuccess : summary.isSuccess = true) : summary.unclaims = false := by
  simp only [ExecutionSummary.isSuccess, Bool.and_eq_true, decide_eq_true_eq] at hsuccess
  simp [ExecutionSummary.unclaims, hsuccess.1.1, hsuccess.1.2]

theorem step_finish (hworker : s.working worker = some delivery)
    (result : Except ObserverError ExecutionSummary) (remove : StoreAnswer) :
    step windowSeconds scope s (.finish worker result remove) = endProcessing s worker delivery remove result := by
  rw [step, hworker]

theorem endProcessing_success {remove : StoreAnswer} (hsuccess : summary.isSuccess = true) :
    endProcessing s worker delivery remove (.ok summary) =
      { s with working := Function.update s.working worker none, succeeded := delivery :: s.succeeded } := by
  dsimp only [endProcessing]
  rw [unclaims_of_isSuccess hsuccess, if_neg Bool.false_ne_true, if_pos hsuccess]

theorem endProcessing_unclaim (hunclaims : summary.unclaims = true) :
    endProcessing s worker delivery .answered (.ok summary) =
      { s with
        working := Function.update s.working worker none
        store := s.store.del (dedupKey delivery.event.id) } := by
  rw [endProcessing, if_pos hunclaims]

theorem working_of_update_none {w : Nat}
    (hw : Function.update s.working worker none w = some delivery) : s.working w = some delivery := by
  by_cases hworker : w = worker
  · rw [hworker, update_self] at hw
    cases hw
  · rwa [update_of_ne hworker] at hw

section

variable (hinv : Inv windowSeconds scope s)
include hinv

theorem Inv.finish_success (hworker : s.working worker = some delivery) : Inv windowSeconds scope
      { s with working := Function.update s.working worker none, succeeded := delivery :: s.succeeded } := by
  have hactive : ∀ other, System.Active
      { s with working := Function.update s.working worker none, succeeded := delivery :: s.succeeded } other →
      s.Active other := by
    rintro other (⟨w, hw⟩ | hmem)
    · exact .inl ⟨w, working_of_update_none hw⟩
    · rcases List.mem_cons.mp hmem with rfl | hmem
      · exact .inl ⟨worker, hworker⟩
      · exact .inr hmem
  exact hinv.shrink rfl (fun _ _ hw => working_of_update_none hw) hactive
    fun other hother => hinv.held other (hactive other hother)

/-- Removing the key is harmless when no other delivery has a claim on the event. -/
theorem Inv.finish_unclaim
    (hworking : ∀ other busy, other ≠ worker → s.working other = some busy → busy.event.id = eventId →
      ¬busy.live windowSeconds s.store.now)
    (hsucceeded : ∀ done ∈ s.succeeded, done.event.id = eventId → ¬done.live windowSeconds s.store.now) :
    Inv windowSeconds scope
      { s with working := Function.update s.working worker none, store := s.store.del (dedupKey eventId) } := by
  have hactive : ∀ other, System.Active
      { s with working := Function.update s.working worker none, store := s.store.del (dedupKey eventId) } other →
      (∃ w, w ≠ worker ∧ s.working w = some other) ∨ other ∈ s.succeeded :=
    fun other hother => active_of_update_none hother
  refine hinv.shrink rfl (fun _ _ hw => working_of_update_none hw) ?_ ?_
  · intro other hother
    rcases hactive other hother with ⟨w, -, hw⟩ | hmem
    · exact .inl ⟨w, hw⟩
    · exact .inr hmem
  · intro other hother
    have hkey : ∀ key, key ≠ dedupKey eventId → (s.store.del (dedupKey eventId)).entry key = s.store.entry key :=
      fun key hne => update_of_ne hne _ _
    rcases hactive other hother with ⟨w, hne, hw⟩ | hmem
    · exact (hinv.held other (.inl ⟨w, hw⟩)).write rfl hkey fun hid => hworking w other hne hw hid
    · exact (hinv.held other (.inr hmem)).write rfl hkey fun hid => hsucceeded other hmem hid

theorem Inv.elapse (milliseconds : Nat) : Inv windowSeconds scope { s with store := s.store.advance milliseconds } := by
  refine hinv.shrink rfl (fun _ _ hw => hw) (fun _ h => h) ?_
  intro other hother t hclaimed
  obtain ⟨hpast, hkey⟩ := hinv.held other hother t hclaimed
  refine ⟨Nat.le_add_right_of_le hpast, ?_⟩
  intro hlive
  have hnow : s.store.now + milliseconds < t + windowSeconds * 1000 := hlive
  exact hkey (by omega)

/-- A processing that leaves its claim in place without success. -/
theorem Inv.finish_unfinished (worker : Nat) (unfinished : List Delivery) : Inv windowSeconds scope
      { s with working := Function.update s.working worker none, unfinished := unfinished } := by
  have hactive : ∀ other, System.Active
      { s with working := Function.update s.working worker none, unfinished := unfinished } other →
      s.Active other := by
    rintro other (⟨w, hw⟩ | hmem)
    · exact .inl ⟨w, working_of_update_none hw⟩
    · exact .inr hmem
  exact hinv.shrink rfl (fun _ _ hw => working_of_update_none hw) hactive
    fun other hother => hinv.held other (hactive other hother)

theorem Inv.finish (hworker : s.working worker = some delivery) (result : Except ObserverError ExecutionSummary)
    (remove : StoreAnswer) (hkept : ClaimsKept windowSeconds s (.finish worker result remove)) :
    Inv windowSeconds scope (endProcessing s worker delivery remove result) := by
  cases result with
  | error e => exact hinv.finish_unfinished worker _
  | ok summary =>
    by_cases hunclaims : summary.unclaims = true
    · cases remove with
      | answered =>
        obtain ⟨hworking, hsucceeded⟩ := hkept delivery summary hworker rfl hunclaims rfl
        rw [endProcessing_unclaim hunclaims]
        exact hinv.finish_unclaim hworking hsucceeded
      | unavailable =>
        rw [endProcessing, if_pos hunclaims]
        exact hinv.finish_unfinished worker _
    · by_cases hsuccess : summary.isSuccess = true
      · rw [endProcessing_success hsuccess]
        exact hinv.finish_success hworker
      · dsimp only [endProcessing]
        rw [if_neg hunclaims, if_neg hsuccess]
        exact hinv.finish_unfinished worker _

theorem Inv.keep (e : Event) (hkept : ClaimsKept windowSeconds s e) :
    Inv windowSeconds scope (step windowSeconds scope s e) := by
  cases e with
  | deliver worker event claim =>
    rw [show claim = .answered from hkept]
    exact hinv.deliver worker event
  | finish worker result remove =>
    cases hworker : s.working worker with
    | none =>
      rw [step, hworker]
      exact hinv
    | some delivery =>
      rw [step_finish hworker]
      exact hinv.finish hworker result remove hkept
  | elapse milliseconds => exact hinv.elapse milliseconds

end

theorem ClaimsRespected.kept {e : Event} (hrespected : ClaimsRespected windowSeconds s e) :
    ClaimsKept windowSeconds s e := by
  cases e with
  | deliver worker event claim => exact hrespected
  | finish worker result remove =>
    rintro delivery summary hworker rfl hunclaims rfl
    obtain ⟨_, heq, hsuccess | ⟨-, -, halone⟩⟩ := hrespected delivery hworker
    · cases heq
      rw [unclaims_of_isSuccess hsuccess] at hunclaims
      cases hunclaims
    · exact ⟨halone.1, halone.2.1⟩
  | elapse milliseconds => trivial

/-- On a free key a delivery of an allowed event is processed. -/
theorem processed_of_free {next : Nat} {event : EntityEvent} (hidle : s.working next = none)
    (hallowed : scope.allows event.tenantId = true) (hfree : s.store.get (dedupKey event.id) = none) :
    (step windowSeconds scope s (.deliver next event .answered)).working next ≠ none := by
  have hbegin : ∃ delivery store,
      beginProcessing windowSeconds scope s.store s.started event .answered = (some delivery, store) := by
    rw [beginProcessing, if_pos hallowed, claimEvent]
    by_cases hwindow : windowSeconds = 0
    · rw [if_pos hwindow]
      exact ⟨_, _, rfl⟩
    · rw [if_neg hwindow, ExpiringStore.setNxEx, hfree]
      exact ⟨_, _, rfl⟩
  obtain ⟨delivery, store, hbegin⟩ := hbegin
  rw [step, hidle]
  dsimp only
  rw [hbegin]
  show Function.update s.working next (some delivery) next ≠ none
  rw [update_self]
  exact nofun

theorem Inv.contract (hinv : Inv windowSeconds scope s) (e : Event)
    (hrespected : ClaimsRespected windowSeconds s e) : ClaimContract windowSeconds scope s e := by
  constructor
  · cases e with
    | deliver worker event claim =>
      rw [show claim = .answered from hrespected]
      exact hinv.startsAlone worker event
    | finish worker result remove => rintro _ _ _ _ ⟨⟩
    | elapse milliseconds => rintro _ _ _ _ ⟨⟩
  · rintro worker result remove delivery rfl hworker hfailed - next hidle
    obtain ⟨summary, rfl, hsuccess | ⟨hunclaims, rfl, -⟩⟩ := hrespected delivery hworker
    · rw [hfailed summary rfl] at hsuccess
      cases hsuccess
    · rw [step_finish hworker, endProcessing_unclaim hunclaims] at hidle ⊢
      exact processed_of_free hidle (hinv.allowed worker delivery hworker) ExpiringStore.get_del_self

/-- In every run in which claims are respected, no worker starts on an event while the claim of a successful
delivery lasts, and the next delivery after a failure is processed. -/
theorem claims_exclusive_along_run (windowSeconds : Nat) (scope : TenantScope) (now : Nat) (events : List Event)
    (hrespected : Along (step windowSeconds scope) (ClaimsRespected windowSeconds) (.start now) events) :
    Along (step windowSeconds scope) (ClaimContract windowSeconds scope) (.start now) events := by
  apply hrespected.mono (fun _ e hinv h => Inv.keep hinv e h.kept) (fun _ e hinv => Inv.contract hinv e)
  exact inv_start windowSeconds scope now

theorem retry_then_success_exclusive :
    Along (step 300 .unrestricted) (ClaimContract 300 .unrestricted) (.start 0)
      [.deliver 0 ⟨"e", none⟩ .answered, .finish 0 (.ok ⟨1, 0, []⟩) .answered,
        .deliver 1 ⟨"e", none⟩ .answered, .finish 1 (.ok ⟨0, 0, []⟩) .answered,
        .deliver 2 ⟨"e", none⟩ .answered] := by
  apply claims_exclusive_along_run
  refine ⟨rfl, ?_, rfl, ?_, rfl, trivial⟩
  · rintro delivery -
    refine ⟨_, rfl, .inr ⟨rfl, rfl, ?_, nofun, nofun⟩⟩
    intro other busy hne hbusy
    change Function.update (fun _ => none) 0 (some ⟨0, ⟨"e", none⟩, some 0⟩) other = some busy at hbusy
    rw [update_of_ne hne] at hbusy
    cases hbusy
  · rintro delivery -
    exact ⟨_, rfl, .inl rfl⟩

/-- The first worker's claim expires under it; its failure then removes the claim of the second, which
succeeds, and the third starts at once. -/
theorem stale_failure_frees_event :
    ¬Along (step 300 .unrestricted) (ClaimContract 300 .unrestricted) (.start 0)
      [.deliver 0 ⟨"e", none⟩ .answered, .elapse 300000, .deliver 1 ⟨"e", none⟩ .answered,
        .finish 0 (.ok ⟨1, 0, []⟩) .answered, .finish 1 (.ok ⟨0, 0, []⟩) .answered,
        .deliver 2 ⟨"e", none⟩ .answered] := by
  rintro ⟨-, -, -, -, -, ⟨hstarts, -⟩, -⟩
  have hover := hstarts 2 ⟨"e", none⟩ .answered ⟨2, ⟨"e", none⟩, some 300000⟩ rfl (by decide +kernel)
    (by decide +kernel) ⟨1, ⟨"e", none⟩, some 300000⟩ (by decide +kernel) rfl
  exact hover ⟨300000, rfl, by decide +kernel⟩

/-- Two deliveries of one event that both succeed made their claims a window apart. -/
theorem successes_apart {windowSeconds : Nat} {scope : TenantScope} {now : Nat} {events : List Event}
    (hkept : Along (step windowSeconds scope) (ClaimsKept windowSeconds) (.start now) events)
    (hwindow : 0 < windowSeconds) {a b : Delivery}
    (ha : a ∈ (run (step windowSeconds scope) (.start now) events).succeeded)
    (hb : b ∈ (run (step windowSeconds scope) (.start now) events).succeeded)
    (hid : a.event.id = b.event.id) (hlt : a.number < b.number) :
    ∃ ta tb, a.claimedAt = some ta ∧ b.claimedAt = some tb ∧ ta + windowSeconds * 1000 ≤ tb := by
  have hkeep : ∀ s e, Inv windowSeconds scope s → ClaimsKept windowSeconds s e →
      Inv windowSeconds scope (step windowSeconds scope s e) := fun _ e hinv => hinv.keep e
  have hinv := hkept.invariant hkeep (inv_start windowSeconds scope now)
  obtain ⟨ta, hta⟩ := Option.isSome_iff_exists.mp (hinv.claimed a (.inr ha) hwindow)
  obtain ⟨tb, htb⟩ := Option.isSome_iff_exists.mp (hinv.claimed b (.inr hb) hwindow)
  exact ⟨ta, tb, hta, htb, hinv.apart a b (.inr ha) (.inr hb) hid hlt ta tb hta htb⟩

end Executor

end FraiseQL.DedupedExecutor
