import FraiseQL.EventRun
import FraiseQL.ExpiringStore
import FraiseQL.ObserverError
import FraiseQL.SortedSet
import Mathlib.Data.String.Basic

/-! The first job queue (`queue/redis.rs`) and the worker that drives it (`queue/worker.rs`). A job's data is
a string key that expires after a day; its id moves between the sorted sets of pending, retried and dead jobs
and the hash of jobs in processing. The event and the action ride along with the job; how an execution ends is
the environment's choice. A worker takes a job and processes it to the end before the next event. -/

namespace FraiseQL.WorkerQueue

open EventRun List String

/-- `Job`, without the fields no queue or worker operation reads. -/
structure Job where
  id : String
  attempt : Nat
  deriving DecidableEq

/-- The values of the string keys: a serialized job, the metadata of a result, a dead-letter reason. -/
inductive Entry where
  | job (job : Job)
  | result (jobId : String) (attempts : Nat)
  | reason (text : String)

/-- `RedisJobQueue`, as its keys stand in Redis. -/
structure RedisJobQueue where
  keys : ExpiringStore String Entry
  pending : SortedSet String
  processing : String → Option String
  retry : SortedSet String
  deadletter : SortedSet String

namespace RedisJobQueue

def empty (now : Nat) : RedisJobQueue := ⟨.empty now, [], fun _ => none, [], []⟩

def jobKey (jobId : String) : String := "job:v1:" ++ jobId

def completedKey (jobId : String) : String := "job:v1:completed:" ++ jobId

def reasonKey (jobId : String) : String := "job:v1:deadletter:reason:" ++ jobId

/-- A day, the lifetime of job metadata. -/
def retention : Nat := 86400

/-- `Utc::now().timestamp()`. -/
def timestamp (q : RedisJobQueue) : Nat := q.keys.now / 1000

def enqueue (q : RedisJobQueue) (job : Job) : RedisJobQueue :=
  { q with
    keys := q.keys.setEx (jobKey job.id) (.job job) retention
    pending := q.pending.add job.id q.timestamp }

def markProcessing (q : RedisJobQueue) (workerId jobId : String) : RedisJobQueue :=
  { q with processing := Function.update q.processing jobId (some (workerId ++ ":" ++ toString q.timestamp)) }

/-- `RedisJobQueue::dequeue`. The id is popped before its data is read. -/
def dequeue (q : RedisJobQueue) (workerId : String) : Except ObserverError (Option Job) × RedisJobQueue :=
  match q.pending.popMin with
  | none => (.ok none, q)
  | some ((jobId, _), rest) =>
    let popped := { q with pending := rest }
    match q.keys.get (jobKey jobId) with
    | none => (.error (.databaseError "Failed to get job data"), popped)
    | some (.job job) => (.ok (some job), popped.markProcessing workerId jobId)
    | some _ => (.error (.serializationError "not a job"), popped)

/-- The job at the front of the pending set. -/
def next (q : RedisJobQueue) : Option Job :=
  q.pending.least.bind fun front =>
    match q.keys.get (jobKey front.1) with
    | some (.job job) => some job
    | _ => none

def markSuccess (q : RedisJobQueue) (jobId : String) (attempts : Nat) : RedisJobQueue :=
  { q with
    keys := (q.keys.setEx (completedKey jobId) (.result jobId attempts) retention).del (jobKey jobId)
    processing := Function.update q.processing jobId none }

def markRetry (q : RedisJobQueue) (jobId : String) (nextRetryAt : Nat) : RedisJobQueue :=
  { q with
    processing := Function.update q.processing jobId none
    retry := q.retry.add jobId nextRetryAt }

def markDeadletter (q : RedisJobQueue) (jobId reason : String) : RedisJobQueue :=
  { q with
    processing := Function.update q.processing jobId none
    deadletter := q.deadletter.add jobId q.timestamp
    keys := q.keys.setEx (reasonKey jobId) (.reason (reason ++ "|" ++ toString q.timestamp)) retention }

end RedisJobQueue

/-! ### The worker -/

structure RetryPolicy where
  shouldRetry : Nat → Bool
  getBackoffMs : Nat → Nat

/-- `should_retry` of the policies with a maximum of attempts. -/
def attemptsBelow (maxAttempts attempt : Nat) : Bool := attempt < maxAttempts

def fixedBackoffPolicy (maxAttempts delayMs : Nat) : RetryPolicy := ⟨attemptsBelow maxAttempts, fun _ => delayMs⟩

/-- How the execution of a job ends. -/
inductive Execution where
  | success
  | failure (text : String)
  | timeout
  deriving DecidableEq

def handleJobFailure (policy : RetryPolicy) (q : RedisJobQueue) (job : Job) (error : String) : RedisJobQueue :=
  if policy.shouldRetry (job.attempt + 1) then
    q.markRetry job.id (q.timestamp + policy.getBackoffMs (job.attempt + 1) / 1000)
  else
    q.markDeadletter job.id ("Failed after " ++ toString job.attempt ++ " attempts: " ++ error)

def processJob (policy : RetryPolicy) (jobTimeoutMs : Nat) (q : RedisJobQueue) (job : Job) :
    Execution → RedisJobQueue
  | .success => (q.markProcessing "worker" job.id).markSuccess job.id job.attempt
  | .failure text => handleJobFailure policy (q.markProcessing "worker" job.id) job text
  | .timeout =>
    handleJobFailure policy (q.markProcessing "worker" job.id) job
      ("OB006: Action execution failed (transient): Job timeout after " ++ toString jobTimeoutMs ++ "ms")

/-- The queue with what has happened: the ids enqueued, the executions with their attempt numbers and the
jobs that ended. -/
structure System where
  queue : RedisJobQueue
  enqueued : List String
  executed : List (String × Nat)
  succeeded : List String

inductive Event where
  | enqueue (job : Job)
  | work (workerId : String) (execution : Execution)
  | elapse (milliseconds : Nat)

def System.start (now : Nat) : System := ⟨.empty now, [], [], []⟩

section Worker

variable (policy : RetryPolicy) (jobTimeoutMs : Nat)

/-- One turn of `JobWorker::run`, an enqueue, or the passage of time. -/
def step (s : System) : Event → System
  | .enqueue job => { s with queue := s.queue.enqueue job, enqueued := job.id :: s.enqueued }
  | .work workerId execution =>
    match s.queue.dequeue workerId with
    | (.ok (some job), q) =>
      { s with
        queue := processJob policy jobTimeoutMs q job execution
        executed := s.executed ++ [(job.id, job.attempt)]
        succeeded := if execution = .success then job.id :: s.succeeded else s.succeeded }
    | (_, q) => { s with queue := q }
  | .elapse milliseconds => { s with queue := { s.queue with keys := s.queue.keys.advance milliseconds } }

/-- After some more turns of workers, the next `dequeue` returns the job with this id at this attempt. -/
def ReturnedLater (s : System) (id : String) (attempt : Nat → Prop) : Prop :=
  ∃ (turns : List Execution) (job : Job), job.id = id ∧ attempt job.attempt ∧
    ((run (step policy jobTimeoutMs) s (turns.map (.work "w"))).queue.dequeue "w").1 = .ok (some job)

/-- Every enqueued job has succeeded, is dead or can still be returned. -/
def Conserved (s : System) : Prop :=
  ∀ id ∈ s.enqueued, id ∈ s.succeeded ∨ id ∈ s.queue.deadletter.members ∨
    ReturnedLater policy jobTimeoutMs s id fun _ => True

/-- A failed job is executed again at its next attempt if the policy grants it, and is dead if not. -/
def FailureHandled (s : System) (e : Event) : Prop :=
  ∀ workerId execution job, e = .work workerId execution → execution ≠ .success →
    (s.queue.dequeue workerId).1 = .ok (some job) →
      if policy.shouldRetry (job.attempt + 1) then
        ReturnedLater policy jobTimeoutMs (step policy jobTimeoutMs s e) job.id fun a => a = job.attempt + 1
      else job.id ∈ (step policy jobTimeoutMs s e).queue.deadletter.members

/-- The contract of the queue at one event. -/
def JobContract (s : System) (e : Event) : Prop :=
  Conserved policy jobTimeoutMs s ∧ FailureHandled policy jobTimeoutMs s e ∧
    Conserved policy jobTimeoutMs (step policy jobTimeoutMs s e)

/-- No event loses a job: the id of a new job is no tail of another kind of key, a failed execution is not
one the policy would retry, and no job waits so long that its data expires. -/
def NothingLost (s : System) : Event → Prop
  | .enqueue job => ∀ other, job.id ≠ "completed:" ++ other ∧ job.id ≠ "deadletter:reason:" ++ other
  | .work _ execution => ∀ job, s.queue.next = some job → execution ≠ .success →
      policy.shouldRetry (job.attempt + 1) = false
  | .elapse milliseconds => ∀ id ∈ s.queue.pending.members,
      ((s.queue.keys.advance milliseconds).get (RedisJobQueue.jobKey id)).isSome = true

end Worker

/-! ### Where a job is -/

namespace RedisJobQueue

theorem jobKey_injective {a b : String} (heq : jobKey a = jobKey b) : a = b := by
  have hchars := congrArg toList heq
  rw [jobKey, jobKey, toList_append, toList_append] at hchars
  exact toList_injective (append_cancel_left hchars)

theorem completedKey_eq (jobId : String) : completedKey jobId = jobKey ("completed:" ++ jobId) := by
  have hparts : "job:v1:completed:" = "job:v1:" ++ "completed:" := by decide +kernel
  exact (congrArg (· ++ jobId) hparts).trans append_assoc

theorem reasonKey_eq (jobId : String) : reasonKey jobId = jobKey ("deadletter:reason:" ++ jobId) := by
  have hparts : "job:v1:deadletter:reason:" = "job:v1:" ++ "deadletter:reason:" := by decide +kernel
  exact (congrArg (· ++ jobId) hparts).trans append_assoc

end RedisJobQueue

open RedisJobQueue

/-- Every pending id is plain and finds its job, and every job enqueued has ended or is pending. -/
structure System.Inv (s : System) : Prop where
  plain : ∀ id ∈ s.queue.pending.members, ∀ other, id ≠ "completed:" ++ other ∧ id ≠ "deadletter:reason:" ++ other
  stored : ∀ id ∈ s.queue.pending.members, ∃ job, s.queue.keys.get (jobKey id) = some (.job job) ∧ job.id = id
  kept : ∀ id ∈ s.enqueued,
    id ∈ s.succeeded ∨ id ∈ s.queue.deadletter.members ∨ id ∈ s.queue.pending.members

theorem System.inv_start (now : Nat) : (System.start now).Inv where
  plain _ h := nomatch h
  stored _ h := nomatch h
  kept _ h := nomatch h

section Steps

variable {policy : RetryPolicy} {jobTimeoutMs : Nat} {s : System}

/-- A worker finds nothing pending, or the first pending job with its data. -/
theorem System.Inv.front (hinv : s.Inv) (workerId : String) :
    (s.queue.pending = [] ∧ s.queue.dequeue workerId = (.ok none, s.queue)) ∨
      ∃ job score rest, s.queue.pending.popMin = some ((job.id, score), rest) ∧
        s.queue.keys.get (jobKey job.id) = some (.job job) ∧ s.queue.next = some job ∧
        s.queue.dequeue workerId = (.ok (some job), { s.queue with pending := rest }.markProcessing workerId job.id) := by
  cases hpop : s.queue.pending.popMin with
  | none => exact .inl ⟨SortedSet.popMin_eq_none_iff.mp hpop, by rw [dequeue, hpop]⟩
  | some popped =>
    obtain ⟨⟨id, score⟩, rest⟩ := popped
    obtain ⟨hmem, -, -⟩ := SortedSet.popMin_eq_some hpop
    obtain ⟨job, hjob, rfl⟩ := hinv.stored id hmem
    refine .inr ⟨job, score, rest, rfl, hjob, ?_, ?_⟩
    · rw [SortedSet.popMin, Option.map_eq_some_iff] at hpop
      obtain ⟨front, hleast, heq⟩ := hpop
      cases heq
      rw [RedisJobQueue.next, hleast, Option.bind_some, hjob]
    · rw [dequeue, hpop]
      simp only [hjob]

variable {job : Job}

/-- The other pending jobs keep their data when a job is settled by writes to keys that are not theirs. -/
theorem System.Inv.settle {score : Nat} {rest : SortedSet String} (hinv : s.Inv)
    (hpop : s.queue.pending.popMin = some ((job.id, score), rest)) {s' : System}
    (hpending : s'.queue.pending = rest) (henqueued : s'.enqueued = s.enqueued)
    (hkeys : ∀ id ∈ s.queue.pending.members, id ≠ job.id →
      s'.queue.keys.get (jobKey id) = s.queue.keys.get (jobKey id))
    (hsucceeded : ∀ id ∈ s.succeeded, id ∈ s'.succeeded)
    (hdead : ∀ id ∈ s.queue.deadletter.members, id ∈ s'.queue.deadletter.members)
    (hended : job.id ∈ s'.succeeded ∨ job.id ∈ s'.queue.deadletter.members) : s'.Inv := by
  obtain ⟨-, hrest, -⟩ := SortedSet.popMin_eq_some hpop
  refine ⟨?_, ?_, ?_⟩
  · intro id hid
    rw [hpending, hrest] at hid
    exact hinv.plain id hid.1
  · intro id hid
    rw [hpending, hrest] at hid
    rw [hkeys id hid.1 hid.2]
    exact hinv.stored id hid.1
  · intro id hid
    rw [henqueued] at hid
    rcases hinv.kept id hid with h | h | h
    · exact .inl (hsucceeded id h)
    · exact .inr (.inl (hdead id h))
    · by_cases hjob : id = job.id
      · rw [hjob]
        rcases hended with h | h
        · exact .inl h
        · exact .inr (.inl h)
      · rw [hpending, hrest]
        exact .inr (.inr ⟨h, hjob⟩)

variable {execution : Execution}

theorem step_work {workerId : String} {q : RedisJobQueue} (hdequeue : s.queue.dequeue workerId = (.ok (some job), q)) :
    step policy jobTimeoutMs s (.work workerId execution) =
      { s with
        queue := processJob policy jobTimeoutMs q job execution
        executed := s.executed ++ [(job.id, job.attempt)]
        succeeded := if execution = .success then job.id :: s.succeeded else s.succeeded } := by
  rw [step, hdequeue]

theorem System.Inv.work_success (hinv : s.Inv) (workerId : String) :
    (step policy jobTimeoutMs s (.work workerId .success)).Inv := by
  rcases hinv.front workerId with ⟨-, hdequeue⟩ | ⟨job, score, rest, hpop, -, -, hdequeue⟩
  · rw [step, hdequeue]
    exact hinv
  · rw [step_work hdequeue]
    refine hinv.settle hpop ?_ ?_ ?_ ?_ ?_ ?_
    · rfl
    · rfl
    · intro id hid hne
      have hdel : jobKey id ≠ jobKey job.id := fun h => hne (jobKey_injective h)
      have hset : jobKey id ≠ completedKey job.id := by
        rw [completedKey_eq]
        exact fun h => (hinv.plain id hid job.id).1 (jobKey_injective h)
      exact (ExpiringStore.get_del_of_ne hdel).trans (ExpiringStore.get_setEx_of_ne hset)
    · intro id hid
      exact mem_cons_of_mem _ hid
    · exact fun id hid => hid
    · exact .inl mem_cons_self

/-- What a failed execution does when the policy refuses the next attempt. -/
theorem processJob_refused (jobTimeoutMs : Nat) (q : RedisJobQueue)
    (hfailed : execution ≠ .success) (hrefused : policy.shouldRetry (job.attempt + 1) = false) :
    ∃ reason, processJob policy jobTimeoutMs q job execution =
      (q.markProcessing "worker" job.id).markDeadletter job.id reason := by
  cases execution with
  | success => exact absurd rfl hfailed
  | failure text | timeout => exact ⟨_, by rw [processJob, handleJobFailure, hrefused]; rfl⟩

theorem System.Inv.work_refused (hinv : s.Inv) (workerId : String) (hfailed : execution ≠ .success)
    (hrefused : ∀ job, s.queue.next = some job → policy.shouldRetry (job.attempt + 1) = false) :
    (step policy jobTimeoutMs s (.work workerId execution)).Inv ∧
      ∀ job, s.queue.next = some job →
        job.id ∈ (step policy jobTimeoutMs s (.work workerId execution)).queue.deadletter.members := by
  rcases hinv.front workerId with ⟨hempty, hdequeue⟩ | ⟨job, score, rest, hpop, -, hnext, hdequeue⟩
  · rw [step, hdequeue]
    refine ⟨hinv, ?_⟩
    intro job hnext
    rw [RedisJobQueue.next, hempty] at hnext
    cases hnext
  · obtain ⟨reason, hprocess⟩ := processJob_refused jobTimeoutMs
      ({ s.queue with pending := rest }.markProcessing workerId job.id) hfailed (hrefused job hnext)
    rw [step_work hdequeue, hprocess, if_neg hfailed]
    have hdead : ∀ x, x ∈ SortedSet.members (s.queue.deadletter.add job.id s.queue.timestamp) ↔
        x = job.id ∨ x ∈ s.queue.deadletter.members := fun x => SortedSet.mem_members_add job.id _
    constructor
    · refine hinv.settle hpop ?_ ?_ ?_ ?_ ?_ ?_
      · rfl
      · rfl
      · intro id hid hne
        have hset : jobKey id ≠ reasonKey job.id := by
          rw [reasonKey_eq]
          exact fun h => (hinv.plain id hid job.id).2 (jobKey_injective h)
        exact ExpiringStore.get_setEx_of_ne hset
      · exact fun id hid => hid
      · exact fun id hid => (hdead id).mpr (.inr hid)
      · exact .inr ((hdead job.id).mpr (.inl rfl))
    · intro other hother
      cases hnext.symm.trans hother
      exact (hdead job.id).mpr (.inl rfl)

theorem System.Inv.enqueue (hinv : s.Inv)
    (hplain : ∀ other, job.id ≠ "completed:" ++ other ∧ job.id ≠ "deadletter:reason:" ++ other) :
    (step policy jobTimeoutMs s (.enqueue job)).Inv := by
  have hpending : ∀ x, x ∈ SortedSet.members (s.queue.pending.add job.id s.queue.timestamp) ↔
      x = job.id ∨ x ∈ s.queue.pending.members := fun x => SortedSet.mem_members_add job.id _
  refine ⟨?_, ?_, ?_⟩
  · intro id hid
    rcases (hpending id).mp hid with rfl | hid
    · exact hplain
    · exact hinv.plain id hid
  · intro id hid
    show ∃ stored, (s.queue.keys.setEx (jobKey job.id) (.job job) retention).get (jobKey id) = _ ∧ _
    by_cases hsame : id = job.id
    · rw [hsame, ExpiringStore.get_setEx_self (by decide)]
      exact ⟨job, rfl, rfl⟩
    · rw [ExpiringStore.get_setEx_of_ne fun h => hsame (jobKey_injective h)]
      exact hinv.stored id (((hpending id).mp hid).resolve_left hsame)
  · intro id hid
    rcases mem_cons.mp hid with rfl | hid
    · exact .inr (.inr ((hpending job.id).mpr (.inl rfl)))
    · rcases hinv.kept id hid with h | h | h
      · exact .inl h
      · exact .inr (.inl h)
      · exact .inr (.inr ((hpending id).mpr (.inr h)))

theorem System.Inv.elapse (hinv : s.Inv) {milliseconds : Nat}
    (halive : ∀ id ∈ s.queue.pending.members,
      ((s.queue.keys.advance milliseconds).get (jobKey id)).isSome = true) :
    (step policy jobTimeoutMs s (.elapse milliseconds)).Inv := by
  refine ⟨hinv.plain, ?_, hinv.kept⟩
  intro id hid
  obtain ⟨job, hjob, hid'⟩ := hinv.stored id hid
  obtain ⟨entry, hentry⟩ := Option.isSome_iff_exists.mp (halive id hid)
  have hsame : some entry = some (.job job) := (ExpiringStore.get_of_get_advance hentry).symm.trans hjob
  cases hsame
  exact ⟨job, hentry, hid'⟩

theorem System.Inv.keep (hinv : s.Inv) (e : Event) (hkeeps : NothingLost policy s e) :
    (step policy jobTimeoutMs s e).Inv := by
  cases e with
  | enqueue job => exact hinv.enqueue hkeeps
  | work workerId execution =>
    by_cases hsuccess : execution = .success
    · rw [hsuccess]
      exact hinv.work_success workerId
    · exact (hinv.work_refused workerId hsuccess fun job hnext => hkeeps job hnext hsuccess).1
  | elapse milliseconds => exact hinv.elapse hkeeps

/-- Every pending job is returned after as many turns as there are jobs before it. -/
theorem System.Inv.returned (hinv : s.Inv) {id : String} (hid : id ∈ s.queue.pending.members) :
    ReturnedLater policy jobTimeoutMs s id fun _ => True := by
  induction hlength : s.queue.pending.length using Nat.strong_induction_on generalizing s with
  | _ length ih =>
    rcases hinv.front "w" with ⟨hempty, -⟩ | ⟨job, score, rest, hpop, -, -, hdequeue⟩
    · rw [hempty] at hid
      cases hid
    · obtain ⟨-, hrest, hshorter⟩ := SortedSet.popMin_eq_some hpop
      by_cases hfront : id = job.id
      · exact ⟨[], job, hfront.symm, trivial, by rw [map_nil, run_nil, hdequeue]⟩
      · have hqueue : (step policy jobTimeoutMs s (.work "w" .success)).queue.pending = rest := by
          rw [step_work hdequeue]
          rfl
        obtain ⟨turns, later, hlater, -, hreturned⟩ := ih rest.length (hlength ▸ hshorter)
          (hinv.work_success "w") (by rw [hqueue, hrest]; exact ⟨hid, hfront⟩) (by rw [hqueue])
        exact ⟨.success :: turns, later, hlater, trivial, hreturned⟩

theorem System.Inv.conserved (hinv : s.Inv) : Conserved policy jobTimeoutMs s := by
  intro id hid
  rcases hinv.kept id hid with h | h | h
  · exact .inl h
  · exact .inr (.inl h)
  · exact .inr (.inr (hinv.returned h))

theorem System.Inv.contract (hinv : s.Inv) (e : Event) (hkeeps : NothingLost policy s e) :
    JobContract policy jobTimeoutMs s e := by
  refine ⟨hinv.conserved, ?_, (hinv.keep e hkeeps).conserved⟩
  rintro workerId execution job rfl hfailed hreturned
  have hnext : s.queue.next = some job := by
    rcases hinv.front workerId with ⟨-, hdequeue⟩ | ⟨front, _, _, -, -, hnext, hdequeue⟩
    · rw [hdequeue] at hreturned
      cases hreturned
    · rw [hdequeue] at hreturned
      cases hreturned
      exact hnext
  rw [if_neg (by rw [hkeeps job hnext hfailed]; exact Bool.false_ne_true)]
  exact (hinv.work_refused workerId hfailed fun job hnext => hkeeps job hnext hfailed).2 job hnext

/-- In every run that loses nothing on the way, every enqueued job has succeeded, is dead or can still be
returned at every moment, and every failed job is dead once its policy refuses the next attempt. -/
theorem jobs_conserved_along_run (policy : RetryPolicy) (jobTimeoutMs now : Nat) (events : List Event)
    (hkeeps : Along (step policy jobTimeoutMs) (NothingLost policy) (.start now) events) :
    Along (step policy jobTimeoutMs) (JobContract policy jobTimeoutMs) (.start now) events := by
  have hstep : ∀ s e, s.Inv → NothingLost policy s e → (step policy jobTimeoutMs s e).Inv :=
    fun _ e hinv => hinv.keep e
  apply hkeeps.mono hstep (fun _ e hinv => hinv.contract e)
  exact System.inv_start now

theorem last_attempt_conserved :
    Along (step (fixedBackoffPolicy 2 5000) 1000) (JobContract (fixedBackoffPolicy 2 5000) 1000) (.start 0)
      [.enqueue ⟨"a", 1⟩, .elapse 1000, .work "w" (.failure "boom")] := by
  apply jobs_conserved_along_run
  refine ⟨?_, ?_, ?_, trivial⟩
  · intro other
    constructor
    · intro heq
      have hchars := congrArg toList heq
      simp at hchars
    · intro heq
      have hchars := congrArg toList heq
      simp at hchars
  · intro id hid
    cases mem_singleton.mp hid
    decide +kernel
  · intro job hnext _
    have hfront : (some ⟨"a", 1⟩ : Option Job) = some job := by
      rw [← hnext]
      decide +kernel
    cases hfront
    rfl

/-- With nothing pending, workers find nothing however often they ask. -/
theorem not_returned_of_idle (hidle : s.queue.pending = []) (id : String) (attempt : Nat → Prop) :
    ¬ReturnedLater policy jobTimeoutMs s id attempt := by
  have hempty : s.queue.dequeue "w" = (.ok none, s.queue) := by rw [dequeue, hidle]; rfl
  have hwait : ∀ turns : List Execution, run (step policy jobTimeoutMs) s (turns.map (.work "w")) = s := by
    intro turns
    induction turns with
    | nil => rfl
    | cons execution rest ih =>
      have hturn : step policy jobTimeoutMs s (.work "w" execution) = s := by rw [step, hempty]
      rw [map_cons, run_cons, hturn, ih]
  rintro ⟨turns, job, -, -, hreturned⟩
  rw [hwait, hempty] at hreturned
  cases hreturned

/-- A job that fails once and has attempts left is put into the retry set, from where nothing takes it. -/
theorem retried_job_lost :
    ¬Along (step (fixedBackoffPolicy 3 5000) 1000) (JobContract (fixedBackoffPolicy 3 5000) 1000) (.start 0)
      [.enqueue ⟨"a", 1⟩, .work "w" (.failure "boom")] := by
  rintro ⟨-, ⟨-, -, hconserved⟩, -⟩
  rcases hconserved "a" mem_cons_self with h | h | h
  · cases h
  · revert h
    decide +kernel
  · refine not_returned_of_idle ?_ _ _ h
    decide +kernel

end Steps

end FraiseQL.WorkerQueue
