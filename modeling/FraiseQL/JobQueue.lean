import FraiseQL.EventRun
import FraiseQL.ObserverError

/-! The job queue whose transitions are Lua scripts (`job_queue/mod.rs`, `job_queue/redis.rs`). Redis keeps a
list of pending ids, the members of the processing set, a dead-letter list, the status hash and the stored
jobs; a stored job is read back as it was written. The id of a job is drawn at random and never drawn twice.
Of a job the model keeps what its transitions read and write; the action, the event and the backoff settings
ride along unread. -/

namespace FraiseQL.JobQueue

open EventRun List

abbrev Uuid := Nat

inductive JobState where
  | pending | running | completed | failed | deadLettered

structure JobAttempt where
  attempt : Nat
  success : Bool
  error : Option String

structure Job where
  id : Uuid
  attempt : Nat
  maxAttempts : Nat
  state : JobState
  lastError : Option String
  attempts : List JobAttempt

namespace Job

def new (id : Uuid) (maxAttempts : Nat) : Job := ⟨id, 1, maxAttempts, .pending, none, []⟩

def canRetry (job : Job) : Bool := job.attempt < job.maxAttempts

def markFailed (job : Job) (error : String) : Job :=
  let attempts := job.attempts ++ [JobAttempt.mk job.attempt false (some error)]
  if job.canRetry then
    { job with lastError := some error, attempts := attempts, state := .pending, attempt := job.attempt + 1 }
  else { job with lastError := some error, attempts := attempts, state := .failed }

def markRunning (job : Job) : Job := { job with state := .running }

@[simp] theorem markFailed_id (job : Job) (error : String) : (job.markFailed error).id = job.id := by
  dsimp only [markFailed]
  split <;> rfl

@[simp] theorem markFailed_maxAttempts (job : Job) (error : String) :
    (job.markFailed error).maxAttempts = job.maxAttempts := by
  dsimp only [markFailed]
  split <;> rfl

theorem markFailed_retry {job : Job} (error : String) (hretry : job.attempt < job.maxAttempts) :
    (job.markFailed error).attempt = job.attempt + 1 ∧ (job.markFailed error).state = .pending := by
  have hcan : job.canRetry = true := decide_eq_true hretry
  dsimp only [markFailed]
  exact ⟨by rw [if_pos hcan], by rw [if_pos hcan]⟩

theorem markFailed_stop {job : Job} (error : String) (hstop : ¬job.attempt < job.maxAttempts) :
    (job.markFailed error).attempt = job.attempt ∧ (job.markFailed error).state = .failed := by
  have hcan : ¬job.canRetry = true := fun h => hstop (of_decide_eq_true h)
  dsimp only [markFailed]
  exact ⟨by rw [if_neg hcan], by rw [if_neg hcan]⟩

end Job

/-- The entries of the status hash. -/
inductive Status where
  | pending | running | deadLettered

/-- What the queue has in Redis. A list is written with its `LPUSH` end first. -/
structure RedisJobQueue where
  pending : List Uuid
  processing : List (Uuid × Nat)
  dlq : List Uuid
  status : Uuid → Option Status
  job : Uuid → Option Job

namespace RedisJobQueue

def empty : RedisJobQueue := ⟨[], [], [], fun _ => none, fun _ => none⟩

/-- `ZREM` on the processing set. -/
def remProcessing (q : RedisJobQueue) (id : Uuid) : List (Uuid × Nat) := q.processing.filter fun m => m.1 ≠ id

def enqueue (q : RedisJobQueue) (job : Job) : RedisJobQueue :=
  { q with
    job := Function.update q.job job.id (some job)
    pending := job.id :: q.pending
    status := Function.update q.status job.id (some .pending) }

/-- One turn of the loop of `dequeue`: the id is popped before the job is looked up. -/
def dequeueOne (q : RedisJobQueue) (expiry : Nat) : Option (Except ObserverError Job) × RedisJobQueue :=
  match q.pending.getLast? with
  | none => (none, q)
  | some id =>
    let popped := { q with pending := q.pending.dropLast }
    match q.job id with
    | none =>
      (some (.error (.invalidConfig ("Job " ++ toString id ++ " not found in storage"))), popped)
    | some job =>
      (some (.ok job.markRunning),
        { popped with
          processing := (id, expiry) :: popped.remProcessing id
          status := Function.update popped.status id (some .running) })

def dequeue (q : RedisJobQueue) (expiry : Nat) : Nat → Except ObserverError (List Job) × RedisJobQueue
  | 0 => (.ok [], q)
  | batchSize + 1 =>
    match q.dequeueOne expiry with
    | (none, q') => (.ok [], q')
    | (some (.error e), q') => (.error e, q')
    | (some (.ok job), q') =>
      let (rest, q'') := q'.dequeue expiry batchSize
      (rest.map (job :: ·), q'')

def acknowledge (q : RedisJobQueue) (id : Uuid) : RedisJobQueue :=
  { q with
    processing := q.remProcessing id
    job := Function.update q.job id none
    status := Function.update q.status id none }

/-- `RedisJobQueue::fail`, with the job as it leaves it. -/
def fail (q : RedisJobQueue) (job : Job) (error : String) : Job × RedisJobQueue :=
  let failed := job.markFailed error
  if failed.canRetry then
    (failed, { q with
      processing := q.remProcessing job.id
      job := Function.update q.job job.id (some failed)
      pending := job.id :: q.pending
      status := Function.update q.status job.id (some .pending) })
  else
    (failed, { q with
      processing := q.remProcessing job.id
      job := Function.update q.job job.id (some failed)
      dlq := job.id :: q.dlq
      status := Function.update q.status job.id (some .deadLettered) })

end RedisJobQueue

/-! ### Workers -/

/-- The queue, the jobs in the hands of workers, the ids drawn so far and the hand-outs. -/
structure System where
  queue : RedisJobQueue
  held : List Job
  drawn : List Uuid
  handedOut : List Uuid

inductive Event where
  | enqueue (id : Uuid) (maxAttempts : Nat)
  | dequeue (batchSize expiry : Nat)
  | acknowledge (id : Uuid)
  | fail (id : Uuid) (error : String)

def System.start : System := ⟨.empty, [], [], []⟩

/-- The copy of a job that a worker holds. -/
def System.inHand (s : System) (id : Uuid) : Option Job := s.held.find? fun job => job.id = id

/-- A worker lets go of a job. -/
def System.without (s : System) (id : Uuid) : List Job := s.held.filter fun job => job.id ≠ id

/-- An error of `dequeue` ends the call: the jobs it had taken are in nobody's hands. -/
def step (s : System) : Event → System
  | .enqueue id maxAttempts =>
    if id ∈ s.drawn then s
    else { s with queue := s.queue.enqueue (Job.new id maxAttempts), drawn := id :: s.drawn }
  | .dequeue batchSize expiry =>
    match s.queue.dequeue expiry batchSize with
    | (.ok jobs, q) => { s with queue := q, held := s.held ++ jobs, handedOut := s.handedOut ++ jobs.map Job.id }
    | (.error _, q) => { s with queue := q }
  | .acknowledge id =>
    match s.inHand id with
    | some _ => { s with queue := s.queue.acknowledge id, held := s.without id }
    | none => s
  | .fail id error =>
    match s.inHand id with
    | some job => { s with queue := (s.queue.fail job error).2, held := s.without id }
    | none => s

/-! ### Where a job is -/

namespace System

/-- How often an id stands in the pending list, in a worker's hands and in the dead-letter list. -/
def places (s : System) (id : Uuid) : Nat :=
  s.queue.pending.count id + (s.held.map Job.id).count id + s.queue.dlq.count id

/-- Every id is in one place at most, the processing set is what the workers hold, what is pending can be
looked up, and only drawn ids have been handed out. -/
structure Inv (s : System) : Prop where
  once : ∀ id, s.places id ≤ 1
  processing : ∀ id, (s.queue.processing.map Prod.fst).count id = (s.held.map Job.id).count id
  undrawn : ∀ id, id ∉ s.drawn → s.places id = 0
  stored : ∀ id ∈ s.queue.pending, ∃ job, s.queue.job id = some job ∧ job.id = id
  handedOut : ∀ id ∈ s.handedOut, id ∈ s.drawn

theorem inv_start : Inv start where
  once _ := Nat.zero_le 1
  processing _ := rfl
  undrawn _ _ := rfl
  stored _ h := nomatch h
  handedOut _ h := nomatch h

variable {s : System} {id : Uuid} {job : Job}

theorem inHand_id (hhand : s.inHand id = some job) : job.id = id := by
  have hfound := find?_some hhand
  exact of_decide_eq_true hfound

theorem count_held_of_inHand (hhand : s.inHand id = some job) : 0 < (s.held.map Job.id).count id := by
  apply count_pos_iff.mpr
  exact mem_map.mpr ⟨job, mem_of_find?_eq_some hhand, inHand_id hhand⟩

/-- Taking out the entries of one id leaves the counts of the others. -/
theorem count_filter_ne {α : Type} (key : α → Uuid) (entries : List α) (other : Uuid) :
    ((entries.filter fun a => key a ≠ id).map key).count other =
      if other = id then 0 else (entries.map key).count other := by
  induction entries with
  | nil => simp
  | cons a entries ih =>
    rw [filter_cons]
    by_cases hid : key a = id
    · rw [if_neg (by simp [hid]), ih]
      by_cases hother : other = id
      · rw [if_pos hother, if_pos hother]
      · rw [if_neg hother, if_neg hother, map_cons, count_cons_of_ne]
        exact fun heq => hother (heq.symm.trans hid)
    · rw [if_pos (by simp [hid]), map_cons, map_cons, count_cons, ih, count_cons]
      by_cases hother : other = id
      · rw [if_pos hother, if_pos hother, hother, if_neg (by simpa using hid)]
      · rw [if_neg hother, if_neg hother]

theorem count_without (other : Uuid) :
    ((s.without id).map Job.id).count other = if other = id then 0 else (s.held.map Job.id).count other :=
  count_filter_ne Job.id s.held other

theorem count_remProcessing (other : Uuid) :
    ((s.queue.remProcessing id).map Prod.fst).count other =
      if other = id then 0 else (s.queue.processing.map Prod.fst).count other :=
  count_filter_ne Prod.fst s.queue.processing other

/-- One turn of the loop of `dequeue`, as the workers see it. -/
def takeOne (s : System) (expiry : Nat) : System :=
  match s.queue.dequeueOne expiry with
  | (some (.ok job), q) => { s with queue := q, held := s.held ++ [job], handedOut := s.handedOut ++ [job.id] }
  | (_, q) => { s with queue := q }

/-- A hand-out of a job that is stored under its id. -/
def handed (s : System) (rest : List Uuid) (job : Job) (expiry : Nat) : System :=
  { s with
    queue := { s.queue with
      pending := rest
      processing := (job.id, expiry) :: s.queue.remProcessing job.id
      status := Function.update s.queue.status job.id (some .running) }
    held := s.held ++ [job.markRunning]
    handedOut := s.handedOut ++ [job.id] }

/-- A turn finds the queue empty or hands out the oldest pending job. -/
theorem Inv.dequeueOne (hinv : Inv s) (expiry : Nat) :
    (s.queue.pending = [] ∧ s.queue.dequeueOne expiry = (none, s.queue)) ∨
      ∃ rest job, s.queue.pending = rest ++ [job.id] ∧ s.queue.job job.id = some job ∧
        s.queue.dequeueOne expiry = (some (.ok job.markRunning), (s.handed rest job expiry).queue) := by
  unfold RedisJobQueue.dequeueOne
  cases hlast : s.queue.pending.getLast? with
  | none => exact .inl ⟨getLast?_eq_none_iff.mp hlast, rfl⟩
  | some id =>
    obtain ⟨rest, hpending⟩ := getLast?_eq_some_iff.mp hlast
    obtain ⟨job, hjob, rfl⟩ := hinv.stored id (by rw [hpending]; simp)
    refine .inr ⟨rest, job, hpending, hjob, ?_⟩
    simp only [hjob, hpending, dropLast_concat]
    rfl

theorem places_handed {rest : List Uuid} {expiry : Nat} (hpending : s.queue.pending = rest ++ [job.id]) (id : Uuid) :
    (s.handed rest job expiry).places id = s.places id := by
  simp only [places, handed, hpending, count_append, map_append, map_cons, map_nil,
    Job.markRunning]
  omega

theorem Inv.handed {rest : List Uuid} (hinv : Inv s) (expiry : Nat)
    (hpending : s.queue.pending = rest ++ [job.id]) : Inv (s.handed rest job expiry) where
  once id := by
    rw [places_handed hpending]
    exact hinv.once id
  processing id := by
    have hfree : (s.held.map Job.id).count job.id = 0 := by
      have honce := hinv.once job.id
      rw [places, hpending, count_append, count_singleton_self] at honce
      omega
    show (job.id :: (s.queue.remProcessing job.id).map Prod.fst).count id =
      ((s.held ++ [job.markRunning]).map Job.id).count id
    rw [map_append, count_append, count_cons, count_remProcessing, hinv.processing]
    by_cases hid : id = job.id
    · rw [if_pos hid, hid, hfree]
      simp [Job.markRunning]
    · rw [if_neg hid]
      simp [Job.markRunning, count_singleton]
  undrawn id hid := by
    rw [places_handed hpending]
    exact hinv.undrawn id hid
  stored id hid := hinv.stored id (by rw [hpending]; exact mem_append_left _ hid)
  handedOut id hid := by
    rcases mem_append.mp hid with hmem | hmem
    · exact hinv.handedOut id hmem
    · by_contra hdrawn
      rw [mem_singleton.mp hmem] at hdrawn
      have hnone := hinv.undrawn job.id hdrawn
      rw [places, hpending, count_append, count_singleton_self] at hnone
      omega

/-- With every pending job stored, `dequeue` does not fail. -/
theorem Inv.dequeue_ok (hinv : Inv s) (batchSize expiry : Nat) :
    ∃ jobs q, s.queue.dequeue expiry batchSize = (.ok jobs, q) := by
  induction batchSize generalizing s with
  | zero => exact ⟨[], s.queue, rfl⟩
  | succ n ih =>
    rcases hinv.dequeueOne expiry with ⟨-, hone⟩ | ⟨rest, job, hpending, -, hone⟩
    · exact ⟨[], s.queue, by rw [RedisJobQueue.dequeue, hone]⟩
    · obtain ⟨jobs, q, hmore⟩ := ih (hinv.handed expiry hpending)
      refine ⟨job.markRunning :: jobs, q, ?_⟩
      rw [RedisJobQueue.dequeue, hone]
      simp only [hmore, Except.map]

theorem step_dequeue_zero (expiry : Nat) : step s (.dequeue 0 expiry) = s := by
  simp [step, RedisJobQueue.dequeue]

/-- The loop of `dequeue` is the turns one after the other. -/
theorem Inv.dequeue_succ (hinv : Inv s) (batchSize expiry : Nat) :
    step s (.dequeue (batchSize + 1) expiry) = step (s.takeOne expiry) (.dequeue batchSize expiry) := by
  rcases hinv.dequeueOne expiry with ⟨-, hone⟩ | ⟨rest, job, hpending, -, hone⟩
  · have hsame : s.takeOne expiry = s := by rw [takeOne, hone]
    have hdone : s.queue.dequeue expiry batchSize = (.ok [], s.queue) := by
      cases batchSize with
      | zero => rfl
      | succ n => rw [RedisJobQueue.dequeue, hone]
    rw [hsame, step, step, hdone, RedisJobQueue.dequeue, hone]
  · have htake : s.takeOne expiry = s.handed rest job expiry := by rw [takeOne, hone]; rfl
    obtain ⟨jobs, q, hmore⟩ := (hinv.handed expiry hpending).dequeue_ok batchSize expiry
    have hqueue : s.queue.dequeue expiry (batchSize + 1) = (.ok (job.markRunning :: jobs), q) := by
      rw [RedisJobQueue.dequeue, hone]
      simp only [hmore, Except.map]
    rw [htake, step, hqueue, step, hmore]
    simp [System.handed, Job.markRunning]

/-- A property that every turn keeps is kept by `dequeue`. -/
theorem Inv.dequeue_keeps {p : System → Prop} (hinv : Inv s) (hp : p s)
    (hturn : ∀ s rest job expiry, Inv s → p s → s.queue.pending = rest ++ [job.id] →
      s.queue.job job.id = some job → p (s.handed rest job expiry))
    (batchSize expiry : Nat) : p (step s (.dequeue batchSize expiry)) := by
  induction batchSize generalizing s with
  | zero => rwa [step_dequeue_zero]
  | succ n ih =>
    rw [hinv.dequeue_succ]
    rcases hinv.dequeueOne expiry with ⟨-, hone⟩ | ⟨rest, job, hpending, hjob, hone⟩
    · have hsame : s.takeOne expiry = s := by rw [takeOne, hone]
      rw [hsame]
      exact ih hinv hp
    · have htake : s.takeOne expiry = s.handed rest job expiry := by rw [takeOne, hone]; rfl
      rw [htake]
      exact ih (hinv.handed expiry hpending) (hturn s rest job expiry hinv hp hpending hjob)

theorem Inv.held_once (hinv : Inv s) (hhand : s.inHand id = some job) :
    s.queue.pending.count id = 0 ∧ (s.held.map Job.id).count id = 1 ∧ s.queue.dlq.count id = 0 := by
  have honce := hinv.once id
  have hheld := count_held_of_inHand hhand
  rw [places] at honce
  omega

theorem Inv.enqueue (hinv : Inv s) (id : Uuid) (maxAttempts : Nat) : Inv (step s (.enqueue id maxAttempts)) := by
  rw [step]
  by_cases hdrawn : id ∈ s.drawn
  · rw [if_pos hdrawn]
    exact hinv
  · rw [if_neg hdrawn]
    have hplaces : ∀ other, System.places { s with
        queue := s.queue.enqueue (Job.new id maxAttempts), drawn := id :: s.drawn } other =
        s.places other + if other = id then 1 else 0 := by
      intro other
      show (id :: s.queue.pending).count other + (s.held.map Job.id).count other + s.queue.dlq.count other = _
      by_cases hother : other = id
      · rw [hother, count_cons_self, if_pos rfl, places]
        omega
      · rw [count_cons_of_ne (Ne.symm hother), if_neg hother]
        rfl
    refine ⟨?_, hinv.processing, ?_, ?_, fun other hother => mem_cons_of_mem _ (hinv.handedOut other hother)⟩
    · intro other
      rw [hplaces]
      by_cases hother : other = id
      · apply Nat.le_of_eq
        rw [if_pos hother, hother, hinv.undrawn id hdrawn]
      · rw [if_neg hother]
        exact hinv.once other
    · intro other hother
      obtain ⟨hne, hother⟩ := not_or.mp (fun h => hother (mem_cons.mpr h))
      rw [hplaces, if_neg hne, hinv.undrawn other hother]
    · intro other hother
      by_cases hid : other = id
      · exact ⟨Job.new id maxAttempts, by rw [hid]; exact Function.update_self _ _ _, hid.symm⟩
      · rcases mem_cons.mp hother with heq | hmem
        · exact absurd heq hid
        · obtain ⟨job, hjob, hjobId⟩ := hinv.stored other hmem
          exact ⟨job, (Function.update_of_ne hid _ _).trans hjob, hjobId⟩

/-- The job leaves the worker's hands and the processing set; what is pending or dead besides it stays. -/
theorem Inv.leave (hinv : Inv s) (hhand : s.inHand id = some job) (q : RedisJobQueue)
    (hprocessing : q.processing = s.queue.remProcessing id)
    (hothers : ∀ other, other ≠ id →
      q.pending.count other = s.queue.pending.count other ∧ q.dlq.count other = s.queue.dlq.count other ∧
        q.job other = s.queue.job other)
    (hself : q.pending.count id + q.dlq.count id ≤ 1)
    (hstored : id ∈ q.pending → ∃ job, q.job id = some job ∧ job.id = id) :
    Inv { s with queue := q, held := s.without id } := by
  have hplaces : ∀ other, other ≠ id →
      System.places { s with queue := q, held := s.without id } other = s.places other := by
    intro other hother
    obtain ⟨hpending, hdlq, -⟩ := hothers other hother
    simp only [places, hpending, hdlq, count_without, if_neg hother]
  have hplace : System.places { s with queue := q, held := s.without id } id =
      q.pending.count id + q.dlq.count id := by
    simp only [places, count_without, if_true]
    omega
  refine ⟨?_, ?_, ?_, ?_, hinv.handedOut⟩
  · intro other
    by_cases hother : other = id
    · rwa [hother, hplace]
    · rw [hplaces other hother]
      exact hinv.once other
  · intro other
    show (q.processing.map Prod.fst).count other = ((s.without id).map Job.id).count other
    rw [hprocessing, count_remProcessing, count_without, hinv.processing]
  · intro other hother
    have hne : other ≠ id := by
      rintro rfl
      have hnone := hinv.undrawn other hother
      have hheld := count_held_of_inHand hhand
      rw [places] at hnone
      omega
    rw [hplaces other hne]
    exact hinv.undrawn other hother
  · intro other hother
    by_cases hid : other = id
    · rw [hid] at hother ⊢
      exact hstored hother
    · obtain ⟨hpending, -, hjob⟩ := hothers other hid
      have hmem : other ∈ s.queue.pending := by
        have hpos := count_pos_iff.mpr hother
        rw [hpending] at hpos
        exact count_pos_iff.mp hpos
      rw [show q.job other = s.queue.job other from hjob]
      exact hinv.stored other hmem

theorem Inv.acknowledge (hinv : Inv s) (id : Uuid) : Inv (step s (.acknowledge id)) := by
  rw [step]
  cases hhand : s.inHand id with
  | none => exact hinv
  | some job =>
    obtain ⟨hpending, -, hdlq⟩ := hinv.held_once hhand
    apply hinv.leave hhand _ rfl
    · intro other hother
      exact ⟨rfl, rfl, Function.update_of_ne hother _ _⟩
    · show s.queue.pending.count id + s.queue.dlq.count id ≤ 1
      omega
    · intro hmem
      exact absurd hmem (count_eq_zero.mp hpending)

/-- The two ways of `fail`: back to the pending list, or to the dead letters. -/
theorem fail_cases (q : RedisJobQueue) (job : Job) (error : String) :
    (q.fail job error).1 = job.markFailed error ∧
    (((job.markFailed error).canRetry = true ∧ (q.fail job error).2.pending = job.id :: q.pending ∧
        (q.fail job error).2.dlq = q.dlq) ∨
      ((job.markFailed error).canRetry = false ∧ (q.fail job error).2.pending = q.pending ∧
        (q.fail job error).2.dlq = job.id :: q.dlq)) ∧
    (q.fail job error).2.processing = q.remProcessing job.id ∧
    (q.fail job error).2.job = Function.update q.job job.id (some (job.markFailed error)) := by
  dsimp only [RedisJobQueue.fail]
  by_cases hretry : (job.markFailed error).canRetry = true
  · rw [if_pos hretry]
    exact ⟨rfl, .inl ⟨hretry, rfl, rfl⟩, rfl, rfl⟩
  · rw [if_neg hretry]
    exact ⟨rfl, .inr ⟨Bool.not_eq_true _ |>.mp hretry, rfl, rfl⟩, rfl, rfl⟩

theorem Inv.fail (hinv : Inv s) (id : Uuid) (error : String) : Inv (step s (.fail id error)) := by
  rw [step]
  cases hhand : s.inHand id with
  | none => exact hinv
  | some job =>
    obtain ⟨hpending, -, hdlq⟩ := hinv.held_once hhand
    obtain rfl := inHand_id hhand
    obtain ⟨-, hways, hprocessing, hjob⟩ := fail_cases s.queue job error
    apply hinv.leave hhand _ hprocessing
    · intro other hother
      rw [hjob, Function.update_of_ne hother]
      rcases hways with ⟨-, hp, hd⟩ | ⟨-, hp, hd⟩
      · rw [hp, hd, count_cons_of_ne hother.symm]
        exact ⟨rfl, rfl, rfl⟩
      · rw [hp, hd, count_cons_of_ne hother.symm]
        exact ⟨rfl, rfl, rfl⟩
    · rcases hways with ⟨-, hp, hd⟩ | ⟨-, hp, hd⟩
      · rw [hp, hd, count_cons_self]
        omega
      · rw [hp, hd, count_cons_self]
        omega
    · intro _
      rw [hjob, Function.update_self]
      exact ⟨job.markFailed error, rfl, Job.markFailed_id job error⟩

theorem Inv.step (hinv : Inv s) (e : Event) : Inv (step s e) := by
  cases e with
  | enqueue id maxAttempts => exact hinv.enqueue id maxAttempts
  | dequeue batchSize expiry =>
    exact hinv.dequeue_keeps hinv (fun s rest job expiry hinv _ hpending _ => hinv.handed expiry hpending)
      batchSize expiry
  | acknowledge id => exact hinv.acknowledge id
  | fail id error => exact hinv.fail id error

end System

/-! ### Conservation -/

/-- No worker that holds the job acknowledges it. -/
def Unfinished (id : Uuid) (s : System) (e : Event) : Prop := e = .acknowledge id → s.inHand id = none

variable {s : System}

/-- An event draws the id and puts it into one place, or leaves the number of its places, or finishes its job. -/
theorem places_step (hinv : s.Inv) (id : Uuid) (e : Event) :
    (id ∉ s.drawn ∧ id ∈ (step s e).drawn ∧ Unfinished id s e ∧ (step s e).places id = 1) ∨
      (id ∈ (step s e).drawn ↔ id ∈ s.drawn) ∧ (Unfinished id s e ∧ (step s e).places id = s.places id ∨
        ¬Unfinished id s e ∧ s.places id = 1 ∧ (step s e).places id = 0) := by
  cases e with
  | enqueue other n =>
    rw [step]
    split_ifs with hdrawn
    · exact .inr ⟨Iff.rfl, .inl ⟨by rintro ⟨⟩, rfl⟩⟩
    · have hnone := hinv.undrawn other hdrawn
      simp only [System.places, RedisJobQueue.enqueue, Job.new, count_cons, mem_cons, Unfinished] at hnone ⊢
      grind
  | dequeue batchSize expiry =>
    obtain ⟨hdrawn, hplaces⟩ := @System.Inv.dequeue_keeps s
      (fun s' => s'.drawn = s.drawn ∧ s'.places id = s.places id) hinv ⟨rfl, rfl⟩
      (fun _ _ _ _ _ h hpending _ => ⟨h.1, (System.places_handed hpending id).trans h.2⟩) batchSize expiry
    exact .inr ⟨by rw [hdrawn], .inl ⟨by rintro ⟨⟩, hplaces⟩⟩
  | acknowledge other =>
    rw [step]
    cases hhand : s.inHand other with
    | none => exact .inr ⟨Iff.rfl, .inl ⟨by rintro ⟨⟩; exact hhand, rfl⟩⟩
    | some job =>
      have honce := hinv.held_once hhand
      refine .inr ⟨Iff.rfl, ?_⟩
      simp only [System.places, RedisJobQueue.acknowledge, System.count_without, Unfinished]
      grind
  | fail other error =>
    rw [step]
    cases hhand : s.inHand other with
    | none => exact .inr ⟨Iff.rfl, .inl ⟨by rintro ⟨⟩, rfl⟩⟩
    | some job =>
      obtain rfl := System.inHand_id hhand
      have honce := hinv.held_once hhand
      obtain ⟨-, hways, -⟩ := System.fail_cases s.queue job error
      refine .inr ⟨Iff.rfl, .inl ⟨by rintro ⟨⟩, ?_⟩⟩
      simp only [System.places, System.count_without]
      grind

theorem places_run (hinv : s.Inv) (id : Uuid) (events : List Event) :
    (run step s events).places id = 1 ↔ id ∈ (run step s events).drawn ∧ (id ∈ s.drawn → s.places id = 1) ∧
      Along step (Unfinished id) s events := by
  induction events generalizing s with
  | nil =>
    have hnone := hinv.undrawn id
    simp only [run_nil, Along]
    grind
  | cons e rest ih =>
    have hstep := places_step hinv id e
    have hnone := hinv.undrawn id
    rw [run_cons, ih (hinv.step e), Along]
    grind

/-- In every run an id is in one place from its enqueue until a worker that holds its job acknowledges it, and in none
before and after. -/
theorem in_one_place (events : List Event) (id : Uuid) :
    let s := run step .start events
    s.places id ≤ 1 ∧ (s.places id = 1 ↔ id ∈ s.drawn ∧ Along step (Unfinished id) .start events) := by
  intro s
  have hinv : s.Inv := run_invariant (fun _ e h => h.step e) events System.inv_start
  refine ⟨hinv.once id, (places_run System.inv_start id events).trans ?_⟩
  simp [s, System.start]

end FraiseQL.JobQueue
