import FraiseQL.JobQueue

/-! The retry budget of a job. A job that fails at every execution is handed out `max_attempts` times when that
number is one; for every larger number it is handed out once less, because `fail` asks again whether the job
can be retried after `mark_failed` has already counted the retry it granted. -/

namespace FraiseQL.JobQueue

open EventRun List

/-- The job waits for no worker and is in no worker's hands. -/
def System.Settled (s : System) (id : Uuid) : Prop := id ∉ s.queue.pending ∧ s.inHand id = none

/-- No worker reports a success of the job. -/
def NeverAcknowledged (id : Uuid) (events : List Event) : Prop := Event.acknowledge id ∉ events

/-- What the budget promises of a job at a moment: it is in one place at most; once it is settled it has been
handed out `n` times and stands once among the dead letters; and failing on, it does get settled. -/
structure Budgeted (s : System) (id : Uuid) (n : Nat) : Prop where
  once : s.queue.pending.count id + (s.queue.processing.map Prod.fst).count id + s.queue.dlq.count id ≤ 1
  spent : s.Settled id → s.handedOut.count id = n ∧ s.queue.dlq.count id = 1
  ends : ∃ more, NeverAcknowledged id more ∧ (run step s more).Settled id

/-- `fail` puts the job back into the pending list exactly when `mark_failed` left it pending. -/
def Routed (id : Uuid) (s : System) (e : Event) : Prop :=
  ∀ error job, e = .fail id error → s.inHand id = some job →
    (id ∈ (step s e).queue.pending ↔ (job.markFailed error).state = .pending)

/-- Whatever was done to the queue before, a new job with `n` attempts whose executions all fail keeps its
budget, among whatever else happens in the queue. -/
def RetryBudget (n : Nat) : Prop :=
  ∀ (before after : List Event) (id : Uuid), id ∉ (run step .start before).drawn → NeverAcknowledged id after →
    Budgeted (run step (step (run step .start before) (.enqueue id n)) after) id n ∧
      Along step (Routed id) (step (run step .start before) (.enqueue id n)) after

/-! ### The life of a job -/

/-- Where a job with `n` attempts is, with the hand-outs it has had. -/
inductive Phase (s : System) (id : Uuid) (n : Nat) : Prop
  | pending (job : Job) (hmem : id ∈ s.queue.pending) (hjob : s.queue.job id = some job)
      (hmax : job.maxAttempts = n) (hhanded : s.handedOut.count id + 1 = job.attempt)
      (hleft : job.attempt = 1 ∨ job.attempt < n)
  | held (job : Job) (hhand : s.inHand id = some job) (hmax : job.maxAttempts = n)
      (hhanded : s.handedOut.count id = job.attempt) (hfirst : 1 ≤ job.attempt)
      (hleft : job.attempt = 1 ∨ job.attempt < n)
  | dead (hmem : id ∈ s.queue.dlq) (hhanded : s.handedOut.count id = max 1 (n - 1))

variable {s : System} {id other : Uuid} {n : Nat}

/-- What happens to other jobs leaves the phase of a job. -/
theorem Phase.frame {s' : System} (hphase : Phase s id n)
    (hpending : id ∈ s.queue.pending → id ∈ s'.queue.pending) (hjob : s'.queue.job id = s.queue.job id)
    (hhand : s'.inHand id = s.inHand id) (hdlq : id ∈ s.queue.dlq → id ∈ s'.queue.dlq)
    (hcount : s'.handedOut.count id = s.handedOut.count id) : Phase s' id n := by
  cases hphase with
  | pending job hmem hstored hmax hhanded hleft =>
    exact .pending job (hpending hmem) (hjob.trans hstored) hmax (by rw [hcount, hhanded]) hleft
  | held job hheld hmax hhanded hfirst hleft =>
    exact .held job (hhand.trans hheld) hmax (hcount.trans hhanded) hfirst hleft
  | dead hmem hhanded => exact .dead (hdlq hmem) (hcount.trans hhanded)

theorem find?_without (hne : id ≠ other) (held : List Job) :
    (held.filter fun job => job.id ≠ other).find? (fun job => job.id = id) = held.find? fun job => job.id = id := by
  rw [find?_filter]
  congr 1
  funext job
  by_cases hid : job.id = id
  · have hother : job.id ≠ other := fun h => hne (hid.symm.trans h)
    simp [hid, hne]
  · simp [hid]

theorem inHand_eq_none_iff : s.inHand id = none ↔ (s.held.map Job.id).count id = 0 := by
  rw [System.inHand, find?_eq_none, count_eq_zero, mem_map]
  constructor
  · rintro hnone ⟨job, hjob, hid⟩
    exact hnone job hjob (decide_eq_true hid)
  · intro hnone job hjob hid
    exact hnone ⟨job, hjob, of_decide_eq_true hid⟩

theorem Phase.drawn (hinv : s.Inv) (hphase : Phase s id n) : id ∈ s.drawn := by
  by_contra hdrawn
  have hnone := hinv.undrawn id hdrawn
  rw [System.places] at hnone
  cases hphase with
  | pending job hmem =>
    have hpos := count_pos_iff.mpr hmem
    omega
  | held job hhand =>
    have hpos := System.count_held_of_inHand hhand
    omega
  | dead hmem =>
    have hpos := count_pos_iff.mpr hmem
    omega

/-- A new job waits for its first hand-out. -/
theorem phase_enqueue (hinv : s.Inv) (hdrawn : id ∉ s.drawn) (n : Nat) : Phase (step s (.enqueue id n)) id n := by
  have hnew : s.handedOut.count id = 0 := count_eq_zero.mpr fun hmem => hdrawn (hinv.handedOut id hmem)
  rw [step, if_neg hdrawn]
  refine .pending (Job.new id n) mem_cons_self (Function.update_self _ _ _) rfl ?_ (.inl rfl)
  exact congrArg (· + 1) hnew

theorem Phase.enqueue (hinv : s.Inv) (hphase : Phase s id n) (m : Nat) : Phase (step s (.enqueue other m)) id n := by
  rw [step]
  by_cases hdrawn : other ∈ s.drawn
  · rw [if_pos hdrawn]
    exact hphase
  · rw [if_neg hdrawn]
    have hne : id ≠ other := by
      rintro rfl
      exact hdrawn (hphase.drawn hinv)
    exact hphase.frame (fun h => mem_cons_of_mem _ h) (Function.update_of_ne hne _ _) rfl (fun h => h) rfl

/-- A hand-out of the job takes it from the pending list into a worker's hands. -/
theorem Phase.handed {rest : List Uuid} {job : Job} {expiry : Nat} (hinv : s.Inv) (hphase : Phase s id n)
    (hpending : s.queue.pending = rest ++ [job.id]) (hjob : s.queue.job job.id = some job) :
    Phase (s.handed rest job expiry) id n := by
  have honce := hinv.once job.id
  rw [System.places, hpending, count_append, count_singleton_self] at honce
  by_cases hid : id = job.id
  · subst hid
    have hnone : s.inHand job.id = none := inHand_eq_none_iff.mpr (by omega)
    have hhand : (s.handed rest job expiry).inHand job.id = some job.markRunning := by
      have hfind : s.held.find? (fun held => held.id = job.id) = none := hnone
      simp [System.inHand, System.handed, find?_append, hfind, Job.markRunning]
    cases hphase with
    | pending stored hmem hstored hmax hhanded hleft =>
      have hsame : stored = job := Option.some.inj (hstored.symm.trans hjob)
      subst hsame
      refine .held stored.markRunning hhand hmax ?_ ?_ hleft
      · show (s.handedOut ++ [stored.id]).count stored.id = stored.attempt
        rw [count_append, count_singleton_self, hhanded]
      · show 1 ≤ stored.attempt
        omega
    | held stored hheld => cases hnone.symm.trans hheld
    | dead hmem =>
      have hpos := count_pos_iff.mpr hmem
      omega
  · apply hphase.frame
    · intro hmem
      rw [hpending] at hmem
      rcases mem_append.mp hmem with hmem | hmem
      · exact hmem
      · exact absurd (mem_singleton.mp hmem) hid
    · rfl
    · have hne : ¬job.id = id := fun h => hid h.symm
      simp [System.inHand, System.handed, find?_append, Job.markRunning, hne]
    · exact fun h => h
    · show (s.handedOut ++ [job.id]).count id = s.handedOut.count id
      rw [count_append, count_singleton, if_neg (by simpa using fun h => hid h.symm), Nat.add_zero]

theorem step_fail {job : Job} (hhand : s.inHand id = some job) (error : String) :
    step s (.fail id error) = { s with queue := (s.queue.fail job error).2, held := s.without id } := by
  rw [step, hhand]

theorem Phase.acknowledge (hphase : Phase s id n) (hne : id ≠ other) : Phase (step s (.acknowledge other)) id n := by
  rw [step]
  cases hhand : s.inHand other with
  | none => exact hphase
  | some job =>
    exact hphase.frame (fun h => h) (Function.update_of_ne hne _ _) (find?_without hne s.held) (fun h => h) rfl

theorem Phase.fail_other (hphase : Phase s id n) (hne : id ≠ other) (error : String) :
    Phase (step s (.fail other error)) id n := by
  cases hhand : s.inHand other with
  | none =>
    rw [step, hhand]
    exact hphase
  | some job =>
    rw [step_fail hhand]
    obtain rfl := System.inHand_id hhand
    obtain ⟨-, hways, -, hjob⟩ := System.fail_cases s.queue job error
    have hmore : (∀ x ∈ s.queue.pending, x ∈ (s.queue.fail job error).2.pending) ∧
        ∀ x ∈ s.queue.dlq, x ∈ (s.queue.fail job error).2.dlq := by
      rcases hways with ⟨-, hp, hd⟩ | ⟨-, hp, hd⟩
      · rw [hp, hd]
        exact ⟨fun x h => mem_cons_of_mem _ h, fun x h => h⟩
      · rw [hp, hd]
        exact ⟨fun x h => h, fun x h => mem_cons_of_mem _ h⟩
    refine hphase.frame (hmore.1 id) ?_ (find?_without hne s.held) (hmore.2 id) rfl
    show (s.queue.fail job error).2.job id = s.queue.job id
    rw [hjob, Function.update_of_ne hne]

theorem Phase.of_inHand {job : Job} (hinv : s.Inv) (hphase : Phase s id n) (hhand : s.inHand id = some job) :
    job.maxAttempts = n ∧ s.handedOut.count id = job.attempt ∧ 1 ≤ job.attempt ∧
      (job.attempt = 1 ∨ job.attempt < n) := by
  obtain ⟨hpending, -, hdlq⟩ := hinv.held_once hhand
  cases hphase with
  | pending _ hmem => exact absurd hmem (count_eq_zero.mp hpending)
  | held copy hheld hmax hhanded hfirst hleft =>
    cases hheld.symm.trans hhand
    exact ⟨hmax, hhanded, hfirst, hleft⟩
  | dead hmem => exact absurd hmem (count_eq_zero.mp hdlq)

/-- A failed execution of the job: while another attempt is left besides the one `mark_failed` grants, the
job goes back to the pending list; otherwise it dies. -/
theorem Phase.fail_self (hinv : s.Inv) (hphase : Phase s id n) (error : String) :
    Phase (step s (.fail id error)) id n := by
  cases hhand : s.inHand id with
  | none =>
    rw [step, hhand]
    exact hphase
  | some job =>
    rw [step_fail hhand]
    obtain ⟨hmax, hhanded, hfirst, hleft⟩ := hphase.of_inHand hinv hhand
    obtain rfl := System.inHand_id hhand
    obtain ⟨-, hways, -, hjob⟩ := System.fail_cases s.queue job error
    rcases hways with ⟨hretry, hp, -⟩ | ⟨hstop, -, hd⟩
    · have hnext : (job.markFailed error).attempt < n := by
        rw [Job.canRetry, decide_eq_true_eq, Job.markFailed_maxAttempts, hmax] at hretry
        exact hretry
      have hgranted : job.attempt < job.maxAttempts := by
        by_contra hlast
        rw [(Job.markFailed_stop error hlast).1] at hnext
        omega
      refine .pending (job.markFailed error) ?_ ?_ ?_ ?_ (.inr hnext)
      · show job.id ∈ (s.queue.fail job error).2.pending
        rw [hp]
        exact mem_cons_self
      · show (s.queue.fail job error).2.job job.id = _
        rw [hjob, Function.update_self]
      · rw [Job.markFailed_maxAttempts, hmax]
      · rw [(Job.markFailed_retry error hgranted).1]
        exact congrArg (· + 1) hhanded
    · have hlast : ¬(job.markFailed error).attempt < n := by
        rw [Job.canRetry, decide_eq_false_iff_not, Job.markFailed_maxAttempts, hmax] at hstop
        exact hstop
      refine .dead ?_ ?_
      · show job.id ∈ (s.queue.fail job error).2.dlq
        rw [hd]
        exact mem_cons_self
      · show s.handedOut.count job.id = max 1 (n - 1)
        by_cases hgranted : job.attempt < job.maxAttempts
        · rw [(Job.markFailed_retry error hgranted).1] at hlast
          omega
        · omega

theorem Phase.keep (hinv : s.Inv) (hphase : Phase s id n) (e : Event) (hack : e ≠ .acknowledge id) :
    Phase (step s e) id n := by
  cases e with
  | enqueue other m => exact hphase.enqueue hinv m
  | dequeue batchSize expiry =>
    have hturn : ∀ s rest job expiry, s.Inv → Phase s id n → s.queue.pending = rest ++ [job.id] →
        s.queue.job job.id = some job → Phase (s.handed rest job expiry) id n :=
      fun _ _ _ _ hinv hphase hpending hjob => hphase.handed hinv hpending hjob
    exact hinv.dequeue_keeps hphase hturn batchSize expiry
  | acknowledge other =>
    apply hphase.acknowledge
    rintro rfl
    exact hack rfl
  | fail other error =>
    by_cases hid : id = other
    · rw [← hid]
      exact hphase.fail_self hinv error
    · exact hphase.fail_other hid error

theorem NeverAcknowledged.along {events : List Event} (hack : NeverAcknowledged id events) :
    Along step (fun _ e => e ≠ .acknowledge id) s events := by
  apply along_const.mpr
  rintro e he rfl
  exact hack he

theorem inv_phase_step (s : System) (e : Event) (h : s.Inv ∧ Phase s id n) (hack : e ≠ .acknowledge id) :
    (step s e).Inv ∧ Phase (step s e) id n :=
  ⟨h.1.step e, h.2.keep h.1 e hack⟩

theorem Phase.keep_run (hinv : s.Inv) (hphase : Phase s id n) {events : List Event}
    (hack : NeverAcknowledged id events) : (run step s events).Inv ∧ Phase (run step s events) id n :=
  hack.along.invariant inv_phase_step ⟨hinv, hphase⟩

/-- A settled job is dead, after its last hand-out. -/
theorem Phase.settled (hinv : s.Inv) (hphase : Phase s id n) (hsettled : s.Settled id) :
    s.handedOut.count id = max 1 (n - 1) ∧ s.queue.dlq.count id = 1 := by
  obtain ⟨hpending, hhand⟩ := hsettled
  cases hphase with
  | pending _ hmem => exact absurd hmem hpending
  | held job hheld => exact nomatch hhand.symm.trans hheld
  | dead hmem hhanded =>
    have hpos := count_pos_iff.mpr hmem
    have honce := hinv.once id
    rw [System.places] at honce
    exact ⟨hhanded, by omega⟩

theorem pending_dequeue (hinv : s.Inv) (batchSize expiry : Nat) :
    (step s (.dequeue batchSize expiry)).queue.pending.length = s.queue.pending.length - batchSize := by
  induction batchSize generalizing s with
  | zero => rw [System.step_dequeue_zero, Nat.sub_zero]
  | succ b ih =>
    rw [hinv.dequeue_succ]
    rcases hinv.dequeueOne expiry with ⟨hempty, hone⟩ | ⟨rest, job, hpending, -, hone⟩
    · have hsame : s.takeOne expiry = s := by rw [System.takeOne, hone]
      rw [hsame, ih hinv, hempty]
      simp
    · have htake : s.takeOne expiry = s.handed rest job expiry := by rw [System.takeOne, hone]; rfl
      rw [htake, ih (hinv.handed expiry hpending), hpending, length_append, length_singleton]
      show rest.length - b = rest.length + 1 - (b + 1)
      omega

/-- The job still waits after `count` hand-outs, or it has been handed out once more. -/
def WaitingOrHanded (id : Uuid) (count : Nat) (s : System) : Prop :=
  (id ∈ s.queue.pending ∧ s.handedOut.count id = count) ∨ (id ∉ s.queue.pending ∧ s.handedOut.count id = count + 1)

theorem WaitingOrHanded.handed {count : Nat} {rest : List Uuid} {job : Job} {expiry : Nat} (hinv : s.Inv)
    (hwait : WaitingOrHanded id count s) (hpending : s.queue.pending = rest ++ [job.id]) :
    WaitingOrHanded id count (s.handed rest job expiry) := by
  have honce := hinv.once job.id
  rw [System.places, hpending, count_append, count_singleton_self] at honce
  by_cases hid : id = job.id
  · rcases hwait with ⟨-, hcount⟩ | ⟨hout, -⟩
    · right
      rw [← hid] at honce
      have hout : rest.count id = 0 := by omega
      refine ⟨count_eq_zero.mp hout, ?_⟩
      show (s.handedOut ++ [job.id]).count id = count + 1
      rw [count_append, hid, count_singleton_self, ← hid, hcount]
    · exact absurd (by rw [hpending, hid]; simp) hout
  · have hsame : (s.handed rest job expiry).handedOut.count id = s.handedOut.count id := by
      show (s.handedOut ++ [job.id]).count id = _
      rw [count_append, count_singleton, if_neg (by simpa using fun h => hid h.symm), Nat.add_zero]
    have hmem : id ∈ s.queue.pending ↔ id ∈ rest := by simp [hpending, hid]
    rw [WaitingOrHanded, hsame]
    rwa [WaitingOrHanded, hmem] at hwait

/-- Dequeueing all that is pending hands the job out once. -/
theorem drain_pending (hinv : s.Inv) (hmem : id ∈ s.queue.pending) :
    (step s (.dequeue s.queue.pending.length 0)).queue.pending = [] ∧
      (step s (.dequeue s.queue.pending.length 0)).handedOut.count id = s.handedOut.count id + 1 := by
  have hempty : (step s (.dequeue s.queue.pending.length 0)).queue.pending = [] := by
    apply eq_nil_of_length_eq_zero
    rw [pending_dequeue hinv, Nat.sub_self]
  have hturns : WaitingOrHanded id (s.handedOut.count id) (step s (.dequeue s.queue.pending.length 0)) :=
    hinv.dequeue_keeps (.inl ⟨hmem, rfl⟩) (fun _ _ _ _ hinv hwait hpending _ => hwait.handed hinv hpending) _ _
  refine ⟨hempty, ?_⟩
  rcases hturns with ⟨hstill, -⟩ | ⟨-, hcount⟩
  · rw [hempty] at hstill
    cases hstill
  · exact hcount

theorem handedOut_fail (error : String) : (step s (.fail id error)).handedOut = s.handedOut := by
  rw [step]
  split <;> rfl

theorem inHand_fail_self (error : String) : (step s (.fail id error)).inHand id = none := by
  cases hhand : s.inHand id with
  | none => rwa [step, hhand]
  | some job =>
    rw [step_fail hhand, inHand_eq_none_iff]
    exact (System.count_without id).trans (if_pos rfl)

/-- Failing on, a pending job gets settled: every round of a hand-out and a failure uses up an attempt. -/
theorem Phase.ends_pending (hn : 1 ≤ n) (fuel : Nat) : ∀ {s : System}, s.Inv → Phase s id n →
    id ∈ s.queue.pending → n ≤ s.handedOut.count id + fuel →
      ∃ more, NeverAcknowledged id more ∧ (run step s more).Settled id := by
  induction fuel with
  | zero =>
    intro s hinv hphase hmem hfuel
    have hpos := count_pos_iff.mpr hmem
    have honce := hinv.once id
    rw [System.places] at honce
    cases hphase with
    | pending job _ _ _ hhanded hleft => omega
    | held job hhand =>
      have hheld := System.count_held_of_inHand hhand
      omega
    | dead hdead =>
      have hdlq := count_pos_iff.mpr hdead
      omega
  | succ fuel ih =>
    intro s hinv hphase hmem hfuel
    obtain ⟨-, hcount⟩ := drain_pending hinv hmem
    have hinv₁ := hinv.step (.dequeue s.queue.pending.length 0)
    have hphase₁ := hphase.keep hinv (.dequeue s.queue.pending.length 0) (by rintro ⟨⟩)
    have hinv₂ := hinv₁.step (.fail id "")
    have hphase₂ := hphase₁.keep hinv₁ (.fail id "") (by rintro ⟨⟩)
    have hround : NeverAcknowledged id [.dequeue s.queue.pending.length 0, .fail id ""] := by
      simp [NeverAcknowledged]
    by_cases hmem₂ : id ∈ (step (step s (.dequeue s.queue.pending.length 0)) (.fail id "")).queue.pending
    · obtain ⟨more, hmore, hsettled⟩ := ih hinv₂ hphase₂ hmem₂ (by rw [handedOut_fail, hcount]; omega)
      refine ⟨.dequeue s.queue.pending.length 0 :: .fail id "" :: more, ?_, hsettled⟩
      simpa [NeverAcknowledged] using hmore
    · exact ⟨_, hround, hmem₂, inHand_fail_self ""⟩

/-- Failing on, every job gets settled. -/
theorem Phase.ends (hn : 1 ≤ n) (hinv : s.Inv) (hphase : Phase s id n) :
    ∃ more, NeverAcknowledged id more ∧ (run step s more).Settled id := by
  have hinv₁ := hinv.step (.fail id "")
  have hphase₁ := hphase.keep hinv (.fail id "") nofun
  by_cases hmem : id ∈ (step s (.fail id "")).queue.pending
  · obtain ⟨more, hmore, hsettled⟩ := hphase₁.ends_pending hn n hinv₁ hmem (Nat.le_add_left n _)
    refine ⟨.fail id "" :: more, ?_, hsettled⟩
    simpa [NeverAcknowledged] using hmore
  · exact ⟨[.fail id ""], by simp [NeverAcknowledged], hmem, inHand_fail_self ""⟩

/-! ### The budget -/

theorem inv_run (events : List Event) : (run step .start events).Inv :=
  run_invariant (fun _ e hinv => hinv.step e) events System.inv_start

/-- With one attempt there is nothing to retry and nothing to count twice. -/
theorem routed_one (hinv : s.Inv) (hphase : Phase s id 1) (e : Event) : Routed id s e := by
  rintro error job rfl hhand
  obtain ⟨hmax, -, hfirst, -⟩ := hphase.of_inHand hinv hhand
  have hlast : ¬job.attempt < job.maxAttempts := by omega
  obtain ⟨hpending, -, -⟩ := hinv.held_once hhand
  obtain ⟨-, hways, -, -⟩ := System.fail_cases s.queue job error
  obtain ⟨hattempt, hstate⟩ := Job.markFailed_stop error hlast
  rw [hstate, step_fail hhand]
  refine ⟨?_, nofun⟩
  intro hmem
  rcases hways with ⟨hretry, -, -⟩ | ⟨-, hp, -⟩
  · rw [Job.canRetry, decide_eq_true_eq, hattempt, Job.markFailed_maxAttempts] at hretry
    exact absurd hretry hlast
  · rw [show (s.queue.fail job error).2.pending = s.queue.pending from hp] at hmem
    exact absurd hmem (count_eq_zero.mp hpending)

/-- A job is handed out as often as its budget says, and routed as `mark_failed` decides, exactly when its
budget is a single attempt. -/
theorem retryBudget_iff (n : Nat) (hn : 1 ≤ n) : RetryBudget n ↔ n = 1 := by
  constructor
  · intro hbudget
    have hphase : Phase (step .start (.enqueue 0 n)) 0 n := phase_enqueue System.inv_start nofun n
    have hinv : (step .start (.enqueue 0 n)).Inv := System.inv_start.step _
    obtain ⟨more, hmore, hsettled⟩ := hphase.ends hn hinv
    obtain ⟨hinv', hphase'⟩ := hphase.keep_run hinv hmore
    have hspent := ((hbudget [] more 0 nofun hmore).1.spent hsettled).1
    have hhanded := (hphase'.settled hinv' hsettled).1
    have hsame : n = max 1 (n - 1) := hspent.symm.trans hhanded
    omega
  · rintro rfl before after id hdrawn hafter
    have hinv := inv_run before
    have hinv₁ := hinv.step (.enqueue id 1)
    have hphase₁ := phase_enqueue hinv hdrawn 1
    obtain ⟨hinv', hphase'⟩ := hphase₁.keep_run hinv₁ hafter
    refine ⟨⟨?_, ?_, hphase'.ends hn hinv'⟩, ?_⟩
    · rw [hinv'.processing]
      exact hinv'.once id
    · intro hsettled
      exact hphase'.settled hinv' hsettled
    · exact hafter.along.mono inv_phase_step (fun _ e h _ => routed_one h.1 h.2 e) ⟨hinv₁, hphase₁⟩

theorem single_attempt_budget : RetryBudget 1 := (retryBudget_iff 1 (Nat.le_refl 1)).mpr rfl

/-- A job with two attempts is dead after its first failure: `mark_failed` left it pending for the second. -/
theorem two_attempts_one_handout : ¬RetryBudget 2 := by
  intro hbudget
  have hspent := (hbudget [] [.dequeue 1 0, .fail 0 "timeout"] 0 nofun (by simp [NeverAcknowledged])).1.spent
    ⟨by decide, by decide⟩
  exact absurd hspent.1 (by decide)

end FraiseQL.JobQueue
