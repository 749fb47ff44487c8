import FraiseQL.StreamControl

/-!
Runs of a stream. The reader has no handles on a pause: the stream makes them after the reader took its
own. So it never waits, and a pause is kept only by a reader that had nothing left to take; the copy of the
state behind the lock is never terminal, and no call on a terminal stream is refused.
-/

namespace FraiseQL.Wire.StreamControl

open EventRun

variable {lib : Libraries}

/-! ### What a step changes -/

/-- The reader is at no point of the loop it reaches only through its handles. -/
def System.awake (s : System) : Bool :=
  match s.reader.point with
  | .pauseSeen => false
  | .waiting => false
  | .woken => false
  | _ => true

/-- The reader takes no message any more. -/
def System.quiet (lib : Libraries) (s : System) : Prop :=
  s.nothingFurther lib = true ∧ (s.reader.point = .selecting → s.inbox = [])

variable {s : System}

theorem quiet_of_between (hbetween : s.betweenMessages = true)
    (hnothing : s.nothingFurther lib = true) : s.quiet lib := by
  refine ⟨hnothing, fun hpoint => ?_⟩
  rw [System.betweenMessages, hpoint] at hbetween
  cases hbetween

variable {t : System}

/-- Whether the reader goes on is a matter of the reader and the connection. -/
theorem nothingFurther_congr (hreader : t.reader = s.reader) (hinbox : t.inbox = s.inbox) :
    t.nothingFurther lib = s.nothingFurther lib := by
  simp only [System.nothingFurther, hreader, hinbox]

theorem quiet_congr (hreader : t.reader = s.reader) (hinbox : t.inbox = s.inbox) : t.quiet lib ↔ s.quiet lib := by
  rw [System.quiet, System.quiet, nothingFurther_congr hreader hinbox, hreader, hinbox]

variable {a : Action}

theorem act_read : s.act lib .read = s.readerStep lib := by simp only [System.act]

/-- The reader is not waiting when a timeout comes. -/
theorem timeout_ignored (hawake : s.awake = true) : s.act lib .timeout = (s, .nothing) := by
  have htimeout : s.timeout = (s, .nothing) := by
    unfold System.timeout
    split
    · next hpoint _ => simp [System.awake, hpoint] at hawake
    · rfl
  unfold System.act
  split <;> first | exact htimeout | rfl | contradiction

/-- What the steps besides those of the reader are. -/
inductive ConsumerMoves (s : System) : Action → System × Shown → Prop where
  | idle (a : Action) : ConsumerMoves s a (s, .nothing)
  | pause (hcall : s.call = none) : ConsumerMoves s .pause s.pause
  | resume (hcall : s.call = none) : ConsumerMoves s .resume s.resume
  | poll (hcall : s.call = none) : ConsumerMoves s .poll s.poll
  | timeouts (a : Action) (pr : PauseResumeState) : ConsumerMoves s a (s.withPause pr, .nothing)
  | finishPause (hcall : s.call = some .pausing) : ConsumerMoves s .finish s.finishPause
  | finishResume (hcall : s.call = some .resuming) : ConsumerMoves s .finish s.finishResume

theorem act_moves (ha : a ≠ .read) (hawake : s.awake = true) : ConsumerMoves s a (s.act lib a) := by
  by_cases htimeout : a = .timeout
  · rw [htimeout, timeout_ignored hawake]
    exact .idle _
  unfold System.act
  split
  · next hcall => exact .pause hcall
  · next hcall => exact .resume hcall
  · next hcall => exact .finishPause hcall
  · next hcall => exact .finishResume hcall
  · next hcall => exact .poll hcall
  · exact .timeouts _ _
  · split
    · exact .timeouts _ _
    · exact .idle _
  · exact absurd rfl ha
  · exact absurd rfl htimeout
  · exact .idle _

theorem resume_spec (s : System) : s.resume.1.reader = s.reader ∧ s.resume.1.inbox = s.inbox ∧
    (s.resume.1.stateSnapshot = .completed → s.stateSnapshot = .completed) ∧
    (s.resume.1.call = some .pausing → s.call = some .pausing) ∧
    ((∃ result, s.resume.2 = .returned .resuming result) ∨ s.resume.2 = .called .resuming) := by
  unfold System.resume
  split
  · exact ⟨rfl, rfl, id, id, .inl ⟨_, rfl⟩⟩
  · dsimp only
    split
    · exact ⟨rfl, rfl, nofun, nofun, .inr rfl⟩
    · exact ⟨rfl, rfl, id, nofun, .inr rfl⟩

theorem poll_spec (s : System) : s.poll.1.reader = s.reader ∧ s.poll.1.inbox = s.inbox ∧ s.poll.1.call = s.call ∧
    ∃ result, s.poll.2 = .polled result := by
  unfold System.poll
  split
  · exact ⟨rfl, rfl, rfl, _, rfl⟩
  · split
    · exact ⟨rfl, rfl, rfl, _, rfl⟩
    · exact ⟨rfl, rfl, rfl, _, rfl⟩
    · split <;> exact ⟨rfl, rfl, rfl, _, rfl⟩

theorem finishPause_spec (s : System) : s.finishPause.1 = { s with stream := s.finishPause.1.stream, call := none } ∧
    s.finishPause.1.stateSnapshot = s.stateSnapshot ∧ ∃ result, s.finishPause.2 = .returned .pausing result := by
  unfold System.finishPause
  dsimp only
  split <;> exact ⟨rfl, rfl, _, rfl⟩

theorem finishResume_spec (s : System) : s.finishResume.1 = { s with stream := s.finishResume.1.stream, call := none } ∧
    s.finishResume.1.stateSnapshot = s.stateSnapshot ∧ ∃ result, s.finishResume.2 = .returned .resuming result := by
  unfold System.finishResume
  dsimp only
  split <;> exact ⟨rfl, rfl, _, rfl⟩

/-- The consumer leaves the reader and the connection alone, and so does the timeout of a pause that is not
waited for. -/
theorem act_reader (ha : a ≠ .read) (hawake : s.awake = true) :
    (s.act lib a).1.reader = s.reader ∧ (s.act lib a).1.inbox = s.inbox := by
  have hmoves : ConsumerMoves s a (s.act lib a) := act_moves ha hawake
  generalize s.act lib a = r at hmoves
  cases hmoves with
  | idle | pause | timeouts => exact ⟨rfl, rfl⟩
  | resume => exact ⟨(resume_spec s).1, (resume_spec s).2.1⟩
  | poll => exact ⟨(poll_spec s).1, (poll_spec s).2.1⟩
  | finishPause =>
    rw [(finishPause_spec s).1]
    exact ⟨rfl, rfl⟩
  | finishResume =>
    rw [(finishResume_spec s).1]
    exact ⟨rfl, rfl⟩

/-- What a step of the reader is, when it has no handles: past the head of the loop, to the next message or
the end of the connection, or one item further with those of the last. -/
inductive ReaderMoves (lib : Libraries) (s : System) : System → Shown → Prop where
  | pass (h : s.reader.point = .top) : ReaderMoves lib s (s.withPoint .selecting) .nothing
  | closed (h : s.reader.point = .selecting) (hinbox : s.inbox = []) :
      ReaderMoves lib s (s.withPoint (.sending [.error .connectionClosed] false)) .nothing
  | take (msg : BackendMessage) (inbox : List BackendMessage) (h : s.reader.point = .selecting)
      (hinbox : s.inbox = msg :: inbox) :
      ReaderMoves lib s
        { s with
          reader :=
            { s.reader with
              chunk := (s.reader.process lib msg).2.1
              point := .sending (s.reader.process lib msg).1 (s.reader.process lib msg).2.2 }
          inbox }
        (.took msg)
  | finish (goesOn : Bool) (h : s.reader.point = .sending [] goesOn) :
      ReaderMoves lib s (s.withPoint (if goesOn then .top else .ended)) .nothing
  | send (item : Item) (items : List Item) (goesOn : Bool) (h : s.reader.point = .sending (item :: items) goesOn) :
      ReaderMoves lib s { s.withPoint (.sending items goesOn) with queue := s.queue ++ [item] } .nothing
  | stay : ReaderMoves lib s s .nothing

theorem readerStep_moves (hhandles : s.reader.handles = false) (hawake : s.awake = true) :
    ReaderMoves lib s (s.readerStep lib).1 (s.readerStep lib).2 := by
  unfold System.readerStep
  split
  · next hpoint =>
      rw [hhandles]
      exact .pass hpoint
  · next hpoint => simp [System.awake, hpoint] at hawake
  · next hpoint => simp [System.awake, hpoint] at hawake
  · next hpoint => simp [System.awake, hpoint] at hawake
  · next hpoint =>
      split
      · next hinbox => exact .closed hpoint hinbox
      · next msg inbox hinbox => exact .take msg inbox hpoint hinbox
  · next goesOn hpoint => exact .finish goesOn hpoint
  · next item items goesOn hpoint =>
      split
      · exact .send item items goesOn hpoint
      · exact .stay
  · exact .stay

variable {shown : Shown}

/-- A reader with nothing further to take comes to no more than the message in progress. -/
theorem nothingFurther_moves (h : ReaderMoves lib s t shown)
    (hnothing : s.nothingFurther lib = true) : t.nothingFurther lib = true := by
  cases h with
  | pass h =>
    simp only [System.nothingFurther, h, List.isEmpty_iff] at hnothing
    simp [System.nothingFurther, System.withPoint, hnothing]
  | closed h hinbox => rfl
  | take msg inbox h hinbox =>
    simp only [System.nothingFurther, h, hinbox, Bool.or_eq_true, Bool.not_eq_true'] at hnothing
    cases hgoes : (s.reader.process lib msg).2.2 with
    | false => simp [System.nothingFurther]
    | true =>
      rw [hgoes] at hnothing
      simpa [System.nothingFurther] using hnothing
  | finish goesOn h | send item items goesOn h =>
    cases goesOn with
    | false => rfl
    | true =>
      simp only [System.nothingFurther, h] at hnothing
      simpa [System.nothingFurther, System.withPoint] using hnothing
  | stay => exact hnothing

theorem quiet_moves (h : ReaderMoves lib s t shown) (hquiet : s.quiet lib) : t.quiet lib := by
  refine ⟨nothingFurther_moves h hquiet.1, ?_⟩
  intro hpoint
  cases h with
  | pass h => simpa [System.nothingFurther, System.withPoint, h] using hquiet.1
  | closed h hinbox => exact hinbox
  | take msg inbox h hinbox => cases hpoint
  | finish goesOn h => cases goesOn <;> cases hpoint
  | send item items goesOn h => cases hpoint
  | stay => exact hquiet.2 hpoint

/-- The reader changes neither the atomic nor a call, keeps what handles it has and stays awake; the items
that wait only grow, and not once it has ended. -/
theorem moves_frame (h : ReaderMoves lib s t shown) :
    t.stream = s.stream ∧ t.call = s.call ∧ t.reader.handles = s.reader.handles ∧
      (s.awake = true → t.awake = true) ∧
      (s.readerEnded = true → t.queue = s.queue ∧ t.readerEnded = true) := by
  cases h with
  | pass h | closed h hinbox => simp [System.withPoint, System.awake, System.readerEnded, h]
  | take msg inbox h hinbox => simp [System.awake, System.readerEnded, h]
  | finish goesOn h => cases goesOn <;> simp [System.withPoint, System.awake, System.readerEnded, h]
  | send item items goesOn h => simp [System.withPoint, System.awake, System.readerEnded, h]
  | stay => simp

/-! ### The invariant -/

/-- What holds throughout a run of allowed steps. -/
structure Invariant (lib : Libraries) (w : Watched) : Prop where
  handles : w.system.reader.handles = false
  awake : w.system.awake = true
  completed : w.system.stateSnapshot = .completed → w.system.queue = [] ∧ w.system.readerEnded = true
  called : w.watch.calledTerminal = false
  pausing : w.system.call = some .pausing → w.system.nothingFurther lib = true
  paused : ∀ settled, w.watch.pauseOn = some settled → w.system.nothingFurther lib = true
  settled : w.watch.pauseOn = some true → w.system.quiet lib

theorem invariant_start (chunkSize : Nat) (maxMemory : Option Nat) (failThreshold : Option (Nat → Nat))
    (inbox : List BackendMessage) : Invariant lib ⟨streamingQuery chunkSize maxMemory failThreshold inbox, {}⟩ where
  handles := rfl
  awake := rfl
  completed h := by cases h
  called := rfl
  pausing h := by cases h
  paused settled h := by cases h
  settled h := by cases h

/-- A poll of a stream that is closed and empty exceeds no limit. -/
theorem memoryExceeded_empty (h : s.queue = []) : s.memoryExceeded = none := by
  unfold System.memoryExceeded
  split
  · rfl
  · rw [h]
    simp only [List.length_nil, Nat.zero_mul, Nat.not_lt_zero, if_false]
    split <;> rfl

/-- Polls leave a terminal snapshot alone, but for the one that finds a failed stream at its end. -/
theorem poll_snapshot (hcompleted : s.stateSnapshot = .completed → s.queue = [] ∧ s.readerEnded = true)
    (hallowed : ¬ (s.stateSnapshot = .failed ∧ s.queue = [] ∧ s.readerEnded = true))
    (hterminal : s.stateSnapshot.terminal = true) : s.poll.1.stateSnapshot = s.stateSnapshot := by
  cases hsnapshot : s.stateSnapshot with
  | running | paused => simp [hsnapshot, StreamState.terminal] at hterminal
  | completed =>
    obtain ⟨hqueue, hended⟩ := hcompleted hsnapshot
    simp only [System.poll, memoryExceeded_empty hqueue, hqueue, hended, if_true]
    rfl
  | failed =>
    simp only [System.poll]
    split
    · rfl
    · split
      · exact hsnapshot
      · rfl
      · next hqueue =>
          split
          · next hended => exact absurd ⟨hsnapshot, hqueue, hended⟩ hallowed
          · exact hsnapshot

/-- A poll ends with the snapshot completed only on a stream that is closed and empty. -/
theorem poll_completed (hcompleted : s.stateSnapshot = .completed → s.queue = [] ∧ s.readerEnded = true)
    (h : s.poll.1.stateSnapshot = .completed) : s.poll.1.queue = [] ∧ s.poll.1.readerEnded = true := by
  simp only [System.poll] at h ⊢
  split at h
  · cases h
  · next hlimit =>
      split at h
      · next value queue hqueue =>
          obtain ⟨hempty, -⟩ := hcompleted h
          rw [hqueue] at hempty
          cases hempty
      · cases h
      · next hqueue =>
          split at h
          · next hended =>
              rw [if_pos hended]
              exact ⟨hqueue, hended⟩
          · next hended =>
              rw [if_neg hended]
              exact hcompleted h

/-- What the reader keeps, an observer who was told of no new pause keeps with it. -/
theorem watch_quiet {pauseOn : Option Bool} (hpaused : ∀ settled, pauseOn = some settled → t.nothingFurther lib = true)
    (hsettled : pauseOn = some true → t.quiet lib) :
    (∀ settled, pauseOn.map (· || t.betweenMessages) = some settled → t.nothingFurther lib = true) ∧
      (pauseOn.map (· || t.betweenMessages) = some true → t.quiet lib) := by
  cases pauseOn with
  | none => exact ⟨fun _ h => (by cases h), fun h => (by cases h)⟩
  | some settled =>
    refine ⟨fun _ _ => hpaused settled rfl, fun h => ?_⟩
    simp only [Option.map_some, Option.some.injEq, Bool.or_eq_true] at h
    rcases h with rfl | hbetween
    · exact hsettled rfl
    · exact quiet_of_between hbetween (hpaused settled rfl)

variable {w : Watched}

/-- A step that leaves the reader and the connection alone keeps the invariant when what it shows lets it. -/
theorem invariant_of_reader (hinv : Invariant lib w)
    (hframe : (w.system.act lib a).1.reader = w.system.reader ∧ (w.system.act lib a).1.inbox = w.system.inbox)
    (hcompleted : (w.system.act lib a).1.stateSnapshot = .completed →
      (w.system.act lib a).1.queue = [] ∧ (w.system.act lib a).1.readerEnded = true)
    (hcalled : (w.step lib a).watch.calledTerminal = false)
    (hpausing : (w.system.act lib a).1.call = some .pausing → w.system.nothingFurther lib = true)
    (hpaused : ∀ settled, (w.step lib a).watch.pauseOn = some settled → w.system.nothingFurther lib = true)
    (hsettled : (w.step lib a).watch.pauseOn = some true → w.system.quiet lib) :
    Invariant lib (w.step lib a) := by
  obtain ⟨hreader, hinbox⟩ := hframe
  have hnothing : (w.step lib a).system.nothingFurther lib = w.system.nothingFurther lib :=
    nothingFurther_congr hreader hinbox
  refine ⟨?_, ?_, hcompleted, hcalled, ?_, ?_, ?_⟩
  · show (w.system.act lib a).1.reader.handles = false
    rw [hreader]
    exact hinv.handles
  · show (w.system.act lib a).1.awake = true
    rw [System.awake, hreader]
    exact hinv.awake
  · intro h
    rw [hnothing]
    exact hpausing h
  · intro settled h
    rw [hnothing]
    exact hpaused settled h
  · intro h
    exact (quiet_congr hreader hinbox).mpr (hsettled h)

/-- A step that shows nothing of a call, made with the reader and the atomic as they were. -/
theorem invariant_of_silent (hinv : Invariant lib w)
    (hframe : (w.system.act lib a).1.reader = w.system.reader ∧ (w.system.act lib a).1.inbox = w.system.inbox)
    (hcompleted : (w.system.act lib a).1.stateSnapshot = .completed →
      (w.system.act lib a).1.queue = [] ∧ (w.system.act lib a).1.readerEnded = true)
    (hcall : (w.system.act lib a).1.call = w.system.call ∨ (w.system.act lib a).1.call = none)
    (hwatch : (w.step lib a).watch =
      { w.watch with pauseOn := w.watch.pauseOn.map (· || (w.system.act lib a).1.betweenMessages) }) :
    Invariant lib (w.step lib a) := by
  have hbetween : (w.system.act lib a).1.betweenMessages = w.system.betweenMessages := by
    simp only [System.betweenMessages, hframe.1]
  obtain ⟨hpaused, hsettled⟩ := watch_quiet hinv.paused hinv.settled
  refine invariant_of_reader hinv hframe hcompleted ?_ ?_ ?_ ?_
  · rw [hwatch]
    exact hinv.called
  · intro h
    rcases hcall with hcall | hcall
    · exact hinv.pausing (hcall ▸ h)
    · rw [hcall] at h
      cases h
  · intro settled h
    rw [hwatch, hbetween] at h
    exact hpaused settled h
  · intro h
    rw [hwatch, hbetween] at h
    exact hsettled h

/-- The reader's step shows a message taken or nothing. -/
theorem watch_moves (h : ReaderMoves lib s t shown) (watch : Watch) :
    watch.next s t shown = { watch with pauseOn := watch.pauseOn.map (· || t.betweenMessages) } := by
  cases h <;> rfl

theorem read_moves (hhandles : s.reader.handles = false) (hawake : s.awake = true) :
    ReaderMoves lib s (s.act lib .read).1 (s.act lib .read).2 := by
  rw [act_read]
  exact readerStep_moves hhandles hawake

theorem read_invariant (hinv : Invariant lib w) : Invariant lib (w.step lib .read) := by
  have hmoves : ReaderMoves lib w.system (w.step lib .read).system (w.system.act lib .read).2 :=
    read_moves hinv.handles hinv.awake
  obtain ⟨hstream, hcall, hhandles, hawake, hended⟩ := moves_frame hmoves
  have hwatch : (w.step lib .read).watch =
      { w.watch with
        pauseOn := w.watch.pauseOn.map (· || (w.step lib .read).system.betweenMessages) } := by
    exact watch_moves hmoves w.watch
  obtain ⟨hpaused, hsettled⟩ := watch_quiet (t := (w.step lib .read).system)
    (fun settled h => nothingFurther_moves hmoves (hinv.paused settled h))
    (fun h => quiet_moves hmoves (hinv.settled h))
  refine ⟨?_, hawake hinv.awake, ?_, ?_, ?_, ?_, ?_⟩
  · rw [hhandles]
    exact hinv.handles
  · intro h
    rw [System.stateSnapshot, hstream] at h
    obtain ⟨hqueue, hreader⟩ := hinv.completed h
    obtain ⟨hsame, hstill⟩ := hended hreader
    exact ⟨hsame.trans hqueue, hstill⟩
  · rw [hwatch]
    exact hinv.called
  · intro h
    rw [hcall] at h
    exact nothingFurther_moves hmoves (hinv.pausing h)
  · intro settled h
    rw [hwatch] at h
    exact hpaused settled h
  · intro h
    rw [hwatch] at h
    exact hsettled h

theorem step_invariant (w : Watched) (a : Action) (hinv : Invariant lib w) (hallowed : Allowed lib w a = true) :
    Invariant lib (w.step lib a) := by
  by_cases hread : a = .read
  · subst hread
    exact read_invariant hinv
  have hframe : (w.system.act lib a).1.reader = w.system.reader ∧ (w.system.act lib a).1.inbox = w.system.inbox :=
    act_reader hread hinv.awake
  have hmoves : ConsumerMoves w.system a (w.system.act lib a) := act_moves hread hinv.awake
  generalize hact : w.system.act lib a = r at hmoves
  cases hmoves with
  | idle | timeouts =>
    refine invariant_of_silent hinv hframe ?_ (.inl ?_) ?_
    · rw [hact]
      exact hinv.completed
    · exact congrArg (fun r => r.1.call) hact
    · rw [Watched.step, hact]
      rfl
  | pause hcall =>
    simp only [Allowed, hcall, Bool.and_eq_true, Bool.not_eq_true'] at hallowed
    obtain ⟨hterminal, hnothing⟩ := hallowed
    refine invariant_of_reader hinv hframe ?_ ?_ (fun _ => hnothing) (fun _ _ => hnothing) ?_
    · intro h
      rw [hact] at h
      cases h
    · rw [Watched.step, hact]
      exact hterminal
    · intro h
      rw [Watched.step, hact] at h
      exact (watch_quiet (t := w.system) hinv.paused hinv.settled).2 h
  | resume hcall =>
    simp only [Allowed, hcall, Bool.not_eq_true'] at hallowed
    obtain ⟨-, -, hcompleted, hpausing, hshown⟩ := resume_spec w.system
    have hwatch : (w.step lib .resume).watch.pauseOn = none ∧ (w.step lib .resume).watch.calledTerminal = false := by
      rw [Watched.step, hact]
      rcases hshown with ⟨_, hshown⟩ | hshown
      · simp only [hshown]
        exact ⟨rfl, hinv.called⟩
      · simp only [hshown]
        exact ⟨rfl, hallowed⟩
    refine invariant_of_reader hinv hframe ?_ hwatch.2 ?_ ?_ ?_
    · intro h
      rw [hcompleted (hact ▸ h)] at hallowed
      cases hallowed
    · intro h
      exact hinv.pausing (hpausing (hact ▸ h))
    · intro settled h
      rw [hwatch.1] at h
      cases h
    · intro h
      rw [hwatch.1] at h
      cases h
  | poll hcall =>
    obtain ⟨-, -, hsame, result, hresult⟩ := poll_spec w.system
    refine invariant_of_silent hinv hframe ?_ (.inl ?_) ?_
    · rw [hact]
      exact poll_completed hinv.completed
    · rw [hact]
      exact hsame
    · rw [Watched.step, hact]
      simp only [hresult]
      rfl
  | finishPause hcall =>
    have hnothing := hinv.pausing hcall
    obtain ⟨hdone, hsnapshot, result, hresult⟩ := finishPause_spec w.system
    have hbetween : (w.system.act lib .finish).1.betweenMessages = w.system.betweenMessages := by
      simp only [System.betweenMessages, hframe.1]
    have hkept := watch_quiet hinv.paused hinv.settled
    rw [← hbetween] at hkept
    refine invariant_of_reader hinv hframe ?_ ?_ ?_ (fun _ _ => hnothing) ?_
    · rw [hact, hsnapshot, hdone]
      exact hinv.completed
    · rw [Watched.step, hact]
      simp only [hresult]
      cases result <;> exact hinv.called
    · intro h
      rw [hact, hdone] at h
      cases h
    · intro h
      cases result with
      | error e =>
        apply hkept.2
        rw [← h, Watched.step, hact]
        simp only [hresult, Watch.next]
      | ok value =>
        rw [Watched.step] at h
        simp only [hact, hresult, Watch.next, Option.some.injEq, Bool.or_eq_true] at h
        rcases h with h | h
        · apply hinv.settled
          cases hon : w.watch.pauseOn with
          | none => simp [hon] at h
          | some settled => simpa [hon] using h
        · rw [hact] at hbetween
          exact quiet_of_between (hbetween ▸ h) hnothing
  | finishResume hcall =>
    obtain ⟨hdone, hsnapshot, result, hresult⟩ := finishResume_spec w.system
    have hwatch : (w.step lib .finish).watch = { w.watch with pauseOn := none } := by
      rw [Watched.step, hact]
      simp only [hresult]
      rfl
    refine invariant_of_reader hinv hframe ?_ ?_ ?_ ?_ ?_
    · rw [hact, hsnapshot, hdone]
      exact hinv.completed
    · rw [hwatch]
      exact hinv.called
    · intro h
      rw [hact, hdone] at h
      cases h
    · intro settled h
      rw [hwatch] at h
      cases h
    · intro h
      rw [hwatch] at h
      cases h

/-! ### The steps -/

theorem readerStep_snapshot (hhandles : s.reader.handles = false) (hawake : s.awake = true) :
    (s.readerStep lib).1.stateSnapshot = s.stateSnapshot := by
  have hmoves : ReaderMoves lib s (s.readerStep lib).1 (s.readerStep lib).2 := readerStep_moves hhandles hawake
  obtain ⟨hstream, -⟩ := moves_frame hmoves
  rw [System.stateSnapshot, hstream]
  rfl

theorem meets_iff : Meets lib w a = true ↔ (w.system.stateSnapshot.terminal = true →
      (w.system.act lib a).1.stateSnapshot = w.system.stateSnapshot) ∧
    (∀ call value, (w.system.act lib a).2 = .returned call (.ok value) →
      (if w.system.call.isSome then w.watch.calledTerminal else w.system.stateSnapshot.terminal) = false) ∧
    ∀ msg, (w.system.act lib a).2 = .took msg → w.watch.pauseOn ≠ some true := by
  rw [Meets]
  simp only [Bool.and_eq_true, Bool.or_eq_true, Bool.not_eq_true', decide_eq_true_eq]
  apply and_congr
  · cases w.system.stateSnapshot.terminal <;> simp
  · cases (w.system.act lib a).2 with
    | nothing => simp
    | called call => simp
    | returned call result => cases result <;> simp
    | polled result => simp
    | took msg => simp
    | timedOut => simp

/-- No step but a call of `pause` or `resume` or a poll changes the snapshot. -/
theorem act_snapshot (hhandles : s.reader.handles = false) (hawake : s.awake = true)
    (hpause : a = .pause → s.call ≠ none) (hresume : a = .resume → s.call ≠ none)
    (hpoll : a = .poll → s.call ≠ none) : (s.act lib a).1.stateSnapshot = s.stateSnapshot := by
  by_cases hread : a = .read
  · rw [hread, act_read]
    exact readerStep_snapshot hhandles hawake
  have hmoves : ConsumerMoves s a (s.act lib a) := act_moves hread hawake
  generalize s.act lib a = r at hmoves
  cases hmoves with
  | idle | timeouts => rfl
  | pause hcall => exact absurd hcall (hpause rfl)
  | resume hcall => exact absurd hcall (hresume rfl)
  | poll hcall => exact absurd hcall (hpoll rfl)
  | finishPause => exact (finishPause_spec s).2.1
  | finishResume => exact (finishResume_spec s).2.1

/-- A message is taken only by a step of the reader, at the select. -/
theorem act_took {msg : BackendMessage} (hhandles : s.reader.handles = false)
    (hawake : s.awake = true) (h : (s.act lib a).2 = .took msg) :
    s.reader.point = .selecting ∧ s.inbox ≠ [] := by
  by_cases hread : a = .read
  · subst hread
    have hmoves : ReaderMoves lib s (s.act lib .read).1 (s.act lib .read).2 := read_moves hhandles hawake
    rw [h] at hmoves
    generalize (s.act lib .read).1 = t at hmoves
    cases hmoves with
    | take _ inbox hpoint hinbox => exact ⟨hpoint, by rw [hinbox]; simp⟩
  · exfalso
    have hmoves : ConsumerMoves s a (s.act lib a) := act_moves hread hawake
    generalize s.act lib a = r at hmoves h
    cases hmoves with
    | idle | pause | timeouts => cases h
    | resume =>
      rcases (resume_spec s).2.2.2.2 with ⟨_, hshown⟩ | hshown <;> cases hshown.symm.trans h
    | poll =>
      obtain ⟨-, -, -, _, hshown⟩ := poll_spec s
      cases hshown.symm.trans h
    | finishPause =>
      obtain ⟨-, -, _, hshown⟩ := finishPause_spec s
      cases hshown.symm.trans h
    | finishResume =>
      obtain ⟨-, -, _, hshown⟩ := finishResume_spec s
      cases hshown.symm.trans h

/-- A call that returns without having waited for the lock is a `resume`. -/
theorem act_returned {call : Call} {result : Except WireError Unit}
    (hcall : s.call = none) (hhandles : s.reader.handles = false) (hawake : s.awake = true)
    (h : (s.act lib a).2 = .returned call result) : a = .resume := by
  by_cases hread : a = .read
  · subst hread
    have hmoves : ReaderMoves lib s (s.act lib .read).1 (s.act lib .read).2 := read_moves hhandles hawake
    rw [h] at hmoves
    generalize (s.act lib .read).1 = t at hmoves
    cases hmoves
  · have hmoves : ConsumerMoves s a (s.act lib a) := act_moves hread hawake
    generalize s.act lib a = r at hmoves h
    cases hmoves with
    | idle | pause | timeouts => cases h
    | resume => rfl
    | poll =>
      obtain ⟨-, -, -, _, hshown⟩ := poll_spec s
      cases hshown.symm.trans h
    | finishPause hwaiting => cases hcall.symm.trans hwaiting
    | finishResume hwaiting => cases hcall.symm.trans hwaiting

theorem step_meets (w : Watched) (a : Action) (hinv : Invariant lib w) (hallowed : Allowed lib w a = true) :
    Meets lib w a = true := by
  refine meets_iff.mpr ⟨?_, ?_, ?_⟩
  · intro hterminal
    by_cases hcall : w.system.call = none
    · by_cases hpoll : a = .poll
      · subst hpoll
        simp only [Allowed, hcall, Bool.not_eq_true', Bool.and_eq_false_iff, decide_eq_false_iff_not] at hallowed
        have hact : w.system.act lib .poll = w.system.poll := by simp only [System.act, hcall]
        rw [hact]
        apply poll_snapshot hinv.completed _ hterminal
        rintro ⟨hfailed, hqueue, hended⟩
        simp [hfailed, hqueue, hended] at hallowed
      · refine act_snapshot hinv.handles hinv.awake ?_ ?_ (fun h => absurd h hpoll)
        · rintro rfl
          simp [Allowed, hcall, hterminal] at hallowed
        · rintro rfl
          simp [Allowed, hcall, hterminal] at hallowed
    · exact act_snapshot hinv.handles hinv.awake (fun _ => hcall) (fun _ => hcall) (fun _ => hcall)
  · intro call value hshown
    cases hcall : w.system.call with
    | none =>
      obtain rfl := act_returned hcall hinv.handles hinv.awake hshown
      simpa [Allowed, hcall] using hallowed
    | some waiting => exact hinv.called
  · intro msg hshown hon
    obtain ⟨hpoint, hinbox⟩ := act_took hinv.handles hinv.awake hshown
    exact hinbox ((hinv.settled hon).2 hpoint)

/-- In every run whose steps are allowed in the states they start from, every step meets what is asked: a
terminal snapshot stays and no call made on it succeeds, and a paused stream's reader takes no message after
the one in progress. -/
theorem stream_control (lib : Libraries) (chunkSize : Nat) (maxMemory : Option Nat)
    (failThreshold : Option (Nat → Nat)) (inbox : List BackendMessage) (actions : List Action)
    (hallowed : Along (Watched.step lib) (fun w a => Allowed lib w a = true)
      ⟨streamingQuery chunkSize maxMemory failThreshold inbox, {}⟩ actions) :
    Along (Watched.step lib) (fun w a => Meets lib w a = true)
      ⟨streamingQuery chunkSize maxMemory failThreshold inbox, {}⟩ actions :=
  hallowed.mono step_invariant step_meets (invariant_start chunkSize maxMemory failThreshold inbox)

/-! ### What a step that is not allowed comes to -/

/-- A parser of rows that reads every row as `null`. -/
def nullRows : Libraries := Libraries.ofParser fun _ => .ok .null

/-- A stream of one row, polled to its item; paused, resumed and polled to its end when the reader is done. -/
theorem stream_control_one_row :
    Along (Watched.step nullRows) (fun w a => Meets nullRows w a = true)
      ⟨streamingQuery 1 none none [.dataRow [some []], .readyForQuery 73], {}⟩
      [.read, .read, .read, .poll, .read, .read, .read, .read, .pause, .finish, .resume, .finish, .poll] :=
  stream_control nullRows 1 none none _ _ (by decide +kernel)

/-- A pause that returned before the reader took its first message does not keep it from that one; and a
stream that was polled to its end is paused by the next call, which succeeds. -/
theorem stream_not_controlled :
    ¬ Along (Watched.step nullRows) (fun w a => Meets nullRows w a = true)
        ⟨streamingQuery 1 none none [.dataRow [some []], .readyForQuery 73], {}⟩
        [.pause, .finish, .read, .read] ∧
      ¬ Along (Watched.step nullRows) (fun w a => Meets nullRows w a = true)
        ⟨streamingQuery 1 none none [.readyForQuery 73], {}⟩
        [.read, .read, .read, .poll, .pause, .finish] := by
  decide +kernel

end FraiseQL.Wire.StreamControl
