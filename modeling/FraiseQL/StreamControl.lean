import FraiseQL.EventRun
import FraiseQL.WireStream

/-!
`stream/json_stream.rs` together with the reader task that `streaming_query` spawns. The consumer pauses,
resumes and polls; a call of `pause` or `resume` first changes the atomic and then, in a step of its own,
the copy of the state behind the lock. The reader goes round its loop one step at a time. It captures its
handles on the pause when it is spawned, and the stream makes them when it is first paused.
-/

namespace FraiseQL.Wire.StreamControl

/-! ### The stream and its reader -/

/-- `StreamState`; the atomic holds one of its four constants. -/
inductive StreamState where
  | running
  | paused
  | completed
  | failed
  deriving DecidableEq

def StreamState.terminal : StreamState → Bool
  | .running => false
  | .paused => false
  | .completed => true
  | .failed => true

/-- `PauseResumeState`. A signal is the permit it stores until it is waited for. -/
structure PauseResumeState where
  state : StreamState := .running
  pauseSignal : Bool := false
  resumeSignal : Bool := false
  pauseTimeout : Option Nat := none

/-- `JsonStream`. The soft threshold of a memory limit is computed in floating point, and is given as the
function from limits to bytes. -/
structure JsonStream where
  stateAtomic : StreamState := .running
  pauseResume : Option PauseResumeState := none
  maxMemory : Option Nat
  failThreshold : Option (Nat → Nat)

/-- Where the reader is in its loop. -/
inductive Point where
  | top
  | pauseSeen
  | waiting
  | woken
  | selecting
  | sending (items : List Item) (goesOn : Bool)
  | ended

/-- The task that reads the rows. -/
structure Reader where
  handles : Bool
  pauseTimeout : Option Nat
  chunkSize : Nat
  chunk : List Bytes := []
  point : Point := .top

/-- A call that waits for the lock. -/
inductive Call where
  | pausing
  | resuming
  deriving DecidableEq

/-- A stream, its reader, the items between them and the messages the connection has yet to deliver. -/
structure System where
  stream : JsonStream
  reader : Reader
  inbox : List BackendMessage
  queue : List Item := []
  call : Option Call := none

/-- The end of `streaming_query`: the stream is new when the task takes its handles. -/
def streamingQuery (chunkSize : Nat) (maxMemory : Option Nat) (failThreshold : Option (Nat → Nat))
    (inbox : List BackendMessage) : System :=
  let stream : JsonStream := { maxMemory, failThreshold }
  let reader : Reader :=
    { handles := stream.pauseResume.isSome
      pauseTimeout := stream.pauseResume.bind (·.pauseTimeout)
      chunkSize }
  { stream, reader, inbox }

/-! ### What the consumer does -/

/-- What `poll_next` gives. -/
inductive Polled where
  | item (item : Item)
  | memoryLimitExceeded (limit estimated : Nat)
  | done
  | pending

/-- What shows of a step. -/
inductive Shown where
  | nothing
  | called (call : Call)
  | returned (call : Call) (result : Except WireError Unit)
  | polled (result : Polled)
  | took (msg : BackendMessage)
  | timedOut

namespace System

variable (s : System)

def withAtomic (state : StreamState) : System := { s with stream := { s.stream with stateAtomic := state } }

def withPause (pauseResume : PauseResumeState) : System :=
  { s with stream := { s.stream with pauseResume := some pauseResume } }

def withPoint (point : Point) : System := { s with reader := { s.reader with point } }

def stateSnapshot : StreamState := s.stream.stateAtomic

def ensurePauseResume : PauseResumeState := s.stream.pauseResume.getD {}

/-- `pause` up to the lock. -/
def pause : System × Shown :=
  ({ (s.withAtomic .paused).withPause s.ensurePauseResume with call := some .pausing }, .called .pausing)

/-- `pause` behind the lock. -/
def finishPause : System × Shown :=
  let pr := s.ensurePauseResume
  match pr.state with
  | .running =>
    ({ s.withPause { pr with pauseSignal := true, state := .paused } with call := none },
      .returned .pausing (.ok ()))
  | .paused => ({ s with call := none }, .returned .pausing (.ok ()))
  | _ =>
    ({ s with call := none },
      .returned .pausing (.error (.protocol "cannot pause a completed or failed stream" none)))

/-- `resume` up to the lock. On a stream that was never paused it returns at once. -/
def resume : System × Shown :=
  match s.stream.pauseResume with
  | none => (s, .returned .resuming (.ok ()))
  | some _ =>
    let resumed := if s.stream.stateAtomic = .paused then s.withAtomic .running else s
    ({ resumed with call := some .resuming }, .called .resuming)

/-- `resume` behind the lock. -/
def finishResume : System × Shown :=
  let pr := s.ensurePauseResume
  match pr.state with
  | .paused =>
    ({ s.withPause { pr with resumeSignal := true, state := .running } with call := none },
      .returned .resuming (.ok ()))
  | .running => ({ s with call := none }, .returned .resuming (.ok ()))
  | _ =>
    ({ s with call := none },
      .returned .resuming (.error (.protocol "cannot resume a completed or failed stream" none)))

/-- The limit a poll finds exceeded, and the memory it estimates. -/
def memoryExceeded : Option (Nat × Nat) :=
  match s.stream.maxMemory with
  | none => none
  | some limit =>
    let estimated := s.queue.length * 2048
    match s.stream.failThreshold with
    | some threshold => if threshold limit < estimated then some (limit, estimated) else none
    | none => if limit < estimated then some (limit, estimated) else none

/-- The reader has dropped its end of the channel. -/
def readerEnded : Bool :=
  match s.reader.point with
  | .ended => true
  | _ => false

/-- `poll_next`. -/
def poll : System × Shown :=
  match s.memoryExceeded with
  | some (limit, estimated) => (s.withAtomic .failed, .polled (.memoryLimitExceeded limit estimated))
  | none =>
    match s.queue with
    | .ok value :: queue => ({ s with queue }, .polled (.item (.ok value)))
    | .error e :: queue => ({ s.withAtomic .failed with queue }, .polled (.item (.error e)))
    | [] =>
      if s.readerEnded then (s.withAtomic .completed, .polled .done) else (s, .polled .pending)

end System

/-! ### What the reader does -/

section Reading

variable (lib : Libraries)

/-- What the rows of a chunk give the consumer. -/
def rowItems (rows : List Bytes) : List Item := (sendRows lib rows [] {}).items

/-- A message taken: the items to send, the chunk that is left, and whether the loop goes on. -/
def Reader.process (reader : Reader) (msg : BackendMessage) : List Item × List Bytes × Bool :=
  match msg with
  | .dataRow _ =>
    match extractJsonBytes msg with
    | .ok bytes =>
      if isFull reader.chunkSize (reader.chunk ++ [bytes]) then
        (rowItems lib (reader.chunk ++ [bytes]), [], true)
      else ([], reader.chunk ++ [bytes], true)
    | .error e => ([.error e], reader.chunk, false)
  | .commandComplete _ =>
    if reader.chunk.isEmpty then ([], reader.chunk, true) else (rowItems lib reader.chunk, [], true)
  | .readyForQuery _ => ([], reader.chunk, false)
  | .errorResponse err => ([.error (.sql err.display)], reader.chunk, false)
  | msg => ([.error (.protocol "unexpected message: " (some msg))], reader.chunk, false)

/-- One step of the loop of the task. A paused stream is waited for only through the handles. -/
def System.readerStep (s : System) : System × Shown :=
  match s.reader.point with
  | .top =>
    if s.reader.handles && s.stream.stateAtomic = .paused then (s.withPoint .pauseSeen, .nothing)
    else (s.withPoint .selecting, .nothing)
  | .pauseSeen =>
    if s.ensurePauseResume.state = .paused then (s.withPoint .waiting, .nothing)
    else (s.withPoint .selecting, .nothing)
  | .waiting =>
    if s.ensurePauseResume.resumeSignal then
      ((s.withPause { s.ensurePauseResume with resumeSignal := false }).withPoint .woken, .nothing)
    else (s, .nothing)
  | .woken =>
    ((s.withPause { s.ensurePauseResume with state := .running }).withPoint .selecting, .nothing)
  | .selecting =>
    match s.inbox with
    | [] => (s.withPoint (.sending [.error .connectionClosed] false), .nothing)
    | msg :: inbox =>
      let (items, chunk, goesOn) := s.reader.process lib msg
      ({ s with reader := { s.reader with chunk, point := .sending items goesOn }, inbox }, .took msg)
  | .sending [] goesOn => (s.withPoint (if goesOn then .top else .ended), .nothing)
  | .sending (item :: items) goesOn =>
    if s.queue.length < s.reader.chunkSize then
      ({ s.withPoint (.sending items goesOn) with queue := s.queue ++ [item] }, .nothing)
    else (s, .nothing)
  | .ended => (s, .nothing)

/-- The timeout of a pause, while the reader waits with one. -/
def System.timeout (s : System) : System × Shown :=
  match s.reader.point, s.reader.pauseTimeout with
  | .waiting, some _ => (s.withPoint .woken, .timedOut)
  | _, _ => (s, .nothing)

/-! ### Runs -/

inductive Action where
  | pause
  | resume
  | finish
  | poll
  | setPauseTimeout (duration : Nat)
  | clearPauseTimeout
  | read
  | timeout
  deriving DecidableEq

/-- One step of the system. While a call waits for the lock its caller does nothing else. -/
def System.act (s : System) (a : Action) : System × Shown :=
  match a, s.call with
  | .pause, none => s.pause
  | .resume, none => s.resume
  | .finish, some .pausing => s.finishPause
  | .finish, some .resuming => s.finishResume
  | .poll, none => s.poll
  | .setPauseTimeout duration, none =>
    (s.withPause { s.ensurePauseResume with pauseTimeout := some duration }, .nothing)
  | .clearPauseTimeout, none =>
    match s.stream.pauseResume with
    | some pr => (s.withPause { pr with pauseTimeout := none }, .nothing)
    | none => (s, .nothing)
  | .read, _ => s.readerStep lib
  | .timeout, _ => s.timeout
  | _, _ => (s, .nothing)

/-- The reader is in the middle of no message. -/
def System.betweenMessages (s : System) : Bool :=
  match s.reader.point with
  | .selecting => false
  | .sending _ _ => false
  | _ => true

/-- What an observer notes of a run: whether a pause is on and the message that was in progress then is done
with, and whether the call under way found the stream in a terminal state. -/
structure Watch where
  pauseOn : Option Bool := none
  calledTerminal : Bool := false

def Watch.next (w : Watch) (before after : System) (shown : Shown) : Watch :=
  match shown with
  | .called .pausing =>
    { pauseOn := w.pauseOn.map (· || after.betweenMessages)
      calledTerminal := before.stateSnapshot.terminal }
  | .called .resuming => { pauseOn := none, calledTerminal := before.stateSnapshot.terminal }
  | .returned .pausing (.ok _) => { w with pauseOn := some (w.pauseOn.getD false || after.betweenMessages) }
  | .returned .resuming _ => { w with pauseOn := none }
  | .timedOut => { w with pauseOn := none }
  | _ => { w with pauseOn := w.pauseOn.map (· || after.betweenMessages) }

/-- A system under observation. -/
structure Watched where
  system : System
  watch : Watch := {}

def Watched.step (w : Watched) (a : Action) : Watched :=
  let (after, shown) := w.system.act lib a
  { system := after, watch := w.watch.next w.system after shown }

/-- What a step has to meet. A terminal snapshot stays; a call made on it returns an error; and when a pause
is on and the message that was in progress is done with, no message is taken. -/
def Meets (w : Watched) (a : Action) : Bool :=
  let (after, shown) := w.system.act lib a
  let terminal := w.system.stateSnapshot.terminal
  (!terminal || after.stateSnapshot = w.system.stateSnapshot) &&
    match shown with
    | .returned _ (.ok _) => !(if w.system.call.isSome then w.watch.calledTerminal else terminal)
    | .took _ => w.watch.pauseOn ≠ some true
    | _ => true

/-- After the message in progress the reader takes no other. -/
def System.nothingFurther (s : System) : Bool :=
  match s.reader.point with
  | .ended => true
  | .sending _ false => true
  | .selecting =>
    match s.inbox with
    | [] => true
    | msg :: rest => !(s.reader.process lib msg).2.2 || rest.isEmpty
  | _ => s.inbox.isEmpty

/-- The steps that go well, from the state they start in: a pause while neither the stream is in a terminal
state nor the reader has a message to take after the one in progress, a resume while the stream is in no
terminal state, a poll unless the stream has failed and its channel is closed and empty. -/
def Allowed (w : Watched) (a : Action) : Bool :=
  let s := w.system
  match a, s.call with
  | .pause, none => !s.stateSnapshot.terminal && s.nothingFurther lib
  | .resume, none => !s.stateSnapshot.terminal
  | .poll, none => !(s.stateSnapshot = .failed && s.queue.isEmpty && s.readerEnded)
  | _, _ => true

end Reading

end FraiseQL.Wire.StreamControl
