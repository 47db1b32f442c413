/-
The service loop: admission of connections, execution of requests by worker
threads, and cooperative shutdown.  Clients, the clock, the system calls and
the request handlers may answer in any way, and the threads interleave freely.
-/
import Yams.Service
import Yams.Frame
import Yams.Schedule

namespace Yams.ServiceLoop

/-- Durations and clock readings, in nanoseconds. -/
abbrev Duration := Nat

abbrev Instant := Nat

/-- An accepted connection, numbered in the order of acceptance. -/
abbrev Conn := Nat

/-- Maximum UTF-8 bytes retained for each output stream. -/
def maxStreamBytes : Nat := 4 * 1024 * 1024

/-- Maximum number of request handlers executing concurrently. -/
def maxActiveRequests : Nat := 8

/-- Maximum number of validated connections still delivering a request
frame. -/
def maxPendingAdmissions : Nat := 64

def second : Duration := 1000000000

/-- Absolute time from acceptance to a complete request frame. -/
def requestFrameDeadline : Duration := 2 * second

def shutdownPollBound : Duration := 250 * 1000000

/-- Bounded service-loop accounting returned after cooperative shutdown. -/
structure LoopStats where
  accepted : Nat
  rejected : Nat
  completed : Nat
  workersStuck : Bool
  deriving DecidableEq

inductive ServiceError
  | io (error : ErrorKind)
  | protocol (error : ProtocolError)
  deriving DecidableEq

/-- How a thread leaves a function without a value. -/
inductive Exit
  | error (error : ServiceError)
  | unwound
  deriving DecidableEq

structure PendingAdmission where
  stream : Conn
  reader : FrameReader
  expiresAt : Instant

inductive AdmissionPoll
  | incomplete | failed | expired
  | complete (request : Request)

/-- What becomes of an accepted connection: its stream is dropped unanswered,
is answered with a rejection, or is moved into a worker. -/
inductive Fate
  | closed
  | rejected (rejected : Rejected)
  | executed (request : Request)
  deriving DecidableEq

/-- What `catch_unwind` makes of the handler.  Dropping the payload of a caught
panic may itself unwind. -/
inductive Handled
  | returned (output : ExecutionOutput)
  | panicked
  | unwound

inductive Tid
  | service
  | worker (stream : Conn)
  | tokenHolder (n : Nat)
  deriving DecidableEq

/-- The mutable variables of `serve_until`. -/
structure Locals where
  active : Nat
  pending : List PendingAdmission
  stats : LoopStats
  shutdownAt : Option Instant
  idleSince : Instant

/-- What the service thread alone changes: its variables, how many connections
it has accepted, the reservations it has taken, the fates it has dealt out in
order, and how many completion messages it has received. -/
structure Loop where
  locals : Locals
  accepted : Nat
  reserved : List Conn
  fates : List (Conn × Fate)
  received : Nat

/-- The state all threads share.  `released` is every completion message ever
sent; `returns` has the reservations taken by the time of every return of
`ShutdownToken::request`. -/
structure ServiceState where
  clock : Instant
  mutex : Option Tid
  admissionClosed : Bool
  returns : List (List Conn)
  released : List Conn
  loop : Loop

inductive ServiceOp
  | setListenerNonblocking | pipe
  | fionbio (writeEnd : Bool)
  | now
  | sleep (duration : Duration)
  | lock | unlock | admissionClosed | closeAdmission
  | reserve (stream : Conn)
  | requestReturned
  | locals
  | update (change : Locals → Locals)
  | accept
  | validatePeer (stream : Conn)
  | setNonblocking (stream : Conn) (nonblocking : Bool)
  | setWriteTimeout (stream : Conn) (timeout : Duration)
  | read (stream : Conn) (limit : Nat)
  | send (stream : Conn) (message : Message) (deadline : Instant)
  | drop (stream : Conn) (fate : Fate)
  | spawn (stream : Conn) (request : Request)
  | tryRecv
  | poll (streams : List Conn) (timeout : Duration)
  | readPipe
  | start (stream : Conn)
  | nextRequestId
  | handle (request : Request)
  | release (stream : Conn)
  | wake

abbrev ServiceAns : ServiceOp → Type
  | .now => Instant
  | .admissionClosed | .validatePeer _ | .spawn _ _ | .tryRecv => Bool
  | .locals => Locals
  | .accept => Except ErrorKind Conn
  | .setListenerNonblocking | .pipe | .fionbio _ | .setNonblocking _ _
  | .setWriteTimeout _ _ | .poll _ _ => Except ErrorKind Unit
  | .readPipe => Except ErrorKind Nat
  | .read _ _ => Except ErrorKind Bytes
  | .send _ _ _ => Except ProtocolError Unit
  | .start _ => Request
  | .nextRequestId => Nat
  | .handle _ => Handled
  | _ => Unit

abbrev ServiceM := Fallible ServiceOp ServiceAns Exit

abbrev sys (op : ServiceOp) : ServiceM (ServiceAns op) := Fallible.perform op

/-- `result?` for an I/O result. -/
def orIo {α : Type} (result : Except ErrorKind α) : ServiceM α :=
  .ofExcept (result.mapError fun error => .error (.io error))

def update (change : Locals → Locals) : ServiceM Unit := sys (.update change)

def drop (stream : Conn) (fate : Fate) : ServiceM Unit :=
  sys (.drop stream fate)

/-! The shutdown token: a flag behind a mutex. -/

/-- `ShutdownToken::request`. -/
def request : ServiceM Unit := do
  sys .lock
  sys .closeAdmission
  sys .unlock
  sys .requestReturned

/-- `ShutdownToken::requested`. -/
def requested : ServiceM Bool := do
  sys .lock
  let closed ← sys .admissionClosed
  sys .unlock
  return closed

/-- `ShutdownToken::try_reserve_execution`, for the request of one stream. -/
def tryReserveExecution (stream : Conn) : ServiceM Bool := do
  sys .lock
  let closed ← sys .admissionClosed
  if closed then
    sys .unlock
    return false
  else
    sys (.reserve stream)
    sys .unlock
    return true

/-! The worker of one execution. -/

def outputLimitCompletion (requestId : Text) : Completed :=
  ⟨requestId, 4, [], "yams: output limit\n"⟩

def boundedCompletion (requestId : Text) (output : ExecutionOutput) :
    Completed :=
  if output.stdout.byteLength > maxStreamBytes ∨
      output.stderr.byteLength > maxStreamBytes then
    outputLimitCompletion requestId
  else ⟨requestId, output.exitCode, output.stdout, output.stderr⟩

/-- `format!("{:016x}")`. -/
def hex16 (n : Nat) : Text := (Nat.toDigits 16 n).leftpad 16 '0'

/-- `send_message_with_deadline` with a deadline that starts now. -/
def send (stream : Conn) (message : Message) (timeout : Duration) :
    ServiceM (Except ProtocolError Unit) := do
  let now ← sys .now
  sys (.send stream message (now + timeout))

def orProtocol {α : Type} (result : Except ProtocolError α) : ServiceM α :=
  .ofExcept (result.mapError fun error => .error (.protocol error))

/-- `handler(request)` behind `catch_unwind`. -/
def caught (request : Request) : ServiceM ExecutionOutput := do
  match ← sys (.handle request) with
  | .returned output => return output
  | .panicked => return ⟨4, [], "request execution panicked\n"⟩
  | .unwound => throw .unwound

def executeRequest (stream : Conn) (timeout : Duration) (request : Request) :
    ServiceM Unit := do
  orIo (← sys (.setNonblocking stream false))
  orIo (← sys (.setWriteTimeout stream timeout))
  let requestId := hex16 (← sys .nextRequestId)
  orProtocol (← send stream (.accepted ⟨requestId⟩) timeout)
  let output ← caught request
  let completion := boundedCompletion requestId output
  match ← send stream (.completed completion) timeout with
  | .error (.frameTooLarge _ _) =>
      let limited := outputLimitCompletion requestId
      orProtocol (← send stream (.completed limited) timeout)
  | result => orProtocol result

/-! The service loop. -/

def setReader (index : Nat) (reader : FrameReader) (locals : Locals) : Locals :=
  { locals with
    pending := locals.pending.modify index fun admission =>
      { admission with reader } }

def removePending (index : Nat) (locals : Locals) : Locals :=
  { locals with pending := locals.pending.eraseIdx index }

def pushBack (admission : PendingAdmission) (locals : Locals) : Locals :=
  { locals with pending := locals.pending ++ [admission] }

def countAccepted (locals : Locals) : Locals :=
  { locals with
    stats := { locals.stats with accepted := locals.stats.accepted + 1 } }

/-- `stats.rejected += n`. -/
def countRejected (n : Nat) (locals : Locals) : Locals :=
  { locals with
    stats := { locals.stats with rejected := locals.stats.rejected + n } }

/-- A worker is done. -/
def countCompleted (locals : Locals) : Locals :=
  { locals with
    active := locals.active - 1
    stats := { locals.stats with completed := locals.stats.completed + 1 } }

def countActive (locals : Locals) : Locals :=
  { locals with active := locals.active + 1 }

def invalidRequest : Rejected := ⟨"invalid_request", "request rejected"⟩

/-- The rejection of an expired admission. -/
def expiredRequest : Rejected :=
  ⟨"invalid_request", "request frame did not arrive before the timeout"⟩

def busyExecuting : Rejected := ⟨"busy", "service has eight active requests"⟩

def busyPending : Rejected :=
  ⟨"busy", "service has too many unfinished requests"⟩

def rejectBounded (stream : Conn) (rejected : Rejected) : ServiceM Unit := do
  match ← sys (.setNonblocking stream false) with
  | .ok () =>
      let _ ← send stream (.rejected rejected) requestFrameDeadline
      drop stream (.rejected rejected)
  | .error _ => drop stream (.rejected rejected)

/-- `reject_bounded`, and the count that follows it everywhere. -/
def turnAway (stream : Conn) (rejected : Rejected) : ServiceM Unit := do
  rejectBounded stream rejected
  update (countRejected 1)

def spawnExecution (stream : Conn) (request : Request) : ServiceM Unit := do
  let spawned ← sys (.spawn stream request)
  if spawned then return () else throw .unwound

/-- The branch for a complete request frame, of a pending connection and of one
just accepted: whether the pass goes on. -/
def admitExecution (stream : Conn) (request : Request) : ServiceM Bool := do
  let locals ← sys .locals
  if locals.active < maxActiveRequests then
    let reserved ← tryReserveExecution stream
    if reserved then
      spawnExecution stream request
      update countActive
      return true
    else
      update (countRejected 1)
      drop stream .closed
      return false
  else
    turnAway stream busyExecuting
    return true

section

variable (scan : Text → Json.Scan)

/-- One pass of `poll_admission`; the loop state is the frame reader. -/
def pollAdmissionPass (stream : Conn) (reader : FrameReader) :
    ServiceM (FrameReader ⊕ AdmissionPoll × FrameReader) := do
  match reader.frame with
  | some frame =>
      match decodeRequest scan frame with
      | .ok (.request request) => return .inr (.complete request, reader)
      | _ => return .inr (.failed, reader)
  | none =>
      match ← sys (.read stream (min reader.want (8 * 1024))) with
      | .ok input =>
          match reader.feed input with
          | .ok (reader, _) => return .inl reader
          | .error _ => return .inr (.failed, reader)
      | .error error =>
          if error = .interrupted then return .inl reader
          else if error = .wouldBlock then return .inr (.incomplete, reader)
          else return .inr (.failed, reader)

def pollAdmission (stream : Conn) (reader : FrameReader) :
    ServiceM (AdmissionPoll × FrameReader) :=
  Fallible.iterate (pollAdmissionPass scan stream) reader

/-- An outcome that a deadline reached in the meantime overrules. -/
def AdmissionPoll.overdue : AdmissionPoll → AdmissionPoll
  | .incomplete | .complete _ => .expired
  | outcome => outcome

def pollLiveAdmission (stream : Conn) (reader : FrameReader)
    (expiresAt : Instant) : ServiceM (AdmissionPoll × FrameReader) := do
  let before ← sys .now
  if expiresAt ≤ before then return (.expired, reader)
  else
    let (outcome, reader) ← pollAdmission scan stream reader
    let after ← sys .now
    if expiresAt ≤ after then return (outcome.overdue, reader)
    else return (outcome, reader)

/-- Receive one completion message; the loop state is `progressed`. -/
def completionPass (progressed : Bool) : ServiceM (Bool ⊕ Bool) := do
  let received ← sys .tryRecv
  if received then
    update countCompleted
    return .inl true
  else return .inr progressed

/-- Drop the oldest pending connection unanswered. -/
def clearPass (_ : Unit) : ServiceM (Unit ⊕ Unit) := do
  let locals ← sys .locals
  match locals.pending with
  | [] => return .inr ()
  | admission :: _ =>
      update (removePending 0)
      drop admission.stream .closed
      return .inl ()

/-- `pending.clear()`. -/
def clearPending : ServiceM Unit := Fallible.iterate clearPass ()

/-- A pass after shutdown was requested: whether the loop ends. -/
def drainPass : ServiceM Bool := do
  let now ← sys .now
  let locals ← sys .locals
  let shutdownAt := locals.shutdownAt.getD now
  update fun locals => { locals with shutdownAt := some shutdownAt }
  update (countRejected locals.pending.length)
  clearPending
  let locals ← sys .locals
  if locals.active = 0 then return true
  else
    let now ← sys .now
    if 30 * second ≤ now - shutdownAt then
      update fun locals =>
        { locals with stats := { locals.stats with workersStuck := true } }
      return true
    else
      sys (.sleep (5 * 1000000))
      return false

/-- Poll the pending connection at an index; the loop state is the index and
`progressed`.  The result `none` stands for `continue 'service`. -/
def pendingPass : Nat × Bool → ServiceM ((Nat × Bool) ⊕ Option Bool)
  | (index, progressed) => do
      let locals ← sys .locals
      match locals.pending[index]? with
      | none => return .inr (some progressed)
      | some admission =>
          let (outcome, reader) ←
            pollLiveAdmission scan admission.stream admission.reader
              admission.expiresAt
          update (setReader index reader)
          let stopped ← requested
          if stopped then return .inr none
          else
            match outcome with
            | .incomplete => return .inl (index + 1, progressed)
            | .expired =>
                update (removePending index)
                turnAway admission.stream expiredRequest
                return .inl (index, true)
            | .complete request =>
                update (removePending index)
                let live ← admitExecution admission.stream request
                if live then return .inl (index, true)
                else return .inr none
            | .failed =>
                update (removePending index)
                turnAway admission.stream invalidRequest
                return .inl (index, true)

/-- Keep a connection that is still delivering its frame, at the expense of the
oldest one if there are too many. -/
def keepPending (admission : PendingAdmission) : ServiceM Unit := do
  let locals ← sys .locals
  match locals.pending with
  | [] => update (pushBack admission)
  | oldest :: _ =>
      if locals.pending.length = maxPendingAdmissions then
        update (removePending 0)
        turnAway oldest.stream busyPending
        update (pushBack admission)
      else update (pushBack admission)

/-- The first poll of a connection whose peer is valid: whether the pass goes
on. -/
def admitConnection (stream : Conn) (acceptedAt : Instant) :
    ServiceM Bool := do
  let expiresAt := acceptedAt + requestFrameDeadline
  let (outcome, reader) ←
    pollLiveAdmission scan stream (FrameReader.new maxRequestBytes) expiresAt
  let stopped ← requested
  if stopped then
    update (countRejected 1)
    drop stream .closed
    return false
  else
    match outcome with
    | .complete request => admitExecution stream request
    | .failed =>
        turnAway stream invalidRequest
        return true
    | .expired =>
        turnAway stream expiredRequest
        return true
    | .incomplete =>
        keepPending ⟨stream, reader, expiresAt⟩
        return true

/-- The accept branch: the new `progressed`, or `none` for `continue`. -/
def acceptConnection (progressed : Bool) : ServiceM (Option Bool) := do
  match ← sys .accept with
  | .ok stream =>
      let acceptedAt ← sys .now
      update countAccepted
      let valid ← sys (.validatePeer stream)
      if valid then
        match ← sys (.setNonblocking stream true) with
        | .ok () =>
            let live ← admitConnection scan stream acceptedAt
            return if live then some true else none
        | .error error =>
            drop stream .closed
            throw (.error (.io error))
      else
        update (countRejected 1)
        drop stream .closed
        return some progressed
  | .error error =>
      if error = .wouldBlock then return some progressed
      else throw (.error (.io error))

/-- The idle bookkeeping of a pass: whether it requested shutdown. -/
def idlePass (idleTimeout : Option Duration) (progressed : Bool) :
    ServiceM Bool := do
  let locals ← sys .locals
  let now ← sys .now
  if locals.active = 0 ∧ locals.pending.isEmpty then
    let idleSince := if progressed then now else locals.idleSince
    update fun locals => { locals with idleSince }
    if idleTimeout.any fun timeout => timeout ≤ now - idleSince then
      request
      return true
    else return false
  else
    update fun locals => { locals with idleSince := now }
    return false

/-- The shorter of a wait and what is known so far. -/
def shorter (wait : Option Duration) (remaining : Duration) : Option Duration :=
  some (wait.elim remaining fun current => min current remaining)

def servicePollTimeout (locals : Locals) (idleTimeout : Option Duration) :
    ServiceM Duration := do
  let now ← sys .now
  let wait := locals.pending.foldl
    (fun wait admission => shorter wait (admission.expiresAt - now)) none
  match locals.pending, idleTimeout with
  | [], some idle =>
      let idleNow ← sys .now
      let wait := shorter wait (idle - (idleNow - locals.idleSince))
      return min (wait.getD shutdownPollBound) shutdownPollBound
  | _, _ => return min (wait.getD shutdownPollBound) shutdownPollBound

def waitForServiceEvent (idleTimeout : Option Duration) : ServiceM Unit := do
  let locals ← sys .locals
  let timeout ← servicePollTimeout locals idleTimeout
  match ← sys (.poll (locals.pending.map (·.stream)) timeout) with
  | .ok () => return ()
  | .error error =>
      if error = .interrupted then return () else throw (.error (.io error))

def readPipePass (_ : Unit) : ServiceM (Unit ⊕ Unit) := do
  match ← sys .readPipe with
  | .ok 0 => return .inr ()
  | .ok _ => return .inl ()
  | .error error =>
      if error = .interrupted then return .inl () else return .inr ()

def drainCompletionPipe : ServiceM Unit := Fallible.iterate readPipePass ()

/-- What follows the accept branch. -/
def restPass (idleTimeout : Option Duration) (progressed : Bool) :
    ServiceM Unit := do
  let stopped ← idlePass idleTimeout progressed
  if stopped ∨ progressed then return ()
  else
    waitForServiceEvent idleTimeout
    drainCompletionPipe

/-- One pass of the loop `'service`. -/
def servicePass (idleTimeout : Option Duration) (_ : Unit) :
    ServiceM (Unit ⊕ LoopStats) := do
  let progressed ← Fallible.iterate completionPass false
  let stopped ← requested
  if stopped then
    let done ← drainPass
    if done then
      let locals ← sys .locals
      return .inr locals.stats
    else return .inl ()
  else
    match ← Fallible.iterate (pendingPass scan) (0, progressed) with
    | none => return .inl ()
    | some progressed =>
        let stopped ← requested
        if stopped then return .inl ()
        else
          match ← acceptConnection scan progressed with
          | none => return .inl ()
          | some progressed =>
              restPass idleTimeout progressed
              return .inl ()

/-- The loop with the variables it starts from. -/
def serviceLoop (idleTimeout : Option Duration) : ServiceM LoopStats := do
  orIo (← sys .setListenerNonblocking)
  orIo (← sys .pipe)
  orIo (← sys (.fionbio false))
  orIo (← sys (.fionbio true))
  let now ← sys .now
  update fun locals => { locals with idleSince := now }
  Fallible.iterate (servicePass scan idleTimeout) ()

/-- `serve_until`: whatever ends the loop, what is still pending is dropped. -/
def serveUntil (idleTimeout : Option Duration) : ServiceM LoopStats := do
  let result ← Fallible.observe (serviceLoop scan idleTimeout)
  clearPending
  Fallible.ofExcept result

end

/-! All threads together. -/

/-- How a thread has ended. -/
inductive Finish
  | served (result : Except Exit LoopStats)
  | worked

/-- The thread that `spawn_execution` starts.  The drop of its guard comes last,
however the execution ends. -/
def worker (timeout : Duration) (stream : Conn) :
    Prog ServiceOp ServiceAns Finish := do
  let request ← Prog.perform (ServiceOp.start stream)
  let _ ← (executeRequest stream timeout request).run
  Prog.perform (ServiceOp.release stream)
  Prog.perform ServiceOp.wake
  return .worked

/-- A holder of the shutdown token requests shutdown at any times. -/
def tokenHolder : Prog ServiceOp ServiceAns Finish :=
  Prog.iterate (fun () => do
    let _ ← request.run
    return .inl ()) ()

/-- The parameters of `serve_until`, and the JSON reader below it. -/
structure Setup where
  scan : Text → Json.Scan
  timeout : Duration
  idleTimeout : Option Duration

def Setup.procs (setup : Setup) : Tid → Prog ServiceOp ServiceAns Finish
  | .service => do
      let result ← (serveUntil setup.scan setup.idleTimeout).run
      return .served result
  | .worker stream => worker setup.timeout stream
  | .tokenHolder _ => tokenHolder

/-- The choices of the world: how far the clock moves, and what a call answers
where its answer is not determined by the state. -/
inductive Choice
  | any
  | fail (error : ErrorKind)
  | flag (value : Bool)
  | number (n : Nat)
  | data (bytes : Bytes)
  | refused (error : ProtocolError)
  | handled (outcome : Handled)

/-- The answer of an I/O call without a value. -/
def Choice.io : Choice → Option (Except ErrorKind Unit)
  | any => some (.ok ())
  | fail error => some (.error error)
  | _ => none

/-- The answers that a call may give.  A lock waits for the mutex to be free,
and a worker for its spawn. -/
def offer (choice : Choice) (s : ServiceState) :
    (op : ServiceOp) → Option (ServiceAns op)
  | .now => some s.clock
  | .lock => if s.mutex = none then some () else none
  | .admissionClosed => some s.admissionClosed
  | .locals => some s.loop.locals
  | .tryRecv => some (decide (s.loop.received < s.released.length))
  | .start stream =>
      match s.loop.fates.lookup stream with
      | some (.executed request) => some request
      | _ => none
  | .accept => choice.io.map fun answer => answer.map fun () => s.loop.accepted
  | .setListenerNonblocking | .pipe | .fionbio _ | .setNonblocking _ _
  | .setWriteTimeout _ _ | .poll _ _ => choice.io
  | .validatePeer _ | .spawn _ _ =>
      match choice with
      | .flag value => some value
      | _ => none
  | .read _ limit =>
      match choice with
      | .data bytes => if bytes.length ≤ limit then some (.ok bytes) else none
      | .fail error => some (.error error)
      | _ => none
  | .readPipe =>
      match choice with
      | .number n => some (.ok n)
      | .fail error => some (.error error)
      | _ => none
  | .send _ message _ =>
      match sendMessage message, choice with
      | .error error, _ => some (.error error)
      | .ok _, .any => some (.ok ())
      | .ok _, .refused error => some (.error error)
      | _, _ => none
  | .nextRequestId =>
      match choice with
      | .number n => some n
      | _ => none
  | .handle _ =>
      match choice with
      | .handled outcome => some outcome
      | _ => none
  | .sleep _ | .unlock | .closeAdmission | .reserve _ | .requestReturned
  | .update _ | .drop _ _ | .release _ | .wake => some ()

/-- The effect of a call on the part that belongs to the service thread.  A
spawn that fails drops the closure and the stream in it. -/
def advance : (op : ServiceOp) → ServiceAns op → Loop → Loop
  | .reserve stream, _, l => { l with reserved := l.reserved ++ [stream] }
  | .update change, _, l => { l with locals := change l.locals }
  | .accept, .ok _, l => { l with accepted := l.accepted + 1 }
  | .drop stream fate, _, l => { l with fates := l.fates ++ [(stream, fate)] }
  | .spawn stream request, spawned, l =>
      let fate := if spawned then .executed request else .closed
      { l with fates := l.fates ++ [(stream, fate)] }
  | .tryRecv, received, l =>
      if received then { l with received := l.received + 1 } else l
  | _, _, l => l

/-- The effect of a call on everything else. -/
def share (t : Tid) : ServiceOp → ServiceState → ServiceState
  | .lock, s => { s with mutex := some t }
  | .unlock, s => { s with mutex := none }
  | .closeAdmission, s => { s with admissionClosed := true }
  | .requestReturned, s => { s with returns := s.loop.reserved :: s.returns }
  | .release stream, s => { s with released := s.released ++ [stream] }
  | _, s => s

/-- The state after a call. -/
def after (t : Tid) (op : ServiceOp) (answer : ServiceAns op)
    (s : ServiceState) : ServiceState :=
  { share t op s with loop := advance op answer s.loop }

def serviceInterp : Interp Tid ServiceOp ServiceAns ServiceState Choice where
  answer t choice s op :=
    (offer choice s op).map fun answer => (answer, after t op answer s)
  disturb choice s :=
    match choice with
    | .number n => some { s with clock := s.clock + n }
    | _ => none

/-- The state in which `serve_until` is called. -/
def start (clock : Instant) (closed : Bool) : ServiceState where
  clock
  mutex := none
  admissionClosed := closed
  returns := []
  released := []
  loop :=
    { locals := ⟨0, [], ⟨0, 0, 0, false⟩, none, 0⟩
      accepted := 0, reserved := [], fates := [], received := 0 }

/-- `serve_until` with its workers and the holders of its token. -/
def Setup.pool (setup : Setup) (clock : Instant) (closed : Bool) :
    Pool Tid ServiceOp ServiceAns ServiceState Finish :=
  ⟨setup.procs, start clock closed⟩

/-- The pools that `serve_until` can reach. -/
def Setup.Reaches (setup : Setup)
    (pool : Pool Tid ServiceOp ServiceAns ServiceState Finish) : Prop :=
  ∃ clock closed, serviceInterp.system.Steps (setup.pool clock closed) pool

end Yams.ServiceLoop
