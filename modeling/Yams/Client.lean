/-
The service client: one connection, one request frame, and two bounded waits for
its responses.  Every system call is an operation, answered by the socket, the
clock and the peer in any way the system allows.
-/
import Yams.Project
import Yams.Frame
import Yams.Schedule

namespace Yams.Client

/-- Durations and instants are counted in nanoseconds. -/
@[irreducible] def handshakeTimeout : Nat := 2 * 1000000000

@[irreducible] def completionTimeout : Nat := 10 * 60 * 1000000000

/-- Result of trying to establish a service connection. -/
inductive ConnectOutcome
  | connected
  | absent
  | failed (error : Text)
  deriving DecidableEq

inductive PeerError
  | unavailable (error : Text)
  | mismatch (expected actual : Nat)
  | io (error : Text)
  deriving DecidableEq

def PeerError.display : PeerError → Text
  | .unavailable error => "peer credentials are unavailable: ".toList ++ error
  | .mismatch expected actual =>
      "peer uid ".toList ++ Text.ofNat actual ++
        " does not match expected uid ".toList ++ Text.ofNat expected
  | .io error => "peer credential lookup failed: ".toList ++ error

inductive PollFlags
  | input | output
  deriving DecidableEq

inductive SocketOp
  | now
  | connect (path : OsString) (deadline : Nat)
  | geteuid
  | peerUid
  | clearReadTimeout
  | clearWriteTimeout
  | setNonblocking (nonblocking : Bool)
  | write (input : Bytes)
  | read (limit : Nat)
  | poll (events : PollFlags) (timeout : Nat)

abbrev SocketAns : SocketOp → Type
  | .now => Nat
  | .connect _ _ => ConnectOutcome
  | .geteuid => Nat
  | .peerUid => Except PeerError Nat
  | .clearReadTimeout | .clearWriteTimeout | .setNonblocking _ =>
      Except ErrorKind Unit
  | .write _ => Except ErrorKind Nat
  | .read _ => Except ErrorKind Bytes
  | .poll _ _ => Except ErrorKind Nat

abbrev Exchange := Fallible SocketOp SocketAns ProtocolError

/-- `map_err(|error| ProtocolError::Io(error.kind()))?` -/
def orIo {α : Type} (result : Except ErrorKind α) : Exchange α :=
  .ofExcept (result.mapError .io)

def instantNow : Exchange Nat := .perform SocketOp.now

def setNonblocking (nonblocking : Bool) : Exchange (Except ErrorKind Unit) :=
  .perform (SocketOp.setNonblocking nonblocking)

def write (input : Bytes) : Exchange (Except ErrorKind Nat) :=
  .perform (SocketOp.write input)

def read (limit : Nat) : Exchange (Except ErrorKind Bytes) :=
  .perform (SocketOp.read limit)

def poll (events : PollFlags) (timeout : Nat) :
    Exchange (Except ErrorKind Nat) := .perform (SocketOp.poll events timeout)

/-- One pass of `poll_until`. -/
def pollPass (events : PollFlags) (deadline : Nat) (_ : Unit) :
    Exchange (Unit ⊕ Unit) := do
  let now ← instantNow
  if deadline ≤ now then throw .frameDeadlineExceeded
  else
    match ← poll events (deadline - now) with
    | .ok ready =>
        if ready = 0 then throw .frameDeadlineExceeded
        else return .inr ()
    | .error error =>
        if error = .interrupted then return .inl ()
        else throw (.io error)

def pollUntil (events : PollFlags) (deadline : Nat) : Exchange Unit :=
  Fallible.iterate (pollPass events deadline) ()

/-- One pass of `write_all_nonblocking_with_deadline`; the loop state is the
count of the bytes written. -/
def writePass (input : Bytes) (deadline written : Nat) :
    Exchange (Nat ⊕ Unit) := do
  if written < input.length then
    let now ← instantNow
    if deadline ≤ now then throw .frameDeadlineExceeded
    else
      match ← write (input.drop written) with
      | .ok count =>
          if count = 0 then throw (.io .writeZero)
          else return .inl (written + count)
      | .error error =>
          if error = .interrupted then return .inl written
          else if error = .wouldBlock then do
            pollUntil .output deadline
            return .inl written
          else throw (.io error)
  else
    let now ← instantNow
    if deadline ≤ now then throw .frameDeadlineExceeded
    else return .inr ()

def writeAllNonblockingWithDeadline (input : Bytes) (deadline : Nat) :
    Exchange Unit :=
  Fallible.iterate (writePass input deadline) 0

/-- One pass of `read_frame_nonblocking_with_deadline`. -/
def readPass (deadline : Nat) (reader : FrameReader) :
    Exchange (FrameReader ⊕ Bytes) := do
  let now ← instantNow
  if deadline ≤ now then throw .frameDeadlineExceeded
  else
    match ← read (min reader.want 8192) with
    | .ok input =>
        if input.isEmpty then throw .truncatedFrame
        else
          match ← Fallible.ofExcept (reader.feed input) with
          | (reader, false) => return .inl reader
          | (reader, true) =>
              let now ← instantNow
              if deadline ≤ now then throw .frameDeadlineExceeded
              else return .inr reader.body
    | .error error =>
        if error = .interrupted then return .inl reader
        else if error = .wouldBlock then do
          pollUntil .input deadline
          return .inl reader
        else throw (.io error)

def readFrameNonblockingWithDeadline (limit deadline : Nat) : Exchange Bytes :=
  Fallible.iterate (readPass deadline) (FrameReader.new limit)

section

variable (scan : Text → Json.Scan)

/-- Deliver a frame and read its response; the two deadlines that may pass are
told apart. -/
def deliver (frame : Bytes) (deadline : Nat) : Exchange Message := do
  writeAllNonblockingWithDeadline frame deadline
  match ← Fallible.observe
      (readFrameNonblockingWithDeadline maxResponseBytes deadline) with
  | .error error =>
      if error = .frameDeadlineExceeded then
        throw .responseDeadlineAfterRequestDelivery
      else throw error
  | .ok body => Fallible.ofExcept (decodeResponse scan body)

/-- Send one request and receive its handshake response within one absolute
deadline. -/
def exchangeRequestWithDeadline (request : Request) (deadline : Nat) :
    Exchange Message := do
  let frame ← Fallible.ofExcept (sendMessage (.request request))
  let now ← instantNow
  if deadline ≤ now then throw .frameDeadlineExceeded
  else
    orIo (← Fallible.perform .clearReadTimeout)
    orIo (← Fallible.perform .clearWriteTimeout)
    orIo (← setNonblocking true)
    let result ← Fallible.observe (deliver scan frame deadline)
    let restore ← setNonblocking false
    match result with
    | .error error => throw error
    | .ok message => do
        orIo restore
        return message

/-- One pass of `receive_completion`: a result ends the wait. -/
def completionPass (deadline : Nat) (reader : FrameReader) :
    Exchange (FrameReader ⊕ Message) := do
  match reader.frame with
  | some frame => Fallible.ofExcept ((decodeResponse scan frame).map .inr)
  | none =>
      let now ← instantNow
      if deadline ≤ now then throw .frameDeadlineExceeded
      else
        match ← poll .input (deadline - now) with
        | .ok ready =>
            if ready = 0 then throw .frameDeadlineExceeded
            else
              match ← read 8192 with
              | .ok input =>
                  if input.isEmpty then throw .truncatedFrame
                  else do
                    let (reader, _) ← Fallible.ofExcept (reader.feed input)
                    return .inl reader
              | .error error =>
                  if error = .interrupted ∨ error = .wouldBlock then
                    return .inl reader
                  else throw (.io error)
        | .error error =>
            if error = .interrupted then return .inl reader
            else throw (.io error)

/-- Blocking mode is restored, as far as that works, on every exit of the
loop. -/
def receiveCompletion (deadline : Nat) : Exchange Message := do
  orIo (← setNonblocking true)
  let result ← Fallible.observe
    (Fallible.iterate (completionPass scan deadline)
      (FrameReader.new maxResponseBytes))
  let _ ← setNonblocking false
  Fallible.ofExcept result

end

def peerUid : Fallible SocketOp SocketAns PeerError (Except PeerError Nat) :=
  .perform SocketOp.peerUid

def validatePeer : Fallible SocketOp SocketAns PeerError Unit := do
  let expected ← Fallible.perform .geteuid
  let actual ← Fallible.ofExcept (← peerUid)
  if actual = expected then return ()
  else throw (.mismatch expected actual)

/-! The request of a direct invocation. -/

section

variable {F : Type} (float : Float64 F)

def operationKind : DirectOperation → Option OperationKind
  | .search => some .search
  | .all => some .all
  | .index => some .index
  | .stats => some .stats
  | .projects => some .projects
  | .gc => some .gc
  | .write => none

/-- The text of a project path, if it has one. -/
def projectText : Option OsString → Option (Option Text)
  | some path => path.toStr.map some
  | none => some none

def serviceOperation (request : DirectRequest F) : Option ServiceOperation := do
  let kind ← operationKind request.operation
  let project ← projectText request.project
  return {
    kind
    query := request.query.getD []
    k := Text.ofNat request.k
    json := request.json
    full := request.full
    noGate := request.noGate
    explain := request.explain
    minScore := request.minScore.map float.display
    maxGap := request.maxGap.map float.display
    project }

/-- The flag of an operation; `none` for write, which is never sent. -/
def operationArgument : DirectOperation → Option (List Text)
  | .search => some []
  | .all => some ["--all"]
  | .write => none
  | .index => some ["--index"]
  | .stats => some ["--stats"]
  | .projects => some ["--projects"]
  | .gc => some ["--gc"]

def flagArgument (flag : Text) (selected : Bool) : List Text :=
  if selected then [flag] else []

def valueArgument (flag : Text) : Option Text → List Text
  | some value => [flag, value]
  | none => []

def requestArgv (request : DirectRequest F) : Option (List Text) := do
  let operation ← operationArgument request.operation
  let project ← projectText request.project
  return operation ++ flagArgument "--json" request.json ++
    flagArgument "--full" request.full ++
    flagArgument "--no-gate" request.noGate ++
    flagArgument "--explain" request.explain ++
    (if request.k = 5 then [] else ["-k".toList, request.requestedK]) ++
    valueArgument "--min-score" (request.minScore.map float.display) ++
    valueArgument "--max-gap" (request.maxGap.map float.display) ++
    valueArgument "--project" project ++ valueArgument "--" request.query

/-- The request that the client sends, or why there is none. -/
def buildRequest (request : DirectRequest F) (layout : RuntimeLayout) :
    Except Text Request :=
  match serviceOperation float request, requestArgv float request,
      layout.cwd.toStr with
  | some operation, some argv, some cwd => .ok ⟨operation, argv, cwd⟩
  | some _, some _, none => .error "working directory is not valid UTF-8".toList
  | _, _, _ => .error "service request could not be encoded".toList

/-- The frame of a direct invocation, if it has one. -/
def requestFrame (request : DirectRequest F) (layout : RuntimeLayout) :
    Except ProtocolError Bytes :=
  match buildRequest float request layout with
  | .ok message => sendMessage (.request message)
  | .error _ => .error .invalidJson

abbrev Reply := Option (Except DirectCompletion DirectCompletion)

def operational (message : Text) : Reply :=
  some (.error (.operational message))

def exitCodeFromService : Nat → ExitCode
  | 0 => .ok
  | 1 => .empty
  | 2 => .usage
  | 3 => .unsure
  | _ => .operational

/-- The reply made of the terminal response. -/
def completionReply (accepted : Text) : Except ProtocolError Message → Reply
  | .ok (.completed completed) =>
      if completed.requestId = accepted then
        some (.ok (.finished (exitCodeFromService completed.exitCode)
          completed.stdout completed.stderr))
      else operational "service completion request ID did not match".toList
  | .ok _ => operational "service sent an invalid completion".toList
  | .error error =>
      operational ("service completion failed: ".toList ++ error.display)

variable (scan : Text → Json.Scan)

/-- What follows the exchange: only a passed deadline still authorizes direct
execution. -/
def afterExchange (result : Except ProtocolError Message) :
    Prog SocketOp SocketAns Reply :=
  match result with
  | .ok (.accepted accepted) => do
      let now ← Prog.perform .now
      let completion ← (receiveCompletion scan (now + completionTimeout)).run
      return completionReply accepted.requestId completion
  | .ok (.rejected rejected) =>
      return operational ("service rejected request (".toList ++
        rejected.code ++ "): ".toList ++ rejected.message)
  | .ok _ => return operational "service did not accept request".toList
  | .error error =>
      if error = .frameDeadlineExceeded then return none
      else
        return operational
          ("service acceptance failed: ".toList ++ error.display)

def connect (path : OsString) (deadline : Nat) :
    Prog SocketOp SocketAns ConnectOutcome :=
  .perform (SocketOp.connect path deadline)

/-- The staged client.  `none` authorizes direct execution because no request
could have been delivered. -/
def tryServiceWith (request : DirectRequest F) (layout : RuntimeLayout) :
    Prog SocketOp SocketAns Reply :=
  if request.query.any fun query => query.byteLength > maxArgumentBytes then
    return none
  else do
    let start ← Prog.perform .now
    let deadline := start + handshakeTimeout
    match ← connect layout.serviceSocket deadline with
    | .absent => return none
    | .failed error =>
        return operational ("service connection failed: ".toList ++ error)
    | .connected =>
        match ← validatePeer.run with
        | .error error =>
            return operational ("service peer rejected: ".toList ++ error.display)
        | .ok () =>
            match buildRequest float request layout with
            | .error message => return operational message
            | .ok message => do
                let result ←
                  (exchangeRequestWithDeadline scan message deadline).run
                afterExchange scan result

end

/-! The socket, the clock and the peer. -/

/-- What the environment answers, before it is fitted to the operation. -/
inductive SocketChoice
  | clock (advance : Nat)
  | connected (outcome : ConnectOutcome)
  | uid (uid : Nat)
  | peer (answer : Except PeerError Nat)
  | done (answer : Except ErrorKind Unit)
  | wrote (answer : Except ErrorKind Nat)
  | data (answer : Except ErrorKind Bytes)
  | ready (answer : Except ErrorKind Nat)

/-- The monotonic clock, and the bytes the service's socket has taken. -/
structure Socket where
  clock : Nat
  delivered : Bytes
  deriving DecidableEq

/-- A write takes a prefix of its input or fails without taking anything; a read
returns at most what was asked for. -/
def socketAnswer (choice : SocketChoice) (s : Socket) :
    (op : SocketOp) → Option (SocketAns op × Socket)
  | .now => match choice with
      | .clock advance =>
          some (s.clock + advance, { s with clock := s.clock + advance })
      | _ => none
  | .connect _ _ => match choice with
      | .connected outcome => some (outcome, s)
      | _ => none
  | .geteuid => match choice with
      | .uid uid => some (uid, s)
      | _ => none
  | .peerUid => match choice with
      | .peer answer => some (answer, s)
      | _ => none
  | .clearReadTimeout | .clearWriteTimeout | .setNonblocking _ =>
      match choice with
      | .done answer => some (answer, s)
      | _ => none
  | .write input => match choice with
      | .wrote (.error error) => some (.error error, s)
      | .wrote (.ok count) =>
          if count ≤ input.length then
            some (.ok count,
              { s with delivered := s.delivered ++ input.take count })
          else none
      | _ => none
  | .read limit => match choice with
      | .data (.error error) => some (.error error, s)
      | .data (.ok input) =>
          if input.length ≤ limit then some (.ok input, s) else none
      | _ => none
  | .poll _ _ => match choice with
      | .ready answer => some (answer, s)
      | _ => none

def interp : Interp Unit SocketOp SocketAns Socket SocketChoice where
  answer _ choice s op := socketAnswer choice s op
  disturb _ _ := none

abbrev SocketEvent := Event Unit SocketOp SocketAns Socket

abbrev SocketTrace := Traced Unit SocketOp SocketAns Socket

/-- The runs of the client against every socket, clock and peer. -/
abbrev exec := interp.traced.system.exec ()

end Yams.Client
