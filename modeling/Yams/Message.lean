/-
The versioned messages of the service protocol and their strict JSON bodies.
The JSON reader is a parameter: it reports the fields of the root object in
order, and the visitors below accept or refuse them.
-/
import Yams.Json

namespace Yams

/-- Wire-protocol version used by both the client and the service. -/
def protocolVersion : Nat := 4

/-- Maximum encoded request body size, excluding the frame header. -/
def maxRequestBytes : Nat := 64 * 1024

/-- Maximum encoded response body size, excluding the frame header. -/
def maxResponseBytes : Nat := 8 * 1024 * 1024

/-- Maximum number of entries in a request argument vector. -/
def maxArguments : Nat := 256

/-- Maximum UTF-8 byte length of one request argument. -/
def maxArgumentBytes : Nat := 16 * 1024

def maxJsonNesting : Nat := 128

/-- Service operations the daemon may execute. -/
inductive OperationKind
  | search | all | index | stats | projects | gc
  deriving DecidableEq, Repr

/-- Stable wire spelling. -/
def OperationKind.asStr : OperationKind → Text
  | .search => "search"
  | .all => "all"
  | .index => "index"
  | .stats => "stats"
  | .projects => "projects"
  | .gc => "gc"

/-- Parse a wire kind.  `write` is intentionally absent. -/
def OperationKind.parse (value : Text) : Option OperationKind :=
  if value = "search".toList then some .search
  else if value = "all".toList then some .all
  else if value = "index".toList then some .index
  else if value = "stats".toList then some .stats
  else if value = "projects".toList then some .projects
  else if value = "gc".toList then some .gc
  else none

theorem OperationKind.parse_asStr (kind : OperationKind) :
    OperationKind.parse kind.asStr = some kind := by
  cases kind <;> decide

/-- Typed service operation. -/
structure ServiceOperation where
  kind : OperationKind
  query : Text
  k : Text
  json : Bool
  full : Bool
  noGate : Bool
  explain : Bool
  minScore : Option Text
  maxGap : Option Text
  project : Option Text
  deriving DecidableEq

/-- A direct CLI invocation sent to the service; `argv` is debug-only. -/
structure Request where
  operation : ServiceOperation
  argv : List Text
  cwd : Text
  deriving DecidableEq

structure Accepted where
  requestId : Text
  deriving DecidableEq

structure Completed where
  requestId : Text
  exitCode : Nat
  stdout : Text
  stderr : Text
  deriving DecidableEq

structure Rejected where
  code : Text
  message : Text
  deriving DecidableEq

/-- One versioned request or response message. -/
inductive Message
  | request (request : Request)
  | accepted (accepted : Accepted)
  | completed (completed : Completed)
  | rejected (rejected : Rejected)
  deriving DecidableEq

/-- `io::ErrorKind`: the kinds the transport tells apart, and the others by
name. -/
inductive ErrorKind
  | writeZero | interrupted | wouldBlock
  | other (name : Text)
  deriving DecidableEq, Repr

/-- A protocol validation or transport failure. -/
inductive ProtocolError
  | invalidUtf8 | invalidJson | messageMustBeObject | duplicateField
  | unknownField | fieldsDoNotMatch | unsupportedVersion | invalidRequestType
  | unknownResponseType | cwdNotAbsolute | emptyRequestId | emptyRejectionCode
  | tooManyArguments | argumentTooLarge
  | frameTooLarge (declared limit : Nat)
  | truncatedFrame | frameDeadlineExceeded
  | responseDeadlineAfterRequestDelivery
  | frameAlreadyComplete | frameInputTooLong
  | io (kind : ErrorKind)
  deriving DecidableEq, Repr

def ErrorKind.debug : ErrorKind → Text
  | .writeZero => "WriteZero"
  | .interrupted => "Interrupted"
  | .wouldBlock => "WouldBlock"
  | .other name => name

def ProtocolError.display : ProtocolError → Text
  | .invalidUtf8 => "invalid UTF-8"
  | .invalidJson => "invalid JSON"
  | .messageMustBeObject => "message must be a JSON object"
  | .duplicateField => "duplicate JSON field"
  | .unknownField => "unknown JSON field"
  | .fieldsDoNotMatch => "message fields do not match its type"
  | .unsupportedVersion => "unsupported protocol version"
  | .invalidRequestType => "invalid request type"
  | .unknownResponseType => "unknown response type"
  | .cwdNotAbsolute => "cwd must be an absolute path"
  | .emptyRequestId => "request_id must be a nonempty string"
  | .emptyRejectionCode => "rejection code must be a nonempty string"
  | .tooManyArguments => "too many arguments"
  | .argumentTooLarge => "argument too large"
  | .frameTooLarge declared limit =>
      "frame too large: ".toList ++ Text.ofNat declared ++ " > ".toList ++
        Text.ofNat limit
  | .truncatedFrame => "truncated frame"
  | .frameDeadlineExceeded => "frame deadline exceeded"
  | .responseDeadlineAfterRequestDelivery =>
      "response deadline exceeded after request delivery"
  | .frameAlreadyComplete => "frame is already complete"
  | .frameInputTooLong => "frame input exceeds declared length"
  | .io kind => "protocol I/O failed (".toList ++ kind.debug ++ ")".toList

/-! Encoding. -/

def validateRequest (request : Request) : Except ProtocolError Unit :=
  if request.argv.length > maxArguments then .error .tooManyArguments
  else if request.argv.any fun argument =>
      argument.byteLength > maxArgumentBytes then .error .argumentTooLarge
  else if request.cwd.head? ≠ some '/' then .error .cwdNotAbsolute
  else .ok ()

def validateRequestId (requestId : Text) : Except ProtocolError Unit :=
  if requestId.isEmpty then .error .emptyRequestId else .ok ()

/-- A field that is skipped when it is absent. -/
def optionalField (name : Text) : Option Text → List (Text × Json)
  | some value => [(name, .str value)]
  | none => []

def operationWire (operation : ServiceOperation) : List (Text × Json) :=
  let always : List (Text × Json) :=
    [("kind", .str operation.kind.asStr),
      ("query", .str operation.query),
      ("k", .str operation.k),
      ("json", .bool operation.json),
      ("full", .bool operation.full),
      ("no_gate", .bool operation.noGate),
      ("explain", .bool operation.explain)]
  always ++ optionalField "min_score" operation.minScore ++
    optionalField "max_gap" operation.maxGap ++
    optionalField "project" operation.project

def requestWire (request : Request) : List (Text × Json) :=
  [("version", .num protocolVersion),
    ("type", .str "request"),
    ("operation", .obj (operationWire request.operation)),
    ("argv", .arr (request.argv.map .str)),
    ("cwd", .str request.cwd)]

def acceptedWire (accepted : Accepted) : List (Text × Json) :=
  [("version", .num protocolVersion),
    ("type", .str "accepted"),
    ("request_id", .str accepted.requestId)]

def completedWire (completed : Completed) : List (Text × Json) :=
  [("version", .num protocolVersion),
    ("type", .str "completed"),
    ("request_id", .str completed.requestId),
    ("exit_code", .num completed.exitCode),
    ("stdout", .str completed.stdout),
    ("stderr", .str completed.stderr)]

def rejectedWire (rejected : Rejected) : List (Text × Json) :=
  [("version", .num protocolVersion),
    ("type", .str "rejected"),
    ("code", .str rejected.code),
    ("message", .str rejected.message)]

/-- Serialize at most `limit` bytes. -/
def encodeBounded (fields : List (Text × Json)) (limit : Nat) :
    Except ProtocolError Bytes :=
  let bytes := (Json.obj fields).render.toBytes
  if bytes.length > limit then .error (.frameTooLarge bytes.length limit)
  else .ok bytes

/-- Validate and encode one message as compact UTF-8 JSON without a frame
header. -/
def encode : Message → Except ProtocolError Bytes
  | .request request => do
      validateRequest request
      encodeBounded (requestWire request) maxRequestBytes
  | .accepted accepted => do
      validateRequestId accepted.requestId
      encodeBounded (acceptedWire accepted) maxResponseBytes
  | .completed completed => do
      validateRequestId completed.requestId
      encodeBounded (completedWire completed) maxResponseBytes
  | .rejected rejected =>
      if rejected.code.isEmpty then .error .emptyRejectionCode
      else encodeBounded (rejectedWire rejected) maxResponseBytes

/-! Decoding. -/

structure RawOperation where
  kind : Option Text
  query : Option Text
  k : Option Text
  json : Option Bool
  full : Option Bool
  noGate : Option Bool
  explain : Option Bool
  minScore : Option Text
  maxGap : Option Text
  project : Option Text

def RawOperation.default : RawOperation :=
  ⟨none, none, none, none, none, none, none, none, none, none⟩

structure RawMessage where
  version : Option Nat
  messageType : Option Text
  argv : Option (List Text)
  cwd : Option Text
  operation : Option RawOperation
  requestId : Option Text
  exitCode : Option Nat
  stdout : Option Text
  stderr : Option Text
  code : Option Text
  message : Option Text

def RawMessage.default : RawMessage :=
  ⟨none, none, none, none, none, none, none, none, none, none, none⟩

/-- `read_once!`: a field read a second time is a duplicate. -/
def readOnce {α : Type} (slot : Option α) (value : Option α) :
    Except ProtocolError (Option α) :=
  if slot.isSome then .error .duplicateField
  else match value with
    | some v => .ok (some v)
    | none => .error .invalidJson

namespace Json

def asU8 : Json → Option Nat
  | .num n => if n < 256 then some n else none
  | _ => none

def asText : Json → Option Text
  | .str text => some text
  | _ => none

def asBool : Json → Option Bool
  | .bool b => some b
  | _ => none

def asTexts : Json → Option (List Text)
  | .arr items => items.mapM asText
  | _ => none

end Json

/-- One step of `RawOperationVisitor::visit_map`. -/
def RawOperation.visit (raw : RawOperation) (key : Text) (value : Json) :
    Except ProtocolError RawOperation :=
  if key = "kind".toList then
    return { raw with kind := ← readOnce raw.kind value.asText }
  else if key = "query".toList then
    return { raw with query := ← readOnce raw.query value.asText }
  else if key = "k".toList then
    return { raw with k := ← readOnce raw.k value.asText }
  else if key = "json".toList then
    return { raw with json := ← readOnce raw.json value.asBool }
  else if key = "full".toList then
    return { raw with full := ← readOnce raw.full value.asBool }
  else if key = "no_gate".toList then
    return { raw with noGate := ← readOnce raw.noGate value.asBool }
  else if key = "explain".toList then
    return { raw with explain := ← readOnce raw.explain value.asBool }
  else if key = "min_score".toList then
    return { raw with minScore := ← readOnce raw.minScore value.asText }
  else if key = "max_gap".toList then
    return { raw with maxGap := ← readOnce raw.maxGap value.asText }
  else if key = "project".toList then
    return { raw with project := ← readOnce raw.project value.asText }
  else .error .unknownField

/-- `RawOperationVisitor::visit_map` over a whole object. -/
def RawOperation.ofFields : List (Text × Json) → RawOperation →
    Except ProtocolError RawOperation
  | [], raw => .ok raw
  | (key, value) :: fields, raw => do
      RawOperation.ofFields fields (← raw.visit key value)

/-- The operation field must be an object. -/
def readOperation (slot : Option RawOperation) (value : Json) :
    Except ProtocolError (Option RawOperation) :=
  if slot.isSome then .error .duplicateField
  else match value with
    | .obj fields => (RawOperation.ofFields fields .default).map some
    | _ => .error .invalidJson

/-- One step of `RawMessageVisitor::visit_map`. -/
def RawMessage.visit (raw : RawMessage) (key : Text) (value : Json) :
    Except ProtocolError RawMessage :=
  if key = "version".toList then
    return { raw with version := ← readOnce raw.version value.asU8 }
  else if key = "type".toList then
    return { raw with messageType := ← readOnce raw.messageType value.asText }
  else if key = "argv".toList then
    return { raw with argv := ← readOnce raw.argv value.asTexts }
  else if key = "cwd".toList then
    return { raw with cwd := ← readOnce raw.cwd value.asText }
  else if key = "operation".toList then
    return { raw with operation := ← readOperation raw.operation value }
  else if key = "request_id".toList then
    return { raw with requestId := ← readOnce raw.requestId value.asText }
  else if key = "exit_code".toList then
    return { raw with exitCode := ← readOnce raw.exitCode value.asU8 }
  else if key = "stdout".toList then
    return { raw with stdout := ← readOnce raw.stdout value.asText }
  else if key = "stderr".toList then
    return { raw with stderr := ← readOnce raw.stderr value.asText }
  else if key = "code".toList then
    return { raw with code := ← readOnce raw.code value.asText }
  else if key = "message".toList then
    return { raw with message := ← readOnce raw.message value.asText }
  else .error .unknownField

def RawMessage.ofFields : List (Text × Json) → RawMessage →
    Except ProtocolError RawMessage
  | [], raw => .ok raw
  | (key, value) :: fields, raw => do
      RawMessage.ofFields fields (← raw.visit key value)

/-- The state of the nesting check: the depth, and where in a string it is.
The bytes it looks for are ASCII, so it may go by characters. -/
structure Nesting where
  depth : Nat
  inString : Bool
  escaped : Bool
  deriving DecidableEq

def Nesting.step (s : Nesting) (c : Char) : Except ProtocolError Nesting :=
  if s.inString then
    if s.escaped then .ok { s with escaped := false }
    else if c = '\\' then .ok { s with escaped := true }
    else if c = '"' then .ok { s with inString := false }
    else .ok s
  else if c = '"' then .ok { s with inString := true }
  else if c = '{' ∨ c = '[' then
    if s.depth + 1 > maxJsonNesting then .error .invalidJson
    else .ok { s with depth := s.depth + 1 }
  else if c = '}' ∨ c = ']' then .ok { s with depth := s.depth - 1 }
  else .ok s

def Nesting.scan : Text → Nesting → Except ProtocolError Nesting
  | [], s => .ok s
  | c :: text, s => do Nesting.scan text (← s.step c)

def validateNesting (text : Text) : Except ProtocolError Unit :=
  (Nesting.scan text ⟨0, false, false⟩).map fun _ => ()

/-- `u8::is_ascii_whitespace`. -/
def isAsciiWhitespace (c : Char) : Bool :=
  c = ' ' ∨ c = '\t' ∨ c = '\n' ∨ c.toNat = 12 ∨ c = '\r'

section

variable (scan : Text → Json.Scan)

/-- The first character that is not white space opens an object. -/
def rootIsObject (text : Text) : Except ProtocolError Unit :=
  match text.find? fun c => ¬ isAsciiWhitespace c with
  | some c => if c = '{' then .ok () else .error .messageMustBeObject
  | none => .ok ()

def decodeObject (body : Bytes) (limit : Nat) :
    Except ProtocolError RawMessage :=
  if body.length > limit then .error (.frameTooLarge body.length limit)
  else do
    let text ← (Text.fromUtf8 body).elim (.error .invalidUtf8) .ok
    validateNesting text
    rootIsObject text
    let raw ← RawMessage.ofFields (scan text).fields .default
    if (scan text).complete then .ok raw else .error .invalidJson

def validateVersion (raw : RawMessage) : Except ProtocolError Unit :=
  if raw.version = some protocolVersion then
    if raw.messageType.isSome then .ok () else .error .fieldsDoNotMatch
  else .error .unsupportedVersion

def decodeOperation (raw : RawOperation) :
    Except ProtocolError ServiceOperation :=
  match raw with
  | ⟨some kind, some query, some k, some json, some full, some noGate,
      some explain, minScore, maxGap, project⟩ =>
      match OperationKind.parse kind with
      | none => .error .fieldsDoNotMatch
      | some kind =>
          if query.byteLength > maxArgumentBytes then .error .argumentTooLarge
          else .ok ⟨kind, query, k, json, full, noGate, explain, minScore,
            maxGap, project⟩
  | _ => .error .fieldsDoNotMatch

/-- Decode one unframed request body with exact fields and strict bounds. -/
def decodeRequest (body : Bytes) : Except ProtocolError Message := do
  let raw ← decodeObject scan body maxRequestBytes
  validateVersion raw
  if raw.messageType = some "request".toList then
    match raw with
    | ⟨_, _, some argv, some cwd, some operation, none, none, none, none, none,
        none⟩ => do
        let request := ⟨← decodeOperation operation, argv, cwd⟩
        validateRequest request
        return .request request
    | _ => .error .fieldsDoNotMatch
  else .error .invalidRequestType

/-- Decode one unframed response body with exact fields and strict bounds. -/
def decodeResponse (body : Bytes) : Except ProtocolError Message := do
  let raw ← decodeObject scan body maxResponseBytes
  validateVersion raw
  if raw.messageType = some "accepted".toList then
    match raw with
    | ⟨_, _, none, none, none, some requestId, none, none, none, none, none⟩ =>
        do
        validateRequestId requestId
        return .accepted ⟨requestId⟩
    | _ => .error .fieldsDoNotMatch
  else if raw.messageType = some "completed".toList then
    match raw with
    | ⟨_, _, none, none, none, some requestId, some exitCode, some stdout,
        some stderr, none, none⟩ => do
        validateRequestId requestId
        return .completed ⟨requestId, exitCode, stdout, stderr⟩
    | _ => .error .fieldsDoNotMatch
  else if raw.messageType = some "rejected".toList then
    match raw with
    | ⟨_, _, none, none, none, none, none, none, none, some code,
        some message⟩ =>
        if code.isEmpty then .error .emptyRejectionCode
        else .ok (.rejected ⟨code, message⟩)
    | _ => .error .fieldsDoNotMatch
  else if raw.messageType.isSome then .error .unknownResponseType
  else .error .fieldsDoNotMatch

end

end Yams
