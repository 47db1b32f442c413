/-
The service side of a request: the guard on the raw arguments, and the direct
request that is made of the typed operation.
-/
import Yams.Client

namespace Yams

/-- A rendered completion: what the process would write and exit with. -/
structure Completion where
  exitCode : ExitCode
  stdout : Text
  stderr : Text
  deriving DecidableEq

/-- Owned output returned by a request handler. -/
structure ExecutionOutput where
  exitCode : Nat
  stdout : Text
  stderr : Text
  deriving DecidableEq

def ExitCode.toNat : ExitCode → Nat
  | .ok => 0
  | .empty => 1
  | .usage => 2
  | .unsure => 3
  | .operational => 4

def Completion.output (completion : Completion) : ExecutionOutput :=
  ⟨completion.exitCode.toNat, completion.stdout, completion.stderr⟩

def directStreamCap : Nat := 4 * 1024 * 1024

def boundDirectCompletion (completion : Completion) : Completion :=
  if completion.stdout.byteLength > directStreamCap ∨
      completion.stderr.byteLength > directStreamCap then
    ⟨.operational, [], "yams: output limit\n".toList⟩
  else completion

def dropPlus : Text → Text
  | '+' :: rest => rest
  | text => text

/-- `str::parse::<usize>`. -/
def parseUsize (text : Text) : Option Nat :=
  let digits := dropPlus text
  if digits.isEmpty ∨ ¬ digits.all Char.isDigit then none
  else
    let value := Nat.ofDigitChars 10 digits 0
    if value ≤ usizeMax then some value else none

def OperationKind.direct : OperationKind → DirectOperation
  | .search => .search
  | .all => .all
  | .index => .index
  | .stats => .stats
  | .projects => .projects
  | .gc => .gc

section

variable {F : Type} (float : Float64 F)

/-- An optional float of an operation. -/
def parseFloatField (flag : Text) (value : Option Text) :
    Except DirectCompletion (Option F) :=
  match value with
  | none => .ok none
  | some text =>
      match float.parse text with
      | some x => .ok (some x)
      | none => .error (.operational ("invalid ".toList ++ flag ++
          " ".toList ++ quoted text))

def directRequestFromOperation (operation : ServiceOperation) :
    Except DirectCompletion (DirectRequest F) :=
  match parseUsize operation.k with
  | none => .error (.operational ("invalid -k ".toList ++ quoted operation.k))
  | some k => do
      let minScore ← parseFloatField float "--min-score" operation.minScore
      let maxGap ← parseFloatField float "--max-gap" operation.maxGap
      return {
        operation := operation.kind.direct
        project := operation.project.map .utf8
        query := if operation.query.isEmpty then none else some operation.query
        k
        requestedK := operation.k
        json := operation.json
        full := operation.full
        noGate := operation.noGate
        explain := operation.explain
        minScore
        maxGap }

variable (disk : Disk) (describe : LayoutError → Text)
  (resolveLayout : RuntimeInputs → Except LayoutError RuntimeLayout)
  (currentInputs : Except Text RuntimeInputs)
  (render : DirectCompletion → Completion)
  (dispatch : DirectRequest F → RuntimeLayout → Completion)

/-- Execute a typed service operation without reconstructing the command
line. -/
def executeServiceOperation (operation : ServiceOperation) (cwd : Text) :
    Completion :=
  boundDirectCompletion <|
    match directRequestFromOperation float operation with
    | .error completion => render completion
    | .ok request =>
        match currentInputs with
        | .error message => render (.operational message)
        | .ok inputs =>
            match prepareResolved disk describe resolveLayout request
                { inputs with cwd := cwd.toBytes } with
            | .ok (request, layout) => dispatch request layout
            | .error completion => render completion

end

/-- The handler of the service process, given how it executes operations. -/
def executeRequest (execute : ServiceOperation → Text → Completion)
    (request : Request) : ExecutionOutput :=
  if request.argv.any fun argument => argument = "--write".toList then
    ⟨2, [], "yams: --write is not a service operation\n".toList⟩
  else (execute request.operation request.cwd).output

end Yams
