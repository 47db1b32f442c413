/-
The text renderer of search results.  Untrusted strings are filtered one by one
before they are set into the renderer's own words, and the finished frame is
filtered once more.
-/
import Yams.Binary64
import Yams.Terminal
import Yams.WikiPage

namespace Yams.Render

open Terminal

/-- Rank signals, attached when an explanation was asked for. -/
structure HitExplanation (F : Type) where
  denseRank : Option Nat
  bm25Rank : Option Nat
  rrfScore : Option F

/-- A selected page and the chunk chosen to show it. -/
structure SearchHit (F : Type) where
  name : Text
  path : Text
  score : F
  text : Text
  snippet : Text
  clippedStart : Bool
  clippedEnd : Bool
  corpus : CorpusKind
  exact : Bool
  status : Option Text
  explanation : Option (HitExplanation F)

structure GateEntry (F : Type) where
  path : Text
  score : F

structure GateVerdict (F : Type) where
  baseline : F
  minScore : F
  maxGap : F
  noHits : Bool
  floorFired : Bool
  top : Option F
  floorDropped : List (GateEntry F)
  gapDropped : List (GateEntry F)
  rescued : List (GateEntry F)

structure SearchExplanation (F : Type) where
  query : Text
  applied : Bool
  gate : Option (GateVerdict F)

structure SearchResponse (F : Type) where
  hits : List (SearchHit F)
  explanation : Option (SearchExplanation F)

structure ProjectSearchResponse (F : Type) where
  project : Text
  hits : List (SearchHit F)

inductive Styling
  | plain | ansi
  deriving DecidableEq

structure TextOptions where
  full : Bool
  showPath : Bool
  indent : Nat
  styling : Styling

def TextOptions.single (full : Bool) (styling : Styling) : TextOptions :=
  ⟨full, true, 0, styling⟩

def TextOptions.grouped (full : Bool) (styling : Styling) : TextOptions :=
  ⟨full, false, 2, styling⟩

inductive RenderError
  | nonFinite (field : String)
  | missingHitExplanation (path : Text)
  | invalidRank (field : String)
  | outputLimit
  deriving DecidableEq

/-- A text that refuses to grow beyond its cap.  A refused write ends the
rendering, so that there was one need not be kept. -/
structure BoundedBuffer where
  inner : Text
  cap : Nat

namespace BoundedBuffer

def directStreamCap : Nat := 4 * 1024 * 1024

def new (cap : Nat) : BoundedBuffer := ⟨[], cap⟩

def writeStr (output : BoundedBuffer) (value : Text) :
    Except RenderError BoundedBuffer :=
  if output.cap < Text.byteLength output.inner + Text.byteLength value then
    .error .outputLimit
  else .ok { output with inner := output.inner ++ value }

/-- `writeln!` -/
def writeLine (output : BoundedBuffer) (line : Text) :
    Except RenderError BoundedBuffer :=
  output.writeStr (line ++ ['\n'])

end BoundedBuffer

section Numbers

variable {F : Type} [Binary64 F]

/-- `f64::is_sign_negative` of a finite number. -/
def isSignNegative (a : F) : Bool := a < (Binary64.nearest 0 : F)

/-- The digits of a number with `precision` decimals, without its sign. -/
def decimals (precision : Nat) (a : F) : Text :=
  let scaled := (roundHalfEven (|Binary64.value a| * 10 ^ precision)).toNat
  let fraction := Text.ofNat (scaled % 10 ^ precision)
  Text.ofNat (scaled / 10 ^ precision) ++ ['.'] ++
    (List.replicate (precision - fraction.length) '0' ++ fraction)

/-- `format!("{a:.precision$}")` -/
def fixed (precision : Nat) (a : F) : Text :=
  (if isSignNegative a then ['-'] else []) ++ decimals precision a

/-- `format!("{a:+.precision$}")` -/
def fixedSigned (precision : Nat) (a : F) : Text :=
  (if isSignNegative a then ['-'] else ['+']) ++ decimals precision a

def requireFinite (field : String) (value : F) : Except RenderError Unit :=
  if Binary64.isFinite value then .ok () else .error (.nonFinite field)

def textNumber (field : String) (value : F) (precision : Nat) :
    Except RenderError Text :=
  if Binary64.isFinite value then .ok (fixed precision value)
  else .error (.nonFinite field)

def textScore (field : String) (value : F) : Except RenderError Text :=
  textNumber field value 4

def validateRank (field : String) (rank : Option Nat) : Except RenderError Unit :=
  if rank = some 0 then .error (.invalidRank field) else .ok ()

def validateHit (hit : SearchHit F) : Except RenderError Unit := do
  requireFinite "score" hit.score
  match hit.explanation with
  | none => .ok ()
  | some explanation => do
      validateRank "dense_rank" explanation.denseRank
      validateRank "bm25_rank" explanation.bm25Rank
      match explanation.rrfScore with
      | none => .ok ()
      | some score => requireFinite "rrf_score" score

def validateGate (gate : GateVerdict F) : Except RenderError Unit := do
  requireFinite "baseline" gate.baseline
  requireFinite "min_score" gate.minScore
  requireFinite "max_gap" gate.maxGap
  requireFinite "margin" (Binary64.sub gate.baseline gate.minScore)
  match gate.top with
  | none => .ok ()
  | some top => requireFinite "top" top
  gate.floorDropped.forM fun entry =>
    requireFinite "floor_dropped.score" entry.score
  gate.gapDropped.forM fun entry => requireFinite "gap_dropped.score" entry.score
  gate.rescued.forM fun entry => requireFinite "rescued.score" entry.score

def validateResponse (response : SearchResponse F) : Except RenderError Unit := do
  response.hits.forM validateHit
  match response.explanation.bind SearchExplanation.gate with
  | none => .ok ()
  | some gate => validateGate gate

end Numbers

def corpusName : CorpusKind → Text
  | .shared => "shared".toList
  | .private => "private".toList
  | .override => "override".toList

def rankText : Option Nat → Text
  | none => "—".toList
  | some rank => '#' :: Text.ofNat rank

/-- The first `width` characters, and whether there are more. -/
def takeChars (input : Text) (width : Nat) : Text × Bool :=
  (input.take width, width < input.length)

def spaces (n : Nat) : Text := List.replicate n ' '

/-- The underline before a project, or the bold face before a title. -/
def sequence (styling : Styling) (code : String) : Text :=
  match styling with
  | .plain => []
  | .ansi => escape :: code.toList

/-- Write the lines of a body, each behind the indentation. -/
def pushIndentedMultiline (output : BoundedBuffer) (indent body : Text) :
    Except RenderError BoundedBuffer :=
  if body.isEmpty then output.writeLine (indent ++ "  ".toList)
  else
    (Wiki.splitInclusive body).foldlM (fun output line => do
      let output ← output.writeStr (indent ++ "  ".toList ++ line)
      if line.getLast? = some '\n' then .ok output else output.writeStr ['\n'])
      output

variable {F : Type} [Binary64 F] [Wiki.Unicode]

def textLabels (hit : SearchHit F) : Text :=
  let corpus := if hit.corpus ≠ .shared then [corpusName hit.corpus] else []
  let status := match hit.status with
    | none => []
    | some status =>
        if status ≠ [] ∧ status ≠ "current".toList then
          [sanitizeTerminal .inline status]
        else []
  let labels := corpus ++ status
  if labels.isEmpty then []
  else "  [".toList ++ Text.join ", ".toList labels ++ "]".toList

def pushGateEntry (output : BoundedBuffer) (indent : Text) (gate action : String)
    (entry : GateEntry F) (suffix : String) : Except RenderError BoundedBuffer := do
  let score ← textScore "gate_entry.score" entry.score
  let path := sanitizeTerminal .inline entry.path
  output.writeLine (indent ++ "  ".toList ++ gate.toList ++ " ".toList ++
    action.toList ++ "  ".toList ++ score ++ "  ".toList ++ path ++ suffix.toList)

/-- What the gate did, in words. -/
def gateSummary (gate : GateVerdict F) (hypothetical : Bool) : Text :=
  if gate.noHits then "no hits reached the gate — nothing to decide on".toList
  else if gate.floorFired then
    "floor ".toList ++ (if hypothetical then "would drop" else "drops").toList ++
      " everything unmarked: the corpus-wide best is under it".toList
  else if !gate.gapDropped.isEmpty || !gate.rescued.isEmpty then
    "floor cleared; the gap ".toList ++
      (if hypothetical then "would have decided" else "decided").toList ++
      " the rest".toList
  else
    "both gates ".toList ++ (if hypothetical then "would pass" else "pass").toList ++
      " everything".toList

def pushExplanationText (output : BoundedBuffer)
    (explanation : SearchExplanation F) (indentation : Nat) :
    Except RenderError BoundedBuffer :=
  let indent := spaces indentation
  match explanation.gate with
  | none =>
      output.writeLine
        (indent ++ "gate: not consulted — this corpus holds no vectors".toList)
  | some gate => do
      let baseline ← textScore "baseline" gate.baseline
      let minScore ← textNumber "min_score" gate.minScore 2
      let maxGap ← textNumber "max_gap" gate.maxGap 2
      let marginValue := Binary64.sub gate.baseline gate.minScore
      requireFinite "margin" marginValue
      let note := if explanation.applied then "" else "   (shown anyway: --no-gate)"
      let output ← output.writeLine (indent ++ "baseline ".toList ++ baseline ++
        "   floor ".toList ++ minScore ++ "   gap ".toList ++ maxGap ++
        "   margin ".toList ++ fixedSigned 4 marginValue ++ note.toList)
      let hypothetical := !explanation.applied
      let output ← output.writeLine
        (indent ++ "  ".toList ++ gateSummary gate hypothetical)
      let dropped := if hypothetical then "would drop" else "dropped"
      let output ← gate.floorDropped.foldlM (fun output entry =>
        pushGateEntry output indent "floor" dropped entry "") output
      let output ← gate.gapDropped.foldlM (fun output entry =>
        pushGateEntry output indent "gap  " dropped entry "") output
      let kept := if hypothetical then "would keep" else "kept"
      gate.rescued.foldlM (fun output entry =>
        pushGateEntry output indent "rescue" kept entry "  (exact identifier)") output

/-- How often a title is shown: the entry of the map that counts the titles. -/
def seen (hits : List (SearchHit F)) (title : Text) : Nat :=
  (hits.map fun hit => sanitizeTerminal .inline hit.name).count title

/-- The line with the rank signals of a hit. -/
def pushHitExplanation (output : BoundedBuffer) (indent : Text) (hit : SearchHit F) :
    Except RenderError BoundedBuffer :=
  match hit.explanation with
  | none => .error (.missingHitExplanation hit.path)
  | some explanation => do
      let dense := rankText explanation.denseRank
      let bm25 := rankText explanation.bm25Rank
      let rrf ← match explanation.rrfScore with
        | none => .ok "—".toList
        | some score => textNumber "rrf_score" score 5
      output.writeLine (indent ++ "    dense ".toList ++ dense ++
        "   bm25 ".toList ++ bm25 ++ "   rrf ".toList ++ rrf)

/-- The body of a hit: its whole text, or one line of its snippet. -/
def pushBody (output : BoundedBuffer) (options : TextOptions) (hit : SearchHit F) :
    Except RenderError BoundedBuffer :=
  let indent := spaces options.indent
  if options.full then
    pushIndentedMultiline output indent (sanitizeTerminal .multiline hit.text)
  else
    let width := 280 - 2 * options.indent
    let (body, narrowed) := takeChars hit.snippet width
    let body := sanitizeTerminal .inline body
    let lead := if hit.clippedStart then "..." else ""
    let trail := if hit.clippedEnd || narrowed then "..." else ""
    output.writeLine (indent ++ "  ".toList ++ lead.toList ++ body ++ trail.toList)

/-- One turn of the loop over the hits. -/
def pushHit (hits : List (SearchHit F)) (explained : Bool) (options : TextOptions)
    (output : BoundedBuffer) (hit : SearchHit F) :
    Except RenderError BoundedBuffer := do
  let indent := spaces options.indent
  let score ← textScore "score" hit.score
  let title := sanitizeTerminal .inline hit.name
  let path := sanitizeTerminal .inline hit.path
  let before := if options.indent = 0 then "\n" else ""
  let output ← output.writeLine (before.toList ++ indent ++
    sequence options.styling "[1m" ++ title ++ sequence options.styling "[0m" ++
    "  (".toList ++ score ++ ")".toList ++ textLabels hit)
  let output ← (if options.showPath || 1 < seen hits title then
      output.writeLine (indent ++ "  ".toList ++ path)
    else .ok output)
  let output ← pushBody output options hit
  if explained then pushHitExplanation output indent hit else .ok output

def renderTextInner (output : BoundedBuffer) (hits : List (SearchHit F))
    (explanation : Option (SearchExplanation F)) (options : TextOptions) :
    Except RenderError BoundedBuffer :=
  let pushExplanation := fun output : BoundedBuffer =>
    match explanation with
    | none => .ok output
    | some explanation => pushExplanationText output explanation options.indent
  if hits.isEmpty then do
    let output ← output.writeLine
      (if (explanation.bind SearchExplanation.gate).isSome then "no confident match"
        else "no results").toList
    pushExplanation output
  else do
    let output ← pushExplanation output
    let output ← hits.foldlM (pushHit hits explanation.isSome options) output
    if options.indent = 0 then output.writeStr ['\n'] else .ok output

def finishTextOutput (output : BoundedBuffer) : Text :=
  sanitizeTerminal .renderedFrame output.inner

def renderText (response : SearchResponse F) (options : TextOptions) :
    Except RenderError Text := do
  validateResponse response
  let output ← renderTextInner (.new BoundedBuffer.directStreamCap) response.hits
    response.explanation options
  return finishTextOutput output

/-- One turn of the loop over the projects. -/
def pushGroup (full : Bool) (styling : Styling) (output : BoundedBuffer)
    (group : ProjectSearchResponse F) : Except RenderError BoundedBuffer :=
  if group.hits.isEmpty then .ok output
  else do
    let project := sanitizeTerminal .inline group.project
    let output ← output.writeLine ("\n".toList ++ sequence styling "[4m" ++ project ++
      sequence styling "[0m")
    renderTextInner output group.hits none (.grouped full styling)

def renderAllText (groups : List (ProjectSearchResponse F)) (full : Bool)
    (styling : Styling) : Except RenderError Text := do
  groups.forM fun group => group.hits.forM validateHit
  if groups.isEmpty then return "no results\n".toList
  else
    let output ← groups.foldlM (pushGroup full styling)
      (.new BoundedBuffer.directStreamCap)
    if output.inner.isEmpty then return "no results\n".toList
    else
      let output ← output.writeStr ['\n']
      return finishTextOutput output

end Yams.Render
