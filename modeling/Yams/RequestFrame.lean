/-
When a direct invocation fits into a request frame: the length of its request in
terms of the command line, and the bounds that its arguments have to keep.
-/
import Yams.MessageCodec
import Yams.ServicePath

namespace Yams

open Client

section Arguments

/-- Every argument is as short as the service demands. -/
def ShortArguments (argv : List Text) : Prop :=
  ∀ argument ∈ argv, argument.byteLength ≤ maxArgumentBytes

def ShortOption (value : Option Text) : Prop :=
  ∀ text, value = some text → text.byteLength ≤ maxArgumentBytes

theorem shortArguments_append {left right : List Text} :
    ShortArguments (left ++ right) ↔ ShortArguments left ∧ ShortArguments right := by
  simp only [ShortArguments, List.mem_append, or_imp, forall_and]

theorem shortArguments_flag {flag : Text} (hflag : flag.byteLength ≤ maxArgumentBytes)
    (selected : Bool) : ShortArguments (flagArgument flag selected) := by
  intro argument hargument
  unfold flagArgument at hargument
  split at hargument
  · obtain rfl := List.mem_singleton.1 hargument
    exact hflag
  · cases hargument

theorem shortArguments_value {flag : Text}
    (hflag : flag.byteLength ≤ maxArgumentBytes) (value : Option Text) :
    ShortArguments (valueArgument flag value) ↔ ShortOption value := by
  cases value with
  | none =>
      constructor
      · intro _ text htext
        cases htext
      · intro _ argument hargument
        cases hargument
  | some value =>
      constructor
      · intro h text htext
        obtain rfl := Option.some.inj htext
        exact h _ (List.mem_cons_of_mem _ List.mem_cons_self)
      · intro h argument hargument
        rcases List.mem_cons.1 hargument with rfl | hmem
        · exact hflag
        · obtain rfl := List.mem_singleton.1 hmem
          exact h _ rfl

theorem argvLength_append (left right : List Text) :
    argvLength (left ++ right) = argvLength left + argvLength right := by
  simp [argvLength]

def flagLength (flag : Text) (selected : Bool) : Nat :=
  if selected then escapedLength flag + 3 else 0

theorem argvLength_flag (flag : Text) (selected : Bool) :
    argvLength (flagArgument flag selected) = flagLength flag selected := by
  cases selected <;> rfl

/-- A flag and its value, both with their quotes and commas. -/
def valueLength (flag : Text) : Option Text → Nat
  | none => 0
  | some value => escapedLength flag + escapedLength value + 6

theorem argvLength_value (flag : Text) (value : Option Text) :
    argvLength (valueArgument flag value) = valueLength flag value := by
  cases value with
  | none => rfl
  | some value =>
      simp only [valueArgument, argvLength, List.map_cons, List.map_nil,
        List.sum_cons, List.sum_nil, valueLength]
      omega

end Arguments

section Requests

variable {F : Type} (float : Float64 F)

/-- The length of the flag of an operation among the arguments. -/
def modeLength : DirectOperation → Nat
  | .search | .write => 0
  | .all => 8
  | .index | .stats => 10
  | .projects => 13
  | .gc => 7

/-- The length of an operation's name on the wire. -/
def kindLength : DirectOperation → Nat
  | .search => 6
  | .all => 3
  | .index | .stats => 5
  | .projects => 8
  | .gc => 2
  | .write => 0

/-- The count among the arguments: its own spelling, unless it is the default. -/
def countValue (request : DirectRequest F) : Option Text :=
  if request.k = 5 then none else some request.requestedK

/-- The length of the arguments of a request, each with a comma. -/
def argumentsLength (request : DirectRequest F) (project : Option Text) : Nat :=
  modeLength request.operation + flagLength "--json".toList request.json +
    flagLength "--full".toList request.full +
    flagLength "--no-gate".toList request.noGate +
    flagLength "--explain".toList request.explain +
    valueLength "-k".toList (countValue request) +
    valueLength "--min-score".toList (request.minScore.map float.display) +
    valueLength "--max-gap".toList (request.maxGap.map float.display) +
    valueLength "--project".toList project +
    valueLength "--".toList request.query

/-- The length of the typed operation of a request, without its fixed part. -/
def typedLength (request : DirectRequest F) (project : Option Text) : Nat :=
  kindLength request.operation + escapedLength (request.query.getD []) +
    escapedLength (Text.ofNat request.k) + boolLength request.json +
    boolLength request.full + boolLength request.noGate +
    boolLength request.explain +
    optionLength "min_score".toList (request.minScore.map float.display) +
    optionLength "max_gap".toList (request.maxGap.map float.display) +
    optionLength "project".toList project

/-- The length of the frame of a request: the query counts twice. -/
def frameLength (request : DirectRequest F) (project : Option Text) (cwd : Text) :
    Nat :=
  typedLength float request project +
    (argumentsLength float request project - 1) + escapedLength cwd + 129

/-- What a direct request needs to be sent to the service. -/
structure FitsService (request : DirectRequest F) (project : Option Text)
    (cwd : Text) : Prop where
  sent : request.operation ≠ .write
  text : projectText request.project = some project
  absolute : cwd.head? = some '/'
  count : ShortOption (countValue request)
  minScore : ShortOption (request.minScore.map float.display)
  maxGap : ShortOption (request.maxGap.map float.display)
  projectFits : ShortOption project
  frame : frameLength float request project cwd ≤ maxRequestBytes

/-- The arguments of a request that is sent, with the text of its project. -/
def sentArguments (request : DirectRequest F) (mode : List Text)
    (project : Option Text) : List Text :=
  mode ++ flagArgument "--json" request.json ++
    flagArgument "--full" request.full ++
    flagArgument "--no-gate" request.noGate ++
    flagArgument "--explain" request.explain ++
    valueArgument "-k" (countValue request) ++
    valueArgument "--min-score" (request.minScore.map float.display) ++
    valueArgument "--max-gap" (request.maxGap.map float.display) ++
    valueArgument "--project" project ++ valueArgument "--" request.query

/-- The typed operation of a request that is sent. -/
def sentOperation (request : DirectRequest F) (kind : OperationKind)
    (project : Option Text) : ServiceOperation where
  kind
  query := request.query.getD []
  k := Text.ofNat request.k
  json := request.json
  full := request.full
  noGate := request.noGate
  explain := request.explain
  minScore := request.minScore.map float.display
  maxGap := request.maxGap.map float.display
  project

theorem valueArgument_count (request : DirectRequest F) :
    valueArgument "-k".toList (countValue request) =
      if request.k = 5 then [] else ["-k".toList, request.requestedK] := by
  unfold countValue
  split <;> rfl

variable {float} {request : DirectRequest F} {layout : RuntimeLayout}
  {mode : List Text} {kind : OperationKind} {project : Option Text} {cwd : Text}

theorem requestArgv_eq (hmode : operationArgument request.operation = some mode)
    (hproject : projectText request.project = some project) :
    requestArgv float request = some (sentArguments float request mode project) := by
  simp only [requestArgv, hmode, hproject, Option.bind_eq_bind, Option.bind_some,
    ← valueArgument_count]
  rfl

theorem serviceOperation_eq (hkind : operationKind request.operation = some kind)
    (hproject : projectText request.project = some project) :
    serviceOperation float request = some (sentOperation float request kind project) := by
  simp only [serviceOperation, hkind, hproject, Option.bind_eq_bind,
    Option.bind_some]
  rfl

/-- A request is built when its operation is sent at all and its project is a
text. -/
theorem buildRequest_inv {message : Request} (hcwd : layout.cwd.toStr = some cwd)
    (h : buildRequest float request layout = .ok message) :
    ∃ kind mode project, operationKind request.operation = some kind ∧
      operationArgument request.operation = some mode ∧
      projectText request.project = some project ∧
      message = ⟨sentOperation float request kind project,
        sentArguments float request mode project, cwd⟩ := by
  obtain ⟨hoperation, hargv⟩ := buildRequest_eq_ok h
  obtain ⟨kind, hkind, hrest⟩ := Option.bind_eq_some_iff.1 hoperation
  obtain ⟨project, hproject, _⟩ := Option.bind_eq_some_iff.1 hrest
  obtain ⟨mode, hmode, _⟩ := Option.bind_eq_some_iff.1 hargv
  refine ⟨kind, mode, project, hkind, hmode, hproject, ?_⟩
  unfold buildRequest at h
  rw [serviceOperation_eq hkind hproject, requestArgv_eq hmode hproject, hcwd] at h
  exact (Except.ok.inj h).symm

theorem buildRequest_of_parts (hcwd : layout.cwd.toStr = some cwd)
    (hkind : operationKind request.operation = some kind)
    (hmode : operationArgument request.operation = some mode)
    (hproject : projectText request.project = some project) :
    buildRequest float request layout =
      .ok ⟨sentOperation float request kind project,
        sentArguments float request mode project, cwd⟩ := by
  unfold buildRequest
  rw [serviceOperation_eq hkind hproject, requestArgv_eq hmode hproject, hcwd]

/-- What the flag of an operation adds to a request. -/
theorem operationArgument_length
    (hmode : operationArgument request.operation = some mode) :
    argvLength mode = modeLength request.operation ∧ mode.length ≤ 1 ∧
      ShortArguments mode := by
  cases hoperation : request.operation
  all_goals
    rw [hoperation] at hmode
    cases hmode
  case search =>
    exact ⟨rfl, Nat.zero_le _, fun _ hmem => absurd hmem List.not_mem_nil⟩
  all_goals
    refine ⟨by decide, Nat.le_refl 1, ?_⟩
    intro argument hmem
    obtain rfl := List.mem_singleton.1 hmem
    decide

theorem operationKind_length (hkind : operationKind request.operation = some kind) :
    escapedLength kind.asStr = kindLength request.operation := by
  cases hoperation : request.operation
  all_goals
    rw [hoperation] at hkind
    cases hkind
  all_goals decide

theorem argvLength_sent (hmode : argvLength mode = modeLength request.operation) :
    argvLength (sentArguments float request mode project) =
      argumentsLength float request project := by
  simp only [sentArguments, argumentsLength, argvLength_append, argvLength_flag,
    argvLength_value, hmode]

theorem operationLength_sent
    (hkind : escapedLength kind.asStr = kindLength request.operation) :
    operationLength (sentOperation float request kind project) =
      typedLength float request project := by
  simp only [operationLength, sentOperation, typedLength, hkind]

theorem flagArgument_length_le (flag : Text) (selected : Bool) :
    (flagArgument flag selected).length ≤ 1 := by
  cases selected <;> simp [flagArgument]

theorem valueArgument_length_le (flag : Text) (value : Option Text) :
    (valueArgument flag value).length ≤ 2 := by
  cases value <;> simp [valueArgument]

/-- There are never too many arguments. -/
theorem sentArguments_length_le (hmode : mode.length ≤ 1) :
    (sentArguments float request mode project).length ≤ maxArguments := by
  have hjson := flagArgument_length_le "--json" request.json
  have hfull := flagArgument_length_le "--full" request.full
  have hgate := flagArgument_length_le "--no-gate" request.noGate
  have hexplain := flagArgument_length_le "--explain" request.explain
  have hcount := valueArgument_length_le "-k" (countValue request)
  have hmin := valueArgument_length_le "--min-score"
    (request.minScore.map float.display)
  have hmax := valueArgument_length_le "--max-gap"
    (request.maxGap.map float.display)
  have hproject := valueArgument_length_le "--project" project
  have hquery := valueArgument_length_le "--" request.query
  have hlimit : maxArguments = 256 := rfl
  simp only [sentArguments, List.length_append]
  omega

/-- The arguments are as short as the values among them. -/
theorem shortArguments_sent (hmode : ShortArguments mode) :
    ShortArguments (sentArguments float request mode project) ↔
      ShortOption (countValue request) ∧
        ShortOption (request.minScore.map float.display) ∧
        ShortOption (request.maxGap.map float.display) ∧
        ShortOption project ∧ ShortOption request.query := by
  have hjson : ShortArguments (flagArgument "--json" request.json) :=
    shortArguments_flag (by decide) _
  have hfull : ShortArguments (flagArgument "--full" request.full) :=
    shortArguments_flag (by decide) _
  have hgate : ShortArguments (flagArgument "--no-gate" request.noGate) :=
    shortArguments_flag (by decide) _
  have hexplain : ShortArguments (flagArgument "--explain" request.explain) :=
    shortArguments_flag (by decide) _
  simp only [sentArguments, shortArguments_append, hmode, hjson, hfull, hgate,
    hexplain, true_and, shortArguments_value
      (show Text.byteLength "-k".toList ≤ maxArgumentBytes by decide),
    shortArguments_value
      (show Text.byteLength "--min-score".toList ≤ maxArgumentBytes by decide),
    shortArguments_value
      (show Text.byteLength "--max-gap".toList ≤ maxArgumentBytes by decide),
    shortArguments_value
      (show Text.byteLength "--project".toList ≤ maxArgumentBytes by decide),
    shortArguments_value
      (show Text.byteLength "--".toList ≤ maxArgumentBytes by decide), and_assoc]

theorem validateRequest_iff (message : Request) :
    validateRequest message = .ok () ↔
      message.argv.length ≤ maxArguments ∧ ShortArguments message.argv ∧
        message.cwd.head? = some '/' := by
  have hshort : (message.argv.any fun argument =>
      argument.byteLength > maxArgumentBytes) = true ↔
      ¬ ShortArguments message.argv := by
    simp [ShortArguments, List.any_eq_true]
  unfold validateRequest
  by_cases hcount : message.argv.length > maxArguments
  · rw [if_pos hcount]
    exact iff_of_false (by simp) (fun h => absurd h.1 (Nat.not_le.2 hcount))
  rw [if_neg hcount]
  by_cases hlong : ShortArguments message.argv
  · rw [if_neg (fun h => hshort.1 h hlong)]
    by_cases habsolute : message.cwd.head? = some '/'
    · rw [if_neg (not_not.2 habsolute)]
      exact iff_of_true rfl ⟨Nat.not_lt.1 hcount, hlong, habsolute⟩
    · rw [if_pos habsolute]
      exact iff_of_false (by simp) (fun h => habsolute h.2.2)
  · rw [if_pos (hshort.2 hlong)]
    exact iff_of_false (by simp) (fun h => hlong h.2.1)

/-- The length of the frame that a request is sent in. -/
theorem byteLength_sent (hkind : operationKind request.operation = some kind)
    (hmode : operationArgument request.operation = some mode) :
    (Json.obj (requestWire ⟨sentOperation float request kind project,
      sentArguments float request mode project, cwd⟩)).render.byteLength =
      frameLength float request project cwd := by
  rw [byteLength_request]
  dsimp only
  rw [operationLength_sent (operationKind_length hkind),
    argvLength_sent (operationArgument_length hmode).1]
  rfl

/-- The request is built, encoded within its limit, and accepted by the decoder. -/
def ServiceTakes (float : Float64 F) (scan : Text → Json.Scan)
    (request : DirectRequest F) (layout : RuntimeLayout) : Prop :=
  ∃ message body, buildRequest float request layout = .ok message ∧
    encode (.request message) = .ok body ∧
    decodeRequest scan body = .ok (.request message)

theorem operationKind_of_sent (h : request.operation ≠ .write) :
    ∃ kind mode, operationKind request.operation = some kind ∧
      operationArgument request.operation = some mode := by
  cases hoperation : request.operation with
  | write => exact absurd hoperation h
  | _ => exact ⟨_, _, rfl, rfl⟩

theorem not_write_of_kind (h : operationKind request.operation = some kind) :
    request.operation ≠ .write := by
  intro hwrite
  rw [hwrite] at h
  cases h

variable {scan : Text → Json.Scan}

/-- A query that passes the client's own check is taken by the service exactly
when the other arguments are short and everything together fits a frame. -/
theorem serviceTakes_iff
    (hquery : ShortOption request.query) (hcwd : layout.cwd.toStr = some cwd)
    (hscan : ∀ message, buildRequest float request layout = .ok message →
      ReadBack scan (.request message)) :
    ServiceTakes float scan request layout ↔
      ∃ project, FitsService float request project cwd := by
  constructor
  · rintro ⟨message, body, hbuild, hencode, _⟩
    obtain ⟨kind, mode, project, hkind, hmode, hproject, rfl⟩ :=
      buildRequest_inv hcwd hbuild
    obtain ⟨hvalid, hbody, hsize⟩ := encode_eq_ok hencode
    obtain ⟨_, hshort, habsolute⟩ := (validateRequest_iff _).1 hvalid
    obtain ⟨hcount, hmin, hmax, htext, _⟩ :=
      (shortArguments_sent (operationArgument_length hmode).2.2).1 hshort
    have hlength : body.length = frameLength float request project cwd := by
      rw [hbody]
      exact byteLength_sent hkind hmode
    exact ⟨project, not_write_of_kind hkind, hproject, habsolute, hcount, hmin,
      hmax, htext, hlength ▸ hsize⟩
  · rintro ⟨project, hfits⟩
    obtain ⟨kind, mode, hkind, hmode⟩ := operationKind_of_sent hfits.sent
    have hbuild : buildRequest float request layout = _ :=
      buildRequest_of_parts hcwd hkind hmode hfits.text
    have hargv := (shortArguments_sent (operationArgument_length hmode).2.2).2
      ⟨hfits.count, hfits.minScore, hfits.maxGap, hfits.projectFits, hquery⟩
    have hvalid : (Message.request ⟨sentOperation float request kind project,
        sentArguments float request mode project, cwd⟩).validate = .ok () :=
      (validateRequest_iff _).2 ⟨sentArguments_length_le
        (operationArgument_length hmode).2.1, hargv, hfits.absolute⟩
    have hencode := encode_of_short hvalid
      ((byteLength_sent hkind hmode).trans_le hfits.frame)
    have hraw := @decodeObject_encode scan (.request _) _ trivial (hscan _ hbuild) hencode
    have hbounded : (request.query.getD []).byteLength ≤ maxArgumentBytes := by
      cases hq : request.query with
      | none => exact Nat.zero_le _
      | some query => exact hquery query hq
    exact ⟨_, _, hbuild, hencode, (decode_of_raw hraw hvalid).2 hbounded⟩

end Requests

namespace RequestFrameWitness

open ServicePathWitness

/-- The options of a command line without any. -/
def plain : CliArgs Unit where
  query := []
  k := none
  version := false
  json := false
  full := false
  index := false
  write := false
  stats := false
  project := none
  all := false
  projects := false
  noGate := false
  explain := false
  minScore := none
  maxGap := none
  gc := false

/-- `yams -- QUERY` is a search for any query that is not blank. -/
theorem parse_plain {query : Text} (hdash : query ≠ "--".toList)
    (hblank : (Text.trimMatches isPythonStringWhitespace query).isEmpty = false) :
    parseDirectRequest float clap Char.isDigit (fun _ => []) (raw query)
      = .request (parsed query) := by
  have hargs : clap (CountArgument.fromStr Char.isDigit)
      (FloatArgument.fromStr Char.isDigit float)
      (normalizeArguments Char.isDigit (raw query)).arguments =
      .ok { plain with query := [query] } := by
    have hquery : OsString.utf8 query ≠ OsString.utf8 "--".toList := by
      intro h
      exact hdash (OsString.utf8.inj h)
    change Except.ok { plain with
      query := ([OsString.utf8 "--".toList, .utf8 query].filter
        fun a => a ≠ OsString.utf8 "--".toList).filterMap OsString.toStr } = _
    rw [List.filter_cons_of_neg (by simp), List.filter_cons_of_pos (by simpa)]
    rfl
  have hquery : validateQuery { plain with query := [query] } false = none := by
    have hjoin : Text.join " ".toList [query] = query := rfl
    have hsearch : operation { plain with query := [query] } = .search := rfl
    unfold validateQuery
    dsimp only
    rw [hsearch, hjoin, hblank, if_neg (fun h => absurd h.1 (by decide)),
      if_neg (fun h => absurd h.1 (by decide)),
      if_neg (fun h => Bool.false_ne_true h.2),
      if_neg (fun h => Bool.false_ne_true h.2)]
  unfold parseDirectRequest
  dsimp only
  rw [hargs]
  have hvalidate : validate float { plain with query := [query] } false =
      .request (parsed query) := by
    have hvalues : validateValues float { plain with query := [query] } false = none := rfl
    have hselected : validateSelected { plain with query := [query] } = none := rfl
    have hoptions : validateOptions { plain with query := [query] } false = none := rfl
    rw [validate, hvalues, hselected, hoptions, hquery]
    rfl
  exact hvalidate

theorem prepare_plain (query : Text) :
    prepareResolved disk (fun _ => []) resolveLayout (parsed query) inputs
      = .ok (request query, layout) := by
  rfl

/-- A query of control characters, each of which is written as six. -/
def controls : Text := List.replicate 6000 (Char.ofNat 1)

theorem controls_short : ShortOption (request controls).query := by
  intro query hquery
  obtain rfl := Option.some.inj hquery
  rw [controls, byteLength_replicate]
  decide

theorem controls_not_blank :
    (Text.trimMatches isPythonStringWhitespace controls).isEmpty = false := by
  have hstart : controls.dropWhile isPythonStringWhitespace = controls :=
    List.dropWhile_cons_of_neg (by decide)
  have hend : controls.reverse = controls := List.reverse_replicate
  rw [Text.trimMatches, hstart, hend, hstart, hend]
  rfl

/-- The query alone, written twice, is longer than a frame. -/
theorem frameLength_escaped {query : Text} (hescaped : escapedLength query = 36000)
    (project : Option Text) (cwd : Text) :
    ¬ frameLength float (request query) project cwd ≤ maxRequestBytes := by
  have hargument : valueLength "--".toList (request query).query =
      escapedLength "--".toList + escapedLength query + 6 := rfl
  have hoperation : escapedLength ((request query).query.getD []) =
      escapedLength query := rfl
  have hlimit : maxRequestBytes = 65536 := rfl
  simp only [frameLength, argumentsLength, typedLength]
  omega

theorem controls_frame (project : Option Text) (cwd : Text) :
    ¬ frameLength float (request controls) project cwd ≤ maxRequestBytes :=
  frameLength_escaped (escapedLength_replicate _ _) project cwd

theorem buildRequest_plain (query : Text) :
    buildRequest float (request query) layout = .ok (message query) := by
  have hcount : Text.ofNat 5 = "5".toList := by decide
  calc buildRequest float (request query) layout
      = .ok { message query with
          operation := { (message query).operation with k := Text.ofNat 5 } } := rfl
    _ = .ok (message query) := by
        rw [hcount]
        rfl

theorem readBack_plain (query : Text) : ∀ built,
    buildRequest float (request query) layout = .ok built →
      ReadBack (scan query) (.request built) := by
  intro built hbuilt
  rw [buildRequest_plain] at hbuilt
  obtain rfl := Except.ok.inj hbuilt
  rfl

/-- `yams -- QUERY` with six thousand control characters: the client connects,
and the request does not fit a frame. -/
theorem controls_not_taken :
    parseDirectRequest float clap Char.isDigit (fun _ => []) (raw controls)
        = .request (parsed controls) ∧
      prepareResolved disk (fun _ => []) resolveLayout (parsed controls) inputs
        = .ok (request controls, layout) ∧
      ShortOption (request controls).query ∧ layout.cwd.toStr = some "/p" ∧
      ¬ ServiceTakes float (scan controls) (request controls) layout := by
  have hdash : controls ≠ "--".toList := by
    intro h
    exact absurd (congrArg List.head? h) (by decide)
  refine ⟨parse_plain hdash controls_not_blank, prepare_plain _, controls_short,
    rfl, ?_⟩
  rintro ⟨built, body, hbuild, hencode, _⟩
  obtain ⟨kind, mode, project, hkind, hmode, _, rfl⟩ :=
    buildRequest_inv (show layout.cwd.toStr = some "/p".toList from rfl) hbuild
  obtain ⟨_, hbody, hsize⟩ := encode_eq_ok hencode
  apply controls_frame project "/p"
  rw [hbody] at hsize
  exact (byteLength_sent hkind hmode).ge.trans hsize

/-- `yams -- x` is taken. -/
theorem serviceTakes_iff_plain :
    ServiceTakes float (scan "x") (request "x") layout ↔
      ∃ project, FitsService float (request "x") project "/p" :=
  serviceTakes_iff (by rintro _ ⟨⟩; decide) rfl (readBack_plain "x")

end RequestFrameWitness

end Yams
