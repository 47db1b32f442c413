/-
The command line as `parse_direct_request` reads it: argparse's spellings are
normalized for the option parser, and what the parser accepts is validated.
-/
import Yams.Arguments

namespace Yams

/-- What the option parser accepts. -/
structure CliArgs (F : Type) where
  query : List Text
  k : Option CountArgument
  version : Bool
  json : Bool
  full : Bool
  index : Bool
  write : Bool
  stats : Bool
  project : Option OsString
  all : Bool
  projects : Bool
  noGate : Bool
  explain : Bool
  minScore : Option F
  maxGap : Option F
  gc : Bool
  deriving DecidableEq

inductive ClapErrorKind
  | displayHelp | valueValidation | tooManyValues | unknownArgument
  | invalidValue | other
  deriving DecidableEq

/-- A refusal of the option parser, with the context that is asked of it. -/
structure ClapError where
  kind : ClapErrorKind
  argument : Option Text
  value : Option Text
  source : Option Text
  rendered : Text

/-- The option parser, given the value parsers of `-k` and of the two floats. -/
abbrev Clap (F : Type) :=
  (Text → Except Text CountArgument) → (Text → Except Text F) →
    List OsString → Except ClapError (CliArgs F)

def longOptions : List Text :=
  ["--help".toList, "--version".toList, "--json".toList, "--full".toList,
    "--index".toList, "--write".toList, "--stats".toList, "--project".toList,
    "--all".toList, "--projects".toList, "--no-gate".toList,
    "--explain".toList, "--min-score".toList, "--max-gap".toList,
    "--gc".toList]

/-- Argument texts and what they stand for. -/
abbrev TextMap := List (Text × Text)

def placeholder (discriminator : Nat) : Text :=
  Char.ofNat 0xe000 :: "yams-argument-".toList ++ Text.ofNat discriminator ++
    [Char.ofNat 0xe001]

/-- The state of `normalize_arguments`. -/
structure NormalizedArguments where
  arguments : List OsString
  positionalRewrites : TextMap
  unknownOptions : TextMap
  pendingError : Option Text
  reservedArguments : List OsString
  placeholderDiscriminator : Nat

namespace NormalizedArguments

def push (st : NormalizedArguments) (argument : OsString) :
    NormalizedArguments :=
  { st with arguments := st.arguments ++ [argument] }

def pushText (st : NormalizedArguments) (text : Text) : NormalizedArguments :=
  st.push (.utf8 text)

def refuse (st : NormalizedArguments) (message : Text) : NormalizedArguments :=
  { st with pendingError := some message }

/-- The first discriminator from `discriminator` on that is not reserved; one of
`fuel + 1` is free when `fuel` arguments are reserved. -/
def freeDiscriminator (reserved : List OsString) : Nat → Nat → Nat
  | 0, discriminator => discriminator
  | fuel + 1, discriminator =>
      if OsString.utf8 (placeholder discriminator) ∈ reserved then
        freeDiscriminator reserved fuel (discriminator + 1)
      else discriminator

/-- `fresh_placeholder`. -/
def freshPlaceholder (st : NormalizedArguments) : Text × NormalizedArguments :=
  let discriminator := freeDiscriminator st.reservedArguments
    st.reservedArguments.length st.placeholderDiscriminator
  let fresh := placeholder discriminator
  (fresh, { st with
    reservedArguments := .utf8 fresh :: st.reservedArguments
    placeholderDiscriminator := discriminator + 1 })

/-- Replace an unknown option by a placeholder. -/
def pushUnknown (st : NormalizedArguments) (text : Text) :
    NormalizedArguments :=
  let (fresh, st) := st.freshPlaceholder
  { st with unknownOptions := (fresh, text) :: st.unknownOptions }.pushText fresh

/-- Replace a positional that looks like an option by a placeholder. -/
def pushPositional (st : NormalizedArguments) (text : Text) :
    NormalizedArguments :=
  let (fresh, st) := st.freshPlaceholder
  { st with
    positionalRewrites := (fresh, text) :: st.positionalRewrites }.pushText fresh

end NormalizedArguments

section

variable (isDecimalNumber : Char → Bool)

def isPythonNegativeNumber (argument : Text) : Bool :=
  let digits (text : Text) : Bool :=
    text.all fun c => (decimalDigit isDecimalNumber c).isSome
  match argument with
  | '-' :: unsigned =>
      if ¬ unsigned.isEmpty ∧ digits unsigned then true
      else match Text.splitOnce '.' unsigned with
        | none => false
        | some (integer, fraction) =>
            ¬ fraction.isEmpty ∧ '.' ∉ fraction ∧ digits integer ∧
              digits fraction
  | _ => false

def isArgparseOptionLooking (argument : Text) : Bool :=
  argument ≠ "-".toList ∧ "-".toList.isPrefixOf argument ∧
    ("-h".toList.isPrefixOf argument ∨ "-k".toList.isPrefixOf argument ∨
      (' ' ∉ argument ∧ ¬ isPythonNegativeNumber isDecimalNumber argument))

/-- How one argument before `--` is understood. -/
inductive Spelling
  | canonical (text : Text)
  | unknown
  | positional
  | ambiguous (message : Text)

/-- A long option, abbreviated or not, with or without a value. -/
def spellLong (text : Text) : Spelling :=
  let (name, value) := match Text.splitOnce '=' text with
    | some (name, value) => (name, some value)
    | none => (text, none)
  let withValue (resolved : Text) : Spelling := .canonical (match value with
    | none => resolved
    | some value => resolved ++ '=' :: value)
  if name ∈ longOptions then withValue name
  else match longOptions.filter fun option => name.isPrefixOf option with
    | [] => .unknown
    | [resolved] => withValue resolved
    | several => .ambiguous ("ambiguous option: ".toList ++ name ++
        " could match ".toList ++ Text.join ", ".toList several)

def spell (text : Text) : Spelling :=
  if "--".toList.isPrefixOf text then spellLong text
  else if "-k".toList.isPrefixOf text then .canonical text
  else if isArgparseOptionLooking isDecimalNumber text then .unknown
  else if text = "index".toList then .canonical "--index".toList
  else if text ≠ "-".toList ∧ "-".toList.isPrefixOf text ∧
      (isPythonNegativeNumber isDecimalNumber text ∨ ' ' ∈ text) then .positional
  else .canonical text

/-- An argument that starts with `-h`: nothing after it is read. -/
def normalizeHelp (text : Text) (next : Option OsString)
    (st : NormalizedArguments) : NormalizedArguments :=
  let tail := text.drop 2
  let ignored (explicit : Text) : Text :=
    "argument -h/--help: ignored explicit argument ".toList ++
      Char.ofNat 39 :: explicit ++ [Char.ofNat 39]
  match tail with
  | [] => st.pushText text
  | '=' :: explicit => st.refuse (ignored explicit)
  | '-' :: _ => st.refuse (ignored tail)
  | _ =>
      if tail = "k".toList ∧ next.all fun value =>
          value.toStr.any (isArgparseOptionLooking isDecimalNumber) then
        (st.pushText "-k".toList).pushText "--json".toList
      else st.pushText "-h".toList

/-- The options whose value is the next argument. -/
def needsSeparatedValue (canonical : Text) : Bool :=
  canonical = "-k".toList ∨ canonical = "--project".toList ∨
    canonical = "--min-score".toList ∨ canonical = "--max-gap".toList

/-- The loop of `normalize_arguments` over the arguments still to be read. -/
def normalizeFrom : List OsString → NormalizedArguments → NormalizedArguments
  | [], st => st
  | .other bytes :: rest, st => normalizeFrom rest (st.push (.other bytes))
  | .utf8 text :: rest, st =>
      -- everything after `--` is taken as it is
      if text = "--".toList then
        { st with arguments := st.arguments ++ .utf8 text :: rest }
      else if "-h".toList.isPrefixOf text then
        normalizeHelp isDecimalNumber text rest.head? st
      else match spell isDecimalNumber text with
        | .unknown => normalizeFrom rest (st.pushUnknown text)
        | .positional => normalizeFrom rest (st.pushPositional text)
        | .ambiguous message => st.refuse message
        | .canonical canonical =>
            if canonical = "--help".toList ∨ canonical = "--version".toList then
              st.pushText canonical
            else if ¬ needsSeparatedValue canonical then
              normalizeFrom rest (st.pushText canonical)
            else match rest with
              | [] => st.pushText canonical
              | .other bytes :: rest =>
                  normalizeFrom rest ((st.pushText canonical).push (.other bytes))
              | .utf8 value :: rest =>
                  if "-".toList.isPrefixOf value ∧
                      ¬ isArgparseOptionLooking isDecimalNumber value then
                    normalizeFrom rest (st.pushText (canonical ++ '=' :: value))
                  else if isArgparseOptionLooking isDecimalNumber value then
                    (st.pushText canonical).pushText "--json".toList
                  else
                    normalizeFrom rest ((st.pushText canonical).pushText value)

def normalizeArguments (raw : List OsString) : NormalizedArguments :=
  normalizeFrom isDecimalNumber (raw.drop 1)
    ⟨[.utf8 "yams".toList], [], [], none, raw, 0⟩

end

/-- `Some(needs_value)` for an argument that is an option. -/
def recognizedOptionNeedsValue (argument : Text) : Option Bool :=
  if argument = "-k".toList then some true
  else if "-k".toList.isPrefixOf argument then some false
  else
    let (name, attachedValue) := match Text.splitOnce '=' argument with
      | some (name, _) => (name, true)
      | none => (argument, false)
    if name ∈ longOptions then
      some (¬ attachedValue ∧ (name = "--project".toList ∨
        name = "--min-score".toList ∨ name = "--max-gap".toList))
    else none

section

-- The lossy decoding of bytes that are not UTF-8.
variable (toStringLossy : Bytes → Text)

/-- The argument as the caller wrote it. -/
def originalQueryArgument (normalized : NormalizedArguments)
    (argument : OsString) : Text :=
  let rendered := match argument with
    | .utf8 text => text
    | .other bytes => toStringLossy bytes
  match normalized.positionalRewrites.lookup rendered with
  | some original => original
  | none => (normalized.unknownOptions.lookup rendered).getD rendered

/-- Where the scan for an interrupted query is. -/
structure QueryScan where
  options : Bool
  optionNeedsValue : Bool
  queryStarted : Bool
  queryInterrupted : Bool
  unexpected : List Text

def QueryScan.step (normalized : NormalizedArguments) (st : QueryScan)
    (argument : OsString) : QueryScan :=
  let expect (text : Text) : QueryScan :=
    { st with unexpected := st.unexpected ++ [text] }
  if ¬ st.options then
    if st.queryInterrupted then
      expect (originalQueryArgument toStringLossy normalized argument)
    else st
  else if st.optionNeedsValue then { st with optionNeedsValue := false }
  else match argument with
    | .other _ => { st with queryStarted := true }
    | .utf8 text =>
        match normalized.unknownOptions.lookup text with
        | some original =>
            { expect original with
              queryInterrupted := st.queryInterrupted ∨ st.queryStarted }
        | none =>
            if text = "--".toList then
              if st.queryInterrupted then { expect text with options := false }
              else { st with options := false }
            else match recognizedOptionNeedsValue text with
              | some needsValue =>
                  { st with
                    queryInterrupted := st.queryInterrupted ∨ st.queryStarted
                    optionNeedsValue := needsValue }
              | none =>
                  if st.queryInterrupted then
                    expect (originalQueryArgument toStringLossy normalized
                      argument)
                  else { st with queryStarted := true }

def interruptedQueryMessage (normalized : NormalizedArguments) : Option Text :=
  let unexpected := ((normalized.arguments.drop 1).foldl
    (QueryScan.step toStringLossy normalized)
    ⟨true, false, false, false, []⟩).unexpected
  if unexpected.isEmpty then none
  else some ("unrecognized arguments: ".toList ++
    Text.join " ".toList unexpected)

end

/-- Whether the caller asked for the write operation, for reporting errors. -/
def selectsWrite (raw : List OsString) : Bool :=
  ((raw.drop 1).takeWhile fun argument => argument ≠ .utf8 "--".toList).any
    fun argument => argument.toStr.any fun text =>
      let name := match Text.splitOnce '=' text with
        | some (name, _) => name
        | none => text
      name.byteLength > 2 ∧ name.isPrefixOf "--write".toList

def quoted (text : Text) : Text := Char.ofNat 39 :: text ++ [Char.ofNat 39]

/-- The text before the last occurrence of a separator. -/
def beforeLast (separator : Text) : Text → Option Text
  | [] => none
  | c :: text =>
      match beforeLast separator text with
      | some before => some (c :: before)
      | none => if separator.isPrefixOf (c :: text) then some [] else none

/-- The body of a rendered error, without the generated suffix. -/
def renderedMessage (rendered : Text) : Text :=
  let body := (Text.stripPrefix "error: ".toList rendered).getD rendered
  let message := match beforeLast "\n\nUsage: yams ".toList body with
    | some message => message
    | none => (beforeLast "\n\nFor more information".toList body).getD body
  (message.reverse.dropWhile fun c => c = '\n').reverse

def clapMessage (error : ClapError) (raw : List OsString) : Text :=
  match error.kind, error.argument, error.value, error.source with
  | .valueValidation, some argument, some value, some source =>
      "invalid value ".toList ++ quoted value ++ " for ".toList ++
        quoted argument ++ ": ".toList ++ source
  | .tooManyValues, some argument, some value, _ =>
      "unexpected value ".toList ++ quoted value ++ " for ".toList ++
        quoted argument ++ " found; no more were expected".toList
  | .unknownArgument, some argument, _, _ =>
      let rawArgument := (raw.drop 1).findSome? fun candidate =>
        candidate.toStr.filter fun text => argument.isPrefixOf text
      "unexpected argument ".toList ++ quoted (rawArgument.getD argument) ++
        " found".toList
  | .invalidValue, some argument, some value, _ =>
      if value.isEmpty then
        "a value is required for ".toList ++ quoted argument ++
          " but none was supplied".toList
      else
        "invalid value ".toList ++ quoted value ++ " for ".toList ++
          quoted argument
  | _, _, _, _ => renderedMessage error.rendered

/-! What an accepted command line asks for. -/

section

variable {F : Type}

/-- The options of a list that are set. -/
def selectedNames (options : List (Text × Bool)) : List Text :=
  (options.filter fun option => option.2).map Prod.fst

def selectedOperations (args : CliArgs F) : List Text :=
  selectedNames [("--index", args.index), ("--write", args.write),
    ("--stats", args.stats), ("--all", args.all), ("--projects", args.projects),
    ("--gc", args.gc)]

def operation (args : CliArgs F) : DirectOperation :=
  if args.index then .index
  else if args.write then .write
  else if args.stats then .stats
  else if args.all then .all
  else if args.projects then .projects
  else if args.gc then .gc
  else .search

def operationFlag : DirectOperation → Text
  | .search => "search"
  | .all => "all"
  | .write => "write"
  | .index => "index"
  | .stats => "stats"
  | .projects => "projects"
  | .gc => "gc"

def isSearch : DirectOperation → Bool
  | .search | .all => true
  | _ => false

def usage (message : Text) (writes : Bool) : DirectCompletion :=
  .usage message writes "fix the invocation and retry".toList

variable (float : Float64 F)

def minScoreMessage (value : F) : Text :=
  ("--min-score must be within [-1.0, 1.0], the range of a cosine " ++
    "similarity; got ").toList ++ float.pythonRepr value

def noGateMessage : Text :=
  ("--min-score/--max-gap do nothing with --no-gate: the gate does not run, so " ++
    "they can neither filter nor annotate. Add --explain to see what they would " ++
    "have done, or drop --no-gate to apply them.").toList

def explainAllMessage : Text :=
  ("--explain covers one project at a time: every project has its own gate " ++
    "baseline, so one verdict cannot describe them. Drop --all — with " ++
    "--project PATH to pick a different one.").toList

/-- The first of the search-only options that is set. -/
def searchOnly (args : CliArgs F) : Option Text :=
  (selectedNames [("--no-gate", args.noGate), ("--explain", args.explain),
    ("--min-score", args.minScore.isSome),
    ("--max-gap", args.maxGap.isSome)]).head?

/-- Out-of-range values and combinations that mean nothing. -/
def validateValues (args : CliArgs F) (writes : Bool) :
    Option DirectCompletion :=
  if let some value := args.minScore.filter fun value =>
      ¬ float.isFinite value ∨ ¬ float.inCosineRange value then
    some (usage (minScoreMessage float value) writes)
  else if let some value := args.maxGap.filter fun value =>
      ¬ float.isFinite value ∨ float.isNegative value then
    some (usage ("--max-gap must be 0.0 or greater; got ".toList ++
      float.pythonRepr value) writes)
  else if let some value := args.k.filter fun value => value.lessThanOne then
    some (usage ("-k must be 1 or greater; got ".toList ++ value.canonical)
      writes)
  else if args.noGate ∧ ¬ args.explain ∧
      (args.minScore.isSome ∨ args.maxGap.isSome) then
    some (usage noGateMessage writes)
  else if args.explain ∧ args.all then some (usage explainAllMessage writes)
  else none

/-- Operations that exclude each other. -/
def validateSelected (args : CliArgs F) : Option DirectCompletion :=
  let selected := selectedOperations args
  if selected.length ≤ 1 then none
  else if args.write then
    let conflicts := selectedNames [("--index", args.index),
      ("--stats", args.stats), ("--all", args.all),
      ("--projects", args.projects), ("--gc", args.gc)]
    some (.usage ("--write cannot be combined with ".toList ++
      Text.join ", ".toList conflicts) true "run the write on its own".toList)
  else
    some (usage ("choose exactly one operation; cannot combine ".toList ++
      Text.join ", ".toList selected) false)

/-- Options that the selected operation does not take. -/
def validateOptions (args : CliArgs F) (writes : Bool) :
    Option DirectCompletion :=
  let operation := operation args
  if args.project.isSome ∧
      (operation = .all ∨ operation = .projects ∨ operation = .gc) then
    some (usage ("--project is not valid with --".toList ++
      operationFlag operation) writes)
  else if args.json ∧ operation = .write then
    some (usage "--json has no effect with --write".toList true)
  else if args.k.isSome ∧ ¬ isSearch operation then
    some (usage "-k is only valid with search".toList writes)
  else if args.full ∧ ¬ isSearch operation then
    some (usage "--full is only valid with search".toList writes)
  else match searchOnly args with
    | some name =>
        if isSearch operation then none
        else some (usage (name ++ " is only valid with search".toList) writes)
    | none => none

/-- A query where one is needed, and none elsewhere. -/
def validateQuery (args : CliArgs F) (writes : Bool) :
    Option DirectCompletion :=
  let operation := operation args
  let blank :=
    (Text.trimMatches isPythonStringWhitespace
      (Text.join " ".toList args.query)).isEmpty
  if ¬ isSearch operation ∧ ¬ args.query.isEmpty then
    some (usage ("--".toList ++ operationFlag operation ++
      " does not accept query text".toList) writes)
  else if operation = .all ∧ blank then
    some (usage "--all needs a query".toList writes)
  else if operation = .search ∧ args.query.isEmpty then
    some (.help .usage)
  else if operation = .search ∧ blank then
    some (usage "empty query: nothing to search for".toList writes)
  else none

/-- The request of a valid command line. -/
def CliArgs.request (args : CliArgs F) : DirectRequest F where
  operation := operation args
  project := args.project
  query :=
    if isSearch (operation args) then some (Text.join " ".toList args.query)
    else none
  k := match args.k with
    | some value => value.saturated
    | none => 5
  requestedK := match args.k with
    | some value => value.canonical
    | none => "5".toList
  json := args.json
  full := args.full
  noGate := args.noGate
  explain := args.explain
  minScore := args.minScore
  maxGap := args.maxGap

/-- `validate`: the first check that objects decides. -/
def validate (args : CliArgs F) (writes : Bool) : ParseOutcome F :=
  if args.version then .completion .version
  else match validateValues float args writes with
    | some completion => .completion completion
    | none =>
        match validateSelected args with
        | some completion => .completion completion
        | none =>
            match validateOptions args writes with
            | some completion => .completion completion
            | none =>
                match validateQuery args writes with
                | some completion => .completion completion
                | none => .request args.request

/-- The positionals as the caller wrote them. -/
def restorePositionals (normalized : NormalizedArguments) (args : CliArgs F) :
    CliArgs F :=
  { args with query := args.query.map fun query =>
      (normalized.positionalRewrites.lookup query).getD query }

variable (clap : Clap F) (isDecimalNumber : Char → Bool)
  (toStringLossy : Bytes → Text)

def parseDirectRequest (raw : List OsString) : ParseOutcome F :=
  let writes := selectsWrite raw
  let normalized := normalizeArguments isDecimalNumber raw
  match clap (CountArgument.fromStr isDecimalNumber)
      (FloatArgument.fromStr isDecimalNumber float) normalized.arguments with
  | .error error =>
      if error.kind = .displayHelp then
        .completion (.displayHelp error.rendered)
      else .completion (.parserUsage (clapMessage error raw) writes)
  | .ok args =>
      match normalized.pendingError with
      | some message => .completion (.parserUsage message writes)
      | none =>
          match interruptedQueryMessage toStringLossy normalized with
          | some message => .completion (.parserUsage message writes)
          | none => validate float (restorePositionals normalized args) writes

end

end Yams
