/-
A request that goes through the service is the request that would run directly:
the typed operation keeps every field, and the guard on the raw arguments
refuses exactly the query that spells the write flag.
-/
import Yams.Service
import Yams.MessageRoundtrip

namespace Yams

open Client

/-! Counts. -/

theorem isDigit_of_mem_ofNat {n : Nat} : ∀ c ∈ Text.ofNat n, c.isDigit = true :=
  fun _ hc => Nat.isDigit_of_mem_toDigits (by decide) (by decide) hc

theorem dropPlus_ofNat (n : Nat) : dropPlus (Text.ofNat n) = Text.ofNat n := by
  unfold dropPlus
  split
  · rename_i rest hplus
    have hdigit := isDigit_of_mem_ofNat (n := n) '+'
      (by rw [hplus]; exact List.mem_cons_self ..)
    exact absurd hdigit (by decide)
  · rfl

theorem parseUsize_ofNat {n : Nat} (h : n ≤ usizeMax) :
    parseUsize (Text.ofNat n) = some n := by
  have hall : (Text.ofNat n).all Char.isDigit = true :=
    List.all_eq_true.2 isDigit_of_mem_ofNat
  have hempty : (Text.ofNat n).isEmpty = false :=
    List.isEmpty_eq_false_iff.2 Nat.toDigits_ne_nil
  have hvalue : Nat.ofDigitChars 10 (Text.ofNat n) 0 = n :=
    Nat.ofDigitChars_ten_toDigits
  simp [parseUsize, dropPlus_ofNat, hempty, hall, hvalue, h]

theorem saturate_le (digits : List Nat) : saturate digits ≤ usizeMax := by
  have hfold : ∀ value ≤ usizeMax, digits.foldl (fun value digit =>
      if value * 10 + digit ≤ usizeMax then value * 10 + digit
      else usizeMax) value ≤ usizeMax := by
    induction digits with
    | nil => exact fun value hvalue => hvalue
    | cons digit digits ih =>
        intro value _
        apply ih
        dsimp only
        split
        · assumption
        · exact Nat.le_refl _
  exact hfold 0 (Nat.zero_le _)

theorem digitChar_ne_dash (n : Nat) : Nat.digitChar n ≠ '-' := by
  by_cases hn : n < 16
  · have hsmall : ∀ m < 16, Nat.digitChar m ≠ '-' := by decide
    exact hsmall n hn
  · have hstar : Nat.digitChar n = '*' := by
      unfold Nat.digitChar
      repeat rw [if_neg (by omega)]
    rw [hstar]
    decide

theorem map_digitChar_ne_write (digits : List Nat) :
    digits.map Nat.digitChar ≠ "--write".toList ∧
      '-' :: digits.map Nat.digitChar ≠ "--write".toList := by
  cases digits with
  | nil => exact ⟨by decide, by decide⟩
  | cons digit digits =>
      constructor
      · intro h
        exact digitChar_ne_dash digit (List.cons.inj h).1
      · intro h
        exact digitChar_ne_dash digit (List.cons.inj (List.cons.inj h).2).1

/-- A count fits the machine word, and its spelling is never that of the write
flag. -/
theorem countOf_bounds (negative : Bool) (digits : List Nat) :
    (countOf negative digits).saturated ≤ usizeMax ∧
      (countOf negative digits).canonical ≠ "--write".toList := by
  unfold countOf
  dsimp only
  split
  · exact ⟨Nat.zero_le _, by decide⟩
  split
  · exact ⟨Nat.zero_le _, (map_digitChar_ne_write _).2⟩
  · exact ⟨saturate_le _, (map_digitChar_ne_write _).1⟩

theorem parsePythonInt_bounds {isDecimalNumber : Char → Bool} {value : Text}
    {count : CountArgument}
    (h : parsePythonInt isDecimalNumber value = some count) :
    count.saturated ≤ usizeMax ∧ count.canonical ≠ "--write".toList := by
  unfold parsePythonInt at h
  dsimp only at h
  split at h
  · cases h
  · obtain ⟨digits, _, hcount⟩ := Option.map_eq_some_iff.1 h
    rw [← hcount]
    exact countOf_bounds _ digits

theorem fromStr_bounds {isDecimalNumber : Char → Bool} {value : Text}
    {count : CountArgument}
    (h : CountArgument.fromStr isDecimalNumber value = .ok count) :
    count.saturated ≤ usizeMax ∧ count.canonical ≠ "--write".toList := by
  unfold CountArgument.fromStr at h
  split at h
  · cases h
    exact parsePythonInt_bounds (by assumption)
  · cases h

/-! What an accepted request looks like. -/

section

variable {F : Type} {float : Float64 F}

/-- The option parser takes a count only from its value parser. -/
def CountsParsed (clap : Clap F) : Prop :=
  ∀ parseCount parseFloat arguments args,
    clap parseCount parseFloat arguments = .ok args →
      ∀ count, args.k = some count → ∃ text, parseCount text = .ok count

/-- What the command line guarantees of a request that it accepts. -/
structure Wellspelled (float : Float64 F) (request : DirectRequest F) : Prop where
  count : request.k ≤ usizeMax
  spelling : request.requestedK ≠ "--write".toList
  minScore : ∀ x, request.minScore = some x → float.isFinite x = true
  maxGap : ∀ x, request.maxGap = some x → float.isFinite x = true
  query : request.query ≠ some []
  project : selectsProject request.operation = false → request.project = none

theorem filter_eq_none {value : Option F} {p : F → Bool}
    (h : value.filter p = none) : ∀ x, value = some x → p x = false := by
  rintro x rfl
  simpa [Option.filter] using h

/-- A value that passes its check is finite. -/
theorem validateValues_eq_none {args : CliArgs F} {writes : Bool}
    (h : validateValues float args writes = none) :
    (∀ x, args.minScore = some x → float.isFinite x = true) ∧
      ∀ x, args.maxGap = some x → float.isFinite x = true := by
  unfold validateValues at h
  split at h
  · cases h
  · rename_i hminScore
    split at h
    · cases h
    · rename_i hmaxGap
      have hmin := filter_eq_none (Option.eq_none_iff_forall_ne_some.2 hminScore)
      have hmax := filter_eq_none (Option.eq_none_iff_forall_ne_some.2 hmaxGap)
      constructor
      · intro x hx
        have hx' := hmin x hx
        simp at hx'
        exact hx'.1
      · intro x hx
        have hx' := hmax x hx
        simp at hx'
        exact hx'.1

theorem trimMatches_nil (p : Char → Bool) : Text.trimMatches p [] = [] := rfl

/-- A query that passes its check is not empty. -/
theorem validateQuery_eq_none {args : CliArgs F} {writes : Bool}
    (h : validateQuery args writes = none) : args.request.query ≠ some [] := by
  intro hquery
  unfold CliArgs.request at hquery
  dsimp only at hquery
  split at hquery
  · rename_i hsearch
    have hjoin : Text.join " ".toList args.query = [] := Option.some.inj hquery
    unfold validateQuery at h
    dsimp only at h
    rw [hjoin, trimMatches_nil] at h
    split at h
    · cases h
    split at h
    · cases h
    split at h
    · cases h
    split at h
    · cases h
    · rename_i _ hall _ hblank
      cases hoperation : operation args <;>
        simp_all [isSearch]
  · cases hquery

theorem request_k (args : CliArgs F) :
    args.request.k = (args.k.map CountArgument.saturated).getD 5 := by
  cases hk : args.k <;> simp [CliArgs.request, hk]

theorem request_requestedK (args : CliArgs F) :
    args.request.requestedK = (args.k.map CountArgument.canonical).getD "5".toList := by
  cases hk : args.k <;> simp [CliArgs.request, hk]

/-- Only the operations on one project take one. -/
theorem validateOptions_eq_none {args : CliArgs F} {writes : Bool}
    (h : validateOptions args writes = none)
    (hall : selectsProject (operation args) = false) : args.project = none := by
  unfold validateOptions at h
  dsimp only at h
  split at h
  · cases h
  · rename_i hproject
    cases hargs : args.project with
    | none => rfl
    | some project =>
        exfalso
        apply hproject
        refine ⟨by rw [hargs]; rfl, ?_⟩
        cases hoperation : operation args <;>
          simp_all [selectsProject]

theorem validate_eq_request {args : CliArgs F} {writes : Bool}
    {request : DirectRequest F} (h : validate float args writes = .request request) :
    validateValues float args writes = none ∧
      validateOptions args writes = none ∧
      validateQuery args writes = none ∧ request = args.request := by
  unfold validate at h
  split at h
  · cases h
  split at h
  · cases h
  split at h
  · cases h
  split at h
  · cases h
  split at h
  · cases h
  · cases h
    exact ⟨by assumption, by assumption, by assumption, rfl⟩

variable {clap : Clap F} {isDecimalNumber : Char → Bool}
  {toStringLossy : Bytes → Text}

theorem wellspelled_of_parse {raw : List OsString} {request : DirectRequest F}
    (hclap : CountsParsed clap)
    (h : parseDirectRequest float clap isDecimalNumber toStringLossy raw
      = .request request) : Wellspelled float request := by
  unfold parseDirectRequest at h
  dsimp only at h
  split at h
  · split at h <;> cases h
  · rename_i args hargs
    split at h
    · cases h
    split at h
    · cases h
    · obtain ⟨hvalues, hoptions, hquery, rfl⟩ := validate_eq_request h
      obtain ⟨hmin, hmax⟩ := validateValues_eq_none hvalues
      have hcount : ∀ count, args.k = some count →
          count.saturated ≤ usizeMax ∧ count.canonical ≠ "--write".toList := by
        intro count hk
        obtain ⟨text, htext⟩ := hclap _ _ _ _ hargs count hk
        exact fromStr_bounds htext
      refine ⟨?_, ?_, hmin, hmax, validateQuery_eq_none hquery,
        validateOptions_eq_none hoptions⟩
      · rw [request_k]
        change (args.k.map CountArgument.saturated).getD 5 ≤ _
        cases hk : args.k with
        | none => decide
        | some count => exact (hcount count hk).1
      · rw [request_requestedK]
        change (args.k.map CountArgument.canonical).getD "5".toList ≠ _
        cases hk : args.k with
        | none => decide
        | some count => exact (hcount count hk).2

/-! The project. -/

/-- The file system's canonical paths start at the root. -/
def CanonicalAbsolute (disk : Disk) : Prop :=
  ∀ path root, disk.canonicalize path = .ok root → PathBytes.isAbsolute root

/-- Preparing a request keeps what the command line guarantees, and the project
is never spelled like the write flag. -/
theorem prepareResolved_eq_ok {disk : Disk} {describe : LayoutError → Text}
    {resolveLayout : RuntimeInputs → Except LayoutError RuntimeLayout}
    {parsed request : DirectRequest F} {layout : RuntimeLayout}
    {inputs : RuntimeInputs} (hdisk : CanonicalAbsolute disk)
    (hparsed : Wellspelled float parsed)
    (h : prepareResolved disk describe resolveLayout parsed inputs
      = .ok (request, layout)) :
    Wellspelled float request ∧
      projectText request.project ≠ some (some "--write".toList) := by
  unfold prepareResolved at h
  dsimp only at h
  split at h
  · cases h
  split at h
  · split at h
    · cases h
    · rename_i hselects _ root hroot
      cases h
      refine ⟨⟨hparsed.count, hparsed.spelling, hparsed.minScore,
        hparsed.maxGap, hparsed.query, ?_⟩, ?_⟩
      · intro hnone
        rw [hselects] at hnone
        cases hnone
      obtain ⟨path, hpath⟩ := resolveProjectPath_eq_ok disk hroot
      have habsolute := hdisk path root hpath
      intro htext
      unfold Client.projectText OsString.ofBytes at htext
      cases hutf8 : Text.fromUtf8 root with
      | none => simp [hutf8, OsString.toStr] at htext
      | some text =>
          have hwrite : text = "--write".toList := by
            simpa [hutf8, OsString.toStr] using htext
          rw [← Text.toBytes_of_fromUtf8 hutf8, hwrite] at habsolute
          exact absurd habsolute (by decide)
  · rename_i hselects
    cases h
    have hnone := hparsed.project (by simpa using hselects)
    refine ⟨hparsed, ?_⟩
    rw [hnone]
    decide

/-! The arguments that are sent along. -/

theorem not_mem_flagArgument {flag argument : Text} (selected : Bool)
    (h : argument ≠ flag) : argument ∉ flagArgument flag selected := by
  unfold flagArgument
  split
  · simpa using h
  · exact List.not_mem_nil

theorem mem_valueArgument {flag argument : Text} {value : Option Text}
    (h : argument ≠ flag) :
    argument ∈ valueArgument flag value ↔ value = some argument := by
  cases value with
  | none => simp [valueArgument]
  | some text => simp [valueArgument, h, eq_comm]

theorem not_mem_operationArgument {operation : DirectOperation}
    {arguments : List Text} (h : operationArgument operation = some arguments) :
    "--write".toList ∉ arguments := by
  cases operation <;> cases h <;> decide

/-- The write flag is among the arguments exactly when it is the query. -/
theorem write_mem_requestArgv {request : DirectRequest F} {argv : List Text}
    (hspelling : request.requestedK ≠ "--write".toList)
    (hproject : projectText request.project ≠ some (some "--write".toList))
    (hmin : request.minScore.map float.display ≠ some "--write".toList)
    (hmax : request.maxGap.map float.display ≠ some "--write".toList)
    (h : requestArgv float request = some argv) :
    "--write".toList ∈ argv ↔ request.query = some "--write".toList := by
  unfold requestArgv at h
  obtain ⟨operation, hoperation, h⟩ := Option.bind_eq_some_iff.1 h
  obtain ⟨project, htext, h⟩ := Option.bind_eq_some_iff.1 h
  have hargv := (Option.some.inj h).symm
  have hproject' : project ≠ some "--write".toList := by
    rintro rfl
    exact hproject htext
  have hk : "--write".toList ∉
      (if request.k = 5 then [] else ["-k".toList, request.requestedK]) := by
    split
    · exact List.not_mem_nil
    · simp only [List.mem_cons, List.not_mem_nil, or_false, not_or]
      exact ⟨by decide, hspelling.symm⟩
  have hquery : "--write".toList ∈ valueArgument "--".toList request.query ↔
      request.query = some "--write".toList := mem_valueArgument (by decide)
  rw [hargv]
  simp only [List.mem_append, hquery, hk, not_mem_operationArgument hoperation,
    mem_valueArgument (show "--write".toList ≠ "--min-score".toList by decide),
    mem_valueArgument (show "--write".toList ≠ "--max-gap".toList by decide),
    mem_valueArgument (show "--write".toList ≠ "--project".toList by decide),
    not_mem_flagArgument _ (show "--write".toList ≠ "--json".toList by decide),
    not_mem_flagArgument _ (show "--write".toList ≠ "--full".toList by decide),
    not_mem_flagArgument _
      (show "--write".toList ≠ "--no-gate".toList by decide),
    not_mem_flagArgument _
      (show "--write".toList ≠ "--explain".toList by decide),
    hmin, hmax, hproject', false_or]

/-! The operation that is executed. -/

/-- Agreement on everything that execution reads. -/
structure SameRequest (served direct : DirectRequest F) : Prop where
  operation : served.operation = direct.operation
  project : served.project = direct.project
  query : served.query = direct.query
  k : served.k = direct.k
  json : served.json = direct.json
  full : served.full = direct.full
  noGate : served.noGate = direct.noGate
  explain : served.explain = direct.explain
  minScore : served.minScore = direct.minScore
  maxGap : served.maxGap = direct.maxGap

/-- Formatting a finite float and parsing the text gives it back, and the text
of an option is no float. -/
structure FloatsRoundTrip (float : Float64 F) : Prop where
  parse_display : ∀ x, float.isFinite x = true →
    float.parse (float.display x) = some x
  parse_write : float.parse "--write".toList = none

theorem parseFloatField_display (hfloat : FloatsRoundTrip float) (flag : Text)
    {value : Option F} (hfinite : ∀ x, value = some x → float.isFinite x = true) :
    parseFloatField float flag (value.map float.display) = .ok value := by
  cases value with
  | none => rfl
  | some x =>
      simp only [Option.map_some, parseFloatField,
        hfloat.parse_display x (hfinite x rfl)]

theorem display_ne_write (hfloat : FloatsRoundTrip float) {value : Option F}
    (hfinite : ∀ x, value = some x → float.isFinite x = true) :
    value.map float.display ≠ some "--write".toList := by
  intro h
  obtain ⟨x, hx, hdisplay⟩ := Option.map_eq_some_iff.1 h
  have hparse := hfloat.parse_display x (hfinite x hx)
  rw [hdisplay, hfloat.parse_write] at hparse
  cases hparse

theorem direct_operationKind {operation : DirectOperation}
    {kind : OperationKind} (h : operationKind operation = some kind) :
    kind.direct = operation := by
  cases operation <;> cases h <;> rfl

theorem projectText_eq_some {project : Option OsString} {text : Option Text}
    (h : projectText project = some text) : text.map .utf8 = project := by
  cases project with
  | none =>
      cases h
      rfl
  | some path =>
      cases path with
      | utf8 text' =>
          cases h
          rfl
      | other bytes => cases h

/-- The service makes the same request of the operation that the client sends. -/
theorem directRequest_serviceOperation (hfloat : FloatsRoundTrip float)
    {request : DirectRequest F} (hrequest : Wellspelled float request)
    {operation : ServiceOperation}
    (h : serviceOperation float request = some operation) :
    ∃ served, directRequestFromOperation float operation = .ok served ∧
      SameRequest served request := by
  unfold serviceOperation at h
  obtain ⟨kind, hkind, h⟩ := Option.bind_eq_some_iff.1 h
  obtain ⟨project, hproject, h⟩ := Option.bind_eq_some_iff.1 h
  cases h
  have hquery : (if (request.query.getD []).isEmpty then none
      else some (request.query.getD [])) = request.query := by
    cases hq : request.query with
    | none => rfl
    | some query =>
        have hne : query ≠ [] := by
          rintro rfl
          exact hrequest.query hq
        simp [hne]
  simp only [directRequestFromOperation, parseUsize_ofNat hrequest.count,
    parseFloatField_display hfloat _ hrequest.minScore,
    parseFloatField_display hfloat _ hrequest.maxGap, except_ok_bind]
  exact ⟨_, rfl, direct_operationKind hkind, projectText_eq_some hproject, hquery,
    rfl, rfl, rfl, rfl, rfl, rfl, rfl⟩

/-- The service hands the operation to its executor. -/
def Executed (request : Request) : Prop :=
  ∀ execute, executeRequest execute request
    = (execute request.operation request.cwd).output

theorem executed_iff (request : Request) :
    Executed request ↔ "--write".toList ∉ request.argv := by
  have hguard : (request.argv.any fun argument => argument = "--write".toList)
      = true ↔ "--write".toList ∈ request.argv := by
    rw [List.any_eq_true]
    constructor
    · rintro ⟨argument, hmem, heq⟩
      rw [← of_decide_eq_true heq]
      exact hmem
    · intro hmem
      exact ⟨_, hmem, decide_eq_true rfl⟩
  constructor
  · intro hexecuted hmem
    have hrefused := hexecuted fun _ _ => ⟨.ok, [], []⟩
    rw [executeRequest, if_pos (hguard.2 hmem)] at hrefused
    cases hrefused
  · intro hmem execute
    rw [executeRequest, if_neg (fun h => hmem (hguard.1 h))]

theorem buildRequest_eq_ok {request : DirectRequest F} {layout : RuntimeLayout}
    {message : Request} (h : buildRequest float request layout = .ok message) :
    serviceOperation float request = some message.operation ∧
      requestArgv float request = some message.argv := by
  unfold buildRequest at h
  split at h
  · cases h
    exact ⟨by assumption, by assumption⟩
  · cases h
  · cases h

/-- The query is one of the arguments, so it is as short as they are. -/
theorem query_byteLength_le {request : DirectRequest F} {message : Request}
    (hoperation : serviceOperation float request = some message.operation)
    (hargv : requestArgv float request = some message.argv)
    (hvalid : validateRequest message = .ok ()) :
    message.operation.query.byteLength ≤ maxArgumentBytes := by
  have hquery : message.operation.query = request.query.getD [] := by
    unfold serviceOperation at hoperation
    obtain ⟨_, _, h⟩ := Option.bind_eq_some_iff.1 hoperation
    obtain ⟨_, _, h⟩ := Option.bind_eq_some_iff.1 h
    rw [← Option.some.inj h]
  rw [hquery]
  cases hq : request.query with
  | none => exact Nat.zero_le _
  | some query =>
      have hmem : query ∈ message.argv := by
        unfold requestArgv at hargv
        obtain ⟨_, _, h⟩ := Option.bind_eq_some_iff.1 hargv
        obtain ⟨_, _, h⟩ := Option.bind_eq_some_iff.1 h
        rw [← Option.some.inj h, hq]
        exact List.mem_append_right _
          (List.mem_cons_of_mem _ (List.mem_singleton_self query))
      by_contra hlong
      unfold validateRequest at hvalid
      split at hvalid
      · cases hvalid
      split at hvalid
      · cases hvalid
      · rename_i hshort
        apply hshort
        rw [List.any_eq_true]
        exact ⟨query, hmem, by simpa using hlong⟩

/-- What the claim asks of one request that is sent: it is decoded to itself,
executed, and made into the request that would run directly. -/
def ServedAsDirect (float : Float64 F) (scan : Text → Json.Scan) (body : Bytes)
    (request : DirectRequest F) : Prop :=
  ∃ received, decodeRequest scan body = .ok (.request received) ∧
    Executed received ∧
    ∃ served, directRequestFromOperation float received.operation = .ok served ∧
      SameRequest served request

/-- A request that is served has no write flag among its arguments. -/
theorem ServedAsDirect.argv {scan : Text → Json.Scan} {body : Bytes}
    {request : DirectRequest F} {message : Request}
    (hdecode : decodeRequest scan body = .ok (.request message))
    (h : ServedAsDirect float scan body request) :
    "--write".toList ∉ message.argv := by
  obtain ⟨received, hreceived, hexecuted, _⟩ := h
  rw [hdecode] at hreceived
  cases hreceived
  exact (executed_iff message).1 hexecuted

/-- For every command line that is accepted and sent, the service path is the
direct path exactly when the query does not spell the write flag. -/
theorem servedAsDirect_iff {disk : Disk} {describe : LayoutError → Text}
    {resolveLayout : RuntimeInputs → Except LayoutError RuntimeLayout}
    {scan : Text → Json.Scan} {raw : List OsString}
    {parsed request : DirectRequest F} {inputs : RuntimeInputs}
    {layout : RuntimeLayout} {message : Request} {body : Bytes}
    (hclap : CountsParsed clap) (hdisk : CanonicalAbsolute disk)
    (hfloat : FloatsRoundTrip float)
    (hparse : parseDirectRequest float clap isDecimalNumber toStringLossy raw
      = .request parsed)
    (hprepare : prepareResolved disk describe resolveLayout parsed inputs
      = .ok (request, layout))
    (hbuild : buildRequest float request layout = .ok message)
    (hencode : encode (.request message) = .ok body)
    (hscan : scan (Json.obj (requestWire message)).render
      = ⟨requestWire message, true⟩) :
    ServedAsDirect float scan body request ↔
      request.query ≠ some "--write".toList := by
  have hparsed := wellspelled_of_parse hclap hparse
  obtain ⟨hrequest, hproject⟩ := prepareResolved_eq_ok hdisk hparsed hprepare
  obtain ⟨hoperation, hargv⟩ := buildRequest_eq_ok hbuild
  obtain ⟨hvalid, _, _⟩ := encode_request_eq_ok hencode
  have hdecode : decodeRequest scan body = .ok (.request message) :=
    decodeRequest_encode hencode hscan
      (query_byteLength_le hoperation hargv hvalid)
  have hflag := write_mem_requestArgv hrequest.spelling hproject
    (display_ne_write hfloat hrequest.minScore)
    (display_ne_write hfloat hrequest.maxGap) hargv
  rw [ne_eq, ← hflag]
  constructor
  · exact ServedAsDirect.argv hdecode
  · intro hargument
    exact ⟨message, hdecode, (executed_iff message).2 hargument,
      directRequest_serviceOperation hfloat hrequest hoperation⟩

end

namespace ServicePathWitness

/-- No float value occurs below. -/
def float : Float64 Unit where
  parse _ := none
  display _ := []
  pythonRepr _ := []
  isFinite _ := false
  inCosineRange _ := false
  isNegative _ := false
  nan := ()
  negNan := ()
  infinity := ()
  negInfinity := ()

/-- The option parser on a query without options, with or without `--`. -/
def clap : Clap Unit := fun _ _ arguments =>
  let query := (arguments.drop 1).filter fun a => a ≠ .utf8 "--".toList
  .ok {
    query := query.filterMap OsString.toStr
    k := none
    version := false
    json := false
    full := false
    index := false
    write := false
    stats := false
    project := none
    all := false
    projects := false
    noGate := false
    explain := false
    minScore := none
    maxGap := none
    gc := false }

/-- A disk on which `/p` is a project. -/
def disk : Disk where
  canonicalize path :=
    if path = Text.toBytes "/p" then .ok path else .error .notFound
  metadata path :=
    if path = Text.toBytes "/p" ∨ path = Text.toBytes "/p/.git" then
      .ok .directory
    else .error .notFound
  symlinkMetadata path :=
    if path = Text.toBytes "/p" then .ok .directory else .error .notFound
  readLink _ := .error .notFound

def resolveLayout : RuntimeInputs → Except LayoutError RuntimeLayout :=
  fun _ => .ok ⟨.utf8 "/p", .utf8 "/run/service.sock"⟩

def raw (query : Text) : List OsString :=
  [.utf8 "yams", .utf8 "--", .utf8 query]

def parsed (query : Text) : DirectRequest Unit where
  operation := .search
  project := none
  query := some query
  k := 5
  requestedK := "5"
  json := false
  full := false
  noGate := false
  explain := false
  minScore := none
  maxGap := none

def request (query : Text) : DirectRequest Unit :=
  { parsed query with project := some (.utf8 "/p") }

def message (query : Text) : Request where
  operation :=
    { kind := .search, query, k := "5", json := false, full := false
      noGate := false, explain := false, minScore := none, maxGap := none
      project := some "/p" }
  argv := ["--project", "/p", "--", query]
  cwd := "/p"

def scan (query : Text) : Text → Json.Scan :=
  fun _ => ⟨requestWire (message query), true⟩

def body (query : Text) : Bytes :=
  (Json.obj (requestWire (message query))).render.toBytes

def inputs : RuntimeInputs := ⟨Text.toBytes "/p", []⟩

def layout : RuntimeLayout := ⟨.utf8 "/p", .utf8 "/run/service.sock"⟩

theorem clap_counts : CountsParsed clap := by
  intro parseCount parseFloat arguments args h count hk
  cases h
  cases hk

theorem disk_canonical : CanonicalAbsolute disk := by
  intro path root h
  simp only [disk] at h
  split at h
  · rename_i hpath
    cases h
    rw [hpath]
    decide
  · cases h

theorem float_roundTrip : FloatsRoundTrip float where
  parse_display := by
    intro x hx
    cases hx
  parse_write := rfl

/-- `yams -- --write` is a search for the text `--write` that the client sends
and the service refuses. -/
theorem write_query_refused :
    ∃ parsed request layout message body,
      parseDirectRequest float clap Char.isDigit (fun _ => []) (raw "--write")
        = .request parsed ∧
      prepareResolved disk (fun _ => []) resolveLayout parsed inputs
        = .ok (request, layout) ∧
      buildRequest float request layout = .ok message ∧
      encode (.request message) = .ok body ∧
      scan "--write" (Json.obj (requestWire message)).render
        = ⟨requestWire message, true⟩ ∧
      ¬ ServedAsDirect float (scan "--write") body request := by
  have hencode : encode (.request (message "--write")) = .ok (body "--write") := by
    decide +kernel
  have hshort : (message "--write").operation.query.byteLength
      ≤ maxArgumentBytes := by decide
  have hdecode : decodeRequest (scan "--write") (body "--write")
      = .ok (.request (message "--write")) :=
    decodeRequest_encode hencode rfl hshort
  refine ⟨parsed "--write", request "--write", layout, message "--write",
    body "--write", by decide, by decide, by decide,
    hencode, rfl, fun hserved => ?_⟩
  exact hserved.argv hdecode (by decide)

/-- `yams -- x` is served as it would run directly. -/
theorem servedAsDirect_iff_plain :
    ServedAsDirect float (scan "x") (body "x") (request "x") ↔
      (request "x").query ≠ some "--write".toList := by
  have hparse : parseDirectRequest float clap Char.isDigit (fun _ => [])
      (raw "x") = .request (parsed "x") := by decide
  have hprepare : prepareResolved disk (fun _ => []) resolveLayout (parsed "x")
      inputs = .ok (request "x", layout) := by decide
  have hbuild : buildRequest float (request "x") layout = .ok (message "x") := by
    decide
  have hencode : encode (.request (message "x")) = .ok (body "x") := by
    decide +kernel
  exact servedAsDirect_iff clap_counts disk_canonical float_roundTrip hparse
    hprepare hbuild hencode rfl

end ServicePathWitness

end Yams
