/-
The manifest of an initialization as it is applied: its operations with the states
they expect, and the checks that every manifest passes before anything is touched.
-/
import Mathlib.Data.List.Sort
import Yams.FinalValidation
import Yams.Traversal

namespace Yams.Init.Apply

structure InitOperation where
  kind : OperationKind
  path : Text
  prestate : NodePrestate
  mode : Option UInt32
  content : Option Text
  postSha256 : Option Text
  deriving DecidableEq

structure InitManifest where
  manifestContract : UInt32
  layoutVersion : UInt32
  yamsVersion : Text
  root : Text
  mode : InitMode
  inspectionSha256 : Text
  assetSha256 : Std.ExtTreeMap Text Text
  operations : List InitOperation
  candidateSha256 : Text
  proposal : Text

structure ManifestEnvelope where
  ok : Bool
  manifestSha256 : Text
  manifest : InitManifest

def layoutVersion : UInt32 := 1

/-- `CARGO_PKG_VERSION`. -/
def packageVersion : Text := "0.1.0".toList

def indexTemplate : Text :=
  ("<!-- BEGIN GENERATED INDEX — edited by yams-wiki catalog, not by hand -->\n\n" ++
    "<!-- END GENERATED INDEX -->\n").toList

def pageTemplate : Text :=
  ("---\nslug: \x7b\x7bslug\x7d\x7d\ntitle: \x7b\x7btitle\x7d\x7d\n" ++
    "type: \x7b\x7btype\x7d\x7d\nstatus: current\nowner: shared\n" ++
    "updated: \x7b\x7bdate\x7d\x7d\nverified: \x7b\x7bdate\x7d\x7d\n" ++
    "summary: \x7b\x7bsummary\x7d\x7d\n---\n\n\x7b\x7bfact\x7d\x7d\n\n" ++
    "**Why:** \x7b\x7bevidence\x7d\x7d\n\n" ++
    "**How to apply:** \x7b\x7bapplication\x7d\x7d\n\n" ++
    "**Falsified by:** \x7b\x7bfalsifier\x7d\x7d\n").toList

/-! The checks of one operation. -/

def isHexByte (b : UInt8) : Bool :=
  (0x30 ≤ b && b ≤ 0x39) || (0x61 ≤ b && b ≤ 0x66)

def isDigest (value : Text) : Bool := value.byteLength = 64 && value.toBytes.all isHexByte

def refuse (condition : Prop) [Decidable condition] (message : Text) : Except Text Unit :=
  if condition then .error message else .ok ()

/-- A part between two slashes that leads nowhere below. -/
def isIdlePart (part : Text) : Bool :=
  part = [] || part = ".".toList || part = "..".toList

/-- The components of an absolute path are its parts but for empty ones and dots. -/
def validateAbsoluteRoot (root : Text) : Except Text Unit := do
  refuse (root.head? ≠ some '/' ∨ Char.ofNat 0 ∈ root)
    "manifest root must be an absolute UTF-8 path".toList
  refuse ("..".toList ∈ root.splitOn '/')
    "manifest root must be lexically canonical".toList
  refuse (root ≠ ['/'] ∧ root.getLast? = some '/')
    "manifest root must be lexically canonical".toList
  refuse (root ≠ ['/'] ∧ ((root.drop 1).splitOn '/').any isIdlePart)
    "manifest root must be lexically canonical".toList

def validateRelativePath (path : Text) : Except Text Unit := do
  refuse (path = [] ∨ path.head? = some '/' ∨ path.getLast? = some '/' ∨
      "//".toList <:+: path)
    "operation path is not a confined relative path".toList
  refuse ((path.splitOn '/').any isIdlePart)
    "operation path is not a confined relative path".toList

def directoryPath (path : Text) : Bool :=
  path = ".agents".toList || path = memoryPath || path = pagesPath

/-- `.agents/memory/pages/project-context.md`. -/
def contextPath : Text := pagePathOf "project-context.md".toList

def mutableOperationPath (path : Text) (mode : InitMode) : Bool :=
  [agentsPath, ".agents".toList, memoryPath].contains path || path = gitignorePath ||
    (mode = .minimal && path = flatPagePath) ||
    (mode = .full && [flatPagePath, schemaPath, indexPath, pagesPath, contextPath].contains path)

def validatePrestate (prestate : NodePrestate) : Except Text Unit :=
  let consistent : Bool :=
    match prestate.kind with
    | .missing =>
        prestate.mode = none && prestate.sha256 = none && prestate.entriesSha256 = none
    | .file =>
        prestate.mode ≠ none && prestate.sha256.any isDigest && prestate.entriesSha256 = none
    | .directory =>
        prestate.mode ≠ none && prestate.sha256 = none && prestate.entriesSha256.any isDigest
    | .symlink | .other => false
  if consistent then .ok () else .error "operation prestate is internally inconsistent".toList

section Contents

variable [Wiki.Unicode]

def validateProjectPage (content : Text) : Except Text Unit :=
  match Wiki.parseWikiPage content with
  | .error error => .error ("planned project page is invalid: ".toList ++ error.message)
  | .ok page =>
      refuse (page.slug ≠ "project-context".toList)
        "planned project page has the wrong slug".toList

def validateOperationContent (operation : InitOperation) : Except Text Unit :=
  match operation.content with
  | none => .ok ()
  | some content =>
      if operation.path = agentsPath then
        let policy := inspectPolicy content
        refuse (policy.headingCount ≠ 1 ∨ policy.exact = false)
          "planned AGENTS.md does not contain the canonical policy".toList
      else if operation.path = schemaPath ∧ content ≠ schema then
        .error "planned SCHEMA.md differs from the embedded asset".toList
      else if operation.path = gitignorePath ∧ content ≠ memoryGitignore then
        .error "planned memory gitignore differs from the embedded asset".toList
      else if operation.path = flatPagePath ∨ operation.path = contextPath then
        validateProjectPage content
      else .ok ()

section Digests

variable (D : Type) [Sha256 D]

def postDigestMatches (operation : InitOperation) : Bool :=
  match operation.content, operation.postSha256 with
  | some content, some digest => isDigest digest && sha256 D content.toBytes = digest
  | _, _ => false

def validateCreateDirectory (operation : InitOperation) : Except Text Unit :=
  refuse (operation.prestate.kind ≠ .missing ∨ operation.mode = none ∨
      operation.content ≠ none ∨ operation.postSha256 ≠ none ∨
      directoryPath operation.path = false ∨ operation.mode ≠ some 0o755)
    "create-directory operation is internally inconsistent".toList

def validateCreateFile (operation : InitOperation) : Except Text Unit :=
  refuse (operation.prestate.kind ≠ .missing ∨ operation.mode = none ∨
      operation.content = none ∨ postDigestMatches D operation = false ∨
      directoryPath operation.path = true ∨ operation.mode ≠ some 0o644)
    "create-file operation is internally inconsistent".toList

def validateReplaceFile (operation : InitOperation) : Except Text Unit :=
  refuse (operation.prestate.kind ≠ .file ∨ operation.mode = none ∨
      operation.content = none ∨ postDigestMatches D operation = false ∨
      directoryPath operation.path = true ∨ operation.mode ≠ operation.prestate.mode)
    "replace-file operation is internally inconsistent".toList

def validateRemoveFile (operation : InitOperation) (mode : InitMode) : Except Text Unit :=
  refuse (mode ≠ .full ∨ operation.path ≠ flatPagePath ∨ operation.prestate.kind ≠ .file ∨
      operation.mode ≠ none ∨ operation.content ≠ none ∨ operation.postSha256 ≠ none)
    "remove-file operation is internally inconsistent".toList

/-- The check that an operation of its kind must pass. -/
def validateKind (operation : InitOperation) (mode : InitMode) : Except Text Unit :=
  match operation.kind with
  | .createDirectory => validateCreateDirectory operation
  | .createFile => validateCreateFile D operation
  | .replaceFile => validateReplaceFile D operation
  | .removeFile => validateRemoveFile operation mode

def validateOperation (operation : InitOperation) (mode : InitMode) : Except Text Unit := do
  validateRelativePath operation.path
  refuse (operation.prestate.path ≠ operation.path)
    "operation and prestate paths differ".toList
  refuse (mutableOperationPath operation.path mode = false)
    ("operation path is outside the owned layout: ".toList ++ operation.path)
  validatePrestate operation.prestate
  validateKind D operation mode
  refuse (operation.mode.any fun mode => mode > 0o7777) "operation mode is invalid".toList
  refuse (operation.content.any fun content => content.byteLength > Traversal.maxFileBytes.toNat)
    "operation content exceeds the supported file size".toList
  validateOperationContent operation

/-! The checks of a manifest. -/

def expectedAssetDigests : Std.ExtTreeMap Text Text :=
  Std.ExtTreeMap.ofList [
    ("SCHEMA.md".toList, sha256 D schema.toBytes),
    ("agent-policy.md".toList, sha256 D agentPolicy.toBytes),
    ("index-template.md".toList, sha256 D indexTemplate.toBytes),
    ("page-template.md".toList, sha256 D pageTemplate.toBytes),
    ("memory-gitignore".toList, sha256 D memoryGitignore.toBytes)]

def operationRank : OperationKind → Nat
  | .createDirectory => 0
  | .createFile | .replaceFile => 1
  | .removeFile => 2

def depth (path : Text) : Nat := (path.splitOn '/').length

/-- The first operation does not come behind the second: by rank, then by depth, that of
removed files downwards, then by path. -/
def inOrder (first second : InitOperation) : Bool :=
  let rank := compare (operationRank first.kind) (operationRank second.kind)
  let depths :=
    if first.kind = .removeFile then compare (depth second.path) (depth first.path)
    else compare (depth first.path) (depth second.path)
  (rank.then depths = .lt) || (rank.then depths = .eq && Text.le first.path second.path)

def sortOperations (operations : List InitOperation) : List InitOperation :=
  operations.insertionSort fun first second => inOrder first second = true

def proposalLine (operation : InitOperation) : Text :=
  let action : Text :=
    match operation.kind with
    | .createDirectory => "CREATE DIR"
    | .createFile => "CREATE FILE"
    | .replaceFile => "REPLACE FILE"
    | .removeFile => "REMOVE FILE"
  action ++ " ".toList ++ operation.path

/-- The operations one by one, each against the paths before it. -/
def validateOperations (mode : InitMode) :
    List Text → List InitOperation → Except Text Unit
  | _, [] => .ok ()
  | seen, operation :: rest => do
      validateOperation D operation mode
      refuse (operation.path ∈ seen)
        ("manifest repeats operation path ".toList ++ operation.path)
      validateOperations mode (operation.path :: seen) rest

-- The JSON text of a manifest, or the error of its writer.
variable (canonicalManifestBytes : InitManifest → Except Text Bytes)

def validateManifest (envelope : ManifestEnvelope) : Except Text Unit := do
  let manifest := envelope.manifest
  refuse (envelope.ok = false) "manifest envelope is not applicable".toList
  let digest := sha256 D (← canonicalManifestBytes manifest)
  refuse (isDigest envelope.manifestSha256 = false ∨ digest ≠ envelope.manifestSha256)
    "manifest digest does not match its canonical contents".toList
  refuse (manifest.manifestContract ≠ 1 ∨ manifest.layoutVersion ≠ layoutVersion ∨
      manifest.yamsVersion ≠ packageVersion)
    "manifest contract, layout, or Yams version is unsupported".toList
  refuse (manifest.assetSha256 ≠ expectedAssetDigests D)
    "manifest asset digests do not match this Yams binary".toList
  validateAbsoluteRoot manifest.root
  refuse (isDigest manifest.inspectionSha256 = false ∨
      isDigest manifest.candidateSha256 = false)
    "manifest contains an invalid digest".toList
  let maxOperations := match manifest.mode with
    | .minimal => 5
    | .full => 9
  refuse (manifest.operations.length > maxOperations)
    "manifest contains too many operations".toList
  validateOperations D manifest.mode [] manifest.operations
  refuse (sortOperations manifest.operations ≠ manifest.operations)
    "manifest operations are not in canonical order".toList
  refuse (Text.join "\n".toList (manifest.operations.map proposalLine) ≠ manifest.proposal)
    "manifest proposal does not match its operations".toList

/-! What the checks let through. -/

omit [Wiki.Unicode] [Sha256 D] in
theorem refuse_eq_ok {condition : Prop} [Decidable condition] {message : Text}
    {value : Unit} : refuse condition message = .ok value ↔ ¬ condition := by
  rw [refuse]
  split
  next h => exact iff_of_false (nomatch ·) (not_not_intro h)
  next h => exact iff_of_true rfl h

variable {D}

/-- A directory that is created is one of the layout; a file that is replaced is not. -/
structure Operates (operation : InitOperation) (mode : InitMode) : Prop where
  owned : mutableOperationPath operation.path mode = true
  directory : operation.kind = .createDirectory → directoryPath operation.path = true
  file : operation.kind = .replaceFile → directoryPath operation.path = false

theorem operates_of_validateOperation {operation : InitOperation} {mode : InitMode}
    (h : validateOperation D operation mode = .ok ()) : Operates operation mode := by
  simp only [validateOperation, except_bind_eq_ok] at h
  obtain ⟨_, -, _, -, _, howned, _, -, _, hkind, -⟩ := h
  refine ⟨Bool.of_not_eq_false (refuse_eq_ok.1 howned), ?_, ?_⟩
  · intro hcreate
    rw [validateKind, hcreate] at hkind
    have hcreated := refuse_eq_ok.1 hkind
    simp only [not_or] at hcreated
    exact Bool.of_not_eq_false hcreated.2.2.2.2.1
  · intro hreplace
    rw [validateKind, hreplace] at hkind
    have hreplaced := refuse_eq_ok.1 hkind
    simp only [not_or] at hreplaced
    exact Bool.of_not_eq_true hreplaced.2.2.2.2.1

theorem validateOperations_each {mode : InitMode} {operations : List InitOperation} :
    ∀ {seen : List Text}, validateOperations D mode seen operations = .ok () →
      ∀ operation ∈ operations, validateOperation D operation mode = .ok () := by
  induction operations with
  | nil => simp
  | cons first rest ih =>
      intro seen h operation hmem
      simp only [validateOperations, except_bind_eq_ok] at h
      obtain ⟨_, hfirst, _, -, hrest⟩ := h
      rcases List.mem_cons.1 hmem with rfl | hmem
      · exact hfirst
      · exact ih hrest operation hmem

theorem validateManifest_each {envelope : ManifestEnvelope}
    (h : validateManifest D canonicalManifestBytes envelope = .ok ()) :
    ∀ operation ∈ envelope.manifest.operations,
      validateOperation D operation envelope.manifest.mode = .ok () := by
  simp only [validateManifest, except_bind_eq_ok] at h
  obtain ⟨_, -, _, -, _, -, _, -, _, -, _, -, _, -, _, -, _, hoperations, -⟩ := h
  exact validateOperations_each hoperations

/-- A manifest with one operation. -/
def single (operation : InitOperation) (mode : InitMode) : InitManifest where
  manifestContract := 1
  layoutVersion := layoutVersion
  yamsVersion := packageVersion
  root := "/repository".toList
  mode := mode
  inspectionSha256 := sha256 D []
  assetSha256 := expectedAssetDigests D
  operations := [operation]
  candidateSha256 := sha256 D []
  proposal := proposalLine operation

/-- Every operation that passes its check is the operation of a manifest that passes. -/
theorem validateManifest_single (hdigest : ∀ bytes, isDigest (sha256 D bytes) = true)
    (hbytes : ∀ manifest, ∃ bytes, canonicalManifestBytes manifest = .ok bytes)
    {operation : InitOperation} {mode : InitMode}
    (h : validateOperation D operation mode = .ok ()) :
    ∃ envelope, validateManifest D canonicalManifestBytes envelope = .ok () ∧
      operation ∈ envelope.manifest.operations := by
  obtain ⟨bytes, hcanonical⟩ := hbytes (single (D := D) operation mode)
  refine ⟨⟨true, sha256 D bytes, single (D := D) operation mode⟩, ?_, List.mem_singleton_self _⟩
  have hroot : validateAbsoluteRoot "/repository".toList = .ok () := by decide
  have hone : validateOperations D mode [] [operation] = .ok () := by
    simp [validateOperations, h, refuse_eq_ok, except_bind_eq_ok]
  have hcount : ¬ (1 > match mode with
      | .minimal => 5
      | .full => 9) := by
    cases mode <;> decide
  simp only [validateManifest, except_bind_eq_ok, hcanonical, refuse_eq_ok]
  refine ⟨(), ?_, _, rfl, (), ?_, (), ?_, (), ?_, (), hroot, (), ?_, (), hcount, (), hone, (), ?_, ?_⟩
  all_goals simp [single, hdigest, sortOperations, Text.join]

/-! Operations that pass. -/

def creation (path : Text) : InitOperation :=
  ⟨.createDirectory, path, ⟨path, .missing, none, none, none⟩, some 0o755, none, none⟩

variable (D) in
def replacement (path content : Text) : InitOperation :=
  ⟨.replaceFile, path, ⟨path, .file, some 0o644, some (sha256 D []), none⟩, some 0o644,
    some content, some (sha256 D content.toBytes)⟩

theorem validateOperation_creation {path : Text} {mode : InitMode}
    (hrelative : validateRelativePath path = .ok ())
    (howned : mutableOperationPath path mode = true) (hdirectory : directoryPath path = true) :
    validateOperation D (creation path) mode = .ok () := by
  have hkind : validateKind D (creation path) mode = .ok () := by
    apply refuse_eq_ok.2
    simp [creation, hdirectory]
  simp only [validateOperation, except_bind_eq_ok, refuse_eq_ok]
  refine ⟨(), hrelative, (), not_not_intro rfl, (), ?_, (), rfl, (), hkind, (), ?_, (), ?_, rfl⟩
  · exact ne_false_of_eq_true howned
  · exact of_decide_eq_true rfl
  · exact Bool.false_ne_true

theorem validateOperation_replacement (hdigest : ∀ bytes, isDigest (sha256 D bytes) = true)
    {path content : Text} {mode : InitMode} (hrelative : validateRelativePath path = .ok ())
    (howned : mutableOperationPath path mode = true) (hfile : directoryPath path = false)
    (hshort : content.byteLength ≤ Traversal.maxFileBytes.toNat)
    (hcontent : validateOperationContent (replacement D path content) = .ok ()) :
    validateOperation D (replacement D path content) mode = .ok () := by
  have hprestate : validatePrestate (replacement D path content).prestate = .ok () := by
    simp [validatePrestate, replacement, hdigest]
  have hkind : validateKind D (replacement D path content) mode = .ok () := by
    apply refuse_eq_ok.2
    simp [replacement, postDigestMatches, hdigest, hfile]
  simp only [validateOperation, except_bind_eq_ok, refuse_eq_ok]
  refine ⟨(), hrelative, (), not_not_intro rfl, (), ?_, (), hprestate, (), hkind, (), ?_, (), ?_,
    hcontent⟩
  · exact ne_false_of_eq_true howned
  · exact of_decide_eq_true rfl
  · change ¬ decide (content.byteLength > Traversal.maxFileBytes.toNat) = true
    rw [decide_eq_true_eq]
    exact Nat.not_lt.2 hshort

/-! The contents that the checks ask for. -/

omit [Wiki.Unicode] [Sha256 D] in
theorem byteLength_le (text : Text) : text.byteLength ≤ 4 * text.length := by
  induction text with
  | nil => exact Nat.le_refl 0
  | cons c text ih =>
      have hsize := c.utf8Size_le_four
      rw [Text.byteLength_cons, List.length_cons]
      omega

omit [Wiki.Unicode] [Sha256 D] in
/-- The length of a text that is written down in parts. -/
theorem length_part {chars : List Char} {rest : Text} {n : Nat} (hchars : chars.length ≤ 100)
    (hrest : rest.length ≤ 100 * n) :
    ((String.ofList chars).toList ++ rest).length ≤ 100 * (n + 1) := by
  rw [String.toList_ofList, List.length_append]
  omega

omit [Wiki.Unicode] [Sha256 D] in
theorem length_break {c : Char} {rest : Text} {n : Nat} (hrest : rest.length ≤ 100 * n) :
    (c :: rest).length ≤ 100 * (n + 1) := by
  rw [List.length_cons]
  omega

omit [Wiki.Unicode] [Sha256 D] in
theorem length_agentPolicy : agentPolicy.length ≤ 100 * 40 := by
  simp only [agentPolicy, policyLines, unlines_cons, unlines_nil, List.append_assoc,
    List.nil_append]
  repeat first
    | refine length_part (by decide) ?_
    | refine length_break ?_
  exact Nat.zero_le _

omit [Wiki.Unicode] [Sha256 D] in
theorem length_literals {literals : String} {chars : List Char} {n : Nat}
    (h : literals.toList.length ≤ 100 * n) (hchars : chars.length ≤ 100) :
    (literals ++ String.ofList chars).toList.length ≤ 100 * (n + 1) := by
  rw [String.toList_append, List.length_append, String.toList_ofList]
  omega

omit [Wiki.Unicode] [Sha256 D] in
set_option maxRecDepth 8000 in
theorem length_schema : schema.length ≤ 100 * 190 := by
  have hfirst {chars : List Char} (hchars : chars.length ≤ 100) :
      (String.ofList chars).toList.length ≤ 100 * 1 := by
    rwa [String.toList_ofList]
  unfold schema
  iterate 189 refine length_literals ?_ (by decide)
  exact hfirst (by decide)

/-- A page of the project whose dates are plain. -/
def projectPage : Text :=
  "---\nslug: project-context\ntitle: Context\ntype: project-state\n".toList ++
    "status: current\nowner: codex\nupdated: 2026-08-08\n".toList ++
    "verified: 2026-08-08\nsummary: what it is\n---\n\nA tool.\n".toList

def pageDate : Text := "2026-08-08".toList

/-- What is read from the page, without a look at the characters of its dates. -/
structure PageFields (fields : Fields) : Prop where
  slug : Wiki.requiredPageField fields "slug".toList = .ok "project-context".toList
  title : Wiki.requiredPageField fields "title".toList = .ok "Context".toList
  summary : Wiki.requiredPageField fields "summary".toList = .ok "what it is".toList
  pageType : Wiki.PageType.parse (Wiki.Fields.at fields "type".toList) = .ok .projectState
  status : Wiki.Status.parse (Wiki.Fields.at fields "status".toList) = .ok .current
  owner : Wiki.Owner.parse (Wiki.Fields.at fields "owner".toList) = .ok .codex
  updated : Wiki.requiredPageField fields "updated".toList = .ok pageDate
  verified : Wiki.requiredPageField fields "verified".toList = .ok pageDate

omit [Wiki.Unicode] [Sha256 D] in
theorem projectPage_fields :
    ∃ fields, Wiki.parseFrontmatterFields projectPage = .ok fields ∧ PageFields fields := by
  have hread : (Wiki.parseFrontmatterFields projectPage).toOption.any (fun fields =>
      Wiki.requiredPageField fields "slug".toList = .ok "project-context".toList ∧
      Wiki.requiredPageField fields "title".toList = .ok "Context".toList ∧
      Wiki.requiredPageField fields "summary".toList = .ok "what it is".toList ∧
      Wiki.PageType.parse (Wiki.Fields.at fields "type".toList) = .ok .projectState ∧
      Wiki.Status.parse (Wiki.Fields.at fields "status".toList) = .ok .current ∧
      Wiki.Owner.parse (Wiki.Fields.at fields "owner".toList) = .ok .codex ∧
      Wiki.requiredPageField fields "updated".toList = .ok pageDate ∧
      Wiki.requiredPageField fields "verified".toList = .ok pageDate) = true := by
    unfold projectPage pageDate
    repeat rw [String.toList_ofList]
    decide +kernel
  cases hfields : Wiki.parseFrontmatterFields projectPage with
  | error error =>
      rw [hfields] at hread
      cases hread
  | ok fields =>
      rw [hfields] at hread
      obtain ⟨hslug, htitle, hsummary, htype, hstatus, howner, hupdated, hverified⟩ :=
        of_decide_eq_true hread
      exact ⟨fields, rfl, hslug, htitle, hsummary, htype, hstatus, howner, hupdated, hverified⟩

omit [Sha256 D] in
theorem isIsoDate_pageDate (hdigits : ∀ c : Char, '0' ≤ c → c ≤ '9' →
    Wiki.Unicode.generalCategory c = .decimalNumber) : Wiki.isIsoDate pageDate = true := by
  have hdigit : ∀ c ∈ ['0', '2', '6', '8'], Wiki.isDecimalNumber c = true := by
    intro c hc
    simp only [List.mem_cons, List.not_mem_nil, or_false] at hc
    apply decide_eq_true
    rcases hc with rfl | rfl | rfl | rfl <;> exact hdigits _ (by decide) (by decide)
  have hlist : pageDate = ['2', '0', '2', '6', '-', '0', '8', '-', '0', '8'] := by decide
  rw [hlist]
  simp [Wiki.isIsoDate, hdigit]

omit [Sha256 D] in
/-- The page is accepted wherever the ten digits are decimal numbers. -/
theorem validateProjectPage_ok (hdigits : ∀ c : Char, '0' ≤ c → c ≤ '9' →
    Wiki.Unicode.generalCategory c = .decimalNumber) : validateProjectPage projectPage = .ok () := by
  obtain ⟨fields, hfields, hpage⟩ := projectPage_fields
  have hdate := isIsoDate_pageDate hdigits
  have hslug : Wiki.validatePageSlug "project-context".toList = .ok () := by decide
  have htitle : Wiki.validateFrontmatterScalar "title".toList "Context".toList = .ok () := by
    decide
  have hsummary : Wiki.validateFrontmatterScalar "summary".toList "what it is".toList =
      .ok () := by decide
  have horder : decide (¬ pageDate < pageDate) = true := by decide
  have hcheck (message : Text) : Wiki.check true message = .ok () := rfl
  have hparse : ∃ page, Wiki.parseWikiPage projectPage = .ok page ∧
      page.slug = "project-context".toList := by
    simp only [Wiki.parseWikiPage, hfields, except_ok_bind, hpage.slug, hpage.title,
      hpage.summary, hpage.pageType, hpage.status, hpage.owner, hpage.updated, hpage.verified,
      hslug, htitle, hsummary, hdate, horder, hcheck]
    exact ⟨_, rfl, rfl⟩
  obtain ⟨page, hpage, hname⟩ := hparse
  rw [validateProjectPage, hpage]
  exact refuse_eq_ok.2 (not_not_intro hname)

end Digests

end Contents

end Yams.Init.Apply
