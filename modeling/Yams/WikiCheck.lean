/-
The structural check of a captured wiki: every page by itself, the pages
against the links of `INDEX.md`, and the generated region line by line.
-/
import Yams.Catalog

namespace Yams.Wiki

def sizeNote : Nat := 12288

inductive CapturedPageOutcome
  | present (bytes : Bytes)
  | notRegular
  | unreadable (detail : Text)
  | symlink
  | outsideCorpus
  deriving DecidableEq

/-- A directory entry under its exact spelling. -/
structure CapturedPage where
  name : Bytes
  outcome : CapturedPageOutcome
  deriving DecidableEq

structure WikiSnapshot where
  corpus : PathBuf
  index : Bytes
  pages : List CapturedPage
  isolated : Bool
  isolationNote : Option Text

structure WikiCheckReport where
  failures : List Text
  notes : List Text
  pageCount : Nat
  isolated : Bool
  deriving DecidableEq

/-- A map from slugs: the entry of a key is the last one inserted. -/
abbrev SlugMap (α : Type) := List (Text × α)

def SlugMap.insert {α : Type} (map : SlugMap α) (entry : Text × α) : SlugMap α :=
  entry :: map.filter fun old => old.1 ≠ entry.1

def SlugMap.get {α : Type} (map : SlugMap α) (slug : Text) : Option α :=
  (map.find? fun entry => entry.1 = slug).map Prod.snd

def SlugMap.collect {α : Type} (entries : List (Text × α)) : SlugMap α :=
  entries.foldl SlugMap.insert []

def sortTexts (texts : List Text) : List Text :=
  texts.mergeSort Text.le

/-- The members of one set that another one lacks, both ways, in order. -/
def symmetricDifference (left right : List Text) : List Text :=
  sortTexts ((left.filter fun text => text ∉ right) ++
    right.filter fun text => text ∉ left)

def sameSet (left right : List Text) : Bool :=
  left.all (fun text => text ∈ right) ∧ right.all fun text => text ∈ left

def diagnosticName (name : Bytes) : Text :=
  match Text.fromUtf8 name with
  | some text => text
  | none =>
      name.flatMap fun byte =>
        if 0x20 ≤ byte ∧ byte ≤ 0x7e ∧ byte ≠ 0x5c then
          [Char.ofNat byte.toNat]
        else "\\x".toList ++ hexPadded 2 byte.toNat

def isNotRegular (page : CapturedPage) : Bool := page.outcome = .notRegular

def regularPages (snapshot : WikiSnapshot) : List CapturedPage :=
  snapshot.pages.filter fun page => ¬ isNotRegular page

def pageFiles (snapshot : WikiSnapshot) : List Text :=
  sortTexts ((regularPages snapshot).filterMap fun page =>
    Text.fromUtf8 page.name).eraseDups

/-- `str::strip_suffix`. -/
def stripSuffix (suffix text : Text) : Option Text :=
  if suffix <:+ text then some (text.take (text.length - suffix.length))
  else none

theorem stripSuffix_append (suffix text : Text) :
    stripSuffix suffix (text ++ suffix) = some text := by
  simp [stripSuffix]

theorem stripSuffix_eq_some {suffix text rest : Text}
    (h : stripSuffix suffix text = some rest) : text = rest ++ suffix := by
  unfold stripSuffix at h
  split at h
  · next hsuffix =>
      obtain ⟨before, rfl⟩ := hsuffix
      rw [← Option.some.inj h]
      simp
  · cases h

def markdownSuffix : Text := ".md".toList

def pageSlugs (snapshot : WikiSnapshot) : List Text :=
  sortTexts ((pageFiles snapshot).filterMap (stripSuffix markdownSuffix)).eraseDups

/-- `pages/` and the name of a page. -/
def pagePath (name : Text) : Text := "pages/".toList ++ name

def entryFailures (page : CapturedPage) : List Text :=
  if (Text.fromUtf8 page.name).isNone then
    [pagePath (diagnosticName page.name) ++
      " filename is not valid UTF-8".toList]
  else if isNotRegular page then
    [pagePath (diagnosticName page.name) ++ " is not a regular file".toList]
  else []

def orphanFailures (index : Text) (files : List Text) : List Text :=
  files.flatMap fun name =>
    if contains (linkOpening ++ name ++ ")".toList) index then []
    else [pagePath name ++ " is not listed in INDEX.md (orphan page)".toList]

def danglingFailures (index : Text) (files : List Text) : List Text :=
  (indexLinks index).flatMap fun name =>
    if name ∈ files then []
    else ["INDEX.md links ".toList ++ pagePath name ++
      ", which does not exist".toList]

def enumFailures (name : Text) (fields : Fields) (field : Text)
    (allowed : List Text) : List Text :=
  match fields.get field with
  | none => [pagePath name ++ " is missing ".toList ++ field]
  | some value =>
      if value = [] then [pagePath name ++ " is missing ".toList ++ field]
      else if value ∉ allowed then
        [pagePath name ++ " has ".toList ++ field ++ ": ".toList ++ value ++
          " — expected one of ".toList ++ Text.join " | ".toList allowed]
      else []

def slugFailures (name slug : Text) (fields : Fields) : List Text :=
  if fields.get "slug".toList = some slug then []
  else
    [pagePath name ++ " declares slug \"".toList ++
      (fields.get "slug".toList).getD "(missing)".toList ++
      "\" — must match the filename".toList]

def titleFailures (name : Text) (fields : Fields) : List Text :=
  if (fields.get "title".toList).all List.isEmpty then
    [pagePath name ++ " is missing a title".toList]
  else []

def summaryFailures (name : Text) (fields : Fields) : List Text :=
  match fields.get "summary".toList with
  | none => [pagePath name ++ " is missing summary".toList]
  | some summary =>
      if summary = [] then [pagePath name ++ " is missing summary".toList]
      else
        match scalarProblem summary with
        | some problem => [pagePath name ++ ": ".toList ++ problem]
        | none => []

/-- `strip_line_ref_exemptions` after the fences: a URL ends at Python's white
space, and its scheme alone is dropped as well. -/
def withoutPythonUrls : Text → Text
  | [] => []
  | c :: rest =>
      match _h : urlScheme (c :: rest) with
      | some _ =>
          withoutPythonUrls (rest.dropWhile fun d => ¬ isPythonWhitespace d)
      | none => c :: withoutPythonUrls rest
termination_by text => text.length
decreasing_by
  · have hdrop := (List.dropWhile_suffix (l := rest)
      fun d => ¬ isPythonWhitespace d).length_le
    simp only [List.length_cons]
    omega
  · simp

def stripLineRefExemptions (source : Text) : Text :=
  withoutPythonUrls (withoutFences source)

section Checks

variable [Unicode]

/-- One character of a debug string, as `char::escape_debug` writes it. -/
def escapeDebug (c : Char) : Text :=
  if c = Char.ofNat 0 then "\\0".toList
  else if c = '\t' then "\\t".toList
  else if c = '\r' then "\\r".toList
  else if c = '\n' then "\\n".toList
  else if c = '"' ∨ c = '\\' then ['\\', c]
  else if Unicode.isGraphemeExtended c ∨ ¬ Unicode.isPrintable c then
    "\\u".toList ++ '\x7b' :: Nat.toDigits 16 c.toNat ++ ['\x7d']
  else [c]

/-- The `Debug` text of a string. -/
def debug (text : Text) : Text := '"' :: text.flatMap escapeDebug ++ ['"']

def debugOption : Option Text → Text
  | none => "None".toList
  | some text => "Some(".toList ++ debug text ++ ")".toList

def debugList (texts : List Text) : Text :=
  "[".toList ++ Text.join ", ".toList (texts.map debug) ++ "]".toList

/-- The `Display` text of an index error. -/
def IndexError.display : IndexError → Text
  | .shape detail => "unsafe INDEX.md shape: ".toList ++ detail
  | .page name detail =>
      "invalid index page ".toList ++ name ++ ": ".toList ++ detail

def dateFailures (name : Text) (fields : Fields) (field : Text) : List Text :=
  match fields.get field with
  | none => [pagePath name ++ " is missing ".toList ++ field]
  | some value =>
      if value = [] then [pagePath name ++ " is missing ".toList ++ field]
      else if ¬ isIsoDate value then
        [pagePath name ++ " has ".toList ++ field ++ ": ".toList ++ value ++
          " — expected YYYY-MM-DD".toList]
      else []

def dateOrderFailures (name : Text) (fields : Fields) : List Text :=
  match fields.get "updated".toList, fields.get "verified".toList with
  | some updated, some verified =>
      if isIsoDate updated ∧ isIsoDate verified ∧ verified < updated then
        [pagePath name ++ " has verified: ".toList ++ verified ++
          " before updated: ".toList ++ updated ++
          " — editing a page verifies it".toList]
      else []
  | _, _ => []

def referenceFailures (name source : Text) : List Text :=
  (references (stripLineRefExemptions source)).map fun found =>
    pagePath name ++ " cites ".toList ++ found ++
      " — line numbers drift; name the symbol instead".toList

/-- The failures of the fields of a page and of its line references. -/
def pageFailures (name slug source : Text) (fields : Fields) : List Text :=
  slugFailures name slug fields ++ titleFailures name fields ++
    summaryFailures name fields ++
    enumFailures name fields "status".toList
      ["current".toList, "historical".toList, "in-progress".toList] ++
    enumFailures name fields "type".toList
      ["decision".toList, "feature".toList, "gotcha".toList,
        "pattern".toList, "project-state".toList, "workflow".toList] ++
    enumFailures name fields "owner".toList
      ["claude".toList, "codex".toList, "shared".toList] ++
    dateFailures name fields "updated".toList ++
    dateFailures name fields "verified".toList ++
    dateOrderFailures name fields ++ referenceFailures name source

/-- What the check of one page adds. -/
structure PageCheck where
  failures : List Text
  notes : List Text
  linked : List Text
  valid : Option (Text × Fields)

def PageCheck.failed (failure : Text) (notes : List Text) : PageCheck :=
  ⟨[failure], notes, [], none⟩

def PageCheck.skipped : PageCheck := ⟨[], [], [], none⟩

def oversizedNotes (name : Text) (bytes : Bytes) : List Text :=
  if bytes.length > sizeNote then
    [pagePath name ++ " is ".toList ++ Text.ofNat bytes.length ++
      (" bytes; an oversized page becomes many competing weak matches that " ++
        "lower the rank of every real answer").toList]
  else []

/-- The check of a page that could be read. -/
def checkSource (slugs : List Text) (name slug : Text) (bytes : Bytes) :
    PageCheck :=
  match Text.fromUtf8 bytes with
  | none => .failed (pagePath name ++ " is not valid UTF-8".toList) []
  | some source =>
      let fields := (parseFrontmatter source).fields
      if fields.isEmpty then
        .failed
          (pagePath name ++ " has no parseable frontmatter block".toList)
          (oversizedNotes name bytes)
      else
        let links := wikilinkTargets source
        { failures := pageFailures name slug source fields
          notes := oversizedNotes name bytes ++
            (links.filter fun linked => linked ∉ slugs).map fun linked =>
              pagePath name ++ " links [[".toList ++ linked ++
                "]], not yet written".toList
          linked := links.filter fun linked => linked ∈ slugs ∧ linked ≠ slug
          valid := some (name, fields) }

def checkPage (slugs : List Text) (page : CapturedPage) : PageCheck :=
  match Text.fromUtf8 page.name with
  | none => .skipped
  | some name =>
      match stripSuffix markdownSuffix name with
      | none => .skipped
      | some slug =>
          match page.outcome with
          | .notRegular => .skipped
          | .symlink =>
              .failed (pagePath name ++ " is a symlink — refused".toList) []
          | .outsideCorpus =>
              .failed (pagePath name ++ " resolves outside the wiki".toList) []
          | .unreadable _ =>
              .failed (pagePath name ++ " is not readable".toList) []
          | .present bytes => checkSource slugs name slug bytes

def unreachableNotes (files linked : List Text) : List Text :=
  if files.length > 1 then
    files.flatMap fun name =>
      match stripSuffix markdownSuffix name with
      | some slug =>
          if slug ∈ linked then []
          else [pagePath name ++ ": no other page links [[".toList ++ slug ++
            "]] — unreachable except through INDEX.md".toList]
      | none => []
  else []

def literalHeading (pageType : Text) : Option Text :=
  (PageType.named pageType).map PageType.heading

/-- The headings of the generated region in their order. -/
def headings : List Text :=
  ["Gotchas".toList, "Patterns".toList, "Decisions".toList,
    "Workflow".toList, "Project state".toList,
    "Features — architecture pointers".toList]

/-- The label, the slug and the summary of a generated entry. -/
def parseGeneratedEntry (line : Text) : Option (Text × Text × Text) :=
  match Text.stripPrefix "- [".toList line with
  | none => none
  | some rest =>
      match splitOnceAt "](".toList rest with
      | none => none
      | some (label, rest) =>
          match splitOnceAt ") — ".toList rest with
          | none => none
          | some (destination, shown) =>
              match (Text.stripPrefix "pages/".toList destination).bind
                  (stripSuffix markdownSuffix) with
              | none => none
              | some slug =>
                  if label ≠ [] ∧ slug ≠ [] ∧ shown ≠ [] then
                    some (label, slug, shown)
                  else none

/-- The lines of the generated region, at every separator of Python's
`str.splitlines()`. -/
def logicalLines (source : Text) : List Text :=
  splitWhere isSplitlinesBoundary source

/-- The type and the summary of every page, by slug. -/
abbrev Expected := SlugMap (Text × Text)

structure RegionState where
  currentSection : Option Text
  lastHeadingRank : Option Nat
  previousSlug : Option Text
  seen : List Text
  seenHeadings : List Text
  failures : List Text

def RegionState.initial : RegionState := ⟨none, none, none, [], [], []⟩

def RegionState.fail (state : RegionState) (failures : List Text) :
    RegionState :=
  { state with failures := state.failures ++ failures }

def headingLine (state : RegionState) (heading : Text) : RegionState :=
  let moved :=
    { state with currentSection := some heading, previousSlug := none }
  if heading ∉ headings then
    moved.fail ["INDEX.md has unknown generated heading ".toList ++
      debug heading]
  else
    let rank := headings.idxOf heading
    let failures :=
      (if heading ∈ state.seenHeadings then
        ["INDEX.md repeats generated heading ".toList ++ debug heading]
      else []) ++
      if state.lastHeadingRank.any (fun last => rank ≤ last) then
        [("INDEX.md generated headings are not in canonical order " ++
          "at ").toList ++ debug heading]
      else []
    { moved.fail failures with
      seenHeadings := heading :: state.seenHeadings
      lastHeadingRank := some rank }

/-- What the page of a slug says against the entry of the slug. -/
def expectedFailures (state : RegionState) (slug shown : Text) :
    Option (Text × Text) → List Text
  | none => []
  | some (pageType, summary) =>
      (if shown ≠ summary then
        ["INDEX.md shows a summary for ".toList ++ slug ++
          " that its page does not carry".toList]
      else []) ++
      if state.currentSection ≠ literalHeading pageType then
        ["INDEX.md places ".toList ++ slug ++ " under ".toList ++
          debugOption state.currentSection ++ ", expected ".toList ++
          debugOption (literalHeading pageType)]
      else []

def entryLineChecks (expected : Expected) (state : RegionState)
    (label slug shown : Text) : RegionState :=
  let failures :=
    (if state.previousSlug.any (fun previous => Text.le slug previous) then
      ["INDEX.md entries are not in canonical order at ".toList ++ slug]
    else []) ++
    (if slug ∈ state.seen then
      ["INDEX.md lists ".toList ++ slug ++ " more than once".toList]
    else []) ++
    (if label ≠ slug then
      ["INDEX.md labels ".toList ++ slug ++ " as ".toList ++ debug label]
    else []) ++
    expectedFailures state slug shown (expected.get slug)
  { state.fail failures with
    previousSlug := some slug
    seen := slug :: state.seen }

def regionLine (expected : Expected) (state : RegionState) (line : Text) :
    RegionState :=
  if line = [] then state
  else
    match Text.stripPrefix "## ".toList line with
    | some heading => headingLine state heading
    | none =>
        match parseGeneratedEntry line with
        | some (label, slug, shown) =>
            entryLineChecks expected state label slug shown
        | none =>
            state.fail ["INDEX.md has non-canonical generated line ".toList ++
              debug line]

/-- The failures of the line-by-line validation of a generated region. -/
def regionFailures (expected : Expected) (region : Text) : List Text :=
  let state := (logicalLines region).foldl (regionLine expected) .initial
  let slugs := expected.map Prod.fst
  let expectedHeadings :=
    (expected.filterMap fun entry => literalHeading entry.2.1).eraseDups
  state.failures ++
    (if sameSet state.seen slugs then []
    else ["INDEX.md entry set differs from the pages: ".toList ++
      debugList (symmetricDifference state.seen.eraseDups slugs)]) ++
    if sameSet state.seenHeadings expectedHeadings then []
    else ["INDEX.md generated heading set differs from the page types: ".toList ++
      debugList (symmetricDifference state.seenHeadings.eraseDups
        expectedHeadings)]

/-- The pages as the catalog takes them. -/
def renderPages (pages : List (Text × Fields)) : List IndexPage :=
  pages.filterMap fun (name, fields) => do
    let slug ← stripSuffix markdownSuffix name
    let pageType ← (fields.get "type".toList).bind PageType.named
    let summary ← fields.get "summary".toList
    return ⟨slug, pageType, summary⟩

def expectedEntries (pages : List (Text × Fields)) : Expected :=
  SlugMap.collect (pages.filterMap fun (name, fields) => do
    let slug ← stripSuffix markdownSuffix name
    let pageType ← fields.get "type".toList
    let summary ← fields.get "summary".toList
    return (slug, pageType, summary))

def cannotVerify (error : IndexError) : Text :=
  "INDEX.md cannot be verified: ".toList ++ error.display

/-- The comparison with what the catalog would produce. -/
def catalogFailures (index : Text) (pages : List IndexPage) : List Text :=
  match rebuildIndex index pages with
  | .ok canonical =>
      if canonical ≠ index then
        [("INDEX.md differs from what catalog would produce — run " ++
          "`yams-wiki catalog .agents/memory`").toList]
      else []
  | .error error => [cannotVerify error]

def validateGeneratedIndex (index : Text) (pages : List (Text × Fields)) :
    List Text :=
  catalogFailures index (renderPages pages) ++
    match generatedRegion index with
    | .error error => [cannotVerify error]
    | .ok region => regionFailures (expectedEntries pages) region

def isolationNotes (snapshot : WikiSnapshot) : List Text :=
  match snapshot.isolationNote with
  | none => []
  | some note =>
      ["this check ran without isolation (".toList ++ note ++
        "); a concurrent write could not have been excluded".toList]

/-- The failures before the generated region is looked at. -/
def structureFailures (snapshot : WikiSnapshot) (index : Text) : List Text :=
  snapshot.pages.flatMap entryFailures ++
    orphanFailures index (pageFiles snapshot) ++
    danglingFailures index (pageFiles snapshot) ++
    snapshot.pages.flatMap fun page =>
      (checkPage (pageSlugs snapshot) page).failures

def validPages (snapshot : WikiSnapshot) : List (Text × Fields) :=
  snapshot.pages.filterMap fun page =>
    (checkPage (pageSlugs snapshot) page).valid

def validateWiki (snapshot : WikiSnapshot) : WikiCheckReport :=
  let pageCount := (regularPages snapshot).length
  match Text.fromUtf8 snapshot.index with
  | none =>
      ⟨[toStringLossy (PathBytes.join snapshot.corpus
          (Text.toBytes "INDEX.md".toList)) ++ " is not valid UTF-8".toList],
        isolationNotes snapshot, pageCount, snapshot.isolated⟩
  | some index =>
      let checks := snapshot.pages.map (checkPage (pageSlugs snapshot))
      let failures := structureFailures snapshot index
      let allFailures :=
        if failures = [] then
          validateGeneratedIndex index (validPages snapshot)
        else failures
      let notes := isolationNotes snapshot ++ checks.flatMap PageCheck.notes ++
        unreachableNotes (pageFiles snapshot) (checks.flatMap PageCheck.linked)
      ⟨allFailures.eraseDups, notes.eraseDups, pageCount, snapshot.isolated⟩

end Checks

end Yams.Wiki
