/-
Wiki pages: slugs, the fields of a page, the requests that write one, the text
a request is rendered to, and the strict reading of a page.
-/
import Yams.Frontmatter
import Yams.Scan
import Yams.WikiPatterns

namespace Yams.Wiki

def slugMaxBytes : Nat := 64

def canonicalKeys : List Text :=
  ["slug".toList, "title".toList, "type".toList, "status".toList,
    "owner".toList, "updated".toList, "verified".toList, "summary".toList]

inductive SlugProblem
  | empty
  | tooLong
  | invalidCharacter
  deriving DecidableEq

def validateSlug (value : Text) : Except SlugProblem Unit :=
  if value = [] then .error .empty
  else if value.byteLength > slugMaxBytes then .error .tooLong
  else if value.all isSlugChar then .ok ()
  else .error .invalidCharacter

theorem isSlugChar_toNat {c : Char} (hc : isSlugChar c = true) :
    0x2d ≤ c.toNat ∧ c.toNat ≤ 0x7a := by
  rcases of_decide_eq_true hc with ⟨hlow, hhigh⟩ | ⟨hlow, hhigh⟩ | rfl
  · have hfirst : 0x61 ≤ c.toNat := hlow
    have hlast : c.toNat ≤ 0x7a := hhigh
    omega
  · have hfirst : 0x30 ≤ c.toNat := hlow
    have hlast : c.toNat ≤ 0x39 := hhigh
    omega
  · decide

theorem slugChars_of_validateSlug {slug : Text} (h : validateSlug slug = .ok ()) :
    slug ≠ [] ∧ slug.all isSlugChar = true := by
  unfold validateSlug at h
  split at h
  · cases h
  next hne =>
  split at h
  · cases h
  split at h
  next hall => exact ⟨hne, hall⟩
  · cases h

theorem not_mem_slug {slug : Text} (h : validateSlug slug = .ok ()) {c : Char}
    (hc : isSlugChar c = false) : c ∉ slug := by
  intro hmem
  have hall := List.all_eq_true.1 (slugChars_of_validateSlug h).2 c hmem
  rw [hc] at hall
  cases hall

structure SchemaError where
  message : Text
  deriving DecidableEq

inductive PageType
  | gotcha
  | pattern
  | projectState
  | feature
  | workflow
  | decision
  deriving DecidableEq

namespace PageType

def asStr : PageType → Text
  | gotcha => "gotcha".toList
  | pattern => "pattern".toList
  | projectState => "project-state".toList
  | feature => "feature".toList
  | workflow => "workflow".toList
  | decision => "decision".toList

def heading : PageType → Text
  | gotcha => "Gotchas".toList
  | pattern => "Patterns".toList
  | decision => "Decisions".toList
  | workflow => "Workflow".toList
  | projectState => "Project state".toList
  | feature => "Features — architecture pointers".toList

/-- The type with the given name; every reader of a type is this match. -/
def named (value : Text) : Option PageType :=
  if value = "gotcha".toList then some gotcha
  else if value = "pattern".toList then some pattern
  else if value = "project-state".toList then some projectState
  else if value = "feature".toList then some feature
  else if value = "workflow".toList then some workflow
  else if value = "decision".toList then some decision
  else none

def parse (value : Text) : Except SchemaError PageType :=
  match named value with
  | some pageType => .ok pageType
  | none => .error ⟨"page has type: ".toList ++ value ++
      (" — expected one of decision | feature | gotcha | pattern | " ++
        "project-state | workflow").toList⟩

end PageType

inductive Owner
  | claude
  | codex
  | shared
  deriving DecidableEq

namespace Owner

def asStr : Owner → Text
  | claude => "claude".toList
  | codex => "codex".toList
  | shared => "shared".toList

def named (value : Text) : Option Owner :=
  if value = "claude".toList then some claude
  else if value = "codex".toList then some codex
  else if value = "shared".toList then some shared
  else none

def parse (value : Text) : Except SchemaError Owner :=
  match named value with
  | some owner => .ok owner
  | none => .error ⟨"page has owner: ".toList ++ value ++
      " — expected one of claude | codex | shared".toList⟩

end Owner

inductive Status
  | current
  | historical
  | inProgress
  deriving DecidableEq

namespace Status

def asStr : Status → Text
  | current => "current".toList
  | historical => "historical".toList
  | inProgress => "in-progress".toList

def named (value : Text) : Option Status :=
  if value = "current".toList then some current
  else if value = "historical".toList then some historical
  else if value = "in-progress".toList then some inProgress
  else none

def parse (value : Text) : Except SchemaError Status :=
  match named value with
  | some status => .ok status
  | none => .error ⟨"page has status: ".toList ++ value ++
      " — expected one of current | historical | in-progress".toList⟩

end Status

structure CreateRequest where
  title : Text
  pageType : PageType
  owner : Owner
  fact : Text
  why : Text
  howToApply : Text
  falsifiedBy : Text
  summary : Text
  related : List Text
  deriving DecidableEq

structure UpdateRequest where
  title : Text
  pageType : PageType
  fact : Text
  why : Text
  howToApply : Text
  falsifiedBy : Text
  summary : Text
  related : List Text
  update : Bool
  target : Text
  expectedSha256 : Option Text
  deriving DecidableEq

structure ParsedWikiPage where
  fields : Fields
  slug : Text
  title : Text
  pageType : PageType
  status : Status
  owner : Owner
  updated : Text
  verified : Text
  summary : Text
  deriving DecidableEq

structure RenderedUpdate where
  page : Text
  contentChanged : Bool
  deriving DecidableEq

def isPythonWhitespace (c : Char) : Bool :=
  let n := c.toNat
  (9 ≤ n ∧ n ≤ 0xd) ∨ (0x1c ≤ n ∧ n ≤ 0x20) ∨ n = 0x85 ∨ n = 0xa0 ∨
    n = 0x1680 ∨ (0x2000 ≤ n ∧ n ≤ 0x200a) ∨ n = 0x2028 ∨ n = 0x2029 ∨
    n = 0x202f ∨ n = 0x205f ∨ n = 0x3000

def pythonTrim (value : Text) : Text :=
  Text.trimMatches isPythonWhitespace value

def isSplitlinesBoundary (c : Char) : Bool :=
  let n := c.toNat
  n = 0xa ∨ n = 0xd ∨ n = 0xb ∨ n = 0xc ∨ n = 0x1c ∨ n = 0x1d ∨ n = 0x1e ∨
    n = 0x85 ∨ n = 0x2028 ∨ n = 0x2029

/-- The control characters that a scalar refuses. -/
def isControl (c : Char) : Bool :=
  c.toNat < 0x20 ∨ (0x7f ≤ c.toNat ∧ c.toNat ≤ 0x9f)

/-- At least `width` lowercase hexadecimal digits, as `{:0width$x}`. -/
def hexPadded (width n : Nat) : Text :=
  let digits := Nat.toDigits 16 n
  List.replicate (width - digits.length) '0' ++ digits

def pythonReprChar (c : Char) : Text :=
  let escaped :=
    if c = '\t' then "\\t".toList
    else if c = '\n' then "\\n".toList
    else if c = '\r' then "\\r".toList
    else if c.toNat = 0x2028 then "\\u2028".toList
    else if c.toNat = 0x2029 then "\\u2029".toList
    else if c.toNat ≤ 0xff then "\\x".toList ++ hexPadded 2 c.toNat
    else [c]
  '\'' :: escaped ++ ['\'']

def unicodeEscape (c : Char) : Text :=
  if c.toNat ≤ 0xff then "\\x".toList ++ hexPadded 2 c.toNat
  else if c.toNat ≤ 0xffff then "\\u".toList ++ hexPadded 4 c.toNat
  else "\\U".toList ++ hexPadded 8 c.toNat

section Requests

variable [Unicode]

def isPythonPrintable (c : Char) : Bool :=
  c = ' ' ∨ ¬ Unicode.generalCategory c ∈
    [.control, .format, .lineSeparator, .paragraphSeparator, .privateUse,
      .spaceSeparator, .surrogate, .unassigned]

def pythonReprString (value : Text) : Text :=
  let quote := if '\'' ∈ value ∧ '"' ∉ value then '"' else '\''
  let escaped := value.flatMap fun c =>
    if c = '\\' then "\\\\".toList
    else if c = '\t' then "\\t".toList
    else if c = '\n' then "\\n".toList
    else if c = '\r' then "\\r".toList
    else if c = quote then ['\\', c]
    else if ¬ isPythonPrintable c then unicodeEscape c
    else [c]
  quote :: escaped ++ [quote]

def isAsciiLowercase (c : Char) : Bool := 'a' ≤ c ∧ c ≤ 'z'

def isAsciiDigit (c : Char) : Bool := '0' ≤ c ∧ c ≤ '9'

/-- The slug so far and whether a separator is pending, after the rest of the
folded title. -/
def slugChars : Text → Bool → Text → Text
  | slug, _, [] => slug
  | slug, pendingSeparator, c :: rest =>
      if isAsciiLowercase c ∨ isAsciiDigit c then
        let separated :=
          if pendingSeparator ∧ slug ≠ [] then slug ++ ['-'] else slug
        slugChars (separated ++ [c]) false rest
      else slugChars slug true rest

/-- Cut a slug that is too long at its last separator. -/
def truncateSlug (slug : Text) : Text :=
  if slug.length > slugMaxBytes then
    let cut := slug.take slugMaxBytes
    if '-' ∈ cut then ((cut.reverse.dropWhile (· ≠ '-')).drop 1).reverse
    else cut
  else slug

def slugify (title : Text) : Except SchemaError Text :=
  let folded := (Unicode.caseFold (Unicode.nfkd title)).filter fun c =>
    Unicode.canonicalCombiningClass c = 0
  let truncated := truncateSlug (slugChars [] false folded)
  let slug := (truncated.reverse.dropWhile (· = '-')).reverse
  match validateSlug slug with
  | .ok () => .ok slug
  | .error .empty => .error ⟨"title produces an empty slug".toList⟩
  | .error _ =>
      .error ⟨"slugify emits only bounded canonical slug bytes".toList⟩

def requireNonempty (field value : Text) : Except SchemaError Unit :=
  if pythonTrim value = [] then .error ⟨field ++ " is required".toList⟩
  else .ok ()

def isIsoDate (value : Text) : Bool :=
  value.length = 10 ∧
    value.zipIdx.all fun (c, index) =>
      if index = 4 ∨ index = 7 then c = '-' else isDecimalNumber c

def validateToday (today : Text) : Except SchemaError Unit :=
  if isIsoDate today then .ok ()
  else .error ⟨"today: ".toList ++ today ++ " — expected YYYY-MM-DD".toList⟩

end Requests

/-- The first problem of the characters of a scalar, in order. -/
def characterProblem : Text → Option Text
  | [] => none
  | c :: rest =>
      if isSplitlinesBoundary c then
        some ("summary contains a line boundary (".toList ++
          pythonReprChar c ++ ")".toList)
      else if isControl c then
        some ("summary contains a control character (".toList ++
          pythonReprChar c ++ ")".toList)
      else characterProblem rest

/-- `Regex::is_match` of an index link. -/
def matchesIndexLink : Text → Bool
  | [] => false
  | c :: rest => (indexLinkAt (c :: rest)).isSome || matchesIndexLink rest

def scalarProblem (value : Text) : Option Text :=
  if pythonTrim value = [] then some "summary is empty".toList
  else
    match characterProblem value with
    | some problem => some problem
    | none =>
        if contains "<!--".toList value ∨ contains "-->".toList value then
          some "summary contains an HTML comment delimiter".toList
        else if contains linkOpening value ∧ contains ".md)".toList value ∧
            matchesIndexLink value then
          some "summary contains index-link-shaped text".toList
        else none

def validateFrontmatterScalar (field value : Text) : Except SchemaError Unit :=
  match scalarProblem value with
  | some problem => .error ⟨field ++ ": ".toList ++ problem⟩
  | none =>
      if Text.trimMatches (fun c => c = '\'' ∨ c = '"') (pythonTrim value) = []
      then
        .error ⟨field ++ (": is nothing but quotes and whitespace — the " ++
          "frontmatter parser strips those, leaving an empty field").toList⟩
      else if contains backtickFence value then
        .error ⟨field ++ ": contains a code fence marker (".toList ++
          backtickFence ++
          ") — a one-line frontmatter scalar cannot open a block".toList⟩
      else if contains tildeFence value then
        .error ⟨field ++ ": contains a code fence marker (".toList ++
          tildeFence ++
          ") — a one-line frontmatter scalar cannot open a block".toList⟩
      else .ok ()

inductive CommonRequest
  | create (request : CreateRequest)
  | update (request : UpdateRequest)

namespace CommonRequest

def title : CommonRequest → Text
  | create request => request.title
  | update request => request.title

def pageType : CommonRequest → PageType
  | create request => request.pageType
  | update request => request.pageType

def fact : CommonRequest → Text
  | create request => request.fact
  | update request => request.fact

def why : CommonRequest → Text
  | create request => request.why
  | update request => request.why

def howToApply : CommonRequest → Text
  | create request => request.howToApply
  | update request => request.howToApply

def falsifiedBy : CommonRequest → Text
  | create request => request.falsifiedBy
  | update request => request.falsifiedBy

def summary : CommonRequest → Text
  | create request => request.summary
  | update request => request.summary

def related : CommonRequest → List Text
  | create request => request.related
  | update request => request.related

end CommonRequest

/-- The line of links to related pages, each page once. -/
def relatedLine (related : List Text) : Text :=
  let links := related.eraseDups.map fun slug =>
    "[[".toList ++ slug ++ "]]".toList
  if links = [] then []
  else "\nRelated: ".toList ++ Text.join ", ".toList links ++ "\n".toList

def renderPage (request : CommonRequest) (slug : Text) (owner : Owner)
    (status : Status) (updated verified : Text) : Text :=
  "---\nslug: ".toList ++ slug ++ "\ntitle: ".toList ++ request.title ++
    "\ntype: ".toList ++ request.pageType.asStr ++
    "\nstatus: ".toList ++ status.asStr ++
    "\nowner: ".toList ++ owner.asStr ++
    "\nupdated: ".toList ++ updated ++
    "\nverified: ".toList ++ verified ++
    "\nsummary: ".toList ++ request.summary ++
    "\n---\n\n".toList ++ request.fact ++
    "\n\n**Why:** ".toList ++ request.why ++
    "\n\n**How to apply:** ".toList ++ request.howToApply ++
    "\n\n**Falsified by:** ".toList ++ request.falsifiedBy ++
    "\n".toList ++ relatedLine request.related

section Reading

/-- A line of Python's `str.splitlines()` and the source from its start on. -/
structure SourceLine where
  content : Text
  source : Text
  deriving DecidableEq

/-- `str.splitlines()`; the flag says that the character before was a carriage
return, whose line a line feed still belongs to. -/
def pythonLines : Bool → Text → List SourceLine
  | _, [] => []
  | afterReturn, c :: rest =>
      if afterReturn ∧ c = '\n' then pythonLines false rest
      else if isSplitlinesBoundary c then
        ⟨[], c :: rest⟩ :: pythonLines (c = '\r') rest
      else
        match pythonLines false rest with
        | [] => [⟨[c], c :: rest⟩]
        | line :: lines => ⟨c :: line.content, c :: rest⟩ :: lines

def strictFieldLine (line : Text) : Option (Text × Text) := fieldLine line

def strictUnquote (value : Text) : Text := unquote value

def canonicalKey (key : Text) : Bool := canonicalKeys.contains key

def noFrontmatter : SchemaError :=
  ⟨"page has no parseable frontmatter block".toList⟩

/-- The lines of the block, and the lines after its closing marker. -/
def frontmatterBlock :
    List SourceLine → Option (List SourceLine × List SourceLine)
  | [] => none
  | line :: rest =>
      if line.content = frontmatterMarker then some ([], rest)
      else (frontmatterBlock rest).map fun (block, after) =>
        (line :: block, after)

/-- The fields of the lines of a block. -/
def wikiFields : Fields → List Text → Except SchemaError Fields
  | fields, [] => .ok fields
  | fields, line :: rest =>
      if Text.trim line = [] then .error noFrontmatter
      else if line.head? = some ' ' ∨ line.head? = some '\t' then
        if fields.isEmpty then .error noFrontmatter
        else wikiFields fields rest
      else
        match strictFieldLine line with
        | none => .error noFrontmatter
        | some (key, value) =>
            if ¬ canonicalKey key then
              .error ⟨"page has unknown frontmatter key: ".toList ++ key⟩
            else if (fields.get key).isSome then
              .error ⟨"page has duplicate frontmatter key: ".toList ++ key⟩
            else wikiFields (fields.insert key (strictUnquote value)) rest

def requireKeys (fields : Fields) : List Text → Except SchemaError Unit
  | [] => .ok ()
  | key :: keys =>
      if (fields.get key).isNone then
        .error ⟨"page is missing ".toList ++ key⟩
      else requireKeys fields keys

/-- The source after its byte order mark, if it has one. -/
def unmarked (source : Text) : Text :=
  (Text.stripPrefix [byteOrderMark] source).getD source

def parseFrontmatterFields (source : Text) : Except SchemaError Fields :=
  match pythonLines false (unmarked source) with
  | [] => .error noFrontmatter
  | first :: lines =>
      if first.content ≠ frontmatterMarker then .error noFrontmatter
      else
        match frontmatterBlock lines with
        | none => .error noFrontmatter
        | some (block, _) => do
            let fields ← wikiFields [] (block.map SourceLine.content)
            requireKeys fields canonicalKeys
            return fields

/-- `fields[key]`, of a key that the parser has found. -/
def Fields.at (fields : Fields) (key : Text) : Text := (fields.get key).getD []

def requiredPageField (fields : Fields) (field : Text) :
    Except SchemaError Text :=
  if Fields.at fields field = [] then
    .error ⟨"page is missing ".toList ++ field⟩
  else .ok (Fields.at fields field)

def validatePageSlug (slug : Text) : Except SchemaError Unit :=
  match validateSlug slug with
  | .ok () => .ok ()
  | .error .tooLong =>
      .error ⟨"page slug must be at most 64 bytes: ".toList ++ slug⟩
  | .error _ => .error ⟨"page has non-slug value: ".toList ++ slug⟩

def displayMissing (value : Text) : Text :=
  if value = [] then "(none)".toList else value

variable [Unicode]

/-- A check of a page, with the message of its failure. -/
def check (condition : Bool) (message : Text) : Except SchemaError Unit :=
  if condition then .ok () else .error ⟨message⟩

def parseWikiPage (source : Text) : Except SchemaError ParsedWikiPage := do
  let fields ← parseFrontmatterFields source
  let slug ← requiredPageField fields "slug".toList
  validatePageSlug slug
  let title ← requiredPageField fields "title".toList
  validateFrontmatterScalar "title".toList title
  let summary ← requiredPageField fields "summary".toList
  validateFrontmatterScalar "summary".toList summary
  let pageType ← PageType.parse (Fields.at fields "type".toList)
  let status ← Status.parse (Fields.at fields "status".toList)
  let owner ← Owner.parse (Fields.at fields "owner".toList)
  let updated ← requiredPageField fields "updated".toList
  let verified ← requiredPageField fields "verified".toList
  check (isIsoDate updated)
    ("page has updated: ".toList ++ updated ++
      " — expected YYYY-MM-DD".toList)
  check (isIsoDate verified)
    ("page has verified: ".toList ++ verified ++
      " — expected YYYY-MM-DD".toList)
  check (¬ verified < updated)
    ("page has verified: ".toList ++ verified ++ " before updated: ".toList ++
      updated ++ " — editing a page verifies it".toList)
  return { fields, slug, title, pageType, status, owner, updated, verified,
           summary }

end Reading

section Writing

variable [Unicode]

def firstLineReference (source : Text) : Option Text :=
  findReference (withoutUrls (withoutFences source))

/-- Equality of maps: the same entry under every key. -/
def sameFields (left right : Fields) : Bool :=
  (left.map Prod.fst ++ right.map Prod.fst).all fun key =>
    left.get key = right.get key

def ensureRenderedPage (page : Text) : Except SchemaError Unit := do
  let wiki ← parseWikiPage page
  let core := parseFrontmatter page
  let field :=
    (canonicalKeys.find? fun key =>
      wiki.fields.get key ≠ core.fields.get key).getD "frontmatter".toList
  check (sameFields wiki.fields core.fields)
    (field ++ (": wiki and search frontmatter parsers disagree about the " ++
      "rendered value").toList)
  check (wiki.fields.length = canonicalKeys.length)
    ("rendered page does not contain exactly one of every canonical " ++
      "frontmatter key").toList

def validateRelated (slug : Text) : List Text → Except SchemaError Unit
  | [] => .ok ()
  | related :: rest =>
      match validateSlug related with
      | .error .tooLong =>
          .error ⟨"related: ".toList ++ pythonReprString related ++
            " — slug must be at most 64 bytes".toList⟩
      | .error _ =>
          .error ⟨"related: ".toList ++ pythonReprString related ++
            " is not slug-shaped".toList⟩
      | .ok () =>
          if related = slug then
            .error ⟨"related links the page to itself".toList⟩
          else validateRelated slug rest

def validateCommon (request : CommonRequest) : Except SchemaError Text := do
  requireNonempty "title".toList request.title
  requireNonempty "fact".toList request.fact
  requireNonempty "why".toList request.why
  requireNonempty "how_to_apply".toList request.howToApply
  requireNonempty "falsified_by".toList request.falsifiedBy
  requireNonempty "summary".toList request.summary
  validateFrontmatterScalar "title".toList request.title
  validateFrontmatterScalar "summary".toList request.summary
  let slug ← slugify request.title
  validateRelated slug request.related
  let probe := renderPage request slug .shared .current "2026-01-01".toList
    "2026-01-01".toList
  match firstLineReference probe with
  | some reference =>
      .error ⟨"the page cites ".toList ++ reference ++
        " — line numbers drift; name the symbol instead".toList⟩
  | none => .ok slug

def validateCreate (request : CreateRequest) : Except SchemaError Text :=
  validateCommon (.create request)

def isSha256 (value : Text) : Bool :=
  value.length = 64 ∧ value.all fun c => isAsciiDigit c ∨ ('a' ≤ c ∧ c ≤ 'f')

def validateUpdate (request : UpdateRequest) : Except SchemaError Text := do
  requireNonempty "target".toList request.target
  check request.update "update must be true".toList
  check (request.expectedSha256.all isSha256)
    "expected_sha256 must be 64 lowercase hex characters".toList
  let slug ← validateCommon (.update request)
  check (slug = request.target)
    ("title does not slug to target — a rename is two pages and a forward " ++
      "link, which yams-wiki catalog owns").toList
  return slug

def validateUpdateRequest (request : UpdateRequest) (today : Text) :
    Except SchemaError Unit := do
  validateToday today
  let _ ← validateUpdate request
  return ()

def renderCreate (request : CreateRequest) (today : Text) :
    Except SchemaError Text := do
  validateToday today
  let slug ← validateCreate request
  let page := renderPage (.create request) slug request.owner .current today
    today
  ensureRenderedPage page
  return page

/-- The source after the closing marker of its frontmatter, if it has one. -/
def frontmatterBody (source : Text) : Option Text :=
  (frontmatterBlock ((pythonLines false source).drop 1)).map
    fun (_, after) => (after.head?.map SourceLine.source).getD []

/-- The source with its frontmatter in canonical key order. -/
def recanonicalizeFrontmatter (source : Text) (fields : Fields) : Text :=
  match frontmatterBody (unmarked source) with
  | none => unmarked source
  | some body =>
      "---\n".toList ++
        (canonicalKeys.flatMap fun key =>
          key ++ ": ".toList ++ Fields.at fields key ++ "\n".toList) ++
        "---\n".toList ++ body

/-- `str::split_inclusive` at line feeds. -/
def splitInclusive : Text → List Text
  | [] => []
  | c :: rest =>
      if c = '\n' then ['\n'] :: splitInclusive rest
      else
        match splitInclusive rest with
        | [] => [[c]]
        | line :: lines => (c :: line) :: lines

omit [Unicode] in
theorem splitInclusive_append_newline {line : Text} (hline : '\n' ∉ line)
    (rest : Text) :
    splitInclusive (line ++ '\n' :: rest) =
      (line ++ ['\n']) :: splitInclusive rest := by
  induction line with
  | nil => exact if_pos rfl
  | cons c line ih =>
      have hc : c ≠ '\n' := fun heq => hline (heq ▸ List.mem_cons_self)
      have hrest := ih fun hmem => hline (List.mem_cons_of_mem _ hmem)
      rw [List.cons_append, splitInclusive, if_neg hc, hrest]
      rfl

omit [Unicode] in
theorem splitInclusive_flatten (text : Text) : (splitInclusive text).flatten = text := by
  induction text with
  | nil => rfl
  | cons c rest ih =>
      rw [splitInclusive]
      split
      next hc => rw [List.flatten_cons, ih, hc, List.singleton_append]
      next hc =>
        cases hrest : splitInclusive rest with
        | nil =>
            rw [hrest] at ih
            rw [← ih]
            rfl
        | cons line lines =>
            rw [hrest] at ih
            rw [← ih]
            rfl

/-- Drop the date lines of the frontmatter; the flags say whether it has begun
and whether it has been closed. -/
def withoutDateLines : Bool → Bool → List Text → List Text
  | _, _, [] => []
  | frontmatter, closed, line :: rest =>
      let content :=
        if line.getLast? = some '\n' then line.dropLast else line
      if ¬ frontmatter ∧ content = frontmatterMarker then
        line :: withoutDateLines true closed rest
      else if frontmatter ∧ ¬ closed ∧ content = frontmatterMarker then
        line :: withoutDateLines frontmatter true rest
      else if frontmatter ∧ ¬ closed ∧
          ("updated:".toList <+: content ∨ "verified:".toList <+: content) then
        withoutDateLines frontmatter closed rest
      else line :: withoutDateLines frontmatter closed rest

def withoutDates (source : Text) : Text :=
  (withoutDateLines false false (splitInclusive source)).flatten

/-- `updated` is at most today. -/
def storedDateValid (updated today : Text) : Bool :=
  isIsoDate updated ∧ ¬ today < updated

variable {D : Type} [Sha256 D]

/-- The hexadecimal digest of a text. -/
def textDigest (D : Type) [Sha256 D] (text : Text) : Text :=
  Sha256.hex (Sha256.digest text.toBytes : D)

def storedOwner (slug : Text) (stored : Fields) : Except SchemaError Owner :=
  match Owner.named (Fields.at stored "owner".toList) with
  | some owner => .ok owner
  | none =>
      .error ⟨"pages/".toList ++ slug ++ ".md has owner: ".toList ++
        displayMissing (Fields.at stored "owner".toList) ++
        " — expected one of claude | codex | shared".toList⟩

def storedStatus (slug : Text) (stored : Fields) : Except SchemaError Status :=
  match Status.named (Fields.at stored "status".toList) with
  | some status => .ok status
  | none =>
      .error ⟨"pages/".toList ++ slug ++ ".md has status: ".toList ++
        displayMissing (Fields.at stored "status".toList) ++
        " — expected one of current | historical | in-progress".toList⟩

def renderUpdate (D : Type) [Sha256 D] (request : UpdateRequest)
    (current today : Text) : Except SchemaError RenderedUpdate := do
  validateToday today
  let _ ← validateUpdate request
  check (request.expectedSha256.all fun expected =>
      textDigest D current = expected)
    "the page changed since it was read".toList
  let stored ← parseFrontmatterFields current
  let slug ← requiredPageField stored "slug".toList
  validatePageSlug slug
  check (slug = request.target)
    ("target does not match stored page slug: ".toList ++ slug)
  let owner ← storedOwner slug stored
  let status ← storedStatus slug stored
  let updated := Fields.at stored "updated".toList
  check (storedDateValid updated today)
    ("pages/".toList ++ slug ++ ".md has updated: ".toList ++
      displayMissing updated ++
      " — expected YYYY-MM-DD no later than today (".toList ++ today ++
      ")".toList)
  let candidate := renderPage (.update request) slug owner status updated today
  let contentChanged : Bool := withoutDates candidate ≠
    withoutDates (recanonicalizeFrontmatter current stored)
  let page :=
    if contentChanged then
      renderPage (.update request) slug owner status today today
    else candidate
  ensureRenderedPage page
  return { page, contentChanged }

end Writing

end Yams.Wiki
