/-
The catalog of a wiki: the generated region of `INDEX.md` between its two
markers, and the entries that a list of pages renders to.  Offsets count
characters.
-/
import Yams.WikiPage

namespace Yams.Wiki

def beginMarker : Text :=
  ("<!-- BEGIN GENERATED INDEX — edited by yams-wiki catalog, " ++
    "not by hand -->").toList

def endMarker : Text := "<!-- END GENERATED INDEX -->".toList

def typeOrder : List PageType :=
  [.gotcha, .pattern, .decision, .workflow, .projectState, .feature]

structure IndexPage where
  slug : Text
  pageType : PageType
  summary : Text
  deriving DecidableEq

structure IndexCheck where
  canonical : Bool
  diff : Option Text
  deriving DecidableEq

inductive IndexError
  | shape (detail : Text)
  | page (page detail : Text)
  deriving DecidableEq

structure MarkerRegion where
  headEnd : Nat
  tailStart : Nat
  deriving DecidableEq

def isLineEnd (c : Char) : Bool := c = '\n' ∨ c = '\r'

/-- The characters from `start` to `stop` are a complete line. -/
def isCompleteLine (source : Text) (start stop : Nat) : Bool :=
  (start = 0 ∨ source[start - 1]?.any isLineEnd) ∧
    (stop = source.length ∨ source[stop]?.any isLineEnd)

def markerCountProblem (name : Text) (found : Nat) : IndexError :=
  .shape ("expected exactly one ".toList ++ name ++ " marker, found ".toList ++
    Text.ofNat found)

def markerRegionWithBegin (current marker : Text) :
    Except IndexError MarkerRegion :=
  match matchIndices marker 0 0 current with
  | [start] =>
      match matchIndices endMarker 0 0 current with
      | [stop] =>
          if ¬ isCompleteLine current start (start + marker.length) then
            .error (.shape "BEGIN marker is not a complete line".toList)
          else if ¬ isCompleteLine current stop (stop + endMarker.length) then
            .error (.shape "END marker is not a complete line".toList)
          else if stop < start + marker.length then
            .error (.shape "END marker appears before BEGIN marker".toList)
          else
            .ok ⟨min (start + marker.length + 1) current.length, stop⟩
      | ends => .error (markerCountProblem "END".toList ends.length)
  | begins => .error (markerCountProblem "BEGIN".toList begins.length)

def markerRegion (current : Text) : Except IndexError MarkerRegion :=
  markerRegionWithBegin current beginMarker

def generatedRegion (current : Text) : Except IndexError Text := do
  let region ← markerRegion current
  return (current.take region.tailStart).drop region.headEnd

/-- `has_index_link_shape`: an opening whose first `.md)` comes after at least
one character and before no other parenthesis. -/
def hasIndexLinkShape : Text → Bool
  | [] => false
  | c :: rest =>
      (match Text.stripPrefix linkOpening (c :: rest) with
        | some after =>
            match splitOnceAt ".md)".toList after with
            | some (name, _) => name ≠ [] ∧ ')' ∉ name
            | none => false
        | none => false) || hasIndexLinkShape rest

def summaryCharacterProblem : Text → Option Text
  | [] => none
  | c :: rest =>
      if isSplitlinesBoundary c then
        some "summary contains a line boundary".toList
      else if isControl c then
        some "summary contains a control character".toList
      else summaryCharacterProblem rest

def summaryProblem (summary : Text) : Option Text :=
  if pythonTrim summary = [] then some "summary is empty".toList
  else
    match summaryCharacterProblem summary with
    | some problem => some problem
    | none =>
        if contains "<!--".toList summary ∨ contains "-->".toList summary then
          some "summary contains an HTML comment delimiter".toList
        else if hasIndexLinkShape summary then
          some "summary contains index-link-shaped text".toList
        else none

/-- The checks of the pages of a catalog, whose first slugs are `seen`. -/
def validatePagesFrom : List Text → List IndexPage → Except IndexError Unit
  | _, [] => .ok ()
  | seen, page :: rest =>
      match validateSlug page.slug with
      | .error .tooLong =>
          .error (.page page.slug "slug must be at most 64 bytes".toList)
      | .error _ => .error (.page page.slug "slug is not [a-z0-9-]+".toList)
      | .ok () =>
          if page.slug ∈ seen then
            .error (.page page.slug "slug appears more than once".toList)
          else
            match summaryProblem page.summary with
            | some problem => .error (.page page.slug problem)
            | none => validatePagesFrom (page.slug :: seen) rest

def validatePages (pages : List IndexPage) : Except IndexError Unit :=
  validatePagesFrom [] pages

/-- The pages of one type, by slug. -/
def rowsOf (pages : List IndexPage) (pageType : PageType) : List IndexPage :=
  (pages.filter fun page => page.pageType = pageType).mergeSort
    fun left right => Text.le left.slug right.slug

def entryLine (page : IndexPage) : Text :=
  "- [".toList ++ page.slug ++ "](pages/".toList ++ page.slug ++
    ".md) — ".toList ++ page.summary

def renderGroup (pageType : PageType) (rows : List IndexPage) : Text :=
  "## ".toList ++ pageType.heading ++ "\n\n".toList ++
    rows.flatMap fun page => entryLine page ++ "\n".toList

/-- The groups of the types that have pages. -/
def groupsOf (pages : List IndexPage) : List Text :=
  typeOrder.filterMap fun pageType =>
    if rowsOf pages pageType = [] then none
    else some (renderGroup pageType (rowsOf pages pageType))

def renderEntries (pages : List IndexPage) : Text :=
  if groupsOf pages = [] then "\n".toList
  else Text.join "\n".toList (groupsOf pages)

def rebuildIndex (current : Text) (pages : List IndexPage) :
    Except IndexError Text := do
  let region ← markerRegion current
  validatePages pages
  return current.take region.headEnd ++ "\n".toList ++ renderEntries pages ++
    "\n".toList ++ current.drop region.tailStart

def diffLines (mark : Char) (text : Text) : Text :=
  (nativeLines [] text).flatMap fun (line, _) => mark :: line ++ ['\n']

def unifiedDiff (current canonical : Text) : Text :=
  "--- INDEX.md\n+++ canonical INDEX.md\n@@ -1,".toList ++
    Text.ofNat (nativeLines [] current).length ++ " +1,".toList ++
    Text.ofNat (nativeLines [] canonical).length ++ " @@\n".toList ++
    diffLines '-' current ++ diffLines '+' canonical

def compareIndex (current canonical : Text) : IndexCheck :=
  if canonical = current then ⟨true, none⟩
  else ⟨false, some (unifiedDiff current canonical)⟩

def checkIndex (current : Text) (pages : List IndexPage) :
    Except IndexError IndexCheck := do
  let canonical ← rebuildIndex current pages
  return compareIndex current canonical

/-- The stem of an immediate `.md` page: `Path::parent` is empty,
`Path::extension` is `md`. -/
def markdownStem (path : PathBuf) : Option Bytes :=
  if PathBytes.isAbsolute path ∨ (PathBytes.parts path).length ≠ 1 then none
  else
    match (PathBytes.fileName path).map PathBytes.splitExtension with
    | some (stem, some extension) =>
        if extension = Text.toBytes "md".toList then some stem else none
    | _ => none

def parsePageType (value : Text) : Option PageType := PageType.named value

/-- The checks of the fields of a page against the slug of its file. -/
def parseIndexFields (filename slug : Text) (fields : Fields) :
    Except IndexError IndexPage :=
  if fields.isEmpty then
    .error (.page filename "no parseable frontmatter".toList)
  else if fields.get "slug".toList ≠ some slug then
    .error (.page filename "declares a mismatched slug".toList)
  else
    match validateSlug slug with
    | .error .tooLong =>
        .error (.page filename "slug must be at most 64 bytes".toList)
    | .error _ =>
        .error (.page filename "filename is not slug-shaped".toList)
    | .ok () =>
        match (fields.get "type".toList).bind parsePageType with
        | none =>
            .error (.page filename "has an unknown or missing type".toList)
        | some pageType =>
            let summary := (fields.get "summary".toList).getD []
            match summaryProblem summary with
            | some problem => .error (.page filename problem)
            | none => .ok ⟨slug, pageType, summary⟩

def parseIndexPage (filename source : Text) : Except IndexError IndexPage :=
  match markdownStem filename.toBytes with
  | none =>
      .error (.page filename
        "expected an immediate lowercase .md page".toList)
  | some stem =>
      match Text.fromUtf8 stem with
      | none => .error (.page filename "filename is not valid UTF-8".toList)
      | some slug => parseIndexFields filename slug (parseFrontmatter source).fields

end Yams.Wiki
