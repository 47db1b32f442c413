/-
The compatibility check of a captured wiki: the strict reading of every page,
and the constructs that the supported Obsidian profile leaves out.
-/
import Yams.WikiCheck

namespace Yams.Wiki

/-- `Regex::find_iter`, of a pattern that is given by the length of its match at
the start of a text.  The number counts what the last match still covers. -/
def findIter (matchAt : Text → Option Nat) : Nat → Text → List Text
  | _, [] => []
  | covered + 1, _ :: rest => findIter matchAt covered rest
  | 0, c :: rest =>
      match matchAt (c :: rest) with
      | some (length + 1) =>
          (c :: rest).take (length + 1) :: findIter matchAt length rest
      | _ => findIter matchAt 0 rest

def isNotBracket (c : Char) : Bool := c ≠ ']'

/-- The run of `[^\]]+` between an opening and `]]`, and its length with both. -/
def bracketed (opening text : Text) : Option (Text × Nat) :=
  match Text.stripPrefix opening text with
  | none => none
  | some rest =>
      let inner := rest.takeWhile isNotBracket
      if inner ≠ [] ∧ "]]".toList <+: rest.dropWhile isNotBracket then
        some (inner, opening.length + inner.length + 2)
      else none

/-- A match of `!\[\[[^\]]+\]\]`. -/
def embedAt (text : Text) : Option Nat :=
  (bracketed "![[".toList text).map Prod.snd

/-- A match of `\[\[([^\]]+)\]\]`. -/
def anyLinkAt (text : Text) : Option Nat :=
  (bracketed "[[".toList text).map Prod.snd

/-- The group of a match of `\[\[([^\]]+)\]\]`. -/
def linkInner (link : Text) : Text := (link.drop 2).takeWhile isNotBracket

/-- A match of `\[\[[a-z0-9-]+#\^[^\]|]*(?:\|[^\]]*)?\]\]`: no run takes in the
character that has to follow it. -/
def blockRefAt (text : Text) : Option Nat :=
  match Text.stripPrefix "[[".toList text with
  | none => none
  | some rest =>
      if rest.takeWhile isSlugChar = [] then none
      else
        match Text.stripPrefix "#^".toList (rest.dropWhile isSlugChar) with
        | none => none
        | some fragment =>
            let after := afterAlias (fragment.dropWhile isFragmentChar)
            if "]]".toList <+: after then
              some (text.length - after.length + 2)
            else none

def isBlockIdChar (c : Char) : Bool := isAsciiAlphanumeric c ∨ c = '-'

/-- What `\s*$` matches of the white space before `after`, in a pattern where
`$` also stands before a line feed: all of it at the end of the text, and else
what comes before its last line feed. -/
def trailingSpace (space after : Text) : Option Nat :=
  if after = [] then some space.length
  else if '\n' ∈ space then
    some ((space.reverse.dropWhile fun c => c ≠ '\n').length - 1)
  else none

/-- A match of `(?m)\s\^[a-zA-Z0-9-]+\s*$`. -/
def blockIdAt : Text → Option Nat
  | c :: '^' :: rest =>
      let name := rest.takeWhile isBlockIdChar
      let space := (rest.dropWhile isBlockIdChar).takeWhile Text.isWhitespace
      let after := (rest.dropWhile isBlockIdChar).dropWhile Text.isWhitespace
      if Text.isWhitespace c ∧ name ≠ [] then
        (trailingSpace space after).map fun matched =>
          2 + name.length + matched
      else none
  | _ => none

/-- `^[a-z0-9-]+$` -/
def slugShape (target : Text) : Bool := target ≠ [] ∧ target.all isSlugChar

def linkTarget (inner : Text) : Text :=
  inner.takeWhile fun c => c ≠ '|' ∧ c ≠ '#'

structure WikiCompatReport where
  violations : List Text
  pageCount : Nat
  deriving DecidableEq

variable [Unicode]

def strictViolations (name source : Text) : List Text :=
  match parseWikiPage source with
  | .ok _ => []
  | .error error => [pagePath name ++ ": ".toList ++ error.message]

/-- The constructs of a page outside the profile. -/
def profileViolations (name source : Text) : List Text :=
  (findIter embedAt 0 source).map (fun found =>
    pagePath name ++ " uses embed ".toList ++ found ++
      " — embeds are outside the supported Obsidian profile".toList) ++
  (findIter blockRefAt 0 source).map (fun found =>
    pagePath name ++ " uses block reference ".toList ++ found ++
      (" — block references are outside the supported " ++
        "Obsidian profile").toList) ++
  (findIter blockIdAt 0 source).map (fun found =>
    pagePath name ++ " uses block ID ".toList ++ Text.trim found ++
      " — block IDs are outside the supported Obsidian profile".toList) ++
  (findIter anyLinkAt 0 source).flatMap fun link =>
    if slugShape (linkTarget (linkInner link)) then []
    else [pagePath name ++ " links [[".toList ++ linkInner link ++
      "]] — target is not a Yams slug".toList]

/-- A page that takes part in the check: its name and its bytes. -/
def compatPage (page : CapturedPage) : Option (Text × Bytes) :=
  match Text.fromUtf8 page.name, page.outcome with
  | some name, .present bytes => some (name, bytes)
  | _, _ => none

def pageViolations (name : Text) (bytes : Bytes) : List Text :=
  match Text.fromUtf8 bytes with
  | none => [pagePath name ++ " is not valid UTF-8".toList]
  | some source => strictViolations name source ++ profileViolations name source

def compatSnapshot (snapshot : WikiSnapshot) : WikiCompatReport :=
  let pages := snapshot.pages.filterMap compatPage
  ⟨(pages.flatMap fun page => pageViolations page.1 page.2).eraseDups,
    pages.length⟩

end Yams.Wiki
