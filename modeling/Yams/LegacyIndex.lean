/-
The one-shot adoption of a legacy `INDEX.md`: a retired BEGIN marker is replaced,
and an index without markers keeps what comes before its first legacy heading.
-/
import Yams.WikiCheck

namespace Yams.Wiki

/-- A line and the offset where it starts; offsets count characters. -/
structure LogicalLine where
  start : Nat
  content : Text
  deriving DecidableEq

/-- The lines from `start` on; `line` holds what has been read of the first one, in
reverse. -/
def logicalLinesFrom (start : Nat) (line : Text) : Text → List LogicalLine
  | [] => if line = [] then [] else [⟨start, line.reverse⟩]
  | '\r' :: '\n' :: rest =>
      ⟨start, line.reverse⟩ :: logicalLinesFrom (start + line.length + 2) [] rest
  | c :: rest =>
      if isLineEnd c then
        ⟨start, line.reverse⟩ :: logicalLinesFrom (start + line.length + 1) [] rest
      else logicalLinesFrom start (c :: line) rest

def legacyHeadings : List Text :=
  ["## Gotchas — tooling and environment".toList,
    "## Gotchas — retrieval traps".toList,
    "## Decisions".toList,
    "## Patterns".toList,
    "## Workflow".toList,
    "## Features — architecture pointers".toList]

/-- The two characters of a masked pair of bytes. -/
def unmaskPair (pair : Nat) : Text :=
  [Char.ofNat ((pair ^^^ 0xa5a5) / 256), Char.ofNat ((pair ^^^ 0xa5a5) % 256)]

def retiredBeginMarkers : List Text :=
  ["<!-- BEGIN GENERATED INDEX — edited by ".toList ++
      [0xc8ca, 0xcbc0, 0xd1c4].flatMap unmaskPair ++
      "-wiki reindex, not by hand -->".toList,
    ("<!-- BEGIN GENERATED INDEX — edited by yams-wiki reindex, " ++
      "not by hand -->").toList]

def isLegacyEntry (line : Text) : Bool :=
  match Text.stripPrefix "- [".toList line with
  | none => false
  | some rest =>
      match splitOnceAt "](".toList rest with
      | none => false
      | some (label, rest) =>
          match splitOnceAt ") — ".toList rest with
          | none => false
          | some (destination, summary) =>
              if label = [] ∨ (summaryProblem summary).isSome then false
              else
                match (Text.stripPrefix "pages/".toList destination).bind
                    (stripSuffix markdownSuffix) with
                | none => false
                | some slug => (validateSlug slug).isOk

def isLegacyLine (line : Text) : Bool :=
  line = [] || legacyHeadings.contains line || isLegacyEntry line

/-- The number of the first line that is no known heading, exact entry or blank. -/
def firstUnknownLine (number : Nat) : List LogicalLine → Option Nat
  | [] => none
  | line :: rest =>
      if isLegacyLine line.content then firstUnknownLine (number + 1) rest
      else some number

/-- The index without its legacy lines, with empty markers at their place. -/
def adoptHeadings (current : Text) : Except IndexError Text :=
  let lines := logicalLinesFrom 0 [] current
  match lines.dropWhile fun line => !legacyHeadings.contains line.content with
  | [] => .error (.shape "no exact legacy heading found".toList)
  | first :: rest =>
      match firstUnknownLine (lines.length - rest.length) (first :: rest) with
      | some number =>
          .error (.shape ("legacy line ".toList ++ Text.ofNat number ++
            " is not a known heading, exact entry, or blank".toList))
      | none =>
          .ok (current.take first.start ++ beginMarker ++ "\n\n".toList ++ endMarker ++
            "\n".toList)

/-- The index with the current BEGIN marker for a retired one. -/
def adoptMarker (current retired : Text) : Except IndexError Text := do
  let _ ← markerRegionWithBegin current retired
  match splitOnceAt retired current with
  | none => .error (.shape "validated retired marker".toList)
  | some (before, after) => return before ++ beginMarker ++ after

def adoptLegacy (current : Text) : Except IndexError Text :=
  if contains beginMarker current then
    .error (.shape "INDEX.md already contains a generated marker".toList)
  else
    match retiredBeginMarkers.find? fun marker => contains marker current with
    | some retired => adoptMarker current retired
    | none =>
        if contains endMarker current then
          adoptMarker current (retiredBeginMarkers.headD [])
        else adoptHeadings current

end Yams.Wiki
