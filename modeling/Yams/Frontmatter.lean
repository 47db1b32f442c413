/-
The frontmatter of a page: lines with the offsets of their separators, the
strict block of scalar fields at the start, and the title a page is known by.
Offsets count characters.
-/
import Yams.PathBytes

namespace Yams

def maxTitleChars : Nat := 200

/-- A map from texts to texts: the entry of a key is the first one. -/
abbrev Fields := List (Text × Text)

/-- `BTreeMap::insert`. -/
def Fields.insert (fields : Fields) (key value : Text) : Fields :=
  (key, value) :: fields.filter fun field => field.1 ≠ key

def Fields.get (fields : Fields) (key : Text) : Option Text :=
  (fields.find? fun field => field.1 = key).map Prod.snd

structure ParsedPage where
  fields : Fields
  body : Text
  deriving DecidableEq

/-- A line and the offset just after its separator. -/
structure Line where
  content : Text
  separatorEnd : Nat
  deriving DecidableEq

def Line.isBlank (line : Line) : Bool := (Text.trim line.content).isEmpty

/-- `str::lines`, each line with the length of its separator.  The first
argument holds the characters of the current line in reverse. -/
def nativeLines : Text → Text → List (Text × Nat)
  | [], [] => []
  | current, [] => [(current.reverse, 0)]
  | current, '\n' :: rest =>
      match current with
      | '\r' :: line => (line.reverse, 2) :: nativeLines [] rest
      | line => (line.reverse, 1) :: nativeLines [] rest
  | current, c :: rest => nativeLines (c :: current) rest

/-- The further separators that Python's `str.splitlines()` recognizes. -/
def isExplicitSeparator (c : Char) : Bool :=
  let n := c.toNat
  n = 0xd ∨ n = 0xb ∨ n = 0xc ∨ n = 0x1c ∨ n = 0x1d ∨ n = 0x1e ∨ n = 0x85 ∨
    n = 0x2028 ∨ n = 0x2029

/-- Split one native line, which starts at `start`, at the explicit separators.
The first argument holds the characters of the current line in reverse. -/
def explicitlySeparatedLines (nativeSeparatorLen : Nat) :
    Text → Nat → Text → List Line
  | current, index, [] =>
      if current ≠ [] ∨ nativeSeparatorLen > 0 then
        [⟨current.reverse, index + nativeSeparatorLen⟩]
      else []
  | current, index, c :: rest =>
      if isExplicitSeparator c then
        ⟨current.reverse, index + 1⟩ ::
          explicitlySeparatedLines nativeSeparatorLen [] (index + 1) rest
      else
        explicitlySeparatedLines nativeSeparatorLen (c :: current)
          (index + 1) rest

def separatedLinesFrom : Nat → List (Text × Nat) → List Line
  | _, [] => []
  | cursor, (line, separatorLen) :: rest =>
      explicitlySeparatedLines separatorLen [] cursor line ++
        separatedLinesFrom (cursor + line.length + separatorLen) rest

def linesWithSeparators (source : Text) : List Line :=
  separatedLinesFrom 0 (nativeLines [] source)

def isAsciiAlphabetic (c : Char) : Bool :=
  ('a' ≤ c ∧ c ≤ 'z') ∨ ('A' ≤ c ∧ c ≤ 'Z')

def isAsciiAlphanumeric (c : Char) : Bool :=
  isAsciiAlphabetic c ∨ ('0' ≤ c ∧ c ≤ '9')

/-- A legal key starts with a letter or an underscore. -/
def legalKey : Text → Bool
  | [] => false
  | first :: rest =>
      (isAsciiAlphabetic first ∨ first = '_') ∧
        rest.all fun c =>
          isAsciiAlphanumeric c ∨ c = '_' ∨ c = '.' ∨ c = '-'

def fieldLine (line : Text) : Option (Text × Text) :=
  match Text.splitOnce ':' line with
  | some (key, value) =>
      if legalKey key then some (key, Text.trim value) else none
  | none => none

/-- Drop the quotes around a value that starts and ends with the same one. -/
def unquote (value : Text) : Text :=
  match value with
  | quote :: rest =>
      if (quote = '\'' ∨ quote = '"') ∧ rest.getLast? = some quote then
        rest.dropLast
      else value
  | [] => value

/-- The fields of the lines between the markers, if the block is a strict one.
An indented line continues the field before it and is ignored. -/
def frontmatterFields : Fields → List Line → Option Fields
  | fields, [] => if fields.isEmpty then none else some fields
  | fields, line :: rest =>
      if line.isBlank then none
      else if line.content.head? = some ' ' ∨ line.content.head? = some '\t' then
        if fields.isEmpty then none else frontmatterFields fields rest
      else
        match fieldLine line.content with
        | some (key, value) =>
            frontmatterFields (fields.insert key (unquote value)) rest
        | none => none

/-- Where the body starts: after the empty lines that follow the block. -/
def bodyStart : Nat → List Line → Nat
  | start, [] => start
  | start, line :: rest =>
      if line.content = [] then bodyStart line.separatorEnd rest else start

def frontmatterMarker : Text := "---".toList

/-- The lines of the block, its closing marker and the lines after it. -/
def closedBlock : List Line → Option (List Line × Line × List Line)
  | [] => none
  | line :: rest =>
      if line.content = frontmatterMarker then some ([], line, rest)
      else (closedBlock rest).map fun (block, close, after) =>
        (line :: block, close, after)

def byteOrderMark : Char := Char.ofNat 0xfeff

/-- The leading frontmatter block, or the whole source as the body. -/
def parseFrontmatter (source : Text) : ParsedPage :=
  let parseSource := (Text.stripPrefix [byteOrderMark] source).getD source
  match linesWithSeparators parseSource with
  | [] => ⟨[], source⟩
  | first :: lines =>
      if first.content = frontmatterMarker then
        match closedBlock lines with
        | none => ⟨[], source⟩
        | some (block, close, after) =>
            match frontmatterFields [] block with
            | none => ⟨[], source⟩
            | some fields =>
                ⟨fields, parseSource.drop (bodyStart close.separatorEnd after)⟩
      else ⟨[], source⟩

/-- The bytes a UTF-8 sequence may have at the given place after `first`. -/
def continues (first second : UInt8) : Bool :=
  if first = 0xe0 then 0xa0 ≤ second ∧ second ≤ 0xbf
  else if first = 0xed then 0x80 ≤ second ∧ second ≤ 0x9f
  else if first = 0xf0 then 0x90 ≤ second ∧ second ≤ 0xbf
  else if first = 0xf4 then 0x80 ≤ second ∧ second ≤ 0x8f
  else 0x80 ≤ second ∧ second ≤ 0xbf

/-- How many bytes a sequence with this first byte has. -/
def sequenceLength (first : UInt8) : Nat :=
  if first < 0x80 then 1
  else if 0xc2 ≤ first ∧ first ≤ 0xdf then 2
  else if 0xe0 ≤ first ∧ first ≤ 0xef then 3
  else if 0xf0 ≤ first ∧ first ≤ 0xf4 then 4
  else 0

/-- How many of the next bytes start a sequence after `first`. -/
def validPrefix (first : UInt8) (rest : Bytes) : Nat :=
  match rest.take (sequenceLength first - 1) with
  | [] => 0
  | second :: others =>
      if continues first second then
        1 + (others.takeWhile fun b => 0x80 ≤ b ∧ b ≤ 0xbf).length
      else 0

/-- `OsStr::to_string_lossy`: the longest start of a sequence that is not one
becomes a replacement character. -/
def toStringLossy : Bytes → Text
  | [] => []
  | first :: rest =>
      let taken := validPrefix first rest
      let character :=
        match Text.fromUtf8 (first :: rest.take taken) with
        | some (c :: _) => c
        | _ => Char.ofNat 0xfffd
      character :: toStringLossy (rest.drop taken)
termination_by bytes => bytes.length
decreasing_by
  simp only [List.length_cons, List.length_drop]
  omega

def filenameTitle (path : PathBuf) : Text :=
  (toStringLossy ((PathBytes.fileStem path).getD [])).map fun c =>
    if c = '-' ∨ c = '_' then ' ' else c

def truncateChars (text : Text) (maximum : Nat) : Text := text.take maximum

/-- The most useful title of a page. -/
def titleFor (path : PathBuf) (fields : Fields) : Text :=
  let title :=
    match (fields.get "title".toList).filter fun value => value ≠ [] with
    | some title => title
    | none =>
        match (fields.get "name".toList).filter fun value => value ≠ [] with
        | some name => name
        | none => filenameTitle path
  truncateChars title maxTitleChars

end Yams
