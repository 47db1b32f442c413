/-
The query log: one line of JSON for every search that was attempted, composed by
hand from the values of the search and the hash of its query.  The case tables,
the digest and the printer of binary floating point are parameters.
-/
import Yams.Arguments
import Yams.JsonReader
import Yams.PathBytes

namespace Yams.QueryLog

/-- The greatest byte length of a query, before it is hashed. -/
def maxQueryBytes : Nat := 1048576

/-- The greatest byte length of a canonical project path. -/
def maxProjectBytes : Nat := 16384

def maxTimestampBytes : Nat := 64

def maxRecordBytes : Nat := 65536

/-- Only a search that reached the retrieval attempt is logged. -/
inductive QueryLogEligibility
  | searchAttempted | management | write | blankOrInvalidQuery
  | preSearchFailure | operationalFailure
  deriving DecidableEq

/-- The values of one completed search attempt. -/
structure QueryLogRecord (F : Type) where
  timestamp : Text
  project : PathBuf
  query : Text
  k : UInt32
  rc : Int32
  hits : UInt64
  gate : Bool
  explain : Bool
  minScore : Option F
  maxGap : Option F
  all : Bool
  deriving DecidableEq

inductive QueryLogSkip
  | ineligible (eligibility : QueryLogEligibility)
  | invalidRecord
  | oversized
  deriving DecidableEq

/-! The identity of a query: `query.strip().lower()` of Python, hashed. -/

def isPythonWhitespace (c : Char) : Bool :=
  Text.isWhitespace c || (0x1c ≤ c.toNat ∧ c.toNat ≤ 0x1f)

def pythonTrim (input : Text) : Text := Text.trimMatches isPythonWhitespace input

/-- Every `step`-th code point from `start` to `stop` is mapped by `delta`. -/
structure LowercaseRange where
  start : Nat
  stop : Nat
  step : Nat
  delta : Int

/-- The generated tables of Unicode 15, in the order of their code points; the
lowercase of a scalar is one. -/
structure CaseTables where
  lowercase : List LowercaseRange
  cased : List (Nat × Nat)
  caseIgnorable : List (Nat × Nat)
  scalars : ∀ range ∈ lowercase, ∀ n, range.start ≤ n → n ≤ range.stop →
    (n - range.start) % range.step = 0 →
      0 ≤ (n : Int) + range.delta ∧ ((n : Int) + range.delta).toNat.isValidChar

def inUnicodeRanges (c : Char) (ranges : List (Nat × Nat)) : Bool :=
  match ranges.find? fun range => ¬ range.2 < c.toNat with
  | some (start, stop) => start ≤ c.toNat ∧ c.toNat ≤ stop
  | none => false

section Hash

variable (tables : CaseTables)

def isCased (c : Char) : Bool := inUnicodeRanges c tables.cased

def isCaseIgnorable (c : Char) : Bool := inUnicodeRanges c tables.caseIgnorable

/-- A sigma at the end of a word; `before` has the nearest character first. -/
def isFinalSigma (before after : Text) : Bool :=
  let nearestIsCased (text : Text) : Bool :=
    (text.find? fun c => !isCaseIgnorable tables c).any (isCased tables)
  nearestIsCased before && !nearestIsCased after

def unicode15Lowercase (c : Char) : Text :=
  if c.toNat = 0x130 then ['i', Char.ofNat 0x307]
  else
    match tables.lowercase.find? fun range => ¬ range.stop < c.toNat with
    | some range =>
        if c.toNat < range.start ∨ range.stop < c.toNat ∨
            (c.toNat - range.start) % range.step ≠ 0 then [c]
        else [Char.ofNat ((c.toNat : Int) + range.delta).toNat]
    | none => [c]

/-- The lowercase of the rest of a text, after the characters `before` it. -/
def lowercaseFrom (before : Text) : Text → Text
  | [] => []
  | c :: rest =>
      (if c.toNat = 0x3a3 ∧ isFinalSigma tables before rest then [Char.ofNat 0x3c2]
        else unicode15Lowercase tables c) ++ lowercaseFrom (c :: before) rest

def pythonLowercase (input : Text) : Text := lowercaseFrom tables [] input

/-- The first half of the hexadecimal digest, of eight of its bytes. -/
def queryHash (sha256 : Bytes → Bytes) (query : Text) : Text :=
  let normalized := pythonLowercase tables (pythonTrim query)
  ((sha256 normalized.toBytes).take 8).flatMap fun byte => Json.hexDigits byte.toNat

end Hash

/-! The checks of a record. -/

/-- No component is `.` or `..`. -/
def isLexicallyCanonical (path : PathBuf) : Bool :=
  (PathBytes.parts path).all fun part => part ≠ [0x2e] ∧ part ≠ [0x2e, 0x2e]

def isAsciiDigit (byte : UInt8) : Bool := 0x30 ≤ byte ∧ byte ≤ 0x39

def decimal (bytes : Bytes) (start stop : Nat) : Nat :=
  ((bytes.take stop).drop start).foldl
    (fun value byte => value * 10 + (byte.toNat - 0x30)) 0

def isLeapYear (year : Nat) : Bool :=
  year % 4 = 0 && (year % 100 ≠ 0 || year % 400 = 0)

def maxDay (year month : Nat) : Option Nat :=
  if month ∈ [1, 3, 5, 7, 8, 10, 12] then some 31
  else if month ∈ [4, 6, 9, 11] then some 30
  else if month = 2 then some (if isLeapYear year then 29 else 28)
  else none

/-- `YYYY-MM-DDThh:mm:ss.sssZ` of an existing day. -/
def isUtcMillisecondTimestamp (timestamp : Text) : Bool :=
  let bytes := timestamp.toBytes
  if bytes.length ≠ 24 ∨ bytes[4]? ≠ some 0x2d ∨ bytes[7]? ≠ some 0x2d ∨
      bytes[10]? ≠ some 0x54 ∨ bytes[13]? ≠ some 0x3a ∨ bytes[16]? ≠ some 0x3a ∨
      bytes[19]? ≠ some 0x2e ∨ bytes[23]? ≠ some 0x5a then false
  else if !([0, 1, 2, 3, 5, 6, 8, 9, 11, 12, 14, 15, 17, 18, 20, 21, 22].all
      fun (index : Nat) => bytes[index]?.any isAsciiDigit) then false
  else
    let day := decimal bytes 8 10
    match maxDay (decimal bytes 0 4) (decimal bytes 5 7) with
    | some last => 1 ≤ day && day ≤ last && decimal bytes 11 13 < 24 &&
        decimal bytes 14 16 < 60 && decimal bytes 17 19 < 60
    | none => false

/-! The line. -/

/-- `i32::to_string`. -/
def ofInt : Int → Text
  | .ofNat n => Text.ofNat n
  | .negSucc n => '-' :: Text.ofNat (n + 1)

def boolText (value : Bool) : Text := if value then "true".toList else "false".toList

section Line

variable {F : Type} (tables : CaseTables) (sha256 : Bytes → Bytes) (float : Float64 F)

def optionalNumber : Option F → Text
  | some value => float.display value
  | none => "null".toList

/-- What is pushed to the line, piece by piece. -/
def lineText (record : QueryLogRecord F) (project : Text) : Text :=
  "\x7b\"ts\":".toList ++ Json.renderString record.timestamp ++
  ",\"project\":".toList ++ Json.renderString project ++
  ",\"q\":\"".toList ++ queryHash tables sha256 record.query ++
  "\",\"k\":".toList ++ Text.ofNat record.k.toNat ++
  ",\"rc\":".toList ++ ofInt record.rc.toInt ++
  ",\"hits\":".toList ++ Text.ofNat record.hits.toNat ++
  ",\"gate\":".toList ++ boolText record.gate ++
  ",\"explain\":".toList ++ boolText record.explain ++
  ",\"min_score\":".toList ++ optionalNumber float record.minScore ++
  ",\"max_gap\":".toList ++ optionalNumber float record.maxGap ++
  ",\"all\":".toList ++ boolText record.all ++ "\x7d\n".toList

def composeLine (record : QueryLogRecord F) : Except QueryLogSkip Text :=
  if record.query.byteLength > maxQueryBytes then .error .oversized
  else if (pythonTrim record.query).isEmpty ∨ record.rc.toInt ∉ [0, 1, 3] then
    .error .invalidRecord
  else if record.timestamp.isEmpty ∨ record.timestamp.byteLength > maxTimestampBytes ∨
      isUtcMillisecondTimestamp record.timestamp = false ∨
      PathBytes.isAbsolute record.project = false ∨
      isLexicallyCanonical record.project = false then
    .error .invalidRecord
  else
    match Text.fromUtf8 record.project with
    | none => .error .invalidRecord
    | some project =>
        if project.byteLength > maxProjectBytes then .error .oversized
        else if record.minScore.any (fun value => !float.isFinite value) ∨
            record.maxGap.any (fun value => !float.isFinite value) then
          .error .invalidRecord
        else
          let line := lineText tables sha256 float record project
          if line.byteLength > maxRecordBytes then .error .oversized else .ok line

end Line

end Yams.QueryLog
