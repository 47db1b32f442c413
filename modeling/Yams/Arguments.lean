/-
The direct command line: argument normalization, the checks that follow the
option parser, and Python's spelling of numbers.  The option parser, the Unicode
tables and binary floating point are parameters.
-/
import Yams.Text
import Mathlib.Data.Nat.Notation

namespace Yams

/-- An operating-system string: UTF-8 text, or other bytes. -/
inductive OsString
  | utf8 (text : Text)
  | other (bytes : Bytes)
  deriving DecidableEq

/-- `OsStr::to_str`. -/
def OsString.toStr : OsString → Option Text
  | .utf8 text => some text
  | .other _ => none

inductive ExitCode
  | ok | empty | usage | unsure | operational
  deriving DecidableEq, Repr

inductive DirectOperation
  | search | all | write | index | stats | projects | gc
  deriving DecidableEq, Repr

/-- Operations on binary64 values that come from the standard library and from
the shortest-decimal printer. -/
structure Float64 (F : Type) where
  parse : Text → Option F
  display : F → Text
  pythonRepr : F → Text
  isFinite : F → Bool
  /-- `(-1.0..=1.0).contains` -/
  inCosineRange : F → Bool
  /-- `value < 0.0` -/
  isNegative : F → Bool
  nan : F
  negNan : F
  infinity : F
  negInfinity : F

/-- One direct invocation. -/
structure DirectRequest (F : Type) where
  operation : DirectOperation
  project : Option OsString
  query : Option Text
  k : Nat
  requestedK : Text
  json : Bool
  full : Bool
  noGate : Bool
  explain : Bool
  minScore : Option F
  maxGap : Option F
  deriving DecidableEq

/-- How an invocation ends without a request.  Completions keep the message;
their rendering for the terminal is left out. -/
inductive DirectCompletion
  | help (exit : ExitCode)
  | displayHelp (text : Text)
  | version
  | usage (message : Text) (writes : Bool) (hint : Text)
  | parserUsage (message : Text) (writes : Bool)
  | configuration (message : Text) (writes : Bool)
  | operational (message : Text)
  | finished (exit : ExitCode) (stdout stderr : Text)
  deriving DecidableEq

inductive ParseOutcome (F : Type)
  | request (request : DirectRequest F)
  | completion (completion : DirectCompletion)
  deriving DecidableEq

/-- `usize::MAX` on the supported targets. -/
def usizeMax : Nat := 18446744073709551615

/-! Numbers as Python spells them. -/

def isPythonWhitespace (c : Char) : Bool :=
  let n := c.toNat
  (9 ≤ n ∧ n ≤ 0xd) ∨ n = 0x20 ∨ n = 0x85 ∨ n = 0xa0 ∨ n = 0x1680 ∨
    (0x2000 ≤ n ∧ n ≤ 0x200a) ∨ n = 0x2028 ∨ n = 0x2029 ∨ n = 0x202f ∨
    n = 0x205f ∨ n = 0x3000

def isPythonStringWhitespace (c : Char) : Bool :=
  isPythonWhitespace c ∨ (0x1c ≤ c.toNat ∧ c.toNat ≤ 0x1f)

section

-- The general category is `DecimalNumber`.
variable (isDecimalNumber : Char → Bool)

/-- The first code point of the block of decimal digits that ends at `n`. -/
def blockStart : Nat → Nat
  | 0 => 0
  | n + 1 =>
      if n.isValidChar ∧ isDecimalNumber (Char.ofNat n) then blockStart n
      else n + 1

def decimalDigit (c : Char) : Option Nat :=
  if isDecimalNumber c then
    some ((c.toNat - blockStart isDecimalNumber c.toNat) % 10)
  else none

/-- A `-k` value: saturated to `usize`, its canonical decimal spelling, and
whether it is below one. -/
structure CountArgument where
  saturated : Nat
  canonical : Text
  lessThanOne : Bool
  deriving DecidableEq

/-- The digits of an integer literal with single underscores between digits. -/
def normalizeDigits : Text → Bool → List Nat → Option (List Nat)
  | [], previousWasDigit, digits => if previousWasDigit then some digits else none
  | c :: rest, previousWasDigit, digits =>
      if c = '_' then
        if previousWasDigit then normalizeDigits rest false digits else none
      else match decimalDigit isDecimalNumber c with
        | none => none
        | some digit =>
            if digits.length + 1 > 4300 then none
            else normalizeDigits rest true (digits ++ [digit])

def saturate (digits : List Nat) : Nat :=
  digits.foldl (fun value digit =>
    if value * 10 + digit ≤ usizeMax then value * 10 + digit else usizeMax) 0

/-- A leading sign, and whether it is negative. -/
def splitSign : Text → Bool × Text
  | '-' :: rest => (true, rest)
  | '+' :: rest => (false, rest)
  | text => (false, text)

/-- The count of the digits of a literal. -/
def countOf (negative : Bool) (digits : List Nat) : CountArgument :=
  let significant := digits.dropWhile fun digit => digit = 0
  let magnitude := significant.map Nat.digitChar
  if significant.isEmpty then ⟨0, "0", true⟩
  else if negative then ⟨0, '-' :: magnitude, true⟩
  else ⟨saturate significant, magnitude, false⟩

def parsePythonInt (value : Text) : Option CountArgument :=
  let (negative, digits) := splitSign (Text.trimMatches isPythonWhitespace value)
  if digits.isEmpty then none
  else (normalizeDigits isDecimalNumber digits false []).map (countOf negative)

/-- `value.replace('\\', "\\\\").replace('\'', "\\'")` -/
def escapeQuotes (value : Text) : Text :=
  value.flatMap fun c =>
    if c = '\\' then ['\\', '\\'] else if c.toNat = 39 then ['\\', c] else [c]

def invalidNumericValue (kind value : Text) : Text :=
  "invalid ".toList ++ kind ++ " value: ".toList ++ [Char.ofNat 39] ++
    escapeQuotes value ++ [Char.ofNat 39]

/-- `CountArgument::from_str`, the value parser of `-k`. -/
def CountArgument.fromStr (value : Text) : Except Text CountArgument :=
  match parsePythonInt isDecimalNumber value with
  | some count => .ok count
  | none => .error (invalidNumericValue "int" value)

/-- The characters of a float literal with digits and underscores resolved;
`previous` is the character before the rest. -/
def normalizeFloat : Option Char → Text → Option Text
  | _, [] => some []
  | previous, c :: rest =>
      match decimalDigit isDecimalNumber c with
      | some digit =>
          (normalizeFloat (some c) rest).map (Nat.digitChar digit :: ·)
      | none =>
          if c = '_' then
            let digitBefore := previous.any fun p =>
              (decimalDigit isDecimalNumber p).isSome
            let digitAfter := rest.head?.any fun n =>
              (decimalDigit isDecimalNumber n).isSome
            if digitBefore ∧ digitAfter then normalizeFloat (some c) rest
            else none
          else if c = '+' ∨ c = '-' ∨ c = '.' ∨ c = 'e' ∨ c = 'E' then
            (normalizeFloat (some c) rest).map (c :: ·)
          else none

/-- Drop a sign. -/
def dropSign : Text → Text
  | '+' :: rest | '-' :: rest => rest
  | text => text

/-- An optional exponent, to the end of the text. -/
def validExponent : Text → Bool
  | [] => true
  | c :: rest =>
      (c = 'e' ∨ c = 'E') ∧ ¬ (dropSign rest).isEmpty ∧
        (dropSign rest).all Char.isDigit

def validDecimalFloatShape (value : Text) : Bool :=
  let unsigned := dropSign value
  let integer := unsigned.takeWhile Char.isDigit
  let rest := unsigned.dropWhile Char.isDigit
  let (fraction, rest) := match rest with
    | '.' :: rest => (rest.takeWhile Char.isDigit, rest.dropWhile Char.isDigit)
    | _ => ([], rest)
  integer.length + fraction.length ≠ 0 ∧ validExponent rest

variable {F : Type} (float : Float64 F)

def parsePythonFloat (value : Text) : Option F :=
  let value := Text.trimMatches isPythonWhitespace value
  if value.isEmpty then none
  else
    let (negative, unsigned) := splitSign value
    let special := Text.toAsciiLowercase unsigned
    if special = "nan".toList then
      some (if negative then float.negNan else float.nan)
    else if special = "inf".toList ∨ special = "infinity".toList then
      some (if negative then float.negInfinity else float.infinity)
    else match normalizeFloat isDecimalNumber none value with
      | none => none
      | some normalized =>
          if validDecimalFloatShape normalized then float.parse normalized
          else none

/-- `FloatArgument::from_str`, the value parser of the float options. -/
def FloatArgument.fromStr (value : Text) : Except Text F :=
  match parsePythonFloat isDecimalNumber float value with
  | some x => .ok x
  | none => .error (invalidNumericValue "float" value)

end

end Yams
