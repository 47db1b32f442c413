/-
The terms of a query, their rarity weights, and the window of a text that is
shown for them.  The letter tables of Unicode are a parameter.
-/
import Std.Data.ExtTreeMap
import Yams.Binary64
import Yams.ListOrder
import Yams.Text

namespace Yams.Search

open Std (ExtTreeMap)
open Binary64

/-- `char::is_alphanumeric` and `char::to_lowercase`, with their values on the
ASCII characters.  A lowercase mapping is its own lowercase mapping. -/
class LetterTables where
  isAlphanumeric : Char → Bool
  toLowercase : Char → Text
  isAlphanumeric_ascii : ∀ c : Char, c.toNat < 0x80 →
    isAlphanumeric c = c.isAlphanum
  toLowercase_ascii : ∀ c : Char, c.toNat < 0x80 → toLowercase c = [c.toLower]
  toLowercase_stable : ∀ c d : Char, d ∈ toLowercase c → toLowercase d = [d]

theorem toLower_toLower (c : Char) : c.toLower.toLower = c.toLower := by
  unfold Char.toLower
  split
  · next hupper =>
      split
      · next hagain =>
          exfalso
          simp [UInt32.le_iff_toNat_le] at hupper hagain
          omega
      · rfl
  · rfl

/-- The tables on ASCII texts. -/
abbrev LetterTables.ascii : LetterTables where
  isAlphanumeric := Char.isAlphanum
  toLowercase c := [c.toLower]
  isAlphanumeric_ascii := fun _ _ => rfl
  toLowercase_ascii := fun _ _ => rfl
  toLowercase_stable := by
    intro c d hd
    obtain rfl := List.mem_singleton.1 hd
    rw [toLower_toLower]

def stopwords : List Text :=
  ["a", "an", "and", "are", "as", "at", "be", "but", "by", "for", "from", "has",
    "have", "how", "i", "if", "in", "into", "is", "it", "its", "of", "on", "or",
    "that", "the", "their", "then", "there", "these", "they", "this", "to",
    "was", "were", "what", "when", "where", "which", "who", "why", "will",
    "with", "you", "your", "do", "does", "did", "not", "no", "any", "all", "my",
    "me", "we", "our", "us", "can", "could", "should", "would", "about",
    "after", "before", "over", "under", "more", "most", "some", "such", "only",
    "own", "same", "so", "than", "too", "very", "just", "now", "yet", "still",
    "get", "got", "make", "made", "use", "used", "using"].map String.toList

structure TermFrequency where
  term : Text
  matchingChunks : UInt64
  deriving DecidableEq

structure SnippetStatistics where
  totalChunks : UInt64
  frequencies : List TermFrequency
  deriving DecidableEq

/-- A term and the weight of its rarity. -/
structure WeightedTerm (F : Type) where
  term : Text
  weight : F

structure Snippet where
  text : Text
  clippedStart : Bool
  clippedEnd : Bool
  deriving DecidableEq

inductive SnippetError
  | zeroWidth
  | invalidGain
  | invalidTerm (term : Text)
  | invalidWeight (term : Text)
  | frequencyExceedsTotal (term : Text) (matchingChunks totalChunks : UInt64)
  | conflictingWeight (term : Text)
  deriving DecidableEq

def snippetWidth : Nat := 280

section Terms

variable [LetterTables]

open LetterTables

def isIdentifierChar (c : Char) : Bool := isAlphanumeric c || c = '_'

/-- The tokens found so far, and the one being read. -/
structure TermScan where
  tokens : List Text
  current : Text

def TermScan.step (scan : TermScan) (c : Char) : TermScan :=
  if isIdentifierChar c then
    { scan with
      current := scan.current ++ (toLowercase c).filter isIdentifierChar }
  else if 1 < scan.current.length then ⟨scan.tokens ++ [scan.current], []⟩
  else { scan with current := [] }

def queryTokens (query : Text) : List Text :=
  ((query ++ [' ']).foldl TermScan.step ⟨[], []⟩).tokens

/-- The terms of a query: its tokens, without the stopwords unless there is
nothing else. -/
def queryTerms (query : Text) : List Text :=
  let tokens := queryTokens query
  let content := tokens.filter fun term => term ∉ stopwords
  firstBy id (if content = [] then tokens else content)

def lowercase (term : Text) : Text := term.flatMap toLowercase

def validateTerm (term : Text) : Except SnippetError Unit :=
  if term.length < 2 ∨ ¬ term.all isIdentifierChar then
    .error (.invalidTerm term)
  else .ok ()

end Terms

section Weights

variable {F : Type} [Binary64 F] [LetterTables]

def termWeight (statistics : SnippetStatistics) (frequency : TermFrequency) :
    Except SnippetError (WeightedTerm F) := do
  validateTerm frequency.term
  if statistics.totalChunks < frequency.matchingChunks then
    throw (.frequencyExceedsTotal frequency.term frequency.matchingChunks
      statistics.totalChunks)
  let total : F := ofNat statistics.totalChunks.toNat
  let found : F := ofNat frequency.matchingChunks.toNat
  return ⟨lowercase frequency.term,
    div (ln1p (div total (add (nearest 1) found))) (ln1p total)⟩

/-- The rarity weights of the terms of an index. -/
def termWeights (statistics : SnippetStatistics) :
    Except SnippetError (List (WeightedTerm F)) :=
  if statistics.totalChunks = 0 then .ok []
  else statistics.frequencies.mapM (termWeight statistics)

/-- Insert one term into the canonical ones. -/
def insertTerm (canonical : ExtTreeMap Text F) (weighted : WeightedTerm F) :
    Except SnippetError (ExtTreeMap Text F) := do
  validateTerm weighted.term
  if !isFinite weighted.weight ||
      !within (nearest 0) (nearest 1) weighted.weight then
    throw (.invalidWeight weighted.term)
  let name := lowercase weighted.term
  if canonical[name]?.any (fun known => known ≠ weighted.weight) then
    throw (.conflictingWeight name)
  return canonical.insert name weighted.weight

def canonicalTerms (terms : List (WeightedTerm F)) :
    Except SnippetError (List (WeightedTerm F)) := do
  let canonical ← terms.foldlM insertTerm ∅
  return canonical.toList.map fun (term, weight) => ⟨term, weight⟩

end Weights

section Window

def isPythonWhitespace (c : Char) : Bool :=
  Text.isWhitespace c || (0x1c ≤ c.toNat && c.toNat ≤ 0x1f)

/-- The text read so far, and whether a space is due before the next word. -/
structure Collapse where
  collapsed : Text
  pendingSpace : Bool

def Collapse.step (state : Collapse) (c : Char) : Collapse :=
  if isPythonWhitespace c then
    { state with pendingSpace := !state.collapsed.isEmpty }
  else if state.pendingSpace then ⟨state.collapsed ++ [' ', c], false⟩
  else { state with collapsed := state.collapsed ++ [c] }

def collapsePythonWhitespace (text : Text) : Text :=
  (text.foldl Collapse.step ⟨[], false⟩).collapsed

/-- An occurrence of the term of an index. -/
structure Span where
  start : Nat
  stop : Nat
  term : Nat

/-- `Iterator::rposition`. -/
def rposition (p : Char → Bool) (text : Text) : Option Nat :=
  (text.reverse.findIdx? p).map fun index => text.length - 1 - index

/-- Move a window to the word boundaries around it. -/
def snap (text : Text) (start width : Nat) : Nat × Nat :=
  let start := if 0 < start then
      ((rposition (· = ' ') (text.take start)).map (· + 1)).getD 0
    else start
  let stop := min text.length (start + width)
  if stop < text.length then
    match rposition (· = ' ') ((text.drop start).take (stop + 1 - start)) with
    | some space => if 0 < space then (start, start + space) else (start, stop)
    | none => (start, stop)
  else (start, stop)

def makeSnippet (text : Text) (start stop : Nat) : Snippet :=
  ⟨(text.drop start).take (stop - start), 0 < start, stop < text.length⟩

variable {F : Type} [Binary64 F] [LetterTables]

/-- A term stands at a position, not as a part of a longer word. -/
def termAt (text needle : Text) (start : Nat) : Bool :=
  !(0 < start && text[start - 1]?.any isIdentifierChar) &&
    !(text[start + needle.length]?.any isIdentifierChar) &&
    (((text.drop start).take needle.length).zip needle).all
      fun (actual, expected) =>
        LetterTables.toLowercase actual = LetterTables.toLowercase expected

def termSpans (text : Text) (terms : List (WeightedTerm F)) : List Span :=
  terms.zipIdx.flatMap fun (weighted, index) =>
    if lessEq weighted.weight (nearest 0) then []
    else if text.length < weighted.term.length then []
    else
      ((List.range (text.length - weighted.term.length + 1)).filter
        (termAt text weighted.term)).map fun start =>
          ⟨start, start + weighted.term.length, index⟩

/-- By position, and equal spans by their terms. -/
def Span.order (terms : List (WeightedTerm F)) : Span → Span → Ordering :=
  compareLex (compareOn Span.start) (compareLex (compareOn Span.stop)
    (compareOn fun span => (terms[span.term]?.map WeightedTerm.term).getD []))

/-- The weights of the terms that a window shows. -/
def windowScore (start stop : Nat) (terms : List (WeightedTerm F))
    (spans : List Span) : F :=
  ((terms.zipIdx.filter fun (_, term) => spans.any fun span =>
    span.term = term && start ≤ span.start && span.stop ≤ stop).map
      fun (weighted, _) => weighted.weight).foldl add negZero

variable (F) in
/-- The best window so far. -/
structure Chosen where
  snippet : Snippet
  score : F

/-- Take the window around a span if it beats the head and the best one. -/
def Chosen.consider (text : Text) (width : Nat) (bar : F)
    (terms : List (WeightedTerm F)) (spans : List Span) (chosen : Chosen F)
    (span : Span) : Chosen F :=
  let centered := min (span.start - (width - (span.stop - span.start)) / 2)
    (text.length - width)
  let (start, stop) := snap text centered width
  let score := windowScore start stop terms spans
  if less bar score && less chosen.score score then
    ⟨makeSnippet text start stop, score⟩
  else chosen

/-- The window of a text to show for some terms. -/
def snippet (text : Text) (terms : List (WeightedTerm F)) (width : Nat)
    (gain : F) : Except SnippetError Snippet :=
  if width = 0 then .error .zeroWidth
  else if !isFinite gain || !within (nearest 0) (nearest 1) gain then
    .error .invalidGain
  else do
    let terms ← canonicalTerms terms
    let collapsed := collapsePythonWhitespace text
    if collapsed.length ≤ width then return ⟨collapsed, false, false⟩
    let spans := sortBy (Span.order terms) (termSpans collapsed terms)
    let (start, stop) := snap collapsed 0 width
    let head := makeSnippet collapsed start stop
    let headScore := windowScore start stop terms spans
    let chosen := spans.foldl
      (Chosen.consider collapsed width (add headScore gain) terms spans)
      ⟨head, headScore⟩
    return chosen.snippet

end Window

end Yams.Search
