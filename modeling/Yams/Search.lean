/-
The composition of one search response from loaded rows: the checks of the
request, the ranking, the selection with and without the gate, and the snippets.
-/
import Std.Data.ExtTreeSet
import Yams.Select
import Yams.Snippet

namespace Yams.Search

open Std (ExtTreeMap ExtTreeSet)
open Binary64

structure PageMetadata where
  id : PageId
  name : Text
  labels : PageLabels
  deriving DecidableEq

structure ChunkMetadata where
  id : ChunkId
  text : Text
  deriving DecidableEq

section

variable (F : Type) [Binary64 F]

/-- One chunk of the store's BM25 order. -/
structure LexicalScore where
  id : ChunkId
  bm25 : F
  rank : Nat

/-- All the loaded inputs of one response. -/
structure SearchRequest where
  query : Text
  queryEmbedding : Singles
  pages : List PageMetadata
  chunks : List ChunkMetadata
  dense : List DenseCandidate
  lexical : List (LexicalScore F)
  snippetStatistics : SnippetStatistics
  selection : SelectionConfig F

structure SearchHit where
  name : Text
  path : Text
  score : NormalizedScore F
  text : Text
  snippet : Text
  clippedStart : Bool
  clippedEnd : Bool
  corpus : Option Text
  status : Option Text
  project : Option Text
  exact : Bool

/-- The gate and rank signals of the selection. -/
structure SearchExplanation where
  query : Text
  applied : Bool
  gate : Option (GateVerdict F)
  hits : ExtTreeMap Text (HitExplanation F)

structure SearchResponse where
  query : Text
  hits : List (SearchHit F)
  explanation : SearchExplanation F
  exitCode : ExitCode

end

inductive SearchError
  | rank (error : RankError)
  | selection (error : SelectionError)
  | snippet (error : SnippetError)
  | missingPageMetadata (page : PageId)
  | duplicatePageMetadata (page : PageId)
  | missingChunkMetadata (chunk : ChunkId)
  | duplicateChunkMetadata (chunk : ChunkId)
  | duplicateDenseCandidate (chunk : ChunkId)
  | missingDenseCandidate (chunk : ChunkId)
  | duplicateLexicalCandidate (chunk : ChunkId)
  | nonFiniteBm25 (chunk : ChunkId)
  | invalidLexicalRank (chunk : ChunkId) (expected actual : Nat)
  | lexicalOrder (previous current : ChunkId)
  | snippetChunkCountMismatch (metadata : Nat) (statistics : UInt64)
  | snippetTermsMismatch (expected actual : List Text)
  | duplicateSnippetTerm (term : Text)
  deriving DecidableEq

abbrev PageById := ExtTreeMap PageId PageMetadata

abbrev ChunkById := ExtTreeMap ChunkId ChunkMetadata

def loadPage (pages : PageById) (page : PageMetadata) :
    Except SearchError PageById :=
  insertNew (.duplicatePageMetadata page.id) pages page.id page

def loadChunk (pages : PageById) (chunks : ChunkById) (chunk : ChunkMetadata) :
    Except SearchError ChunkById :=
  if chunk.id.page ∉ pages then .error (.missingPageMetadata chunk.id.page)
  else insertNew (.duplicateChunkMetadata chunk.id) chunks chunk.id chunk

/-- One candidate of the dense ranking, after those of some chunks. -/
def admitDense (chunks : ChunkById) (seen : List ChunkId)
    (candidate : DenseCandidate) : Except SearchError (List ChunkId) :=
  if candidate.id ∉ chunks then .error (.missingChunkMetadata candidate.id)
  else if candidate.id ∈ seen then
    .error (.duplicateDenseCandidate candidate.id)
  else .ok (candidate.id :: seen)

def validateDense (dense : List DenseCandidate) (chunks : ChunkById) :
    Except SearchError Unit := do
  let seen ← dense.foldlM (admitDense chunks) []
  match chunks.keys.find? fun chunk => chunk ∉ seen with
  | some missing => throw (.missingDenseCandidate missing)
  | none => return

section

variable {F : Type} [Binary64 F]

variable (F) in
/-- The lexical candidates seen so far, and the last of them. -/
structure LexicalScan where
  seen : List ChunkId
  previous : Option (F × ChunkId)

/-- One candidate of the lexical ranking, at its position. -/
def admitLexical (chunks : ChunkById) (scan : LexicalScan F)
    (entry : LexicalScore F × Nat) : Except SearchError (LexicalScan F) :=
  let (candidate, index) := entry
  if !isFinite candidate.bm25 then .error (.nonFiniteBm25 candidate.id)
  else if candidate.rank ≠ index + 1 then
    .error (.invalidLexicalRank candidate.id (index + 1) candidate.rank)
  else if candidate.id ∉ chunks then .error (.missingChunkMetadata candidate.id)
  else if candidate.id ∈ scan.seen then
    .error (.duplicateLexicalCandidate candidate.id)
  else
    match scan.previous with
    | some (score, id) =>
        if less candidate.bm25 score then .error (.lexicalOrder id candidate.id)
        else .ok ⟨candidate.id :: scan.seen, some (candidate.bm25, candidate.id)⟩
    | none =>
        .ok ⟨candidate.id :: scan.seen, some (candidate.bm25, candidate.id)⟩

def validateLexical (lexical : List (LexicalScore F)) (chunks : ChunkById) :
    Except SearchError Unit := do
  discard <| lexical.zipIdx.foldlM (admitLexical chunks) ⟨[], none⟩

end

def admitTerm (seen : ExtTreeSet Text) (frequency : TermFrequency) :
    Except SearchError (ExtTreeSet Text) :=
  let term := Text.toAsciiLowercase frequency.term
  if term ∈ seen then .error (.duplicateSnippetTerm term)
  else .ok (seen.insert term)

variable [LetterTables]

def validateStatistics (query : Text) (statistics : SnippetStatistics)
    (chunkCount : Nat) : Except SearchError Unit :=
  if statistics.totalChunks.toNat ≠ chunkCount then
    .error (.snippetChunkCountMismatch chunkCount statistics.totalChunks)
  else do
    let actual ← statistics.frequencies.foldlM admitTerm ∅
    if statistics.totalChunks = 0 then return
    let expected : ExtTreeSet Text := ExtTreeSet.ofList (queryTerms query)
    if expected.toList ≠ actual.toList then
      throw (.snippetTermsMismatch expected.toList actual.toList)

variable {F : Type} [Binary64 F]

/-- The rows of a request, each known by its identity. -/
structure LoadedRows where
  pages : PageById
  chunks : ChunkById

/-- The checks of a request. -/
def validateRequest (request : SearchRequest F) :
    Except SearchError LoadedRows := do
  let pages ← request.pages.foldlM loadPage ∅
  let chunks ← request.chunks.foldlM (loadChunk pages) ∅
  validateDense request.dense chunks
  validateLexical request.lexical chunks
  validateStatistics request.query request.snippetStatistics
    request.chunks.length
  return ⟨pages, chunks⟩

def selectedChunk (chunks : ChunkById) (id : ChunkId) :
    Except SearchError SelectedChunk :=
  match chunks[id]? with
  | some chunk => .ok ⟨id.ordinal, chunk.text⟩
  | none => .error (.missingChunkMetadata id)

def RrfContribution.toRank (contribution : RrfContribution F) :
    RankContribution F :=
  ⟨contribution.source, contribution.rank, contribution.weight,
    contribution.score⟩

def HybridRankedPage.explanation (hit : HybridRankedPage F) :
    HitExplanation F :=
  ⟨some hit.denseRank, hit.lexicalRank, hit.fusion.map RrfScore.total,
    (hit.fusion.map fun score =>
      score.contributions.map RrfContribution.toRank).getD []⟩

/-- The metadata of a ranked page. -/
def rankedHit (rows : LoadedRows) (entry : HybridRankedPage F × Nat) :
    Except SearchError (RankedHit F) := do
  let (hit, index) := entry
  match rows.pages[hit.page]? with
  | none => throw (.missingPageMetadata hit.page)
  | some page =>
      let denseChunk ← selectedChunk rows.chunks hit.dense.chunk
      let lexicalChunk ← hit.lexicalChunk.mapM (selectedChunk rows.chunks)
      return ⟨page.name, page.id.path, denseChunk, lexicalChunk,
        hit.dense.score, index + 1, hit.explanation, page.labels⟩

def ChunkMetadata.toLiteral (chunk : ChunkMetadata) : LiteralChunk :=
  ⟨chunk.id.page.path, chunk.id.ordinal, chunk.text⟩

/-- The first page of the lexical candidates that has a dense rank. -/
def lexicalLeader (lexical : List LexicalCandidate)
    (dense : List (DenseRankedPage F)) : Option Text :=
  ((lexicalPages lexical).find? fun candidate =>
    candidate.page ∈ dense.map DenseRankedPage.page).map fun candidate =>
      candidate.page.path

/-- The response when nothing is indexed. -/
def emptyResponse (query : Text) (gateMode : GateMode) : SearchResponse F :=
  ⟨query, [], ⟨query, gateMode = .apply, none, ∅⟩, .empty⟩

/-- A selected hit with its snippet. -/
def searchHit (weights : List (WeightedTerm F)) (hit : SelectedHit F) :
    Except SearchError (SearchHit F) := do
  let window ← (snippet hit.selectedChunk.text weights snippetWidth
    (nearest (3 / 4))).mapError SearchError.snippet
  let score ← (normalizeScore hit.score.get).mapError SearchError.rank
  return ⟨hit.name, hit.path, score, hit.selectedChunk.text, window.text,
    window.clippedStart, window.clippedEnd, hit.labels.corpus,
    hit.labels.status, hit.labels.project, hit.exact⟩

/-- The candidates of the selection. -/
structure Candidates (F : Type) [Binary64 F] where
  baseline : Option (NormalizedScore F)
  ranked : List (RankedHit F)
  literal : List LiteralChunk
  leader : Option Text

def Candidates.select (candidates : Candidates F) (query : Text)
    (config : SelectionConfig F) : Except SelectionError (SelectionOutcome F) :=
  Search.select query candidates.baseline candidates.ranked candidates.literal
    candidates.leader config

/-- The pages in the order of their fused ranks. -/
def rankCandidates (request : SearchRequest F) (rows : LoadedRows)
    (dense : List (DenseRankedPage F)) : Except SearchError (Candidates F) := do
  let lexical := request.lexical.map fun candidate => LexicalCandidate.mk candidate.id
  let hybrid ← (hybridRank dense lexical
    (dense.length + candidateLimit)).mapError SearchError.rank
  let ranked ← hybrid.zipIdx.mapM (rankedHit rows)
  return ⟨dense.head?.map DenseRankedPage.score, ranked,
    request.chunks.map ChunkMetadata.toLiteral, lexicalLeader lexical dense⟩

/-- The rank signals of the hits shown without the gate. -/
def explainedHits (shown : List (SelectedHit F)) :
    ExtTreeMap Text (HitExplanation F) :=
  ExtTreeMap.ofList (shown.map fun hit => (hit.path, hit.explanation))

/-- Select twice, once for the explanation, and cut the snippets. -/
def respond (request : SearchRequest F) (candidates : Candidates F) :
    Except SearchError (SearchResponse F) := do
  let ungated ← (candidates.select request.query
    request.selection.bypass).mapError SearchError.selection
  let outcome ← (if request.selection.gateMode = .bypass then .ok ungated
    else (candidates.select request.query
      request.selection).mapError SearchError.selection)
  let weights ← (termWeights request.snippetStatistics).mapError
    SearchError.snippet
  let hits ← outcome.hits.mapM (searchHit weights)
  return ⟨request.query, hits,
    ⟨request.query, outcome.applied, outcome.gate, explainedHits ungated.hits⟩,
    outcome.exitCode⟩

/-- Compose the ranking, the selection, the gate and the snippets. -/
def composeSearch (request : SearchRequest F) :
    Except SearchError (SearchResponse F) := do
  let rows ← validateRequest request
  let dense ← (denseRank request.queryEmbedding request.dense).mapError
    SearchError.rank
  if dense.isEmpty then
    return emptyResponse request.query request.selection.gateMode
  respond request (← rankCandidates request rows dense)

end Yams.Search
