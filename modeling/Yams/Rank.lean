/-
The ranker: cosine similarity, the best chunk of each page, and the fusion of
the dense ranking with the lexical one by reciprocal ranks.
-/
import Std.Data.ExtTreeMap
import Yams.Binary64
import Yams.ListOrder
import Yams.PathBytes

namespace Yams.Search

open Std (ExtTreeMap)

/-- The reciprocal-rank offset. -/
def rrfK : Nat := 60

/-- The pages that each source ranker contributes at most. -/
def candidateLimit : Nat := 25

/-- An absolute path without `.`, `..` or a redundant separator. -/
def CanonicalPath (path : Bytes) : Prop :=
  PathBytes.isAbsolute path = true ∧
    PathBytes.absolute (PathBytes.parts path) = path ∧
    [0x2e, 0x2e] ∉ PathBytes.parts path

instance (path : Bytes) : Decidable (CanonicalPath path) :=
  inferInstanceAs (Decidable (_ ∧ _ ∧ _))

/-- A page is known by its absolute, canonical path. -/
structure PageId where
  path : Text
  canonical : CanonicalPath path.toBytes
  deriving DecidableEq

def PageId.parts (page : PageId) : List Bytes := PathBytes.parts page.path.toBytes

instance : Ord PageId where
  compare := compareOn PageId.parts

instance : Std.TransOrd PageId :=
  inferInstanceAs (Std.TransCmp (compareOn PageId.parts))

/-- Canonical paths of equal components are equal. -/
instance : Std.LawfulEqOrd PageId where
  compare_self := by
    intro page
    change compare page.parts page.parts = .eq
    exact Std.ReflCmp.compare_self
  eq_of_compare := by
    intro left right h
    have hparts : left.parts = right.parts := Std.LawfulEqOrd.eq_of_compare h
    have hbytes : left.path.toBytes = right.path.toBytes := by
      rw [← left.canonical.2.1, ← right.canonical.2.1]
      exact congrArg PathBytes.absolute hparts
    have hpath : left.path = right.path := Text.toBytes_injective hbytes
    cases left
    cases right
    cases hpath
    rfl

/-- A chunk is known by its page and its ordinal. -/
structure ChunkId where
  page : PageId
  ordinal : UInt32
  deriving DecidableEq

instance : Ord ChunkId where
  compare := compareLex (compareOn ChunkId.page) (compareOn ChunkId.ordinal)

instance : Std.TransOrd ChunkId :=
  inferInstanceAs (Std.TransCmp (compareLex (compareOn ChunkId.page)
    (compareOn ChunkId.ordinal)))

instance : Std.LawfulEqOrd ChunkId where
  compare_self := by
    intro chunk
    change compareLex (compareOn ChunkId.page) (compareOn ChunkId.ordinal) chunk
      chunk = .eq
    exact Std.ReflCmp.compare_self
  eq_of_compare := by
    intro left right h
    obtain ⟨hpage, hordinal⟩ := Ordering.then_eq_eq.1 h
    have hpage : left.page = right.page := Std.LawfulEqOrd.eq_of_compare hpage
    have hordinal : left.ordinal = right.ordinal :=
      Std.LawfulEqOrd.eq_of_compare hordinal
    cases left
    cases right
    cases hpage
    cases hordinal
    rfl

inductive VectorSide
  | left | right
  deriving DecidableEq

inductive RankError
  | nonCanonicalPagePath (path : PathBuf)
  | dimensionMismatch (left right : Nat)
  | emptyVector (side : VectorSide)
  | nonFiniteComponent (side : VectorSide) (index : Nat)
  | zeroNorm (side : VectorSide)
  | nonFiniteScore
  | scoreOutsideCosineRange
  | rankingWeightMismatch (rankings weights : Nat)
  | nonFiniteWeight (sourceIndex : Nat)
  | negativeWeight (sourceIndex : Nat)
  | nonFiniteRrfContribution (sourceIndex rank : Nat)
  | nonFiniteFusedTotal (page : PageId)
  deriving DecidableEq

def PageId.fromCanonicalPath (path : PathBuf) : Except RankError PageId :=
  match Text.fromUtf8 path with
  | none => .error (.nonCanonicalPagePath path)
  | some text =>
      if h : CanonicalPath text.toBytes then .ok ⟨text, h⟩
      else .error (.nonCanonicalPagePath path)

section

variable {F : Type} [Binary64 F]

open Binary64

/-- A vector, as the bits of its `f32` components. -/
abbrev Singles := List UInt32

/-- `f32::is_finite`. -/
def isFiniteSingle (bits : UInt32) : Bool := bits.toNat / 2 ^ 23 % 2 ^ 8 ≠ 255

def checkedSquaredNorm (values : Singles) (side : VectorSide) :
    Except RankError F :=
  if values = [] then .error (.emptyVector side)
  else do
    let squaredNorm ← values.zipIdx.foldlM (fun total (value, index) =>
      if isFiniteSingle value then
        .ok (add total (mul (ofSingle value) (ofSingle value)))
      else .error (.nonFiniteComponent side index)) (nearest 0)
    if numEq squaredNorm (nearest 0) then .error (.zeroNorm side)
    else return squaredNorm

/-- The cosine of two vectors, a few ulps off the range pulled back into it. -/
def cosine (left right : Singles) : Except RankError F :=
  if left.length ≠ right.length then
    .error (.dimensionMismatch left.length right.length)
  else do
    let leftNorm ← checkedSquaredNorm (F := F) left .left
    let rightNorm ← checkedSquaredNorm (F := F) right .right
    let products : List F := (left.zip right).map fun (left, right) =>
      mul (ofSingle left) (ofSingle right)
    let dot := products.foldl add negZero
    let score := div dot (mul (sqrt leftNorm) (sqrt rightNorm))
    if !isFinite score then .error .nonFiniteScore
    else return clamp score (nearest (-1)) (nearest 1)

variable (F) in
/-- A finite cosine, rounded to the four decimals of the public score. -/
structure NormalizedScore where
  get : F
  finite : isFinite get = true
  lower : -1 ≤ value get
  upper : value get ≤ 1

theorem isFinite_negOne : isFinite (nearest (-1) : F) = true := by
  simpa using isFinite_int (F := F) (n := -1) (by norm_num)

theorem value_negOne : value (nearest (-1) : F) = -1 := by
  simpa using value_nearest_int (F := F) (n := -1) (by norm_num)

/-- The check of the cosine range is about the value of the score. -/
theorem within_cosine_iff {score : F} (hfinite : isFinite score = true) :
    within (nearest (-1)) (nearest 1) score = true ↔
      -1 ≤ value score ∧ value score ≤ 1 := by
  unfold within
  rw [Bool.and_eq_true, lessEq_iff isFinite_negOne hfinite,
    lessEq_iff hfinite isFinite_one, value_negOne, value_one]

theorem roundDecimal4_bounds {score : F} (hfinite : isFinite score = true)
    (hlow : -1 ≤ value score) (hhigh : value score ≤ 1) :
    isFinite (roundDecimal4 score) = true ∧
      -1 ≤ value (roundDecimal4 score) ∧ value (roundDecimal4 score) ≤ 1 := by
  obtain ⟨hlow', hhigh'⟩ := decimal4_bounds hlow hhigh
  have hrange : InRange F (decimal4 (value score)) := by
    apply inRange_u64
    rw [abs_le]
    constructor <;> linarith
  obtain ⟨hround, hvalue⟩ := roundDecimal4_spec hfinite hrange
  rw [hvalue]
  refine ⟨hround, ?_, ?_⟩
  · have h := int_le_value_nearest (F := F) (n := -1) (by norm_num) hrange
    push_cast at h
    exact h hlow'
  · have h := value_nearest_le_int (F := F) (n := 1) (by norm_num) hrange
    push_cast at h
    exact h hhigh'

def normalizeScore (score : F) : Except RankError (NormalizedScore F) :=
  if hfinite : isFinite score = true then
    if hrange : within (nearest (-1)) (nearest 1) score = true then
      have hbounds := (within_cosine_iff hfinite).1 hrange
      have hdecimal := roundDecimal4_bounds hfinite hbounds.1 hbounds.2
      .ok ⟨roundDecimal4 score, hdecimal.1, hdecimal.2.1, hdecimal.2.2⟩
    else .error .scoreOutsideCosineRange
  else .error .nonFiniteScore

/-- A stored chunk and the vector of its text. -/
structure DenseCandidate where
  id : ChunkId
  vector : Singles

variable (F) in
/-- The best dense chunk of a page. -/
structure DenseRankedPage where
  chunk : ChunkId
  score : NormalizedScore F

def DenseRankedPage.page (ranked : DenseRankedPage F) : PageId :=
  ranked.chunk.page

variable (F) in
structure ScoredChunk where
  id : ChunkId
  score : F

/-- Best score first, and equal scores by their chunks. -/
def ScoredChunk.order : ScoredChunk F → ScoredChunk F → Ordering :=
  compareLex (fun left right => compare right.score left.score)
    (compareOn ScoredChunk.id)

def scoreChunk (query : Singles) (candidate : DenseCandidate) :
    Except RankError (ScoredChunk F) := do
  return ⟨candidate.id, ← cosine query candidate.vector⟩

def normalizeChunk (chunk : ScoredChunk F) :
    Except RankError (DenseRankedPage F) := do
  return ⟨chunk.id, ← normalizeScore chunk.score⟩

/-- Every chunk scored, and the best one of each page. -/
def denseRank (query : Singles) (candidates : List DenseCandidate) :
    Except RankError (List (DenseRankedPage F)) := do
  let chunks ← candidates.mapM (scoreChunk query)
  (firstBy (fun chunk => chunk.id.page) (sortBy ScoredChunk.order chunks)).mapM
    normalizeChunk

variable (F) in
structure RrfContribution where
  source : Nat
  rank : Nat
  weight : F
  score : F

variable (F) in
structure RrfScore where
  total : F
  contributions : List (RrfContribution F)

def validateWeights (rankings : Nat) (weights : List F) :
    Except RankError Unit :=
  if rankings ≠ weights.length then
    .error (.rankingWeightMismatch rankings weights.length)
  else weights.zipIdx.forM fun (weight, source) =>
    if !isFinite weight then .error (.nonFiniteWeight source)
    else if less weight (nearest 0) then .error (.negativeWeight source)
    else .ok ()

variable (F) in
/-- The fused scores of the pages seen so far. -/
abbrev RrfScores := ExtTreeMap PageId (RrfScore F)

/-- Add what one rank of one source contributes to its page. -/
def contribute (source : Nat) (weight : F) (k : Nat) (scores : RrfScores F)
    (ranked : PageId × Nat) : Except RankError (RrfScores F) :=
  let (page, index) := ranked
  let rank := index + 1
  let score := div weight (add (ofNat k) (ofNat rank))
  if !isFinite score then .error (.nonFiniteRrfContribution source rank)
  else
    let known := scores[page]?.getD ⟨nearest 0, []⟩
    let total := add known.total score
    if !isFinite total then .error (.nonFiniteFusedTotal page)
    else .ok (scores.insert page
      ⟨total, known.contributions ++ [⟨source, rank, weight, score⟩]⟩)

/-- The fused totals, and the contributions they are the sums of. -/
def rrfExplained (rankings : List (List PageId)) (weights : List F) (k : Nat) :
    Except RankError (RrfScores F) := do
  validateWeights rankings.length weights
  (rankings.zip weights).zipIdx.foldlM (fun scores ((ranking, weight), source) =>
    (firstBy id ranking).zipIdx.foldlM (contribute source weight k) scores) ∅

/-- One chunk of the lexical ranking, the best one first. -/
structure LexicalCandidate where
  chunk : ChunkId
  deriving DecidableEq

def LexicalCandidate.page (candidate : LexicalCandidate) : PageId :=
  candidate.chunk.page

variable (F) in
/-- A page after the dense and the lexical ranks are fused. -/
structure HybridRankedPage where
  dense : DenseRankedPage F
  lexicalChunk : Option ChunkId
  denseRank : Nat
  lexicalRank : Option Nat
  fusion : Option (RrfScore F)

def HybridRankedPage.page (ranked : HybridRankedPage F) : PageId :=
  ranked.dense.page

/-- The first chunk of each page, as far as the candidates reach. -/
def lexicalPages (lexical : List LexicalCandidate) : List LexicalCandidate :=
  (firstBy LexicalCandidate.page lexical).take candidateLimit

/-- The one-based rank and the page of each dense page. -/
def denseByPage (dense : List (DenseRankedPage F)) :
    ExtTreeMap PageId (Nat × DenseRankedPage F) :=
  ExtTreeMap.ofList (dense.zipIdx.map fun (page, index) =>
    (page.page, (index + 1, page)))

def lexicalRanks (lexical : List LexicalCandidate) :
    ExtTreeMap PageId (Nat × ChunkId) :=
  ExtTreeMap.ofList (lexical.zipIdx.map fun (candidate, index) =>
    (candidate.page, (index + 1, candidate.chunk)))

/-- Best total first, and equal totals by their pages. -/
def fusedOrder : PageId × RrfScore F → PageId × RrfScore F → Ordering :=
  compareLex (fun left right => compare right.2.total left.2.total)
    (compareOn Prod.fst)

/-- Fuse the two rankings.  Without a lexical page that is also a dense one,
the dense ranking stands alone. -/
def hybridRank (dense : List (DenseRankedPage F))
    (lexical : List LexicalCandidate) (limit : Nat) :
    Except RankError (List (HybridRankedPage F)) :=
  let byPage := denseByPage dense
  let ranks := lexicalRanks (lexicalPages lexical)
  let usable := ((lexicalPages lexical).filter fun candidate =>
    candidate.page ∈ byPage).map LexicalCandidate.page
  if usable = [] then
    .ok ((dense.take limit).zipIdx.map fun (page, index) =>
      ⟨page, none, index + 1, none, none⟩)
  else do
    let rankings := [(dense.take candidateLimit).map DenseRankedPage.page, usable]
    let scores ← rrfExplained rankings [nearest 1, nearest (1 / 5)] rrfK
    -- Every fused page is a dense page, so the map drops none of them.
    return ((sortBy fusedOrder scores.toList).take limit).filterMap
      fun (page, score) => byPage[page]?.map fun (denseRank, densePage) =>
        ⟨densePage, ranks[page]?.map Prod.snd, denseRank,
          ranks[page]?.map Prod.fst, some score⟩

end

end Yams.Search
