/-
The selection of the hits to show: the rescue of an exact identifier, the limit,
and the gate that drops hits below a floor or too far behind the best one.
-/
import Yams.Arguments
import Yams.Rank

namespace Yams.Search

open Binary64

inductive GateMode
  | apply | bypass
  deriving DecidableEq

inductive SelectionError
  | nonFiniteMinScore
  | minScoreOutsideCosineRange
  | nonFiniteMaxGap
  | negativeMaxGap
  | missingBaselineForCandidates
  | invalidRankSignal (path : Text)
  deriving DecidableEq

/-- `SelectionError::fmt`. -/
def SelectionError.display : SelectionError → Text
  | .nonFiniteMinScore => "minimum score must be finite".toList
  | .minScoreOutsideCosineRange =>
      "minimum score must be within [-1.0, 1.0]".toList
  | .nonFiniteMaxGap => "maximum gap must be finite".toList
  | .negativeMaxGap => "maximum gap must be nonnegative".toList
  | .missingBaselineForCandidates =>
      "ranked candidates require a corpus baseline".toList
  | .invalidRankSignal path =>
      "rank explanation for ".toList ++ path ++ " is invalid".toList

section

variable (F : Type) [Binary64 F]

/-- Selection controls that passed their checks. -/
structure SelectionConfig where
  limit : Nat
  minScore : F
  maxGap : F
  gateMode : GateMode
  minScore_finite : isFinite minScore = true
  minScore_range : within (nearest (-1)) (nearest 1) minScore = true
  maxGap_finite : isFinite maxGap = true
  maxGap_nonneg : less maxGap (nearest 0) = false

/-- One contribution to the fused rank of a page. -/
structure RankContribution where
  source : Nat
  rank : Nat
  weight : F
  score : F

/-- The rank signals of a page. -/
structure HitExplanation where
  denseRank : Option Nat
  bm25Rank : Option Nat
  rrfScore : Option F
  contributions : List (RankContribution F)

end

structure PageLabels where
  corpus : Option Text
  status : Option Text
  project : Option Text
  deriving DecidableEq

structure SelectedChunk where
  ordinal : UInt32
  text : Text
  deriving DecidableEq

/-- A literal text that may hold the identifier of the query. -/
structure LiteralChunk where
  path : Text
  ordinal : UInt32
  text : Text
  deriving DecidableEq

/-- The first literal occurrence on the one matching page. -/
structure ExactMatch where
  path : Text
  ordinal : UInt32
  deriving DecidableEq

section

variable (F : Type) [Binary64 F]

/-- A ranked page, ready for selection. -/
structure RankedHit where
  name : Text
  path : Text
  denseChunk : SelectedChunk
  lexicalChunk : Option SelectedChunk
  score : NormalizedScore F
  finalRank : Nat
  explanation : HitExplanation F
  labels : PageLabels

structure SelectedHit where
  name : Text
  path : Text
  selectedChunk : SelectedChunk
  score : NormalizedScore F
  exact : Bool
  explanation : HitExplanation F
  labels : PageLabels

/-- A page that the gate kept or dropped, with its score. -/
structure GateHit where
  path : Text
  score : F

inductive GateReason
  | noHits | floor | gap | passed
  deriving DecidableEq

structure GateVerdict where
  baseline : F
  minScore : F
  maxGap : F
  noHits : Bool
  floorFired : Bool
  top : Option F
  floorDropped : List (GateHit F)
  gapDropped : List (GateHit F)
  rescued : List (GateHit F)

structure SelectionOutcome where
  query : Text
  hits : List (SelectedHit F)
  applied : Bool
  gate : Option (GateVerdict F)
  exitCode : ExitCode

end

variable {F : Type} [Binary64 F]

def SelectionConfig.new (limit : Nat) (minScore maxGap : F)
    (gateMode : GateMode) : Except SelectionError (SelectionConfig F) :=
  if hmin : isFinite minScore = true then
    if hrange : within (nearest (-1)) (nearest 1) minScore = true then
      if hgap : isFinite maxGap = true then
        if hneg : less maxGap (nearest 0) = false then
          .ok ⟨limit, minScore, maxGap, gateMode, hmin, hrange, hgap, hneg⟩
        else .error .negativeMaxGap
      else .error .nonFiniteMaxGap
    else .error .minScoreOutsideCosineRange
  else .error .nonFiniteMinScore

/-- The shipped controls. -/
def SelectionConfig.default : SelectionConfig F where
  limit := 5
  minScore := nearest (18 / 25)
  maxGap := nearest (1 / 20)
  gateMode := .apply
  minScore_finite := isFinite_nearest (inRange_u64 (by norm_num))
  minScore_range := by
    have hrange : InRange F (18 / 25) := inRange_u64 (by norm_num)
    rw [within_cosine_iff (isFinite_nearest hrange)]
    have hlow := int_le_value_nearest (n := -1) (by norm_num) hrange
    have hhigh := value_nearest_le_int (n := 1) (by norm_num) hrange
    push_cast at hlow hhigh
    exact ⟨hlow (by norm_num), hhigh (by norm_num)⟩
  maxGap_finite := isFinite_nearest (inRange_u64 (by norm_num))
  maxGap_nonneg := by
    have hrange : InRange F (1 / 20) := inRange_u64 (by norm_num)
    have hlow := int_le_value_nearest (n := 0) (by norm_num) hrange
    push_cast at hlow
    rw [← Bool.not_eq_true, less_iff (isFinite_nearest hrange) isFinite_zero,
      value_zero, not_lt]
    exact hlow (by norm_num)

/-- The same controls, with the gate only reported. -/
def SelectionConfig.bypass (config : SelectionConfig F) : SelectionConfig F :=
  { config with gateMode := .bypass }

/-- Controls that passed their checks pass them again. -/
theorem SelectionConfig.new_bypass (config : SelectionConfig F) :
    SelectionConfig.new config.limit config.minScore config.maxGap .bypass =
      .ok config.bypass := by
  unfold SelectionConfig.new
  rw [dif_pos config.minScore_finite, dif_pos config.minScore_range,
    dif_pos config.maxGap_finite, dif_pos config.maxGap_nonneg]
  rfl

namespace Identifier

def isIdentifierByte (b : UInt8) : Bool :=
  (0x30 ≤ b && b ≤ 0x39) || (0x41 ≤ b && b ≤ 0x5a) || (0x61 ≤ b && b ≤ 0x7a) ||
    b = 0x5f

/-- The maximal runs of identifier bytes. -/
def tokens (bytes : Bytes) : List Bytes :=
  (bytes.splitOnP fun b => !isIdentifierByte b).filter fun run => run ≠ []

/-- The only identifier of a query. -/
def singleAsciiIdentifierToken (query : Text) : Option Bytes :=
  match tokens query.toBytes with
  | [token] => some token
  | _ => none

/-- An identifier stands in a text, not as a part of a longer one. -/
def containsIdentifier (text token : Bytes) : Bool :=
  (List.range (text.length + 1 - token.length)).any fun start =>
    (text.drop start).take token.length = token &&
      (start = 0 || !(text[start - 1]?.any isIdentifierByte)) &&
      !(text[start + token.length]?.any isIdentifierByte)

def isLowerCamelCase : Bytes → Bool
  | [] => false
  | first :: rest =>
      (0x61 ≤ first && first ≤ 0x7a) && rest.any fun b => 0x41 ≤ b && b ≤ 0x5a

/-- Identifiers that no plain word looks like. -/
def isDistinctive (token : Bytes) : Bool :=
  token.contains 0x5f || token.any (fun b => 0x30 ≤ b && b ≤ 0x39) ||
    isLowerCamelCase token

end Identifier

/-- By path, and the chunks of a page by their ordinals. -/
def LiteralChunk.order : LiteralChunk → LiteralChunk → Ordering :=
  compareLex (compareOn LiteralChunk.path) (compareOn LiteralChunk.ordinal)

/-- The page that alone holds the identifier of the query, if the lexical
ranking puts it first. -/
def exactIdentifierMatch (query : Text) (lexicalLeader : Option Text)
    (chunks : List LiteralChunk) : Option ExactMatch := do
  let token ← Identifier.singleAsciiIdentifierToken query
  if !Identifier.isDistinctive token then none
  else
    let found := sortBy LiteralChunk.order (chunks.filter fun chunk =>
      Identifier.containsIdentifier chunk.text.toBytes token)
    let first ← found.head?
    if found.any fun chunk => chunk.path ≠ first.path then none
    else if lexicalLeader ≠ some first.path then none
    else some ⟨first.path, first.ordinal⟩

def SelectedHit.toGateHit (hit : SelectedHit F) : GateHit F :=
  ⟨hit.path, hit.score.get⟩

def GateVerdict.margin (verdict : GateVerdict F) : F :=
  sub verdict.baseline verdict.minScore

def GateVerdict.reason (verdict : GateVerdict F) : GateReason :=
  if verdict.noHits then .noHits
  else if verdict.floorFired then .floor
  else if !verdict.gapDropped.isEmpty || !verdict.rescued.isEmpty then .gap
  else .passed

/-- The checks of a contribution. -/
def RankContribution.invalid (contribution : RankContribution F) : Bool :=
  contribution.rank = 0 || !isFinite contribution.weight ||
    less contribution.weight (nearest 0) || !isFinite contribution.score

def validateHit (hit : RankedHit F) : Except SelectionError Unit :=
  let invalidRank := hit.finalRank = 0 || hit.explanation.denseRank = some 0 ||
    hit.explanation.bm25Rank = some 0 ||
    hit.explanation.rrfScore.any (fun score => !isFinite score) ||
    hit.explanation.contributions.any RankContribution.invalid
  if invalidRank then .error (.invalidRankSignal hit.path) else .ok ()

/-- By rank, then by path, then by the ordinal of the dense chunk. -/
def RankedHit.order : RankedHit F → RankedHit F → Ordering :=
  compareLex (compareOn RankedHit.finalRank)
    (compareLex (compareOn RankedHit.path)
      (compareOn fun hit => hit.denseChunk.ordinal))

/-- The chunk to show for a page: the exact one, the lexical one, or the dense
one. -/
def selectedHit (exact : Option ExactMatch) (literal : List LiteralChunk)
    (hit : RankedHit F) : SelectedHit F :=
  let exactChunk := (exact.filter fun found => found.path = hit.path).bind
    fun found => (literal.find? fun chunk =>
      chunk.path = found.path && chunk.ordinal = found.ordinal).map fun chunk =>
        SelectedChunk.mk chunk.ordinal chunk.text
  { name := hit.name, path := hit.path,
    selectedChunk := (exactChunk.or hit.lexicalChunk).getD hit.denseChunk,
    score := hit.score, exact := false, explanation := hit.explanation,
    labels := hit.labels }

def maximumScore (hits : List (SelectedHit F)) : Option F :=
  (hits.map fun hit => hit.score.get).max?

variable (F) in
/-- What the gate has decided about the hits before. -/
structure Gated where
  kept : List (SelectedHit F)
  dropped : List (GateHit F)
  rescued : List (GateHit F)

/-- A hit that passes or is exact is kept, and an exact one that does not pass
is rescued. -/
def Gated.judge (passes : SelectedHit F → Bool) (gated : Gated F)
    (hit : SelectedHit F) : Gated F :=
  if passes hit || hit.exact then
    { gated with
      kept := gated.kept ++ [hit],
      rescued := if passes hit then gated.rescued
        else gated.rescued ++ [hit.toGateHit] }
  else { gated with dropped := gated.dropped ++ [hit.toGateHit] }

def judgeAll (passes : SelectedHit F → Bool) (hits : List (SelectedHit F)) :
    Gated F :=
  hits.foldl (Gated.judge passes) ⟨[], [], []⟩

/-- The verdict on no hits at all. -/
def emptyVerdict (baseline : F) (config : SelectionConfig F) : GateVerdict F :=
  ⟨baseline, config.minScore, config.maxGap, true, false, none, [], [], []⟩

/-- Below the floor only an exact hit is kept; above it the hits within the gap
behind the best one are. -/
def applyGate (hits : List (SelectedHit F)) (baseline : F)
    (config : SelectionConfig F) : List (SelectedHit F) × GateVerdict F :=
  match maximumScore hits with
  | none => ([], emptyVerdict baseline config)
  | some anchor =>
      if less baseline config.minScore then
        let gated := judgeAll (fun _ => false) hits
        (gated.kept, ⟨baseline, config.minScore, config.maxGap, false, true,
          maximumScore gated.kept, gated.dropped, [], gated.rescued⟩)
      else
        let gated := judgeAll (fun hit =>
          lessEq (sub anchor config.maxGap) hit.score.get) hits
        (gated.kept, ⟨baseline, config.minScore, config.maxGap, false, false,
          maximumScore gated.kept, [], gated.dropped, gated.rescued⟩)

/-- Mark the exact hit among those to show, or put it in the place of the last
one. -/
def showExact (limit : Nat) (shown : List (SelectedHit F))
    (hit : SelectedHit F) : List (SelectedHit F) :=
  match shown.findIdx? fun other => other.path = hit.path with
  | some position => shown.modify position fun other => { other with exact := true }
  | none =>
      if shown.length = limit then shown.dropLast ++ [{ hit with exact := true }]
      else shown ++ [{ hit with exact := true }]

/-- The first hit of each page, in the order of their ranks. -/
def orderedHits (ranked : List (RankedHit F)) : List (RankedHit F) :=
  firstBy RankedHit.path (sortBy RankedHit.order ranked)

/-- The hits to show before the gate. -/
def shownHits (exact : Option ExactMatch) (ranked : List (RankedHit F))
    (literal : List LiteralChunk) (limit : Nat) : List (SelectedHit F) :=
  let selected := (orderedHits ranked).map (selectedHit exact literal)
  let exactHit := exact.bind fun found =>
    selected.find? fun hit => hit.path = found.path
  let shown := selected.take limit
  match exactHit with
  | some hit => if 0 < limit then showExact limit shown hit else shown
  | none => shown

/-- Collapse the ranked chunks, rescue the exact page, and gate once. -/
def select (query : Text) (baseline : Option (NormalizedScore F))
    (ranked : List (RankedHit F)) (literal : List LiteralChunk)
    (lexicalLeader : Option Text) (config : SelectionConfig F) :
    Except SelectionError (SelectionOutcome F) := do
  ranked.forM validateHit
  if baseline.isNone ∧ ranked ≠ [] then throw .missingBaselineForCandidates
  let exact := exactIdentifierMatch query lexicalLeader literal
  let shown := shownHits exact ranked literal config.limit
  let applied := config.gateMode = .apply
  let gated := baseline.map fun baseline => applyGate shown baseline.get config
  let hits := if applied then (gated.map Prod.fst).getD [] else shown
  let exitCode :=
    if hits ≠ [] then .ok else if baseline.isNone then .empty else .unsure
  return ⟨query, hits, applied, gated.map Prod.snd, exitCode⟩

end Yams.Search
