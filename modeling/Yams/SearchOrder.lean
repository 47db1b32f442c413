/-
Search does not depend on the order in which pages, chunks and vectors are
loaded: the loaded maps are the same, every sort tells its elements apart, and
what is looked up is unique.
-/
import Yams.GatePartition

namespace Yams.Search

open Std (ExtTreeMap)
open Binary64

section Loaded

variable {pages others : List PageMetadata} {rows : PageById}

theorem loadPages_eq_ok_iff :
    pages.foldlM loadPage ∅ = .ok rows ↔ (pages.map PageMetadata.id).Nodup ∧
      ExtTreeMap.ofList (pages.map fun page => (page.id, page)) = rows :=
  foldlM_insertNew_empty PageMetadata.id fun page => page

theorem loadPages_perm (hperm : pages.Perm others)
    (h : pages.foldlM loadPage ∅ = .ok rows) :
    others.foldlM loadPage ∅ = .ok rows := by
  obtain ⟨hnodup, rfl⟩ := loadPages_eq_ok_iff.1 h
  rw [loadPages_eq_ok_iff]
  refine ⟨(hperm.map _).nodup_iff.1 hnodup, ?_⟩
  symm
  apply ofList_eq_of_perm (hperm.map _)
  rw [List.map_map]
  exact hnodup

variable {chunks stored : List ChunkMetadata} {loaded : ChunkById}

theorem loadChunks_eq_ok_iff :
    chunks.foldlM (loadChunk rows) ∅ = .ok loaded ↔
      (∀ chunk ∈ chunks, chunk.id.page ∈ rows) ∧
        (chunks.map ChunkMetadata.id).Nodup ∧
        ExtTreeMap.ofList (chunks.map fun chunk => (chunk.id, chunk)) = loaded := by
  refine (foldlM_guard (fun chunk : ChunkMetadata => chunk.id.page ∉ rows)
    (fun chunk => SearchError.missingPageMetadata chunk.id.page)
    fun loaded chunk => insertNew (.duplicateChunkMetadata chunk.id) loaded
      chunk.id chunk).trans (and_congr ?_ (foldlM_insertNew_empty
        ChunkMetadata.id fun chunk => chunk))
  simp

theorem loadChunks_perm (hperm : chunks.Perm stored)
    (h : chunks.foldlM (loadChunk rows) ∅ = .ok loaded) :
    stored.foldlM (loadChunk rows) ∅ = .ok loaded := by
  obtain ⟨hpages, hnodup, rfl⟩ := loadChunks_eq_ok_iff.1 h
  rw [loadChunks_eq_ok_iff]
  refine ⟨fun chunk hchunk => hpages chunk (hperm.mem_iff.2 hchunk),
    (hperm.map _).nodup_iff.1 hnodup, ?_⟩
  symm
  apply ofList_eq_of_perm (hperm.map _)
  rw [List.map_map]
  exact hnodup

variable {dense vectors : List DenseCandidate}

theorem admitDense_eq_ok_iff {seen last : List ChunkId} :
    dense.foldlM (admitDense loaded) seen = .ok last ↔
      (∀ candidate ∈ dense, candidate.id ∈ loaded ∧ candidate.id ∉ seen) ∧
        (dense.map DenseCandidate.id).Nodup ∧
        (dense.map DenseCandidate.id).reverse ++ seen = last := by
  induction dense generalizing seen with
  | nil =>
      rw [List.foldlM_nil]
      constructor
      · intro h
        exact ⟨fun _ h => absurd h List.not_mem_nil, List.nodup_nil,
          Except.ok.inj h⟩
      · rintro ⟨_, _, rfl⟩
        rfl
  | cons candidate dense ih =>
      rw [List.foldlM_cons, List.forall_mem_cons, List.map_cons, List.nodup_cons,
        List.reverse_cons, List.append_assoc]
      unfold admitDense
      by_cases hloaded : candidate.id ∈ loaded
      · by_cases hseen : candidate.id ∈ seen
        · rw [if_neg (not_not.2 hloaded), if_pos hseen]
          exact ⟨fun h => (by cases h), fun h => absurd hseen h.1.1.2⟩
        · rw [if_neg (not_not.2 hloaded), if_neg hseen, except_ok_bind]
          change List.foldlM (admitDense loaded) (candidate.id :: seen) dense = _ ↔ _
          rw [ih]
          constructor
          · rintro ⟨hall, hnodup, heq⟩
            refine ⟨⟨⟨hloaded, hseen⟩, ?_⟩, ⟨?_, hnodup⟩, heq⟩
            · intro other hother
              exact ⟨(hall other hother).1, fun hmem =>
                (hall other hother).2 (List.mem_cons_of_mem _ hmem)⟩
            · intro hmem
              obtain ⟨other, hother, hid⟩ := List.mem_map.1 hmem
              exact (hall other hother).2 (hid ▸ List.mem_cons_self)
          · rintro ⟨⟨_, hall⟩, ⟨hnew, hnodup⟩, heq⟩
            refine ⟨?_, hnodup, heq⟩
            intro other hother
            refine ⟨(hall other hother).1, ?_⟩
            intro hmem
            rcases List.mem_cons.1 hmem with hid | hmem
            · exact hnew (hid ▸ List.mem_map_of_mem hother)
            · exact (hall other hother).2 hmem
      · rw [if_pos hloaded]
        exact ⟨fun h => (by cases h), fun h => absurd h.1.1.1 hloaded⟩

/-- The vectors are those of the loaded chunks, each once. -/
theorem validateDense_eq_ok_iff :
    validateDense dense loaded = .ok () ↔
      (∀ candidate ∈ dense, candidate.id ∈ loaded) ∧
        (dense.map DenseCandidate.id).Nodup ∧
        ∀ id ∈ loaded, id ∈ dense.map DenseCandidate.id := by
  have hfind : ∀ seen : List ChunkId,
      (loaded.keys.find? fun chunk => chunk ∉ seen) = none ↔ ∀ id ∈ loaded, id ∈ seen := by
    intro seen
    rw [List.find?_eq_none]
    constructor
    · intro hnone id hid
      simpa using hnone id (ExtTreeMap.mem_keys.2 hid)
    · intro hall id hid
      simpa using hall id (ExtTreeMap.mem_keys.1 hid)
  unfold validateDense
  rw [except_bind_eq_ok]
  constructor
  · rintro ⟨seen, hseen, h⟩
    obtain ⟨hall, hnodup, rfl⟩ := admitDense_eq_ok_iff.1 hseen
    refine ⟨fun candidate hmem => (hall candidate hmem).1, hnodup, ?_⟩
    intro id hid
    split at h
    · cases h
    next hnone => simpa using (hfind _).1 hnone id hid
  · rintro ⟨hloaded, hnodup, hcovered⟩
    refine ⟨(dense.map DenseCandidate.id).reverse ++ [],
      admitDense_eq_ok_iff.2 ⟨?_, hnodup, rfl⟩, ?_⟩
    · exact fun candidate hmem => ⟨hloaded candidate hmem, List.not_mem_nil⟩
    · rw [(hfind _).2 fun id hid => by simpa using hcovered id hid]
      rfl

theorem validateDense_perm (hperm : dense.Perm vectors)
    (h : validateDense dense loaded = .ok ()) :
    validateDense vectors loaded = .ok () := by
  obtain ⟨hloaded, hnodup, hcovered⟩ := validateDense_eq_ok_iff.1 h
  rw [validateDense_eq_ok_iff]
  refine ⟨?_, (hperm.map _).nodup_iff.1 hnodup, ?_⟩
  · exact fun candidate hmem => hloaded candidate (hperm.mem_iff.2 hmem)
  · exact fun id hid => (hperm.map _).mem_iff.1 (hcovered id hid)

end Loaded

section Ranked

variable {F : Type} [Binary64 F] {query : Singles}
  {dense vectors : List DenseCandidate}

theorem scoreChunk_id {candidate : DenseCandidate} {chunk : ScoredChunk F}
    (h : scoreChunk query candidate = .ok chunk) : candidate.id = chunk.id := by
  obtain ⟨score, _, h⟩ := except_bind_eq_ok.1 h
  obtain rfl := Except.ok.inj h
  rfl

theorem scoredChunks_ids {chunks : List (ScoredChunk F)}
    (h : dense.mapM (scoreChunk query) = .ok chunks) :
    dense.map DenseCandidate.id = chunks.map ScoredChunk.id := by
  rw [← List.forall₂_eq_eq_eq, List.forall₂_map_left_iff,
    List.forall₂_map_right_iff]
  exact (mapM_eq_ok_iff.1 h).imp fun _ _ => scoreChunk_id

instance : Std.TransCmp (α := ScoredChunk F) ScoredChunk.order :=
  haveI : Std.TransCmp (fun left right : ScoredChunk F =>
      compare right.score left.score) :=
    @Std.TransCmp.opposite _ (compareOn ScoredChunk.score) _
  inferInstanceAs (Std.TransCmp (compareLex _ (compareOn ScoredChunk.id)))

theorem eq_of_order_chunk {left right : ScoredChunk F}
    (h : ScoredChunk.order left right = .eq) : left.id = right.id :=
  Std.LawfulEqOrd.eq_of_compare (Ordering.then_eq_eq.1 h).2

/-- Distinct chunks are ranked the same in whatever order they come. -/
theorem denseRank_perm {ranked : List (DenseRankedPage F)}
    (hperm : dense.Perm vectors) (hnodup : (dense.map DenseCandidate.id).Nodup)
    (h : denseRank query dense = .ok ranked) :
    denseRank query vectors = .ok ranked := by
  obtain ⟨chunks, hchunks, h⟩ := except_bind_eq_ok.1 h
  obtain ⟨scored, hscored, hperm'⟩ := mapM_perm hperm hchunks
  have hsort : sortBy ScoredChunk.order chunks = sortBy ScoredChunk.order scored := by
    apply sortBy_eq_of_perm hperm'
    intro left hleft right hright heq
    rw [scoredChunks_ids hchunks] at hnodup
    exact List.inj_on_of_nodup_map hnodup hleft hright (eq_of_order_chunk heq)
  unfold denseRank
  rw [hscored, except_ok_bind, ← hsort]
  exact h

end Ranked

section Selected

variable {F : Type} [Binary64 F] {literal texts : List LiteralChunk}

instance : Std.TransCmp LiteralChunk.order :=
  inferInstanceAs (Std.TransCmp (compareLex (compareOn LiteralChunk.path)
    (compareOn LiteralChunk.ordinal)))

/-- The place of a literal text. -/
def LiteralChunk.place (chunk : LiteralChunk) : Text × UInt32 :=
  (chunk.path, chunk.ordinal)

theorem eq_of_order_literal {left right : LiteralChunk}
    (h : LiteralChunk.order left right = .eq) : left.place = right.place := by
  obtain ⟨hpath, hordinal⟩ := Ordering.then_eq_eq.1 h
  exact Prod.ext (Std.LawfulEqOrd.eq_of_compare hpath)
    (Std.LawfulEqOrd.eq_of_compare hordinal)

theorem exactIdentifierMatch_perm (query : Text) (leader : Option Text)
    (hperm : literal.Perm texts)
    (hnodup : (literal.map LiteralChunk.place).Nodup) :
    exactIdentifierMatch query leader literal =
      exactIdentifierMatch query leader texts := by
  unfold exactIdentifierMatch
  congr 1
  funext token
  have hsort : ∀ p : LiteralChunk → Bool,
      sortBy LiteralChunk.order (literal.filter p) =
        sortBy LiteralChunk.order (texts.filter p) := by
    intro p
    apply sortBy_eq_of_perm (hperm.filter p)
    intro left hleft right hright heq
    exact List.inj_on_of_nodup_map hnodup (List.mem_of_mem_filter hleft)
      (List.mem_of_mem_filter hright) (eq_of_order_literal heq)
  rw [hsort]

theorem selectedHit_perm (exact : Option ExactMatch) (hperm : literal.Perm texts)
    (hnodup : (literal.map LiteralChunk.place).Nodup) :
    selectedHit (F := F) exact literal = selectedHit exact texts := by
  have hfind : ∀ found : ExactMatch,
      (literal.find? fun chunk =>
        chunk.path = found.path && chunk.ordinal = found.ordinal) =
      texts.find? fun chunk =>
        chunk.path = found.path && chunk.ordinal = found.ordinal := by
    intro found
    apply find?_eq_of_perm hperm
    intro left hleft right hright hfirst hsecond
    rw [Bool.and_eq_true, decide_eq_true_eq, decide_eq_true_eq] at hfirst hsecond
    apply List.inj_on_of_nodup_map hnodup hleft hright
    exact Prod.ext (hfirst.1.trans hsecond.1.symm) (hfirst.2.trans hsecond.2.symm)
  funext hit
  unfold selectedHit
  simp only [hfind]

/-- A selection does not depend on the order of the literal texts. -/
theorem select_perm (query : Text) (baseline : Option (NormalizedScore F))
    (ranked : List (RankedHit F)) (leader : Option Text)
    (config : SelectionConfig F) (hperm : literal.Perm texts)
    (hnodup : (literal.map LiteralChunk.place).Nodup) :
    select query baseline ranked literal leader config =
      select query baseline ranked texts leader config := by
  unfold select shownHits
  rw [exactIdentifierMatch_perm query leader hperm hnodup]
  simp only [selectedHit_perm _ hperm hnodup]

end Selected

section Composed

variable {F : Type} [Binary64 F] [LetterTables] {request : SearchRequest F}

omit [LetterTables] in
theorem literal_nodup {chunks : List ChunkMetadata}
    (hnodup : (chunks.map ChunkMetadata.id).Nodup) :
    ((chunks.map ChunkMetadata.toLiteral).map LiteralChunk.place).Nodup := by
  have hplace : LiteralChunk.place ∘ ChunkMetadata.toLiteral =
      (fun id : ChunkId => (id.page.path, id.ordinal)) ∘ ChunkMetadata.id := rfl
  rw [List.map_map, hplace, ← List.map_map]
  apply hnodup.map
  rintro ⟨⟨path, _⟩, ordinal⟩ ⟨⟨path', _⟩, ordinal'⟩ heq
  obtain ⟨rfl, rfl⟩ := Prod.mk.inj heq
  rfl

/-- The same request with its rows in another order. -/
structure Reordered (request other : SearchRequest F) : Prop where
  pages : request.pages.Perm other.pages
  chunks : request.chunks.Perm other.chunks
  dense : request.dense.Perm other.dense
  query : other.query = request.query
  queryEmbedding : other.queryEmbedding = request.queryEmbedding
  lexical : other.lexical = request.lexical
  snippetStatistics : other.snippetStatistics = request.snippetStatistics
  selection : other.selection = request.selection

variable {other : SearchRequest F}

/-- A request that passes the checks has distinct chunks and vectors. -/
theorem validateRequest_nodup {rows : LoadedRows}
    (h : validateRequest request = .ok rows) :
    (request.chunks.map ChunkMetadata.id).Nodup ∧
      (request.dense.map DenseCandidate.id).Nodup := by
  obtain ⟨pages, _, h⟩ := except_bind_eq_ok.1 h
  obtain ⟨chunks, hchunks, h⟩ := except_bind_eq_ok.1 h
  obtain ⟨⟨⟩, hdense, _⟩ := except_bind_eq_ok.1 h
  exact ⟨(loadChunks_eq_ok_iff.1 hchunks).2.1,
    (validateDense_eq_ok_iff.1 hdense).2.1⟩

theorem validateRequest_reordered {rows : LoadedRows}
    (hother : Reordered request other)
    (h : validateRequest request = .ok rows) :
    validateRequest other = .ok rows := by
  obtain ⟨pages, hpages, h⟩ := except_bind_eq_ok.1 h
  obtain ⟨chunks, hchunks, h⟩ := except_bind_eq_ok.1 h
  obtain ⟨⟨⟩, hdense, h⟩ := except_bind_eq_ok.1 h
  unfold validateRequest
  rw [loadPages_perm hother.pages hpages, except_ok_bind,
    loadChunks_perm hother.chunks hchunks, except_ok_bind,
    validateDense_perm hother.dense hdense, except_ok_bind, hother.lexical,
    hother.query, hother.snippetStatistics, ← hother.chunks.length_eq]
  exact h

omit [LetterTables] in
/-- Candidates that differ in the order of their literal texts. -/
theorem rankCandidates_reordered {rows : LoadedRows}
    {dense : List (DenseRankedPage F)} {candidates : Candidates F}
    (hother : Reordered request other)
    (h : rankCandidates request rows dense = .ok candidates) :
    candidates.literal = request.chunks.map ChunkMetadata.toLiteral ∧
      rankCandidates other rows dense = .ok { candidates with
        literal := other.chunks.map ChunkMetadata.toLiteral } := by
  obtain ⟨hybrid, hhybrid, h⟩ := except_bind_eq_ok.1 h
  obtain ⟨ranked, hranked, h⟩ := except_bind_eq_ok.1 h
  obtain rfl := Except.ok.inj h
  refine ⟨rfl, ?_⟩
  unfold rankCandidates
  rw [hother.lexical]
  dsimp only
  rw [hhybrid, except_ok_bind, hranked]
  rfl

theorem respond_reordered {candidates : Candidates F} {literal : List LiteralChunk}
    (hother : Reordered request other) (hperm : candidates.literal.Perm literal)
    (hnodup : (candidates.literal.map LiteralChunk.place).Nodup) :
    respond other { candidates with literal := literal } =
      respond request candidates := by
  have hselect : ∀ query config,
      Candidates.select { candidates with literal := literal } query config =
        candidates.select query config := by
    intro query config
    exact (select_perm query candidates.baseline candidates.ranked
      candidates.leader config hperm hnodup).symm
  unfold respond
  rw [hother.query, hother.selection, hother.snippetStatistics]
  simp only [hselect]

/-- The response does not depend on the order of the pages, the chunks and the
vectors of a request. -/
theorem composeSearch_reordered {response : SearchResponse F}
    (hother : Reordered request other)
    (h : composeSearch request = .ok response) :
    composeSearch other = .ok response := by
  obtain ⟨rows, hrows, h⟩ := except_bind_eq_ok.1 h
  obtain ⟨dense, hdense, h⟩ := except_bind_eq_ok.1 h
  obtain ⟨hchunks, hvectors⟩ := validateRequest_nodup hrows
  have hdense' := denseRank_perm hother.dense hvectors
    (except_mapError_eq_ok.1 hdense)
  unfold composeSearch
  rw [validateRequest_reordered hother hrows, except_ok_bind,
    hother.queryEmbedding, hdense', except_mapError_eq_ok.2 rfl, except_ok_bind,
    hother.query, hother.selection]
  by_cases hempty : dense.isEmpty
  · rw [if_pos hempty] at h ⊢
    exact h
  · rw [if_neg hempty] at h ⊢
    obtain ⟨candidates, hcandidates, h⟩ := except_bind_eq_ok.1 h
    obtain ⟨hliteral, hcandidates'⟩ := rankCandidates_reordered hother hcandidates
    rw [hcandidates', except_ok_bind, ← h]
    apply respond_reordered hother
    · rw [hliteral]
      exact hother.chunks.map _
    · rw [hliteral]
      exact literal_nodup hchunks

end Composed

namespace Sample

def second : PageMetadata :=
  ⟨⟨"/wiki/b.md".toList, by decide⟩, "B".toList, ⟨none, none, none⟩⟩

def twoPages : SearchRequest ℚ := { request with pages := second :: request.pages }

def swapped : SearchRequest ℚ :=
  { twoPages with pages := twoPages.pages.reverse }

theorem composeSearch_swapped :
    ∃ response, @composeSearch tables ℚ _ twoPages = .ok response ∧
      @composeSearch tables ℚ _ swapped = .ok response := by
  obtain ⟨response, hresponse⟩ := exists_of_toBool
    (r := @composeSearch tables ℚ _ twoPages) (by decide +kernel)
  refine ⟨response, hresponse, @composeSearch_reordered ℚ _ tables _ _ _ ?_
    hresponse⟩
  exact ⟨(List.reverse_perm _).symm, List.Perm.refl _, List.Perm.refl _,
    rfl, rfl, rfl, rfl, rfl⟩

end Sample

end Yams.Search
