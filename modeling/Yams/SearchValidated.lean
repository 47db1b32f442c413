/-
After its checks, a search fails only with an error of the cosines: the rows
that the composition looks up are loaded, the fused scores stay small, and the
terms of the statistics are those of the query.
-/
import Yams.SearchOrder

namespace Yams.Search

open Std (ExtTreeMap ExtTreeSet)
open Binary64

variable {F : Type} [Binary64 F]

section Scores

/-- Clamping leaves a score in the cosine range. -/
theorem clamp_bounds {score : F} (hfinite : isFinite score = true) :
    isFinite (clamp score (nearest (-1)) (nearest 1)) = true ∧
      -1 ≤ value (clamp score (nearest (-1)) (nearest 1)) ∧
      value (clamp score (nearest (-1)) (nearest 1)) ≤ 1 := by
  unfold clamp
  by_cases hlow : less score (nearest (-1)) = true
  · rw [if_pos hlow, value_negOne]
    exact ⟨isFinite_negOne, le_refl _, by norm_num⟩
  · rw [if_neg hlow]
    rw [less_iff hfinite isFinite_negOne, value_negOne, not_lt] at hlow
    by_cases hhigh : less (nearest 1) score = true
    · rw [if_pos hhigh, value_one]
      exact ⟨isFinite_one, by norm_num, le_refl _⟩
    · rw [if_neg hhigh]
      rw [less_iff isFinite_one hfinite, value_one, not_lt] at hhigh
      exact ⟨hfinite, hlow, hhigh⟩

theorem normalizeScore_ok {score : F} (hfinite : isFinite score = true)
    (hlow : -1 ≤ value score) (hhigh : value score ≤ 1) :
    ∃ normalized, normalizeScore score = .ok normalized := by
  unfold normalizeScore
  rw [dif_pos hfinite, dif_pos ((within_cosine_iff hfinite).2 ⟨hlow, hhigh⟩)]
  exact ⟨_, rfl⟩

theorem cosine_normalizes {left right : Singles} {score : F}
    (h : cosine left right = .ok score) :
    ∃ normalized, normalizeScore score = .ok normalized := by
  unfold cosine at h
  split at h
  · cases h
  · obtain ⟨leftNorm, _, h⟩ := except_bind_eq_ok.1 h
    obtain ⟨rightNorm, _, h⟩ := except_bind_eq_ok.1 h
    dsimp only at h
    split at h
    · cases h
    · next hfinite =>
        rw [Bool.not_eq_true, Bool.not_eq_false'] at hfinite
        obtain ⟨hclamped, hlow, hhigh⟩ := clamp_bounds hfinite
        obtain rfl := Except.ok.inj h
        exact normalizeScore_ok hclamped hlow hhigh

variable {query : Singles} {dense : List DenseCandidate}

/-- The dense ranking fails only where a cosine does. -/
theorem denseRank_ok_or_cosine (query : Singles) (dense : List DenseCandidate) :
    (∃ ranked, denseRank (F := F) query dense = .ok ranked) ∨
      ∃ candidate ∈ dense, ∃ error,
        cosine (F := F) query candidate.vector = .error error ∧
        denseRank (F := F) query dense = .error error := by
  unfold denseRank
  cases hchunks : dense.mapM (scoreChunk (F := F) query) with
  | error error =>
      obtain ⟨candidate, hcandidate, hscore⟩ := mapM_eq_error hchunks
      refine Or.inr ⟨candidate, hcandidate, error, ?_, rfl⟩
      unfold scoreChunk at hscore
      cases hcosine : cosine (F := F) query candidate.vector with
      | error other =>
          rw [hcosine] at hscore
          exact congrArg Except.error (Except.error.inj hscore)
      | ok score =>
          rw [hcosine] at hscore
          cases hscore
  | ok chunks =>
      apply Or.inl
      rw [except_ok_bind]
      apply mapM_ok
      intro chunk hchunk
      obtain ⟨candidate, _, hscore⟩ := (mapM_mem hchunks).2.1 chunk
        (mem_sortBy.1 (mem_of_mem_firstBy hchunk))
      obtain ⟨score, hcosine, hpure⟩ := except_bind_eq_ok.1 hscore
      obtain rfl := Except.ok.inj hpure
      obtain ⟨normalized, hnormalized⟩ := cosine_normalizes hcosine
      refine ⟨⟨candidate.id, normalized⟩, ?_⟩
      unfold normalizeChunk
      rw [hnormalized]
      rfl

/-- The dense ranking ranks candidates. -/
theorem denseRank_mem {ranked : List (DenseRankedPage F)}
    (h : denseRank query dense = .ok ranked) {page : DenseRankedPage F}
    (hpage : page ∈ ranked) : page.chunk ∈ dense.map DenseCandidate.id := by
  obtain ⟨chunks, hchunks, h⟩ := except_bind_eq_ok.1 h
  obtain ⟨chunk, hchunk, hnormal⟩ := (mapM_mem h).2.1 page hpage
  obtain ⟨normalized, _, hpure⟩ := except_bind_eq_ok.1 hnormal
  obtain rfl := Except.ok.inj hpure
  rw [scoredChunks_ids hchunks]
  exact List.mem_map_of_mem (mem_sortBy.1 (mem_of_mem_firstBy hchunk))

end Scores

section Fusion

/-- A contribution that the selection accepts. -/
def RrfContribution.Sound (contribution : RrfContribution F) : Prop :=
  contribution.rank ≠ 0 ∧ isFinite contribution.weight = true ∧
    0 ≤ value contribution.weight ∧ isFinite contribution.score = true

/-- A fused total after at most `n` contributions. -/
structure RrfScore.Sound (n : Nat) (score : RrfScore F) : Prop where
  finite : isFinite score.total = true
  nonneg : 0 ≤ value score.total
  le : value score.total ≤ n
  contributions : ∀ contribution ∈ score.contributions, contribution.Sound

theorem RrfScore.Sound.mono {n : Nat} {score : RrfScore F} (h : score.Sound n) :
    score.Sound (n + 1) := by
  refine ⟨h.finite, h.nonneg, h.le.trans ?_, h.contributions⟩
  push_cast
  linarith

/-- The fused scores after `n` contributions, all to some known pages. -/
def SoundScores (known : PageId → Prop) (n : Nat) (scores : RrfScores F) : Prop :=
  ∀ page score, scores[page]? = some score → known page ∧ score.Sound n

theorem sound_new (n : Nat) : (⟨nearest 0, []⟩ : RrfScore F).Sound n := by
  refine ⟨isFinite_zero, ?_, ?_, fun _ h => absurd h List.not_mem_nil⟩
  · rw [value_zero]
  · rw [value_zero]
    exact Nat.cast_nonneg n

/-- The weight of a source over a positive offset is at most one. -/
theorem divided_weight {weight : F} {rank : Nat} (hfinite : isFinite weight = true)
    (hlow : 0 ≤ value weight) (hhigh : value weight ≤ 1)
    (hrank : rank ≤ candidateLimit) :
    isFinite (div weight (add (ofNat rrfK) (ofNat rank))) = true ∧
      0 ≤ value (div weight (add (ofNat rrfK) (ofNat rank))) ∧
      value (div weight (add (ofNat rrfK) (ofNat rank))) ≤ 1 := by
  have hbound : (rank : ℤ) ≤ 25 := by exact_mod_cast hrank
  have hoffset : value (ofNat rrfK : F) = 60 := by
    have h := value_nearest_int (F := F) (n := 60) (by norm_num)
    push_cast at h
    exact h
  have hoffset' : isFinite (ofNat rrfK : F) = true := by
    have h := isFinite_int (F := F) (n := 60) (by norm_num)
    push_cast at h
    exact h
  have hsmall : |(rank : ℤ)| ≤ 2 ^ 53 := by
    rw [abs_of_nonneg (Int.natCast_nonneg rank)]
    linarith
  have hvalue : value (ofNat rank : F) = rank := by
    have h := value_nearest_int (F := F) hsmall
    rw [Int.cast_natCast] at h
    exact h
  have hvalue' : isFinite (ofNat rank : F) = true := by
    have h := isFinite_int (F := F) hsmall
    rw [Int.cast_natCast] at h
    exact h
  have hsum : |(60 + rank : ℤ)| ≤ 2 ^ 53 := by
    rw [abs_of_nonneg (by linarith [Int.natCast_nonneg rank])]
    linarith
  have hrange : InRange F (value (ofNat rrfK : F) + value (ofNat rank : F)) := by
    rw [hoffset, hvalue]
    have h := inRange_int (F := F) hsum
    push_cast at h
    exact h
  obtain ⟨hfinite', hvalue''⟩ := add_spec hoffset' hvalue' hrange
  have hdivisor : value (add (ofNat rrfK) (ofNat rank) : F) = 60 + rank := by
    rw [hvalue'', hoffset, hvalue]
    have h := value_nearest_int (F := F) hsum
    push_cast at h
    exact h
  have hnonneg : (0 : ℚ) ≤ rank := Nat.cast_nonneg rank
  have hpos : (0 : ℚ) < 60 + rank := by linarith
  have hquotient : 0 ≤ value weight / (60 + rank) := div_nonneg hlow hpos.le
  have hquotient' : value weight / (60 + rank) ≤ 1 := by
    rw [div_le_one hpos]
    linarith
  have hquotientRange : InRange F (value weight / (60 + rank)) := by
    apply inRange_u64
    rw [abs_of_nonneg hquotient]
    linarith [show (1 : ℚ) ≤ 2 ^ 64 by norm_num]
  obtain ⟨hdiv, heq⟩ := div_spec hfinite hfinite'
    (by rw [hdivisor]; exact hpos.ne') (by rw [hdivisor]; exact hquotientRange)
  rw [heq, hdivisor]
  refine ⟨hdiv, ?_, ?_⟩
  · have h := int_le_value_nearest (F := F) (n := 0) (by norm_num) hquotientRange
    push_cast at h
    exact h hquotient
  · have h := value_nearest_le_int (F := F) (n := 1) (by norm_num) hquotientRange
    push_cast at h
    exact h hquotient'

/-- Adding a number of the unit interval to a small total. -/
theorem add_unit {total score : F} {n : Nat} (hn : n < 2 ^ 52)
    (hfinite : isFinite total = true) (hlow : 0 ≤ value total)
    (hhigh : value total ≤ n) (hscore : isFinite score = true)
    (hscoreLow : 0 ≤ value score) (hscoreHigh : value score ≤ 1) :
    isFinite (add total score) = true ∧ 0 ≤ value (add total score) ∧
      value (add total score) ≤ (n + 1 : Nat) := by
  have hcast : (n : ℚ) < 2 ^ 52 := by exact_mod_cast hn
  have hrange : InRange F (value total + value score) := by
    apply inRange_u64
    rw [abs_of_nonneg (by linarith)]
    linarith [show (2 : ℚ) ^ 52 + 1 ≤ 2 ^ 64 by norm_num]
  obtain ⟨hadd, heq⟩ := add_spec hfinite hscore hrange
  rw [heq]
  refine ⟨hadd, ?_, ?_⟩
  · have h := int_le_value_nearest (F := F) (n := 0) (by norm_num) hrange
    push_cast at h
    exact h (by linarith)
  · have hsmall : |((n + 1 : Nat) : ℤ)| ≤ 2 ^ 53 := by
      rw [abs_of_nonneg (Int.natCast_nonneg _)]
      have hle : n + 1 ≤ 2 ^ 53 := by omega
      exact_mod_cast hle
    have h := value_nearest_le_int (F := F) hsmall hrange
    rw [Int.cast_natCast] at h
    apply h
    push_cast
    linarith

/-- One contribution keeps the totals small. -/
theorem contribute_ok {known : PageId → Prop} {source n : Nat} {weight : F}
    {scores : RrfScores F} {page : PageId} {index : Nat} (hn : n < 2 ^ 52)
    (hfinite : isFinite weight = true) (hlow : 0 ≤ value weight)
    (hhigh : value weight ≤ 1) (hindex : index < candidateLimit)
    (hknown : known page) (hscores : SoundScores known n scores) :
    ∃ next, contribute source weight rrfK scores (page, index) = .ok next ∧
      SoundScores known (n + 1) next := by
  have hrank : index + 1 ≤ candidateLimit := hindex
  obtain ⟨hscore, hscoreLow, hscoreHigh⟩ :=
    divided_weight hfinite hlow hhigh hrank
  have hold : (scores[page]?.getD ⟨nearest 0, []⟩).Sound n := by
    cases hfound : scores[page]? with
    | none => exact sound_new n
    | some score => exact (hscores page score hfound).2
  obtain ⟨htotal, htotalLow, htotalHigh⟩ := add_unit hn hold.finite hold.nonneg
    hold.le hscore hscoreLow hscoreHigh
  unfold contribute
  dsimp only
  rw [if_neg (by simp [hscore]), if_neg (by simp [htotal])]
  refine ⟨_, rfl, ?_⟩
  intro other score hother
  rw [ExtTreeMap.getElem?_insert] at hother
  split at hother
  · next heq =>
      obtain rfl := Std.LawfulEqOrd.eq_of_compare heq
      obtain rfl := Option.some.inj hother
      refine ⟨hknown, htotal, htotalLow, htotalHigh, ?_⟩
      intro contribution hcontribution
      rcases List.mem_append.1 hcontribution with hmem | hmem
      · exact hold.contributions contribution hmem
      · obtain rfl := List.mem_singleton.1 hmem
        exact ⟨Nat.succ_ne_zero index, hfinite, hlow, hscore⟩
  · exact ⟨(hscores other score hother).1, (hscores other score hother).2.mono⟩

theorem SoundScores.mono {known : PageId → Prop} {n m : Nat}
    {scores : RrfScores F} (hle : n ≤ m) (h : SoundScores known n scores) :
    SoundScores known m scores := by
  induction hle with
  | refl => exact h
  | step _ ih =>
      intro page score hscore
      exact ⟨(ih page score hscore).1, (ih page score hscore).2.mono⟩

/-- One source contributes to its pages, each page once. -/
theorem contributeAll_ok {known : PageId → Prop} (source : Nat) {n : Nat} {weight : F}
    {scores : RrfScores F} {ranking : List PageId} (hn : n ≤ candidateLimit)
    (hfinite : isFinite weight = true) (hlow : 0 ≤ value weight)
    (hhigh : value weight ≤ 1) (hlength : ranking.length ≤ candidateLimit)
    (hknown : ∀ page ∈ ranking, known page) (hscores : SoundScores known n scores) :
    ∃ next, (firstBy id ranking).zipIdx.foldlM (contribute source weight rrfK)
        scores = .ok next ∧ SoundScores known (n + candidateLimit) next := by
  have hfirst : (firstBy id ranking).length ≤ candidateLimit :=
    (firstBy_sublist ranking).length_le.trans hlength
  have hentries : (firstBy id ranking).zipIdx.length ≤ candidateLimit := by
    rw [List.length_zipIdx]
    exact hfirst
  have hlimit : candidateLimit = 25 := rfl
  have hstep : ∀ entry ∈ (firstBy id ranking).zipIdx, ∀ m state,
      m < n + (firstBy id ranking).zipIdx.length → SoundScores known m state →
      ∃ next, contribute source weight rrfK state entry = .ok next ∧
        SoundScores known (m + 1) next := by
    rintro ⟨page, index⟩ hentry m state hm hstate
    have hindex : index < (firstBy id ranking).length := by
      simpa using List.snd_lt_of_mem_zipIdx hentry
    have hpage := mem_of_mem_firstBy (List.fst_mem_of_mem_zipIdx hentry)
    exact contribute_ok (by omega) hfinite hlow hhigh (by omega)
      (hknown page hpage) hstate
  obtain ⟨next, hnext, hsound⟩ := foldlM_ok (SoundScores known) hscores hstep
  exact ⟨next, hnext, hsound.mono (by omega)⟩

theorem lexicalWeight_sound : isFinite (nearest (1 / 5) : F) = true ∧
    0 ≤ value (nearest (1 / 5) : F) ∧ value (nearest (1 / 5) : F) ≤ 1 := by
  have hrange : InRange F (1 / 5) := inRange_u64 (by norm_num)
  refine ⟨isFinite_nearest hrange, ?_, ?_⟩
  · have h := int_le_value_nearest (F := F) (n := 0) (by norm_num) hrange
    push_cast at h
    exact h (by norm_num)
  · have h := value_nearest_le_int (F := F) (n := 1) (by norm_num) hrange
    push_cast at h
    exact h (by norm_num)

/-- The shipped weights pass their checks. -/
theorem validateWeights_ok :
    validateWeights (F := F) 2 [nearest 1, nearest (1 / 5)] = .ok () := by
  obtain ⟨hfinite, hlow, _⟩ := lexicalWeight_sound (F := F)
  unfold validateWeights
  rw [if_neg (by simp)]
  apply forM_ok
  rintro ⟨weight, source⟩ hmem
  have hweight := List.fst_mem_of_mem_zipIdx hmem
  have hsound : isFinite weight = true ∧ 0 ≤ value weight := by
    rcases List.mem_cons.1 hweight with rfl | hrest
    · exact ⟨isFinite_one, by rw [value_one]; norm_num⟩
    · obtain rfl := List.mem_singleton.1 hrest
      exact ⟨hfinite, hlow⟩
  have hless : ¬ less weight (nearest 0) = true := by
    rw [less_iff hsound.1 isFinite_zero, value_zero, not_lt]
    exact hsound.2
  dsimp only
  rw [if_neg (by simp [hsound.1]), if_neg hless]

/-- Fusing two short rankings of known pages succeeds. -/
theorem rrfExplained_ok (known : PageId → Prop) {first second : List PageId}
    (hfirst : first.length ≤ candidateLimit)
    (hsecond : second.length ≤ candidateLimit)
    (hknown : ∀ page ∈ first, known page) (hknown' : ∀ page ∈ second, known page) :
    ∃ scores : RrfScores F,
      rrfExplained [first, second] [nearest 1, nearest (1 / 5)] rrfK = .ok scores ∧
        SoundScores known (candidateLimit + candidateLimit) scores := by
  have hempty : SoundScores (F := F) known 0 ∅ := by
    intro page score h
    rw [ExtTreeMap.getElem?_empty] at h
    cases h
  obtain ⟨hfinite, hlow, hhigh⟩ := lexicalWeight_sound (F := F)
  obtain ⟨middle, hmiddle, hsound⟩ := contributeAll_ok 0 (Nat.zero_le _)
    isFinite_one (by rw [value_one]; norm_num) (by rw [value_one]) hfirst hknown
    hempty
  rw [Nat.zero_add] at hsound
  obtain ⟨scores, hscores, hsound'⟩ := contributeAll_ok 1 (Nat.le_refl _)
    hfinite hlow hhigh hsecond hknown' hsound
  refine ⟨scores, ?_, hsound'⟩
  unfold rrfExplained
  rw [show [first, second].length = 2 from rfl, validateWeights_ok, except_ok_bind]
  change (_ >>= fun state => _ >>= fun state => pure state) = _
  dsimp only [Nat.zero_add]
  rw [hmiddle, except_ok_bind, hscores, except_ok_bind]
  rfl

/-- A ranked page whose rows and rank signals the composition relies on. -/
structure HybridRankedPage.Sound (dense : List (DenseRankedPage F))
    (lexical : List LexicalCandidate) (hit : HybridRankedPage F) : Prop where
  dense_mem : hit.dense ∈ dense
  lexical_mem : ∀ chunk, hit.lexicalChunk = some chunk →
    chunk ∈ lexical.map LexicalCandidate.chunk
  denseRank_pos : hit.denseRank ≠ 0
  lexicalRank_pos : hit.lexicalRank ≠ some 0
  fusion_sound : ∀ score, hit.fusion = some score → ∃ n, score.Sound n

theorem mem_denseByPage {dense : List (DenseRankedPage F)} {page : PageId}
    {rank : Nat} {found : DenseRankedPage F}
    (h : (denseByPage dense)[page]? = some (rank, found)) :
    found ∈ dense ∧ rank ≠ 0 := by
  have hmem := mem_of_getElem?_ofList h
  obtain ⟨⟨source, index⟩, hsource, heq⟩ := List.mem_map.1 hmem
  obtain ⟨_, hpair⟩ := Prod.mk.inj heq
  obtain ⟨rfl, rfl⟩ := Prod.mk.inj hpair
  exact ⟨List.fst_mem_of_mem_zipIdx hsource, Nat.succ_ne_zero index⟩

theorem mem_lexicalRanks {lexical : List LexicalCandidate} {page : PageId}
    {rank : Nat} {chunk : ChunkId}
    (h : (lexicalRanks lexical)[page]? = some (rank, chunk)) :
    chunk ∈ lexical.map LexicalCandidate.chunk ∧ rank ≠ 0 := by
  have hmem := mem_of_getElem?_ofList h
  obtain ⟨⟨source, index⟩, hsource, heq⟩ := List.mem_map.1 hmem
  obtain ⟨_, hpair⟩ := Prod.mk.inj heq
  obtain ⟨rfl, rfl⟩ := Prod.mk.inj hpair
  exact ⟨List.mem_map_of_mem (List.fst_mem_of_mem_zipIdx hsource),
    Nat.succ_ne_zero index⟩

theorem lexicalPages_sublist (lexical : List LexicalCandidate) :
    (lexicalPages lexical).Sublist lexical :=
  (List.take_sublist _ _).trans (firstBy_sublist lexical)

theorem mem_denseByPage_of_mem {dense : List (DenseRankedPage F)}
    {page : DenseRankedPage F} (h : page ∈ dense) :
    page.page ∈ denseByPage dense := by
  unfold denseByPage
  rw [ExtTreeMap.mem_ofList, List.contains_iff_mem, List.map_map]
  obtain ⟨index, hindex, rfl⟩ := List.mem_iff_getElem.1 h
  refine List.mem_map.2 ⟨(dense[index], index), ?_, rfl⟩
  rw [List.mem_zipIdx_iff_getElem?]
  exact List.getElem?_eq_getElem hindex

/-- Every fused page is found among the dense pages. -/
theorem fused_found {dense : List (DenseRankedPage F)} {n : Nat}
    {scores : RrfScores F}
    (h : SoundScores (fun page => page ∈ denseByPage dense) n scores)
    {entry : PageId × RrfScore F} (hentry : entry ∈ scores.toList) :
    ((denseByPage dense)[entry.1]?).isSome := by
  obtain ⟨page, score⟩ := entry
  have hscore := ExtTreeMap.mem_toList_iff_getElem?_eq_some.1 hentry
  rw [ExtTreeMap.getElem?_eq_some_getElem (h page score hscore).1]
  rfl

/-- The fusion succeeds, and every page it ranks is sound. -/
theorem hybridRank_ok (dense : List (DenseRankedPage F))
    (lexical : List LexicalCandidate) (limit : Nat) :
    ∃ hybrid, hybridRank dense lexical limit = .ok hybrid ∧
      ∀ hit ∈ hybrid, hit.Sound dense lexical := by
  unfold hybridRank
  dsimp only
  split
  · refine ⟨_, rfl, ?_⟩
    intro hit hhit
    obtain ⟨⟨page, index⟩, hpage, rfl⟩ := List.mem_map.1 hhit
    have hmem := (List.take_sublist _ _).subset (List.fst_mem_of_mem_zipIdx hpage)
    exact ⟨hmem, fun _ h => (by cases h), Nat.succ_ne_zero index,
      fun h => (by cases h), fun _ h => (by cases h)⟩
  · have hfirst : ((dense.take candidateLimit).map
        DenseRankedPage.page).length ≤ candidateLimit := by
      rw [List.length_map]
      exact List.length_take_le _ _
    have hsecond : (((lexicalPages lexical).filter fun candidate =>
        candidate.page ∈ denseByPage dense).map
          LexicalCandidate.page).length ≤ candidateLimit := by
      rw [List.length_map]
      exact (List.length_filter_le _ _).trans (List.length_take_le _ _)
    obtain ⟨scores, hscores, hsound⟩ := rrfExplained_ok (F := F)
      (fun page => page ∈ denseByPage dense) hfirst hsecond
      (by
        intro page hpage
        obtain ⟨source, hsource, rfl⟩ := List.mem_map.1 hpage
        exact mem_denseByPage_of_mem ((List.take_sublist _ _).subset hsource))
      (by
        intro page hpage
        obtain ⟨source, hsource, rfl⟩ := List.mem_map.1 hpage
        simpa using (List.mem_filter.1 hsource).2)
    rw [hscores, except_ok_bind]
    refine ⟨_, rfl, ?_⟩
    intro hit hhit
    obtain ⟨⟨page, score⟩, hentry, hmap⟩ := List.mem_filterMap.1 hhit
    obtain ⟨⟨rank, found⟩, hfound, rfl⟩ := Option.map_eq_some_iff.1 hmap
    have hscore : scores[page]? = some score :=
      ExtTreeMap.mem_toList_iff_getElem?_eq_some.1
        (mem_sortBy.1 ((List.take_sublist _ _).subset hentry))
    obtain ⟨hdense, hrank⟩ := mem_denseByPage hfound
    refine ⟨hdense, ?_, hrank, ?_, ?_⟩
    · intro chunk hchunk
      obtain ⟨⟨lexicalRank, other⟩, hranks, rfl⟩ := Option.map_eq_some_iff.1 hchunk
      exact ((lexicalPages_sublist lexical).map _).subset (mem_lexicalRanks hranks).1
    · intro hzero
      obtain ⟨⟨lexicalRank, other⟩, hranks, heq⟩ := Option.map_eq_some_iff.1 hzero
      exact (mem_lexicalRanks hranks).2 heq
    · intro other hother
      obtain rfl := Option.some.inj hother
      exact ⟨_, (hsound page score hscore).2⟩

end Fusion

section Lookups

/-- The rows that the composition of a request looks up are loaded. -/
structure Loaded (request : SearchRequest F) (rows : LoadedRows) : Prop where
  chunk_page : ∀ id ∈ rows.chunks, id.page ∈ rows.pages
  dense : ∀ candidate ∈ request.dense, candidate.id ∈ rows.chunks
  lexical : ∀ candidate ∈ request.lexical, candidate.id ∈ rows.chunks

theorem validateLexical_mem {lexical : List (LexicalScore F)} {chunks : ChunkById}
    (h : validateLexical lexical chunks = .ok ()) :
    ∀ candidate ∈ lexical, candidate.id ∈ chunks := by
  intro candidate hcandidate
  obtain ⟨scan, hscan, _⟩ := except_bind_eq_ok.1 h
  obtain ⟨index, hindex, rfl⟩ := List.mem_iff_getElem.1 hcandidate
  have hentry : (lexical[index], index) ∈ lexical.zipIdx := by
    rw [List.mem_zipIdx_iff_getElem?]
    exact List.getElem?_eq_getElem hindex
  obtain ⟨state, next, hstep⟩ := foldlM_mem hscan _ hentry
  by_contra hmissing
  unfold admitLexical at hstep
  dsimp only at hstep
  rw [if_pos hmissing] at hstep
  split at hstep
  · cases hstep
  · split at hstep <;> cases hstep

variable [LetterTables] {request : SearchRequest F} {rows : LoadedRows}

theorem validateRequest_loaded (h : validateRequest request = .ok rows) :
    Loaded request rows := by
  obtain ⟨pages, _, h⟩ := except_bind_eq_ok.1 h
  obtain ⟨chunks, hchunks, h⟩ := except_bind_eq_ok.1 h
  obtain ⟨⟨⟩, hdense, h⟩ := except_bind_eq_ok.1 h
  obtain ⟨⟨⟩, hlexical, h⟩ := except_bind_eq_ok.1 h
  obtain ⟨⟨⟩, _, h⟩ := except_bind_eq_ok.1 h
  obtain rfl := Except.ok.inj h
  obtain ⟨hpages, _, hloaded⟩ := loadChunks_eq_ok_iff.1 hchunks
  refine ⟨?_, (validateDense_eq_ok_iff.1 hdense).1, validateLexical_mem hlexical⟩
  intro id hid
  rw [← hloaded, ExtTreeMap.mem_ofList, List.contains_iff_mem, List.map_map] at hid
  obtain ⟨chunk, hchunk, rfl⟩ := List.mem_map.1 hid
  exact hpages chunk hchunk

theorem validateRequest_statistics (h : validateRequest request = .ok rows) :
    validateStatistics request.query request.snippetStatistics
      request.chunks.length = .ok () := by
  obtain ⟨pages, _, h⟩ := except_bind_eq_ok.1 h
  obtain ⟨chunks, _, h⟩ := except_bind_eq_ok.1 h
  obtain ⟨⟨⟩, _, h⟩ := except_bind_eq_ok.1 h
  obtain ⟨⟨⟩, _, h⟩ := except_bind_eq_ok.1 h
  obtain ⟨⟨⟩, hstatistics, _⟩ := except_bind_eq_ok.1 h
  exact hstatistics

omit [LetterTables] in
theorem selectedChunk_ok {chunks : ChunkById} {id : ChunkId} (h : id ∈ chunks) :
    ∃ chunk, selectedChunk chunks id = .ok chunk := by
  unfold selectedChunk
  rw [ExtTreeMap.getElem?_eq_some_getElem h]
  exact ⟨_, rfl⟩

omit [LetterTables] in
theorem selectedChunks_ok {chunks : ChunkById} {id : Option ChunkId}
    (h : ∀ found, id = some found → found ∈ chunks) :
    ∃ chunk, id.mapM (selectedChunk chunks) = .ok chunk := by
  cases id with
  | none => exact ⟨none, rfl⟩
  | some found =>
      obtain ⟨chunk, hchunk⟩ := selectedChunk_ok (h found rfl)
      refine ⟨some chunk, ?_⟩
      change (some <$> selectedChunk chunks found) = _
      rw [hchunk]
      rfl

omit [LetterTables] in
/-- A sound contribution passes the check of the selection. -/
theorem RrfContribution.Sound.valid {contribution : RrfContribution F}
    (h : contribution.Sound) : contribution.toRank.invalid = false := by
  obtain ⟨hrank, hweight, hnonneg, hscore⟩ := h
  have hless : less contribution.weight (nearest 0) = false := by
    rw [← Bool.not_eq_true, less_iff hweight isFinite_zero, value_zero, not_lt]
    exact hnonneg
  unfold RankContribution.invalid RrfContribution.toRank
  simp [hrank, hweight, hless, hscore]

omit [LetterTables] in
/-- A ranked page becomes a hit that the selection accepts. -/
theorem rankedHit_ok {dense : List (DenseRankedPage F)}
    {lexical : List LexicalCandidate} {hit : HybridRankedPage F} (index : Nat)
    (hsound : hit.Sound dense lexical)
    (hpages : ∀ id ∈ rows.chunks, id.page ∈ rows.pages)
    (hdense : ∀ page ∈ dense, page.chunk ∈ rows.chunks)
    (hlexical : ∀ chunk ∈ lexical.map LexicalCandidate.chunk, chunk ∈ rows.chunks) :
    ∃ found, rankedHit rows (hit, index) = .ok found ∧
      validateHit found = .ok () := by
  have hchunk := hdense hit.dense hsound.dense_mem
  obtain ⟨denseChunk, hdenseChunk⟩ := selectedChunk_ok hchunk
  obtain ⟨lexicalChunk, hlexicalChunk⟩ := selectedChunks_ok
    (fun chunk hfound => hlexical chunk (hsound.lexical_mem chunk hfound))
  have hpage : rows.pages[hit.page]? =
      some (rows.pages.get hit.page (hpages _ hchunk)) :=
    ExtTreeMap.getElem?_eq_some_getElem _
  unfold rankedHit
  dsimp only
  rw [hpage]
  dsimp only
  rw [hdenseChunk, except_ok_bind, hlexicalChunk, except_ok_bind]
  refine ⟨_, rfl, ?_⟩
  unfold validateHit
  dsimp only
  rw [if_neg]
  have hscore : (hit.explanation.rrfScore.any fun score => !isFinite score) = false := by
    cases hfusion : hit.fusion with
    | none => simp [HybridRankedPage.explanation, hfusion]
    | some score =>
        obtain ⟨n, hscore⟩ := hsound.fusion_sound score hfusion
        simp [HybridRankedPage.explanation, hfusion, hscore.finite]
  have hcontributions :
      hit.explanation.contributions.any RankContribution.invalid = false := by
    cases hfusion : hit.fusion with
    | none => simp [HybridRankedPage.explanation, hfusion]
    | some score =>
        obtain ⟨n, hscore⟩ := hsound.fusion_sound score hfusion
        rw [List.any_eq_false]
        intro contribution hmem
        simp only [HybridRankedPage.explanation, hfusion, Option.map_some,
          Option.getD_some] at hmem
        obtain ⟨source, hsource, rfl⟩ := List.mem_map.1 hmem
        rw [(hscore.contributions source hsource).valid]
        exact Bool.false_ne_true
  rw [hscore, hcontributions]
  simp [HybridRankedPage.explanation, hsound.denseRank_pos, hsound.lexicalRank_pos]

omit [LetterTables] in
theorem rankCandidates_ok {dense : List (DenseRankedPage F)}
    (hrows : Loaded request rows)
    (hdense : denseRank request.queryEmbedding request.dense = .ok dense) :
    ∃ candidates, rankCandidates request rows dense = .ok candidates ∧
      candidates.baseline = dense.head?.map DenseRankedPage.score ∧
      ∀ hit ∈ candidates.ranked, validateHit hit = .ok () := by
  obtain ⟨hybrid, hhybrid, hsound⟩ := hybridRank_ok dense
    (request.lexical.map fun candidate => LexicalCandidate.mk candidate.id)
    (dense.length + candidateLimit)
  have hdense' : ∀ page ∈ dense, page.chunk ∈ rows.chunks := by
    intro page hpage
    obtain ⟨candidate, hcandidate, heq⟩ := List.mem_map.1 (denseRank_mem hdense hpage)
    rw [← heq]
    exact hrows.dense candidate hcandidate
  have hlexical : ∀ chunk ∈ (request.lexical.map fun candidate =>
      LexicalCandidate.mk candidate.id).map LexicalCandidate.chunk,
      chunk ∈ rows.chunks := by
    intro chunk hchunk
    rw [List.map_map] at hchunk
    obtain ⟨candidate, hcandidate, rfl⟩ := List.mem_map.1 hchunk
    exact hrows.lexical candidate hcandidate
  have hhits : ∀ entry ∈ hybrid.zipIdx, ∃ found, rankedHit rows entry = .ok found ∧
      validateHit found = .ok () := by
    rintro ⟨hit, index⟩ hentry
    exact rankedHit_ok index (hsound hit (List.fst_mem_of_mem_zipIdx hentry))
      hrows.chunk_page hdense' hlexical
  obtain ⟨ranked, hranked⟩ := mapM_ok fun entry hentry =>
    (hhits entry hentry).imp fun _ h => h.1
  unfold rankCandidates
  dsimp only
  rw [hhybrid, except_mapError_eq_ok.2 rfl, except_ok_bind, hranked, except_ok_bind]
  refine ⟨_, rfl, rfl, ?_⟩
  intro hit hhit
  obtain ⟨entry, hentry, heq⟩ := (mapM_mem hranked).2.1 hit hhit
  obtain ⟨found, hfound, hvalid⟩ := hhits entry hentry
  obtain rfl := Except.ok.inj (heq.symm.trans hfound)
  exact hvalid

omit [LetterTables] in
/-- Sound hits with a baseline can be selected. -/
theorem select_ok {query : Text} {base : NormalizedScore F}
    {ranked : List (RankedHit F)} {literal : List LiteralChunk}
    {leader : Option Text} (config : SelectionConfig F)
    (hvalid : ∀ hit ∈ ranked, validateHit hit = .ok ()) :
    ∃ outcome, select query (some base) ranked literal leader config =
      .ok outcome := by
  unfold select
  rw [forM_ok hvalid, except_ok_bind, if_neg (by simp)]
  exact ⟨_, rfl⟩

end Lookups

section Terms

variable [LetterTables]

open LetterTables

/-- A character of a query term, which its lowercase mapping leaves alone. -/
def FoldedChar (c : Char) : Prop :=
  isIdentifierChar c = true ∧ toLowercase c = [c]

/-- The terms that a query can have. -/
def QueryTerm (term : Text) : Prop := 2 ≤ term.length ∧ ∀ c ∈ term, FoldedChar c

theorem foldedChar_of_mem {c d : Char}
    (h : d ∈ (toLowercase c).filter isIdentifierChar) : FoldedChar d := by
  obtain ⟨hmem, hidentifier⟩ := List.mem_filter.1 h
  exact ⟨hidentifier, toLowercase_stable c d hmem⟩

/-- The invariant of the scan of a query. -/
def TermScan.Folded (scan : TermScan) : Prop :=
  (∀ term ∈ scan.tokens, QueryTerm term) ∧ ∀ c ∈ scan.current, FoldedChar c

theorem TermScan.Folded.step {scan : TermScan} (h : scan.Folded) (c : Char) :
    (scan.step c).Folded := by
  obtain ⟨htokens, hcurrent⟩ := h
  unfold TermScan.step
  split
  · refine ⟨htokens, ?_⟩
    intro d hd
    rcases List.mem_append.1 hd with hmem | hmem
    · exact hcurrent d hmem
    · exact foldedChar_of_mem hmem
  · split
    · next hlength =>
        refine ⟨?_, fun _ hd => absurd hd List.not_mem_nil⟩
        intro term hterm
        rcases List.mem_append.1 hterm with hmem | hmem
        · exact htokens term hmem
        · obtain rfl := List.mem_singleton.1 hmem
          exact ⟨hlength, hcurrent⟩
    · exact ⟨htokens, fun _ hd => absurd hd List.not_mem_nil⟩

theorem foldl_folded (text : Text) {scan : TermScan} (h : scan.Folded) :
    (text.foldl TermScan.step scan).Folded := by
  induction text generalizing scan with
  | nil => exact h
  | cons c text ih => exact ih (h.step c)

theorem queryTerms_sound {query term : Text} (h : term ∈ queryTerms query) :
    QueryTerm term := by
  have htokens : ∀ token ∈ queryTokens query, QueryTerm token :=
    (foldl_folded _ ⟨fun _ h => absurd h List.not_mem_nil,
      fun _ h => absurd h List.not_mem_nil⟩).1
  have hmem := mem_of_mem_firstBy h
  split at hmem
  · exact htokens term hmem
  · exact htokens term (List.mem_of_mem_filter hmem)

/-- A character whose ASCII lowercase is folded is an identifier character of
that lowercase. -/
theorem folded_of_toLower {c : Char} (h : FoldedChar c.toLower) :
    isIdentifierChar c = true ∧ toLowercase c = [c.toLower] := by
  by_cases hupper : c.val ≥ 'A'.val ∧ c.val ≤ 'Z'.val
  · have hascii : c.toNat < 0x80 := by
      have hle : c.toNat ≤ 0x5a := hupper.2
      omega
    refine ⟨?_, toLowercase_ascii c hascii⟩
    unfold isIdentifierChar
    rw [isAlphanumeric_ascii c hascii]
    have hletter : c.isUpper = true := by
      unfold Char.isUpper
      exact decide_eq_true hupper
    have halpha : c.isAlphanum = ((c.isUpper || c.isLower) || c.isDigit) := rfl
    simp [halpha, hletter]
  · have hsame : c.toLower = c := by
      unfold Char.toLower
      rw [dif_neg hupper]
    rw [hsame] at h ⊢
    exact h

variable {term : Text}

theorem validateTerm_ok (hlength : 2 ≤ term.length)
    (hchars : ∀ c ∈ term, isIdentifierChar c = true) :
    validateTerm term = .ok () := by
  unfold validateTerm
  rw [if_neg]
  rintro (hshort | hbad)
  · omega
  · exact hbad (List.all_eq_true.2 hchars)

/-- A term of the statistics spells a query term, up to ASCII case. -/
theorem validateTerm_of_folded (h : QueryTerm (Text.toAsciiLowercase term)) :
    validateTerm term = .ok () := by
  apply validateTerm_ok
  · have hlength := h.1
    unfold Text.toAsciiLowercase at hlength
    rw [List.length_map] at hlength
    exact hlength
  · intro c hc
    exact (folded_of_toLower (h.2 _ (List.mem_map_of_mem hc))).1

theorem lowercase_of_folded (h : QueryTerm (Text.toAsciiLowercase term)) :
    lowercase term = Text.toAsciiLowercase term := by
  have hchars := h.2
  unfold lowercase Text.toAsciiLowercase at *
  clear h
  induction term with
  | nil => rfl
  | cons c rest ih =>
      rw [List.map_cons] at hchars ⊢
      rw [List.flatMap_cons, (folded_of_toLower (hchars _ List.mem_cons_self)).2,
        ih fun d hd => hchars d (List.mem_cons_of_mem _ hd)]
      rfl

theorem lowercase_queryTerm (h : QueryTerm term) : lowercase term = term := by
  have hchars := h.2
  unfold lowercase
  clear h
  induction term with
  | nil => rfl
  | cons c rest ih =>
      rw [List.flatMap_cons, (hchars c List.mem_cons_self).2,
        ih fun d hd => hchars d (List.mem_cons_of_mem _ hd)]
      rfl

/-- The checks of the statistics: distinct terms, all of the query. -/
theorem validateStatistics_terms {query : Text} {statistics : SnippetStatistics}
    {count : Nat} (h : validateStatistics query statistics count = .ok ())
    (htotal : statistics.totalChunks ≠ 0) :
    (statistics.frequencies.map fun frequency =>
        Text.toAsciiLowercase frequency.term).Nodup ∧
      ∀ frequency ∈ statistics.frequencies,
        QueryTerm (Text.toAsciiLowercase frequency.term) := by
  have hadmit : ∀ (frequencies : List TermFrequency) (seen last : ExtTreeSet Text),
      frequencies.foldlM admitTerm seen = .ok last →
      (frequencies.map fun frequency =>
          Text.toAsciiLowercase frequency.term).Nodup ∧
        (∀ frequency ∈ frequencies, Text.toAsciiLowercase frequency.term ∉ seen ∧
          Text.toAsciiLowercase frequency.term ∈ last) ∧
        ∀ term ∈ seen, term ∈ last := by
    intro frequencies
    induction frequencies with
    | nil =>
        intro seen last h
        obtain rfl := Except.ok.inj h
        exact ⟨List.nodup_nil, fun _ h => absurd h List.not_mem_nil,
          fun _ h => h⟩
    | cons frequency frequencies ih =>
        intro seen last h
        rw [List.foldlM_cons] at h
        obtain ⟨next, hnext, h⟩ := except_bind_eq_ok.1 h
        unfold admitTerm at hnext
        dsimp only at hnext
        split at hnext
        · cases hnext
        · next hnew =>
            obtain rfl := Except.ok.inj hnext
            obtain ⟨hnodup, hrest, hkept⟩ := ih _ last h
            rw [List.map_cons, List.nodup_cons, List.forall_mem_cons]
            refine ⟨⟨?_, hnodup⟩, ⟨⟨hnew, ?_⟩, ?_⟩, ?_⟩
            · intro hmem
              obtain ⟨other, hother, heq⟩ := List.mem_map.1 hmem
              apply (hrest other hother).1
              rw [heq]
              exact ExtTreeSet.mem_insert_self
            · exact hkept _ ExtTreeSet.mem_insert_self
            · intro other hother
              refine ⟨fun hseen => (hrest other hother).1 ?_, (hrest other hother).2⟩
              exact ExtTreeSet.mem_insert.2 (Or.inr hseen)
            · intro term hterm
              exact hkept term (ExtTreeSet.mem_insert.2 (Or.inr hterm))
  unfold validateStatistics at h
  split at h
  · cases h
  · obtain ⟨actual, hactual, h⟩ := except_bind_eq_ok.1 h
    obtain ⟨hnodup, hterms, _⟩ := hadmit _ _ _ hactual
    refine ⟨hnodup, ?_⟩
    intro frequency hfrequency
    dsimp only at h
    split at h
    · cases h
    · next hsame =>
        rw [not_not] at hsame
        have hmem := (hterms frequency hfrequency).2
        rw [← ExtTreeSet.mem_toList, ← hsame, ExtTreeSet.mem_toList,
          ExtTreeSet.mem_ofList, List.contains_iff_mem] at hmem
        exact queryTerms_sound hmem

end Terms

section Weights

/-- A number of the unit interval. -/
def UnitNumber (a : F) : Prop :=
  isFinite a = true ∧ 0 ≤ value a ∧ value a ≤ 1

theorem UnitNumber.within {a : F} (h : UnitNumber a) :
    within (nearest 0) (nearest 1) a = true := by
  unfold Binary64.within
  rw [Bool.and_eq_true, lessEq_iff isFinite_zero h.1, lessEq_iff h.1 isFinite_one,
    value_zero, value_one]
  exact h.2

/-- The quotient of numbers in order is a number of the unit interval. -/
theorem div_unit {a b : F} (ha : isFinite a = true) (hb : isFinite b = true)
    (hlow : 0 ≤ value a) (hpos : 0 < value b) (hle : value a ≤ value b) :
    UnitNumber (div a b) := by
  have hquotient : 0 ≤ value a / value b := div_nonneg hlow hpos.le
  have hquotient' : value a / value b ≤ 1 := (div_le_one hpos).2 hle
  have hrange : InRange F (value a / value b) := by
    apply inRange_u64
    rw [abs_of_nonneg hquotient]
    linarith [show (1 : ℚ) ≤ 2 ^ 64 by norm_num]
  obtain ⟨hfinite, hvalue⟩ := div_spec ha hb hpos.ne' hrange
  unfold UnitNumber
  rw [hvalue]
  refine ⟨hfinite, ?_, ?_⟩
  · have h := int_le_value_nearest (F := F) (n := 0) (by norm_num) hrange
    push_cast at h
    exact h hquotient
  · have h := value_nearest_le_int (F := F) (n := 1) (by norm_num) hrange
    push_cast at h
    exact h hquotient'

theorem ofNat_u64 (n : UInt64) : isFinite (ofNat n.toNat : F) = true ∧
    0 ≤ value (ofNat n.toNat : F) ∧ (n ≠ 0 → 1 ≤ value (ofNat n.toNat : F)) := by
  have hnonneg : (0 : ℚ) ≤ (n.toNat : ℚ) := Nat.cast_nonneg _
  have hrange : InRange F (n.toNat : ℚ) := by
    apply inRange_u64
    rw [abs_of_nonneg hnonneg]
    have hlt := n.toNat_lt
    have hle : n.toNat ≤ 2 ^ 64 := hlt.le
    exact_mod_cast hle
  refine ⟨isFinite_nearest hrange, ?_, ?_⟩
  · have h := int_le_value_nearest (F := F) (n := 0) (by norm_num) hrange
    push_cast at h
    exact h hnonneg
  · intro hn
    have h := int_le_value_nearest (F := F) (n := 1) (by norm_num) hrange
    push_cast at h
    apply h
    have hpos : 1 ≤ n.toNat := by
      rw [Nat.one_le_iff_ne_zero]
      intro hzero
      exact hn (UInt64.toNat_inj.1 hzero)
    exact_mod_cast hpos

/-- Dividing by one and something does not increase a total. -/
theorem div_succ_le {total found : F} (ht : isFinite total = true)
    (hf : isFinite found = true) (htotal : 0 ≤ value total)
    (hfound : 0 ≤ value found) :
    isFinite (div total (add (nearest 1) found)) = true ∧
      0 ≤ value (div total (add (nearest 1) found)) ∧
      value (div total (add (nearest 1) found)) ≤ value total := by
  have hrange : InRange F (value (nearest 1 : F) + value found) := by
    apply inRange_of_abs_le hf
    rw [value_one, abs_of_nonneg hfound, abs_of_nonneg (by linarith)]
    linarith
  obtain ⟨hadd, hvalue⟩ := add_spec isFinite_one hf hrange
  have hdivisor : 1 ≤ value (add (nearest 1) found : F) := by
    rw [hvalue]
    have h := int_le_value_nearest (F := F) (n := 1) (by norm_num) hrange
    push_cast at h
    apply h
    rw [value_one]
    linarith
  have hpos : 0 < value (add (nearest 1) found : F) := by linarith
  have hquotient : 0 ≤ value total / value (add (nearest 1) found : F) :=
    div_nonneg htotal hpos.le
  have hquotient' : value total / value (add (nearest 1) found : F) ≤ value total :=
    div_le_self htotal hdivisor
  have hrange' : InRange F (value total / value (add (nearest 1) found : F)) := by
    apply inRange_of_abs_le ht
    rw [abs_of_nonneg hquotient, abs_of_nonneg htotal]
    linarith
  have hrange'' : InRange F (value total) := by
    apply inRange_of_abs_le ht
    linarith
  obtain ⟨hdiv, heq⟩ := div_spec ht hadd hpos.ne' hrange'
  rw [heq]
  refine ⟨hdiv, ?_, ?_⟩
  · have h := int_le_value_nearest (F := F) (n := 0) (by norm_num) hrange'
    push_cast at h
    exact h hquotient
  · have h := value_nearest_le hrange' hrange'' hquotient'
    rw [value_nearest_value ht] at h
    exact h

variable [LetterTables]

/-- A frequency within the total gives a weight of the unit interval. -/
theorem termWeight_ok {statistics : SnippetStatistics} {frequency : TermFrequency}
    (htotal : statistics.totalChunks ≠ 0)
    (hle : frequency.matchingChunks ≤ statistics.totalChunks)
    (hterm : QueryTerm (Text.toAsciiLowercase frequency.term)) :
    ∃ weighted : WeightedTerm F, termWeight statistics frequency = .ok weighted ∧
      weighted.term = Text.toAsciiLowercase frequency.term ∧
      UnitNumber weighted.weight := by
  obtain ⟨ht, htnonneg, htone⟩ := ofNat_u64 (F := F) statistics.totalChunks
  obtain ⟨hf, hfnonneg, _⟩ := ofNat_u64 (F := F) frequency.matchingChunks
  have htone := htone htotal
  obtain ⟨hdiv, hdivLow, hdivHigh⟩ := div_succ_le ht hf htnonneg hfnonneg
  obtain ⟨hlog, hlogLow⟩ := ln1p_finite hdiv hdivLow
  have hceiling := ln1p_pos ht htone
  unfold termWeight
  rw [validateTerm_of_folded hterm, except_ok_bind,
    if_neg (by simpa using hle)]
  refine ⟨_, rfl, lowercase_of_folded hterm, ?_⟩
  exact div_unit hlog (ln1p_finite ht htnonneg).1 hlogLow hceiling
    (ln1p_le hdiv ht hdivLow hdivHigh)

/-- Weighted terms that the snippets accept. -/
structure SoundTerms (terms : List (WeightedTerm F)) : Prop where
  nodup : (terms.map WeightedTerm.term).Nodup
  query : ∀ weighted ∈ terms, QueryTerm weighted.term
  unit : ∀ weighted ∈ terms, UnitNumber weighted.weight

theorem termWeights_ok {query : Text} {statistics : SnippetStatistics} {count : Nat}
    (h : validateStatistics query statistics count = .ok ())
    (hle : ∀ frequency ∈ statistics.frequencies,
      frequency.matchingChunks ≤ statistics.totalChunks) :
    ∃ terms : List (WeightedTerm F), termWeights statistics = .ok terms ∧
      SoundTerms terms := by
  unfold termWeights
  by_cases htotal : statistics.totalChunks = 0
  · rw [if_pos htotal]
    exact ⟨[], rfl, List.nodup_nil, fun _ h => absurd h List.not_mem_nil,
      fun _ h => absurd h List.not_mem_nil⟩
  · rw [if_neg htotal]
    obtain ⟨hnodup, hquery⟩ := validateStatistics_terms h htotal
    have hweights : ∀ frequency ∈ statistics.frequencies,
        ∃ weighted : WeightedTerm F, termWeight statistics frequency = .ok weighted ∧
          weighted.term = Text.toAsciiLowercase frequency.term ∧
          UnitNumber weighted.weight := fun frequency hfrequency =>
      termWeight_ok htotal (hle frequency hfrequency) (hquery frequency hfrequency)
    obtain ⟨terms, hterms⟩ := mapM_ok fun frequency hfrequency =>
      (hweights frequency hfrequency).imp fun _ h => h.1
    have hsound : ∀ weighted ∈ terms, ∃ frequency ∈ statistics.frequencies,
        weighted.term = Text.toAsciiLowercase frequency.term ∧
          UnitNumber weighted.weight := by
      intro weighted hweighted
      obtain ⟨frequency, hfrequency, heq⟩ := (mapM_mem hterms).2.1 weighted hweighted
      obtain ⟨found, hfound, hterm, hunit⟩ := hweights frequency hfrequency
      obtain rfl := Except.ok.inj (heq.symm.trans hfound)
      exact ⟨frequency, hfrequency, hterm, hunit⟩
    have hnames : (statistics.frequencies.map fun frequency =>
        Text.toAsciiLowercase frequency.term) = terms.map WeightedTerm.term := by
      rw [← List.forall₂_eq_eq_eq, List.forall₂_map_left_iff,
        List.forall₂_map_right_iff]
      have hpairs := mapM_eq_ok_iff.1 hterms
      rw [List.forall₂_iff_zip] at hpairs ⊢
      refine ⟨hpairs.1, ?_⟩
      intro frequency weighted hpair
      obtain ⟨found, hfound, hterm, _⟩ := hweights frequency (List.of_mem_zip hpair).1
      obtain rfl := Except.ok.inj ((hpairs.2 hpair).symm.trans hfound)
      exact hterm.symm
    refine ⟨terms, hterms, hnames ▸ hnodup, ?_, ?_⟩
    · intro weighted hweighted
      obtain ⟨frequency, hfrequency, hterm, _⟩ := hsound weighted hweighted
      rw [hterm]
      exact hquery frequency hfrequency
    · intro weighted hweighted
      obtain ⟨_, _, _, hunit⟩ := hsound weighted hweighted
      exact hunit

theorem insertTerms_ok {terms : List (WeightedTerm F)} (h : SoundTerms terms)
    (canonical : ExtTreeMap Text F)
    (hnew : ∀ weighted ∈ terms, weighted.term ∉ canonical) :
    ∃ last, terms.foldlM insertTerm canonical = .ok last := by
  induction terms generalizing canonical with
  | nil => exact ⟨canonical, rfl⟩
  | cons weighted terms ih =>
      obtain ⟨hnodup, hquery, hunit⟩ := h
      rw [List.map_cons, List.nodup_cons] at hnodup
      rw [List.forall_mem_cons] at hquery hunit hnew
      have hnone : canonical[lowercase weighted.term]? = none := by
        rw [lowercase_queryTerm hquery.1, ExtTreeMap.getElem?_eq_none hnew.1]
      have hstep : insertTerm canonical weighted = .ok
          (canonical.insert (lowercase weighted.term) weighted.weight) := by
        unfold insertTerm
        rw [validateTerm_ok hquery.1.1 fun c hc => (hquery.1.2 c hc).1,
          except_ok_bind, if_neg (by simp [hunit.1.1, hunit.1.within])]
        dsimp only
        rw [hnone, if_neg (by simp)]
        rfl
      rw [List.foldlM_cons, hstep, except_ok_bind]
      apply ih ⟨hnodup.2, hquery.2, hunit.2⟩ _
      intro other hother hmem
      rw [lowercase_queryTerm hquery.1] at hmem
      rcases ExtTreeMap.mem_insert.1 hmem with hsame | hold
      · apply hnodup.1
        rw [Std.LawfulEqOrd.eq_of_compare hsame]
        exact List.mem_map_of_mem hother
      · exact hnew.2 other hother hold

/-- Sound terms give a snippet of every text. -/
theorem snippet_ok {terms : List (WeightedTerm F)} (h : SoundTerms terms)
    (text : Text) :
    ∃ window, snippet text terms snippetWidth (nearest (3 / 4)) = .ok window := by
  have hrange : InRange F (3 / 4) := inRange_u64 (by norm_num)
  have hgain : UnitNumber (nearest (3 / 4) : F) := by
    refine ⟨isFinite_nearest hrange, ?_, ?_⟩
    · have h := int_le_value_nearest (F := F) (n := 0) (by norm_num) hrange
      push_cast at h
      exact h (by norm_num)
    · have h := value_nearest_le_int (F := F) (n := 1) (by norm_num) hrange
      push_cast at h
      exact h (by norm_num)
  obtain ⟨canonical, hcanonical⟩ : ∃ canonical,
      canonicalTerms terms = .ok canonical := by
    obtain ⟨map, hmap⟩ := insertTerms_ok h ∅ fun _ _ => ExtTreeMap.not_mem_empty
    unfold canonicalTerms
    rw [hmap]
    exact ⟨_, rfl⟩
  unfold snippet
  rw [if_neg (by decide), if_neg (by simp [hgain.1, hgain.within]), hcanonical,
    except_ok_bind]
  dsimp only
  split
  · exact ⟨_, rfl⟩
  · exact ⟨_, rfl⟩

end Weights

section Composed

variable [LetterTables] {request : SearchRequest F} {rows : LoadedRows}

theorem searchHit_ok {terms : List (WeightedTerm F)} (h : SoundTerms terms)
    (hit : SelectedHit F) : ∃ found, searchHit terms hit = .ok found := by
  obtain ⟨window, hwindow⟩ := snippet_ok h hit.selectedChunk.text
  obtain ⟨score, hscore⟩ := normalizeScore_ok hit.score.finite hit.score.lower
    hit.score.upper
  unfold searchHit
  rw [hwindow, except_mapError_eq_ok.2 rfl, except_ok_bind, hscore,
    except_mapError_eq_ok.2 rfl, except_ok_bind]
  exact ⟨_, rfl⟩

/-- After its checks a request is answered, unless a cosine of its vectors
fails. -/
theorem composeSearch_validated (hrows : validateRequest request = .ok rows)
    (hle : ∀ frequency ∈ request.snippetStatistics.frequencies,
      frequency.matchingChunks ≤ request.snippetStatistics.totalChunks) :
    (∃ response, composeSearch request = .ok response) ∨
      ∃ candidate ∈ request.dense, ∃ error,
        cosine (F := F) request.queryEmbedding candidate.vector = .error error ∧
        composeSearch request = .error (.rank error) := by
  have hloaded := validateRequest_loaded hrows
  obtain ⟨terms, hterms, hsound⟩ := termWeights_ok (F := F)
    (validateRequest_statistics hrows) hle
  unfold composeSearch
  rw [hrows, except_ok_bind]
  rcases denseRank_ok_or_cosine (F := F) request.queryEmbedding request.dense with
    ⟨dense, hdense⟩ | ⟨candidate, hmem, error, hcosine, hdense⟩
  · apply Or.inl
    rw [hdense, except_mapError_eq_ok.2 rfl, except_ok_bind]
    by_cases hempty : dense.isEmpty
    · rw [if_pos hempty]
      exact ⟨_, rfl⟩
    · rw [if_neg hempty]
      obtain ⟨candidates, hcandidates, hbase, hvalid⟩ :=
        rankCandidates_ok hloaded hdense
      rw [hcandidates, except_ok_bind]
      obtain ⟨first, rest, rfl⟩ : ∃ first rest, dense = first :: rest := by
        cases dense with
        | nil => exact absurd rfl hempty
        | cons first rest => exact ⟨first, rest, rfl⟩
      have hselect : ∀ config, ∃ outcome,
          candidates.select request.query config = .ok outcome := by
        intro config
        unfold Candidates.select
        rw [hbase]
        exact select_ok config hvalid
      obtain ⟨ungated, hungated⟩ := hselect request.selection.bypass
      obtain ⟨gated, hgated⟩ := hselect request.selection
      obtain ⟨outcome, houtcome⟩ : ∃ outcome,
          (if request.selection.gateMode = .bypass then .ok ungated
            else (candidates.select request.query
              request.selection).mapError SearchError.selection) = .ok outcome := by
        split
        · exact ⟨ungated, rfl⟩
        · rw [hgated]
          exact ⟨gated, rfl⟩
      obtain ⟨hits, hhits⟩ := mapM_ok fun hit (_ : hit ∈ outcome.hits) =>
        searchHit_ok hsound hit
      unfold respond
      rw [hungated, except_mapError_eq_ok.2 rfl, except_ok_bind, houtcome,
        except_ok_bind, hterms, except_mapError_eq_ok.2 rfl, except_ok_bind, hhits,
        except_ok_bind]
      exact ⟨_, rfl⟩
  · apply Or.inr
    refine ⟨candidate, hmem, error, hcosine, ?_⟩
    rw [hdense]
    rfl

end Composed

namespace Sample

theorem composeSearch_validated_request :
    (∃ response, @composeSearch tables ℚ _ request = .ok response) ∨
      ∃ candidate ∈ request.dense, ∃ error,
        cosine (F := ℚ) request.queryEmbedding candidate.vector = .error error ∧
        @composeSearch tables ℚ _ request = .error (.rank error) := by
  obtain ⟨rows, hrows⟩ := exists_of_toBool
    (r := @validateRequest tables ℚ _ request) (by decide)
  apply @composeSearch_validated ℚ _ tables request rows hrows
  decide

end Sample

end Yams.Search
