/-
What a synchronization leaves referenced: the chunks that stay belong to
unchanged pages, whose vectors were looked up, and all others were staged.
-/
import Yams.SyncOthers
import Yams.SyncPublication
import Mathlib.Data.List.ReduceOption

namespace Yams.Store

section

variable {D : Type} [DecidableEq D] [Sha256 D]

/-! The planned pages. -/

omit [DecidableEq D] in
/-- An update goes to the path of its page. -/
theorem pageUpsert_source {page : ScannedPage D} {status : Option Text}
    {chunks : List Chunk} {kind : UpsertKind} {u : PageUpsert D}
    (h : pageUpsert page status chunks kind = .ok u) :
    u.source = page ∧ u.path.toBytes = page.path ∧ u.kind = kind := by
  unfold pageUpsert at h
  split at h
  · cases h
  next path hpath =>
    obtain ⟨byteLength, _, h⟩ := except_bind_eq_ok.1 h
    obtain ⟨modifiedNs, _, h⟩ := except_bind_eq_ok.1 h
    obtain ⟨device, _, h⟩ := except_bind_eq_ok.1 h
    obtain ⟨inode, _, h⟩ := except_bind_eq_ok.1 h
    obtain rfl := Except.ok.inj h
    exact ⟨rfl, Text.toBytes_of_fromUtf8 hpath, rfl⟩

omit [DecidableEq D] in
theorem planPage_source {page : ScannedPage D} {u : PageUpsert D}
    (h : planPage page = .ok u) :
    u.source = page ∧ u.path.toBytes = page.path ∧ u.kind = .replace := by
  unfold planPage at h
  split at h
  · cases h
  · obtain ⟨chunks, _, h⟩ := except_bind_eq_ok.1 h
    exact pageUpsert_source h

omit [DecidableEq D] in
theorem mem_lastByPath {pages : List (ScannedPage D)} {page : ScannedPage D}
    (h : page ∈ pages) : ∃ other ∈ lastByPath pages, other.path = page.path := by
  induction pages generalizing page with
  | nil => cases h
  | cons head rest ih =>
      unfold lastByPath
      rcases List.mem_cons.1 h with rfl | hrest
      · split
        next hany =>
          obtain ⟨later, hlater, heq⟩ := List.any_eq_true.1 hany
          obtain ⟨other, hother, hpath⟩ := ih hlater
          exact ⟨other, hother, hpath.trans (by simpa using heq)⟩
        · exact ⟨page, List.mem_cons_self, rfl⟩
      · obtain ⟨other, hother, heq⟩ := ih hrest
        split
        · exact ⟨other, hother, heq⟩
        · exact ⟨other, List.mem_cons_of_mem _ hother, heq⟩

omit [DecidableEq D] in
theorem lastByPath_subset {pages : List (ScannedPage D)} {page : ScannedPage D}
    (h : page ∈ lastByPath pages) : page ∈ pages := by
  induction pages with
  | nil => cases h
  | cons head rest ih =>
      unfold lastByPath at h
      split at h
      · exact List.mem_cons_of_mem _ (ih h)
      · rcases List.mem_cons.1 h with rfl | hrest
        · exact List.mem_cons_self
        · exact List.mem_cons_of_mem _ (ih hrest)

omit [DecidableEq D] in
/-- Each path is kept once. -/
theorem lastByPath_nodup (pages : List (ScannedPage D)) :
    ((lastByPath pages).map ScannedPage.path).Nodup := by
  induction pages with
  | nil => exact List.nodup_nil
  | cons head rest ih =>
      unfold lastByPath
      split
      · exact ih
      next hnone =>
        rw [List.map_cons, List.nodup_cons]
        refine ⟨?_, ih⟩
        intro hmem
        obtain ⟨other, hother, heq⟩ := List.mem_map.1 hmem
        apply hnone
        exact List.any_eq_true.2 ⟨other, lastByPath_subset hother, by simpa using heq⟩

omit [DecidableEq D] in
theorem presentPages_nodup (scan : ScanReport D) :
    ((presentPages scan).map ScannedPage.path).Nodup := by
  have hperm : (presentPages scan).Perm (lastByPath scan.present) :=
    List.mergeSort_perm _ _
  exact (hperm.map _).nodup_iff.2 (lastByPath_nodup _)

omit [DecidableEq D] in
/-- A present path has a page. -/
theorem findPage_present {scan : ScanReport D} {path : PathBuf}
    (h : isPresent scan path = true) :
    ∃ page ∈ presentPages scan, findPage (presentPages scan) path = some page ∧
      page.path = path := by
  obtain ⟨page, hpage, hpath⟩ := List.any_eq_true.1 h
  obtain ⟨other, hother, heq⟩ := mem_lastByPath hpage
  have hmem : other ∈ presentPages scan :=
    (List.mergeSort_perm _ _).mem_iff.2 hother
  have hsome : (findPage (presentPages scan) path).isSome := by
    unfold findPage
    rw [List.find?_isSome]
    exact ⟨other, hmem, by simpa [heq] using hpath⟩
  obtain ⟨found, hfound⟩ := Option.isSome_iff_exists.1 hsome
  exact ⟨found, List.mem_of_find?_eq_some hfound, hfound,
    by simpa using List.find?_some hfound⟩

/-! The planned updates. -/

/-- Updates of different pages, each under the path of its page. -/
structure Distinct (upserts : List (PageUpsert D)) : Prop where
  nodup : (upserts.map fun u => u.source.path).Nodup
  named : ∀ u ∈ upserts, u.path.toBytes = u.source.path

omit [DecidableEq D] in
theorem Distinct.eq_of_path {upserts : List (PageUpsert D)} (h : Distinct upserts)
    {u u' : PageUpsert D} (hu : u ∈ upserts) (hu' : u' ∈ upserts)
    (hpath : u.path = u'.path) : u = u' := by
  apply List.inj_on_of_nodup_map h.nodup hu hu'
  rw [← h.named u hu, ← h.named u' hu', hpath]

omit [DecidableEq D] in
theorem Distinct.perm {upserts other : List (PageUpsert D)} (h : Distinct upserts)
    (hperm : other.Perm upserts) : Distinct other := by
  refine ⟨(hperm.map _).nodup_iff.2 h.nodup, ?_⟩
  intro u hu
  exact h.named u (hperm.mem_iff.1 hu)

theorem planUpsert_source {mode : SyncMode} {existing : List (ExistingDoc D)}
    {rebuild : Bool} {missing : List PathBuf} {page : ScannedPage D} {u : PageUpsert D}
    (h : planUpsert mode existing rebuild missing page = .ok (some u)) :
    u.source = page ∧ u.path.toBytes = page.path := by
  have hplan : ∀ {r : Except (SyncError D) (PageUpsert D)},
      r.map some = .ok (some u) → r = .ok u := by
    rintro (e | u') hr
    · cases hr
    · cases hr
      rfl
  unfold planUpsert at h
  dsimp only at h
  split at h
  · obtain ⟨hsource, hpath, _⟩ := planPage_source (hplan h)
    exact ⟨hsource, hpath⟩
  · split at h
    · obtain ⟨hsource, hpath, _⟩ := planPage_source (hplan h)
      exact ⟨hsource, hpath⟩
    · obtain ⟨same, _, h⟩ := except_bind_eq_ok.1 h
      split at h
      · cases h
      · obtain ⟨hsource, hpath, _⟩ := pageUpsert_source (hplan h)
        exact ⟨hsource, hpath⟩

/-- The updates of different pages are those of different paths. -/
theorem planPages_distinct {mode : SyncMode} {existing : List (ExistingDoc D)}
    {rebuild : Bool} {missing : List PathBuf} {pages : List (ScannedPage D)}
    {planned : List (Option (PageUpsert D))}
    (h : pages.mapM (planUpsert mode existing rebuild missing) = .ok planned)
    (hnodup : (pages.map ScannedPage.path).Nodup) :
    Distinct planned.reduceOption ∧ ∀ u ∈ planned.reduceOption, u.source ∈ pages := by
  induction pages generalizing planned with
  | nil =>
      cases h
      exact ⟨⟨List.nodup_nil, fun u hu => absurd hu List.not_mem_nil⟩,
        fun u hu => absurd hu List.not_mem_nil⟩
  | cons page pages ih =>
      rw [List.mapM_cons] at h
      obtain ⟨head, hhead, h⟩ := except_bind_eq_ok.1 h
      obtain ⟨rest, hrest, h⟩ := except_bind_eq_ok.1 h
      obtain rfl := Except.ok.inj h
      rw [List.map_cons, List.nodup_cons] at hnodup
      obtain ⟨hdistinct, hsources⟩ := ih hrest hnodup.2
      cases head with
      | none =>
          rw [List.reduceOption_cons_of_none]
          exact ⟨hdistinct, fun u hu => List.mem_cons_of_mem _ (hsources u hu)⟩
      | some u =>
          obtain ⟨hsource, hpath⟩ := planUpsert_source hhead
          rw [List.reduceOption_cons_of_some]
          refine ⟨⟨?_, ?_⟩, ?_⟩
          · rw [List.map_cons, List.nodup_cons]
            refine ⟨?_, hdistinct.nodup⟩
            intro hmem
            obtain ⟨other, hother, heq⟩ := List.mem_map.1 hmem
            apply hnodup.1
            rw [← hsource, ← heq]
            exact List.mem_map_of_mem (hsources other hother)
          · intro other hother
            rcases List.mem_cons.1 hother with rfl | hlater
            · rw [hsource]
              exact hpath
            · exact hdistinct.named other hlater
          · intro other hother
            rcases List.mem_cons.1 hother with rfl | hlater
            · rw [hsource]
              exact List.mem_cons_self
            · exact List.mem_cons_of_mem _ (hsources other hlater)

theorem planUpserts_distinct {mode : SyncMode} {scan : ScanReport D}
    {existing : List (ExistingDoc D)} {rebuild : Bool} {missing : List PathBuf}
    {upserts : List (PageUpsert D)}
    (h : planUpserts mode scan existing rebuild missing = .ok upserts) :
    Distinct upserts := by
  unfold planUpserts at h
  obtain ⟨planned, hplanned, h⟩ := except_bind_eq_ok.1 h
  obtain rfl := Except.ok.inj h
  exact (planPages_distinct hplanned (presentPages_nodup scan)).1

/-- The page has a replacement among the updates. -/
def Replaced (upserts : List (PageUpsert D)) (path : PathBuf) : Prop :=
  ∃ u ∈ upserts, u.source.path = path ∧ u.kind = .replace

/-- A present page that the index has is unchanged, or it is replaced. -/
theorem planUpserts_replaced {mode : SyncMode} {scan : ScanReport D}
    {existing : List (ExistingDoc D)} {rebuild : Bool} {missing : List PathBuf}
    {upserts : List (PageUpsert D)}
    (h : planUpserts mode scan existing rebuild missing = .ok upserts)
    {doc : ExistingDoc D} (hdoc : doc ∈ existing) (hpresent : isPresent scan doc.path = true)
    (hchanged : doc.path ∉ unchangedPaths scan existing rebuild) :
    Replaced upserts doc.path := by
  obtain ⟨page, hpage, hfind, hpath⟩ := findPage_present hpresent
  have hprior : (findExisting existing page.path).isSome := by
    unfold findExisting
    rw [List.find?_isSome]
    exact ⟨doc, hdoc, by simp [hpath]⟩
  obtain ⟨prior, hprior⟩ := Option.isSome_iff_exists.1 hprior
  have hpriorPath : prior.path = doc.path := by
    have hfound := List.find?_some hprior
    rw [hpath] at hfound
    simpa using hfound
  have hstale : rebuild = true ∨ prior.contentHash ≠ page.sha256 := by
    by_contra hnot
    push Not at hnot
    apply hchanged
    unfold unchangedPaths
    refine List.mem_map.2 ⟨prior, List.mem_filter.2
      ⟨List.mem_of_find?_eq_some hprior, ?_⟩, hpriorPath⟩
    rw [hpriorPath, hfind]
    simp [hnot.1, hnot.2]
  unfold planUpserts at h
  obtain ⟨planned, hplanned, h⟩ := except_bind_eq_ok.1 h
  obtain rfl := Except.ok.inj h
  obtain ⟨result, hresult, hplan⟩ := (mapM_mem hplanned).2.2 page hpage
  unfold planUpsert at hplan
  rw [hprior] at hplan
  dsimp only at hplan
  have hcondition : (mode = .fullRebuild ∨ rebuild = true ∨ page.path ∈ missing) ∨
      prior.contentHash ≠ page.sha256 := by
    rcases hstale with hrebuild | hhash
    · exact .inl (.inr (.inl hrebuild))
    · exact .inr hhash
  rw [if_pos hcondition] at hplan
  cases hpageplan : planPage page with
  | error e =>
      rw [hpageplan] at hplan
      cases hplan
  | ok u =>
      rw [hpageplan] at hplan
      obtain rfl := Except.ok.inj hplan
      obtain ⟨hsource, _, hkind⟩ := planPage_source hpageplan
      refine ⟨u, List.reduceOption_mem_iff.2 hresult, ?_, hkind⟩
      rw [hsource, hpath]

/-! The restaged pages. -/

omit [DecidableEq D] in
/-- A restaged page takes the place of its update, and the other updates stay. -/
theorem putUpsert_distinct {upserts : List (PageUpsert D)} {u : PageUpsert D}
    (h : Distinct upserts) (hu : u.path.toBytes = u.source.path) :
    Distinct (putUpsert upserts u) := by
  unfold putUpsert
  split
  · refine ⟨?_, ?_⟩
    · have hsame : (upserts.map fun other =>
          if other.source.path = u.source.path then u else other).map
            (fun other => other.source.path) =
          upserts.map fun other => other.source.path := by
        rw [List.map_map]
        apply List.map_congr_left
        intro other _
        simp only [Function.comp_apply]
        split
        next heq => exact heq.symm
        · rfl
      rw [hsame]
      exact h.nodup
    · intro other hother
      obtain ⟨old, hold, rfl⟩ := List.mem_map.1 hother
      split
      · exact hu
      · exact h.named old hold
  next hnone =>
    refine ⟨?_, ?_⟩
    · rw [List.map_append, List.nodup_append]
      refine ⟨h.nodup, List.nodup_singleton _, ?_⟩
      intro path hpath other hother heq
      obtain rfl := List.mem_singleton.1 hother
      obtain ⟨old, hold, hsame⟩ := List.mem_map.1 hpath
      apply hnone
      exact List.any_eq_true.2 ⟨old, hold, by simpa using hsame.trans heq⟩
    · intro other hother
      rcases List.mem_append.1 hother with hold | hnew
      · exact h.named other hold
      · obtain rfl := List.mem_singleton.1 hnew
        exact hu

omit [DecidableEq D] in
theorem putUpsert_replaced {upserts : List (PageUpsert D)} {u : PageUpsert D}
    (hu : u.kind = .replace) :
    Replaced (putUpsert upserts u) u.source.path ∧
      ∀ path, Replaced upserts path → Replaced (putUpsert upserts u) path := by
  unfold putUpsert
  split
  next hany =>
    obtain ⟨old, hold, heq⟩ := List.any_eq_true.1 hany
    have heq : old.source.path = u.source.path := by simpa using heq
    have hmem : u ∈ upserts.map fun other =>
        if other.source.path = u.source.path then u else other :=
      List.mem_map.2 ⟨old, hold, if_pos heq⟩
    refine ⟨⟨u, hmem, rfl, hu⟩, ?_⟩
    rintro path ⟨other, hother, rfl, hkind⟩
    by_cases hsame : other.source.path = u.source.path
    · exact ⟨u, hmem, hsame.symm, hu⟩
    · exact ⟨other, List.mem_map.2 ⟨other, hother, if_neg hsame⟩, rfl, hkind⟩
  · refine ⟨⟨u, List.mem_append_right _ List.mem_cons_self, rfl, hu⟩, ?_⟩
    rintro path ⟨other, hother, rfl, hkind⟩
    exact ⟨other, List.mem_append_left _ hother, rfl, hkind⟩

omit [DecidableEq D] in
/-- Every path that is restaged is replaced, and so is what was before. -/
theorem restage_replaced {scan : ScanReport D} {upserts restaged : List (PageUpsert D)}
    {paths : List PathBuf} (h : restage scan upserts paths = .ok restaged)
    (hdistinct : Distinct upserts) :
    Distinct restaged ∧ (∀ path ∈ paths, Replaced restaged path) ∧
      ∀ path, Replaced upserts path → Replaced restaged path := by
  induction paths generalizing upserts with
  | nil =>
      cases h
      exact ⟨hdistinct, fun path hpath => absurd hpath List.not_mem_nil, fun _ h => h⟩
  | cons path paths ih =>
      unfold restage at h
      rw [List.foldlM_cons] at h
      obtain ⟨next, hnext, hrest⟩ := except_bind_eq_ok.1 h
      split at hnext
      · cases hnext
      next page hpage =>
        cases hplan : planPage page with
        | error e =>
            rw [hplan] at hnext
            cases hnext
        | ok u =>
            rw [hplan] at hnext
            obtain rfl := Except.ok.inj hnext
            obtain ⟨hsource, hnamed, hkind⟩ := planPage_source hplan
            have hpath : u.source.path = path := by
              rw [hsource]
              simpa using List.find?_some hpage
            have hput : Replaced (putUpsert upserts u) u.source.path ∧
                ∀ path, Replaced upserts path → Replaced (putUpsert upserts u) path :=
              putUpsert_replaced hkind
            have hnext := putUpsert_distinct hdistinct (u := u) (by rw [hsource, hnamed])
            obtain ⟨hdistinct', hpaths, hkept⟩ := ih hrest hnext
            refine ⟨hdistinct', ?_, fun other hother => hkept other (hput.2 other hother)⟩
            intro other hother
            rcases List.mem_cons.1 hother with rfl | hlater
            · rw [← hpath]
              exact hkept _ hput.1
            · exact hpaths other hlater

/-! The staged pages. -/

omit [DecidableEq D] in
theorem stageForEmbedding_page {signature : Text} {u : PageUpsert D} {e : StagedPage D}
    (h : stageForEmbedding signature u = .ok e) :
    e.page = u ∧ ∀ c ∈ e.chunks, vectorKey signature .passage c.embedText =
      .ok c.vectorKey := by
  unfold stageForEmbedding at h
  obtain ⟨chunks, hchunks, h⟩ := except_bind_eq_ok.1 h
  obtain rfl := Except.ok.inj h
  refine ⟨rfl, ?_⟩
  intro c hc
  obtain ⟨chunk, _, hchunk⟩ := (mapM_mem hchunks).2.1 c hc
  obtain ⟨key, hkey, hchunk⟩ := except_bind_eq_ok.1 hchunk
  obtain rfl := Except.ok.inj hchunk
  exact except_mapError_eq_ok.1 hkey

/-- Exactly the replacements are staged, each under the key of its text. -/
structure Stages (signature : Text) (upserts : List (PageUpsert D))
    (staged : List (StagedPage D)) : Prop where
  sound : ∀ e ∈ staged, e.page ∈ upserts ∧ e.page.kind = .replace
  unique : ∀ e ∈ staged, ∀ e' ∈ staged, e.page = e'.page → e = e'
  complete : ∀ u ∈ upserts, u.kind = .replace → ∃ e ∈ staged, e.page = u
  keys : ∀ c ∈ stagedChunks staged,
    vectorKey signature .passage c.embedText = .ok c.vectorKey

omit [DecidableEq D] in
theorem stagePages_stages {signature : Text} {upserts : List (PageUpsert D)}
    {staged : List (StagedPage D)} (h : stagePages signature upserts = .ok staged) :
    Stages signature upserts staged := by
  obtain ⟨_, hsound, hcomplete⟩ := mapM_mem h
  refine ⟨?_, ?_, ?_, ?_⟩
  · intro e he
    obtain ⟨u, hu, heq⟩ := hsound e he
    obtain ⟨hmem, hkind⟩ := List.mem_filter.1 hu
    rw [(stageForEmbedding_page heq).1]
    exact ⟨hmem, by simpa using hkind⟩
  · intro e he e' he' hpage
    obtain ⟨u, _, heq⟩ := hsound e he
    obtain ⟨u', _, heq'⟩ := hsound e' he'
    have hsame : u = u' := by
      rw [← (stageForEmbedding_page heq).1, ← (stageForEmbedding_page heq').1, hpage]
    rw [hsame, heq'] at heq
    exact (Except.ok.inj heq).symm
  · intro u hu hkind
    obtain ⟨e, he, heq⟩ := hcomplete u (List.mem_filter.2 ⟨hu, by simpa using hkind⟩)
    exact ⟨e, he, (stageForEmbedding_page heq).1⟩
  · intro c hc
    obtain ⟨e, he, hchunk⟩ := List.mem_flatMap.1 hc
    obtain ⟨u, _, heq⟩ := hsound e he
    exact (stageForEmbedding_page heq).2 c hchunk

theorem mem_stagedKeys {staged : List (StagedPage D)} {key : VectorKey D} :
    key ∈ stagedKeys staged ↔ ∃ c ∈ stagedChunks staged, c.vectorKey = key := by
  unfold stagedKeys
  rw [List.mem_dedup, List.mem_map]

/-- The text of a key is one that the key is the digest of. -/
theorem lookupText_key {signature : Text} {upserts : List (PageUpsert D)}
    {staged : List (StagedPage D)} (h : Stages signature upserts staged)
    {key : VectorKey D} {text : Text}
    (hlookup : lookupText (stagedTexts staged) key = .ok text) :
    vectorKey signature .passage text = .ok key := by
  unfold lookupText at hlookup
  split at hlookup
  next entry hfind =>
    obtain rfl := Except.ok.inj hlookup
    have hkey : entry.1 = key := by simpa using List.find?_some hfind
    have hmem := List.mem_of_find?_eq_some hfind
    unfold stagedTexts at hmem
    obtain ⟨c, hc, rfl⟩ := List.mem_map.1 hmem
    rw [← hkey]
    exact h.keys c (List.mem_reverse.1 hc)
  · cases hlookup

/-! The published index. -/

omit [DecidableEq D] [Sha256 D] in
theorem applyAll_cons (change : Update D) (changes : List (Update D)) (w : Index D) :
    applyAll (change :: changes) w = applyAll changes (change.apply w) := rfl

/-- What the update of one page does to the chunks: those of a replaced page are
the staged ones, and all others stay. -/
theorem upsertUpdate_chunks {signature : Text} {upserts : List (PageUpsert D)}
    {staged : List (StagedPage D)} (hstages : Stages signature upserts staged)
    (hdistinct : Distinct upserts) {generation : Int64} {u : PageUpsert D}
    (hu : u ∈ upserts) {change : Update D}
    (h : upsertUpdate staged generation u = .ok change) (w : Index D) :
    (∀ row ∈ (change.apply w).chunks, row.vectorHash ∈ stagedKeys staged ∨
      row ∈ w.chunks ∧ (u.kind = .replace → u.path ≠ row.path)) ∧
    (∀ row ∈ w.chunks, (u.kind = .replace → u.path ≠ row.path) →
      row ∈ (change.apply w).chunks) ∧
    ∀ e ∈ staged, e.page = u → ∀ c ∈ e.chunks, ∃ row ∈ (change.apply w).chunks,
      row.path = u.path ∧ row.vectorHash = c.vectorKey := by
  unfold upsertUpdate at h
  split at h
  next hkind =>
    split at h
    next e hfind =>
      obtain rfl := Except.ok.inj h
      have he : e ∈ staged := List.mem_reverse.1 (List.mem_of_find?_eq_some hfind)
      have hpath : e.page.path = u.path := by simpa using List.find?_some hfind
      obtain rfl : e.page = u := hdistinct.eq_of_path (hstages.sound e he).1 hu hpath
      obtain ⟨hsound, hkept, hnew⟩ := Index.mem_insertChunks e.page.path
        (((w.deleteFullText e.page.path).deleteChunks e.page.path).upsertDoc
          (e.page.row generation)) e.chunks
      refine ⟨?_, ?_, ?_⟩
      · intro row hrow
        rcases hsound row hrow with hold | ⟨_, hkey⟩
        · obtain ⟨hmem, hother⟩ := Index.mem_replaced.1 hold
          exact .inr ⟨hmem, fun _ => Ne.symm hother⟩
        · obtain ⟨c, hc, heq⟩ := List.mem_map.1 hkey
          exact .inl (mem_stagedKeys.2 ⟨c, List.mem_flatMap.2 ⟨e, he, hc⟩, heq⟩)
      · intro row hrow hother
        exact hkept row (Index.mem_replaced.2 ⟨hrow, Ne.symm (hother hkind)⟩)
      · intro e' he' hpage c hc
        obtain rfl := hstages.unique e' he' e he hpage
        exact hnew c hc
    · cases h
  next hkind =>
    obtain rfl := Except.ok.inj h
    refine ⟨?_, ?_, ?_⟩
    · intro row hrow
      refine .inr ⟨hrow, ?_⟩
      rw [hkind]
      intro hreplace
      cases hreplace
    · intro row hrow _
      exact hrow
    · rintro e he rfl
      rw [(hstages.sound e he).2] at hkind
      cases hkind

/-- The updates of all pages: a chunk is staged, or it was there and its page is
not replaced, and all of these chunks are there. -/
theorem upsertUpdates_chunks {signature : Text} {upserts : List (PageUpsert D)}
    {staged : List (StagedPage D)} (hstages : Stages signature upserts staged)
    (hdistinct : Distinct upserts) {generation : Int64} {pages : List (PageUpsert D)}
    (hpages : ∀ u ∈ pages, u ∈ upserts) (hnodup : pages.Nodup)
    {changes : List (Update D)}
    (h : pages.mapM (upsertUpdate staged generation) = .ok changes) (w : Index D) :
    (∀ row ∈ (applyAll changes w).chunks, row.vectorHash ∈ stagedKeys staged ∨
      row ∈ w.chunks ∧ ∀ u ∈ pages, u.kind = .replace → u.path ≠ row.path) ∧
    (∀ row ∈ w.chunks, (∀ u ∈ pages, u.kind = .replace → u.path ≠ row.path) →
      row ∈ (applyAll changes w).chunks) ∧
    ∀ e ∈ staged, e.page ∈ pages → ∀ c ∈ e.chunks,
      ∃ row ∈ (applyAll changes w).chunks, row.vectorHash = c.vectorKey := by
  induction pages generalizing changes w with
  | nil =>
      cases h
      refine ⟨fun row hrow => .inr ⟨hrow, fun u hu => absurd hu List.not_mem_nil⟩,
        fun row hrow _ => hrow, fun e _ hpage => absurd hpage List.not_mem_nil⟩
  | cons u pages ih =>
      rw [List.mapM_cons] at h
      obtain ⟨change, hchange, h⟩ := except_bind_eq_ok.1 h
      obtain ⟨rest, hrest, h⟩ := except_bind_eq_ok.1 h
      obtain rfl := Except.ok.inj h
      rw [applyAll_cons]
      obtain ⟨hfresh, hnodup⟩ := List.nodup_cons.1 hnodup
      have hu := hpages u List.mem_cons_self
      obtain ⟨hsound, hkept, hnew⟩ :=
        upsertUpdate_chunks hstages hdistinct hu hchange w
      obtain ⟨hsound', hkept', hnew'⟩ :=
        ih (fun u' hu' => hpages u' (List.mem_cons_of_mem _ hu')) hnodup hrest
          (change.apply w)
      refine ⟨?_, ?_, ?_⟩
      · intro row hrow
        rcases hsound' row hrow with hstaged | ⟨hold, hothers⟩
        · exact .inl hstaged
        · rcases hsound row hold with hstaged | ⟨hfirst, hother⟩
          · exact .inl hstaged
          · refine .inr ⟨hfirst, ?_⟩
            intro u' hu'
            rcases List.mem_cons.1 hu' with rfl | hlater
            · exact hother
            · exact hothers u' hlater
      · intro row hrow hothers
        apply hkept' row
        · exact hkept row hrow (hothers u List.mem_cons_self)
        · intro u' hu'
          exact hothers u' (List.mem_cons_of_mem _ hu')
      · intro e he hpage c hc
        rcases List.mem_cons.1 hpage with heq | hlater
        · obtain ⟨row, hrow, hpath, hkey⟩ := hnew e he heq c hc
          refine ⟨row, hkept' row hrow ?_, hkey⟩
          intro u' hu' _ hsame
          apply hfresh
          have hsame' : u' = u := hdistinct.eq_of_path
            (hpages u' (List.mem_cons_of_mem _ hu')) hu (hsame.trans hpath)
          rw [← hsame']
          exact hu'
        · exact hnew' e he hlater c hc

omit [DecidableEq D] [Sha256 D] in
/-- What the deletions leave: the chunks of other pages. -/
theorem deletionUpdates_chunks {paths : List PathBuf} {changes : List (Update D)}
    (h : paths.mapM deletionUpdate = .ok changes) (w : Index D) :
    ∀ row ∈ (applyAll changes w).chunks,
      row ∈ w.chunks ∧ row.path.toBytes ∉ paths := by
  induction paths generalizing changes w with
  | nil =>
      cases h
      exact fun row hrow => ⟨hrow, List.not_mem_nil⟩
  | cons path paths ih =>
      rw [List.mapM_cons] at h
      obtain ⟨change, hchange, h⟩ := except_bind_eq_ok.1 h
      obtain ⟨rest, hrest, h⟩ := except_bind_eq_ok.1 h
      obtain rfl := Except.ok.inj h
      intro row hrow
      rw [applyAll_cons] at hrow
      obtain ⟨hmem, hothers⟩ := ih hrest (change.apply w) row hrow
      unfold deletionUpdate at hchange
      split at hchange
      next text htext =>
        obtain rfl := Except.ok.inj hchange
        obtain ⟨hold, hother⟩ := List.mem_filter.1 hmem
        refine ⟨hold, ?_⟩
        intro hdeleted
        rcases List.mem_cons.1 hdeleted with heq | hlater
        · have hsame : row.path = text := by
            apply Text.toBytes_injective
            rw [heq, Text.toBytes_of_fromUtf8 htext]
          simp [hsame] at hother
        · exact hothers hlater
      · cases hchange

/-! What stays referenced. -/

omit [DecidableEq D] [Sha256 D] in
theorem mem_existingDocs {docs : List (DocRow D)} {doc : DocRow D} (h : doc ∈ docs) :
    ExistingDoc.ofRow doc ∈ existingDocs docs :=
  (List.mergeSort_perm _ _).mem_iff.2 (List.mem_map_of_mem h)

omit [Sha256 D] in
theorem mem_vectorReferences {candidates : List PathBuf}
    {rows : List (Text × VectorKey D)} {row : Text × VectorKey D} (h : row ∈ rows)
    (hpath : row.1.toBytes ∈ candidates) :
    ⟨row.1.toBytes, row.2⟩ ∈ vectorReferences candidates rows := by
  unfold vectorReferences
  rw [List.mem_dedup]
  exact List.mem_filter.2 ⟨List.mem_map_of_mem h, by simpa using hpath⟩

variable {scan : ScanReport D} {mode : SyncMode} {i w : Index D} {plan : SyncPlan D}
  {upserts : List (PageUpsert D)} {shown : List (VectorKey D)}

/-- The updates are distinct, and what the plan replaces they replace. -/
theorem Rechecked.distinct (h : Rechecked plan upserts shown)
    (hplan : Planned scan mode i plan) :
    Distinct upserts ∧ (∀ path, Replaced plan.upserts path → Replaced upserts path) ∧
      ∀ r ∈ plan.unchangedVectorReferences, r.key ∈ shown ∨ Replaced upserts r.path := by
  obtain ⟨missing, hupserts⟩ := hplan.upserts
  obtain ⟨paths, restaged, hrestaged, hperm, hreferences⟩ := h.restaged
  obtain ⟨hdistinct, hpaths, hkept⟩ :=
    restage_replaced hrestaged (planUpserts_distinct hupserts)
  have hback : ∀ path, Replaced restaged path → Replaced upserts path := by
    rintro path ⟨u, hu, hpath, hkind⟩
    exact ⟨u, hperm.mem_iff.2 hu, hpath, hkind⟩
  refine ⟨hdistinct.perm hperm, fun path hpath => hback path (hkept path hpath), ?_⟩
  intro r hr
  exact (hreferences r hr).imp_right fun hpath => hback r.path (hpaths r.path hpath)

/-- Every chunk of the index has its page deleted or replaced, or its vector has
been shown to be cached. -/
theorem chunk_accounted (hcoherent : i.Coherent)
    (hplan : Planned scan .incremental i plan)
    (hretained : retainedPaths scan (existingDocs i.docs) = [])
    (h : Rechecked plan upserts shown) {row : ChunkRow D} (hrow : row ∈ i.chunks) :
    row.path.toBytes ∈ plan.deletions ∨ row.vectorHash ∈ shown ∨
      Replaced upserts row.path.toBytes := by
  obtain ⟨_, hreplaced, hreferences⟩ := h.distinct hplan
  obtain ⟨doc, hdoc, hpath⟩ := hcoherent row hrow
  have hexisting := mem_existingDocs hdoc
  have hdocPath : (ExistingDoc.ofRow doc).path = row.path.toBytes :=
    congrArg Text.toBytes hpath
  by_cases hpresent : isPresent scan row.path.toBytes = true
  · by_cases hunchanged : row.path.toBytes ∈
        unchangedPaths scan (existingDocs i.docs) (plan.rebuilds i)
    · have hreference : ⟨row.path.toBytes, row.vectorHash⟩ ∈
          plan.unchangedVectorReferences := by
        rw [hplan.references, plannedReferences,
          if_pos ⟨rfl, List.ne_nil_of_mem hunchanged⟩]
        have hmem : (row.path, row.vectorHash) ∈
            i.chunks.map fun row => (row.path, row.vectorHash) :=
          List.mem_map_of_mem hrow
        exact mem_vectorReferences hmem hunchanged
      exact .inr (hreferences _ hreference)
    · obtain ⟨missing, hupserts⟩ := hplan.upserts
      rw [← hdocPath] at hpresent hunchanged ⊢
      exact .inr (.inr (hreplaced _
        (planUpserts_replaced hupserts hexisting hpresent hunchanged)))
  · have hunobserved : row.path.toBytes ∈ unobservedPaths scan (existingDocs i.docs) := by
      unfold unobservedPaths
      refine List.mem_filter.2 ⟨List.mem_map.2 ⟨_, hexisting, hdocPath⟩, ?_⟩
      simpa using hpresent
    rw [hplan.deletions]
    refine .inl ?_
    by_contra hkept
    have hmem : row.path.toBytes ∈ retainedPaths scan (existingDocs i.docs) :=
      List.mem_filter.2 ⟨hunobserved, by simpa [plannedDeletions] using hkept⟩
    rw [hretained] at hmem
    cases hmem

/-- Without work to do, every vector of the index has been shown. -/
theorem idle_shown (hcoherent : i.Coherent) (hplan : Planned scan mode i plan)
    (hretained : retainedPaths scan (existingDocs i.docs) = [])
    (h : Rechecked plan upserts shown) (hidle : needsCommit plan upserts = false) :
    ∀ key ∈ i.vectorKeys, key ∈ shown := by
  unfold needsCommit at hidle
  simp only [Bool.or_eq_false_iff, decide_eq_false_iff_not, Bool.not_eq_false',
    List.isEmpty_iff] at hidle
  obtain ⟨⟨⟨hmode, hupserts⟩, hdeletions⟩, _⟩ := hidle
  rw [hplan.mode_eq] at hmode
  have hincremental : mode = .incremental := by
    cases mode with
    | incremental => rfl
    | fullRebuild => exact absurd rfl hmode
  subst hincremental
  intro key hkey
  obtain ⟨row, hrow, rfl⟩ := List.mem_map.1 hkey
  rcases chunk_accounted hcoherent hplan hretained h hrow with hdeleted | hshown | hreplaced
  · rw [hdeletions] at hdeleted
    cases hdeleted
  · exact hshown
  · obtain ⟨u, hu, _⟩ := hreplaced
    rw [hupserts] at hu
    cases hu

variable {initial : List (VectorKey D)} {embedder : Embedder}
  {staged : List (StagedPage D)} {missing : List (VectorKey D)} {v : SyncView D}

/-- The published index refers to the staged vectors, and otherwise only to
vectors that have been shown. -/
theorem Healed.vectorKeys (hcoherent : i.Coherent) (hplan : Planned scan mode i plan)
    (hretained : retainedPaths scan (existingDocs i.docs) = [])
    (hrechecked : Rechecked plan upserts v.shown)
    (h : Healed initial embedder plan upserts staged missing i w v) :
    (∀ key ∈ w.vectorKeys, key ∈ v.shown) ∧
      ∀ key ∈ stagedKeys staged, key ∈ w.vectorKeys := by
  have hstages := stagePages_stages h.stages
  obtain ⟨hdistinct, _, _⟩ := hrechecked.distinct hplan
  obtain ⟨deletions, changes, hdeletions, hchanges, hw⟩ := h.published.changed
  have hnodup : upserts.Nodup := List.Nodup.of_map _ hdistinct.nodup
  obtain ⟨hsound, _, hnew⟩ := upsertUpdates_chunks hstages hdistinct (fun _ hu => hu)
    hnodup hchanges (applyAll deletions i)
  have hchunks : w.chunks = (applyAll changes (applyAll deletions i)).chunks := by
    rw [hw]
    rfl
  constructor
  · intro key hkey
    obtain ⟨row, hrow, rfl⟩ := List.mem_map.1 hkey
    rw [hchunks] at hrow
    rcases hsound row hrow with hstaged | ⟨hold, hothers⟩
    · exact h.shown _ hstaged
    · unfold deletionChanges at hdeletions
      split at hdeletions
      next hmode =>
        obtain rfl := Except.ok.inj hdeletions
        change row ∈ i.clearProject.chunks at hold
        rw [hcoherent.clearProject_chunks] at hold
        cases hold
      next hmode =>
        obtain rfl : mode = .incremental := hplan.mode_eq.symm.trans hmode
        obtain ⟨hfirst, hkept⟩ := deletionUpdates_chunks hdeletions i row hold
        rcases chunk_accounted hcoherent hplan hretained hrechecked hfirst with
          hdeleted | hshown | ⟨u, hu, hpath, hkind⟩
        · exact absurd hdeleted hkept
        · exact hshown
        · exact absurd (Text.toBytes_injective ((hdistinct.named u hu).trans hpath))
            (hothers u hu hkind)
  · intro key hkey
    obtain ⟨c, hc, rfl⟩ := mem_stagedKeys.1 hkey
    obtain ⟨e, he, hchunk⟩ := List.mem_flatMap.1 hc
    obtain ⟨row, hrow, heq⟩ := hnew e he (hstages.sound e he).1 c hchunk
    refine List.mem_map.2 ⟨row, ?_, heq⟩
    rw [hchunks]
    exact hrow

/-! Runs. -/

/-- The vectors that other threads have added to the cache. -/
def addedByOthers (t : Tid) (s : StoreTrace D) (key : VectorKey D) : Prop :=
  ∃ e ∈ s.past, e.tid ≠ t ∧ key ∈ addedKeys e.op e.answer

/-- Every vector that the index `w` refers to is cached, and the texts that were
embedded are those of its vectors that were missing, up to what others added. -/
structure Heals (embedder : Embedder) (initial : List (VectorKey D))
    (foreign : VectorKey D → Prop) (w : Index D) (cached : List (CachedVector D))
    (texts : List Text) : Prop where
  resolves : ∀ key ∈ w.vectorKeys, key ∈ keysOf cached
  embedded : ∀ key ∈ w.vectorKeys, key ∉ initial → ¬ foreign key →
    ∃ text ∈ texts, vectorKey embedder.signature .passage text = .ok key
  required : ∀ text ∈ texts, ∃ key ∈ w.vectorKeys, key ∉ initial ∧
    vectorKey embedder.signature .passage text = .ok key

variable {home : StoreHome} {t : Tid} {project : PathBuf}
  {foreign : VectorKey D → Prop}

omit [Sha256 D] in
/-- At first a thread has seen nothing. -/
theorem inv_start {start : StoreState D} (hidle : start.working t project = none)
    (hcoherent : (start.index project).Coherent) :
    (syncDiscipline home t project (keysOf start.vectors) foreign).inv ⟨start, []⟩ := by
  refine ⟨⟨fun key hkey => hkey, ?_, fun key hkey => .inl hkey⟩,
    ⟨hcoherent, ?_, ?_, ?_⟩⟩
  · intro key hkey
    cases hkey
  · intro w hw
    change start.working t project = some w at hw
    rw [hidle] at hw
    cases hw
  · intro i hi
    cases hi
  · intro i hi
    cases hi

/-- What holds when the synchronization has ended. -/
theorem executed_heals {s : StoreTrace D}
    (hinv : (syncDiscipline home t project initial foreign).inv s)
    (hplan : Planned scan mode i plan)
    (hretained : retainedPaths scan (existingDocs i.docs) = [])
    (h : Executed initial embedder plan i w (syncView t project s)) :
    w ∈ seenIndexes t project s ∧
      Heals embedder initial foreign w s.now.vectors (embeddedTexts t s) := by
  obtain ⟨hcached, _⟩ := hinv
  obtain ⟨upserts, hrechecked, hend⟩ := h.ends
  rcases hend with ⟨hidle, rfl, hlooked⟩ | ⟨staged, missing, hhealed⟩
  · have hshown := idle_shown h.coherent hplan hretained hrechecked hidle
    have hresolves : ∀ key ∈ w.vectorKeys, key ∈ keysOf s.now.vectors :=
      fun key hkey => hcached.shown key (hshown key hkey)
    refine ⟨hlooked.seen, hresolves, ?_, ?_⟩
    · intro key hkey hnew hnotForeign
      rcases hcached.accounted key (hresolves key hkey) with hfirst | hforeign | hadded
      · exact absurd hfirst hnew
      · exact absurd hforeign hnotForeign
      · rw [hlooked.added] at hadded
        cases hadded
    · intro text htext
      have hnone : embeddedTexts t s = [] := hlooked.sent
      rw [hnone] at htext
      cases htext
  · have hstages := stagePages_stages hhealed.stages
    obtain ⟨hshown, hpublished⟩ :=
      hhealed.vectorKeys h.coherent hplan hretained hrechecked
    have hresolves : ∀ key ∈ w.vectorKeys, key ∈ keysOf s.now.vectors :=
      fun key hkey => hcached.shown key (hshown key hkey)
    have hseen : seenIndexes t project s = [w] := hhealed.seen
    refine ⟨by rw [hseen]; exact List.mem_cons_self, hresolves, ?_, ?_⟩
    · intro key hkey hnew hnotForeign
      rcases hcached.accounted key (hresolves key hkey) with hfirst | hforeign | hadded
      · exact absurd hfirst hnew
      · exact absurd hforeign hnotForeign
      · have hmissing := hhealed.added key hadded
        obtain ⟨text, htext⟩ := hhealed.texts key hmissing
        exact ⟨text, (hhealed.sent text).2 ⟨key, hmissing, htext⟩,
          lookupText_key hstages htext⟩
    · intro text htext
      obtain ⟨key, hmissing, hlookup⟩ := (hhealed.sent text).1 htext
      obtain ⟨hstaged, hnew⟩ := hhealed.lost key hmissing
      exact ⟨key, hpublished key hstaged, hnew, lookupText_key hstages hlookup⟩

/-- What a synchronization has established when it ends. -/
def SyncExit (scan : ScanReport D) (mode : SyncMode) (initial : List (VectorKey D))
    (embedder : Embedder) (r : Except (SyncError D) SyncReport) (v : SyncView D) : Prop :=
  ∀ report, r = .ok report → ∃ plan i w, Planned scan mode i plan ∧
    i.docs ∈ v.inventories ∧ w.generation = report.generation ∧
    Executed initial embedder plan i w v

/-- A successful synchronization without retained pages heals the cache, whatever
other threads do that remove no vector: the index that it reports has all its
vectors, exactly the missing ones were embedded, and an index that is published
later has all its vectors too. -/
theorem synchronize_heals (home : StoreHome) (t : Tid) (root : PathBuf)
    (scan : ScanReport D) (embedder : Embedder) (mode : SyncMode) (start : StoreState D)
    (procs : Tid → Prog (StoreOp D) StoreAns (Except (SyncError D) SyncReport))
    (pool : Pool Tid (StoreOp D) StoreAns (StoreTrace D)
      (Except (SyncError D) SyncReport)) (report : SyncReport)
    (hproc : procs t = (synchronize root scan embedder mode).run)
    (hidle : start.working t (home.projectPath root) = none)
    (hcoherent : (start.index (home.projectPath root)).Coherent)
    (hsteps : (store home).traced.system.Steps ⟨procs, start, []⟩ pool)
    (hdone : pool.procs t = .ret (.ok report))
    (hothers : ∀ e ∈ pool.state.past, e.tid ≠ t →
      Considerate e.tid (home.projectPath root) e.before e.op)
    (hretained : ∀ rows ∈ inventories t pool.state,
      retainedPaths scan (existingDocs rows) = []) :
    (∀ key ∈ (pool.state.now.index (home.projectPath root)).vectorKeys,
      key ∈ keysOf pool.state.now.vectors) ∧
    ∃ w : Index D, w.generation = report.generation ∧
      w.Later (pool.state.now.index (home.projectPath root)) ∧
      Heals embedder (keysOf start.vectors) (addedByOthers t pool.state) w
        pool.state.now.vectors (embeddedTexts t pool.state) := by
  have hforeign : ∀ e ∈ pool.state.past, e.tid ≠ t →
      Considerate e.tid (home.projectPath root) e.before e.op ∧
        ∀ key ∈ addedKeys e.op e.answer, addedByOthers t pool.state key :=
    fun e he hne => ⟨hothers e he hne, fun _ hkey => ⟨e, he, hne, hkey⟩⟩
  have hfocus := steps_focus (.error .alteredPlan) hsteps hforeign
  have hinv : (syncDiscipline home t (home.projectPath root) (keysOf start.vectors)
      (addedByOthers t pool.state)).inv ⟨start, []⟩ := inv_start hidle hcoherent
  have houtlined : Outlined (syncDiscipline home t (home.projectPath root)
      (keysOf start.vectors) (addedByOthers t pool.state))
      (fun u r s => u = t → SyncExit scan mode (keysOf start.vectors) embedder r
        (syncView t (home.projectPath root) s))
      (focus t (.error .alteredPlan) ⟨start, []⟩ (procs t)) := by
    refine ⟨hinv, ?_⟩
    intro u
    by_cases hu : u = t
    · subst hu
      have hsyncs : Syncs home u (home.projectPath root) (keysOf start.vectors)
          (addedByOthers u pool.state)
          (syncView u (home.projectPath root) ⟨start, []⟩)
          (synchronize root scan embedder mode) _ :=
        syncs_synchronize rfl scan embedder mode hidle rfl rfl
      change Outline _ u (if u = u then procs u else _) _ _
      rw [if_pos rfl, hproc]
      apply outline_mono _ (hsyncs ⟨start, []⟩ hinv rfl)
      rintro r s _ hexit _ report rfl
      exact hexit
    · change Outline _ u (if u = t then procs t else _) _ _
      rw [if_neg hu]
      intro s _ _ hsame
      exact absurd hsame hu
  have hfinal := outlined_steps hfocus houtlined
  have hret : (focus t (.error .alteredPlan) pool.state (pool.procs t)).procs t =
      .ret (.ok report) := (if_pos rfl).trans hdone
  obtain ⟨plan, i, w, hplan, hdocs, hreport, hexecuted⟩ :=
    hfinal.finished hret rfl report rfl
  have hinv' := hfinal.1
  obtain ⟨hseen, hheals⟩ := executed_heals hinv' hplan (hretained _ hdocs) hexecuted
  refine ⟨?_, w, hreport, hinv'.2.later w hseen, hheals⟩
  intro key hkey
  rcases hinv'.2.referred w hseen key hkey with hold | hcached
  · exact hheals.resolves key hold
  · exact hcached

end

namespace SyncHealingWitness

local instance : Sha256 Bytes := ⟨id, fun _ => []⟩

def root : PathBuf := Text.toBytes "/p".toList

def home : StoreHome := ⟨fun root => root, true, false⟩

def path : Text := "a.md".toList

def content : Bytes := Text.toBytes "x".toList

/-- The only page of the project, as it was scanned. -/
def page : ScannedPage Bytes where
  path := path.toBytes
  corpus := .shared
  byteLen := 1
  modifiedNs := 7
  device := 1
  inode := 2
  sha256 := content
  content := content
  revision := ⟨path.toBytes⟩
  snapshotSeal := ⟨path.toBytes, .shared, 1, 7, 1, 2, content, content, rfl⟩

def scan : ScanReport Bytes :=
  ScanReport.reseal { ScanReport.empty with present := [page] }

def embedder : Embedder := ⟨"m".toList, 1, by decide⟩

def scheme : Option (EmbeddingScheme Bytes) :=
  (embeddingSchemeFor embedder).toOption

def key : Bytes :=
  ((vectorKey (D := Bytes) embedder.signature .passage "a\n\nx".toList).toOption).getD []

/-- The index has the page as it is; the cache has lost its vector. -/
def index : Index Bytes where
  generation := 4
  scheme := scheme
  docs := [⟨path, corpusLabel .shared, none, content, 1, 7, 1, 2, 4⟩]
  chunks := [⟨1, path, 0, "x".toList, "a\n\nx".toList, key⟩]
  chunksFts := [⟨1, "x".toList⟩]

def start : StoreState Bytes :=
  ⟨(∅ : AList fun _ : PathBuf => Index Bytes).insert root index, fun _ => none, [], none⟩

def procs (t : Tid) :
    Prog (StoreOp Bytes) StoreAns (Except (SyncError Bytes) SyncReport) :=
  if t = 0 then (synchronize root scan embedder .incremental).run
  else .ret (.error .alteredPlan)

def outcome : Option (Pool Tid (StoreOp Bytes) StoreAns (StoreTrace Bytes)
    (Except (SyncError Bytes) SyncReport)) :=
  (store home).traced.schedule 4 (List.replicate 49 (.thread 0 none)) ⟨procs, start, []⟩

def finished (p : Prog (StoreOp Bytes) StoreAns (Except (SyncError Bytes) SyncReport)) :
    Option SyncReport :=
  match p with
  | .ret (.ok report) => some report
  | _ => none

theorem finished_eq_some
    {p : Prog (StoreOp Bytes) StoreAns (Except (SyncError Bytes) SyncReport)}
    {report : SyncReport} (h : finished p = some report) : p = .ret (.ok report) := by
  unfold finished at h
  split at h
  · obtain rfl := Option.some.inj h
    rfl
  · cases h

/-- The lost vector of the unchanged page is embedded again. -/
theorem synchronize_heals_lost : ∃ pool, outcome = some pool ∧
    embeddedTexts 0 pool.state = ["a\n\nx".toList] ∧
    ∀ key ∈ (pool.state.now.index root).vectorKeys,
      key ∈ keysOf pool.state.now.vectors := by
  have hfacts : outcome.map (fun pool =>
      (finished (pool.procs 0), embeddedTexts 0 pool.state,
        pool.state.past.all (fun e => e.tid = 0),
        (inventories 0 pool.state).all fun rows =>
          retainedPaths scan (existingDocs rows) = [])) =
      some (some ⟨1, 0, 1, 5, []⟩, ["a\n\nx".toList], true, true) := by
    unfold outcome procs synchronize planSynchronization executeSyncPlan admitPlan start
      index scheme embeddingSchemeFor
    repeat rw [String.toList_ofList]
    decide +kernel
  obtain ⟨pool, hpool, hpair⟩ := Option.map_eq_some_iff.1 hfacts
  simp only [Prod.mk.injEq, List.all_eq_true, decide_eq_true_eq] at hpair
  obtain ⟨hdone, htexts, hothers, hretained⟩ := hpair
  refine ⟨pool, hpool, htexts, ?_⟩
  have hindex : start.index root = index := by
    unfold StoreState.index start
    rw [AList.lookup_insert]
    rfl
  have hcoherent : (start.index root).Coherent := by
    rw [hindex]
    intro row hrow
    obtain rfl := List.mem_singleton.1 hrow
    exact ⟨_, List.mem_cons_self, rfl⟩
  exact (synchronize_heals home 0 root scan embedder .incremental start procs pool _ rfl rfl
    hcoherent (schedule_steps hpool) (finished_eq_some hdone)
    (fun e he hne => absurd (hothers e he) hne) hretained).1

end SyncHealingWitness

end Yams.Store
