/-
What the index of a project says after any number of synchronizations: of each
page what its captured bytes say, whatever mix of modes and interleaving made it.
-/
import Yams.PlanSeal
import Yams.SyncGenerations
import Yams.SyncPages

namespace Yams.Store

section

variable {D : Type} [DecidableEq D] [Sha256 D] {scan : ScanReport D} {embedder : Embedder}
  {mode : SyncMode} {plan : SyncPlan D} {i w : Index D}

/-! Absent pages. -/

/-- The scan shows that a path is no page: nothing unknown lies above it, and it was
refused or its corpus was scanned completely. -/
structure PositivelyAbsent (scan : ScanReport D) (path : PathBuf) : Prop where
  known : ∀ note ∈ scan.unknown, ¬ PathBytes.startsWith path note.path = true
  observed : (∃ note ∈ scan.oversized ++ scan.rejected,
      PathBytes.startsWith path note.path = true) ∨
    ∃ root ∈ scan.scannedCorpora, PathBytes.startsWith path root = true

omit [DecidableEq D] in
theorem positivelyAbsent_iff {path : PathBuf} :
    positivelyAbsent scan path = true ↔ PositivelyAbsent scan path := by
  unfold positivelyAbsent
  constructor
  · intro h
    split at h
    · cases h
    next hknown =>
      refine ⟨fun note hnote hunder => hknown (List.any_eq_true.2 ⟨note, hnote, hunder⟩), ?_⟩
      rcases Bool.or_eq_true_iff.1 h with hnote | hroot
      · exact .inl (List.any_eq_true.1 hnote)
      · exact .inr (List.any_eq_true.1 hroot)
  · rintro ⟨hknown, hobserved⟩
    rw [if_neg]
    · rcases hobserved with hnote | hroot
      · rw [List.any_eq_true.2 hnote, Bool.true_or]
      · rw [List.any_eq_true.2 hroot, Bool.or_true]
    · intro hany
      obtain ⟨note, hnote, hunder⟩ := List.any_eq_true.1 hany
      exact hknown note hnote hunder

omit [DecidableEq D] in
theorem mem_unobservedPaths {path : Text} :
    path.toBytes ∈ unobservedPaths scan (existingDocs i.docs) ↔
      path ∈ i.paths ∧ isPresent scan path.toBytes = false := by
  unfold unobservedPaths
  rw [List.mem_filter, Bool.not_eq_true']
  apply and_congr_left
  intro _
  have hperm : ((existingDocs i.docs).map ExistingDoc.path).Perm
      (i.docs.map fun row => row.path.toBytes) := by
    have hsorted : (existingDocs i.docs).Perm (i.docs.map ExistingDoc.ofRow) :=
      List.mergeSort_perm _ _
    have hmapped := hsorted.map ExistingDoc.path
    rw [List.map_map] at hmapped
    exact hmapped
  rw [hperm.mem_iff]
  constructor
  · intro hmem
    obtain ⟨row, hrow, heq⟩ := List.mem_map.1 hmem
    rw [← Text.toBytes_injective heq]
    exact List.mem_map_of_mem hrow
  · intro hmem
    obtain ⟨row, hrow, rfl⟩ := List.mem_map.1 hmem
    exact List.mem_map.2 ⟨row, hrow, rfl⟩

omit [DecidableEq D] in
theorem mem_incrementalDeletions {path : Text} :
    path.toBytes ∈ incrementalDeletions scan (existingDocs i.docs) ↔
      (path ∈ i.paths ∧ isPresent scan path.toBytes = false) ∧
        PositivelyAbsent scan path.toBytes := by
  unfold incrementalDeletions
  rw [List.mem_filter, mem_unobservedPaths, positivelyAbsent_iff]

omit [DecidableEq D] in
/-- Without retained pages each unobserved page is positively absent. -/
theorem absent_of_retained_nil (h : retainedPaths scan (existingDocs i.docs) = [])
    {path : Text} (hpath : path ∈ i.paths) (habsent : isPresent scan path.toBytes = false) :
    PositivelyAbsent scan path.toBytes := by
  by_contra hnot
  have hmem : path.toBytes ∈ retainedPaths scan (existingDocs i.docs) := by
    unfold retainedPaths
    refine List.mem_filter.2 ⟨mem_unobservedPaths.2 ⟨hpath, habsent⟩, ?_⟩
    simp only [decide_eq_true_eq]
    intro hdeleted
    exact hnot (mem_incrementalDeletions.1 hdeleted).2
  rw [h] at hmem
  cases hmem

omit [DecidableEq D] in
theorem checkComplete_fullRebuild {existing : List (ExistingDoc D)} {rebuild : Bool}
    (h : checkComplete .fullRebuild scan existing rebuild = .ok ()) :
    scan.unknown = [] ∧ retainedPaths scan existing = [] := by
  unfold checkComplete at h
  dsimp only at h
  split at h
  next hnone =>
    have hdedup : ∀ {paths : List PathBuf}, dedupSorted paths = [] → paths = [] := by
      intro paths hpaths
      induction paths with
      | nil => rfl
      | cons path paths ih =>
          cases paths with
          | nil => cases hpaths
          | cons other paths =>
              unfold dedupSorted at hpaths
              split at hpaths
              · cases ih hpaths
              · cases hpaths
    have hperm := List.mergeSort_perm
      (scan.unknown.map ScanNote.path ++ retainedPaths scan existing) PathBytes.le
    rw [hdedup hnone] at hperm
    have hall := List.append_eq_nil_iff.1 hperm.symm.eq_nil
    exact ⟨List.map_eq_nil_iff.1 hall.1, hall.2⟩
  · cases h

omit [DecidableEq D] in
theorem checkComplete_rebuild {existing : List (ExistingDoc D)}
    (h : checkComplete mode scan existing true = .ok ()) :
    retainedPaths scan existing = [] := by
  cases mode with
  | fullRebuild => exact (checkComplete_fullRebuild h).2
  | incremental =>
      unfold checkComplete at h
      dsimp only at h
      split at h
      · cases h
      · split at h
        · cases h
        next hnot =>
          by_contra hsome
          exact hnot ⟨rfl, hsome⟩

/-! The entries that a publication makes. -/

/-- The updates of a plan, whichever of them were made again. -/
theorem PlanOf.updates (h : PlanOf scan embedder mode i.scheme i.docs i plan)
    {upserts : List (PageUpsert D)} (hrestaged : Restaged plan upserts) :
    Updates mode scan (existingDocs i.docs) (i.scheme ≠ some plan.targetScheme) upserts := by
  obtain ⟨missing, hupserts⟩ := h.upserts
  obtain ⟨paths, restaged, hrestage, hperm⟩ := hrestaged
  rw [h.scan_eq] at hrestage
  exact ((planUpserts_updates hupserts).restage hrestage).perm hperm

/-- A page that the scan does not present goes if it is positively absent, and stays
as it was otherwise. -/
theorem absent_entry (hplan : PlanOf scan embedder mode i.scheme i.docs i plan)
    {upserts : List (PageUpsert D)} {staged : List (StagedPage D)} {generation : Int64}
    (hupdates : Updates mode scan (existingDocs i.docs) (i.scheme ≠ some plan.targetScheme)
      upserts)
    (hwritten : Written plan upserts staged generation i w) {path : Text}
    (habsent : isPresent scan path.toBytes = false) :
    w.entry path = if positivelyAbsent scan path.toBytes then none else i.entry path := by
  have hnone : (upserts.find? fun u => u.path = path) = none := by
    rw [List.find?_eq_none]
    intro u hu heq
    have hpath : u.path = path := by simpa using heq
    have hpresent : isPresent scan path.toBytes = true := by
      refine List.any_eq_true.2 ⟨u.source, (hupdates.sourced u hu).1, ?_⟩
      rw [← hpath, hupdates.distinct.named u hu]
      simp
    rw [hpresent] at habsent
    cases habsent
  rw [hwritten, hnone]
  dsimp only
  unfold keptEntry
  rw [hplan.mode_eq, hplan.deletions]
  by_cases hpath : path ∈ i.paths
  · cases mode with
    | fullRebuild =>
        have hgone := absent_of_retained_nil (checkComplete_fullRebuild hplan.complete).2
          hpath habsent
        rw [if_pos (.inl rfl), if_pos (positivelyAbsent_iff.2 hgone)]
    | incremental =>
        have hiff : (SyncMode.incremental = .fullRebuild ∨ path.toBytes ∈
            plannedDeletions .incremental scan (existingDocs i.docs)) ↔
              positivelyAbsent scan path.toBytes = true := by
          rw [positivelyAbsent_iff]
          constructor
          · rintro (hmode | hdeleted)
            · cases hmode
            · exact (mem_incrementalDeletions.1 hdeleted).2
          · exact fun hgone => .inr (mem_incrementalDeletions.2 ⟨⟨hpath, habsent⟩, hgone⟩)
        simp only [hiff]
  · rw [Index.entry_eq_none.2 hpath]
    simp

/-- How a published index has a present page: as it was scanned, or, under the same
scheme and with the same bytes, with the passages that it had. -/
inductive Stands (signature : Text) (page : ScannedPage D) (i w : Index D) (path : Text) :
    Prop
  | indexed (entry : PageEntry D) (hentry : w.entry path = some entry)
      (hindexes : Indexes signature page entry)
  | kept (row : DocRow D) (hrow : row ∈ i.docs) (hpath : row.path = path)
      (hhash : row.contentHash = page.sha256) (hdescribes : Describes page row)
      (hentry : w.entry path = i.entry path)
  | touched (row doc : DocRow D) (hrow : row ∈ i.docs) (hpath : row.path = path)
      (hhash : row.contentHash = page.sha256) (hdescribes : Describes page doc)
      (hstatus : doc.status = row.status)
      (hentry : w.entry path = (i.entry path).map fun entry => { entry with doc := doc })

omit [DecidableEq D] [Sha256 D] in
theorem findExisting_docs {docs : List (DocRow D)} {path : PathBuf} {prior : ExistingDoc D}
    (h : findExisting (existingDocs docs) path = some prior) :
    ∃ row ∈ docs, prior = ExistingDoc.ofRow row ∧ row.path.toBytes = path := by
  have hmem := (List.mergeSort_perm _ _).mem_iff.1 (List.mem_of_find?_eq_some h)
  obtain ⟨row, hrow, rfl⟩ := List.mem_map.1 hmem
  have hpath := List.find?_some h
  exact ⟨row, hrow, rfl, of_decide_eq_true hpath⟩

theorem present_entry (hplan : PlanOf scan embedder mode i.scheme i.docs i plan)
    {upserts : List (PageUpsert D)} {staged : List (StagedPage D)} {generation : Int64}
    (hupdates : Updates mode scan (existingDocs i.docs) (i.scheme ≠ some plan.targetScheme)
      upserts)
    (hstaged : stagePages embedder.signature upserts = .ok staged)
    (hentry : Written plan upserts staged generation i w) {path : PathBuf}
    (hpresent : isPresent scan path = true) :
    ∃ page ∈ scan.present, page.path = path ∧ ∃ text : Text, text.toBytes = path ∧
      Stands embedder.signature page i w text ∧
      (i.scheme ≠ some plan.targetScheme ∨ mode = .fullRebuild → ∃ entry,
        w.entry text = some entry ∧ Indexes embedder.signature page entry) := by
  obtain ⟨page, hpage, hpath, htreated⟩ := hupdates.treated path hpresent
  have hfind : ∀ {u : PageUpsert D}, u ∈ upserts →
      (upserts.find? fun other => other.path = u.path) = some u := by
    intro u hu
    have hsome : (upserts.find? fun other => other.path = u.path).isSome := by
      rw [List.find?_isSome]
      exact ⟨u, hu, by simp⟩
    obtain ⟨found, hfound⟩ := Option.isSome_iff_exists.1 hsome
    rw [hfound, hupdates.distinct.eq_of_path (List.mem_of_find?_eq_some hfound) hu
      (by simpa using List.find?_some hfound)]
  refine ⟨page, hpage, hpath, ?_⟩
  rcases htreated with ⟨u, hu, hreplaced⟩ | ⟨hmode, hrebuild, prior, hprior, hhash, htreated⟩
  · obtain ⟨hsource, hnamed, hkind⟩ := planPage_source hreplaced
    have hstages := stagePages_stages hstaged
    obtain ⟨e, he, rfl⟩ := hstages.complete u hu hkind
    have hreverse : staged.reverse.find? (fun other => other.page.path = e.page.path) =
        some e := by
      have hsome : (staged.reverse.find? fun other =>
          other.page.path = e.page.path).isSome := by
        rw [List.find?_isSome]
        exact ⟨e, List.mem_reverse.2 he, by simp⟩
      obtain ⟨found, hfound⟩ := Option.isSome_iff_exists.1 hsome
      have hmem := List.mem_reverse.1 (List.mem_of_find?_eq_some hfound)
      rw [hfound, hstages.unique found hmem e he
        (hupdates.distinct.eq_of_path (hstages.sound found hmem).1 hu
          (by simpa using List.find?_some hfound))]
    have hwritten : w.entry e.page.path =
        some ⟨e.page.row generation, e.chunks.map StagedChunk.passage⟩ := by
      rw [hentry, hfind hu]
      dsimp only
      unfold writtenEntry
      rw [hkind]
      dsimp only
      rw [hreverse]
      rfl
    have hindexes := planPage_indexes hreplaced (stagePages_mem hstaged he) generation
    exact ⟨e.page.path, hnamed.trans hpath, .indexed _ hwritten hindexes,
      fun _ => ⟨_, hwritten, hindexes⟩⟩
  · subst hmode
    obtain ⟨row, hrow, rfl, hrowPath⟩ := findExisting_docs hprior
    have hsame : ¬ (i.scheme ≠ some plan.targetScheme ∨
        SyncMode.incremental = .fullRebuild) := by
      rintro (hscheme | hmode)
      · simp [hscheme] at hrebuild
      · cases hmode
    have hkept : keptEntry plan i row.path = i.entry row.path := by
      unfold keptEntry
      rw [if_neg]
      rintro (hfull | hdeleted)
      · rw [hplan.mode_eq] at hfull
        cases hfull
      · rw [hplan.deletions] at hdeleted
        have hunobserved := (mem_incrementalDeletions.1 hdeleted).1.2
        rw [hrowPath, hpresent] at hunobserved
        cases hunobserved
    refine ⟨row.path, hrowPath, ?_, fun h => absurd h hsame⟩
    rcases htreated with ⟨hmatches, hnone⟩ | ⟨u, hu, hplanned⟩
    · refine .kept row hrow rfl hhash
        (metadataMatches_describes (hrowPath.trans hpath.symm) hmatches) ?_
      have hmissing : (upserts.find? fun u => u.path = row.path) = none := by
        rw [List.find?_eq_none]
        intro u hu heq
        apply hnone u hu
        rw [← hupdates.distinct.named u hu, ← hrowPath,
          show u.path = row.path by simpa using heq]
      rw [hentry, hmissing]
      exact hkept
    · obtain ⟨hsource, hnamed, hkind⟩ := pageUpsert_source hplanned
      obtain ⟨hdescribes, hstatus, -⟩ := pageUpsert_describes hplanned generation
      have hpaths : u.path = row.path := by
        apply Text.toBytes_injective
        rw [hnamed, hpath, hrowPath]
      refine .touched row (u.row generation) hrow rfl hhash hdescribes hstatus ?_
      rw [hentry, ← hpaths, hfind hu, hpaths]
      dsimp only
      unfold writtenEntry
      rw [hkind, hkept]

/-- What a plan, once executed, has made of the index `i`: it has been published, or
there was nothing to do. -/
structure Executes (plan : SyncPlan D) (embedder : Embedder) (i w : Index D) : Prop where
  stamped : w.scheme = some plan.targetScheme
  target : embeddingSchemeFor embedder = .ok plan.targetScheme
  written : ∃ upserts staged generation, Restaged plan upserts ∧
    stagePages embedder.signature upserts = .ok staged ∧
    Written plan upserts staged generation i w

theorem Publishes.executes (h : Publishes plan embedder i w)
    (hplan : PlanOf scan embedder mode i.scheme i.docs i plan) :
    Executes plan embedder i w := by
  obtain ⟨upserts, staged, hrestaged, -, hstaged, -, hpublished⟩ := h.made
  refine ⟨?_, h.target, upserts, staged, w.generation, hrestaged, hstaged,
    published_written hpublished (hplan.updates hrestaged).distinct⟩
  obtain ⟨deletions, changes, -, -, hw⟩ := hpublished.changed
  rw [hw]
  rfl

theorem executes_idle (hplan : PlanOf scan embedder mode i.scheme i.docs i plan)
    {upserts : List (PageUpsert D)} (hrestaged : Restaged plan upserts)
    (hnone : needsCommit plan upserts = false) : Executes plan embedder i i := by
  obtain ⟨rfl, hscheme, hwritten⟩ := idle_written i hnone
  refine ⟨?_, hplan.target, [], [], 0, hrestaged, rfl, hwritten⟩
  rw [← hplan.previous, hscheme]

/-! What a synchronization makes of an index. -/

/-- The pages that are present are there; of the others exactly those that are
positively absent are gone, and the rest is as it was. -/
structure Reconciles (mode : SyncMode) (scan : ScanReport D) (i w : Index D) : Prop where
  present : ∀ page ∈ scan.present, ∃ path ∈ w.paths, path.toBytes = page.path
  deleted : ∀ path ∈ i.paths, path ∉ w.paths →
    isPresent scan path.toBytes = false ∧ PositivelyAbsent scan path.toBytes
  gone : ∀ path : Text, isPresent scan path.toBytes = false →
    PositivelyAbsent scan path.toBytes → path ∉ w.paths
  retained : ∀ path : Text, isPresent scan path.toBytes = false →
    ¬ PositivelyAbsent scan path.toBytes → w.entry path = i.entry path
  rebuilt : mode = .fullRebuild → scan.unknown = [] ∧
    ∀ path ∈ w.paths, isPresent scan path.toBytes = true

omit [DecidableEq D] in
theorem Stands.mem_paths {signature : Text} {page : ScannedPage D} {path : Text}
    (h : Stands signature page i w path) : path ∈ w.paths := by
  have hold : ∀ {row : DocRow D}, row ∈ i.docs → row.path = path →
      (i.entry path).isSome = true := by
    rintro row hrow rfl
    exact Index.mem_paths_iff.1 (List.mem_map_of_mem hrow)
  rw [Index.mem_paths_iff]
  cases h with
  | indexed entry hentry _ =>
      rw [hentry]
      rfl
  | kept row hrow hpath _ _ hentry =>
      rw [hentry]
      exact hold hrow hpath
  | touched row doc hrow hpath _ _ _ hentry =>
      rw [hentry, Option.isSome_map]
      exact hold hrow hpath

theorem Executes.reconciles (h : Executes plan embedder i w)
    (hplan : PlanOf scan embedder mode i.scheme i.docs i plan) :
    Reconciles mode scan i w := by
  obtain ⟨upserts, staged, generation, hrestaged, hstaged, hwritten⟩ := h.written
  have hupdates := hplan.updates hrestaged
  have hpresent : ∀ {path : PathBuf}, isPresent scan path = true →
      ∃ text ∈ w.paths, text.toBytes = path := by
    intro path hpath
    obtain ⟨page, -, -, text, htext, hstands, -⟩ :=
      present_entry hplan hupdates hstaged hwritten hpath
    exact ⟨text, hstands.mem_paths, htext⟩
  have habsent : ∀ {path : Text}, isPresent scan path.toBytes = false →
      w.entry path = if positivelyAbsent scan path.toBytes then none else i.entry path :=
    fun hpath => absent_entry hplan hupdates hwritten hpath
  have hgone : ∀ {path : Text}, isPresent scan path.toBytes = false →
      PositivelyAbsent scan path.toBytes → path ∉ w.paths := by
    intro path hpath hnot
    rw [← Index.entry_eq_none, habsent hpath, if_pos (positivelyAbsent_iff.2 hnot)]
  have hretained : ∀ {path : Text}, isPresent scan path.toBytes = false →
      ¬ PositivelyAbsent scan path.toBytes → w.entry path = i.entry path := by
    intro path hpath hnot
    rw [habsent hpath, if_neg (fun h => hnot (positivelyAbsent_iff.1 h))]
  refine ⟨?_, ?_, fun _ => hgone, fun _ => hretained, ?_⟩
  · intro page hpage
    exact hpresent (List.any_eq_true.2 ⟨page, hpage, by simp⟩)
  · intro path hold hmissing
    have hpath : isPresent scan path.toBytes = false := by
      rw [Bool.eq_false_iff]
      intro htrue
      obtain ⟨text, htext, heq⟩ := hpresent htrue
      rw [Text.toBytes_injective heq] at htext
      exact hmissing htext
    refine ⟨hpath, ?_⟩
    by_contra hnot
    apply hmissing
    rw [Index.mem_paths_iff, hretained hpath hnot]
    exact Index.mem_paths_iff.1 hold
  · rintro rfl
    obtain ⟨hunknown, hnone⟩ := checkComplete_fullRebuild hplan.complete
    refine ⟨hunknown, ?_⟩
    intro path hmem
    by_contra hpath
    rw [Bool.not_eq_true] at hpath
    by_cases hold : path ∈ i.paths
    · exact hgone hpath (absent_of_retained_nil hnone hold hpath) hmem
    · have hnot := hretained hpath
      by_cases habsentPath : PositivelyAbsent scan path.toBytes
      · exact hgone hpath habsentPath hmem
      · rw [Index.mem_paths_iff, hnot habsentPath, Index.entry_eq_none.2 hold] at hmem
        cases hmem

/-! What an index says of its pages. -/

/-- Each entry is what some content with the digest of its row is indexed as. -/
def FaithfulTo (signature : Text) (i : Index D) : Prop :=
  ∀ path entry, i.entry path = some entry →
    ∃ content, Sha256.digest content = entry.doc.contentHash ∧
      indexedContent signature path.toBytes content =
        .ok (entry.doc.status, entry.passages)

/-- The tables fit together, and the entries are those of the model that the index is
stamped with. -/
structure Faithful (i : Index D) : Prop where
  wellFormed : i.WellFormed
  contents : ∀ (embedder : Embedder) scheme, i.scheme = some scheme →
    embeddingSchemeFor embedder = .ok scheme → FaithfulTo embedder.signature i

omit [DecidableEq D] in
theorem faithful_initial : Faithful (D := D) Index.initial where
  wellFormed := Index.wellFormed_initial
  contents _ _ hscheme := by cases hscheme

theorem validateSnapshot_digest {page : ScannedPage D} (h : page.validateSnapshot.isOk) :
    Sha256.digest page.content = page.sha256 := by
  unfold ScannedPage.validateSnapshot at h
  split at h
  next hsame =>
    obtain ⟨hfields, -, hcontent⟩ := hsame
    have hdigest : page.sha256 = page.snapshotSeal.sha256 :=
      congrArg PageSnapshotFields.sha256 hfields
    rw [hcontent, hdigest]
    exact page.snapshotSeal.digest_content
  · cases h

theorem validated_page (h : scan.validateSnapshot = .ok ()) {page : ScannedPage D}
    (hpage : page ∈ scan.present) : Sha256.digest page.content = page.sha256 := by
  unfold ScanReport.validateSnapshot at h
  split at h
  next hsame => exact validateSnapshot_digest (List.all_eq_true.1 hsame.2 page hpage)
  · cases h

/-- Each present page is indexed as it was scanned: a page with a known digest has
the content that it had. -/
theorem indexed_entry (h : Executes plan embedder i w)
    (hplan : PlanOf scan embedder mode i.scheme i.docs i plan)
    (hdigest : Function.Injective (Sha256.digest : Bytes → D)) (hi : Faithful i)
    {path : PathBuf} (hpresent : isPresent scan path = true) :
    ∃ page ∈ scan.present, page.path = path ∧ ∃ text : Text, text.toBytes = path ∧
      ∃ entry, w.entry text = some entry ∧ Indexes embedder.signature page entry := by
  obtain ⟨upserts, staged, generation, hrestaged, hstaged, hwritten⟩ := h.written
  obtain ⟨page, hpage, hpath, text, htext, hstands, hmade⟩ :=
    present_entry hplan (hplan.updates hrestaged) hstaged hwritten hpresent
  refine ⟨page, hpage, hpath, text, htext, ?_⟩
  by_cases hscheme : i.scheme = some plan.targetScheme
  · have hcontent : ∀ {row : DocRow D}, row ∈ i.docs → row.path = text →
        row.contentHash = page.sha256 →
        i.entry text = some ⟨row, i.passagesOf text⟩ ∧
          indexedContent embedder.signature page.path page.content =
            .ok (row.status, i.passagesOf text) := by
      rintro row hrow rfl hhash
      have hentry := Index.entry_of_mem hi.wellFormed.paths hrow
      obtain ⟨content, hsame, hindexed⟩ :=
        hi.contents embedder _ hscheme h.target _ _ hentry
      have heq : content = page.content := by
        apply hdigest
        rw [hsame, validated_page hplan.valid hpage]
        exact hhash
      rw [heq, htext, ← hpath] at hindexed
      exact ⟨hentry, hindexed⟩
    cases hstands with
    | indexed entry hentry hindexes => exact ⟨entry, hentry, hindexes⟩
    | kept row hrow hrowPath hhash hdescribes hentry =>
        obtain ⟨hold, hindexed⟩ := hcontent hrow hrowPath hhash
        exact ⟨_, hentry.trans hold, hdescribes, hindexed⟩
    | touched row doc hrow hrowPath hhash hdescribes hstatus hentry =>
        obtain ⟨hold, hindexed⟩ := hcontent hrow hrowPath hhash
        rw [hold] at hentry
        refine ⟨_, hentry, hdescribes, ?_⟩
        rw [hindexed, ← hstatus]
  · exact hmade (.inl hscheme)

omit [DecidableEq D] in
/-- The scheme of a model determines its signature. -/
theorem embeddingSchemeFor_signature
    (hdigest : Function.Injective (Sha256.digest : Bytes → D)) {e e' : Embedder}
    {scheme : EmbeddingScheme D} (h : embeddingSchemeFor e = .ok scheme)
    (h' : embeddingSchemeFor e' = .ok scheme) : e.signature = e'.signature := by
  have hpreimage : ∀ {e : Embedder}, embeddingSchemeFor e = .ok scheme → ∃ rest,
      scheme.signature = Sha256.digest
        (planText "yams-embedding-scheme-v1".toList ++ (planText e.signature ++ rest)) := by
    intro e he
    unfold embeddingSchemeFor at he
    split at he
    · cases he
    · split at he
      · cases he
      · have hnew := except_mapError_eq_ok.1 he
        unfold EmbeddingScheme.new at hnew
        split at hnew
        · cases hnew
        · obtain rfl := Except.ok.inj hnew
          exact ⟨_, rfl⟩
  obtain ⟨rest, hfirst⟩ := hpreimage h
  obtain ⟨rest', hsecond⟩ := hpreimage h'
  have hbytes := List.append_cancel_left (hdigest (hfirst.symm.trans hsecond))
  exact (planText_delimits _ _ e.signature_fits e'.signature_fits _ _ hbytes).1

/-- A publication over a faithful index is faithful. -/
theorem Publishes.faithful (h : Publishes plan embedder i w)
    (hplan : PlanOf scan embedder mode i.scheme i.docs i plan)
    (hdigest : Function.Injective (Sha256.digest : Bytes → D)) (hi : Faithful i) :
    Faithful w := by
  have hexecutes := h.executes hplan
  have hreconciles := hexecutes.reconciles hplan
  constructor
  · obtain ⟨upserts, staged, hrestaged, -, hstaged, -, hpublished⟩ := h.made
    exact published_wellFormed hpublished (hplan.updates hrestaged).sourced hstaged
      hi.wellFormed
  intro other scheme hscheme hother path entry hentry
  rw [hexecutes.stamped] at hscheme
  obtain rfl := Option.some.inj hscheme
  rw [embeddingSchemeFor_signature hdigest hother h.target]
  by_cases hpresent : isPresent scan path.toBytes = true
  · obtain ⟨page, hpage, hpath, text, htext, found, hfound, hindexes⟩ :=
      indexed_entry hexecutes hplan hdigest hi hpresent
    rw [Text.toBytes_injective htext, hentry] at hfound
    obtain rfl := Option.some.inj hfound
    refine ⟨page.content, ?_, ?_⟩
    · rw [validated_page hplan.valid hpage, hindexes.describes.contentHash]
    · rw [← hpath]
      exact hindexes.content
  · rw [Bool.not_eq_true] at hpresent
    have hmem : path ∈ w.paths := by
      rw [Index.mem_paths_iff, hentry]
      rfl
    have hstays : ¬ PositivelyAbsent scan path.toBytes :=
      fun habsent => hreconciles.gone path hpresent habsent hmem
    have hkept := hreconciles.retained path hpresent hstays
    rw [hentry] at hkept
    by_cases hsame : i.scheme = some plan.targetScheme
    · exact hi.contents embedder _ hsame h.target path entry hkept.symm
    · have hold : path ∈ i.paths := by
        rw [Index.mem_paths_iff, ← hkept]
        rfl
      have hcomplete := hplan.complete
      rw [decide_eq_true hsame] at hcomplete
      exact absurd (absent_of_retained_nil (checkComplete_rebuild hcomplete) hold hpresent)
        hstays

/-! Over whole runs. -/

variable {home : StoreHome}

omit [Sha256 D] in
/-- What every publication keeps holds of every index. -/
theorem linked_holds {P : Index D → Prop} {start now : StoreState D}
    {past : List (StoreEvent D)} (hlinked : Linked home start now past)
    (hstart : ∀ project, P (start.index project))
    (hstep : ∀ newer e older project, past = newer ++ e :: older →
      published e.op e.answer = some project →
        P (e.before.index project) → P (e.after.index project)) :
    ∀ project, P (now.index project) := by
  induction past generalizing now with
  | nil =>
      obtain rfl : now = start := hlinked
      exact hstart
  | cons e past ih =>
      obtain ⟨rfl, hsettle, hrest⟩ := hlinked
      intro project
      have hbefore := ih hrest (fun newer x older other hpast =>
        hstep (e :: newer) x older other (by rw [hpast]; rfl)) project
      by_cases hpublished : published e.op e.answer = some project
      · exact hstep [] e past project rfl hpublished hbefore
      · rw [settle_index hsettle hpublished]
        exact hbefore

/-- Any number of synchronizations of any projects, in any order of their steps: a
publication has every present page, and of all others exactly those go that the scan
shows to be absent. -/
theorem publications_reconcile (home : StoreHome) (jobs : Tid → Job D)
    (start : StoreState D) (pool : StorePool D) (hidle : start.Idle)
    (hsteps : (store home).traced.system.Steps (atWork jobs start) pool)
    (e : StoreEvent D) (he : e ∈ pool.state.past) (project : PathBuf)
    (hpublished : published e.op e.answer = some project) (root : PathBuf)
    (scan : ScanReport D) (embedder : Embedder) (mode : SyncMode)
    (hjob : jobs e.tid = .planAndExecute root scan embedder mode) :
    Reconciles mode scan (e.before.index project) (e.after.index project) := by
  obtain ⟨haccounted, -⟩ := jobs_accounted hidle hsteps
  obtain ⟨newer, older, hpast⟩ := List.append_of_mem he
  obtain ⟨-, hreplaced, -⟩ := publication_replaced
    (steps_linked hsteps rfl) haccounted hpast hpublished
  rw [hjob] at hreplaced
  obtain ⟨-, plan, hplanned, hpublishes⟩ := hreplaced
  exact (hpublishes.executes hplanned.made).reconciles hplanned.made

/-- A run in which every plan is executed by the thread that has made it, from
indexes that are faithful. -/
structure SyncHistory (D : Type) [DecidableEq D] [Sha256 D] where
  home : StoreHome
  jobs : Tid → Job D
  start : StoreState D
  pool : StorePool D
  idle : start.Idle
  faithful : ∀ project, Faithful (start.index project)
  own : ∀ t root plan embedder, jobs t ≠ .executePlan root plan embedder
  steps : (store home).traced.system.Steps (atWork jobs start) pool

namespace SyncHistory

theorem linked (r : SyncHistory D) :
    Linked r.home r.start r.pool.state.now r.pool.state.past :=
  steps_linked r.steps rfl

theorem accounted (r : SyncHistory D) :
    Accounted (fun t => (r.jobs t).Replaces r.home) r.pool.state.past :=
  (jobs_accounted r.idle r.steps).1

theorem faithful_step (r : SyncHistory D)
    (hdigest : Function.Injective (Sha256.digest : Bytes → D))
    {newer older : List (StoreEvent D)} {e : StoreEvent D} {project : PathBuf}
    (hpast : r.pool.state.past = newer ++ e :: older)
    (hpublished : published e.op e.answer = some project)
    (hbefore : Faithful (e.before.index project)) : Faithful (e.after.index project) := by
  obtain ⟨-, hreplaced, -⟩ := publication_replaced r.linked r.accounted hpast hpublished
  cases hjob : r.jobs e.tid with
  | planSync =>
      rw [hjob] at hreplaced
      exact hreplaced.elim
  | executePlan root plan embedder => exact absurd hjob (r.own e.tid root plan embedder)
  | planAndExecute root scan embedder mode =>
      rw [hjob] at hreplaced
      obtain ⟨-, plan, hplanned, hpublishes⟩ := hreplaced
      exact hpublishes.faithful hplanned.made hdigest hbefore
  | collect =>
      rw [hjob] at hreplaced
      exact hreplaced.elim

/-- The indexes before any step of the run are faithful. -/
theorem faithful_before (r : SyncHistory D)
    (hdigest : Function.Injective (Sha256.digest : Bytes → D))
    {newer older : List (StoreEvent D)} {e : StoreEvent D}
    (hpast : r.pool.state.past = newer ++ e :: older) (project : PathBuf) :
    Faithful (e.before.index project) := by
  have hlinked := r.linked
  rw [hpast] at hlinked
  obtain ⟨middle, -, hrest⟩ := linked_append hlinked
  apply linked_holds hrest.2.2 r.faithful
  intro newer' x older' _ holder
  have hsplit : r.pool.state.past = (newer ++ e :: newer') ++ x :: older' := by
    rw [hpast, holder, List.append_assoc]
    rfl
  exact r.faithful_step hdigest hsplit

end SyncHistory

/-- In every state of every run the tables of every index fit together, and what the
index says of a page is what content with the digest of its row says, under the model
that the index is stamped with. -/
theorem indexes_faithful (r : SyncHistory D)
    (hdigest : Function.Injective (Sha256.digest : Bytes → D)) :
    ∀ project, Faithful (r.pool.state.now.index project) :=
  linked_holds r.linked r.faithful fun _ _ _ _ hpast hpublished =>
    r.faithful_step hdigest hpast hpublished

/-! What a success means. -/

/-- The index has each present page as it was scanned, for the model. -/
structure Exact (scan : ScanReport D) (embedder : Embedder) (w : Index D) : Prop where
  wellFormed : w.WellFormed
  stamped : ∃ scheme, embeddingSchemeFor embedder = .ok scheme ∧ w.scheme = some scheme
  indexed : ∀ path, isPresent scan path = true → ∃ page ∈ scan.present, page.path = path ∧
    ∃ text : Text, text.toBytes = path ∧
      ∃ entry, w.entry text = some entry ∧ Indexes embedder.signature page entry

theorem SyncHistory.faithful_after (r : SyncHistory D)
    (hdigest : Function.Injective (Sha256.digest : Bytes → D))
    {newer older : List (StoreEvent D)} {e : StoreEvent D}
    (hpast : r.pool.state.past = newer ++ e :: older) (project : PathBuf) :
    Faithful (e.after.index project) := by
  have hbefore := r.faithful_before hdigest hpast project
  by_cases hpublished : published e.op e.answer = some project
  · exact r.faithful_step hdigest hpast hpublished hbefore
  · have hmem : e ∈ r.pool.state.past := by
      rw [hpast]
      exact List.mem_append_right _ List.mem_cons_self
    rw [settle_index (linked_mem r.linked hmem) hpublished]
    exact hbefore

/-- A synchronization that succeeds has executed a plan of its own over the index that
the plan was made from: it has published it, or has found that nothing is to be done. -/
theorem SyncHistory.executed (r : SyncHistory D) {t : Tid} {root : PathBuf}
    {report : SyncReport} (hjob : r.jobs t = .planAndExecute root scan embedder mode)
    (hdone : r.pool.procs t = .ret (.synchronized (.ok report))) :
    ∃ newer x older plan, r.pool.state.past = newer ++ x :: older ∧ x.tid = t ∧
      (x.after.index (r.home.projectPath root)).generation = report.generation ∧
      PlanOf scan embedder mode (x.before.index (r.home.projectPath root)).scheme
        (x.before.index (r.home.projectPath root)).docs
        (x.before.index (r.home.projectPath root)) plan ∧
      Executes plan embedder (x.before.index (r.home.projectPath root))
        (x.after.index (r.home.projectPath root)) := by
  have hconcludes := ((jobs_accounted r.idle r.steps).2 t _ hdone).concludes report rfl
  rw [hjob] at hconcludes
  obtain ⟨plan, ⟨e, he, hpublished, hgeneration⟩ | ⟨hgeneration, -, ⟨upserts, hrestaged, hnone⟩,
    newer, x, earlier, hown, hplanned, hquiet, hsame⟩⟩ := hconcludes
  · obtain ⟨hmem, htid⟩ := List.mem_filter.1 he
    have htid : e.tid = t := by simpa using htid
    obtain ⟨newer, older, hpast⟩ := List.append_of_mem hmem
    obtain ⟨-, hreplaced, -⟩ :=
      publication_replaced r.linked r.accounted hpast hpublished
    rw [htid, hjob] at hreplaced
    obtain ⟨-, plan', hplanned, hpublishes⟩ := hreplaced
    exact ⟨newer, e, older, plan', hpast, htid, hgeneration, hplanned.made,
      hpublishes.executes hplanned.made⟩
  · have hown : r.pool.state.past.filter (fun e => e.tid = t) = newer ++ x :: earlier := hown
    obtain ⟨l₁, l₂, hsplit, -, hrest⟩ := List.filter_eq_append_iff.1 hown
    obtain ⟨l₃, l₄, hrest, -, hmine, hearlier⟩ := List.filter_eq_cons_iff.1 hrest
    have htid : x.tid = t := by simpa using hmine
    have hpast : r.pool.state.past = (l₁ ++ l₃) ++ x :: l₄ := by
      rw [hsplit, hrest, List.append_assoc]
    have hlinked := r.linked
    have haccounted := r.accounted
    rw [hpast] at hlinked haccounted
    obtain ⟨middle, -, hlast⟩ := linked_append hlinked
    rw [← hearlier, ← htid] at hplanned
    have hmade := (planned_against hlast (accounted_older haccounted) hplanned hsame).made
    have hafter : x.after.index (r.home.projectPath root) =
        x.before.index (r.home.projectPath root) := by
      apply settle_index hlast.2.1
      rw [hquiet]
      exact (Option.some_ne_none _).symm
    refine ⟨l₁ ++ l₃, x, l₄, plan, hpast, htid, ?_, hmade, ?_⟩
    · rw [hafter, hsame, hgeneration]
    · rw [hafter]
      exact executes_idle hmade hrestaged hnone

theorem Executes.exact (h : Executes plan embedder i w)
    (hplan : PlanOf scan embedder mode i.scheme i.docs i plan)
    (hdigest : Function.Injective (Sha256.digest : Bytes → D)) (hi : Faithful i)
    (hw : Faithful w) : Exact scan embedder w :=
  ⟨hw.wellFormed, ⟨_, h.target, h.stamped⟩,
    fun _ hpath => indexed_entry h hplan hdigest hi hpath⟩

/-- A synchronization that succeeds, in whatever company, has at some moment of its run
left the index of the reported generation exact for its scan, and has deleted only what
the scan shows to be absent. -/
theorem synchronize_exact (r : SyncHistory D)
    (hdigest : Function.Injective (Sha256.digest : Bytes → D)) (t : Tid) (root : PathBuf)
    (scan : ScanReport D) (embedder : Embedder) (mode : SyncMode) (report : SyncReport)
    (hjob : r.jobs t = .planAndExecute root scan embedder mode)
    (hdone : r.pool.procs t = .ret (.synchronized (.ok report))) :
    ∃ x ∈ r.pool.state.past, x.tid = t ∧
      (x.after.index (r.home.projectPath root)).generation = report.generation ∧
      Reconciles mode scan (x.before.index (r.home.projectPath root))
        (x.after.index (r.home.projectPath root)) ∧
      Exact scan embedder (x.after.index (r.home.projectPath root)) := by
  obtain ⟨newer, x, older, plan, hpast, htid, hgeneration, hplan, hexecutes⟩ :=
    r.executed hjob hdone
  have hbefore := r.faithful_before hdigest hpast (r.home.projectPath root)
  have hafter := r.faithful_after hdigest hpast (r.home.projectPath root)
  have hmem : x ∈ r.pool.state.past := by
    rw [hpast]
    exact List.mem_append_right _ List.mem_cons_self
  exact ⟨x, hmem, htid, hgeneration, hexecutes.reconciles hplan,
    hexecutes.exact hplan hdigest hbefore hafter⟩

/-! The modes agree. -/

omit [DecidableEq D] in
/-- A page is indexed in one way, up to the generation of its row. -/
theorem Indexes.unique {signature : Text} {page : ScannedPage D} {e e' : PageEntry D}
    (h : Indexes signature page e) (h' : Indexes signature page e') :
    e.undated = e'.undated := by
  have hcontent := h.content.symm.trans h'.content
  obtain ⟨hstatus, hpassages⟩ := Prod.mk.inj (Except.ok.inj hcontent)
  have hpath : e.doc.path = e'.doc.path :=
    Text.toBytes_injective (h.describes.path.trans h'.describes.path.symm)
  have hcorpus := h.describes.corpus.trans h'.describes.corpus.symm
  have hhash := h.describes.contentHash.trans h'.describes.contentHash.symm
  have hlength := Int64.toInt.inj (h.describes.byteLength.trans h'.describes.byteLength.symm)
  have hmodified := Int64.toInt.inj (h.describes.modified.trans h'.describes.modified.symm)
  have hdevice := Int64.toInt.inj (h.describes.device.trans h'.describes.device.symm)
  have hinode := Int64.toInt.inj (h.describes.inode.trans h'.describes.inode.symm)
  unfold PageEntry.undated
  dsimp only
  rw [hpath, hcorpus, hstatus, hhash, hlength, hmodified, hdevice, hinode, hpassages]

/-- Every page of the index is one that the scan presents. -/
def Covers (scan : ScanReport D) (w : Index D) : Prop :=
  ∀ path ∈ w.paths, isPresent scan path.toBytes = true

omit [DecidableEq D] in
theorem Exact.agree {w' : Index D} (h : Exact scan embedder w) (h' : Exact scan embedder w')
    (hscan : (scan.present.map ScannedPage.path).Nodup) (hcovers : Covers scan w)
    (hcovers' : Covers scan w') :
    w.scheme = w'.scheme ∧ ∀ path,
      (w.entry path).map PageEntry.undated = (w'.entry path).map PageEntry.undated ∧
      w.fullTextOf path = w'.fullTextOf path := by
  constructor
  · obtain ⟨scheme, hscheme, hstamped⟩ := h.stamped
    obtain ⟨scheme', hscheme', hstamped'⟩ := h'.stamped
    rw [hstamped, hstamped', Except.ok.inj (hscheme.symm.trans hscheme')]
  intro path
  rw [h.wellFormed.fullTextOf, h'.wellFormed.fullTextOf]
  by_cases hpresent : isPresent scan path.toBytes = true
  · obtain ⟨page, hpage, hpath, text, htext, e, he, hindexes⟩ := h.indexed _ hpresent
    obtain ⟨page', hpage', hpath', text', htext', e', he', hindexes'⟩ :=
      h'.indexed _ hpresent
    obtain rfl := Text.toBytes_injective htext
    obtain rfl := Text.toBytes_injective htext'
    obtain rfl := List.inj_on_of_nodup_map hscan hpage hpage' (hpath.trans hpath'.symm)
    have hsame := hindexes.unique hindexes'
    have hpassages : e.passages = e'.passages := by
      have hundated := congrArg PageEntry.passages hsame
      exact hundated
    rw [he, he', ← Index.entry_passages he, ← Index.entry_passages he', hpassages]
    exact ⟨congrArg some hsame, rfl⟩
  · have hnone : path ∉ w.paths := fun hmem => hpresent (hcovers path hmem)
    have hnone' : path ∉ w'.paths := fun hmem => hpresent (hcovers' path hmem)
    rw [Index.entry_eq_none.2 hnone, Index.entry_eq_none.2 hnone',
      h.wellFormed.passagesOf_eq_nil hnone, h'.wellFormed.passagesOf_eq_nil hnone']
    exact ⟨rfl, rfl⟩

/-- Synchronizations of one scan with one model, each in its own mode, over its own
history and in its own company, leave the same pages, chunks and full text, unless a
page is left that the scan does not present; after a full rebuild none is. -/
theorem modes_agree (r r' : SyncHistory D)
    (hdigest : Function.Injective (Sha256.digest : Bytes → D)) (t t' : Tid)
    (root root' : PathBuf) (scan : ScanReport D) (embedder : Embedder)
    (mode mode' : SyncMode) (report report' : SyncReport)
    (hscan : (scan.present.map ScannedPage.path).Nodup)
    (hjob : r.jobs t = .planAndExecute root scan embedder mode)
    (hdone : r.pool.procs t = .ret (.synchronized (.ok report)))
    (hjob' : r'.jobs t' = .planAndExecute root' scan embedder mode')
    (hdone' : r'.pool.procs t' = .ret (.synchronized (.ok report'))) :
    ∃ w w' : Index D, w.generation = report.generation ∧
      w'.generation = report'.generation ∧
      (∃ x ∈ r.pool.state.past, x.tid = t ∧ x.after.index (r.home.projectPath root) = w) ∧
      (∃ x ∈ r'.pool.state.past, x.tid = t' ∧
        x.after.index (r'.home.projectPath root') = w') ∧
      (mode = .fullRebuild → Covers scan w) ∧ (mode' = .fullRebuild → Covers scan w') ∧
      (Covers scan w → Covers scan w' → w.scheme = w'.scheme ∧ ∀ path,
        (w.entry path).map PageEntry.undated = (w'.entry path).map PageEntry.undated ∧
        w.fullTextOf path = w'.fullTextOf path) := by
  obtain ⟨newer, x, older, plan, hpast, htid, hgeneration, hplan, hexecutes⟩ :=
    r.executed hjob hdone
  obtain ⟨newer', x', older', plan', hpast', htid', hgeneration', hplan', hexecutes'⟩ :=
    r'.executed hjob' hdone'
  have hmem : x ∈ r.pool.state.past := by
    rw [hpast]
    exact List.mem_append_right _ List.mem_cons_self
  have hmem' : x' ∈ r'.pool.state.past := by
    rw [hpast']
    exact List.mem_append_right _ List.mem_cons_self
  have hexact := hexecutes.exact hplan hdigest (r.faithful_before hdigest hpast _)
    (r.faithful_after hdigest hpast _)
  have hexact' := hexecutes'.exact hplan' hdigest (r'.faithful_before hdigest hpast' _)
    (r'.faithful_after hdigest hpast' _)
  refine ⟨_, _, hgeneration, hgeneration', ⟨x, hmem, htid, rfl⟩, ⟨x', hmem', htid', rfl⟩,
    ?_, ?_, hexact.agree hexact' hscan⟩
  · exact fun hmode => ((hexecutes.reconciles hplan).rebuilt hmode).2
  · exact fun hmode => ((hexecutes'.reconciles hplan').rebuilt hmode).2

end

namespace SyncContentsWitness

open SyncHealingWitness

attribute [local instance] SyncHealingWitness.instSha256Bytes

/-- An incremental synchronization, and then a full rebuild. -/
def jobs (t : Tid) : Job Bytes :=
  .planAndExecute root scan embedder (if t = 0 then .incremental else .fullRebuild)

def start : StoreState Bytes := ⟨∅, fun _ => none, [], none⟩

def outcome : Option (StorePool Bytes) :=
  (store home).traced.schedule 4
    (List.replicate 41 (.thread 0 none) ++ List.replicate 44 (.thread 1 none))
    (atWork jobs start)

def pool : StorePool Bytes := outcome.getD (atWork jobs start)

def reported (p : Prog (StoreOp Bytes) StoreAns (Outcome Bytes)) : Option SyncReport :=
  match p with
  | .ret (.synchronized (.ok report)) => some report
  | _ => none

theorem reported_eq_some {p : Prog (StoreOp Bytes) StoreAns (Outcome Bytes)}
    {report : SyncReport} (h : reported p = some report) :
    p = .ret (.synchronized (.ok report)) := by
  unfold reported at h
  split at h
  · obtain rfl := Option.some.inj h
    rfl
  · cases h

def firstReport : SyncReport := ⟨1, 0, 1, 1, []⟩

def secondReport : SyncReport := ⟨1, 0, 0, 2, []⟩

/-- Both threads succeed, the second one has published, and the page is indexed. -/
theorem outcome_pool : outcome = some pool ∧
    reported (pool.procs 0) = some firstReport ∧
    reported (pool.procs 1) = some secondReport ∧
    (pool.state.past.any fun e => e.tid = 1 ∧ published e.op e.answer = some root) = true ∧
    (pool.state.now.index root).paths = [path] := by
  have hfacts : outcome.map (fun pool =>
      (reported (pool.procs 0), reported (pool.procs 1),
        pool.state.past.any fun e => e.tid = 1 ∧ published e.op e.answer = some root,
        (pool.state.now.index root).paths)) =
      some (some firstReport, some secondReport, true, [path]) := by
    unfold outcome atWork Job.program synchronize planSynchronization executeSyncPlan
      admitPlan embeddingSchemeFor
    repeat rw [String.toList_ofList]
    decide +kernel
  obtain ⟨value, hvalue, hpair⟩ := Option.map_eq_some_iff.1 hfacts
  have hpool : pool = value := by
    unfold pool
    rw [hvalue]
    rfl
  rw [hpool]
  simp only [Prod.mk.injEq] at hpair
  exact ⟨hvalue, hpair⟩

theorem start_idle : start.Idle := fun _ _ => rfl

def history : SyncHistory Bytes where
  home := home
  jobs := jobs
  start := start
  pool := pool
  idle := start_idle
  faithful _ := faithful_initial
  own := by
    intro t root plan embedder h
    cases h
  steps := schedule_steps outcome_pool.1

theorem history_pool : history.pool = pool := rfl

theorem history_first :
    history.pool.procs 0 = .ret (.synchronized (.ok firstReport)) := by
  rw [history_pool]
  exact reported_eq_some outcome_pool.2.1

theorem history_second :
    history.pool.procs 1 = .ret (.synchronized (.ok secondReport)) := by
  rw [history_pool]
  exact reported_eq_some outcome_pool.2.2.1

theorem digest_injective : Function.Injective (Sha256.digest : Bytes → Bytes) :=
  fun _ _ h => h

theorem publications_reconcile_rebuild : ∃ e ∈ pool.state.past, e.tid = 1 ∧
    Reconciles .fullRebuild scan (e.before.index root) (e.after.index root) := by
  obtain ⟨e, he, hevent⟩ := List.any_eq_true.1 outcome_pool.2.2.2.1
  obtain ⟨htid, hpublished⟩ := of_decide_eq_true hevent
  refine ⟨e, he, htid, ?_⟩
  have hjob : jobs e.tid = .planAndExecute root scan embedder .fullRebuild := by
    rw [htid]
    rfl
  exact publications_reconcile home jobs start pool start_idle
    (schedule_steps outcome_pool.1) e he root hpublished root scan embedder .fullRebuild hjob

theorem indexes_faithful_page :
    (pool.state.now.index root).paths = [path] ∧ Faithful (pool.state.now.index root) :=
  ⟨outcome_pool.2.2.2.2, indexes_faithful history digest_injective root⟩

theorem synchronize_exact_page : ∃ w : Index Bytes, w.generation = 1 ∧
    Exact scan embedder w := by
  obtain ⟨x, -, -, hgeneration, -, hexact⟩ := synchronize_exact history digest_injective 0
    root scan embedder .incremental firstReport rfl history_first
  exact ⟨_, hgeneration, hexact⟩

theorem modes_agree_page : ∃ w w' : Index Bytes, w.generation = 1 ∧ w'.generation = 2 ∧
    (Covers scan w → ∀ path,
      (w.entry path).map PageEntry.undated = (w'.entry path).map PageEntry.undated) := by
  have hscan : (scan.present.map ScannedPage.path).Nodup := List.nodup_singleton _
  obtain ⟨w, w', hw, hw', -, -, -, hcovers, hagree⟩ :=
    modes_agree history history digest_injective 0 1 root root scan embedder
      .incremental .fullRebuild firstReport secondReport hscan rfl history_first rfl
      history_second
  exact ⟨w, w', hw, hw', fun hcovered path =>
    ((hagree hcovered (hcovers rfl)).2 path).1⟩

end SyncContentsWitness

end Yams.Store
