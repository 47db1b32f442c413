/-
A publication page by page: each present page is indexed as it was scanned, each
page that is positively absent goes, and all others stay as they were.
-/
import Yams.PageMap
import Yams.SyncExecution
import Yams.SyncHealing

namespace Yams.Store

section

variable {D : Type} [Sha256 D]

/-! What a page is indexed as. -/

/-- The chunks of a page, each under the key of its text for one model. -/
def passagesFor (signature : Text) (chunks : List Chunk) :
    Except (SyncError D) (List (Passage D)) :=
  chunks.mapM fun chunk => do
    let key ← (vectorKey signature .passage chunk.embedText).mapError SyncError.vector
    return ⟨chunk.ordinal.toNat, chunk.text, chunk.embedText, key⟩

/-- The status and the passages of a page with this content. -/
def indexedContent (signature : Text) (path : PathBuf) (content : Bytes) :
    Except (SyncError D) (Option Text × List (Passage D)) :=
  match Text.fromUtf8 content with
  | none => .error (.invalidUtf8 path)
  | some source => do
      let chunks ← (chunksForPage path source).mapError .chunk
      let passages ← passagesFor signature chunks
      return (pageStatus source, passages)

/-- A row gives the metadata of a scanned page. -/
structure Describes (page : ScannedPage D) (row : DocRow D) : Prop where
  path : row.path.toBytes = page.path
  corpus : row.corpus = corpusLabel page.corpus
  contentHash : row.contentHash = page.sha256
  byteLength : row.byteLength.toInt = page.byteLen.toNat
  modified : row.mtimeNs.toInt = page.modifiedNs
  device : row.device.toInt = page.device.toNat
  inode : row.inode.toInt = page.inode.toNat

/-- An entry is that of a scanned page, for one model. -/
structure Indexes (signature : Text) (page : ScannedPage D) (entry : PageEntry D) :
    Prop where
  describes : Describes page entry.doc
  content : indexedContent signature page.path page.content =
    .ok (entry.doc.status, entry.passages)

omit [Sha256 D] in
theorem map_eq_of_forall₂ {α β γ : Type} {f : α → γ} {g : β → γ} {xs : List α}
    {ys : List β} (h : List.Forall₂ (fun x y => f x = g y) xs ys) : xs.map f = ys.map g := by
  induction h with
  | nil => rfl
  | cons hhead _ ih => rw [List.map_cons, List.map_cons, hhead, ih]

theorem sqliteInteger_toInt {value : UInt64} {page : ScannedPage D} {field : Text}
    {n : Int64} (h : sqliteInteger value page field = .ok n) : n.toInt = value.toNat := by
  unfold sqliteInteger at h
  split at h
  next hlt =>
    obtain rfl := Except.ok.inj h
    exact Int64.toInt_ofNat_of_lt hlt
  · cases h

theorem modifiedNanoseconds_toInt {page : ScannedPage D} {n : Int64}
    (h : modifiedNanoseconds page = .ok n) : n.toInt = page.modifiedNs := by
  unfold modifiedNanoseconds at h
  split at h
  next hbounds =>
    obtain rfl := Except.ok.inj h
    rw [Int64.toInt_ofInt]
    apply Int.bmod_eq_of_le
    · exact hbounds.1
    · exact hbounds.2
  · cases h

/-- The row of an update gives the metadata of its page. -/
theorem pageUpsert_describes {page : ScannedPage D} {status : Option Text}
    {chunks : List Chunk} {kind : UpsertKind} {u : PageUpsert D}
    (h : pageUpsert page status chunks kind = .ok u) (generation : Int64) :
    Describes page (u.row generation) ∧ u.status = status ∧ u.chunks = chunks := by
  unfold pageUpsert at h
  split at h
  · cases h
  next path hpath =>
    obtain ⟨byteLength, hlength, h⟩ := except_bind_eq_ok.1 h
    obtain ⟨modifiedNs, hmodified, h⟩ := except_bind_eq_ok.1 h
    obtain ⟨device, hdevice, h⟩ := except_bind_eq_ok.1 h
    obtain ⟨inode, hinode, h⟩ := except_bind_eq_ok.1 h
    obtain rfl := Except.ok.inj h
    exact ⟨⟨Text.toBytes_of_fromUtf8 hpath, rfl, rfl, sqliteInteger_toInt hlength,
      modifiedNanoseconds_toInt hmodified, sqliteInteger_toInt hdevice,
      sqliteInteger_toInt hinode⟩, rfl, rfl⟩

/-- The staged chunks of a page are its passages. -/
theorem stageForEmbedding_passages {signature : Text} {u : PageUpsert D}
    {e : StagedPage D} (h : stageForEmbedding signature u = .ok e) :
    passagesFor signature u.chunks = .ok (e.chunks.map StagedChunk.passage) ∧
      e.chunks.map StagedChunk.ordinal = u.chunks.map Chunk.ordinal := by
  unfold stageForEmbedding at h
  obtain ⟨chunks, hchunks, h⟩ := except_bind_eq_ok.1 h
  obtain rfl := Except.ok.inj h
  have hpairs := mapM_eq_ok_iff.1 hchunks
  have hone : ∀ {chunk : Chunk} {c : StagedChunk D}, (do
      let key ← (vectorKey signature .passage chunk.embedText).mapError SyncError.vector
      return ⟨chunk.ordinal, chunk.text, chunk.embedText, key⟩ :
        Except (SyncError D) (StagedChunk D)) = .ok c →
      (do
        let key ← (vectorKey signature .passage chunk.embedText).mapError SyncError.vector
        return ⟨chunk.ordinal.toNat, chunk.text, chunk.embedText, key⟩ :
          Except (SyncError D) (Passage D)) = .ok c.passage ∧
        c.ordinal = chunk.ordinal := by
    intro chunk c hc
    obtain ⟨key, hkey, hc⟩ := except_bind_eq_ok.1 hc
    obtain rfl := Except.ok.inj hc
    rw [hkey]
    exact ⟨rfl, rfl⟩
  constructor
  · apply mapM_eq_ok_iff.2
    rw [List.forall₂_map_right_iff]
    exact hpairs.imp fun _ _ hc => (hone hc).1
  · exact (map_eq_of_forall₂ (hpairs.imp fun _ _ hc => (hone hc).2.symm)).symm

theorem stagePages_mem {signature : Text} {upserts : List (PageUpsert D)}
    {staged : List (StagedPage D)} (h : stagePages signature upserts = .ok staged)
    {e : StagedPage D} (he : e ∈ staged) : stageForEmbedding signature e.page = .ok e := by
  obtain ⟨u, -, heq⟩ := (mapM_mem h).2.1 e he
  rw [(stageForEmbedding_page heq).1]
  exact heq

/-- The passages of a page have different ordinals. -/
theorem chunksForPage_ordinals {path : PathBuf} {source : Text} {chunks : List Chunk}
    (h : chunksForPage path source = .ok chunks) :
    (chunks.map Chunk.ordinal).Nodup := by
  unfold chunksForPage at h
  have hpairs := mapM_eq_ok_iff.1 h
  have hordinals : (chunk (parseFrontmatter source).body).zipIdx.map Prod.snd =
      chunks.map fun c => c.ordinal.toNat := by
    apply map_eq_of_forall₂
    apply hpairs.imp
    rintro ⟨text, ordinal⟩ c hc
    dsimp only at hc
    unfold chunkAt at hc
    split at hc
    next hlt =>
      obtain rfl := Except.ok.inj hc
      exact (UInt32.toNat_ofNat_of_lt hlt).symm
    · cases hc
  have hnodup : (chunks.map fun c => c.ordinal.toNat).Nodup := by
    rw [← hordinals, List.zipIdx_map_snd]
    exact List.nodup_range'
  have hmap : chunks.map (fun c => c.ordinal.toNat) =
      (chunks.map Chunk.ordinal).map UInt32.toNat := by
    rw [List.map_map]
    rfl
  rw [hmap] at hnodup
  exact List.Nodup.of_map _ hnodup

/-- A replacement puts the page itself into the index. -/
theorem planPage_indexes {signature : Text} {page : ScannedPage D} {u : PageUpsert D}
    {e : StagedPage D} (h : planPage page = .ok u)
    (hstaged : stageForEmbedding signature u = .ok e) (generation : Int64) :
    Indexes signature page ⟨u.row generation, e.chunks.map StagedChunk.passage⟩ := by
  unfold planPage at h
  split at h
  · cases h
  next source hsource =>
    obtain ⟨chunks, hchunks, h⟩ := except_bind_eq_ok.1 h
    obtain ⟨hdescribes, hstatus, hsame⟩ := pageUpsert_describes h generation
    refine ⟨hdescribes, ?_⟩
    have hpassages := (stageForEmbedding_passages hstaged).1
    rw [hsame] at hpassages
    unfold indexedContent
    rw [hsource]
    dsimp only
    rw [hchunks]
    change (do
      let passages ← passagesFor signature chunks
      return (pageStatus source, passages)) = Except.ok (u.status, _)
    rw [hpassages, hstatus]
    rfl

theorem planPage_ordinals {page : ScannedPage D} {u : PageUpsert D}
    (h : planPage page = .ok u) : (u.chunks.map Chunk.ordinal).Nodup := by
  unfold planPage at h
  split at h
  · cases h
  · obtain ⟨chunks, hchunks, h⟩ := except_bind_eq_ok.1 h
    rw [(pageUpsert_describes h 0).2.2]
    exact chunksForPage_ordinals (except_mapError_eq_ok.1 hchunks)

variable [DecidableEq D]

omit [Sha256 D] [DecidableEq D] in
theorem matchesThen_true {stored : Int64} {value : Except (SyncError D) Int64}
    {rest : Except (SyncError D) Bool} (h : matchesThen stored value rest = .ok true) :
    value = .ok stored ∧ rest = .ok true := by
  unfold matchesThen at h
  obtain ⟨found, hfound, h⟩ := except_bind_eq_ok.1 h
  split at h
  next heq =>
    subst heq
    exact ⟨hfound, h⟩
  · cases h

/-- A row that matches a page gives its metadata. -/
theorem metadataMatches_describes {row : DocRow D} {page : ScannedPage D}
    (hpath : row.path.toBytes = page.path)
    (h : (ExistingDoc.ofRow row).metadataMatches page = .ok true) : Describes page row := by
  unfold ExistingDoc.metadataMatches at h
  split at h
  next hsame =>
    obtain ⟨hlength, h⟩ := matchesThen_true h
    obtain ⟨hmodified, h⟩ := matchesThen_true h
    obtain ⟨hdevice, h⟩ := matchesThen_true h
    obtain ⟨hinode, -⟩ := matchesThen_true h
    exact ⟨hpath, hsame.1, hsame.2, sqliteInteger_toInt hlength,
      modifiedNanoseconds_toInt hmodified, sqliteInteger_toInt hdevice,
      sqliteInteger_toInt hinode⟩
  · cases h

/-! How a plan treats a present page. -/

/-- The page at a path is replaced; or the index has its bytes already, and then it
is left alone when its metadata are the same, or gets its new metadata. -/
def Treated (mode : SyncMode) (scan : ScanReport D) (existing : List (ExistingDoc D))
    (rebuild : Bool) (upserts : List (PageUpsert D)) (path : PathBuf) : Prop :=
  ∃ page ∈ scan.present, page.path = path ∧
    ((∃ u ∈ upserts, planPage page = .ok u) ∨
      mode = .incremental ∧ rebuild = false ∧
        ∃ prior, findExisting existing path = some prior ∧
          prior.contentHash = page.sha256 ∧
          (prior.metadataMatches page = .ok true ∧ (∀ u ∈ upserts, u.source.path ≠ path) ∨
            ∃ u ∈ upserts, planMetadataPage page prior.status = .ok u))

omit [DecidableEq D] in
theorem mem_presentPages {scan : ScanReport D} {page : ScannedPage D}
    (h : page ∈ presentPages scan) : page ∈ scan.present :=
  lastByPath_subset ((List.mergeSort_perm _ _).mem_iff.1 h)

omit [DecidableEq D] [Sha256 D] in
theorem except_map_some {α ε : Type} {r : Except ε α} {a : Option α}
    (h : r.map some = .ok a) : ∃ x, r = .ok x ∧ a = some x := by
  cases r with
  | error e => cases h
  | ok x => exact ⟨x, rfl, (Except.ok.inj h).symm⟩

theorem planUpserts_treated {mode : SyncMode} {scan : ScanReport D}
    {existing : List (ExistingDoc D)} {rebuild : Bool} {missing : List PathBuf}
    {upserts : List (PageUpsert D)}
    (h : planUpserts mode scan existing rebuild missing = .ok upserts) {path : PathBuf}
    (hpresent : isPresent scan path = true) :
    Treated mode scan existing rebuild upserts path := by
  obtain ⟨page, hpage, -, hpath⟩ := findPage_present hpresent
  refine ⟨page, mem_presentPages hpage, hpath, ?_⟩
  unfold planUpserts at h
  obtain ⟨planned, hplanned, h⟩ := except_bind_eq_ok.1 h
  obtain rfl := Except.ok.inj h
  obtain ⟨-, hsound, hcomplete⟩ := mapM_mem hplanned
  obtain ⟨result, hresult, hplan⟩ := hcomplete page hpage
  have hdecided := hplan
  unfold planUpsert at hplan
  dsimp only at hplan
  split at hplan
  · obtain ⟨u, hu, rfl⟩ := except_map_some hplan
    exact .inl ⟨u, List.reduceOption_mem_iff.2 hresult, hu⟩
  next prior hprior =>
    split at hplan
    · obtain ⟨u, hu, rfl⟩ := except_map_some hplan
      exact .inl ⟨u, List.reduceOption_mem_iff.2 hresult, hu⟩
    next hfresh =>
      push Not at hfresh
      obtain ⟨⟨hmode, hrebuild, -⟩, hhash⟩ := hfresh
      have hincremental : mode = .incremental := by
        cases mode with
        | incremental => rfl
        | fullRebuild => exact absurd rfl hmode
      rw [hpath] at hprior
      refine .inr ⟨hincremental, by simpa using hrebuild, prior, hprior, hhash, ?_⟩
      obtain ⟨same, hsame, hplan⟩ := except_bind_eq_ok.1 hplan
      split at hplan
      next htrue =>
        obtain rfl := Except.ok.inj hplan
        rw [htrue] at hsame
        refine .inl ⟨hsame, ?_⟩
        intro u hu heq
        obtain ⟨other, hother, hplanOther⟩ :=
          hsound (some u) (List.reduceOption_mem_iff.1 hu)
        have hsource := (planUpsert_source hplanOther).1
        have hunique : other = page := by
          apply List.inj_on_of_nodup_map (presentPages_nodup scan) hother hpage
          rw [← hsource, heq, hpath]
        rw [hunique, hdecided] at hplanOther
        cases Except.ok.inj hplanOther
      · obtain ⟨u, hu, rfl⟩ := except_map_some hplan
        exact .inr ⟨u, List.reduceOption_mem_iff.2 hresult, hu⟩

omit [DecidableEq D] in
theorem mem_putUpsert (upserts : List (PageUpsert D)) (u : PageUpsert D) :
    u ∈ putUpsert upserts u ∧
      (∀ other ∈ upserts, other.source.path ≠ u.source.path → other ∈ putUpsert upserts u) ∧
      ∀ other ∈ putUpsert upserts u, other = u ∨ other ∈ upserts := by
  unfold putUpsert
  split
  next hany =>
    obtain ⟨old, hold, heq⟩ := List.any_eq_true.1 hany
    refine ⟨List.mem_map.2 ⟨old, hold, if_pos (by simpa using heq)⟩, ?_, ?_⟩
    · intro other hother hne
      exact List.mem_map.2 ⟨other, hother, if_neg hne⟩
    · intro other hother
      obtain ⟨before, hbefore, rfl⟩ := List.mem_map.1 hother
      split
      · exact .inl rfl
      · exact .inr hbefore
  · refine ⟨List.mem_append_right _ List.mem_cons_self, ?_, ?_⟩
    · intro other hother _
      exact List.mem_append_left _ hother
    · intro other hother
      rcases List.mem_append.1 hother with hold | hnew
      · exact .inr hold
      · exact .inl (List.mem_singleton.1 hnew)

/-- A replacement is put in for its own path only. -/
theorem Treated.putUpsert {mode : SyncMode} {scan : ScanReport D}
    {existing : List (ExistingDoc D)} {rebuild : Bool} {upserts : List (PageUpsert D)}
    {path : PathBuf} (h : Treated mode scan existing rebuild upserts path)
    {page : ScannedPage D} (hpage : page ∈ scan.present) {u : PageUpsert D}
    (hu : planPage page = .ok u) :
    Treated mode scan existing rebuild (Store.putUpsert upserts u) path := by
  obtain ⟨hnew, hkept, hold⟩ := mem_putUpsert upserts u
  obtain ⟨hsource, -, -⟩ := planPage_source hu
  by_cases hsame : u.source.path = path
  · refine ⟨page, hpage, ?_, .inl ⟨u, hnew, hu⟩⟩
    rw [← hsource, hsame]
  obtain ⟨found, hfound, hpath, htreated⟩ := h
  have hstays : ∀ {other : PageUpsert D}, other.source = found → other ∈ upserts →
      other ∈ Store.putUpsert upserts u := by
    intro other hother hmem
    apply hkept other hmem
    rw [hother, hpath]
    exact Ne.symm hsame
  refine ⟨found, hfound, hpath, ?_⟩
  rcases htreated with ⟨other, hother, hplan⟩ | ⟨hmode, hrebuild, prior, hprior, hhash, htreated⟩
  · exact .inl ⟨other, hstays (planPage_source hplan).1 hother, hplan⟩
  · refine .inr ⟨hmode, hrebuild, prior, hprior, hhash, ?_⟩
    rcases htreated with ⟨hmatches, hnone⟩ | ⟨other, hother, hplan⟩
    · refine .inl ⟨hmatches, ?_⟩
      intro other hother
      rcases hold other hother with rfl | hmem
      · exact hsame
      · exact hnone other hmem
    · exact .inr ⟨other, hstays (pageUpsert_source hplan).1 hother, hplan⟩

/-- Each update is that of a present page, and a replacement has its chunks. -/
def Sourced (scan : ScanReport D) (upserts : List (PageUpsert D)) : Prop :=
  ∀ u ∈ upserts, u.source ∈ scan.present ∧
    (u.kind = .replace → planPage u.source = .ok u)

theorem planUpsert_sourced {mode : SyncMode} {existing : List (ExistingDoc D)}
    {rebuild : Bool} {missing : List PathBuf} {page : ScannedPage D} {u : PageUpsert D}
    (h : planUpsert mode existing rebuild missing page = .ok (some u)) :
    u.source = page ∧ (u.kind = .replace → planPage u.source = .ok u) := by
  have hreplaced : (planPage page).map some = .ok (some u) →
      u.source = page ∧ (u.kind = .replace → planPage u.source = .ok u) := by
    intro hmap
    obtain ⟨x, hx, heq⟩ := except_map_some hmap
    obtain rfl := Option.some.inj heq
    have hsource := (planPage_source hx).1
    exact ⟨hsource, fun _ => hsource ▸ hx⟩
  unfold planUpsert at h
  dsimp only at h
  split at h
  · exact hreplaced h
  · split at h
    · exact hreplaced h
    · obtain ⟨same, -, h⟩ := except_bind_eq_ok.1 h
      split at h
      · cases h
      · obtain ⟨x, hx, heq⟩ := except_map_some h
        obtain rfl := Option.some.inj heq
        obtain ⟨hsource, -, hkind⟩ := pageUpsert_source hx
        refine ⟨hsource, fun hreplace => ?_⟩
        rw [hkind] at hreplace
        cases hreplace

theorem planUpserts_sourced {mode : SyncMode} {scan : ScanReport D}
    {existing : List (ExistingDoc D)} {rebuild : Bool} {missing : List PathBuf}
    {upserts : List (PageUpsert D)}
    (h : planUpserts mode scan existing rebuild missing = .ok upserts) :
    Sourced scan upserts := by
  unfold planUpserts at h
  obtain ⟨planned, hplanned, h⟩ := except_bind_eq_ok.1 h
  obtain rfl := Except.ok.inj h
  intro u hu
  obtain ⟨page, hpage, hplan⟩ :=
    (mapM_mem hplanned).2.1 (some u) (List.reduceOption_mem_iff.1 hu)
  obtain ⟨hsource, hreplaced⟩ := planUpsert_sourced hplan
  rw [hsource]
  exact ⟨mem_presentPages hpage, fun hkind => hsource ▸ hreplaced hkind⟩

/-- What is known of the updates of a plan, before and after some are made again. -/
structure Updates (mode : SyncMode) (scan : ScanReport D) (existing : List (ExistingDoc D))
    (rebuild : Bool) (upserts : List (PageUpsert D)) : Prop where
  distinct : Distinct upserts
  sourced : Sourced scan upserts
  treated : ∀ path, isPresent scan path = true →
    Treated mode scan existing rebuild upserts path

theorem planUpserts_updates {mode : SyncMode} {scan : ScanReport D}
    {existing : List (ExistingDoc D)} {rebuild : Bool} {missing : List PathBuf}
    {upserts : List (PageUpsert D)}
    (h : planUpserts mode scan existing rebuild missing = .ok upserts) :
    Updates mode scan existing rebuild upserts :=
  ⟨planUpserts_distinct h, planUpserts_sourced h, fun _ => planUpserts_treated h⟩

theorem Updates.putUpsert {mode : SyncMode} {scan : ScanReport D}
    {existing : List (ExistingDoc D)} {rebuild : Bool} {upserts : List (PageUpsert D)}
    (h : Updates mode scan existing rebuild upserts) {page : ScannedPage D}
    (hpage : page ∈ scan.present) {u : PageUpsert D} (hu : planPage page = .ok u) :
    Updates mode scan existing rebuild (Store.putUpsert upserts u) := by
  obtain ⟨hsource, hnamed, -⟩ := planPage_source hu
  refine ⟨putUpsert_distinct h.distinct (by rw [hsource, hnamed]), ?_,
    fun path hpath => (h.treated path hpath).putUpsert hpage hu⟩
  intro other hother
  rcases (mem_putUpsert _ _).2.2 other hother with rfl | hold
  · rw [hsource]
    exact ⟨hpage, fun _ => hu⟩
  · exact h.sourced other hold

theorem Updates.restage {mode : SyncMode} {scan : ScanReport D}
    {existing : List (ExistingDoc D)} {rebuild : Bool}
    {upserts restaged : List (PageUpsert D)} {paths : List PathBuf}
    (h : Updates mode scan existing rebuild upserts)
    (hrestaged : Store.restage scan upserts paths = .ok restaged) :
    Updates mode scan existing rebuild restaged := by
  induction paths generalizing upserts with
  | nil =>
      cases hrestaged
      exact h
  | cons path paths ih =>
      unfold Store.restage at hrestaged
      rw [List.foldlM_cons] at hrestaged
      obtain ⟨next, hnext, hrest⟩ := except_bind_eq_ok.1 hrestaged
      split at hnext
      · cases hnext
      next page hpage =>
        cases hplan : planPage page with
        | error e =>
            rw [hplan] at hnext
            cases hnext
        | ok u =>
            rw [hplan] at hnext
            obtain rfl := Except.ok.inj hnext
            exact ih (h.putUpsert (List.mem_of_find?_eq_some hpage) hplan) hrest

theorem Updates.perm {mode : SyncMode} {scan : ScanReport D}
    {existing : List (ExistingDoc D)} {rebuild : Bool} {upserts other : List (PageUpsert D)}
    (h : Updates mode scan existing rebuild upserts) (hperm : other.Perm upserts) :
    Updates mode scan existing rebuild other := by
  refine ⟨h.distinct.perm hperm, fun u hu => h.sourced u (hperm.mem_iff.1 hu), ?_⟩
  intro path hpath
  obtain ⟨page, hpage, hsame, htreated⟩ := h.treated path hpath
  refine ⟨page, hpage, hsame, ?_⟩
  rcases htreated with ⟨u, hu, hplan⟩ | ⟨hmode, hrebuild, prior, hprior, hhash, htreated⟩
  · exact .inl ⟨u, hperm.mem_iff.2 hu, hplan⟩
  · refine .inr ⟨hmode, hrebuild, prior, hprior, hhash, ?_⟩
    rcases htreated with ⟨hmatches, hnone⟩ | ⟨u, hu, hplan⟩
    · exact .inl ⟨hmatches, fun u hu => hnone u (hperm.mem_iff.1 hu)⟩
    · exact .inr ⟨u, hperm.mem_iff.2 hu, hplan⟩

/-! What the writes make of an entry. -/

/-- What the update of a page writes over the entry that was there. -/
def writtenEntry (staged : List (StagedPage D)) (generation : Int64) (u : PageUpsert D)
    (prior : Option (PageEntry D)) : Option (PageEntry D) :=
  match u.kind with
  | .replace =>
      (staged.reverse.find? fun e => e.page.path = u.path).map fun e =>
        ⟨e.page.row generation, e.chunks.map StagedChunk.passage⟩
  | .metadataOnly => prior.map fun entry => { entry with doc := u.row generation }

omit [DecidableEq D] in
theorem upsertUpdate_entry {staged : List (StagedPage D)} {generation : Int64}
    {u : PageUpsert D} {change : Update D}
    (h : upsertUpdate staged generation u = .ok change) (w : Index D) (path : Text) :
    (change.apply w).entry path =
      if u.path = path then writtenEntry staged generation u (w.entry path)
      else w.entry path := by
  rw [Index.entry_apply]
  unfold upsertUpdate at h
  unfold writtenEntry
  cases hkind : u.kind with
  | replace =>
      rw [hkind] at h
      dsimp only at h ⊢
      split at h
      next e hfind =>
        obtain rfl := Except.ok.inj h
        have hpath : e.page.path = u.path := by simpa using List.find?_some hfind
        rw [hfind]
        change (if e.page.path = path then _ else _) = _
        by_cases hsame : u.path = path
        · rw [if_pos (hpath.trans hsame), if_pos hsame]
          rfl
        · rw [if_neg (hpath.trans_ne hsame), if_neg hsame]
      · cases h
  | metadataOnly =>
      rw [hkind] at h
      obtain rfl := Except.ok.inj h
      rfl

omit [DecidableEq D] in
/-- Updates of different pages are written independently. -/
theorem upsertUpdates_entry {staged : List (StagedPage D)} {generation : Int64}
    {pages : List (PageUpsert D)} {changes : List (Update D)}
    (h : pages.mapM (upsertUpdate staged generation) = .ok changes)
    (hnodup : (pages.map PageUpsert.path).Nodup) (w : Index D) (path : Text) :
    (applyAll changes w).entry path =
      match pages.find? fun u => u.path = path with
      | some u => writtenEntry staged generation u (w.entry path)
      | none => w.entry path := by
  induction pages generalizing changes w with
  | nil =>
      cases h
      rfl
  | cons u pages ih =>
      rw [List.mapM_cons] at h
      obtain ⟨change, hchange, h⟩ := except_bind_eq_ok.1 h
      obtain ⟨rest, hrest, h⟩ := except_bind_eq_ok.1 h
      obtain rfl := Except.ok.inj h
      rw [List.map_cons, List.nodup_cons] at hnodup
      rw [applyAll_cons, ih hrest hnodup.2, upsertUpdate_entry hchange, List.find?_cons]
      by_cases hpath : u.path = path
      · have hnone : (pages.find? fun u => u.path = path) = none := by
          rw [List.find?_eq_none]
          intro other hother heq
          apply hnodup.1
          rw [hpath, ← show other.path = path by simpa using heq]
          exact List.mem_map_of_mem hother
        rw [hnone]
        simp [hpath]
      · simp [hpath]

omit [DecidableEq D] [Sha256 D] in
theorem deletionUpdates_entry {paths : List PathBuf} {changes : List (Update D)}
    (h : paths.mapM deletionUpdate = .ok changes) (w : Index D) (path : Text) :
    (applyAll changes w).entry path =
      if path.toBytes ∈ paths then none else w.entry path := by
  induction paths generalizing changes w with
  | nil =>
      cases h
      simp [applyAll]
  | cons deleted paths ih =>
      rw [List.mapM_cons] at h
      obtain ⟨change, hchange, h⟩ := except_bind_eq_ok.1 h
      obtain ⟨rest, hrest, h⟩ := except_bind_eq_ok.1 h
      obtain rfl := Except.ok.inj h
      rw [applyAll_cons, ih hrest, Index.entry_apply]
      unfold deletionUpdate at hchange
      split at hchange
      next text htext =>
        obtain rfl := Except.ok.inj hchange
        have hiff : text = path ↔ path.toBytes = deleted := by
          constructor
          · rintro rfl
            exact Text.toBytes_of_fromUtf8 htext
          · intro heq
            apply Text.toBytes_injective
            rw [heq, Text.toBytes_of_fromUtf8 htext]
        unfold Index.entryAfter
        dsimp only
        simp only [List.mem_cons, hiff]
        by_cases hlater : path.toBytes ∈ paths
        · simp [hlater]
        · simp [hlater]
      · cases hchange

/-- The entries that a plan leaves before its updates. -/
def keptEntry (plan : SyncPlan D) (i : Index D) (path : Text) : Option (PageEntry D) :=
  if plan.mode = .fullRebuild ∨ path.toBytes ∈ plan.deletions then none else i.entry path

/-- What the writes of a plan make of every entry. -/
def Written (plan : SyncPlan D) (upserts : List (PageUpsert D))
    (staged : List (StagedPage D)) (generation : Int64) (i w : Index D) : Prop :=
  ∀ path, w.entry path =
    match upserts.find? fun u => u.path = path with
    | some u => writtenEntry staged generation u (keptEntry plan i path)
    | none => keptEntry plan i path

omit [DecidableEq D] in
theorem published_written {plan : SyncPlan D} {upserts : List (PageUpsert D)}
    {staged : List (StagedPage D)} {generation : Int64} {i w : Index D}
    (h : Published plan upserts staged generation i w) (hdistinct : Distinct upserts) :
    Written plan upserts staged generation i w := by
  intro path
  obtain ⟨deletions, changes, hdeletions, hchanges, rfl⟩ := h.changed
  have hnodup : (upserts.map PageUpsert.path).Nodup := by
    have hsame : upserts.map (Text.toBytes ∘ PageUpsert.path) =
        upserts.map fun u => u.source.path := List.map_congr_left hdistinct.named
    apply List.Nodup.of_map Text.toBytes
    rw [List.map_map, hsame]
    exact hdistinct.nodup
  have hkept : (applyAll deletions i).entry path = keptEntry plan i path := by
    unfold deletionChanges at hdeletions
    unfold keptEntry
    cases hmode : plan.mode with
    | fullRebuild =>
        rw [hmode] at hdeletions
        obtain rfl := Except.ok.inj hdeletions
        rw [if_pos (.inl rfl)]
        rfl
    | incremental =>
        rw [hmode] at hdeletions
        rw [deletionUpdates_entry hdeletions]
        simp
  change (applyAll changes (applyAll deletions i)).entry path = _
  rw [upsertUpdates_entry hchanges hnodup, hkept]

/-- A plan with nothing to do would write nothing. -/
theorem idle_written {plan : SyncPlan D} {upserts : List (PageUpsert D)} (i : Index D)
    (h : needsCommit plan upserts = false) :
    upserts = [] ∧ plan.previousScheme = some plan.targetScheme ∧
      Written plan upserts [] 0 i i := by
  unfold needsCommit at h
  simp only [Bool.or_eq_false_iff, decide_eq_false_iff_not, Bool.not_eq_false',
    List.isEmpty_iff, ne_eq, not_not] at h
  obtain ⟨⟨⟨hmode, rfl⟩, hdeletions⟩, hscheme⟩ := h
  refine ⟨rfl, hscheme, fun path => ?_⟩
  change i.entry path = keptEntry plan i path
  unfold keptEntry
  rw [hdeletions, if_neg]
  rintro (hfull | hmem)
  · exact hmode hfull
  · cases hmem

/-! The tables stay together. -/

omit [DecidableEq D] in
theorem upsertUpdate_ordered {signature : Text} {scan : ScanReport D}
    {upserts : List (PageUpsert D)} {staged : List (StagedPage D)} {generation : Int64}
    {u : PageUpsert D} {change : Update D} (hsourced : Sourced scan upserts)
    (hstaged : stagePages signature upserts = .ok staged)
    (h : upsertUpdate staged generation u = .ok change) : change.Ordered := by
  unfold upsertUpdate at h
  split at h
  · split at h
    next e hfind =>
      obtain rfl := Except.ok.inj h
      have he := List.mem_reverse.1 (List.mem_of_find?_eq_some hfind)
      obtain ⟨hmem, hkind⟩ := (stagePages_stages hstaged).sound e he
      change (e.chunks.map StagedChunk.ordinal).Nodup
      rw [(stageForEmbedding_passages (stagePages_mem hstaged he)).2]
      exact planPage_ordinals ((hsourced e.page hmem).2 hkind)
    · cases h
  · obtain rfl := Except.ok.inj h
    exact trivial

omit [DecidableEq D] [Sha256 D] in
theorem applyAll_wellFormed {changes : List (Update D)} {w : Index D} (hw : w.WellFormed)
    (h : ∀ change ∈ changes, change.Ordered) : (applyAll changes w).WellFormed := by
  induction changes generalizing w with
  | nil => exact hw
  | cons change changes ih =>
      rw [applyAll_cons]
      apply ih
      · exact hw.apply (h change List.mem_cons_self)
      · exact fun other hother => h other (List.mem_cons_of_mem _ hother)

omit [DecidableEq D] in
theorem published_wellFormed {signature : Text} {scan : ScanReport D} {plan : SyncPlan D}
    {upserts : List (PageUpsert D)} {staged : List (StagedPage D)} {generation : Int64}
    {i w : Index D} (h : Published plan upserts staged generation i w)
    (hsourced : Sourced scan upserts) (hstaged : stagePages signature upserts = .ok staged)
    (hi : i.WellFormed) : w.WellFormed := by
  obtain ⟨deletions, changes, hdeletions, hchanges, rfl⟩ := h.changed
  have hdeleted : ∀ change ∈ deletions, change.Ordered := by
    intro change hchange
    unfold deletionChanges at hdeletions
    split at hdeletions
    · obtain rfl := Except.ok.inj hdeletions
      obtain rfl := List.mem_singleton.1 hchange
      exact trivial
    · obtain ⟨path, -, hdeletion⟩ := (mapM_mem hdeletions).2.1 change hchange
      unfold deletionUpdate at hdeletion
      split at hdeletion
      · obtain rfl := Except.ok.inj hdeletion
        exact trivial
      · cases hdeletion
  have hwritten : (applyAll changes (applyAll deletions i)).WellFormed := by
    apply applyAll_wellFormed (applyAll_wellFormed hi hdeleted)
    intro change hchange
    obtain ⟨u, -, hupdate⟩ := (mapM_mem hchanges).2.1 change hchange
    exact upsertUpdate_ordered hsourced hstaged hupdate
  exact ⟨hwritten.paths, hwritten.ids, hwritten.ordinals, hwritten.coherent,
    hwritten.fullText⟩

end

end Yams.Store
