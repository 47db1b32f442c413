/-
No index refers to a vector that is not cached, in any interleaving of
synchronizations and collections: a publication refers to what its thread has just
seen in the cache, and a sweep spares what any index refers to.
-/
import Yams.SyncCustody
import Yams.SyncGenerations

namespace Yams.Store

/-! A synchronization. -/

section

variable {D : Type} [DecidableEq D] {home : StoreHome} {t : Tid} {ε : Type}
  {h : Holding D} {project : PathBuf} {w : Index D}

/-- The transaction of a thread with the lease: the index `w` is to be published,
and all its vectors are cached. -/
structure Writes (h : Holding D) (project : PathBuf) (w : Index D) (v : Custody D) :
    Prop where
  held : v.held = some h
  here : v.working project = some w
  nowhere : ∀ other, other ≠ project → v.working other = none
  covered : ∀ key ∈ w.vectorKeys, key ∈ keysOf h.vectors

/-- Some index is to be published. -/
def Writing (h : Holding D) (project : PathBuf) (v : Custody D) : Prop :=
  ∃ w, Writes h project w v

/-- The update refers to no vector but these. -/
def Update.RefersTo (keys : List (VectorKey D)) : Update D → Prop
  | .upsertPage _ chunks => ∀ chunk ∈ chunks, chunk.vectorKey ∈ keys
  | _ => True

omit [DecidableEq D] in
theorem Update.apply_vectorKeys {keys : List (VectorKey D)} {change : Update D}
    (hchange : change.RefersTo keys) (hw : ∀ key ∈ w.vectorKeys, key ∈ keys) :
    ∀ key ∈ (change.apply w).vectorKeys, key ∈ keys := by
  intro key hkey
  obtain ⟨row, hrow, rfl⟩ := List.mem_map.1 hkey
  have hold : row ∈ w.chunks → row.vectorHash ∈ keys :=
    fun hmem => hw _ (List.mem_map_of_mem hmem)
  cases change with
  | clearProject => exact hold (List.mem_of_mem_filter hrow)
  | deletePage path => exact hold (List.mem_of_mem_filter hrow)
  | upsertPage doc chunks =>
      obtain ⟨hsound, -, -⟩ := Index.mem_insertChunks doc.path
        (((w.deleteFullText doc.path).deleteChunks doc.path).upsertDoc doc) chunks
      rcases hsound row hrow with hkept | ⟨-, hnew⟩
      · exact hold (Index.mem_replaced.1 hkept).1
      · obtain ⟨chunk, hchunk, heq⟩ := List.mem_map.1 hnew
        rw [← heq]
        exact hchange chunk hchunk
  | updatePageMetadata doc => exact hold hrow
  | writeEmbeddingScheme scheme => exact hold hrow
  | setGeneration generation => exact hold hrow

omit [DecidableEq D] in
theorem working_update_self {s : StoreState D} (theirs : Writer D) (hmine : theirs.thread = t) :
    ({ s with writers := Function.update s.writers project (some theirs) } :
      StoreState D).working t project = some theirs.working := by
  simp [StoreState.working, hmine]

omit [DecidableEq D] in
theorem working_update_ne {s : StoreState D} {other : PathBuf} (hother : other ≠ project)
    (theirs : Option (Writer D)) :
    ({ s with writers := Function.update s.writers project theirs } :
      StoreState D).working t other = s.working t other := by
  simp [StoreState.working, Function.update_of_ne hother]

/-- A transaction starts from a resolved index. -/
theorem keeps_begin (hhome : home.Guards) (operation : Text) (path : PathBuf) :
    Keeps home t (Holds h) (sql operation path (.beginImmediate project) rfl)
      (fun _ => Writing h project) fun _ => Holds h := by
  apply keeps_tryOp hhome rfl
  · exact fun hguarded => hguarded.elim
  intro s s' r hinv hs hsettle
  rcases r with e | ⟨⟩
  · obtain rfl := Option.some.inj hsettle
    exact ⟨hinv, hs⟩
  · change s.begin t project = _ at hsettle
    unfold StoreState.begin at hsettle
    split at hsettle
    · obtain rfl := Option.some.inj hsettle
      obtain ⟨hlease, hvectors, hindex⟩ := custody_held hs.held
      refine ⟨hinv, s.index project, ?_, working_update_self _ rfl, ?_, ?_⟩
      · rw [← hs.held]
        rfl
      · intro other hother
        exact (working_update_ne hother _).trans (hs.idle other)
      · rw [← hvectors]
        exact hinv project
    · cases hsettle

theorem keeps_update (hhome : home.Guards) (operation : Text) (path : PathBuf)
    {change : Update D} (hchange : change.RefersTo (keysOf h.vectors)) :
    Keeps home t (Writing h project) (sql operation path (.update project change) rfl)
      (fun _ => Writing h project) fun _ => Writing h project := by
  apply keeps_tryOp hhome rfl
  · exact fun hguarded => hguarded.elim
  rintro s s' r hinv ⟨w, hs⟩ hsettle
  rcases r with e | ⟨⟩
  · obtain rfl := Option.some.inj hsettle
    exact ⟨hinv, w, hs⟩
  · obtain ⟨writer, hwriter, hthread, rfl⟩ := working_eq_some hs.here
    change s.write t project change = _ at hsettle
    unfold StoreState.write at hsettle
    rw [hwriter] at hsettle
    dsimp only at hsettle
    rw [if_pos hthread] at hsettle
    obtain rfl := Option.some.inj hsettle
    refine ⟨hinv, change.apply writer.working, ?_, working_update_self _ rfl, ?_,
      Update.apply_vectorKeys hchange hs.covered⟩
    · rw [← hs.held]
      rfl
    · intro other hother
      exact (working_update_ne hother _).trans (hs.nowhere other hother)

/-- What is published has its vectors in the cache. -/
theorem keeps_commit (hhome : home.Guards) (operation : Text) (path : PathBuf) :
    Keeps home t (Writing h project) (sql operation path (.commit project) rfl)
      (fun _ => HasLease) fun _ => Writing h project := by
  apply keeps_tryOp hhome rfl
  · rintro - v ⟨w, hv⟩
    rw [hv.held]
    rfl
  rintro s s' r hinv ⟨w, hs⟩ hsettle
  rcases r with e | ⟨⟩
  · obtain rfl := Option.some.inj hsettle
    exact ⟨hinv, w, hs⟩
  · obtain ⟨writer, hwriter, hthread, rfl⟩ := working_eq_some hs.here
    obtain ⟨hlease, hvectors, -⟩ := custody_held hs.held
    change s.publish t project = _ at hsettle
    unfold StoreState.publish at hsettle
    rw [hwriter] at hsettle
    dsimp only at hsettle
    rw [if_pos hthread] at hsettle
    obtain rfl := Option.some.inj hsettle
    refine ⟨?_, _, custody_of_lease hlease, ?_⟩
    · intro other key hkey
      change key ∈ keysOf s.vectors
      by_cases hother : other = project
      · subst hother
        rw [hvectors]
        apply hs.covered
        simpa [StoreState.index, AList.lookup_insert] using hkey
      · rw [index_insert_ne hother] at hkey
        exact hinv other key hkey
    · intro other
      by_cases hother : other = project
      · subst hother
        change StoreState.working _ t other = none
        simp [StoreState.working]
      · exact (working_update_ne (s := s) hother none).trans (hs.nowhere other hother)

theorem keeps_rollback (hhome : home.Guards) {E : ε → Custody D → Prop} :
    Keeps home t (Writing h project)
      (Fallible.perform (StoreOp.rollback project) : StoreProg D ε Unit)
      (fun _ => HasLease) E := by
  apply triple_call
  rintro s a s' hinv ⟨w, hs⟩ hexec
  have hstep := settle_of_exec hexec
  have hothers : ∀ u, u ≠ t → custody u s'.now = custody u s.now := fun u hu =>
    settle_custody hhome.exclusive hhome.sound hu
      (fun hguarded => absurd hguarded (by exact fun h => h)) hstep
  have hnow : s.now.abandon t project = s'.now := Option.some.inj hstep
  obtain ⟨writer, hwriter, hthread, rfl⟩ := working_eq_some hs.here
  unfold StoreState.abandon at hnow
  rw [hwriter] at hnow
  dsimp only at hnow
  rw [if_pos hthread] at hnow
  have hends : s'.now.Resolved ∧ HasLease (custody t s'.now) := by
    rw [← hnow]
    refine ⟨hinv, h, ?_, ?_⟩
    · rw [← hs.held]
      rfl
    · intro other
      by_cases hother : other = project
      · subst hother
        change StoreState.working _ t other = none
        simp [StoreState.working]
      · exact (working_update_ne hother none).trans (hs.nowhere other hother)
  exact ⟨hends.1, hothers, hends.2⟩

/-- The body writes into the transaction, which is then published or rolled back. -/
theorem keeps_withTransaction (hhome : home.Guards) {path : PathBuf} {body : Sync D Unit}
    (hbody : Keeps home t (Writing h project) body (fun _ => Writing h project)
      fun _ => Writing h project) :
    Keeps home t (Holds h) (withTransaction project path body) (fun _ => HasLease)
      fun _ => HasLease := by
  unfold withTransaction
  apply triple_bind (R := fun _ => Writing h project)
  · apply triple_mono (keeps_begin hhome _ _)
    · exact fun _ h => h
    · exact fun _ _ h => h
    · exact fun _ _ hv => ⟨h, hv⟩
  intro _
  have hcommit : Keeps home t (Writing h project)
      (do body
          sql "commit project synchronization".toList path (.commit project) rfl)
      (fun _ => HasLease) fun _ => Writing h project :=
    triple_bind hbody fun _ => keeps_commit hhome _ _
  apply triple_bind (triple_observe hcommit)
  rintro (error | ⟨⟩)
  · exact triple_bind (keeps_rollback hhome) fun _ => triple_fail error fun _ h => h
  · exact triple_return () fun _ h => h

/-! The vectors. -/

/-- A lookup finds stored vectors. -/
theorem keeps_getMany (hhome : home.Guards) (requested : List (VectorKey D)) :
    Keeps home t (Holds h) (getMany requested)
      (fun found v => (∀ key ∈ keysOf found, key ∈ keysOf h.vectors) ∧ Holds h v)
      fun _ => Holds h := by
  unfold getMany
  apply triple_weaken (P := fun v =>
    (∀ key ∈ keysOf ([] : List (CachedVector D)), key ∈ keysOf h.vectors) ∧ Holds h v)
  · apply triple_foldlM (J := fun found v =>
      (∀ key ∈ keysOf found, key ∈ keysOf h.vectors) ∧ Holds h v)
    intro found batch
    apply triple_given
    intro hfound
    apply triple_bind (R := fun rows v =>
      (∀ key ∈ keysOf rows, key ∈ keysOf h.vectors) ∧ Holds h v)
    · apply keeps_reads hhome rfl (by exact trivial) fun _ _ hv => hv
      intro s s' rows hs hsettle
      obtain ⟨-, hvectors, -⟩ := custody_held hs.held
      change (if rows = s.vectors.filter fun cached => cached.key ∈ batch then some s
        else none) = _ at hsettle
      split at hsettle
      next hrows =>
        refine ⟨?_, hs⟩
        rintro key hkey
        obtain ⟨row, hrow, rfl⟩ := List.mem_map.1 hkey
        rw [hrows, hvectors] at hrow
        exact List.mem_map_of_mem (List.mem_of_mem_filter hrow)
      · cases hsettle
    intro rows
    apply triple_given
    intro hrows
    apply triple_weaken (triple_ofExcept _)
    intro v hv
    cases hresult : collectFound requested found rows with
    | error e => exact hv
    | ok result =>
        refine ⟨?_, hv⟩
        intro key hkey
        rcases (collectFound_keys hresult key).1 hkey with hold | hnew
        · exact hfound key hold
        · exact hrows key hnew
  · exact fun v hv => ⟨fun key hkey => absurd hkey List.not_mem_nil, hv⟩

variable [Sha256 D]

/-- An insertion only adds. -/
theorem keeps_insertBatch (hhome : home.Guards) (input : List (VectorInsert D)) :
    Keeps home t HasLease (insertBatch input) (fun _ => HasLease) fun _ => HasLease := by
  unfold insertBatch
  apply triple_computed fun _ _ h => h
  intro prepared _
  split
  · exact triple_return () fun _ h => h
  · apply keeps_tryOp hhome rfl
    · rintro - v ⟨h, hv⟩
      rw [hv.held]
      rfl
    rintro s s' r hinv ⟨h, hs⟩ hsettle
    rcases r with e | ⟨⟩
    · obtain rfl := Option.some.inj hsettle
      exact ⟨hinv, h, hs⟩
    · obtain ⟨vectors, hinsert, rfl⟩ := settle_insertVectors hsettle
      refine ⟨?_, _, custody_of_lease (custody_held hs.held).1, hs.idle⟩
      intro project key hkey
      exact (mem_keysOf_insertPrepared hinsert key).2 (.inl (hinv project key hkey))

/-- Afterwards every staged vector is cached. -/
theorem keeps_storeVectors (hhome : home.Guards) (staged : List (StagedPage D))
    (embedder : Embedder) (embedded : List (Embedded D)) :
    Keeps home t HasLease (storeVectors staged embedder embedded)
      (fun _ v => ∃ h : Holding D, (∀ key ∈ stagedKeys staged, key ∈ keysOf h.vectors) ∧
        Holds h v) fun _ => HasLease := by
  have hsame : ∀ (e : SyncError D) v, HasLease (D := D) v → HasLease v := fun _ _ h => h
  unfold storeVectors
  dsimp only
  split
  next hnone =>
    apply triple_return
    rintro v ⟨h, hv⟩
    refine ⟨h, ?_, hv⟩
    rw [hnone]
    intro key hkey
    cases hkey
  · apply keeps_after (calls_tryOp rfl (by exact trivial)) hsame
    intro _
    apply keeps_after (calm_getMany _) hsame
    intro cached
    apply triple_computed hsame
    intro _ _
    apply triple_computed hsame
    intro _ _
    apply keeps_after (calm_embedKeys _ _ _ _) hsame
    intro embedded
    apply triple_computed hsame
    intro inserts _
    apply triple_bind (keeps_insertBatch hhome inserts)
    intro _
    apply triple_exists
    intro h
    have hheld : ∀ (e : SyncError D) v, Holds h v → HasLease v := fun _ _ hv => ⟨h, hv⟩
    apply triple_bind (triple_mono (keeps_getMany hhome (stagedKeys staged))
      (fun _ h => h) (fun _ _ h => h) hheld)
    intro committed
    apply triple_given
    intro hcommitted
    apply triple_computed hheld
    intro _ _
    apply triple_computed hheld
    intro _ hfirst
    apply triple_return
    intro v hv
    refine ⟨h, ?_, hv⟩
    intro key hkey
    apply hcommitted
    by_contra hmissing
    have hnot := mem_notFound.2 ⟨hkey, hmissing⟩
    unfold firstMissing at hfirst
    split at hfirst
    next hnil =>
      rw [hnil] at hnot
      cases hnot
    · cases hfirst

/-! The updates. -/

theorem upsertUpdate_refersTo {staged : List (StagedPage D)} {generation : Int64}
    {page : PageUpsert D} {change : Update D}
    (hchange : upsertUpdate staged generation page = .ok change)
    {keys : List (VectorKey D)} (hkeys : ∀ key ∈ stagedKeys staged, key ∈ keys) :
    change.RefersTo keys := by
  unfold upsertUpdate at hchange
  split at hchange
  · split at hchange
    next entry hfind =>
      obtain rfl := Except.ok.inj hchange
      intro chunk hchunk
      apply hkeys
      exact mem_stagedKeys.2 ⟨chunk, List.mem_flatMap.2
        ⟨entry, List.mem_reverse.1 (List.mem_of_find?_eq_some hfind), hchunk⟩, rfl⟩
    · cases hchange
  · obtain rfl := Except.ok.inj hchange
    exact trivial

omit [Sha256 D] in
theorem keeps_performUpdate (hhome : home.Guards) (operation : Text) (path : PathBuf)
    {update : Except (SyncError D) (Update D)}
    (hupdate : ∀ change, update = .ok change → change.RefersTo (keysOf h.vectors)) :
    Keeps home t (Writing h project) (performUpdate operation project path update)
      (fun _ => Writing h project) fun _ => Writing h project :=
  triple_computed (fun _ _ h => h) fun change hchange =>
    keeps_update hhome operation path (hupdate change hchange)

theorem keeps_performDeletions (hhome : home.Guards) (plan : SyncPlan D) :
    Keeps home t (Writing h project) (performDeletions project plan)
      (fun _ => Writing h project) fun _ => Writing h project := by
  unfold performDeletions
  split
  · apply keeps_performUpdate hhome
    intro change hchange
    obtain rfl := Except.ok.inj hchange
    exact trivial
  · apply triple_foldlM (J := fun _ => Writing h project)
    intro _ path
    apply keeps_performUpdate hhome
    intro change hchange
    unfold deletionUpdate at hchange
    split at hchange
    · obtain rfl := Except.ok.inj hchange
      exact trivial
    · cases hchange

theorem keeps_applyPlan (hhome : home.Guards) (plan : SyncPlan D)
    (upserts : List (PageUpsert D)) {staged : List (StagedPage D)} (generation : Int64)
    (hstaged : ∀ key ∈ stagedKeys staged, key ∈ keysOf h.vectors) :
    Keeps home t (Writing h project) (applyPlan project plan upserts staged generation)
      (fun _ => Writing h project) fun _ => Writing h project := by
  have hsame : ∀ (e : SyncError D) v, Writing h project v → Writing h project v :=
    fun _ _ h => h
  have hplain : ∀ change : Update D, change.RefersTo (keysOf h.vectors) →
      ∀ other, (.ok change : Except (SyncError D) (Update D)) = .ok other →
        other.RefersTo (keysOf h.vectors) := by
    rintro change hchange other heq
    obtain rfl := Except.ok.inj heq
    exact hchange
  unfold applyPlan
  apply keeps_after (calm_verifyPreconditions _ _ _ _) hsame
  intro _
  apply triple_bind (keeps_performDeletions hhome plan)
  intro _
  apply triple_bind (R := fun _ => Writing h project)
  · apply triple_foldlM (J := fun _ => Writing h project)
    intro _ page
    exact keeps_performUpdate hhome _ _ fun change hchange =>
      upsertUpdate_refersTo hchange hstaged
  intro _
  apply triple_bind (keeps_performUpdate hhome _ _ (hplain _ (by exact trivial)))
  intro _
  apply triple_bind (keeps_performUpdate hhome _ _ (hplain _ (by exact trivial)))
  intro _
  apply keeps_after (calls_verifyProjectRoot _ (by exact trivial)) hsame
  intro _
  apply keeps_after (calm_revalidateDeletionNamespaces _ _ _) hsame
  intro _
  apply keeps_after (calm_revalidateUpserts _) hsame
  intro _
  apply keeps_after (calls_tryOp rfl (by exact trivial)) hsame
  intro _
  exact keeps_calm (calls_verifyProjectRoot _ (by exact trivial))

theorem keeps_publishPlan (hhome : home.Guards) (root : PathBuf) (plan : SyncPlan D)
    (embedder : Embedder) (upserts : List (PageUpsert D)) (staged : List (StagedPage D))
    (embedded : List (Embedded D)) :
    Keeps home t HasLease (publishPlan root plan embedder upserts staged embedded)
      (fun _ => HasLease) fun _ => HasLease := by
  have hsame : ∀ (e : SyncError D) v, HasLease (D := D) v → HasLease v := fun _ _ h => h
  unfold publishPlan
  apply keeps_after (calls_tryOp rfl (by exact trivial)) hsame
  intro _
  apply keeps_after (calls_tryOp rfl (by exact trivial)) hsame
  intro opened
  apply keeps_after (calls_verifyProjectRoot _ (by exact trivial)) hsame
  intro _
  apply keeps_after (calm_verifyPreconditions _ _ _ _) hsame
  intro _
  apply triple_bind (keeps_storeVectors hhome staged embedder embedded)
  intro embedded
  apply triple_exists
  intro h
  apply triple_given
  intro hstaged
  have hheld : ∀ (e : SyncError D) v, Holds h v → HasLease v := fun _ _ hv => ⟨h, hv⟩
  apply keeps_after (calls_tryOp rfl (by exact trivial)) hheld
  intro _
  apply keeps_after (calm_revalidateDeletionNamespaces _ _ _) hheld
  intro _
  apply keeps_after (calm_revalidateUpserts _) hheld
  intro _
  apply triple_computed hheld
  intro generation _
  apply triple_bind (keeps_withTransaction hhome
    (keeps_applyPlan hhome plan upserts generation hstaged))
  exact fun _ => triple_return _ fun _ h => h

theorem keeps_recheckReferences (hhome : home.Guards) (plan : SyncPlan D) :
    Keeps home t Free (recheckReferences plan) (fun _ => Free) fun _ => Free := by
  unfold recheckReferences
  split
  · exact triple_return _ fun _ h => h
  · apply triple_bind (keeps_withLease hhome (keeps_calm _))
    · intro missing
      apply triple_computed fun _ _ h => h
      intro upserts _
      exact triple_return _ fun _ h => h
    · apply calls_bind (calls_tryOp rfl (by exact trivial))
      intro _
      exact calls_bind (calls_tryOp rfl (by exact trivial)) fun _ => calm_missingVectors _

/-- An execution takes the lease twice, and publishes under it. -/
theorem keeps_executeSyncPlan (hhome : home.Guards) (root : PathBuf) (plan : SyncPlan D)
    (embedder : Embedder) :
    Keeps home t Free (executeSyncPlan root plan embedder) (fun _ => Free)
      fun _ => Free := by
  have hsame : ∀ (e : SyncError D) v, Free (D := D) v → Free v := fun _ _ h => h
  unfold executeSyncPlan
  apply keeps_after (calm_admitPlan _ _ _) hsame
  intro _
  apply triple_bind (keeps_recheckReferences hhome plan)
  intro upserts
  split
  · apply triple_computed hsame
    intro staged _
    apply keeps_after (calm_embedInitially _ _) hsame
    intro embedded
    apply keeps_after (calm_revalidateUpserts _) hsame
    intro _
    apply keeps_after (calm_revalidateDeletionNamespaces _ _ _) hsame
    intro _
    exact keeps_withLease hhome
      (keeps_publishPlan hhome root plan embedder upserts staged embedded)
  · exact triple_return _ fun _ h => h

end

/-! A collection. -/

section

variable {D : Type} [DecidableEq D] {home : StoreHome} {t : Tid} {h : Holding D}

/-- Every vector that some index refers to is among the keys. -/
def Holding.Lists (h : Holding D) (paths : List PathBuf) (keys : List (VectorKey D)) :
    Prop := ∀ path ∈ paths, ∀ key ∈ (h.index path).vectorKeys, key ∈ keys

/-- What the reading of one more index adds, unless it could not be read. -/
structure Extends (h : Holding D) (paths : List PathBuf) (st st' : Inventory D) : Prop where
  readable : st'.unreadable = [] → st.unreadable = []
  kept : ∀ key ∈ st.keys, key ∈ st'.keys
  lists : st'.unreadable = [] → h.Lists paths st'.keys

omit [DecidableEq D] in
theorem index_of_not_mem {s : StoreState D} {path : PathBuf} (hpath : path ∉ s.indexes) :
    (s.index path).vectorKeys = [] := by
  unfold StoreState.index
  rw [AList.lookup_eq_none.2 hpath]
  rfl

theorem keeps_readIndex (hhome : home.Guards) (st : Inventory D) (path : PathBuf) :
    Keeps home t (Holds h) (readIndex st path)
      (fun st' v => Extends h [path] st st' ∧ Holds h v) fun _ => Holds h := by
  have hopens : Keeps home t (Holds h)
      (tryOp id (.openIndex path) rfl : StoreProg D (ManagementError D) Unit)
      (fun _ => Holds h)
      fun e v => (∀ other, e = .notSqlite other → (h.index path).vectorKeys = []) ∧
        Holds h v := by
    apply keeps_tryOp hhome rfl
    · exact fun hguarded => hguarded.elim
    intro s s' r hinv hs hsettle
    have hcalm : (StoreOp.openIndex path : StoreOp D).Calm := trivial
    obtain ⟨hresolved, hcustody⟩ := settle_calm hcalm hsettle
    refine ⟨hresolved hinv, ?_⟩
    rw [hcustody t]
    rcases r with e | ⟨⟩
    · refine ⟨?_, hs⟩
      rintro other rfl
      change (if path ∈ s.indexes then none else some s) = _ at hsettle
      split at hsettle
      · cases hsettle
      next hpath =>
        rw [← (custody_held hs.held).2.2]
        exact index_of_not_mem hpath
    · exact hs
  unfold readIndex
  apply triple_bind (triple_observe hopens)
  rintro (e | ⟨⟩)
  · apply triple_given
    intro hnone
    cases e with
    | notSqlite other =>
        refine triple_return _ fun v hv => ⟨⟨fun h => h, fun _ h => h, ?_⟩, hv⟩
        intro _ found hfound key hkey
        obtain rfl := List.mem_singleton.1 hfound
        rw [hnone other rfl] at hkey
        cases hkey
    | _ =>
        refine triple_return _ fun v hv => ⟨⟨fun h => ?_, fun _ h => h, fun h => ?_⟩, hv⟩
        all_goals exact absurd h (by simp)
  · change Keeps home t (Holds h) (do
      let keys ← tryOp id (.indexVectorKeys path) rfl
      return { st with keys := st.keys ++ keys }) _ _
    apply triple_bind (R := fun keys v => keys = (h.index path).vectorKeys ∧ Holds h v)
    · apply keeps_reads hhome rfl (by exact trivial) fun _ _ hv => hv
      intro s s' keys hs hsettle
      change (if keys = (s.index path).vectorKeys then some s else none) = _ at hsettle
      split at hsettle
      next hkeys =>
        rw [(custody_held hs.held).2.2] at hkeys
        exact ⟨hkeys, hs⟩
      · cases hsettle
    intro keys
    apply triple_given
    rintro rfl
    refine triple_return _ fun v hv =>
      ⟨⟨fun h => h, fun _ h => List.mem_append_left _ h, ?_⟩, hv⟩
    intro _ found hfound key hkey
    obtain rfl := List.mem_singleton.1 hfound
    exact List.mem_append_right _ hkey

theorem keeps_readIndexes (hhome : home.Guards) (paths : List PathBuf) (st : Inventory D) :
    Keeps home t (Holds h) (paths.foldlM readIndex st)
      (fun st' v => Extends h paths st st' ∧ Holds h v) fun _ => Holds h := by
  induction paths generalizing st with
  | nil =>
      refine triple_return _ fun v hv => ⟨⟨fun h => h, fun _ h => h, ?_⟩, hv⟩
      intro _ path hpath
      cases hpath
  | cons path paths ih =>
      rw [List.foldlM_cons]
      apply triple_bind (keeps_readIndex hhome st path)
      intro st₁
      apply triple_given
      intro hfirst
      apply triple_mono (ih st₁)
      · exact fun _ h => h
      · rintro st₂ v ⟨hrest, hv⟩
        refine ⟨⟨fun h => hfirst.readable (hrest.readable h),
          fun key hkey => hrest.kept key (hfirst.kept key hkey), ?_⟩, hv⟩
        intro hnone found hfound key hkey
        rcases List.mem_cons.1 hfound with rfl | hlater
        · exact hrest.kept key
            (hfirst.lists (hrest.readable hnone) found List.mem_cons_self key hkey)
        · exact hrest.lists hnone found hlater key hkey
      · exact fun _ _ h => h

/-- What a collection finds referenced is all that any index refers to. -/
theorem keeps_liveKeys (hhome : home.Guards) :
    Keeps home t (Holds h) liveKeys
      (fun keys v => (∀ path, ∀ key ∈ (h.index path).vectorKeys, key ∈ keys) ∧ Holds h v)
      fun _ => Holds h := by
  have hsame : ∀ (e : ManagementError D) v, Holds h v → Holds h v := fun _ _ h => h
  unfold liveKeys
  apply triple_bind (R := fun paths v =>
    (∀ path, path ∉ paths → (h.index path).vectorKeys = []) ∧ Holds h v)
  · apply keeps_reads hhome rfl (by exact trivial) hsame
    intro s s' paths hs hsettle
    change (if s.indexes.keys.all fun path => path ∈ paths then some s else none) = _
      at hsettle
    split at hsettle
    next hall =>
      refine ⟨?_, hs⟩
      intro path hpath
      rw [← (custody_held hs.held).2.2]
      apply index_of_not_mem
      intro hmem
      apply hpath
      simpa using List.all_eq_true.1 hall path (AList.mem_keys.2 hmem)
    · cases hsettle
  intro paths
  apply triple_given
  intro hothers
  apply triple_bind (keeps_readIndexes hhome paths ⟨[], []⟩)
  intro inventory
  apply triple_given
  intro hextends
  apply triple_checked hsame
  intro hreadable
  refine triple_return _ fun v hv => ⟨?_, hv⟩
  intro path key hkey
  by_cases hpath : path ∈ paths
  · exact hextends.lists hreadable path hpath key hkey
  · rw [hothers path hpath] at hkey
    cases hkey

theorem keeps_initialKeys (hhome : home.Guards) :
    Keeps home t (Holds h) initialKeys (fun _ => Holds h) fun _ => Holds h := by
  have hsame : ∀ (e : ManagementError D) v, Holds h v → Holds h v := fun _ _ h => h
  have hquarantine : Keeps home t (Holds h)
      (tryOp id .quarantineVectors rfl : StoreProg D (ManagementError D) Unit)
      (fun _ => Holds h) fun _ => Holds h := by
    apply keeps_tryOp hhome rfl
    · exact fun hguarded => hguarded.elim
    intro s s' r hinv hs hsettle
    obtain rfl := settle_quarantine hhome.sound hsettle
    refine ⟨hinv, ?_⟩
    cases r with
    | ok _ => exact hs
    | error _ => exact hs
  have hcached : Keeps home t (Holds h) (cachedKeys (D := D)) (fun _ => Holds h)
      fun _ => Holds h := keeps_calm calm_cachedKeys
  have hexits : ∀ {α : Type} (r : Except (ManagementError D) α) v,
      Exits (fun _ => Holds h) (fun _ => Holds h) r v → Holds h v := by
    rintro α (e | a) v hv
    · exact hv
    · exact hv
  unfold initialKeys
  apply triple_bind (triple_observe hcached)
  intro keys
  apply triple_weaken (P := Holds h) _ (hexits keys)
  unfold recoverKeys
  split
  · exact triple_return _ fun _ h => h
  · apply triple_bind (triple_observe hquarantine)
    intro quarantined
    apply triple_weaken (triple_ofExcept _)
    intro v hv
    cases afterQuarantine _ quarantined with
    | ok _ => exact hexits quarantined v hv
    | error _ => exact hexits quarantined v hv

/-- A sweep spares every vector that an index refers to. -/
theorem keeps_sweep (hhome : home.Guards) (initial : List (VectorKey D))
    {referenced : List (VectorKey D)}
    (hreferenced : ∀ path, ∀ key ∈ (h.index path).vectorKeys, key ∈ referenced) :
    Keeps home t (Holds h) (sweepSnapshot initial referenced) (fun _ => HasLease)
      fun _ => HasLease := by
  unfold sweepSnapshot
  apply keeps_after (calls_tryOp ans_revalidateLease trivial) fun _ _ hv => ⟨h, hv⟩
  intro _
  apply keeps_tryOp hhome rfl
  · intro _ v hv
    rw [hv.held]
    rfl
  intro s s' r hinv hs hsettle
  rcases r with e | report
  · obtain rfl := Option.some.inj hsettle
    exact ⟨hinv, h, hs⟩
  · obtain rfl := settle_sweep hsettle
    obtain ⟨hlease, -, hindex⟩ := custody_held hs.held
    refine ⟨?_, _, custody_of_lease hlease, hs.idle⟩
    intro path key hkey
    change key ∈ (s.index path).vectorKeys at hkey
    obtain ⟨cached, hcached, rfl⟩ := List.mem_map.1 (hinv path key hkey)
    refine List.mem_map_of_mem (List.mem_filter.2 ⟨hcached, ?_⟩)
    rw [hindex] at hkey
    simp [sweepKeeps, hreferenced path _ hkey]

theorem keeps_gc (hhome : home.Guards) :
    Keeps home t Free (gc (D := D)) (fun _ => Free) fun _ => Free := by
  have hunder : Keeps home t HasLease (gcUnderLease (D := D)) (fun _ => HasLease)
      fun _ => HasLease := by
    apply triple_exists
    intro h
    have hheld : ∀ (e : ManagementError D) v, Holds h v → HasLease v :=
      fun _ _ hv => ⟨h, hv⟩
    unfold gcUnderLease
    apply keeps_after (calls_tryOp ans_revalidateLease trivial) hheld
    intro _
    apply triple_bind (triple_mono (keeps_initialKeys hhome) (fun _ h => h)
      (fun _ _ h => h) hheld)
    intro initial
    apply triple_bind (triple_mono (keeps_liveKeys hhome) (fun _ h => h)
      (fun _ _ h => h) hheld)
    intro first
    apply triple_given
    intro hfirst
    apply keeps_after calm_liveKeys hheld
    intro second
    apply keeps_after (calls_tryOp ans_openVectorCache trivial) hheld
    intro _
    exact keeps_sweep hhome initial fun path key hkey =>
      List.mem_append_left _ (hfirst path key hkey)
  unfold gc
  apply keeps_after (calls_perform (by exact trivial)) fun _ _ h => h
  intro present
  unfold gcIfPresent
  split
  · exact keeps_withLease hhome hunder
  · exact triple_return _ fun _ h => h

end

/-! Any number of threads. -/

section

variable {D : Type} [DecidableEq D] [Sha256 D]

/-- A job takes the lease for all that it does to the vectors and the indexes, and
returns it. -/
theorem keeps_job {home : StoreHome} (hhome : home.Guards) (t : Tid) (job : Job D)
    {s : StoreTrace D} (hinv : s.now.Resolved) (hs : Free (custody t s.now)) :
    Outline (custodyDiscipline home) t job.program
      (fun _ s' => Free (custody t s'.now)) s := by
  have hfree : ∀ {ε α : Type} (r : Except ε α) v,
      Exits (fun _ => Free (D := D)) (fun _ => Free) r v → Free v := by
    rintro ε α (e | a) v hv
    · exact hv
    · exact hv
  cases job with
  | planSync root scan embedder mode =>
      have hplan : Keeps home t Free (planSynchronization root scan embedder mode)
          (fun _ => Free) fun _ => Free := keeps_calm (calm_planSynchronization _ _ _ _)
      exact triple_finish (F := fun _ => Free) hplan hfree hinv hs
  | executePlan root plan embedder =>
      exact triple_finish (F := fun _ => Free)
        (keeps_executeSyncPlan hhome root plan embedder) hfree hinv hs
  | planAndExecute root scan embedder mode =>
      have hsynchronize : Keeps home t Free (synchronize root scan embedder mode)
          (fun _ => Free) fun _ => Free := by
        unfold synchronize
        apply keeps_after (calm_planSynchronization _ _ _ _) fun _ _ h => h
        intro plan
        exact keeps_executeSyncPlan hhome root plan embedder
      exact triple_finish (F := fun _ => Free) hsynchronize hfree hinv hs
  | collect => exact triple_finish (F := fun _ => Free) (keeps_gc hhome) hfree hinv hs

/-- Over a home whose lease is exclusive and whose cache is not set aside, any number
of plans, executions, synchronizations and collections, in any order of their steps,
leave every vector that a committed index of any project refers to in the cache. -/
theorem references_resolved (home : StoreHome) (jobs : Tid → Job D) (start : StoreState D)
    (pool : StorePool D) (hhome : home.Guards) (hlease : start.lease = none)
    (hidle : start.Idle) (hresolved : start.Resolved)
    (hsteps : (store home).traced.system.Steps (atWork jobs start) pool) :
    ∀ project, ∀ key ∈ (pool.state.now.index project).vectorKeys,
      key ∈ keysOf pool.state.now.vectors := by
  have hfree : ∀ t, Free (custody t start) := by
    intro t
    refine ⟨custody_none ?_, hidle t⟩
    rw [hlease]
    nofun
  have houtlined : Outlined (custodyDiscipline home)
      (fun t _ s => Free (custody t s.now)) (atWork jobs start) :=
    ⟨hresolved, fun t => keeps_job hhome t (jobs t) hresolved (hfree t)⟩
  exact (outlined_steps hsteps houtlined).1

end

namespace SyncReferencesWitness

open SyncHealingWitness SyncGenerationsWitness

attribute [local instance] SyncHealingWitness.instSha256Bytes

/-- A vector that no index refers to. -/
def stale : CachedVector Bytes := ⟨Text.toBytes "stale".toList, [], ⟨[]⟩⟩

/-- The page is not indexed yet. -/
def empty : StoreState Bytes :=
  ⟨(∅ : AList fun _ : PathBuf => Index Bytes).insert root
    { index with docs := [], chunks := [], chunksFts := [] }, fun _ => none, [stale], none⟩

/-- The collection follows the publication. -/
def outcome : Option (StorePool Bytes) :=
  (store home).traced.schedule 4
    (List.replicate 41 (.thread 0 none) ++ List.replicate 15 (.thread 2 none))
    (atWork jobs empty)

theorem empty_idle : empty.Idle := fun _ _ => rfl

theorem empty_resolved : empty.Resolved := by
  intro project key hkey
  have hchunks : (empty.index project).chunks = [] := by
    unfold StoreState.index empty
    by_cases hroot : project = root
    · rw [hroot, AList.lookup_insert]
      rfl
    · rw [AList.lookup_insert_ne hroot]
      rfl
  change key ∈ (empty.index project).chunks.map _ at hkey
  rw [hchunks] at hkey
  cases hkey

/-- The collection takes the vector that nothing refers to, and spares the others. -/
theorem references_resolved_collected : ∃ pool, outcome = some pool ∧
    keysOf pool.state.now.vectors = [key] ∧
    (pool.state.now.index root).vectorKeys = [key] ∧
    ∀ project, ∀ key ∈ (pool.state.now.index project).vectorKeys,
      key ∈ keysOf pool.state.now.vectors := by
  have hfacts : outcome.map (fun pool =>
      (keysOf pool.state.now.vectors, (pool.state.now.index root).vectorKeys)) =
      some ([key], [key]) := by
    unfold outcome atWork Job.program synchronize planSynchronization executeSyncPlan
      admitPlan empty index scheme embeddingSchemeFor
    repeat rw [String.toList_ofList]
    decide +kernel
  obtain ⟨pool, hpool, hpair⟩ := Option.map_eq_some_iff.1 hfacts
  obtain ⟨hvectors, hkeys⟩ := Prod.mk.inj hpair
  refine ⟨pool, hpool, hvectors, hkeys, ?_⟩
  exact references_resolved home jobs empty pool ⟨rfl, rfl⟩ rfl empty_idle empty_resolved
    (schedule_steps hpool)

end SyncReferencesWitness

end Yams.Store
