/-
Any number of plans, executions, synchronizations and collections over one store:
what is published replaces the index that its plan was made from, and what fails
leaves every index alone.
-/
import Yams.SyncHealing
import Yams.SyncSession

namespace Yams.Store

/-! The parts of a synchronization. -/

section

variable {D : Type} [DecidableEq D] {home : StoreHome} {allowed : Permission D} {t : Tid}
  {ε α : Type} {J : Session D → Prop} {Q : α → Session D → Prop}
  {E : SyncError D → Session D → Prop} {K : List (StoreEvent D) → Prop}
  {project : PathBuf} {i w : Index D}

/-- The path that opening a project returns. -/
theorem serves_openProject {root : PathBuf} {f : PathBuf → Sync D α} (hJ : Persists J)
    (hE : ∀ e v, J v → E e v)
    (hf : Serves home allowed t J (f (home.projectPath root)) Q E) :
    Serves home allowed t J (openProject root >>= f) Q E := by
  apply triple_bind (R := fun path v => path = home.projectPath root ∧ J v)
  · apply serves_reads rfl (by exact trivial) (hJ.event (by exact trivial) hE)
    intro s s' path hs hsettle
    change (if path = home.projectPath root then some (s.now.create path) else none) = _
      at hsettle
    split at hsettle
    next h => exact ⟨h, hJ _ _ trivial hs⟩
    · cases hsettle
  · intro path s hinv hs
    obtain ⟨rfl, hv⟩ := hs
    exact hf s hinv hv

/-- Inside a transaction the preconditions are those of the index that it replaces. -/
theorem serves_verifyPreconditions (hK : Lasts K) (path : PathBuf) (generation : Int64)
    (scheme : Option (EmbeddingScheme D)) :
    Serves home allowed t (Opened project K i w)
      (verifyPreconditions project path generation scheme)
      (fun _ v => (w.generation = generation ∧ w.scheme = scheme) ∧ Opened project K i w v)
      fun _ => Working project K i := by
  have hJ : Persists (Opened project K i w) := persists_opened hK
  have hfails : ∀ (e : SyncError D) v, Opened project K i w v → Working project K i v :=
    fun _ _ h => ⟨w, h⟩
  unfold verifyPreconditions
  apply triple_bind (R := fun actual v => actual = w.generation ∧ Opened project K i w v)
  · apply serves_reads rfl (by exact trivial) (hJ.event (by exact trivial) hfails)
    intro s s' actual hs hsettle
    change (if actual = (s.now.view t project).generation then some s.now else none) = _
      at hsettle
    split at hsettle
    next h =>
      rw [view_of_some hs.here] at h
      exact ⟨h, hJ _ _ trivial hs⟩
    · cases hsettle
  intro actual
  apply triple_given
  rintro rfl
  apply triple_checked hfails
  intro hgeneration
  apply triple_bind (R := fun actual v => actual = w.scheme ∧ Opened project K i w v)
  · apply serves_reads rfl (by exact trivial) (hJ.event (by exact trivial) hfails)
    intro s s' actual hs hsettle
    change (if actual = (s.now.view t project).scheme then some s.now else none) = _
      at hsettle
    split at hsettle
    next h =>
      rw [view_of_some hs.here] at h
      exact ⟨h, hJ _ _ trivial hs⟩
    · cases hsettle
  intro actual
  apply triple_given
  rintro rfl
  exact triple_check hfails fun hscheme v hv => ⟨⟨hgeneration, hscheme⟩, hv⟩

theorem serves_performUpdate (hK : Lasts K) (operation : Text) (path : PathBuf)
    (update : Except (SyncError D) (Update D)) :
    Serves home allowed t (Opened project K i w)
      (performUpdate operation project path update)
      (fun _ v => ∃ change, update = .ok change ∧
        Opened project K i (change.apply w) v) fun _ => Working project K i := by
  apply triple_computed fun _ _ h => ⟨w, h⟩
  intro change hchange
  apply triple_mono (serves_update hK operation path change)
  · exact fun _ h => h
  · exact fun _ _ h => ⟨change, hchange, h⟩
  · exact fun _ _ h => h

/-- Some updates in turn. -/
theorem serves_performUpdates (hK : Lasts K) {F : Type} (operation : Text) (path : PathBuf)
    (f : F → Except (SyncError D) (Update D)) (items : List F) :
    Serves home allowed t (Opened project K i w)
      (items.foldlM (fun _ item => performUpdate operation project path (f item)) ())
      (fun _ v => ∃ changes, items.mapM f = .ok changes ∧
        Opened project K i (applyAll changes w) v) fun _ => Working project K i := by
  induction items generalizing w with
  | nil => exact triple_return () fun v h => ⟨[], rfl, h⟩
  | cons item items ih =>
      rw [List.foldlM_cons]
      apply triple_bind (serves_performUpdate hK operation path (f item))
      intro _
      apply triple_exists
      intro change
      apply triple_given
      intro hchange
      apply triple_mono ih
      · exact fun _ h => h
      · rintro _ v ⟨changes, hchanges, h⟩
        refine ⟨change :: changes, ?_, h⟩
        rw [List.mapM_cons, hchange, hchanges]
        rfl
      · exact fun _ _ h => h

variable [Sha256 D]

theorem serves_performDeletions (hK : Lasts K) (plan : SyncPlan D) :
    Serves home allowed t (Opened project K i w) (performDeletions project plan)
      (fun _ v => ∃ changes, deletionChanges plan = .ok changes ∧
        Opened project K i (applyAll changes w) v) fun _ => Working project K i := by
  unfold performDeletions deletionChanges
  cases plan.mode with
  | fullRebuild =>
      apply triple_mono (serves_performUpdate hK _ _ _)
      · exact fun _ h => h
      · rintro _ v ⟨change, hchange, h⟩
        obtain rfl := Except.ok.inj hchange
        exact ⟨[.clearProject], rfl, h⟩
      · exact fun _ _ h => h
  | incremental => exact serves_performUpdates hK _ _ deletionUpdate plan.deletions

/-- The sources of the updates are found to be as they were scanned. -/
theorem serves_revalidateUpserts (hJ : Persists J) (hE : ∀ e v, J v → E e v)
    (pages : List (PageUpsert D)) :
    Serves home allowed t J (revalidateUpserts pages)
      (fun _ v => (∀ u ∈ pages, u.source.validateSnapshot = .ok ()) ∧ J v) E := by
  unfold revalidateUpserts
  induction pages with
  | nil => exact triple_return () fun v h => ⟨fun u hu => absurd hu List.not_mem_nil, h⟩
  | cons page pages ih =>
      rw [List.foldlM_cons]
      apply triple_bind (R := fun _ v => page.source.validateSnapshot = .ok () ∧ J v)
      · apply triple_computed hE
        intro _ hvalid
        apply triple_mono (serves_bystanders hJ (calls_tryOp rfl (by exact trivial)))
        · exact fun _ h => h
        · exact fun _ _ h => ⟨except_mapError_eq_ok.1 hvalid, h⟩
        · exact hE
      · intro _
        apply triple_given
        intro hvalid
        apply triple_mono ih
        · exact fun _ h => h
        · exact fun _ _ h => ⟨List.forall_mem_cons.2 ⟨hvalid, h.1⟩, h.2⟩
        · exact fun _ _ h => h

/-- What the writes of a transaction make of the index `i`. -/
structure Applied (plan : SyncPlan D) (upserts : List (PageUpsert D))
    (staged : List (StagedPage D)) (generation : Int64) (i w : Index D) : Prop where
  published : Published plan upserts staged generation i w
  scheme : i.scheme = plan.previousScheme
  generation_eq : w.generation = generation
  valid : ∀ u ∈ upserts, u.source.validateSnapshot = .ok ()

/-- The writes end in an index of the next generation, in place of the index that
the plan was made from. -/
theorem serves_applyPlan (hK : Lasts K) (plan : SyncPlan D) (upserts : List (PageUpsert D))
    (staged : List (StagedPage D)) (generation : Int64) :
    Serves home allowed t (Opened project K i i)
      (applyPlan project plan upserts staged generation)
      (fun _ v => ∃ w, Applied plan upserts staged generation i w ∧ Opened project K i w v)
      fun _ => Working project K i := by
  unfold applyPlan
  apply triple_bind (serves_verifyPreconditions hK _ _ _)
  intro _
  apply triple_given
  rintro ⟨hgeneration, hscheme⟩
  apply triple_bind (serves_performDeletions hK plan)
  intro _
  apply triple_exists
  intro deletions
  apply triple_given
  intro hdeletions
  apply triple_bind (serves_performUpdates hK _ _ (upsertUpdate staged generation) upserts)
  intro _
  apply triple_exists
  intro changes
  apply triple_given
  intro hchanges
  apply triple_bind (serves_performUpdate hK _ _ _)
  intro _
  apply triple_exists
  intro stamp
  apply triple_given
  intro hstamp
  obtain rfl := Except.ok.inj hstamp
  apply triple_bind (serves_performUpdate hK _ _ _)
  intro _
  apply triple_exists
  intro advance
  apply triple_given
  intro hadvance
  obtain rfl := Except.ok.inj hadvance
  have hJ : ∀ w : Index D, Persists (Opened project K i w) := fun _ => persists_opened hK
  have hfails : ∀ w (e : SyncError D) v, Opened project K i w v → Working project K i v :=
    fun w _ _ h => ⟨w, h⟩
  apply serves_after (hJ _) (calls_verifyProjectRoot _ (by exact trivial)) (hfails _)
  intro _
  apply serves_after (hJ _) (bystands (calm_revalidateDeletionNamespaces _ _ _)) (hfails _)
  intro _
  apply triple_bind (serves_revalidateUpserts (hJ _) (hfails _) upserts)
  intro _
  apply triple_given
  intro hvalid
  apply serves_after (hJ _) (calls_tryOp rfl (by exact trivial)) (hfails _)
  intro _
  apply triple_mono (serves_bystanders (hJ _) (calls_verifyProjectRoot _ (by exact trivial)))
  · exact fun _ h => h
  · intro _ v h
    exact ⟨_, ⟨⟨hgeneration, deletions, changes, hdeletions, hchanges, rfl⟩, hscheme, rfl,
      hvalid⟩, h⟩
  · exact hfails _

omit [DecidableEq D] [Sha256 D] in
theorem nextGeneration_toInt {generation next : Int64}
    (h : nextGeneration (D := D) generation = .ok next) :
    next.toInt = generation.toInt + 1 := by
  unfold nextGeneration at h
  split at h
  next hlt =>
    obtain rfl := Except.ok.inj h
    have hone : (1 : Int64).toInt = 1 := rfl
    have hlow := generation.le_toInt
    rw [Int64.toInt_add, hone]
    apply Int.bmod_eq_of_le <;> omega
  · cases h

/-- The updates of a plan, some of them made again. -/
def Restaged (plan : SyncPlan D) (upserts : List (PageUpsert D)) : Prop :=
  ∃ paths restaged, restage plan.scan plan.upserts paths = .ok restaged ∧
    upserts.Perm restaged

/-- What the execution of a plan publishes in place of the index `i`. -/
structure Publishes (plan : SyncPlan D) (embedder : Embedder) (i w : Index D) : Prop where
  scheme : i.scheme = plan.previousScheme
  next : nextGeneration (D := D) plan.generation = .ok w.generation
  target : embeddingSchemeFor embedder = .ok plan.targetScheme
  made : ∃ upserts staged, Restaged plan upserts ∧ needsCommit plan upserts = true ∧
    stagePages embedder.signature upserts = .ok staged ∧
    (∀ u ∈ upserts, u.source.validateSnapshot = .ok ()) ∧
    Published plan upserts staged w.generation i w

theorem Publishes.advances {plan : SyncPlan D} {embedder : Embedder} {i w : Index D}
    (h : Publishes plan embedder i w) : w.generation.toInt = i.generation.toInt + 1 := by
  obtain ⟨upserts, staged, -, -, -, -, hpublished⟩ := h.made
  rw [hpublished.planned]
  exact nextGeneration_toInt h.next

/-- After `K` held the thread has found the project under this generation. -/
def Checked (K : List (StoreEvent D) → Prop) (project : PathBuf) (generation : Int64)
    (own : List (StoreEvent D)) : Prop :=
  ∃ newer x earlier, own = newer ++ x :: earlier ∧ K earlier ∧
    published x.op x.answer = none ∧ (x.before.index project).generation = generation

omit [Sha256 D] [DecidableEq D] in
theorem lasts_checked {generation : Int64} : Lasts (Checked K project generation) := by
  rintro e own ⟨newer, x, earlier, rfl, hchecked⟩
  exact ⟨e :: newer, x, earlier, rfl, hchecked⟩

omit [Sha256 D] [DecidableEq D] in
theorem Checked.kept (hK : Lasts K) {generation : Int64} {own : List (StoreEvent D)}
    (h : Checked K project generation own) : K own := by
  obtain ⟨newer, x, earlier, rfl, hkept, -⟩ := h
  have hall : K (x :: earlier) := hK x earlier hkept
  induction newer with
  | nil => exact hall
  | cons e newer ih => exact hK e _ ih

omit [Sha256 D] in
/-- Outside a transaction the preconditions are those of the index as it is. -/
theorem serves_checkPreconditions (hK : Lasts K) (path : PathBuf) (generation : Int64)
    (scheme : Option (EmbeddingScheme D)) :
    Serves home allowed t (Resting K)
      (verifyPreconditions project path generation scheme)
      (fun _ => Resting (Checked K project generation)) fun _ => Resting K := by
  have hfails : ∀ (e : SyncError D) v, Resting (Checked K project generation) v →
      Resting K v := fun _ _ h => ⟨h.idle, h.silent, h.kept.kept hK⟩
  unfold verifyPreconditions
  apply triple_bind (R := fun actual => Resting (Checked K project actual))
  · apply serves_reads rfl (by exact trivial)
      ((persists_resting hK).event (by exact trivial) fun _ _ h => h)
    intro s s' actual hs hsettle
    change (if actual = (s.now.view t project).generation then some s.now else none) = _
      at hsettle
    split at hsettle
    next h =>
      rw [view_of_none (hs.idle project)] at h
      exact ⟨hs.idle, silent_add hs.silent rfl, [], _, _, rfl, hs.kept, rfl, h.symm⟩
    · cases hsettle
  intro actual
  apply triple_bind (R := fun _ => Resting (Checked K project generation))
  · apply triple_weaken (triple_ofExcept _)
    intro v hv
    split
    next heq => exact heq ▸ hv
    · exact ⟨hv.idle, hv.silent, hv.kept.kept hK⟩
  · intro _
    apply triple_mono (serves_bystanders (persists_resting lasts_checked) _)
    · exact fun _ h => h
    · exact fun _ _ h => h
    · exact hfails
    · exact calls_bind (calls_tryOp rfl (by exact trivial)) fun _ => calls_ofExcept _

/-- A plan is only admitted for the project and the model that it was made for, and
under its generation. -/
theorem serves_admitPlan (hK : Lasts K) {root : PathBuf} (plan : SyncPlan D)
    (embedder : Embedder) :
    Serves home allowed t (Resting K) (admitPlan root plan embedder)
      (fun _ v => embeddingSchemeFor embedder = .ok plan.targetScheme ∧
        Resting (Checked K (home.projectPath root) plan.generation) v)
      fun _ => Resting K := by
  have hJ : Persists (Resting K) := persists_resting hK
  have hsame : ∀ (e : SyncError D) v, Resting K v → Resting K v := fun _ _ h => h
  unfold admitPlan
  apply triple_checked hsame
  intro _
  apply serves_after hJ (calls_tryOp rfl (by exact trivial)) hsame
  intro path
  apply triple_checked hsame
  intro _
  apply serves_after hJ (calls_verifyProjectRoot _ (by exact trivial)) hsame
  intro _
  apply triple_computed hsame
  intro actual hactual
  apply triple_checked hsame
  intro htarget
  rw [htarget] at hactual
  apply serves_openProject hJ hsame
  apply serves_after hJ (calls_verifyProjectRoot _ (by exact trivial)) hsame
  intro _
  apply triple_mono (serves_checkPreconditions hK _ _ _)
  · exact fun _ h => h
  · exact fun _ _ h => ⟨hactual, h⟩
  · exact hsame

theorem serves_recheckReferences (hK : Lasts K) (plan : SyncPlan D) :
    Serves home allowed t (Resting K) (recheckReferences plan)
      (fun upserts v => Restaged plan upserts ∧ Resting K v) fun _ => Resting K := by
  have hJ : Persists (Resting K) := persists_resting hK
  have hsame : ∀ (e : SyncError D) v, Resting K v → Resting K v := fun _ _ h => h
  unfold recheckReferences
  split
  · exact triple_return _ fun _ h => ⟨⟨[], _, rfl, List.Perm.refl _⟩, h⟩
  · apply serves_after hJ _ hsame
    · intro missing
      apply triple_computed hsame
      intro restaged hrestaged
      exact triple_return _ fun _ h =>
        ⟨⟨_, restaged, hrestaged, perm_sortUpserts restaged⟩, h⟩
    · apply calls_withLease
      apply calls_bind (calls_tryOp rfl (by exact trivial))
      intro _
      exact calls_bind (calls_tryOp rfl (by exact trivial)) fun _ => bystands (calm_missingVectors _)

/-- Under the lease everything is checked again, and the plan is applied. -/
theorem serves_publishPlan (hK : Lasts K) {root : PathBuf} {plan : SyncPlan D}
    {embedder : Embedder} {upserts : List (PageUpsert D)} {staged : List (StagedPage D)}
    (htarget : embeddingSchemeFor embedder = .ok plan.targetScheme)
    (hrestaged : Restaged plan upserts) (hcommit : needsCommit plan upserts = true)
    (hstaged : stagePages embedder.signature upserts = .ok staged)
    (embedded : List (Embedded D))
    (hallowed : ∀ i w own, K own → Publishes plan embedder i w →
      allowed t (home.projectPath root) i w own) :
    Serves home allowed t (Resting K)
      (publishPlan root plan embedder upserts staged embedded)
      (fun report v => v.Idle ∧ HasPublished (home.projectPath root)
        (fun w => w.generation = report.generation) v.own) fun _ => Resting K := by
  have hJ : Persists (Resting K) := persists_resting hK
  have hsame : ∀ (e : SyncError D) v, Resting K v → Resting K v := fun _ _ h => h
  unfold publishPlan
  apply serves_after hJ (calls_tryOp rfl (by exact trivial)) hsame
  intro _
  apply serves_openProject hJ hsame
  apply serves_after hJ (calls_verifyProjectRoot _ (by exact trivial)) hsame
  intro _
  apply serves_after hJ (bystands (calm_verifyPreconditions _ _ _ _)) hsame
  intro _
  apply serves_after hJ (bystands_storeVectors _ _ _) hsame
  intro embedded
  apply serves_after hJ (calls_tryOp rfl (by exact trivial)) hsame
  intro _
  apply serves_after hJ (bystands (calm_revalidateDeletionNamespaces _ _ _)) hsame
  intro _
  apply serves_after hJ (bystands (calm_revalidateUpserts _)) hsame
  intro _
  apply triple_computed hsame
  intro generation hgeneration
  apply triple_bind
  · apply serves_withTransaction hK (R := fun w => w.generation = generation)
    intro i
    apply triple_mono (serves_applyPlan hK plan upserts staged generation)
    · exact fun _ h => h
    · rintro _ v ⟨w, happlied, hopened⟩
      have hpublishes : Publishes plan embedder i w := by
        rw [← happlied.generation_eq] at hgeneration
        refine ⟨happlied.scheme, hgeneration, htarget, upserts, staged, hrestaged, hcommit,
          hstaged, happlied.valid, ?_⟩
        rw [happlied.generation_eq]
        exact happlied.published
      exact ⟨w, happlied.generation_eq, hopened,
        hallowed i w v.own hopened.kept hpublishes⟩
    · exact fun _ _ h => h
  · exact fun _ => triple_return _ fun _ h => h

/-- How a successful execution has ended: the index of the reported generation has
been published, or nothing was to be done under the generation of the plan. -/
def Concluded (project : PathBuf) (plan : SyncPlan D) (embedder : Embedder)
    (K : List (StoreEvent D) → Prop) (report : SyncReport) (own : List (StoreEvent D)) :
    Prop :=
  HasPublished project (fun w => w.generation = report.generation) own ∨
    report.generation = plan.generation ∧
      embeddingSchemeFor embedder = .ok plan.targetScheme ∧
      (∃ upserts, Restaged plan upserts ∧ needsCommit plan upserts = false) ∧
      Checked K project plan.generation own

omit [Sha256 D] [DecidableEq D] in
theorem persists_published {R : Index D → Prop} :
    Persists fun v : Session D => v.Idle ∧ HasPublished project R v.own := by
  rintro v e _ ⟨hidle, other, hother, hpublished⟩
  exact ⟨hidle, other, List.mem_cons_of_mem _ hother, hpublished⟩

/-- An execution commits once, or it fails and has published nothing. -/
theorem serves_executeSyncPlan (hK : Lasts K) {root : PathBuf} {plan : SyncPlan D}
    {embedder : Embedder}
    (hallowed : ∀ i w own, K own → Publishes plan embedder i w →
      allowed t (home.projectPath root) i w own) :
    Serves home allowed t (Resting K) (executeSyncPlan root plan embedder)
      (fun report v => v.Idle ∧
        Concluded (home.projectPath root) plan embedder K report v.own)
      fun _ => Resting K := by
  have hfails : ∀ (e : SyncError D) v,
      Resting (Checked K (home.projectPath root) plan.generation) v → Resting K v :=
    fun _ _ h => ⟨h.idle, h.silent, h.kept.kept hK⟩
  have hJ : Persists (Resting (Checked K (home.projectPath root) plan.generation)) :=
    persists_resting lasts_checked
  unfold executeSyncPlan
  apply triple_bind (serves_admitPlan hK plan embedder)
  intro _
  apply triple_given
  intro htarget
  apply triple_bind (triple_mono (serves_recheckReferences lasts_checked plan)
    (fun _ h => h) (fun _ _ h => h) hfails)
  intro upserts
  apply triple_given
  intro hrestaged
  split
  next hcommit =>
    apply triple_computed hfails
    intro staged hstaged
    apply serves_after hJ (bystands (calm_embedInitially _ _)) hfails
    intro embedded
    apply serves_after hJ (bystands (calm_revalidateUpserts _)) hfails
    intro _
    apply serves_after hJ (bystands (calm_revalidateDeletionNamespaces _ _ _)) hfails
    intro _
    have hpublishes := serves_publishPlan
      (K := Checked K (home.projectPath root) plan.generation) lasts_checked htarget
      hrestaged hcommit hstaged embedded fun i w own h => hallowed i w own (h.kept hK)
    apply triple_mono (serves_withLease (f := .vector) hJ (fun _ => persists_published)
      (fun _ => hJ) (fun _ _ h => h) hpublishes)
    · exact fun _ h => h
    · exact fun _ _ h => ⟨h.1, .inl h.2⟩
    · exact hfails
  next hnone =>
    refine triple_return _ fun _ h => ⟨h.idle, .inr ⟨rfl, htarget, ⟨upserts, hrestaged, ?_⟩,
      h.kept⟩⟩
    simpa using hnone

/-! The plan. -/

/-- The thread has read the generation of a project, and since then it has seen
the indexes `seen` of the project. -/
def Planning (project : PathBuf) (generation : Int64) (seen : List (Index D))
    (own : List (StoreEvent D)) : Prop :=
  ∃ newer r earlier, own = newer ++ r :: earlier ∧
    generationRead r.op r.answer = some (project, generation) ∧
    (r.before.index project).generation = generation ∧
    ∀ i ∈ seen, ∃ x ∈ newer, x.before.index project = i

omit [DecidableEq D] [Sha256 D] in
theorem lasts_planning {generation : Int64} {seen : List (Index D)} :
    Lasts (Planning project generation seen) := by
  rintro e own ⟨newer, r, earlier, rfl, hread, hgeneration, hseen⟩
  refine ⟨e :: newer, r, earlier, rfl, hread, hgeneration, ?_⟩
  intro i hi
  obtain ⟨x, hx, hsame⟩ := hseen i hi
  exact ⟨x, List.mem_cons_of_mem _ hx, hsame⟩

omit [DecidableEq D] [Sha256 D] in
theorem Planning.cons {generation : Int64} {seen : List (Index D)}
    {own : List (StoreEvent D)} (h : Planning project generation seen own)
    (e : StoreEvent D) :
    Planning project generation (e.before.index project :: seen) (e :: own) := by
  obtain ⟨newer, r, earlier, rfl, hread, hgeneration, hseen⟩ := h
  refine ⟨e :: newer, r, earlier, rfl, hread, hgeneration, ?_⟩
  intro i hi
  rcases List.mem_cons.1 hi with rfl | hmem
  · exact ⟨e, List.mem_cons_self, rfl⟩
  · obtain ⟨x, hx, hsame⟩ := hseen i hmem
    exact ⟨x, List.mem_cons_of_mem _ hx, hsame⟩

omit [DecidableEq D] [Sha256 D] in
theorem Planning.subset {generation : Int64} {seen seen' : List (Index D)}
    {own : List (StoreEvent D)} (h : Planning project generation seen own)
    (hsub : ∀ i ∈ seen', i ∈ seen) : Planning project generation seen' own := by
  obtain ⟨newer, r, earlier, hown, hread, hgeneration, hseen⟩ := h
  exact ⟨newer, r, earlier, hown, hread, hgeneration, fun i hi => hseen i (hsub i hi)⟩

/-- The plan of a scan over the parts of an index that were read one by one. -/
structure PlanOf (scan : ScanReport D) (embedder : Embedder) (mode : SyncMode)
    (scheme : Option (EmbeddingScheme D)) (docs : List (DocRow D)) (i : Index D)
    (plan : SyncPlan D) : Prop where
  valid : scan.validateSnapshot = .ok ()
  mode_eq : plan.mode = mode
  scan_eq : plan.scan = scan
  previous : plan.previousScheme = scheme
  target : embeddingSchemeFor embedder = .ok plan.targetScheme
  complete : checkComplete mode scan (existingDocs docs)
    (scheme ≠ some plan.targetScheme) = .ok ()
  deletions : plan.deletions = plannedDeletions mode scan (existingDocs docs)
  references : plan.unchangedVectorReferences = plannedReferences mode
    (unchangedPaths scan (existingDocs docs) (scheme ≠ some plan.targetScheme)) i
  upserts : ∃ missing, planUpserts mode scan (existingDocs docs)
    (scheme ≠ some plan.targetScheme) missing = .ok plan.upserts

/-- A thread has made a plan from what it has read of a project. -/
def PlannedIn (scan : ScanReport D) (embedder : Embedder) (mode : SyncMode)
    (project : PathBuf) (plan : SyncPlan D) (own : List (StoreEvent D)) : Prop :=
  ∃ i₁ i₂ i₃, Planning project plan.generation [i₁, i₂, i₃] own ∧
    PlanOf scan embedder mode i₁.scheme i₂.docs i₃ plan

theorem lasts_plannedIn {scan : ScanReport D} {embedder : Embedder} {mode : SyncMode}
    {plan : SyncPlan D} : Lasts (PlannedIn scan embedder mode project plan) := by
  rintro e own ⟨i₁, i₂, i₃, hplanning, hplan⟩
  exact ⟨i₁, i₂, i₃, lasts_planning e own hplanning, hplan⟩

omit [Sha256 D] in
/-- One more part of the index is read. -/
theorem serves_plans {generation : Int64} {seen : List (Index D)} {op : StoreOp D}
    {value : Index D → α} (operation : Text) (path : PathBuf)
    (h : StoreAns op = Except SqlError α) (hop : op.Bystander)
    (hread : ∀ (s s' : StoreState D) a, settle home t s op (cast h.symm (.ok a)) = some s' →
      a = value (s.view t project)) :
    Serves home allowed t (Resting (Planning project generation seen))
      (sql operation path op h)
      (fun a v => ∃ i, a = value i ∧ Resting (Planning project generation (i :: seen)) v)
      fun _ => Resting fun _ => True := by
  apply serves_reads h hop
  · intro _ v x hx hv
    exact ⟨hv.idle, silent_add hv.silent (published_bystander (hx ▸ hop) x.answer), trivial⟩
  · intro s s' a hs hsettle
    have hvalue := hread _ _ a hsettle
    rw [view_of_none (hs.idle project)] at hvalue
    exact ⟨_, hvalue, hs.idle, silent_add hs.silent (published_bystander hop _),
      hs.kept.cons ⟨t, op, cast h.symm (.ok a), s.now, s'.now⟩⟩

omit [Sha256 D] in
/-- The references are those of an index that has been seen. -/
theorem serves_readReferences {generation : Int64} {seen : List (Index D)}
    (mode : SyncMode) (unchanged : List PathBuf) (hi : i ∈ seen) :
    Serves home allowed t (Resting (Planning project generation seen))
      (readReferences mode project unchanged)
      (fun references v => ∃ j, references = plannedReferences mode unchanged j ∧
        Resting (Planning project generation (j :: seen)) v)
      fun _ => Resting fun _ => True := by
  unfold readReferences plannedReferences
  split
  · have hrows : Serves home allowed t (Resting (Planning project generation seen))
        (sql "query project vector-key inventory".toList project
          (.readChunkKeys project) rfl)
        (fun rows v => ∃ j : Index D,
          rows = j.chunks.map (fun row => (row.path, row.vectorHash)) ∧
            Resting (Planning project generation (j :: seen)) v)
        fun _ => Resting fun _ => True := by
      apply serves_plans _ _ rfl (by exact trivial)
      intro s s' a hsettle
      change (if a = (s.view t project).chunks.map
        (fun row => (row.path, row.vectorHash)) then some s else none) = _ at hsettle
      split at hsettle
      next h => exact h
      · cases hsettle
    apply triple_bind hrows
    intro rows
    apply triple_exists
    intro j
    apply triple_given
    rintro rfl
    exact triple_return _ fun _ h => ⟨j, rfl, h⟩
  · refine triple_return _ fun _ h => ⟨i, rfl, h.idle, h.silent, h.kept.subset ?_⟩
    intro j hj
    rcases List.mem_cons.1 hj with rfl | hmem
    · exact hi
    · exact hmem

/-- A plan is made from what is read of the project, the generation first. -/
theorem serves_planSynchronization (root : PathBuf) (scan : ScanReport D)
    (embedder : Embedder) (mode : SyncMode) :
    Serves home allowed t (Resting fun _ => True)
      (planSynchronization root scan embedder mode)
      (fun plan => Resting (PlannedIn scan embedder mode (home.projectPath root) plan))
      fun _ => Resting fun _ => True := by
  have hJ : Persists (Resting fun _ : List (StoreEvent D) => True) :=
    persists_resting fun _ _ _ => trivial
  have hsame : ∀ (e : SyncError D) (v : Session D), Resting (fun _ => True) v →
      Resting (fun _ => True) v := fun _ _ h => h
  have hfails : ∀ {K : List (StoreEvent D) → Prop} (e : SyncError D) (v : Session D),
      Resting K v → Resting (fun _ => True) v := fun _ _ h => ⟨h.idle, h.silent, trivial⟩
  unfold planSynchronization
  apply triple_computed hfails
  intro _ hvalid
  apply triple_computed hfails
  intro targetScheme htarget
  apply serves_after hJ (calls_tryOp rfl (by exact trivial)) hsame
  rintro ⟨projectPath, binding⟩
  apply serves_openProject hJ hsame
  apply serves_after hJ (calls_verifyProjectRoot _ (by exact trivial)) hsame
  intro _
  apply triple_bind (R := fun generation =>
    Resting (Planning (home.projectPath root) generation []))
  · apply serves_reads rfl (by exact trivial) (hJ.event (by exact trivial) hsame)
    intro s s' generation hs hsettle
    change (if generation = (s.now.view t (home.projectPath root)).generation then some s.now
      else none) = _ at hsettle
    split at hsettle
    next h =>
      rw [view_of_none (hs.idle _)] at h
      exact ⟨hs.idle, silent_add hs.silent rfl, [], _, _, rfl, rfl, h.symm,
        fun i hi => absurd hi List.not_mem_nil⟩
    · cases hsettle
  intro generation
  have hscheme : Serves home allowed t
      (Resting (Planning (home.projectPath root) generation []))
      (sql "read project embedding scheme".toList projectPath
        (.readEmbeddingScheme (home.projectPath root)) rfl)
      (fun scheme v => ∃ i : Index D, scheme = i.scheme ∧
        Resting (Planning (home.projectPath root) generation [i]) v)
      fun _ => Resting fun _ => True := by
    apply serves_plans _ _ rfl (by exact trivial)
    intro s s' a hsettle
    change (if a = (s.view t (home.projectPath root)).scheme then some s else none) = _
      at hsettle
    split at hsettle
    next h => exact h
    · cases hsettle
  apply triple_bind hscheme
  intro scheme
  apply triple_exists
  intro i₁
  apply triple_given
  rintro rfl
  have hdocs : Serves home allowed t
      (Resting (Planning (home.projectPath root) generation [i₁]))
      (sql "read project document inventory".toList projectPath
        (.readDocs (home.projectPath root)) rfl)
      (fun rows v => ∃ i : Index D, rows = i.docs ∧
        Resting (Planning (home.projectPath root) generation [i, i₁]) v)
      fun _ => Resting fun _ => True := by
    apply serves_plans _ _ rfl (by exact trivial)
    intro s s' a hsettle
    change (if a = (s.view t (home.projectPath root)).docs then some s else none) = _
      at hsettle
    split at hsettle
    next h => exact h
    · cases hsettle
  apply triple_bind hdocs
  intro rows
  apply triple_exists
  intro i₂
  apply triple_given
  rintro rfl
  apply triple_computed hfails
  intro _ hcomplete
  apply triple_bind (serves_readReferences mode _ List.mem_cons_self)
  intro references
  apply triple_exists
  intro i₃
  apply triple_given
  rintro rfl
  have hplans : Persists (Resting (Planning (home.projectPath root) generation
      [i₃, i₂, i₁])) := persists_resting lasts_planning
  apply serves_after hplans (bystands (calm_readMissingPaths _)) hfails
  intro missing
  apply serves_after hplans (calls_verifyProjectRoot _ (by exact trivial)) hfails
  intro _
  apply serves_after hplans (bystands (calm_revalidateDeletionNamespaces _ _ _)) hfails
  intro _
  apply triple_computed hfails
  intro upserts hupserts
  refine triple_return _ fun v h => ⟨h.idle, h.silent, i₁, i₂, i₃, h.kept.subset ?_, ?_⟩
  · intro i hi
    simp only [List.mem_cons, List.not_mem_nil, or_false] at hi ⊢
    rcases hi with rfl | rfl | rfl
    · exact .inr (.inr rfl)
    · exact .inr (.inl rfl)
    · exact .inl rfl
  · exact ⟨except_mapError_eq_ok.1 hvalid, rfl, rfl, rfl, htarget, hcomplete, rfl, rfl,
      missing, hupserts⟩

end

end Yams.Store
