/-
What a whole synchronization establishes: the plan was made from the index that
it replaces, every reference is looked up again, and what is published is the
planned updates of that index.
-/
import Yams.SyncOutline
import Mathlib.Data.List.Dedup

namespace Yams.Store

section

variable {D : Type} [DecidableEq D] {home : StoreHome} {t : Tid} {project : PathBuf}
  {initial : List (VectorKey D)} {foreign : VectorKey D → Prop}
variable {v : SyncView D} {ε ε' α β : Type} {Q : α → SyncView D → Prop}

/-! The transaction. -/

/-- Only looks at the index lie between two views. -/
structure Sees (v v' : SyncView D) : Prop where
  seen : ∀ i ∈ v.seen, i ∈ v'.seen
  working : v'.working = v.working
  tally : v'.toTally = v.toTally

omit [DecidableEq D] in
theorem Sees.cons (v : SyncView D) (i : Index D) :
    Sees v { v with seen := i :: v.seen } :=
  ⟨fun _ h => List.mem_cons_of_mem _ h, rfl, rfl⟩

omit [DecidableEq D] in
theorem Sees.trans {v v' v'' : SyncView D} (h : Sees v v') (h' : Sees v' v'') :
    Sees v v'' :=
  ⟨fun i hi => h'.seen i (h.seen i hi), h'.working.trans h.working,
    h'.tally.trans h.tally⟩

/-- The updates of a transaction in turn. -/
def applyAll (changes : List (Update D)) (i : Index D) : Index D :=
  changes.foldl (fun i change => change.apply i) i

/-- The preconditions hold of the own transaction, or of an index that is seen. -/
theorem syncs_verifyPreconditions (path : PathBuf) (generation : Int64)
    (scheme : Option (EmbeddingScheme D)) :
    Syncs home t project initial foreign v
      (verifyPreconditions project path generation scheme) fun _ v' =>
        Sees v v' ∧ ∃ i ∈ v'.seen, v.Before i ∧ i.Coherent ∧
          (v.working.getD i).generation = generation := by
  unfold verifyPreconditions
  apply leads_bind (syncs_generation _ _)
  rintro actual _ ⟨i, hbefore, hcoherent, hactual, rfl⟩
  apply syncs_ensure
  intro hgeneration
  apply leads_bind (syncs_scheme _ _)
  rintro actualScheme _ ⟨i', _, _, _, rfl⟩
  apply leads_ofExcept
  intro _ _
  refine ⟨(Sees.cons v i).trans (Sees.cons _ i'), i, ?_, hbefore, hcoherent, ?_⟩
  · exact List.mem_cons_of_mem _ List.mem_cons_self
  · rw [← hactual, hgeneration]

theorem syncs_performUpdate (operation : Text) (path : PathBuf) {w : Index D}
    (hw : v.working = some w) (update : Except (SyncError D) (Update D)) :
    Syncs home t project initial foreign v (performUpdate operation project path update)
      fun _ v' => ∃ change, update = .ok change ∧
        v' = { v with working := some (change.apply w) } := by
  unfold performUpdate
  apply syncs_ofExcept
  intro change hchange
  apply leads_mono (syncs_update operation path hw change)
  rintro _ _ rfl
  exact ⟨change, hchange, rfl⟩

theorem syncs_performUpdates {E : Type} (operation : Text) (path : PathBuf)
    (f : E → Except (SyncError D) (Update D)) (items : List E) {w : Index D}
    (hw : v.working = some w) :
    Syncs home t project initial foreign v
      (items.foldlM (fun _ item => performUpdate operation project path (f item)) ())
      fun _ v' => ∃ changes, items.mapM f = .ok changes ∧
        v' = { v with working := some (applyAll changes w) } := by
  induction items generalizing v w with
  | nil =>
      apply leads_pure
      refine ⟨[], rfl, ?_⟩
      rw [applyAll, List.foldl_nil, ← hw]
  | cons item items ih =>
      rw [List.foldlM_cons]
      apply leads_bind (syncs_performUpdate operation path hw (f item))
      rintro _ _ ⟨change, hchange, rfl⟩
      apply leads_mono (ih rfl)
      rintro _ _ ⟨changes, hchanges, rfl⟩
      refine ⟨change :: changes, ?_, rfl⟩
      rw [List.mapM_cons, hchange, hchanges]
      rfl

/-- The body starts from the index as it is, and its work is published. -/
theorem syncs_withTransaction {path : PathBuf} {body : Sync D Unit}
    {R : Index D → Index D → Prop}
    (hbody : ∀ i, v.Before i → i.Coherent →
      Syncs home t project initial foreign
        { v with seen := i :: v.seen, working := some i } body fun _ v' =>
          v'.toTally = v.toTally ∧ ∃ w, v'.working = some w ∧ R i w) :
    Syncs home t project initial foreign v (withTransaction project path body)
      fun _ v' => v'.toTally = v.toTally ∧
        ∃ i w, v.Before i ∧ i.Coherent ∧ R i w ∧ v'.seen = [w] := by
  unfold withTransaction
  apply leads_bind (syncs_begin _ _)
  rintro _ _ ⟨i, hbefore, hcoherent, rfl⟩
  have hcommit : Syncs home t project initial foreign
      { v with seen := i :: v.seen, working := some i }
      (do body
          sql "commit project synchronization".toList path (.commit project) rfl)
      fun _ v' => v'.toTally = v.toTally ∧ ∃ w, R i w ∧ v'.seen = [w] := by
    apply leads_bind (hbody i hbefore hcoherent)
    rintro _ v₁ ⟨htally, w, hw, hR⟩
    apply leads_mono (syncs_commit _ _ hw)
    rintro _ _ rfl
    exact ⟨htally, w, hR, rfl⟩
  apply leads_bind (leads_observe hcommit)
  rintro (error | ⟨⟩) v₂ hresult
  · apply leads_bind syncs_rollback
    intro _ _ _
    exact leads_throw
  · obtain ⟨htally, w, hR, hseen⟩ := hresult () rfl
    exact leads_pure ⟨htally, i, w, hbefore, hcoherent, hR, hseen⟩

section

variable [Sha256 D]

/-- The updates that remove pages. -/
def deletionChanges (plan : SyncPlan D) : Except (SyncError D) (List (Update D)) :=
  match plan.mode with
  | .fullRebuild => .ok [.clearProject]
  | .incremental => plan.deletions.mapM deletionUpdate

theorem syncs_performDeletions (plan : SyncPlan D) {w : Index D}
    (hw : v.working = some w) :
    Syncs home t project initial foreign v (performDeletions project plan)
      fun _ v' => ∃ changes, deletionChanges plan = .ok changes ∧
        v' = { v with working := some (applyAll changes w) } := by
  unfold performDeletions deletionChanges
  cases plan.mode with
  | fullRebuild =>
      apply leads_mono (syncs_performUpdate _ _ hw _)
      rintro _ _ ⟨change, hchange, rfl⟩
      obtain rfl := Except.ok.inj hchange
      exact ⟨[.clearProject], rfl, rfl⟩
  | incremental => exact syncs_performUpdates _ _ deletionUpdate plan.deletions hw

/-- The index that a plan publishes in place of `i`. -/
structure Published (plan : SyncPlan D) (upserts : List (PageUpsert D))
    (staged : List (StagedPage D)) (generation : Int64) (i w : Index D) : Prop where
  planned : i.generation = plan.generation
  changed : ∃ deletions changes, deletionChanges plan = .ok deletions ∧
    upserts.mapM (upsertUpdate staged generation) = .ok changes ∧
    w = ((applyAll changes (applyAll deletions i)).writeEmbeddingScheme
      plan.targetScheme).setGeneration generation

theorem syncs_applyPlan {plan : SyncPlan D} {upserts : List (PageUpsert D)}
    {staged : List (StagedPage D)} {generation : Int64} {i : Index D} (hi : v.working = some i) :
    Syncs home t project initial foreign v
      (applyPlan project plan upserts staged generation) fun _ v' =>
        v'.toTally = v.toTally ∧
        ∃ w, v'.working = some w ∧ Published plan upserts staged generation i w := by
  unfold applyPlan
  apply leads_bind (syncs_verifyPreconditions _ _ _)
  rintro _ v₁ ⟨hsees, j, _, _, _, hj⟩
  rw [hi] at hj
  have hw₁ : v₁.working = some i := hsees.working.trans hi
  apply leads_bind (syncs_performDeletions plan hw₁)
  rintro _ _ ⟨deletions, hdeletions, rfl⟩
  apply leads_bind (syncs_performUpdates _ _ (upsertUpdate staged generation) upserts rfl)
  rintro _ _ ⟨changes, hchanges, rfl⟩
  apply leads_bind (syncs_performUpdate _ _ rfl _)
  rintro _ _ ⟨change, hscheme, rfl⟩
  obtain rfl := Except.ok.inj hscheme
  apply leads_bind (syncs_performUpdate _ _ rfl _)
  rintro _ _ ⟨change, hnext, rfl⟩
  obtain rfl := Except.ok.inj hnext
  apply syncs_after (idles_verifyProjectRoot _)
  intro _
  apply syncs_after (idles_revalidateDeletionNamespaces _ _ _)
  intro _
  apply syncs_after (idles_revalidateUpserts _)
  intro _
  apply syncs_after idles_revalidateLease
  intro _
  apply leads_mono (idles_verifyProjectRoot _ _)
  rintro _ _ rfl
  exact ⟨hsees.tally, _, rfl, hj, deletions, changes, hdeletions, hchanges, rfl⟩

/-! The plan. -/

/-- Only reads lie between two views. -/
structure Reads (initial : List (VectorKey D)) (foreign : VectorKey D → Prop)
    (v v' : SyncView D) : Prop where
  seen : ∀ i ∈ v.seen, i ∈ v'.seen
  working : v'.working = v.working
  added : v'.added = v.added
  sent : v'.sent = v.sent
  inventories : ∀ rows ∈ v.inventories, rows ∈ v'.inventories
  shown : ∀ key ∈ v'.shown, key ∈ v.shown ∨ key ∈ initial ∨ foreign key ∨
    key ∈ v.added

omit [DecidableEq D] [Sha256 D] in
theorem Reads.trans {v v' v'' : SyncView D} (h : Reads initial foreign v v')
    (h' : Reads initial foreign v' v'') : Reads initial foreign v v'' := by
  refine ⟨fun i hi => h'.seen i (h.seen i hi), h'.working.trans h.working,
    h'.added.trans h.added, h'.sent.trans h.sent,
    fun rows hrows => h'.inventories rows (h.inventories rows hrows), ?_⟩
  intro key hkey
  rcases h'.shown key hkey with hold | hrest
  · exact h.shown key hold
  · rw [h.added] at hrest
    exact .inr hrest

omit [DecidableEq D] [Sha256 D] in
theorem Sees.reads {v v' : SyncView D} (h : Sees v v') : Reads initial foreign v v' := by
  have htally := h.tally
  refine ⟨h.seen, h.working, congrArg Tally.added htally, congrArg Tally.sent htally,
    ?_, ?_⟩
  · intro rows hrows
    rw [htally]
    exact hrows
  · intro key hkey
    rw [htally] at hkey
    exact .inl hkey

omit [DecidableEq D] [Sha256 D] in
theorem Looks.reads {v v' : SyncView D} (h : Looks initial foreign v v') :
    Reads initial foreign v v' := by
  refine ⟨?_, h.working, h.added, h.sent, ?_, h.shown⟩
  · rw [h.seen]
    exact fun _ hi => hi
  · rw [h.inventories]
    exact fun _ hrows => hrows

/-- The references that a plan for one index looks up. -/
def plannedReferences (mode : SyncMode) (unchanged : List PathBuf) (i : Index D) :
    List (VectorReference D) :=
  if mode = .incremental ∧ unchanged ≠ [] then
    vectorReferences unchanged (i.chunks.map fun row => (row.path, row.vectorHash))
  else []

omit [Sha256 D] in
theorem syncs_readReferences (mode : SyncMode) (unchanged : List PathBuf)
    (hw : v.working = none) :
    Syncs home t project initial foreign v (readReferences mode project unchanged)
      fun references v' => Sees v v' ∧ ∀ i ∈ v.seen, v'.Before i →
        references = plannedReferences mode unchanged i := by
  unfold readReferences plannedReferences
  split
  · apply leads_bind (syncs_chunkKeys _ _)
    rintro rows _ ⟨i', hbefore, _, hrows, rfl⟩
    apply leads_pure
    refine ⟨Sees.cons v i', ?_⟩
    intro i hi hlater
    have hsame : i' = i :=
      (hbefore i hi).antisymm (hlater i' List.mem_cons_self)
    rw [hrows, hw, hsame]
    rfl
  · exact leads_pure ⟨⟨fun _ h => h, rfl, rfl⟩, fun _ _ _ => rfl⟩

omit [Sha256 D] in
theorem syncs_readMissingPaths (references : List (VectorReference D)) :
    Syncs home t project initial foreign v (readMissingPaths references)
      fun _ v' => Looks initial foreign v v' := by
  unfold readMissingPaths
  split
  · exact leads_pure (Looks.refl v)
  · apply syncs_after idles_openVectorCache
    intro _
    apply leads_bind (syncs_missingVectors _)
    rintro missing v' ⟨hlooks, _⟩
    exact leads_pure hlooks

/-- Whether the index was made under another scheme. -/
def SyncPlan.rebuilds (plan : SyncPlan D) (i : Index D) : Bool :=
  i.scheme ≠ some plan.targetScheme

/-- The plan was made from one index. -/
structure Planned (scan : ScanReport D) (mode : SyncMode) (i : Index D)
    (plan : SyncPlan D) : Prop where
  mode_eq : plan.mode = mode
  scan_eq : plan.scan = scan
  previous : plan.previousScheme = i.scheme
  deletions : plan.deletions = plannedDeletions mode scan (existingDocs i.docs)
  references : plan.unchangedVectorReferences = plannedReferences mode
    (unchangedPaths scan (existingDocs i.docs) (plan.rebuilds i)) i
  upserts : ∃ missing, planUpserts mode scan (existingDocs i.docs) (plan.rebuilds i)
    missing = .ok plan.upserts

/-- A plan was made from the index that has its generation still, or again when
it is executed. -/
theorem syncs_planSynchronization {root : PathBuf} (hroot : home.projectPath root = project)
    (scan : ScanReport D) (embedder : Embedder) (mode : SyncMode)
    (hw : v.working = none) :
    Syncs home t project initial foreign v (planSynchronization root scan embedder mode)
      fun plan v' => Reads initial foreign v v' ∧
        ∀ i, v'.Before i → i.generation = plan.generation →
          Planned scan mode i plan ∧ i.docs ∈ v'.inventories := by
  unfold planSynchronization
  apply syncs_after (idles_ofExcept _)
  intro _
  apply syncs_ofExcept
  intro scheme _
  apply syncs_after (idles_tryOp rfl ⟨by exact trivial, fun _ _ => rfl⟩)
  rintro ⟨projectPath, binding⟩
  apply leads_bind (syncs_openProject hroot)
  rintro opened v₀ ⟨hsame₀, hopened⟩
  rw [hsame₀, hopened]
  apply syncs_after (idles_verifyProjectRoot _)
  intro _
  apply leads_bind (syncs_generation _ _)
  rintro generation _ ⟨i₁, hbefore₁, _, hgeneration, rfl⟩
  apply leads_bind (syncs_scheme _ _)
  rintro previous _ ⟨i₂, hbefore₂, _, hscheme, rfl⟩
  apply leads_bind (syncs_docs _ _)
  rintro rows _ ⟨i₃, hbefore₃, _, hrows, rfl⟩
  apply syncs_after (idles_ofExcept _)
  intro _
  apply leads_bind (syncs_readReferences mode _ (by exact hw))
  rintro references v₄ ⟨hsees, hreferences⟩
  apply leads_bind (syncs_readMissingPaths references)
  intro missing v₅ hlooks
  apply syncs_after (idles_verifyProjectRoot _)
  intro _
  apply syncs_after (idles_revalidateDeletionNamespaces _ _ _)
  intro _
  apply syncs_ofExcept
  intro upserts hupserts
  apply leads_pure
  rw [hw] at hgeneration hscheme hrows
  simp only [Option.getD_none] at hgeneration hscheme hrows
  have hreads : Reads initial foreign v
      { v with seen := i₃ :: i₂ :: i₁ :: v.seen, inventories := rows :: v.inventories } := by
    refine ⟨?_, rfl, rfl, rfl, ?_, fun _ hkey => .inl hkey⟩
    · intro i hi
      exact List.mem_cons_of_mem _ (List.mem_cons_of_mem _ (List.mem_cons_of_mem _ hi))
    · intro other hother
      exact List.mem_cons_of_mem _ hother
  refine ⟨hreads.trans (hsees.reads.trans hlooks.reads), ?_⟩
  intro i hlast hsame
  have hseen : ∀ j ∈ v₄.seen, j.Later i := by
    intro j hj
    apply hlast
    rw [hlooks.seen]
    exact hj
  have hfirst : i = i₁ := by
    apply (hseen i₁ (hsees.seen i₁ ?_)).eq_of_generation
    · exact hsame.trans hgeneration
    · simp
  have hsecond : i₂ = i := by
    rw [hfirst] at hseen ⊢
    exact (hbefore₂ i₁ List.mem_cons_self).antisymm
      (hseen i₂ (hsees.seen i₂ (by simp)))
  have hthird : i₃ = i := by
    rw [hfirst] at hseen ⊢
    exact (hbefore₃ i₁ (by simp)).antisymm (hseen i₃ (hsees.seen i₃ (by simp)))
  rw [hsecond] at hscheme
  rw [hthird] at hrows
  refine ⟨⟨rfl, rfl, hscheme, ?_, ?_, missing, ?_⟩, ?_⟩
  · rw [hrows]
  · rw [hreferences i (by simp [hfirst]) hseen, hrows, hscheme]
    rfl
  · rw [← hupserts, hrows, hscheme]
    rfl
  · rw [hlooks.inventories, hsees.tally, hrows]
    exact List.mem_cons_self

/-! The execution. -/

/-- An admitted plan has the generation of an index that is seen again. -/
theorem syncs_admitPlan {root : PathBuf} (hroot : home.projectPath root = project)
    (plan : SyncPlan D) (embedder : Embedder) :
    Syncs home t project initial foreign v (admitPlan root plan embedder) fun _ v' =>
      Sees v v' ∧ ∃ i ∈ v'.seen, v.Before i ∧ i.Coherent ∧
        (v.working.getD i).generation = plan.generation := by
  unfold admitPlan
  apply syncs_ensure
  intro _
  apply syncs_after (idles_tryOp rfl ⟨by exact trivial, fun _ _ => rfl⟩)
  intro projectPath
  apply syncs_ensure
  intro _
  apply syncs_after (idles_verifyProjectRoot _)
  intro _
  apply syncs_after (idles_ofExcept _)
  intro actual
  apply syncs_ensure
  intro _
  apply leads_bind (syncs_openProject hroot)
  rintro opened v₀ ⟨hsame, hopened⟩
  rw [hsame, hopened]
  apply syncs_after (idles_verifyProjectRoot _)
  intro _
  exact syncs_verifyPreconditions _ _ _

omit [DecidableEq D] in
theorem perm_sortUpserts (upserts : List (PageUpsert D)) :
    (sortUpserts upserts).Perm upserts := List.mergeSort_perm upserts _

omit [Sha256 D] in
theorem mem_pathsMissing {references : List (VectorReference D)}
    {missing : List (VectorKey D)} {r : VectorReference D} (hr : r ∈ references)
    (hmissing : r.key ∈ missing) : r.path ∈ pathsMissing references missing := by
  unfold pathsMissing
  rw [List.mem_dedup]
  exact List.mem_map_of_mem (List.mem_filter.2 ⟨hr, by simpa using hmissing⟩)

omit [Sha256 D] in
theorem mem_requestedKeys {references : List (VectorReference D)}
    {r : VectorReference D} (hr : r ∈ references) :
    r.key ∈ requestedKeys references := by
  unfold requestedKeys
  rw [List.mem_dedup]
  exact List.mem_map_of_mem hr

/-- The second look at the references: a reference is shown to be cached, or its
page is staged again. -/
theorem syncs_recheckReferences (plan : SyncPlan D) :
    Syncs home t project initial foreign v (recheckReferences plan)
      fun upserts v' => Looks initial foreign v v' ∧ ∃ paths restaged,
        restage plan.scan plan.upserts paths = .ok restaged ∧ upserts.Perm restaged ∧
        ∀ r ∈ plan.unchangedVectorReferences, r.key ∈ v'.shown ∨ r.path ∈ paths := by
  unfold recheckReferences
  split
  next hnone =>
    apply leads_pure
    refine ⟨Looks.refl v, [], plan.upserts, rfl, List.Perm.refl _, ?_⟩
    rw [hnone]
    intro r hr
    cases hr
  · have hbody : Syncs home t project initial foreign v
        (do revalidateLease
            openVectorCache
            missingVectors (requestedKeys plan.unchangedVectorReferences))
        fun missing v' => Looks initial foreign v v' ∧
          ∀ key ∈ requestedKeys plan.unchangedVectorReferences,
            key ∉ missing → key ∈ v'.shown := by
      apply syncs_after idles_revalidateLease
      intro _
      apply syncs_after idles_openVectorCache
      intro _
      exact syncs_missingVectors _
    apply leads_bind (syncs_withLease hbody)
    rintro missing v₁ ⟨hlooks, hshown⟩
    apply syncs_ofExcept
    intro restaged hrestaged
    apply leads_pure
    refine ⟨hlooks, _, restaged, hrestaged, perm_sortUpserts restaged, ?_⟩
    intro r hr
    by_cases hmissing : r.key ∈ missing
    · exact .inr (mem_pathsMissing hr hmissing)
    · exact .inl (hshown r.key (mem_requestedKeys hr) hmissing)

/-- What is published under the lease: the staged vectors are stored, and the
planned updates of the index as it is replace it. -/
theorem syncs_publishPlan {root : PathBuf} (hroot : home.projectPath root = project)
    {plan : SyncPlan D} {embedder : Embedder} {upserts : List (PageUpsert D)}
    {staged : List (StagedPage D)} {embedded : List (Embedded D)}
    (hready : ∀ key ∈ stagedKeys staged,
      key ∈ v.shown ∨ (findEmbedded embedded key).isSome) :
    Syncs home t project initial foreign v
      (publishPlan root plan embedder upserts staged embedded) fun report v' =>
        (∃ i w, v.Before i ∧ i.Coherent ∧
          Published plan upserts staged report.generation i w ∧ v'.seen = [w]) ∧
        Stores (fun key => key ∈ stagedKeys staged ∧ key ∉ v.shown)
          v.toTally v'.toTally ∧
        ∀ key ∈ stagedKeys staged, key ∈ v'.shown := by
  unfold publishPlan
  apply syncs_after idles_revalidateLease
  intro _
  apply leads_bind (syncs_openProject hroot)
  rintro opened v₀ ⟨hsame, hopened⟩
  rw [hsame, hopened]
  apply syncs_after (idles_verifyProjectRoot _)
  intro _
  apply leads_bind (syncs_verifyPreconditions _ _ _)
  rintro _ v₁ ⟨hsees, _⟩
  have hready₁ : ∀ key ∈ stagedKeys staged,
      key ∈ v₁.shown ∨ (findEmbedded embedded key).isSome := by
    rw [hsees.tally]
    exact hready
  apply leads_bind (syncs_storeVectors hready₁)
  rintro result v₂ ⟨hseen, hstores, hshown⟩
  rw [hsees.tally] at hstores
  apply syncs_after idles_revalidateLease
  intro _
  apply syncs_after (idles_revalidateDeletionNamespaces _ _ _)
  intro _
  apply syncs_after (idles_revalidateUpserts _)
  intro _
  apply syncs_after (idles_ofExcept _)
  intro generation
  have happly : ∀ i, v₂.Before i → i.Coherent →
      Syncs home t project initial foreign
        { v₂ with seen := i :: v₂.seen, working := some i }
        (applyPlan project plan upserts staged generation) fun _ v' =>
          v'.toTally = v₂.toTally ∧
          ∃ w, v'.working = some w ∧ Published plan upserts staged generation i w :=
    fun i _ _ => syncs_applyPlan rfl
  apply leads_bind (syncs_withTransaction happly)
  rintro _ v₃ ⟨htally, i, w, hbefore, hcoherent, hpublished, hlast⟩
  apply leads_pure
  rw [htally]
  refine ⟨⟨i, w, ?_, hcoherent, hpublished, hlast⟩, hstores, hshown⟩
  intro j hj
  apply hbefore
  rw [hseen]
  exact hsees.seen j hj

/-- Every reference of an unchanged page is among the shown keys, or its page is
among the restaged updates. -/
structure Rechecked (plan : SyncPlan D) (upserts : List (PageUpsert D))
    (shown : List (VectorKey D)) : Prop where
  restaged : ∃ paths restaged, restage plan.scan plan.upserts paths = .ok restaged ∧
    upserts.Perm restaged ∧
    ∀ r ∈ plan.unchangedVectorReferences, r.key ∈ shown ∨ r.path ∈ paths

/-- A synchronization with work to do: the index `w` replaced the index `i`, and
exactly the `missing` ones of the staged vectors were embedded. -/
structure Healed (initial : List (VectorKey D)) (embedder : Embedder)
    (plan : SyncPlan D) (upserts : List (PageUpsert D)) (staged : List (StagedPage D))
    (missing : List (VectorKey D)) (i w : Index D) (v : SyncView D) : Prop where
  stages : stagePages embedder.signature upserts = .ok staged
  published : Published plan upserts staged w.generation i w
  seen : v.seen = [w]
  shown : ∀ key ∈ stagedKeys staged, key ∈ v.shown
  lost : ∀ key ∈ missing, key ∈ stagedKeys staged ∧ key ∉ initial
  texts : ∀ key ∈ missing, ∃ text, lookupText (stagedTexts staged) key = .ok text
  sent : ∀ text, text ∈ v.sent ↔
    ∃ key ∈ missing, lookupText (stagedTexts staged) key = .ok text
  added : ∀ key ∈ v.added, key ∈ missing

/-- A synchronization without work has only looked at the index `i`. -/
structure Looked (i : Index D) (v : SyncView D) : Prop where
  seen : i ∈ v.seen
  sent : v.sent = []
  added : v.added = []

/-- How an execution of a plan ends: with the index `w`, which is the index `i`
of the plan when there was nothing to do. -/
structure Executed (initial : List (VectorKey D)) (embedder : Embedder)
    (plan : SyncPlan D) (i w : Index D) (v : SyncView D) : Prop where
  planned : i.generation = plan.generation
  coherent : i.Coherent
  ends : ∃ upserts, Rechecked plan upserts v.shown ∧
    (needsCommit plan upserts = false ∧ w = i ∧ Looked i v ∨
      ∃ staged missing, Healed initial embedder plan upserts staged missing i w v)

theorem syncs_executeSyncPlan {root : PathBuf} (hroot : home.projectPath root = project)
    (plan : SyncPlan D) (embedder : Embedder) (hw : v.working = none)
    (hadded : v.added = []) (hsent : v.sent = []) :
    Syncs home t project initial foreign v (executeSyncPlan root plan embedder)
      fun report v' => v'.inventories = v.inventories ∧
        ∃ i w, v.Before i ∧ w.generation = report.generation ∧
          Executed initial embedder plan i w v' := by
  unfold executeSyncPlan
  apply leads_bind (syncs_admitPlan hroot plan embedder)
  rintro _ v₁ ⟨hsees, i₁, hi₁, hbefore₁, hcoherent₁, hgeneration₁⟩
  rw [hw] at hgeneration₁
  apply leads_bind (syncs_recheckReferences plan)
  rintro upserts v₂ ⟨hlooks, paths, restaged, hrestaged, hperm, hreferences⟩
  have hinventories₂ : v₂.inventories = v.inventories := by
    rw [hlooks.inventories, hsees.tally]
  have hadded₂ : v₂.added = [] := by
    rw [hlooks.added, hsees.tally, hadded]
  have hsent₂ : v₂.sent = [] := by
    rw [hlooks.sent, hsees.tally, hsent]
  by_cases hcommit : needsCommit plan upserts = true
  · rw [if_pos hcommit]
    apply syncs_ofExcept
    intro staged hstaged
    apply leads_bind (syncs_embedInitially staged embedder)
    rintro embedded v₃ ⟨missing, v', hlooks', hsends, hmissing, hready⟩
    apply syncs_after (idles_revalidateUpserts _)
    intro _
    apply syncs_after (idles_revalidateDeletionNamespaces _ _ _)
    intro _
    have hready₃ : ∀ key ∈ stagedKeys staged,
        key ∈ v₃.shown ∨ (findEmbedded embedded key).isSome := by
      intro key hkey
      exact (hready key hkey).imp_right And.right
    apply leads_mono (syncs_withLease (syncs_publishPlan hroot hready₃))
    rintro report v₄ ⟨⟨i, w, hbefore, hcoherent, hpublished, hlast⟩, hstores, hshown⟩
    have hkept : ∀ key ∈ v₂.shown, key ∈ v₄.shown := by
      intro key hkey
      apply hstores.kept
      rw [hsends.shown]
      exact hlooks'.kept key hkey
    have hreport : w.generation = report.generation := by
      obtain ⟨deletions, changes, _, _, hw'⟩ := hpublished.changed
      rw [hw']
      rfl
    rw [← hreport] at hpublished
    refine ⟨?_, i, w, ?_, hreport, hpublished.planned, hcoherent, upserts,
      ⟨paths, restaged, hrestaged, hperm, ?_⟩, .inr ⟨staged, missing, hstaged,
        hpublished, hlast, hshown, hmissing, hsends.texts, ?_, ?_⟩⟩
    · rw [hstores.inventories, hsends.inventories, hlooks'.inventories, hinventories₂]
    · intro j hj
      apply hbefore
      rw [hsends.seen, hlooks'.seen, hlooks.seen]
      exact hsees.seen j hj
    · intro r hr
      exact (hreferences r hr).imp_left (hkept r.key)
    · intro text
      rw [hstores.sent, hsends.sent, hlooks'.sent, hsent₂]
      constructor
      · rintro (hnil | hfound)
        · cases hnil
        · exact hfound
      · exact .inr
    · intro key hkey
      rcases hstores.added key hkey with hold | ⟨hstagedKey, hnew⟩
      · rw [hsends.added, hlooks'.added, hadded₂] at hold
        cases hold
      · rcases hready key hstagedKey with hshown₃ | ⟨hmem, _⟩
        · exact absurd hshown₃ hnew
        · exact hmem
  · rw [if_neg hcommit]
    apply leads_pure
    refine ⟨hinventories₂, i₁, i₁, hbefore₁, hgeneration₁, hgeneration₁, hcoherent₁,
      upserts, ⟨paths, restaged, hrestaged, hperm, hreferences⟩,
      .inl ⟨?_, rfl, ?_, hsent₂, hadded₂⟩⟩
    · simpa using hcommit
    · rw [hlooks.seen]
      exact hi₁

/-- How a synchronization ends: the executed plan was made from the index that
it replaced or found again. -/
theorem syncs_synchronize {root : PathBuf} (hroot : home.projectPath root = project)
    (scan : ScanReport D) (embedder : Embedder) (mode : SyncMode)
    (hw : v.working = none) (hadded : v.added = []) (hsent : v.sent = []) :
    Syncs home t project initial foreign v (synchronize root scan embedder mode)
      fun report v' => ∃ plan i w, Planned scan mode i plan ∧ i.docs ∈ v'.inventories ∧
        w.generation = report.generation ∧ Executed initial embedder plan i w v' := by
  unfold synchronize
  apply leads_bind (syncs_planSynchronization hroot scan embedder mode hw)
  rintro plan v₁ ⟨hreads, hplanned⟩
  apply leads_mono (syncs_executeSyncPlan hroot plan embedder
    (hreads.working.trans hw) (hreads.added.trans hadded) (hreads.sent.trans hsent))
  rintro report v₂ ⟨hinventories, i, w, hbefore, hreport, hexecuted⟩
  obtain ⟨hplan, hdocs⟩ := hplanned i hbefore hexecuted.planned
  refine ⟨plan, i, w, hplan, ?_, hreport, hexecuted⟩
  rw [hinventories]
  exact hdocs

end

end

end Yams.Store
