/-
The parts of synchronizations and collections that leave every index, every
transaction, the vectors and the lease alone.
-/
import Yams.Collect
import Yams.SyncPublication
import Yams.SyncTrace

namespace Yams.Store

section

variable {D : Type} {C C' : StoreOp D → Prop} {ε ε' α β : Type}

theorem calls_mono {p : Prog (StoreOp D) StoreAns α} (h : ∀ op, C op → C' op)
    (hp : p.Calls C) : p.Calls C' := by
  induction p with
  | ret result => exact trivial
  | call op next ih => exact ⟨h op hp.1, fun answer => ih answer (hp.2 answer)⟩
  | loop body state next ihbody ihnext =>
      exact ⟨fun st => ihbody st (hp.1 st), fun result => ihnext result (hp.2 result)⟩

theorem bystands {p : Prog (StoreOp D) StoreAns α} (hp : p.Calls StoreOp.Calm) :
    p.Calls StoreOp.Bystander := calls_mono (fun _ => StoreOp.Calm.bystander) hp

theorem calls_tryOp {f : ε → ε'} {op : StoreOp D} (h : StoreAns op = Except ε α)
    (hop : C op) : (tryOp f op h).run.Calls C := ⟨hop, fun _ => trivial⟩

theorem calls_perform {op : StoreOp D} (hop : C op) :
    (Fallible.perform op : StoreProg D ε (StoreAns op)).run.Calls C :=
  ⟨hop, fun _ => trivial⟩

theorem calls_ofExcept (r : Except ε α) :
    (Fallible.ofExcept r : StoreProg D ε α).run.Calls C := trivial

theorem calls_bind {p : StoreProg D ε α} {f : α → StoreProg D ε β} (hp : p.run.Calls C)
    (hf : ∀ a, (f a).run.Calls C) : (p >>= f).run.Calls C :=
  Fallible.calls_follow p f hp hf

theorem calls_observe {p : StoreProg D ε α} (hp : p.run.Calls C) :
    (Fallible.observe p : StoreProg D ε' (Except ε α)).run.Calls C := by
  rw [Fallible.run_observe]
  exact Prog.calls_bind p.run _ hp fun _ => trivial

theorem calls_foldlM {F : Type} {f : β → F → StoreProg D ε β} (items : List F)
    (hf : ∀ b item, (f b item).run.Calls C) (b : β) : (items.foldlM f b).run.Calls C := by
  induction items generalizing b with
  | nil => exact trivial
  | cons item items ih =>
      rw [List.foldlM_cons]
      exact calls_bind (hf b item) fun b' => ih b'

/-- The lease itself is a bystander's affair. -/
theorem calls_withLease {f : VectorError D → ε} {body : StoreProg D ε α}
    (hbody : body.run.Calls StoreOp.Bystander) :
    (withLease f body).run.Calls StoreOp.Bystander := by
  apply calls_bind (calls_tryOp rfl trivial)
  intro _
  apply calls_bind (calls_observe hbody)
  intro result
  exact calls_bind (calls_perform trivial) fun _ => trivial

/-! A synchronization. -/

theorem calls_verifyProjectRoot (binding : ProjectRootBinding)
    (hroot : C (.revalidateRoot binding)) :
    (verifyProjectRoot (D := D) binding).run.Calls C :=
  calls_bind (calls_perform hroot) fun _ => trivial

variable [DecidableEq D]

theorem calm_missingVectors (requested : List (VectorKey D)) :
    (missingVectors requested).run.Calls StoreOp.Calm :=
  calls_foldlM _ (fun _ _ => calls_bind (calls_tryOp rfl trivial) fun _ =>
    calls_ofExcept _) _

theorem calm_getMany (requested : List (VectorKey D)) :
    (getMany requested).run.Calls StoreOp.Calm :=
  calls_foldlM _ (fun _ _ => calls_bind (calls_tryOp rfl trivial) fun _ =>
    calls_ofExcept _) _

theorem calm_embedKeys (keys : List (VectorKey D)) (texts : List (VectorKey D × Text))
    (dimensions : Nat) (embedded : List (Embedded D)) :
    (embedKeys keys texts dimensions embedded).run.Calls StoreOp.Calm := by
  apply calls_foldlM
  intro embedded batch
  apply calls_bind (calls_ofExcept _)
  intro _
  apply calls_bind (calls_tryOp rfl trivial)
  intro _
  exact calls_bind (calls_ofExcept _) fun _ => trivial

variable [Sha256 D]

omit [Sha256 D] in
theorem calm_verifyPreconditions (project path : PathBuf) (generation : Int64)
    (scheme : Option (EmbeddingScheme D)) :
    (verifyPreconditions project path generation scheme).run.Calls StoreOp.Calm := by
  apply calls_bind (calls_tryOp rfl trivial)
  intro _
  apply calls_bind (calls_ofExcept _)
  intro _
  exact calls_bind (calls_tryOp rfl trivial) fun _ => trivial

theorem calm_revalidateUpserts (pages : List (PageUpsert D)) :
    (revalidateUpserts pages).run.Calls StoreOp.Calm :=
  calls_foldlM _ (fun _ _ => calls_bind (calls_ofExcept _) fun _ =>
    calls_tryOp rfl trivial) _

theorem calm_revalidateDeletionNamespaces (mode : SyncMode) (deletions : List PathBuf)
    (scan : ScanReport D) :
    (revalidateDeletionNamespaces mode deletions scan).run.Calls StoreOp.Calm := by
  unfold revalidateDeletionNamespaces
  split
  · exact calls_bind (calls_ofExcept _) fun _ => calls_tryOp rfl trivial
  · exact trivial

omit [Sha256 D] in
theorem calm_readReferences (mode : SyncMode) (project : PathBuf)
    (unchanged : List PathBuf) :
    (readReferences (D := D) mode project unchanged).run.Calls StoreOp.Calm := by
  unfold readReferences
  split
  · exact calls_bind (calls_tryOp rfl trivial) fun _ => trivial
  · exact trivial

omit [Sha256 D] in
theorem calm_readMissingPaths (references : List (VectorReference D)) :
    (readMissingPaths references).run.Calls StoreOp.Calm := by
  unfold readMissingPaths
  split
  · exact trivial
  · apply calls_bind (calls_tryOp rfl trivial)
    intro _
    exact calls_bind (calm_missingVectors _) fun _ => trivial

/-- A plan only reads; opening a project creates an empty index at most. -/
theorem calm_planSynchronization (root : PathBuf) (scan : ScanReport D)
    (embedder : Embedder) (mode : SyncMode) :
    (planSynchronization root scan embedder mode).run.Calls StoreOp.Calm := by
  unfold planSynchronization
  apply calls_bind (calls_ofExcept _)
  intro _
  apply calls_bind (calls_ofExcept _)
  intro _
  apply calls_bind (calls_tryOp rfl trivial)
  rintro ⟨_, _⟩
  apply calls_bind (calls_tryOp rfl trivial)
  intro _
  apply calls_bind (calls_verifyProjectRoot _ trivial)
  intro _
  apply calls_bind (calls_tryOp rfl trivial)
  intro _
  apply calls_bind (calls_tryOp rfl trivial)
  intro _
  apply calls_bind (calls_tryOp rfl trivial)
  intro _
  apply calls_bind (calls_ofExcept _)
  intro _
  apply calls_bind (calm_readReferences _ _ _)
  intro _
  apply calls_bind (calm_readMissingPaths _)
  intro _
  apply calls_bind (calls_verifyProjectRoot _ trivial)
  intro _
  apply calls_bind (calm_revalidateDeletionNamespaces _ _ _)
  intro _
  exact calls_bind (calls_ofExcept _) fun _ => trivial

theorem calm_admitPlan (root : PathBuf) (plan : SyncPlan D) (embedder : Embedder) :
    (admitPlan root plan embedder).run.Calls StoreOp.Calm := by
  unfold admitPlan
  apply calls_bind (calls_ofExcept _)
  intro _
  apply calls_bind (calls_tryOp rfl trivial)
  intro _
  apply calls_bind (calls_ofExcept _)
  intro _
  apply calls_bind (calls_verifyProjectRoot _ trivial)
  intro _
  apply calls_bind (calls_ofExcept _)
  intro _
  apply calls_bind (calls_ofExcept _)
  intro _
  apply calls_bind (calls_tryOp rfl trivial)
  intro _
  apply calls_bind (calls_verifyProjectRoot _ trivial)
  intro _
  exact calm_verifyPreconditions _ _ _ _

theorem calm_embedInitially (staged : List (StagedPage D)) (embedder : Embedder) :
    (embedInitially staged embedder).run.Calls StoreOp.Calm := by
  unfold embedInitially
  dsimp only
  split
  · exact trivial
  · apply calls_bind (calls_tryOp rfl trivial)
    intro _
    apply calls_bind (calm_getMany _)
    intro _
    exact calls_bind (calls_ofExcept _) fun _ => calm_embedKeys _ _ _ _

theorem bystands_recheckReferences (plan : SyncPlan D) :
    (recheckReferences plan).run.Calls StoreOp.Bystander := by
  unfold recheckReferences
  split
  · exact trivial
  · apply calls_bind
    · apply calls_withLease
      apply calls_bind (calls_tryOp rfl trivial)
      intro _
      exact calls_bind (calls_tryOp rfl trivial) fun _ => bystands (calm_missingVectors _)
    · intro _
      exact calls_bind (calls_ofExcept _) fun _ => trivial

theorem bystands_insertBatch (input : List (VectorInsert D)) :
    (insertBatch input).run.Calls StoreOp.Bystander := by
  unfold insertBatch
  apply calls_bind (calls_ofExcept _)
  intro prepared
  split
  · exact trivial
  · exact calls_tryOp rfl trivial

theorem bystands_storeVectors (staged : List (StagedPage D)) (embedder : Embedder)
    (embedded : List (Embedded D)) :
    (storeVectors staged embedder embedded).run.Calls StoreOp.Bystander := by
  unfold storeVectors
  dsimp only
  split
  · exact trivial
  · apply calls_bind (calls_tryOp rfl trivial)
    intro _
    apply calls_bind (bystands (calm_getMany _))
    intro _
    apply calls_bind (calls_ofExcept _)
    intro _
    apply calls_bind (calls_ofExcept _)
    intro _
    apply calls_bind (bystands (calm_embedKeys _ _ _ _))
    intro _
    apply calls_bind (calls_ofExcept _)
    intro _
    apply calls_bind (bystands_insertBatch _)
    intro _
    apply calls_bind (bystands (calm_getMany _))
    intro _
    apply calls_bind (calls_ofExcept _)
    intro _
    exact calls_bind (calls_ofExcept _) fun _ => trivial

end

/-! A collection. -/

section

variable {D : Type}

theorem calm_cachedKeys : (cachedKeys (D := D)).run.Calls StoreOp.Calm := by
  apply calls_bind (calls_perform trivial)
  intro present
  unfold emptyUnless
  split
  · exact calls_tryOp rfl trivial
  · exact trivial

theorem calm_readIndex (st : Inventory D) (path : PathBuf) :
    (readIndex st path).run.Calls StoreOp.Calm := by
  apply calls_bind (calls_observe (calls_tryOp rfl trivial))
  intro opened
  unfold extendInventory
  split
  · exact calls_bind (calls_tryOp rfl trivial) fun _ => trivial
  · exact trivial
  · exact trivial

theorem calm_liveKeys : (liveKeys (D := D)).run.Calls StoreOp.Calm := by
  apply calls_bind (calls_tryOp rfl trivial)
  intro _
  apply calls_bind (calls_foldlM _ (fun _ _ => calm_readIndex _ _) _)
  intro _
  exact calls_bind (calls_ofExcept _) fun _ => trivial

theorem bystands_initialKeys : (initialKeys (D := D)).run.Calls StoreOp.Bystander := by
  apply calls_bind (calls_observe (bystands calm_cachedKeys))
  intro keys
  unfold recoverKeys
  split
  · exact trivial
  · exact calls_bind (calls_observe (calls_tryOp rfl trivial)) fun _ => trivial

/-- A collection leaves every index and every transaction alone. -/
theorem bystands_gc : (gc (D := D)).run.Calls StoreOp.Bystander := by
  apply calls_bind (calls_perform trivial)
  intro present
  unfold gcIfPresent
  split
  · apply calls_withLease
    apply calls_bind (calls_tryOp ans_revalidateLease trivial)
    intro _
    apply calls_bind bystands_initialKeys
    intro _
    apply calls_bind (bystands calm_liveKeys)
    intro _
    apply calls_bind (bystands calm_liveKeys)
    intro _
    apply calls_bind (calls_tryOp ans_openVectorCache trivial)
    intro _
    apply calls_bind (calls_tryOp ans_revalidateLease trivial)
    intro _
    exact calls_tryOp rfl trivial
  · exact trivial

end

end Yams.Store
