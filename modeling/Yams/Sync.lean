/-
Synchronization as programs: a plan is captured from separate reads of the
index and of the vector cache, and executed with every precondition checked
again under the mutation lease and inside the publishing transaction.
-/
import Yams.SyncPlan

namespace Yams.Store

variable {D : Type}

attribute [local instance] lawfulBEq_vectorKey

/-- A program over the store that may stop with an error. -/
abbrev StoreProg (D ε : Type) := Fallible (StoreOp D) StoreAns ε

abbrev Sync (D : Type) := StoreProg D (SyncError D)

/-- Call an operation that may fail, and give its error as one of the caller. -/
def tryOp {ε ε' α : Type} (f : ε → ε') (op : StoreOp D)
    (h : StoreAns op = Except ε α) : StoreProg D ε' α :=
  ExceptT.mk (.call op fun answer => .ret ((cast h answer).mapError f))

/-- Stop with an error unless a condition holds. -/
def ensure {ε : Type} (p : Prop) [Decidable p] (error : ε) :
    StoreProg D ε Unit :=
  .ofExcept (if p then .ok () else .error error)

def classifyProjectSql (operation : Text) (path : PathBuf) :
    SqlError → SyncError D
  | .busy => .projectBusy operation path
  | .corrupt => .projectCorrupt operation path
  | .constraint => .projectConstraint operation path
  | .other _ => .projectDatabase operation path

def classifyProjectOpen : StoreError → SyncError D
  | .database operation path source => classifyProjectSql operation path source
  | .other detail => .store (.other detail)

def bindProjectRoot (root : PathBuf) :
    Sync D (PathBuf × ProjectRootBinding) :=
  tryOp .store (.bindProjectRoot root) rfl

def projectPathOf (root : PathBuf) : Sync D PathBuf :=
  tryOp .store (.projectPath root) rfl

def openProject (root : PathBuf) : Sync D PathBuf :=
  tryOp classifyProjectOpen (.openProject root) rfl

/-- Run one SQL statement of the project. -/
def sql {α : Type} (operation : Text) (path : PathBuf) (op : StoreOp D)
    (h : StoreAns op = Except SqlError α) : Sync D α :=
  tryOp (classifyProjectSql operation path) op h

def revalidateRoot (binding : ProjectRootBinding) : Sync D Bool :=
  Fallible.perform (StoreOp.revalidateRoot binding)

def verifyProjectRoot (binding : ProjectRootBinding) : Sync D Unit := do
  let same ← revalidateRoot binding
  ensure (same = true) (.projectRootChanged binding.path)

/-- The keys of a set in the batches of one lookup. -/
def lookupBatches (requested : List (VectorKey D)) :
    List (List (VectorKey D)) :=
  requested.toChunks 128

def openVectorCache : Sync D Unit := tryOp .vector .openVectorCache rfl

/-- Strike the keys that a lookup returned off the missing ones. -/
def strikeStored [DecidableEq D] (missing stored : List (VectorKey D)) :
    Except (SyncError D) (List (VectorKey D)) :=
  stored.foldlM (fun missing key =>
    if key ∈ missing then .ok (missing.filter fun other => other ≠ key)
    else .error (.vector (.unexpectedStoredKey key))) missing

/-- `VectorCache::missing`. -/
def missingVectors [DecidableEq D] (requested : List (VectorKey D)) :
    Sync D (List (VectorKey D)) :=
  (lookupBatches requested).foldlM (fun missing batch => do
    let stored ← tryOp .vector (.selectKeys batch) rfl
    Fallible.ofExcept (strikeStored missing stored)) requested

/-- Add the rows that a lookup returned to the found ones. -/
def collectFound [DecidableEq D] (requested : List (VectorKey D))
    (found rows : List (CachedVector D)) :
    Except (SyncError D) (List (CachedVector D)) :=
  rows.foldlM (fun found cached =>
    if cached.key ∉ requested then
      .error (.vector (.unexpectedStoredKey cached.key))
    else if (findVector found cached.key).isSome then
      .error (.vector (.duplicateStoredVector cached.key))
    else .ok (found ++ [cached])) found

/-- `VectorCache::get_many`. -/
def getMany [DecidableEq D] (requested : List (VectorKey D)) :
    Sync D (List (CachedVector D)) :=
  (lookupBatches requested).foldlM (fun found batch => do
    let rows ← tryOp .vector (.selectVectors batch) rfl
    Fallible.ofExcept (collectFound requested found rows)) []

/-- `VectorCache::insert_batch`. -/
def insertBatch [DecidableEq D] [Sha256 D] (input : List (VectorInsert D)) :
    Sync D Unit := do
  let prepared ← Fallible.ofExcept ((prepareBatch input).mapError .vector)
  if prepared.isEmpty then return ()
  else tryOp .vector (.insertVectors prepared) rfl

def revalidateLease : Sync D Unit := tryOp .vector .revalidateLease rfl

def releaseLease {ε : Type} : StoreProg D ε Unit :=
  Fallible.perform StoreOp.releaseLease

/-- Run a body that holds the mutation lease until its end. -/
def withLease {ε α : Type} (f : VectorError D → ε) (body : StoreProg D ε α) :
    StoreProg D ε α := do
  tryOp f .acquireLease rfl
  let result ← Fallible.observe body
  releaseLease
  Fallible.ofExcept result

section

variable [Sha256 D]

def revalidatePage [DecidableEq D] (page : ScannedPage D) : Sync D Unit := do
  Fallible.ofExcept (page.validateSnapshot.mapError .sourceChanged)
  tryOp .sourceChanged (.revalidatePage page.revision) rfl

def revalidateUpserts [DecidableEq D] (pages : List (PageUpsert D)) :
    Sync D Unit :=
  pages.foldlM (fun _ page => revalidatePage page.source) ()

def revalidateNamespaces [DecidableEq D] (scan : ScanReport D) :
    Sync D Unit := do
  Fallible.ofExcept (scan.validateSnapshot.mapError .sourceChanged)
  tryOp .sourceChanged (.revalidateNamespaces scan.namespaceRevisions) rfl

/-- The absence of pages matters to a rebuild and to deletions. -/
def needsNamespaceProof (mode : SyncMode) (deletions : List PathBuf) : Bool :=
  mode = .fullRebuild || !deletions.isEmpty

def revalidateDeletionNamespaces [DecidableEq D] (mode : SyncMode)
    (deletions : List PathBuf) (scan : ScanReport D) : Sync D Unit :=
  if needsNamespaceProof mode deletions then revalidateNamespaces scan
  else pure ()

variable [DecidableEq D]

/-- The references of the unchanged pages; a rebuild replaces every page. -/
def readReferences (mode : SyncMode) (project : PathBuf)
    (unchanged : List PathBuf) : Sync D (List (VectorReference D)) :=
  if mode = .incremental ∧ unchanged ≠ [] then do
    let rows ← sql "query project vector-key inventory".toList project
      (.readChunkKeys project) rfl
    return vectorReferences unchanged rows
  else pure []

/-- The pages whose references the cache does not have. -/
def readMissingPaths (references : List (VectorReference D)) :
    Sync D (List PathBuf) :=
  if requestedKeys references = [] then pure []
  else do
    openVectorCache
    let missing ← missingVectors (requestedKeys references)
    return pathsMissing references missing

/-- `plan_synchronization`. -/
def planSynchronization (root : PathBuf) (scan : ScanReport D)
    (embedder : Embedder) (mode : SyncMode) : Sync D (SyncPlan D) := do
  Fallible.ofExcept (scan.validateSnapshot.mapError .sourceChanged)
  let scheme ← Fallible.ofExcept (embeddingSchemeFor embedder)
  let (projectPath, binding) ← bindProjectRoot root
  let project ← openProject root
  verifyProjectRoot binding
  let generation ← sql "read project generation".toList projectPath
    (.readGeneration project) rfl
  let previousScheme ← sql "read project embedding scheme".toList projectPath
    (.readEmbeddingScheme project) rfl
  let rows ← sql "read project document inventory".toList projectPath
    (.readDocs project) rfl
  let existing := existingDocs rows
  let rebuildScheme : Bool := previousScheme ≠ some scheme
  Fallible.ofExcept (checkComplete mode scan existing rebuildScheme)
  let deletions := plannedDeletions mode scan existing
  let references ← readReferences mode project
    (unchangedPaths scan existing rebuildScheme)
  let missingPaths ← readMissingPaths references
  verifyProjectRoot binding
  revalidateDeletionNamespaces mode deletions scan
  let upserts ← Fallible.ofExcept
    (planUpserts mode scan existing rebuildScheme missingPaths)
  return {
    generation := generation, upserts := upserts, deletions := deletions,
    unknown := sortedUnknown scan, previousScheme := previousScheme,
    targetScheme := scheme, mode := mode, notes := sortedNotes scan,
    scan := scan, unchangedVectorReferences := references,
    projectPath := projectPath, projectBinding := binding,
    planSeal := Sha256.digest
      (planPreimage generation upserts deletions (sortedUnknown scan)) }

/-- `verify_project_preconditions`. -/
def verifyPreconditions (project path : PathBuf) (generation : Int64)
    (scheme : Option (EmbeddingScheme D)) : Sync D Unit := do
  let actualGeneration ← sql "recheck project generation".toList path
    (.readGeneration project) rfl
  ensure (actualGeneration = generation)
    (.projectChanged generation actualGeneration)
  let actualScheme ← sql "recheck project embedding scheme".toList path
    (.readEmbeddingScheme project) rfl
  ensure (actualScheme = scheme) (.projectSchemeChanged scheme actualScheme)

/-- The checks before any work: the seal, the project and the scheme. -/
def admitPlan (root : PathBuf) (plan : SyncPlan D) (embedder : Embedder) :
    Sync D Unit := do
  ensure (plan.planSeal = Sha256.digest plan.preimage) .alteredPlan
  let projectPath ← projectPathOf root
  ensure (projectPath = plan.projectPath)
    (.wrongPlanProject plan.projectPath projectPath)
  verifyProjectRoot plan.projectBinding
  let actual ← Fallible.ofExcept (embeddingSchemeFor embedder)
  ensure (actual = plan.targetScheme)
    (.planSchemeChanged plan.targetScheme actual)
  let project ← openProject root
  verifyProjectRoot plan.projectBinding
  verifyPreconditions project plan.projectPath plan.generation
    plan.previousScheme

/-- Replace or append the update of one page. -/
def putUpsert (upserts : List (PageUpsert D)) (replacement : PageUpsert D) :
    List (PageUpsert D) :=
  if upserts.any fun upsert =>
      upsert.source.path = replacement.source.path then
    upserts.map fun upsert =>
      if upsert.source.path = replacement.source.path then replacement
      else upsert
  else upserts ++ [replacement]

/-- Plan the replacement of the pages whose vectors are missing. -/
def restage (scan : ScanReport D) (upserts : List (PageUpsert D))
    (missingPaths : List PathBuf) :
    Except (SyncError D) (List (PageUpsert D)) :=
  missingPaths.foldlM (fun upserts path =>
    match findPage scan.present path with
    | none => .error (.panic
        "every unchanged vector reference belongs to a captured page".toList)
    | some page => (planPage page).map (putUpsert upserts)) upserts

def sortUpserts (upserts : List (PageUpsert D)) : List (PageUpsert D) :=
  upserts.mergeSort fun left right =>
    decide (left.path.toBytes ≤ right.path.toBytes)

/-- Check under the lease that the unchanged pages still have their vectors. -/
def recheckReferences (plan : SyncPlan D) : Sync D (List (PageUpsert D)) :=
  if plan.unchangedVectorReferences = [] then pure plan.upserts
  else do
    let missing ← withLease .vector do
      revalidateLease
      openVectorCache
      missingVectors (requestedKeys plan.unchangedVectorReferences)
    let upserts ← Fallible.ofExcept (restage plan.scan plan.upserts
      (pathsMissing plan.unchangedVectorReferences missing))
    return sortUpserts upserts

def needsCommit (plan : SyncPlan D) (upserts : List (PageUpsert D)) : Bool :=
  plan.mode = .fullRebuild || !upserts.isEmpty || !plan.deletions.isEmpty ||
    plan.previousScheme ≠ some plan.targetScheme

/-- A page that is to be replaced, with the keys of its chunks. -/
structure StagedPage (D : Type) [Sha256 D] where
  page : PageUpsert D
  chunks : List (StagedChunk D)

def stageForEmbedding (modelSignature : Text) (page : PageUpsert D) :
    Except (SyncError D) (StagedPage D) := do
  let chunks ← page.chunks.mapM fun chunk => do
    let key ← (vectorKey modelSignature .passage chunk.embedText).mapError
      SyncError.vector
    return ⟨chunk.ordinal, chunk.text, chunk.embedText, key⟩
  return ⟨page, chunks⟩

def stagePages (modelSignature : Text) (upserts : List (PageUpsert D)) :
    Except (SyncError D) (List (StagedPage D)) :=
  (upserts.filter fun page => page.kind = .replace).mapM
    (stageForEmbedding modelSignature)

def stagedChunks (staged : List (StagedPage D)) : List (StagedChunk D) :=
  staged.flatMap StagedPage.chunks

def stagedKeys (staged : List (StagedPage D)) : List (VectorKey D) :=
  ((stagedChunks staged).map StagedChunk.vectorKey).dedup

/-- The embedding input of each key; the last chunk of a key decides. -/
def stagedTexts (staged : List (StagedPage D)) : List (VectorKey D × Text) :=
  (stagedChunks staged).reverse.map fun chunk =>
    (chunk.vectorKey, chunk.embedText)

def lookupText (texts : List (VectorKey D × Text)) (key : VectorKey D) :
    Except (SyncError D) Text :=
  match texts.find? fun entry => entry.1 = key with
  | some entry => .ok entry.2
  | none => .error (.panic
      "every requested vector key has exact embedding text".toList)

/-- An embedded input. -/
structure Embedded (D : Type) where
  key : VectorKey D
  text : Text
  embedding : Embedding

def findEmbedded (embedded : List (Embedded D)) (key : VectorKey D) :
    Option (Embedded D) :=
  embedded.find? fun entry => entry.key = key

/-- The vectors of one batch, each of the expected dimension. -/
def acceptBatch (dimensions : Nat) :
    List (VectorKey D × Text) → List Embedding → List (Embedded D) →
      Except (SyncError D) (List (Embedded D))
  | (key, text) :: inputs, embedding :: embeddings, embedded =>
      if embedding.dimensions ≠ dimensions then
        .error (.embedding
          (.dimensionMismatch dimensions embedding.dimensions))
      else
        acceptBatch dimensions inputs embeddings (⟨key, text, embedding⟩ ::
          embedded.filter fun entry => entry.key ≠ key)
  | _, _, embedded => .ok embedded

def embedBatch (texts : List (VectorKey D × Text)) (dimensions : Nat)
    (embedded : List (Embedded D)) (batch : List (VectorKey D)) :
    Sync D (List (Embedded D)) := do
  let batchText ← Fallible.ofExcept (batch.mapM (lookupText texts))
  let embeddings ← tryOp .embedding (.embedPassages batchText) rfl
  ensure (embeddings.length = batch.length)
    (.embedding (.cardinalityMismatch batch.length embeddings.length))
  Fallible.ofExcept
    (acceptBatch dimensions (batch.zip batchText) embeddings embedded)

def embedKeys (keys : List (VectorKey D)) (texts : List (VectorKey D × Text))
    (dimensions : Nat) (embedded : List (Embedded D)) :
    Sync D (List (Embedded D)) :=
  (keys.toChunks 32).foldlM (embedBatch texts dimensions) embedded

def validateCachedVectors (embedder : Embedder)
    (cached : List (CachedVector D)) : Except (SyncError D) Unit :=
  cached.foldlM (fun _ cached =>
    if cached.modelSignature ≠ embedder.signature then
      .error (.cachedSignature cached.key embedder.signature
        cached.modelSignature)
    else if cached.dimensions ≠ embedder.dimensions then
      .error (.cachedDimensions cached.key embedder.dimensions
        cached.dimensions)
    else .ok ()) ()

/-- The requested keys that a lookup did not find. -/
def notFound (requested : List (VectorKey D)) (cached : List (CachedVector D)) :
    List (VectorKey D) :=
  requested.filter fun key => key ∉ keysOf cached

/-- Embed what the cache lacks, without holding the lease. -/
def embedInitially (staged : List (StagedPage D)) (embedder : Embedder) :
    Sync D (List (Embedded D)) :=
  let requested := stagedKeys staged
  if requested = [] then pure []
  else do
    openVectorCache
    let cached ← getMany requested
    Fallible.ofExcept (validateCachedVectors embedder cached)
    embedKeys (notFound requested cached) (stagedTexts staged)
      embedder.dimensions []

/-- A vector that was embedded must be the one that the cache has. -/
def checkCollisions (embedded : List (Embedded D))
    (cached : List (CachedVector D)) : Except (SyncError D) Unit :=
  embedded.foldlM (fun _ entry =>
    match findVector cached entry.key with
    | some actual =>
        if actual.embedding ≠ entry.embedding then
          .error (.vector (.vectorCollision entry.key))
        else .ok ()
    | none => .ok ()) ()

def vectorInsert (modelSignature : Text) (embedded : List (Embedded D))
    (key : VectorKey D) : Except (SyncError D) (VectorInsert D) :=
  match findEmbedded embedded key with
  | some entry =>
      .ok ⟨key, modelSignature, .passage, entry.text, entry.embedding⟩
  | none => .error (.panic
      "every missing vector was embedded before insertion".toList)

def firstMissing (requested : List (VectorKey D))
    (committed : List (CachedVector D)) : Except (SyncError D) Unit :=
  match notFound requested committed with
  | [] => .ok ()
  | key :: _ => .error (.missingCachedVector key)

/-- Under the lease, bring every requested vector into the cache. -/
def storeVectors (staged : List (StagedPage D)) (embedder : Embedder)
    (embedded : List (Embedded D)) : Sync D (List (Embedded D)) :=
  let requested := stagedKeys staged
  if requested = [] then pure embedded
  else do
    openVectorCache
    let cached ← getMany requested
    Fallible.ofExcept (validateCachedVectors embedder cached)
    Fallible.ofExcept (checkCollisions embedded cached)
    let missing := notFound requested cached
    let embedded ← embedKeys
      (missing.filter fun key => (findEmbedded embedded key).isNone)
      (stagedTexts staged) embedder.dimensions embedded
    let inserts ← Fallible.ofExcept
      (missing.mapM (vectorInsert embedder.signature embedded))
    insertBatch inserts
    let committed ← getMany requested
    Fallible.ofExcept (validateCachedVectors embedder committed)
    Fallible.ofExcept (firstMissing requested committed)
    return embedded

/-- `i64::checked_add(1)`. -/
def nextGeneration (generation : Int64) : Except (SyncError D) Int64 :=
  if generation.toInt + 1 < 2 ^ 63 then .ok (generation + 1)
  else .error (.generationOverflow generation)

def PageUpsert.row (page : PageUpsert D) (generation : Int64) : DocRow D :=
  ⟨page.path, page.corpus, page.status, page.source.sha256, page.byteLength,
    page.modifiedNs, page.device, page.inode, generation⟩

def deletionUpdate (path : PathBuf) : Except (SyncError D) (Update D) :=
  match Text.fromUtf8 path with
  | some path => .ok (.deletePage path)
  | none => .error (.panic
      "persisted SQLite paths were decoded from UTF-8 text".toList)

def upsertUpdate (staged : List (StagedPage D)) (generation : Int64)
    (page : PageUpsert D) : Except (SyncError D) (Update D) :=
  match page.kind with
  | .replace =>
      -- the last staged page of a path, as in a map by path
      match staged.reverse.find? fun entry => entry.page.path = page.path with
      | some entry =>
          .ok (.upsertPage (entry.page.row generation) entry.chunks)
      | none => .error (.panic "every replacement was staged".toList)
  | .metadataOnly => .ok (.updatePageMetadata (page.row generation))

def performUpdate (operation : Text) (project path : PathBuf)
    (update : Except (SyncError D) (Update D)) : Sync D Unit := do
  let change ← Fallible.ofExcept update
  sql operation path (.update project change) rfl

def performDeletions (project : PathBuf) (plan : SyncPlan D) : Sync D Unit :=
  match plan.mode with
  | .fullRebuild =>
      performUpdate "clear project for full rebuild".toList project
        plan.projectPath (.ok .clearProject)
  | .incremental =>
      plan.deletions.foldlM (fun _ path =>
        performUpdate "delete positively absent page".toList project
          plan.projectPath (deletionUpdate path)) ()

/-- The writes of the transaction, and the last checks before its commit. -/
def applyPlan (project : PathBuf) (plan : SyncPlan D)
    (upserts : List (PageUpsert D)) (staged : List (StagedPage D))
    (generation : Int64) : Sync D Unit := do
  verifyPreconditions project plan.projectPath plan.generation
    plan.previousScheme
  performDeletions project plan
  upserts.foldlM (fun _ page =>
    performUpdate "replace synchronized page".toList project plan.projectPath
      (upsertUpdate staged generation page)) ()
  performUpdate "stamp project embedding scheme".toList project
    plan.projectPath (.ok (.writeEmbeddingScheme plan.targetScheme))
  performUpdate "advance project generation".toList project plan.projectPath
    (.ok (.setGeneration generation))
  verifyProjectRoot plan.projectBinding
  revalidateDeletionNamespaces plan.mode plan.deletions plan.scan
  revalidateUpserts upserts
  revalidateLease
  verifyProjectRoot plan.projectBinding

def rollback (project : PathBuf) : Sync D Unit :=
  Fallible.perform (StoreOp.rollback project)

/-- Run a body in an immediate transaction: committed when the body succeeds,
and rolled back when the body or the commit fails. -/
def withTransaction (project path : PathBuf) (body : Sync D Unit) :
    Sync D Unit := do
  sql "begin immediate synchronization".toList path
    (.beginImmediate project) rfl
  let result ← Fallible.observe do
    body
    sql "commit project synchronization".toList path (.commit project) rfl
  match result with
  | .ok () => pure ()
  | .error error => do
      rollback project
      throw error

/-- The part of an execution that holds the lease. -/
def publishPlan (root : PathBuf) (plan : SyncPlan D) (embedder : Embedder)
    (upserts : List (PageUpsert D)) (staged : List (StagedPage D))
    (embedded : List (Embedded D)) : Sync D SyncReport := do
  revalidateLease
  let project ← openProject root
  verifyProjectRoot plan.projectBinding
  verifyPreconditions project plan.projectPath plan.generation
    plan.previousScheme
  let embedded ← storeVectors staged embedder embedded
  revalidateLease
  revalidateDeletionNamespaces plan.mode plan.deletions plan.scan
  revalidateUpserts upserts
  let generation ← Fallible.ofExcept (nextGeneration plan.generation)
  withTransaction project plan.projectPath
    (applyPlan project plan upserts staged generation)
  return {
    changed := upserts.length, removed := plan.deletions.length,
    embedded := embedded.length, generation := generation,
    notes := plan.notes }

/-- `execute_sync_plan`. -/
def executeSyncPlan (root : PathBuf) (plan : SyncPlan D)
    (embedder : Embedder) : Sync D SyncReport := do
  admitPlan root plan embedder
  let upserts ← recheckReferences plan
  if needsCommit plan upserts then do
    let staged ← Fallible.ofExcept (stagePages embedder.signature upserts)
    let embedded ← embedInitially staged embedder
    revalidateUpserts upserts
    revalidateDeletionNamespaces plan.mode plan.deletions plan.scan
    withLease .vector (publishPlan root plan embedder upserts staged embedded)
  else
    return {
      changed := 0, removed := 0, embedded := 0,
      generation := plan.generation, notes := plan.notes }

/-- `synchronize`. -/
def synchronize (root : PathBuf) (scan : ScanReport D) (embedder : Embedder)
    (mode : SyncMode) : Sync D SyncReport := do
  let plan ← planSynchronization root scan embedder mode
  executeSyncPlan root plan embedder

end

end Yams.Store
