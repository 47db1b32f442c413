/-
The store home: the committed project indexes, at most one writing transaction
on each, the shared vector cache and its mutation lease; and the operations by
which threads read and change them.  Everything else that an operation reports
is up to its environment.
-/
import Yams.Index
import Yams.Schedule
import Mathlib.Data.List.AList

namespace Yams.Store

abbrev Tid := Nat

/-- A failure of SQLite, by its result code. -/
inductive SqlError
  | busy | corrupt | constraint
  | other (detail : Text)
  deriving DecidableEq

inductive StoreError
  | database (operation : Text) (path : PathBuf) (source : SqlError)
  | other (detail : Text)
  deriving DecidableEq

inductive ManagementError (D : Type)
  | notSqlite (path : PathBuf)
  | vector (source : VectorError D)
  | incompleteInventory (operation : Text) (paths : List PathBuf)
  | vectorCacheNotCorrupt
  | other (detail : Text)
  deriving DecidableEq

/-- The directory that was bound as the project root. -/
structure ProjectRootBinding where
  path : PathBuf
  deriving DecidableEq

/-- The changes that a synchronization makes inside its transaction. -/
inductive Update (D : Type)
  | clearProject
  | deletePage (path : Text)
  | upsertPage (row : DocRow D) (chunks : List (StagedChunk D))
  | updatePageMetadata (row : DocRow D)
  | writeEmbeddingScheme (scheme : EmbeddingScheme D)
  | setGeneration (generation : Int64)
  deriving DecidableEq

def Update.apply {D : Type} : Update D → Index D → Index D
  | .clearProject, index => index.clearProject
  | .deletePage path, index => index.deletePage path
  | .upsertPage row chunks, index => index.upsertPage row chunks
  | .updatePageMetadata row, index => index.updateDoc row
  | .writeEmbeddingScheme scheme, index => index.writeEmbeddingScheme scheme
  | .setGeneration generation, index => index.setGeneration generation

/-- The operations of one thread.  A project is known by the path of its index;
reads go through the connection of the thread, which sees the transaction the
thread has open. -/
inductive StoreOp (D : Type)
  | bindProjectRoot (root : PathBuf)
  | projectPath (root : PathBuf)
  | revalidateRoot (binding : ProjectRootBinding)
  | openProject (root : PathBuf)
  | readGeneration (project : PathBuf)
  | readEmbeddingScheme (project : PathBuf)
  | readDocs (project : PathBuf)
  | readChunkKeys (project : PathBuf)
  | beginImmediate (project : PathBuf)
  | update (project : PathBuf) (change : Update D)
  | commit (project : PathBuf)
  | rollback (project : PathBuf)
  | openVectorCache
  | selectKeys (batch : List (VectorKey D))
  | selectVectors (batch : List (VectorKey D))
  | insertVectors (prepared : List (CachedVector D))
  | acquireLease
  | revalidateLease
  | releaseLease
  | revalidatePage (revision : PageRevision)
  | revalidateNamespaces (revisions : List NamespaceRevision)
  | embedPassages (texts : List Text)
  | vectorsExist
  | cachedKeys
  | quarantineVectors
  | sweepVectors (initial referenced : List (VectorKey D))
  | indexPaths
  | openIndex (path : PathBuf)
  | indexVectorKeys (path : PathBuf)
  deriving DecidableEq

def StoreAns {D : Type} : StoreOp D → Type
  | .bindProjectRoot _ => Except StoreError (PathBuf × ProjectRootBinding)
  | .projectPath _ => Except StoreError PathBuf
  | .revalidateRoot _ => Bool
  | .openProject _ => Except StoreError PathBuf
  | .readGeneration _ => Except SqlError Int64
  | .readEmbeddingScheme _ => Except SqlError (Option (EmbeddingScheme D))
  | .readDocs _ => Except SqlError (List (DocRow D))
  | .readChunkKeys _ => Except SqlError (List (Text × VectorKey D))
  | .beginImmediate _ => Except SqlError Unit
  | .update _ _ => Except SqlError Unit
  | .commit _ => Except SqlError Unit
  | .rollback _ => Unit
  | .openVectorCache => Except (VectorError D) Unit
  | .selectKeys _ => Except (VectorError D) (List (VectorKey D))
  | .selectVectors _ => Except (VectorError D) (List (CachedVector D))
  | .insertVectors _ => Except (VectorError D) Unit
  | .acquireLease => Except (VectorError D) Unit
  | .revalidateLease => Except (VectorError D) Unit
  | .releaseLease => Unit
  | .revalidatePage _ => Except ScanNote Unit
  | .revalidateNamespaces _ => Except ScanNote Unit
  | .embedPassages _ => Except EmbeddingError (List Embedding)
  | .vectorsExist => Bool
  | .cachedKeys => Except (ManagementError D) (List (VectorKey D))
  | .quarantineVectors => Except (ManagementError D) Unit
  | .sweepVectors _ _ => Except (VectorError D) SweepReport
  | .indexPaths => Except (ManagementError D) (List PathBuf)
  | .openIndex _ => Except (ManagementError D) Unit
  | .indexVectorKeys _ => Except (ManagementError D) (List (VectorKey D))

theorem ans_openVectorCache {D : Type} :
    StoreAns (.openVectorCache : StoreOp D) = Except (VectorError D) Unit := rfl

theorem ans_revalidateLease {D : Type} :
    StoreAns (.revalidateLease : StoreOp D) = Except (VectorError D) Unit := rfl

/-- An open transaction: who writes, and the index as that thread sees it. -/
structure Writer (D : Type) where
  thread : Tid
  working : Index D

structure StoreState (D : Type) where
  /-- the index files, by path -/
  indexes : AList fun _ : PathBuf => Index D
  writers : PathBuf → Option (Writer D)
  vectors : List (CachedVector D)
  lease : Option Tid

/-- Where the index of a project root is, and what the environment may do. -/
structure StoreHome where
  projectPath : PathBuf → PathBuf
  /-- the mutation lease keeps other threads out -/
  exclusive : Bool
  /-- the vector cache may be found corrupt and be set aside -/
  corruptible : Bool

section

variable {D : Type}

attribute [local instance] lawfulBEq_vectorKey

namespace StoreState

/-- The committed index of a project; it is empty before it is created. -/
def index (s : StoreState D) (project : PathBuf) : Index D :=
  (s.indexes.lookup project).getD .initial

/-- The index as a thread reads it. -/
def view (s : StoreState D) (t : Tid) (project : PathBuf) : Index D :=
  match s.writers project with
  | some writer =>
      if writer.thread = t then writer.working else s.index project
  | none => s.index project

/-- Opening creates an index that does not exist. -/
def create (s : StoreState D) (project : PathBuf) : StoreState D :=
  { s with indexes := s.indexes.insert project (s.index project) }

def begin (s : StoreState D) (t : Tid) (project : PathBuf) :
    Option (StoreState D) :=
  match s.writers project with
  | none =>
      some { s with
        writers := Function.update s.writers project
          (some ⟨t, s.index project⟩) }
  | some _ => none

/-- Change the open transaction of a thread. -/
def write (s : StoreState D) (t : Tid) (project : PathBuf)
    (change : Update D) : Option (StoreState D) :=
  match s.writers project with
  | some writer =>
      if writer.thread = t then
        some { s with
          writers := Function.update s.writers project
            (some ⟨t, change.apply writer.working⟩) }
      else none
  | none => none

def publish (s : StoreState D) (t : Tid) (project : PathBuf) :
    Option (StoreState D) :=
  match s.writers project with
  | some writer =>
      if writer.thread = t then
        some { s with
          indexes := s.indexes.insert project writer.working
          writers := Function.update s.writers project none }
      else none
  | none => none

/-- Close the transaction of a thread, if it has one. -/
def abandon (s : StoreState D) (t : Tid) (project : PathBuf) : StoreState D :=
  match s.writers project with
  | some writer =>
      if writer.thread = t then
        { s with writers := Function.update s.writers project none }
      else s
  | none => s

def release (s : StoreState D) (t : Tid) : StoreState D :=
  if s.lease = some t then { s with lease := none } else s

end StoreState

variable [DecidableEq D] (home : StoreHome)

/-- The state after an operation with a given answer, when that answer is
possible.  Every operation may fail without an effect. -/
def settle (t : Tid) (s : StoreState D) :
    (op : StoreOp D) → StoreAns op → Option (StoreState D)
  | .bindProjectRoot root, .ok (path, _) =>
      if path = home.projectPath root then some s else none
  | .projectPath root, .ok path =>
      if path = home.projectPath root then some s else none
  | .openProject root, .ok path =>
      if path = home.projectPath root then some (s.create path) else none
  | .readGeneration project, .ok generation =>
      if generation = (s.view t project).generation then some s else none
  | .readEmbeddingScheme project, .ok scheme =>
      if scheme = (s.view t project).scheme then some s else none
  | .readDocs project, .ok rows =>
      if rows = (s.view t project).docs then some s else none
  | .readChunkKeys project, .ok rows =>
      if rows = (s.view t project).chunks.map fun row =>
        (row.path, row.vectorHash) then some s else none
  | .beginImmediate project, .ok () => s.begin t project
  | .update project change, .ok () => s.write t project change
  | .commit project, .ok () => s.publish t project
  | .rollback project, () => some (s.abandon t project)
  | .selectKeys batch, .ok keys =>
      if keys = (keysOf s.vectors).filter fun key => key ∈ batch then some s
      else none
  | .selectVectors batch, .ok rows =>
      if rows = s.vectors.filter fun cached => cached.key ∈ batch then some s
      else none
  | .insertVectors prepared, .ok () =>
      match insertPrepared s.vectors prepared with
      | .ok vectors => some { s with vectors := vectors }
      | .error _ => none
  | .acquireLease, .ok () =>
      if s.lease = none ∨ home.exclusive = false then
        some { s with lease := some t }
      else none
  | .releaseLease, () => some (s.release t)
  | .cachedKeys, .ok keys => if keys = keysOf s.vectors then some s else none
  | .quarantineVectors, .ok () =>
      if home.corruptible then some { s with vectors := [] } else none
  | .sweepVectors initial referenced, .ok report =>
      let (kept, swept) := sweepStored initial referenced s.vectors
      if report = swept then some { s with vectors := kept } else none
  | .indexPaths, .ok paths =>
      if s.indexes.keys.all fun path => path ∈ paths then some s else none
  | .openIndex path, .ok () => if path ∈ s.indexes then some s else none
  | .openIndex path, .error (.notSqlite _) =>
      if path ∈ s.indexes then none else some s
  | .indexVectorKeys path, .ok keys =>
      if keys = (s.index path).vectorKeys then some s else none
  | _, _ => some s

/-- The answer of an operation that nothing disturbs. -/
def undisturbed (t : Tid) (s : StoreState D) : (op : StoreOp D) → StoreAns op
  | .bindProjectRoot root => .ok (home.projectPath root, ⟨root⟩)
  | .projectPath root => .ok (home.projectPath root)
  | .revalidateRoot _ => true
  | .openProject root => .ok (home.projectPath root)
  | .readGeneration project => .ok (s.view t project).generation
  | .readEmbeddingScheme project => .ok (s.view t project).scheme
  | .readDocs project => .ok (s.view t project).docs
  | .readChunkKeys project =>
      .ok ((s.view t project).chunks.map fun row => (row.path, row.vectorHash))
  | .beginImmediate _ => .ok ()
  | .update _ _ => .ok ()
  | .commit _ => .ok ()
  | .rollback _ => ()
  | .openVectorCache => .ok ()
  | .selectKeys batch =>
      .ok ((keysOf s.vectors).filter fun key => key ∈ batch)
  | .selectVectors batch =>
      .ok (s.vectors.filter fun cached => cached.key ∈ batch)
  | .insertVectors _ => .ok ()
  | .acquireLease => .ok ()
  | .revalidateLease => .ok ()
  | .releaseLease => ()
  | .revalidatePage _ => .ok ()
  | .revalidateNamespaces _ => .ok ()
  | .embedPassages texts => .ok (texts.map fun _ => ⟨[0]⟩)
  | .vectorsExist => true
  | .cachedKeys => .ok (keysOf s.vectors)
  | .quarantineVectors => .error .vectorCacheNotCorrupt
  | .sweepVectors initial referenced =>
      .ok (sweepStored initial referenced s.vectors).2
  | .indexPaths => .ok s.indexes.keys
  | .openIndex _ => .ok ()
  | .indexVectorKeys path => .ok (s.index path).vectorKeys

/-- A choice of the environment: no disturbance, or a given answer. -/
abbrev Choice (D : Type) := Option (Σ op : StoreOp D, StoreAns op)

def answerStore (t : Tid) (c : Choice D) (s : StoreState D) (op : StoreOp D) :
    Option (StoreAns op × StoreState D) :=
  match c with
  | none =>
      (settle home t s op (undisturbed home t s op)).map fun s' =>
        (undisturbed home t s op, s')
  | some ⟨op', answer⟩ =>
      if h : op' = op then
        (settle home t s op (h ▸ answer)).map fun s' => (h ▸ answer, s')
      else none

/-- The threads change the store; the environment does not change it alone. -/
def store : Interp Tid (StoreOp D) StoreAns (StoreState D) (Choice D) where
  answer := answerStore home
  disturb _ _ := none

theorem exec_store {t : Tid} {s s' : StoreState D} {op : StoreOp D}
    {answer : StoreAns op} :
    (store home).system.exec t s op answer s' ↔
      settle home t s op answer = some s' := by
  constructor
  · rintro ⟨c, hc⟩
    change answerStore home t c s op = some (answer, s') at hc
    unfold answerStore at hc
    split at hc
    · obtain ⟨s₁, hs₁, heq⟩ := Option.map_eq_some_iff.1 hc
      cases heq
      exact hs₁
    · split at hc
      · obtain ⟨s₁, hs₁, heq⟩ := Option.map_eq_some_iff.1 hc
        cases heq
        exact hs₁
      · cases hc
  · intro h
    refine ⟨some ⟨op, answer⟩, ?_⟩
    change answerStore home t (some ⟨op, answer⟩) s op = some (answer, s')
    simp [answerStore, h]

end

end Yams.Store
