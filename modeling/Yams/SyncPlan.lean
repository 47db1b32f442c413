/-
The work of a synchronization: page updates bound to their scanned sources, the
decisions of a plan from the scan and the indexed documents, and the seal over
the public part of a plan.
-/
import Yams.Frame
import Yams.Store
import Mathlib.Algebra.Group.Int.Defs

namespace Yams.Store

attribute [local instance] lawfulBEq_vectorKey

inductive SyncMode
  | incremental
  | fullRebuild
  deriving DecidableEq

inductive UpsertKind
  | replace
  | metadataOnly
  deriving DecidableEq

inductive SyncError (D : Type)
  | store (source : StoreError)
  | vector (source : VectorError D)
  | embedding (source : EmbeddingError)
  | chunk (source : ChunkError)
  | scheme (source : EmbeddingSchemeError)
  | invalidUtf8 (path : PathBuf)
  | metadataOutOfRange (path : PathBuf) (field : Text)
  | projectChanged (expected actual : Int64)
  | projectSchemeChanged (expected actual : Option (EmbeddingScheme D))
  | generationOverflow (generation : Int64)
  | sourceChanged (note : ScanNote)
  | incompleteEmbeddingScheme (retained : List PathBuf) (notes : List ScanNote)
  | incompleteIncremental (notes : List ScanNote)
  | incompleteFullRebuild (uninspected : List PathBuf) (notes : List ScanNote)
  | cachedSignature (key : VectorKey D) (expected actual : Text)
  | cachedDimensions (key : VectorKey D) (expected actual : Nat)
  | missingCachedVector (key : VectorKey D)
  | alteredPlan
  | wrongPlanProject (planned actual : PathBuf)
  | projectRootChanged (path : PathBuf)
  | planSchemeChanged (expected actual : EmbeddingScheme D)
  | projectBusy (operation : Text) (path : PathBuf)
  | projectCorrupt (operation : Text) (path : PathBuf)
  | projectConstraint (operation : Text) (path : PathBuf)
  | projectDatabase (operation : Text) (path : PathBuf)
  /-- an `expect` that failed -/
  | panic (message : Text)
  deriving DecidableEq

/-- An embedding model.  A signature is a string, so its length fits 64 bits. -/
structure Embedder where
  signature : Text
  dimensions : Nat
  signature_fits : signature.byteLength < 2 ^ 64

structure PageUpsert (D : Type) [Sha256 D] where
  source : ScannedPage D
  path : Text
  corpus : Text
  status : Option Text
  byteLength : Int64
  modifiedNs : Int64
  device : Int64
  inode : Int64
  chunks : List Chunk
  kind : UpsertKind

structure ExistingDoc (D : Type) where
  path : PathBuf
  corpus : Text
  status : Option Text
  contentHash : D
  byteLength : Int64
  modifiedNs : Int64
  device : Int64
  inode : Int64

/-- A page and one vector key that its stored chunks refer to. -/
structure VectorReference (D : Type) where
  path : PathBuf
  key : VectorKey D
  deriving DecidableEq

structure SyncPlan (D : Type) [Sha256 D] where
  generation : Int64
  upserts : List (PageUpsert D)
  deletions : List PathBuf
  unknown : List ScanNote
  previousScheme : Option (EmbeddingScheme D)
  targetScheme : EmbeddingScheme D
  mode : SyncMode
  notes : List ScanNote
  scan : ScanReport D
  unchangedVectorReferences : List (VectorReference D)
  projectPath : PathBuf
  projectBinding : ProjectRootBinding
  planSeal : D

structure SyncReport where
  changed : Nat
  removed : Nat
  embedded : Nat
  generation : Int64
  notes : List ScanNote
  deriving DecidableEq

section

variable {D : Type}

def corpusLabel : CorpusKind → Text
  | .shared => "shared".toList
  | .«private» => "private".toList
  | .override => "override".toList

/-- A row read back: its path is a path again. -/
def ExistingDoc.ofRow (row : DocRow D) : ExistingDoc D :=
  ⟨row.path.toBytes, row.corpus, row.status, row.contentHash, row.byteLength,
    row.mtimeNs, row.device, row.inode⟩

/-- The inventory of an index, in the order of its paths. -/
def existingDocs (rows : List (DocRow D)) : List (ExistingDoc D) :=
  (rows.map ExistingDoc.ofRow).mergeSort fun left right =>
    PathBytes.le left.path right.path

def findExisting (existing : List (ExistingDoc D)) (path : PathBuf) :
    Option (ExistingDoc D) :=
  existing.find? fun doc => doc.path = path

variable [Sha256 D]

/-- The last page of each path. -/
def lastByPath : List (ScannedPage D) → List (ScannedPage D)
  | [] => []
  | page :: rest =>
      if rest.any fun other => other.path = page.path then lastByPath rest
      else page :: lastByPath rest

/-- The present pages by path, each path once. -/
def presentPages (scan : ScanReport D) : List (ScannedPage D) :=
  (lastByPath scan.present).mergeSort fun left right =>
    PathBytes.le left.path right.path

def findPage (pages : List (ScannedPage D)) (path : PathBuf) :
    Option (ScannedPage D) :=
  pages.find? fun page => page.path = path

def isPresent (scan : ScanReport D) (path : PathBuf) : Bool :=
  scan.present.any fun page => page.path = path

def positivelyAbsent (scan : ScanReport D) (path : PathBuf) : Bool :=
  if scan.unknown.any fun note => PathBytes.startsWith path note.path then false
  else
    (scan.oversized ++ scan.rejected).any (fun note =>
      PathBytes.startsWith path note.path) ||
    scan.scannedCorpora.any fun root => PathBytes.startsWith path root

/-- The completely scanned corpora without a page although the index has one
that no note accounts for. -/
def readableEmptyIndexedCorpora (scan : ScanReport D)
    (existing : List (ExistingDoc D)) : List PathBuf :=
  (scan.scannedCorpora.filter fun root =>
    (existing.any fun doc =>
      PathBytes.startsWith doc.path root &&
        !(scan.oversized ++ scan.rejected).any fun note =>
          PathBytes.startsWith doc.path note.path) &&
    !scan.present.any fun page => PathBytes.startsWith page.path root)
  |>.mergeSort PathBytes.le

def dedupSorted [DecidableEq α] : List α → List α
  | [] => []
  | [x] => [x]
  | x :: y :: rest =>
      if x = y then dedupSorted (y :: rest) else x :: dedupSorted (y :: rest)

def sortedUnique (notes : List ScanNote) : List ScanNote :=
  dedupSorted (sortNotes notes)

def sortedNotes (scan : ScanReport D) : List ScanNote :=
  sortedUnique (scan.oversized ++ scan.rejected ++ scan.unknown)

def sortedUnknown (scan : ScanReport D) : List ScanNote :=
  sortedUnique scan.unknown

/-- The indexed paths that the scan does not present. -/
def unobservedPaths (scan : ScanReport D) (existing : List (ExistingDoc D)) :
    List PathBuf :=
  (existing.map ExistingDoc.path).filter fun path => !isPresent scan path

def incrementalDeletions (scan : ScanReport D)
    (existing : List (ExistingDoc D)) : List PathBuf :=
  (unobservedPaths scan existing).filter fun path => positivelyAbsent scan path

def retainedPaths (scan : ScanReport D) (existing : List (ExistingDoc D)) :
    List PathBuf :=
  (unobservedPaths scan existing).filter fun path =>
    path ∉ incrementalDeletions scan existing

def uninspectedPaths (scan : ScanReport D) (existing : List (ExistingDoc D)) :
    List PathBuf :=
  dedupSorted ((scan.unknown.map ScanNote.path ++ retainedPaths scan existing)
    |>.mergeSort PathBytes.le)

/-- The refusals of a plan over an incomplete observation. -/
def checkComplete (mode : SyncMode) (scan : ScanReport D)
    (existing : List (ExistingDoc D)) (rebuildScheme : Bool) :
    Except (SyncError D) Unit :=
  match mode with
  | .fullRebuild =>
      if uninspectedPaths scan existing = [] then .ok ()
      else
        .error (.incompleteFullRebuild (uninspectedPaths scan existing)
          (sortedNotes scan))
  | .incremental =>
      if readableEmptyIndexedCorpora scan existing ≠ [] then
        .error (.incompleteIncremental (sortedNotes scan))
      else if rebuildScheme ∧ retainedPaths scan existing ≠ [] then
        .error (.incompleteEmbeddingScheme (retainedPaths scan existing)
          (sortedNotes scan))
      else .ok ()

def plannedDeletions (mode : SyncMode) (scan : ScanReport D)
    (existing : List (ExistingDoc D)) : List PathBuf :=
  match mode with
  | .fullRebuild => unobservedPaths scan existing
  | .incremental => incrementalDeletions scan existing

def sqliteInteger (value : UInt64) (page : ScannedPage D) (field : Text) :
    Except (SyncError D) Int64 :=
  if value.toNat < 2 ^ 63 then .ok (Int64.ofNat value.toNat)
  else .error (.metadataOutOfRange page.path field)

def modifiedNanoseconds (page : ScannedPage D) : Except (SyncError D) Int64 :=
  if -2 ^ 63 ≤ page.modifiedNs ∧ page.modifiedNs < 2 ^ 63 then
    .ok (Int64.ofInt page.modifiedNs)
  else .error (.metadataOutOfRange page.path "modified nanoseconds".toList)

/-- `stored == value? && rest`. -/
def matchesThen (stored : Int64) (value : Except (SyncError D) Int64)
    (rest : Except (SyncError D) Bool) : Except (SyncError D) Bool := do
  let value ← value
  if stored = value then rest else .ok false

def pageUpsert (page : ScannedPage D) (status : Option Text)
    (chunks : List Chunk) (kind : UpsertKind) :
    Except (SyncError D) (PageUpsert D) :=
  match Text.fromUtf8 page.path with
  | none => .error (.invalidUtf8 page.path)
  | some path => do
      let byteLength ← sqliteInteger page.byteLen page "byte length".toList
      let modifiedNs ← modifiedNanoseconds page
      let device ← sqliteInteger page.device page "device".toList
      let inode ← sqliteInteger page.inode page "inode".toList
      return {
        source := page, path := path, corpus := corpusLabel page.corpus,
        status := status, byteLength := byteLength, modifiedNs := modifiedNs,
        device := device, inode := inode, chunks := chunks, kind := kind }

/-- The status of a page, when it is one of the recognized ones. -/
def pageStatus (source : Text) : Option Text :=
  ((parseFrontmatter source).fields.get "status".toList).filter fun value =>
    value = "current".toList ∨ value = "historical".toList ∨
      value = "in-progress".toList

def planPage (page : ScannedPage D) : Except (SyncError D) (PageUpsert D) :=
  match Text.fromUtf8 page.content with
  | none => .error (.invalidUtf8 page.path)
  | some source => do
      let chunks ← (chunksForPage page.path source).mapError .chunk
      pageUpsert page (pageStatus source) chunks .replace

def planMetadataPage (page : ScannedPage D) (status : Option Text) :
    Except (SyncError D) (PageUpsert D) :=
  pageUpsert page status [] .metadataOnly

variable [DecidableEq D]

def ExistingDoc.metadataMatches (doc : ExistingDoc D) (page : ScannedPage D) :
    Except (SyncError D) Bool :=
  if doc.corpus = corpusLabel page.corpus ∧ doc.contentHash = page.sha256 then
    matchesThen doc.byteLength
      (sqliteInteger page.byteLen page "byte length".toList) <|
    matchesThen doc.modifiedNs (modifiedNanoseconds page) <|
    matchesThen doc.device (sqliteInteger page.device page "device".toList) <|
    matchesThen doc.inode (sqliteInteger page.inode page "inode".toList) <|
    .ok true
  else .ok false

/-- The indexed pages whose bytes and scheme are those of the scan. -/
def unchangedPaths (scan : ScanReport D) (existing : List (ExistingDoc D))
    (rebuildScheme : Bool) : List PathBuf :=
  (existing.filter fun doc =>
    match findPage (presentPages scan) doc.path with
    | some page => !rebuildScheme && doc.contentHash = page.sha256
    | none => false).map ExistingDoc.path

/-- The references of some pages, from the stored chunks. -/
def vectorReferences (candidates : List PathBuf)
    (rows : List (Text × VectorKey D)) : List (VectorReference D) :=
  ((rows.map fun row => (⟨row.1.toBytes, row.2⟩ : VectorReference D)).filter
    fun reference => reference.path ∈ candidates).dedup

def requestedKeys (references : List (VectorReference D)) :
    List (VectorKey D) :=
  (references.map VectorReference.key).dedup

/-- The pages that refer to a missing vector. -/
def pathsMissing (references : List (VectorReference D))
    (missing : List (VectorKey D)) : List PathBuf :=
  ((references.filter fun reference => reference.key ∈ missing).map
    VectorReference.path).dedup

/-- What happens to one present page: a replacement, an update of its metadata,
or nothing. -/
def planUpsert (mode : SyncMode) (existing : List (ExistingDoc D))
    (rebuildScheme : Bool) (missingPaths : List PathBuf)
    (page : ScannedPage D) : Except (SyncError D) (Option (PageUpsert D)) :=
  let stale := mode = .fullRebuild ∨ rebuildScheme ∨ page.path ∈ missingPaths
  match findExisting existing page.path with
  | none => (planPage page).map some
  | some prior =>
      if stale ∨ prior.contentHash ≠ page.sha256 then (planPage page).map some
      else do
        if ← prior.metadataMatches page then return none
        else (planMetadataPage page prior.status).map some

def planUpserts (mode : SyncMode) (scan : ScanReport D)
    (existing : List (ExistingDoc D)) (rebuildScheme : Bool)
    (missingPaths : List PathBuf) : Except (SyncError D) (List (PageUpsert D)) := do
  let upserts ← (presentPages scan).mapM
    (planUpsert mode existing rebuildScheme missingPaths)
  return upserts.reduceOption

/-- The digest of the chunk layout and the model. -/
def embeddingSchemeFor (embedder : Embedder) :
    Except (SyncError D) (EmbeddingScheme D) :=
  if embedder.signature.isEmpty then .error (.vector .emptyModelSignature)
  else if 2 ^ 64 ≤ embedder.dimensions then
    .error (.embedding .dimensionOverflow)
  else
    let fields : List Bytes :=
      [Text.toBytes "yams-embedding-scheme-v1".toList,
        embedder.signature.toBytes, be64 embedder.dimensions,
        EmbeddingRole.passage.asStr.toBytes, be64 minChunk, be64 maxChunk,
        Text.toBytes
          "frontmatter-body;paragraph-line-hard-wrap;unicode-scalar-count".toList,
        Text.toBytes
          "frontmatter-title-or-name-or-filename;max-200-unicode-scalars".toList,
        Text.toBytes "title+LF+LF+display-chunk".toList]
    (EmbeddingScheme.new
      (Sha256.digest (fields.flatMap fun field => be64 field.length ++ field))
      embedder.dimensions).mapError .scheme

end

/-! The seal of a plan is a digest of length-delimited fields. -/

def planField (value : Bytes) : Bytes := be64 value.length ++ value

def planLength (length : Nat) : Bytes := planField (be64 length)

def planText (text : Text) : Bytes := planField text.toBytes

/-- `i64::to_be_bytes`. -/
def signedBytes (value : Int64) : Bytes := be64 value.toUInt64.toNat

/-- The debug name of a note kind. -/
def ScanNoteKind.debug : ScanNoteKind → Text
  | .oversized => "Oversized".toList
  | .raced => "Raced".toList
  | .unreadable => "Unreadable".toList
  | .unsafeSymlink => "UnsafeSymlink".toList
  | .unsafeDirectory => "UnsafeDirectory".toList
  | .unsafeHardLink => "UnsafeHardLink".toList
  | .outsideCorpus => "OutsideCorpus".toList
  | .unsafeFileType => "UnsafeFileType".toList
  | .navigation => "Navigation".toList

def UpsertKind.tag : UpsertKind → UInt8
  | .replace => 1
  | .metadataOnly => 2

def statusFields : Option Text → Bytes
  | some status => 1 :: planText status
  | none => [0]

def chunkFields (chunk : Chunk) : Bytes :=
  planField (beBytes chunk.ordinal.toNat) ++ planText chunk.text ++
    planText chunk.embedText

def noteFields (note : ScanNote) : Bytes :=
  planText "unknown".toList ++ planField note.path ++
    planText (ScanNoteKind.debug note.kind) ++ planText note.detail

def deletionFields (path : PathBuf) : Bytes :=
  planText "deletion".toList ++ planField path

section

variable {D : Type} [Sha256 D]

def upsertFields (page : PageUpsert D) : Bytes :=
  planText "upsert".toList ++ planField page.source.path ++
    planText page.corpus ++ statusFields page.status ++
    planText (Sha256.hex page.source.sha256) ++
    planField (signedBytes page.byteLength) ++
    planField (signedBytes page.modifiedNs) ++
    planField (signedBytes page.device) ++
    planField (signedBytes page.inode) ++ [page.kind.tag] ++
    planLength page.chunks.length ++ page.chunks.flatMap chunkFields

def planPreimage (generation : Int64) (upserts : List (PageUpsert D))
    (deletions : List PathBuf) (unknown : List ScanNote) : Bytes :=
  planText "yams-sync-plan-v1".toList ++ planField (signedBytes generation) ++
    (planLength upserts.length ++ upserts.flatMap upsertFields) ++
    (planLength deletions.length ++ deletions.flatMap deletionFields) ++
    (planLength unknown.length ++ unknown.flatMap noteFields)

def SyncPlan.preimage (plan : SyncPlan D) : Bytes :=
  planPreimage plan.generation plan.upserts plan.deletions plan.unknown

end

end Yams.Store
