/-
A project index: the tables of documents, chunks and full text with the
generation and the embedding scheme, and what each statement of a
synchronization does to them.
-/
import Yams.Chunk
import Yams.Vector

namespace Yams

/-- The embedding identity stamped into an index. -/
structure EmbeddingScheme (D : Type) where
  signature : D
  dimensions : Nat
  deriving DecidableEq

inductive EmbeddingSchemeError
  | invalidDimensions
  deriving DecidableEq

/-- The dimensions are positive and fit a signed integer. -/
def EmbeddingScheme.new {D : Type} (signature : D) (dimensions : Nat) :
    Except EmbeddingSchemeError (EmbeddingScheme D) :=
  if dimensions = 0 ∨ 2 ^ 63 ≤ dimensions then .error .invalidDimensions
  else .ok ⟨signature, dimensions⟩

structure DocRow (D : Type) where
  path : Text
  corpus : Text
  status : Option Text
  contentHash : D
  byteLength : Int64
  mtimeNs : Int64
  device : Int64
  inode : Int64
  generation : Int64
  deriving DecidableEq

structure ChunkRow (D : Type) where
  id : Nat
  path : Text
  ordinal : Nat
  text : Text
  embedText : Text
  vectorHash : VectorKey D
  deriving DecidableEq

structure FtsRow where
  rowid : Nat
  text : Text
  deriving DecidableEq

/-- The committed content of a project index. -/
structure Index (D : Type) where
  generation : Int64
  scheme : Option (EmbeddingScheme D)
  docs : List (DocRow D)
  chunks : List (ChunkRow D)
  chunksFts : List FtsRow
  deriving DecidableEq

/-- A chunk with its key, ready to be stored. -/
structure StagedChunk (D : Type) where
  ordinal : UInt32
  text : Text
  embedText : Text
  vectorKey : VectorKey D
  deriving DecidableEq

namespace Index

variable {D : Type}

/-- A newly created index. -/
def initial : Index D := ⟨0, none, [], [], []⟩

/-- The identifiers of the chunks of a page. -/
def chunkIds (index : Index D) (path : Text) : List Nat :=
  (index.chunks.filter fun row => row.path = path).map ChunkRow.id

/-- `DELETE FROM chunks_fts WHERE rowid IN (SELECT id FROM chunks WHERE path)`. -/
def deleteFullText (index : Index D) (path : Text) : Index D :=
  { index with
    chunksFts := index.chunksFts.filter fun row =>
      row.rowid ∉ index.chunkIds path }

/-- `DELETE FROM chunks WHERE path`. -/
def deleteChunks (index : Index D) (path : Text) : Index D :=
  { index with chunks := index.chunks.filter fun row => row.path ≠ path }

/-- `DELETE FROM docs WHERE path`; the chunks of the page go with it. -/
def deleteDoc (index : Index D) (path : Text) : Index D :=
  { index with
    docs := index.docs.filter fun row => row.path ≠ path
    chunks := index.chunks.filter fun row => row.path ≠ path }

/-- `INSERT INTO docs … ON CONFLICT(path) DO UPDATE`. -/
def upsertDoc (index : Index D) (row : DocRow D) : Index D :=
  if index.docs.any fun doc => doc.path = row.path then
    { index with
      docs := index.docs.map fun doc =>
        if doc.path = row.path then row else doc }
  else { index with docs := index.docs ++ [row] }

/-- `UPDATE docs … WHERE path`. -/
def updateDoc (index : Index D) (row : DocRow D) : Index D :=
  { index with
    docs := index.docs.map fun doc =>
      if doc.path = row.path then row else doc }

/-- The identifier of the next inserted chunk. -/
def nextId (index : Index D) : Nat :=
  (index.chunks.map ChunkRow.id).foldr max 0 + 1

/-- `INSERT INTO chunks` and `INSERT INTO chunks_fts` under the new row id. -/
def insertChunk (path : Text) (index : Index D) (chunk : StagedChunk D) :
    Index D :=
  { index with
    chunks := index.chunks ++
      [⟨index.nextId, path, chunk.ordinal.toNat, chunk.text, chunk.embedText,
        chunk.vectorKey⟩]
    chunksFts := index.chunksFts ++ [⟨index.nextId, chunk.text⟩] }

def deletePage (index : Index D) (path : Text) : Index D :=
  (index.deleteFullText path).deleteDoc path

/-- Every document goes, and its chunks with it. -/
def clearProject (index : Index D) : Index D :=
  { index with
    chunksFts := []
    docs := []
    chunks := index.chunks.filter fun row =>
      !index.docs.any fun doc => doc.path = row.path }

def upsertPage (index : Index D) (row : DocRow D)
    (chunks : List (StagedChunk D)) : Index D :=
  chunks.foldl (insertChunk row.path)
    (((index.deleteFullText row.path).deleteChunks row.path).upsertDoc row)

def writeEmbeddingScheme (index : Index D) (scheme : EmbeddingScheme D) :
    Index D :=
  { index with scheme := some scheme }

def setGeneration (index : Index D) (generation : Int64) : Index D :=
  { index with generation := generation }

/-- The paths of the indexed pages. -/
def paths (index : Index D) : List Text := index.docs.map DocRow.path

/-- The vector keys that the chunks of the index refer to. -/
def vectorKeys (index : Index D) : List (VectorKey D) :=
  index.chunks.map ChunkRow.vectorHash

end Index

end Yams
