/-
The vector cache: content addresses of embedding inputs, the validation of a
batch before it is inserted, and the effect of an insertion and of a sweep on
the stored rows.  The components of a vector are kept as bit patterns.
-/
import Yams.Scan

namespace Yams

/-- A normalized vector. -/
structure Embedding where
  components : List UInt32
  deriving DecidableEq

def Embedding.dimensions (embedding : Embedding) : Nat :=
  embedding.components.length

inductive EmbeddingError
  | cardinalityMismatch (expected actual : Nat)
  | dimensionMismatch (expected actual : Nat)
  | dimensionOverflow
  | other (detail : Text)
  deriving DecidableEq

inductive EmbeddingRole
  | passage | query
  deriving DecidableEq

def EmbeddingRole.asStr : EmbeddingRole → Text
  | .passage => "passage".toList
  | .query => "query".toList

/-- A vector key is the digest of an embedding input. -/
abbrev VectorKey (D : Type) := D

inductive VectorError (D : Type)
  | emptyModelSignature
  | keyFieldTooLong
  | keyMismatch (supplied expected : VectorKey D)
  | invalidDimensions (dimensions : Nat)
  | vectorCollision (key : VectorKey D)
  | unexpectedStoredKey (stored : VectorKey D)
  | duplicateStoredVector (key : VectorKey D)
  | busy
  | other (detail : Text)
  deriving DecidableEq

/-- `u64::to_be_bytes`. -/
def be64 (n : Nat) : Bytes :=
  [.ofNat (n / 2 ^ 56), .ofNat (n / 2 ^ 48), .ofNat (n / 2 ^ 40),
    .ofNat (n / 2 ^ 32), .ofNat (n / 2 ^ 24), .ofNat (n / 2 ^ 16),
    .ofNat (n / 2 ^ 8), .ofNat n]

structure CachedVector (D : Type) where
  key : VectorKey D
  modelSignature : Text
  embedding : Embedding
  deriving DecidableEq

def CachedVector.dimensions {D : Type} (cached : CachedVector D) : Nat :=
  cached.embedding.dimensions

/-- One vector and the exact fields that must derive its key. -/
structure VectorInsert (D : Type) where
  key : VectorKey D
  modelSignature : Text
  role : EmbeddingRole
  text : Text
  embedding : Embedding

structure SweepReport where
  kept : Nat
  removed : Nat
  deriving DecidableEq

section

variable {D : Type}

def hashField (value : Bytes) : Except (VectorError D) Bytes :=
  if value.length < 2 ^ 64 then .ok (be64 value.length ++ value)
  else .error .keyFieldTooLong

variable [Sha256 D]

/-- The vector key of length-delimited fields. -/
def vectorKey (modelSignature : Text) (role : EmbeddingRole) (text : Text) :
    Except (VectorError D) (VectorKey D) :=
  if modelSignature.isEmpty then .error .emptyModelSignature
  else do
    let signature ← hashField modelSignature.toBytes
    let role ← hashField role.asStr.toBytes
    let text ← hashField text.toBytes
    return Sha256.digest (signature ++ role ++ text)

variable [DecidableEq D]

/-- `PreparedVector::validate`. -/
def VectorInsert.validate (input : VectorInsert D) :
    Except (VectorError D) (CachedVector D) := do
  let expected ← vectorKey input.modelSignature input.role input.text
  if input.key ≠ expected then throw (.keyMismatch input.key expected)
  else if 2 ^ 63 ≤ input.embedding.dimensions then
    throw (.invalidDimensions input.embedding.dimensions)
  else return ⟨input.key, input.modelSignature, input.embedding⟩

def findVector (stored : List (CachedVector D)) (key : VectorKey D) :
    Option (CachedVector D) :=
  stored.find? fun cached => cached.key = key

/-- Add one vector to a batch or to the table, unless the key is there. -/
def addVector (stored : List (CachedVector D)) (item : CachedVector D) :
    Except (VectorError D) (List (CachedVector D)) :=
  match findVector stored item.key with
  | some existing =>
      if existing = item then .ok stored else .error (.vectorCollision item.key)
  | none => .ok (stored ++ [item])

/-- The validated batch, each key once. -/
def prepareBatch (input : List (VectorInsert D)) :
    Except (VectorError D) (List (CachedVector D)) :=
  input.foldlM (fun prepared item => do addVector prepared (← item.validate)) []

/-- The transaction of `insert_batch`. -/
def insertPrepared (stored prepared : List (CachedVector D)) :
    Except (VectorError D) (List (CachedVector D)) :=
  prepared.foldlM addVector stored

def keysOf (stored : List (CachedVector D)) : List (VectorKey D) :=
  stored.map CachedVector.key

/-- Keys are compared by the equality of digests. -/
theorem lawfulBEq_vectorKey {D : Type} [DecidableEq D] : LawfulBEq (VectorKey D) :=
  inferInstance

/-- A stored vector survives when it is new or referenced. -/
def sweepKeeps (initial referenced : List (VectorKey D))
    (cached : CachedVector D) : Bool :=
  cached.key ∉ initial || cached.key ∈ referenced

/-- The transaction of `sweep_snapshot`. -/
def sweepStored (initial referenced : List (VectorKey D))
    (stored : List (CachedVector D)) : List (CachedVector D) × SweepReport :=
  let kept := stored.filter (sweepKeeps initial referenced)
  (kept, ⟨kept.length, stored.length - kept.length⟩)

end

end Yams
