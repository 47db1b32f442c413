/-
The batched lookups of the vector cache and the insertion of a batch, over a
table whose hashes are unique and one transaction at a time.
-/
import Yams.VectorRecord
import Yams.Run
import Mathlib.Data.List.Sort

namespace Yams.VectorCache

/-- The table of vectors; its hash is the primary key. -/
structure Table where
  rows : List Row
  unique : (rows.map Row.hash).Nodup

def Table.hashes (table : Table) : List Text := table.rows.map Row.hash

/-- What is committed, and the transaction of the connection. -/
structure CacheState where
  committed : Table
  working : Option Table

/-- What a statement of the connection sees. -/
def CacheState.view (s : CacheState) : Table := s.working.getD s.committed

/-- `length` of SQL counts the characters before the first NUL. -/
def sqlLength (text : Text) : Nat := (text.takeWhile fun c => c ≠ Char.ofNat 0).length

/-- The constraints of the schema on one row. -/
def Row.Allowed (row : Row) : Prop :=
  0 < sqlLength row.modelSignature ∧ 0 < row.dimensions ∧
    (row.bytes.length : Int) = row.dimensions * 4

def Table.add (table : Table) (row : Row) (h : row.hash ∉ table.hashes) : Table where
  rows := table.rows ++ [row]
  unique := by
    rw [List.map_append, List.nodup_append']
    refine ⟨table.unique, List.nodup_singleton _, ?_⟩
    intro hash hold hnew
    obtain rfl := List.mem_singleton.1 hnew
    exact h hold

/-- `SELECT … WHERE hash IN (…) ORDER BY hash`. -/
def selected (table : Table) (hashes : List Text) : List Row :=
  (table.rows.filter fun row => row.hash ∈ hashes).insertionSort fun left right =>
    ¬ right.hash.toBytes < left.hash.toBytes

inductive Stage
  | prepare | query | read
  deriving DecidableEq

/-- The rows a lookup went through, and where it stopped early. -/
structure Reading (α : Type) where
  rows : List α
  stopped : Option (Stage × SqlError)

def Reading.finish {α β : Type} (reading : Reading α) (operation : Stage → Text)
    (result : β) : Except CacheError β :=
  match reading.stopped with
  | none => .ok result
  | some (stage, source) => .error (.sql (operation stage) source)

inductive VectorOp
  | selectHashes (hashes : List Text)
  | selectRows (hashes : List Text)
  | selectOne (hash : Text)
  | beginImmediate
  | insert (row : Row)
  | commit
  | rollback

abbrev VectorAns : VectorOp → Type
  | .selectHashes _ => Reading Text
  | .selectRows _ => Reading Row
  | .selectOne _ => Except SqlError (Option Row)
  | .beginImmediate | .insert _ | .commit => Except SqlError Unit
  | .rollback => Unit

abbrev CacheM := Fallible VectorOp VectorAns CacheError

abbrev sys (op : VectorOp) : CacheM (VectorAns op) := Fallible.perform op

/-- A `BTreeSet` of keys. -/
structure KeySet where
  keys : List Key
  sorted : keys.Pairwise fun left right => left.bytes < right.bytes

/-! `missing`. -/

def lookupOperation : Stage → Text
  | .prepare => "prepare requested vector lookup".toList
  | .query => "query requested vector keys".toList
  | .read => "read requested vector key".toList

def removeStored (missing : List Key) (encoded : Text) : Except CacheError (List Key) :=
  match Key.parse encoded with
  | .error source => .error (.invalidStoredKey encoded source)
  | .ok key =>
      if key ∈ missing then .ok (missing.filter fun other => other ≠ key)
      else .error (.vector (.unexpectedStoredKey key))

def missingBatch (missing : List Key) (encoded : List Text) : CacheM (List Key) := do
  let reading ← sys (.selectHashes encoded)
  let missing ← Fallible.ofExcept (reading.rows.foldlM removeStored missing)
  Fallible.ofExcept (reading.finish lookupOperation missing)

def missing (requested : KeySet) : CacheM (List Key) :=
  (encodedKeyBatches requested.keys).foldlM missingBatch requested.keys

/-! `get_many`. -/

def loadOperation : Stage → Text
  | .prepare => "prepare requested vector load".toList
  | .query => "query requested vectors".toList
  | .read => "read requested vector".toList

section

variable (checkNorm : List UInt32 → Except DecodeError Unit)

def loadStored (requested : KeySet) (found : List (CachedVector Key)) (row : Row) :
    Except CacheError (List (CachedVector Key)) := do
  let key ← (Key.parse row.hash).mapError (.invalidStoredKey row.hash)
  if key ∉ requested.keys then throw (.vector (.unexpectedStoredKey key))
  else if row.modelSignature.isEmpty then throw (.invalidStoredModelSignature key)
  else
    let dimensions ← checkedStoredDimensions key row.dimensions
    let embedding ← (fromLeBytes checkNorm row.bytes dimensions).mapError
      (.invalidStoredEmbedding key)
    if key ∈ keysOf found then throw (.vector (.duplicateStoredVector key))
    else return found ++ [⟨key, row.modelSignature, embedding⟩]

def getBatch (requested : KeySet) (found : List (CachedVector Key)) (encoded : List Text) :
    CacheM (List (CachedVector Key)) := do
  let reading ← sys (.selectRows encoded)
  let found ← Fallible.ofExcept (reading.rows.foldlM (loadStored checkNorm requested) found)
  Fallible.ofExcept (reading.finish loadOperation found)

def getMany (requested : KeySet) : CacheM (List (CachedVector Key)) :=
  (encodedKeyBatches requested.keys).foldlM (getBatch checkNorm requested) []

/-! `insert_batch`. -/

def storedVector (key : Key) (row : Row) : Except CacheError PreparedVector := do
  let stored ← (Key.parse row.hash).mapError (.invalidStoredKey row.hash)
  if stored ≠ key then throw (.storedKeyMismatch key stored)
  else if row.modelSignature.isEmpty then throw (.invalidStoredModelSignature key)
  else
    let dimensions ← checkedStoredDimensions key row.dimensions
    return ⟨key, row.modelSignature, dimensions, row.bytes⟩

def rawVector (key : Key) : CacheM (Option PreparedVector) := do
  match ← sys (.selectOne key.toText) with
  | .error source => throw (.sql "load cached vector".toList source)
  | .ok none => return none
  | .ok (some row) => return some (← Fallible.ofExcept (storedVector key row))

def insertRow (row : Row) : CacheM Unit := do
  match ← sys (.insert row) with
  | .ok _ => return ()
  | .error source => throw (.sql "insert cached vector".toList source)

def insertItem (_ : Unit) (item : PreparedVector) : CacheM Unit := do
  match ← rawVector item.key with
  | some existing =>
      if existing ≠ item then throw (.vector (.vectorCollision item.key)) else pure ()
  | none => insertRow item.row

def commitBatch : CacheM Unit := do
  match ← sys .commit with
  | .ok _ => return ()
  | .error source => throw (.sql "commit cached vector batch".toList source)

def beginBatch : CacheM Unit := do
  match ← sys .beginImmediate with
  | .ok _ => return ()
  | .error source => throw (.sql "begin vector-cache insert transaction".toList source)

/-- The statements of the transaction. -/
def insertAll (prepared : List PreparedVector) : CacheM Unit := do
  prepared.foldlM insertItem ()
  commitBatch

variable [Sha256 Key]

def insertBatch (input : List (VectorInsert Key)) : CacheM Unit := do
  let prepared ← Fallible.ofExcept (prepare checkNorm input)
  if prepared.isEmpty then return ()
  else
    beginBatch
    let result ← Fallible.observe (insertAll prepared)
    -- dropping the transaction rolls back what is not committed
    sys .rollback
    Fallible.ofExcept result

end

/-! The database: unless it may fail, a statement does what it says. -/

/-- A lookup goes through all rows, or fails behind some of them. -/
def Reads (mayFail : Prop) {α : Type} (rows : List α) (reading : Reading α) : Prop :=
  match reading.stopped with
  | none => reading.rows = rows
  | some _ => mayFail ∧ reading.rows <+: rows

def Exec (mayFail : Prop) (s : CacheState) :
    (op : VectorOp) → VectorAns op → CacheState → Prop
  | .selectHashes hashes, reading, s' =>
      s' = s ∧ Reads mayFail ((selected s.view hashes).map Row.hash) reading
  | .selectRows hashes, reading, s' =>
      s' = s ∧ Reads mayFail (selected s.view hashes) reading
  | .selectOne hash, .ok row, s' =>
      s' = s ∧ row = s.view.rows.find? fun row => row.hash = hash
  | .selectOne _, .error _, s' => s' = s ∧ mayFail
  | .beginImmediate, .ok _, s' =>
      s.working = none ∧ s' = ⟨s.committed, some s.committed⟩
  | .beginImmediate, .error _, s' => s' = s ∧ (mayFail ∨ s.working ≠ none)
  | .insert row, .ok _, s' => row.Allowed ∧ ∃ table, s.working = some table ∧
      ∃ h : row.hash ∉ table.hashes, s' = ⟨s.committed, some (table.add row h)⟩
  | .insert row, .error _, s' =>
      s' = s ∧ (mayFail ∨ ¬ row.Allowed ∨ row.hash ∈ s.view.hashes ∨ s.working = none)
  | .commit, .ok _, s' => ∃ table, s.working = some table ∧ s' = ⟨table, none⟩
  | .commit, .error _, s' => s' = s ∧ (mayFail ∨ s.working = none)
  | .rollback, _, s' => s' = ⟨s.committed, none⟩

end Yams.VectorCache
