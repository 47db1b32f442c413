/-
Garbage collection of the vector cache: under the mutation lease, the keys that
were cached at its start and that no readable index refers to are removed.
-/
import Yams.Sync

namespace Yams.Store

variable {D : Type}

abbrev Manage (D : Type) := StoreProg D (ManagementError D)

/-- The references read so far and the indexes that could not be read. -/
structure Inventory (D : Type) where
  keys : List (VectorKey D)
  unreadable : List PathBuf

def vectorsExist : Manage D Bool := Fallible.perform StoreOp.vectorsExist

def emptyUnless (present : Bool) : Manage D (List (VectorKey D)) :=
  if present then tryOp id .cachedKeys rfl else pure []

def cachedKeys : Manage D (List (VectorKey D)) := do
  let present ← vectorsExist
  emptyUnless present

/-- After a damaged cache was set aside, no old key is left. -/
def afterQuarantine (error : ManagementError D) :
    Except (ManagementError D) Unit →
      Except (ManagementError D) (List (VectorKey D))
  | .ok () => .ok []
  | .error .vectorCacheNotCorrupt => .error error
  | .error quarantine => .error quarantine

def recoverKeys : Except (ManagementError D) (List (VectorKey D)) →
    Manage D (List (VectorKey D))
  | .ok keys => pure keys
  | .error error => do
      let quarantined ← Fallible.observe
        (tryOp id .quarantineVectors rfl :
          StoreProg D (ManagementError D) Unit)
      Fallible.ofExcept (afterQuarantine error quarantined)

/-- The keys that are cached when the collection starts. -/
def initialKeys : Manage D (List (VectorKey D)) := do
  let keys ← Fallible.observe (cachedKeys (D := D))
  recoverKeys keys

/-- A file that is not a database is no index; any other failure leaves the
inventory incomplete. -/
def extendInventory (st : Inventory D) (path : PathBuf) :
    Except (ManagementError D) Unit → Manage D (Inventory D)
  | .ok () => do
      let keys ← tryOp id (.indexVectorKeys path) rfl
      return { st with keys := st.keys ++ keys }
  | .error (.notSqlite _) => pure st
  | .error _ => pure { st with unreadable := st.unreadable ++ [path] }

def readIndex (st : Inventory D) (path : PathBuf) :
    Manage D (Inventory D) := do
  let opened ← Fallible.observe
    (tryOp id (.openIndex path) rfl : StoreProg D (ManagementError D) Unit)
  extendInventory st path opened

/-- Every referenced key, from a freshly listed index directory. -/
def liveKeys : Manage D (List (VectorKey D)) := do
  let paths ← tryOp id .indexPaths rfl
  let inventory ← paths.foldlM readIndex ⟨[], []⟩
  ensure (inventory.unreadable = [])
    (.incompleteInventory "garbage collection".toList inventory.unreadable)
  return inventory.keys

/-- `VectorCache::sweep_snapshot`; the lease is checked before the transaction
and before its commit. -/
def sweepSnapshot (initial referenced : List (VectorKey D)) :
    Manage D SweepReport := do
  tryOp .vector .revalidateLease ans_revalidateLease
  tryOp .vector (.sweepVectors initial referenced) rfl

def gcUnderLease : Manage D SweepReport := do
  tryOp .vector .revalidateLease ans_revalidateLease
  let initial ← initialKeys
  let first ← liveKeys
  let second ← liveKeys
  tryOp .vector .openVectorCache ans_openVectorCache
  sweepSnapshot initial (first ++ second)

def gcIfPresent (present : Bool) : Manage D SweepReport :=
  if present then withLease .vector gcUnderLease else pure ⟨0, 0⟩

/-- `gc`. -/
def gc : Manage D SweepReport := do
  let present ← vectorsExist
  gcIfPresent present

end Yams.Store
