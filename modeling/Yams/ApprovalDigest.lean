/-
The digests of an approval: of the nodes that an initialization is to leave behind,
and of the entries of a directory.  Applying a manifest builds the candidate again,
compares its digest with the approved one, and compares the repository with it.
-/
import Yams.InitCandidate
import Yams.PlanSeal
import Yams.Posix

namespace Yams.Init

open Store (Fits planField planField_delimits be64_delimits fits_be64)

section Digests

def ownedPaths : List Text :=
  [agentsPath, ".agents".toList, memoryPath, flatPagePath, gitignorePath, schemaPath,
    indexPath, pagesPath]

def isInitializationOwnedPath (path : Text) : Bool :=
  ownedPaths.contains path || isOwnedPage path

def directoryTag : UInt8 := 0x64

def fileTag : UInt8 := 0x66

/-- A node with its kind and mode, and a file with its length and bytes. -/
def nodeFields : DesiredNode → Bytes
  | .directory mode => directoryTag :: beBytes mode.toNat
  | .file mode bytes => fileTag :: (beBytes mode.toNat ++ planField bytes)

def ownedFields (entry : Text × DesiredNode) : Bytes :=
  planField entry.1.toBytes ++ nodeFields entry.2

/-- The nodes of an initialization among those that are desired. -/
def ownedEntries (desired : DesiredMap) : List (Text × DesiredNode) :=
  desired.toList.filter fun entry => isInitializationOwnedPath entry.1

def ownedPreimage (desired : DesiredMap) : Bytes :=
  (ownedEntries desired).flatMap ownedFields

def sha256 (D : Type) [Sha256 D] (bytes : Bytes) : Text :=
  Sha256.hex (Sha256.digest bytes : D)

def ownedCandidateSha256 (D : Type) [Sha256 D] (desired : DesiredMap) : Text :=
  sha256 D (ownedPreimage desired)

inductive NodeKind
  | missing | file | directory | symlink | other
  deriving DecidableEq

def nodeKind : FileKind → NodeKind
  | .regular => .file
  | .directory => .directory
  | .symlink => .symlink
  | .other => .other

def NodeKind.tag : NodeKind → UInt8
  | .missing => 0
  | .file => 1
  | .directory => 2
  | .symlink => 3
  | .other => 4

/-- An entry of a directory with the parts of its state that are hashed. -/
structure EntrySignature where
  name : Bytes
  kind : FileKind
  mode : UInt32
  deriving DecidableEq

def permissionBits (mode : UInt32) : UInt32 := mode &&& 0o7777

def signatureFields (signature : EntrySignature) : Bytes :=
  planField signature.name ++ [(nodeKind signature.kind).tag] ++
    beBytes (permissionBits signature.mode).toNat

def entriesPreimage (signatures : List EntrySignature) : Bytes :=
  signatures.flatMap signatureFields

def directoryEntriesDigest (D : Type) [Sha256 D] (signatures : List EntrySignature) : Text :=
  sha256 D (entriesPreimage signatures)

end Digests

section Injectivity

theorem mode_delimits : Delimits (fun _ => True) Eq fun mode : UInt32 => beBytes mode.toNat := by
  have hlength : ∀ mode : UInt32, True → (beBytes mode.toNat).length = 4 := fun _ _ => rfl
  apply Delimits.fixed hlength
  intro x y _ _ h
  exact Blocking.beBytes_toNat_injective h

/-- The contents of a file fit in memory. -/
def NodeFits : DesiredNode → Prop
  | .directory _ => True
  | .file _ bytes => Fits bytes

/-- The two kinds have encodings of different lengths; the tag tells which one it is. -/
theorem nodeFields_delimits : Delimits NodeFits Eq nodeFields := by
  rintro (x | ⟨x, xs⟩) (y | ⟨y, ys⟩) hx hy r s heq
  · obtain ⟨rfl, hrest⟩ := mode_delimits x y trivial trivial r s (List.cons.inj heq).2
    exact ⟨rfl, hrest⟩
  · exact absurd (List.cons.inj heq).1 (by decide)
  · exact absurd (List.cons.inj heq).1 (by decide)
  · have hfields : beBytes x.toNat ++ planField xs ++ r =
        beBytes y.toNat ++ planField ys ++ s := (List.cons.inj heq).2
    rw [List.append_assoc, List.append_assoc] at hfields
    obtain ⟨rfl, hmore⟩ := mode_delimits x y trivial trivial _ _ hfields
    obtain ⟨rfl, hrest⟩ := planField_delimits xs ys hx hy r s hmore
    exact ⟨rfl, hrest⟩

def EntryFits (entry : Text × DesiredNode) : Prop :=
  Fits entry.1.toBytes ∧ NodeFits entry.2

theorem ownedFields_delimits : Delimits EntryFits Eq ownedFields := by
  have hpath := (Store.planText_delimits.comp (Prod.fst : Text × DesiredNode → Text)).mono
    (fun _ (h : EntryFits _) => h.1) fun _ _ _ _ h => h
  have hnode := (nodeFields_delimits.comp (Prod.snd : Text × DesiredNode → DesiredNode)).mono
    (fun _ (h : EntryFits _) => h.2) fun _ _ _ _ h => h
  exact (hpath.append hnode).mono (fun _ h => h) fun _ _ _ _ h => Prod.ext h.1 h.2

/-- What is in the map fits in memory. -/
def MapFits (desired : DesiredMap) : Prop := ∀ entry ∈ desired.toList, EntryFits entry

theorem ownedEntries_of_preimage {desired other : DesiredMap} (hdesired : MapFits desired)
    (hother : MapFits other) (h : ownedPreimage desired = ownedPreimage other) :
    ownedEntries desired = ownedEntries other := by
  have hne : ∀ entry, EntryFits entry → ownedFields entry ≠ [] := by
    intro entry _ hnil
    have hlength := congrArg List.length (List.append_eq_nil_iff.1 hnil).1
    simp [planField, Store.be64_length] at hlength
  have hall := ownedFields_delimits.flatMap_end hne
    (fun entry hentry => hdesired entry (List.mem_of_mem_filter hentry))
    (fun entry hentry => hother entry (List.mem_of_mem_filter hentry)) h
  exact List.forall₂_eq_eq_eq ▸ hall

theorem mem_ownedEntries {desired : DesiredMap} {path : Text} {node : DesiredNode} :
    (path, node) ∈ ownedEntries desired ↔
      desired[path]? = some node ∧ isInitializationOwnedPath path = true := by
  rw [ownedEntries, List.mem_filter, Std.ExtTreeMap.mem_toList_iff_getElem?_eq_some]

/-- Maps with the same owned entries have the same nodes at the owned paths. -/
theorem owned_nodes_eq {desired other : DesiredMap}
    (h : ownedEntries desired = ownedEntries other) {path : Text}
    (hpath : isInitializationOwnedPath path = true) : desired[path]? = other[path]? := by
  have hnode (node : DesiredNode) : desired[path]? = some node ↔ other[path]? = some node := by
    have hmem : (path, node) ∈ ownedEntries desired ↔ (path, node) ∈ ownedEntries other := by
      rw [h]
    simpa only [mem_ownedEntries, hpath, and_true] using hmem
  exact Option.ext hnode

/-- The signatures agree in all that is hashed. -/
def SameSignature (signature other : EntrySignature) : Prop :=
  signature.name = other.name ∧ nodeKind signature.kind = nodeKind other.kind ∧
    permissionBits signature.mode = permissionBits other.mode

theorem tag_injective {first second : NodeKind} (h : first.tag = second.tag) :
    first = second := by
  revert h
  cases first <;> cases second <;> decide

theorem signatureFields_delimits :
    Delimits (fun signature => Fits signature.name) SameSignature signatureFields := by
  have hname := planField_delimits.comp EntrySignature.name
  have hlength : ∀ signature : EntrySignature, Fits signature.name →
      [(nodeKind signature.kind).tag].length = 1 := fun _ _ => rfl
  have hkind := Delimits.fixed hlength
    (R := fun x y => nodeKind x.kind = nodeKind y.kind)
    fun _ _ _ _ h => tag_injective (List.cons.inj h).1
  have hmode := (mode_delimits.comp fun signature : EntrySignature =>
    permissionBits signature.mode).mono
    (fun signature (_ : Fits signature.name) => trivial) fun _ _ _ _ h => h
  exact ((hname.append hkind).append hmode).mono (fun _ h => h)
    fun _ _ _ _ h => ⟨h.1.1, h.1.2, h.2⟩

theorem signatures_of_preimage {signatures others : List EntrySignature}
    (hsignatures : ∀ signature ∈ signatures, Fits signature.name)
    (hothers : ∀ signature ∈ others, Fits signature.name)
    (h : entriesPreimage signatures = entriesPreimage others) :
    List.Forall₂ SameSignature signatures others := by
  have hne : ∀ signature : EntrySignature, Fits signature.name →
      signatureFields signature ≠ [] := by
    intro signature _ hnil
    have hlength := congrArg List.length hnil
    simp [signatureFields] at hlength
  exact signatureFields_delimits.flatMap_end hne hsignatures hothers h

end Injectivity

section Candidate

inductive OperationKind
  | createDirectory | createFile | replaceFile | removeFile
  deriving DecidableEq

structure InitOperation where
  kind : OperationKind
  path : Text
  mode : Option UInt32
  content : Option Text
  deriving DecidableEq

structure InitManifest where
  mode : InitMode
  operations : List InitOperation
  candidateSha256 : Text

structure NodePrestate where
  path : Text
  kind : NodeKind
  mode : Option UInt32
  sha256 : Option Text
  entriesSha256 : Option Text
  deriving DecidableEq

/-- What an inspection captured: the states and the bytes of the files. -/
structure RepositorySnapshot where
  prestates : List NodePrestate
  contents : Std.ExtTreeMap Text Bytes

def orMissing {α : Type} (value : Option α) (what path : Text) : Except Text α :=
  match value with
  | some a => .ok a
  | none => .error (what ++ ": ".toList ++ path)

/-- `portable_owned_path` is the same test as `is_initialization_owned_path`. -/
def portableOwnedPath (path : Text) : Bool := isInitializationOwnedPath path

def lockPath : Text := inMemory ".write.lock".toList

def retainNode (contents : Std.ExtTreeMap Text Bytes) (desired : DesiredMap)
    (prestate : NodePrestate) : Except Text DesiredMap :=
  if prestate.kind = .missing ∨ prestate.path = lockPath ∨
      portableOwnedPath prestate.path = false then .ok desired
  else
    match prestate.kind with
    | .directory => do
        let mode ← orMissing prestate.mode "captured directory has no mode".toList prestate.path
        return desired.insert prestate.path (.directory mode)
    | .file => do
        let mode ← orMissing prestate.mode "captured file has no mode".toList prestate.path
        let bytes ← orMissing contents[prestate.path]? "captured file has no bytes".toList
          prestate.path
        return desired.insert prestate.path (.file mode bytes)
    | .missing | .symlink | .other =>
        .error ("unsafe retained owned node: ".toList ++ prestate.path)

def desireOperation (desired : DesiredMap) (operation : InitOperation) :
    Except Text DesiredMap :=
  match operation.kind with
  | .createDirectory => do
      let mode ← orMissing operation.mode
        "validated directory operation has no mode".toList operation.path
      return desired.insert operation.path (.directory mode)
  | .createFile | .replaceFile => do
      let mode ← orMissing operation.mode "validated file operation has no mode".toList
        operation.path
      let content ← orMissing operation.content
        "validated file operation has no content".toList operation.path
      return desired.insert operation.path (.file mode content.toBytes)
  | .removeFile => .ok (desired.erase operation.path)

def buildCandidate (initial : RepositorySnapshot) (manifest : InitManifest) :
    Except Text DesiredMap := do
  let retained ← initial.prestates.foldlM (retainNode initial.contents) ∅
  manifest.operations.foldlM desireOperation retained

/-- The text of an error; a validation in memory reads nothing, so it has no other. -/
def candidateMessage : InitError → Text
  | .candidate message => "candidate validation failed: ".toList ++ message
  | .io operation path _ => "could not ".toList ++ operation ++ " ".toList ++ path

variable [Wiki.Unicode] (D : Type) [Sha256 D]

def reconstructCandidate (initial : RepositorySnapshot) (manifest : InitManifest) :
    Except Text DesiredMap := do
  let desired ← buildCandidate initial manifest
  (validateOwnedCandidate desired manifest.mode).mapError candidateMessage
  if ownedCandidateSha256 D desired ≠ manifest.candidateSha256 then
    .error "approved candidate digest does not match the reconstructed candidate".toList
  else .ok desired

end Candidate

end Yams.Init
