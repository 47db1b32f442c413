/-
How a reindex ends.  Whatever the others do until the last validation begins, the
run changes no file but the one it has created, and `INDEX.md` gives way to that
file only when the files have the catalog that it holds.
-/
import Yams.DurableReads
import Yams.Schedule
import Yams.TextReading

namespace Yams.Durable

open Wiki

section Snapshot

variable {age : NodeState → Nat} {corpus : Identity} {inputs : CapturedInputs} {w : World}

theorem Known.bytes_eq {s : NodeState} {bytes : Bytes} (h : Known age s bytes w)
    (hstate : s = w.state s.identity) : (w.inode s.identity).bytes = bytes :=
  h.2 (congrArg age hstate)

theorem presentIndex_eq (hvalid : Valid corpus inputs w)
    (hknown : KnownIndex age inputs.index w) :
    w.presentIndex corpus = some inputs.index.bytes := by
  rcases hvalid.index with ⟨hentry, hstate⟩
  rw [World.presentIndex, hentry]
  exact congrArg some (Known.bytes_eq hknown hstate)

/-- The page that a name in a directory leads to. -/
def World.pageAt (w : World) (directory : Identity) (name : Bytes) : CapturedFile :=
  ⟨name, ((w.entry directory name).map fun i => (w.inode i).bytes).getD []⟩

theorem presentPages_pageAt {pages : Identity}
    (hentry : w.entry corpus pagesName = some pages) :
    w.presentPages corpus =
      some ((pageKeys (w.directory pages)).map (w.pageAt pages)) := by
  rw [World.presentPages, hentry]
  change some _ = some _
  congr 1
  rw [pageKeys, ← Std.ExtTreeMap.map_fst_toList_eq_keys, List.filter_map, List.map_map]
  apply List.map_congr_left
  intro entry hentry
  have hmem : entry ∈ (w.directory pages).toList := List.mem_of_mem_filter hentry
  have hget : w.entry pages entry.1 = some entry.2 :=
    Std.ExtTreeMap.mem_toList_iff_getElem?_eq_some.1 hmem
  change _ = w.pageAt pages entry.1
  rw [World.pageAt, hget]
  rfl

theorem presentPages_eq (hvalid : Valid corpus inputs w)
    (hcaptured : Captured age inputs w) :
    w.presentPages corpus = some (inputs.pages.map capturedFile) := by
  rcases hvalid.entries with ⟨hkeys, hlisted⟩
  rcases hcaptured with ⟨hsignatures, hknown⟩
  rw [presentPages_pageAt hvalid.pages, ← hkeys, ← hsignatures, List.map_map, List.map_map]
  congr 1
  apply List.map_congr_left
  intro page hpage
  have hmem : page.signature ∈ inputs.entries := by
    rw [← hsignatures]
    exact List.mem_map_of_mem hpage
  rcases hlisted page.signature hmem with ⟨hentry, hstate⟩
  have hbytes := (hknown page hpage).bytes_eq hstate
  change w.pageAt inputs.pagesFd page.signature.name = capturedFile page
  rw [World.pageAt, hentry]
  exact congrArg (CapturedFile.mk page.signature.name) hbytes

variable {adopt : Bool} {canonical : Text}

/-- What was computed from the captured bytes is the catalog of the files. -/
theorem canonicalAt_of_valid (hvalid : Valid corpus inputs w)
    (hknown : KnownIndex age inputs.index w) (hcaptured : Captured age inputs w)
    (hcompute : canonicalIndex adopt inputs.index.bytes (inputs.pages.map capturedFile) =
      .ok canonical) :
    CanonicalAt adopt corpus w canonical :=
  ⟨_, _, presentIndex_eq hvalid hknown, presentPages_eq hvalid hcaptured, hcompute⟩

end Snapshot

section Steps

variable {age : NodeState → Nat} {adopt : Bool} {corpus : Identity}
  {inputs : CapturedInputs}

/-- The inputs of a run that has not replaced `INDEX.md`. -/
structure Held (age : NodeState → Nat) (inputs : CapturedInputs) (w : World) : Prop where
  replaced : w.replaced = false
  index : KnownIndex age inputs.index w
  captured : Captured age inputs w

/-- The files have aged, in whatever way. -/
theorem Held.ages {w next : World} (h : Held age inputs w)
    (hreplaced : next.replaced = w.replaced)
    (hages : ∀ i, Ages age i (w.inode i) (next.inode i)) : Held age inputs next where
  replaced := hreplaced.trans h.replaced
  index := Known.ages (hages _) h.index
  captured := ⟨h.captured.1, fun page hpage => (h.captured.2 page hpage).ages (hages _)⟩

theorem Held.survives (inputs : CapturedInputs) : Survives age (Held age inputs) :=
  fun _ _ h hab => h.ages hab.replaced hab.ages

/-- The file that the run has created, and its bytes. -/
def Made (fd : Identity) (bytes : Bytes) (w : World) : Prop :=
  w.created = some fd ∧ (w.inode fd).bytes = bytes

theorem Made.survives (fd : Identity) (bytes : Bytes) : Survives age (Made fd bytes) := by
  intro a b h hab
  exact ⟨hab.created.trans h.1, (hab.kept fd h.1).1.trans h.2⟩

/-- The created file has the permission bits of a mode. -/
def Moded (fd : Identity) (mode : Nat) (w : World) : Prop :=
  w.created = some fd ∧ permissionBits (w.inode fd).mode = permissionBits mode

theorem Moded.survives (fd : Identity) (mode : Nat) : Survives age (Moded fd mode) := by
  intro a b h hab
  exact ⟨hab.created.trans h.1, by rw [(hab.kept fd h.1).2, h.2]⟩

/-- A step that changes one file, the one that the run has created. -/
theorem OwnStep.setInode {fd : Identity} {w : World} (hcreated : w.created = some fd)
    (inode : Inode) : OwnStep adopt corpus w (w.setInode fd inode) where
  created := fun _ h => h
  files := by
    intro i hi
    have hne : i ≠ fd := fun heq => hi (heq ▸ hcreated)
    exact Function.update_of_ne hne _ _
  elsewhere := fun _ _ => rfl
  index := .inl ⟨rfl, rfl⟩
  removed := (OwnStep.refl adopt corpus w).removed

theorem ages_setInode {fd : Identity} {w : World} {inode : Inode}
    (h : Ages age fd (w.inode fd) inode) (i : Identity) :
    Ages age i (w.inode i) ((w.setInode fd inode).inode i) := by
  by_cases hi : i = fd
  · subst hi
    change Ages age i (w.inode i) (Function.update w.inode i inode i)
    rw [Function.update_self]
    exact h
  · change Ages age i (w.inode i) (Function.update w.inode fd inode i)
    rw [Function.update_of_ne hi]
    exact .refl i _

end Steps

section Create

variable {age : NodeState → Nat} {adopt : Bool} {corpus : Identity}
  {inputs : CapturedInputs} {choice : Choice} {w next : World}

theorem entry_setDirectory (parent : Identity) (entries : Entries) (name : Bytes) :
    (w.setDirectory parent entries).entry parent name = entries[name]? := by
  change (Function.update w.directory parent entries parent)[name]? = entries[name]?
  rw [Function.update_self]

theorem directory_setDirectory {parent other : Identity} (hne : other ≠ parent)
    (entries : Entries) :
    (w.setDirectory parent entries).directory other = w.directory other :=
  Function.update_of_ne hne _ _

/-- A name is given to a new file. -/
theorem OwnStep.create {i : Identity} {name : Bytes} (inode : Inode)
    (hcreated : w.created = none) (hname : name ≠ indexName) :
    OwnStep adopt corpus w { (w.setInode i inode).setDirectory corpus
      ((w.directory corpus).insert name i) with created := some i } where
  created := fun j hj => by rw [hcreated] at hj; cases hj
  files := by
    intro j hj
    have hne : j ≠ i := fun heq => hj (congrArg some heq.symm)
    exact Function.update_of_ne hne _ _
  elsewhere := fun parent hne => directory_setDirectory hne _
  index := by
    left
    constructor
    · change ((w.setInode i inode).setDirectory corpus _).entry corpus indexName = _
      rw [entry_setDirectory, Std.ExtTreeMap.getElem?_insert, if_neg]
      · rfl
      · intro heq
        exact hname (Std.LawfulEqCmp.eq_of_compare heq)
    · rfl
  removed := by
    intro other j hsome hnone
    change ((w.setInode i inode).setDirectory corpus _).entry corpus other = none at hnone
    rw [entry_setDirectory, Std.ExtTreeMap.getElem?_insert] at hnone
    split at hnone
    · cases hnone
    · exact absurd (hsome.symm.trans hnone) (Option.some_ne_none j)

/-- A temporary that the run has created, with its bytes. -/
def Prepared (age : NodeState → Nat) (inputs : CapturedInputs) (temporary : Temporary)
    (bytes : Bytes) (w : World) : Prop :=
  Held age inputs w ∧ Made temporary.fd bytes w

theorem Prepared.survives (inputs : CapturedInputs) (temporary : Temporary)
    (bytes : Bytes) : Survives age (Prepared age inputs temporary bytes) :=
  (Held.survives inputs).and (Made.survives temporary.fd bytes)

end Create

section Fill

variable {age : NodeState → Nat} {C : Carried age} {adopt : Bool} {corpus : Identity}
  {inputs : CapturedInputs} {choice : Choice} {w next : World} {A : World → Prop}
  {fd : Identity} {path : PathBuf} {ε : Type} {E : ε → World → Prop}

/-- The part of a run between the creation of its file and the replacement. -/
def createdFile (age : NodeState → Nat) (fd : Identity) : Carried age where
  holds w := w.replaced = false ∧ w.created = some fd
  survives := fun _ _ h hab => ⟨hab.replaced.trans h.1, hab.created.trans h.2⟩

/-- The created file changes in a way that shows, and its bytes are known. -/
theorem Prepared.setInode {temporary : Temporary} {old bytes : Bytes} {inode : Inode}
    (h : Prepared age inputs temporary old w) (hbytes : inode.bytes = bytes)
    (hages : Ages age temporary.fd (w.inode temporary.fd) inode) :
    Prepared age inputs temporary bytes (w.setInode temporary.fd inode) := by
  refine ⟨h.1.ages rfl (ages_setInode hages), h.2.1, ?_⟩
  change (Function.update w.inode temporary.fd inode temporary.fd).bytes = bytes
  rw [Function.update_self, hbytes]

/-- The temporary has the bytes, and the permissions of the old index. -/
def Filled (age : NodeState → Nat) (inputs : CapturedInputs) (temporary : Temporary)
    (bytes : Bytes) (w : World) : Prop :=
  Prepared age inputs temporary bytes w ∧ Moded temporary.fd inputs.index.state.mode w

end Fill

section Validate

variable {age : NodeState → Nat} {C : Carried age} {adopt : Bool} {corpus : Identity}
  {inputs : CapturedInputs} {temporary : Temporary} {A : World → Prop} {path : PathBuf}

/-- Everything that the replacement rests on. -/
structure Validated (corpus : Identity) (inputs : CapturedInputs) (temporary : Temporary)
    (w : World) : Prop where
  inputs : Valid corpus inputs w
  path : w.corpusPath = some corpus
  temporary : w.entry corpus temporary.name = some temporary.fd

end Validate

section Rules

variable {age : NodeState → Nat} {adopt : Bool} {corpus : Identity} {α ε ε' : Type}
  {P A : World → Prop} {Q : α → World → Prop} {E : ε → World → Prop}

end Rules

section Replace

variable {age : NodeState → Nat} {adopt : Bool} {corpus : Identity}
  {inputs : CapturedInputs} {temporary : Temporary} {canonical : Text} {path : PathBuf}
  {w : World}

/-- The temporary may replace `INDEX.md` now. -/
structure Ready (age : NodeState → Nat) (corpus : Identity) (inputs : CapturedInputs)
    (temporary : Temporary) (bytes : Bytes) (w : World) : Prop where
  filled : Filled age inputs temporary bytes w
  validating : w.validating = true
  validated : Validated corpus inputs temporary w

/-- What holds with the last validation begun survives all that the others may do. -/
theorem Survives.of_validating {R : World → Prop} (h : ∀ w, R w → w.validating = true) :
    Survives age R :=
  fun a _ hR hab => (hab.still (h a hR)).symm ▸ hR

theorem Ready.survives {bytes : Bytes} :
    Survives age (Ready age corpus inputs temporary bytes) :=
  Survives.of_validating fun _ h => h.validating

/-- `INDEX.md` has been replaced by the catalog of the files. -/
structure Replaced (adopt : Bool) (corpus : Identity) (w : World) : Prop where
  validating : w.validating = true
  replaced : w.replaced = true
  committed : ∃ before, Committed adopt corpus before w

theorem entry_renamed {i : Identity} {name : Bytes} :
    (w.renamed corpus name indexName i)[indexName]? = some i := by
  unfold World.renamed
  split
  next hsame => exact hsame
  next => rw [Std.ExtTreeMap.getElem?_insert_self]

/-- The files after the rename. -/
def World.committed (w : World) (corpus : Identity) (temporary : Temporary) : World :=
  { w.setDirectory corpus (w.renamed corpus temporary.name indexName temporary.fd) with
    replaced := true }

theorem Ready.committed (h : Ready age corpus inputs temporary canonical.toBytes w)
    (hcompute : canonicalIndex adopt inputs.index.bytes (inputs.pages.map capturedFile) =
      .ok canonical) :
    Committed adopt corpus w (w.committed corpus temporary) := by
  rcases h with ⟨⟨⟨hheld, hmade⟩, hmoded⟩, hval, hvalid, hpath, htemporary⟩
  rcases hvalid.index with ⟨hentry, hstate⟩
  refine ⟨canonical, inputs.index.state.identity, temporary.fd, hval, ?_, hpath, hentry,
    hmade.1, ?_, hmade.2, ?_⟩
  · exact canonicalAt_of_valid hvalid hheld.index hheld.captured hcompute
  · change (w.setDirectory corpus _).entry corpus indexName = _
    rw [entry_setDirectory]
    exact entry_renamed
  · change permissionBits (w.inode temporary.fd).mode = _
    rw [hmoded.2, hstate]
    rfl

theorem Replaced.survives : Survives age (Replaced adopt corpus) :=
  Survives.of_validating fun _ h => h.validating

/-- What an error says of the files: only one error comes after the replacement. -/
def Failed (adopt : Bool) (corpus : Identity) (error : DurableError) (w : World) : Prop :=
  w.replaced = false ∧ (∀ errno, error.root ≠ .replacedNotDurable errno) ∨
    Replaced adopt corpus w ∧ ∃ errno, error.root = .replacedNotDurable errno

theorem Failed.survives (error : DurableError) : Survives age (Failed adopt corpus error) := by
  intro a b h hab
  rcases h with ⟨hreplaced, herror⟩ | ⟨hreplaced, herror⟩
  · exact .inl ⟨hab.replaced.trans hreplaced, herror⟩
  · exact .inr ⟨Replaced.survives a b hreplaced hab, herror⟩

/-- The same, and the run has created a file. -/
def FailedWith (adopt : Bool) (corpus fd : Identity) (error : DurableError) (w : World) :
    Prop :=
  w.created = some fd ∧ Failed adopt corpus error w

theorem FailedWith.survives (fd : Identity) (error : DurableError) :
    Survives age (FailedWith adopt corpus fd error) := by
  intro a b h hab
  exact ⟨hab.created.trans h.1, Failed.survives error a b h.2 hab⟩

/-- A part that ends before the replacement. -/
theorem Part.failed {α : Type} {fd : Identity} {P : World → Prop} {p : DurableM α}
    {Q : α → World → Prop} (h : Part (createdFile age fd) adopt corpus P p Q) :
    StableTriple (discipline age adopt corpus) () P p Q (FailedWith adopt corpus fd) :=
  h.errors fun _ _ hkept => ⟨hkept.1.2, .inl ⟨hkept.1.1, hkept.2⟩⟩

end Replace

section Cleanup

variable {age : NodeState → Nat} {adopt : Bool} {corpus fd : Identity}
  {temporary : Temporary} {name : Bytes} {error : DurableError} {path : PathBuf}
  {w : World}

theorem FailedWith.validate (h : FailedWith adopt corpus fd error w) :
    FailedWith adopt corpus fd error { w with validating := true } := by
  rcases h with ⟨hcreated, hkept | ⟨hreplaced, herror⟩⟩
  · exact ⟨hcreated, .inl hkept⟩
  · exact ⟨hcreated, .inr ⟨⟨rfl, hreplaced.replaced, hreplaced.committed⟩, herror⟩⟩

theorem entry_erase {other : Bytes} (hne : other ≠ name) :
    (w.setDirectory corpus ((w.directory corpus).erase name)).entry corpus other =
      w.entry corpus other := by
  rw [entry_setDirectory, Std.ExtTreeMap.getElem?_erase, if_neg]
  · rfl
  · intro heq
    exact hne (Std.LawfulEqCmp.eq_of_compare heq).symm

theorem Failed.erase (hname : name ≠ indexName) (h : Failed adopt corpus error w) :
    Failed adopt corpus error
      (w.setDirectory corpus ((w.directory corpus).erase name)) := by
  rcases h with hkept | ⟨⟨hval, hreplaced, before, canonical, old, new, hcommitted⟩, herror⟩
  · exact .inl hkept
  · rcases hcommitted with ⟨hbegun, hcanonical, hpath, hold, hnew, hentry, hfile⟩
    refine .inr ⟨⟨hval, hreplaced, before, canonical, old, new, hbegun, hcanonical, hpath,
      hold, hnew, ?_, hfile⟩, herror⟩
    rw [entry_erase hname.symm, hentry]

/-- A name that leads to the created file is taken away. -/
theorem OwnStep.unlink (hname : name ≠ indexName) (hcreated : w.created = some fd)
    (hentry : w.entry corpus name = some fd) :
    OwnStep adopt corpus w
      (w.setDirectory corpus ((w.directory corpus).erase name)) where
  created := fun _ h => h
  files := fun _ _ => rfl
  elsewhere := fun parent hne => directory_setDirectory hne _
  index := .inl ⟨entry_erase hname.symm, rfl⟩
  removed := by
    intro other i hsome hnone
    by_cases hother : other = name
    · rw [hother, hentry] at hsome
      rw [← hsome]
      exact hcreated
    · rw [entry_erase hother, hsome] at hnone
      cases hnone

theorem cleanupError_root (original : DurableError) (cleanup : Cleanup) :
    (cleanupError original cleanup).root = original.root := by
  cases cleanup <;> rfl

theorem Failed.cleanup (h : Failed adopt corpus error w) (cleanup : Cleanup) :
    Failed adopt corpus (cleanupError error cleanup) w := by
  rw [Failed, cleanupError_root]
  exact h

end Cleanup

section Reindex

variable {age : NodeState → Nat} {corpus : Identity} {options : ReindexOptions}
  {inputs : CapturedInputs} {path : PathBuf}

/-- `INDEX.md` is as the run has found it; the result tells whether it is the catalog
of the files, and it is or the run was only to check. -/
structure Left (options : ReindexOptions) (corpus : Identity) (result : ReindexResult)
    (w : World) : Prop where
  validating : w.validating = true
  replaced : w.replaced = false
  path : w.corpusPath = some corpus
  compared : ∃ index pages canonical, w.presentIndex corpus = some index ∧
    w.presentPages corpus = some pages ∧
    canonicalIndex options.adopt index pages = .ok canonical ∧
    result.changed = decide (canonical.toBytes ≠ index)
  checked : result.changed = true → options.checkOnly = true

/-- What the end of a run says of the files. -/
def Outcome (options : ReindexOptions) (corpus : Identity) :
    Except DurableError ReindexResult → World → Prop
  | .ok result, w => Left options corpus result w ∨
      (result.changed = true ∧ options.checkOnly = false) ∧
        Replaced options.adopt corpus w
  | .error error, w => Failed options.adopt corpus error w

theorem Left.survives (result : ReindexResult) :
    Survives age (Left options corpus result) :=
  Survives.of_validating fun _ h => h.validating

theorem Outcome.survives (result : ReindexResult) :
    Survives age (Outcome options corpus (.ok result)) := by
  intro a b h hab
  rcases h with h | h
  · exact .inl (Left.survives result a b h hab)
  · exact .inr ⟨h.1, Replaced.survives a b h.2 hab⟩

end Reindex

namespace ReindexSample

local instance : Sha256 Bytes := ⟨id, fun _ => []⟩

def corpus : Identity := ⟨1, 1⟩

def pages : Identity := ⟨1, 2⟩

def index : Identity := ⟨1, 3⟩

def path : PathBuf := Text.toBytes "/wiki".toList

/-- An index whose region has lost its blank lines. -/
def drifted : Text := beginMarker ++ "\n".toList ++ endMarker ++ "\n".toList

def canonical : Text := beginMarker ++ "\n\n\n\n".toList ++ endMarker ++ "\n".toList

def file (mode : Nat) (changedNs : Int) (bytes : Bytes) : Inode :=
  ⟨mode, .regular, 1, changedNs, changedNs, bytes⟩

/-- A wiki without pages. -/
def start : World where
  inode i := if i = index then file 0o644 0 drifted.toBytes
    else ⟨0o755, .directory, 2, 0, 0, []⟩
  directory i := if i = corpus then
      Std.ExtTreeMap.ofList [(indexName, index), (pagesName, pages)]
    else ∅
  corpusPath := some corpus
  created := none
  validating := false
  replaced := false

/-- A later change shows a later time. -/
def age (state : NodeState) : Nat := state.changedNs.toNat

def program (checkOnly : Bool) : Prog DurableOp DurableAns
    (Except DurableError ReindexResult) :=
  (reindexFromFd Bytes corpus path ⟨checkOnly, false, none⟩).run

def outcome (checkOnly : Bool) (choices : List Choice) :
    Option (Except DurableError ReindexResult × World) :=
  runChoices (answer age) 120 choices (program checkOnly) start

/-- Whether a run succeeds, and the index and the pages after it. -/
def ended (checkOnly : Bool) (choices : List Choice) :
    Option (Bool × Option Bytes × Option (List CapturedFile)) :=
  (outcome checkOnly choices).map fun (r, w) =>
    (r.toBool, w.presentIndex corpus, w.presentPages corpus)

end ReindexSample

end Yams.Durable
