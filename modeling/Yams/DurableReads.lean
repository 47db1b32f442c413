/-
What a reindex knows of the files it has read.  A signature that comes back means
that the contents are those that were read under it, whatever others did meanwhile.
-/
import Yams.Durable
import Yams.StableTriple

namespace Yams.Durable

open Wiki

section Ages

variable {age : NodeState → Nat} {i : Identity} {first second third : Inode}

theorem Ages.refl (i : Identity) (inode : Inode) : Ages age i inode inode :=
  ⟨le_rfl, fun _ => rfl⟩

theorem Ages.trans (h : Ages age i first second) (h' : Ages age i second third) :
    Ages age i first third := by
  refine ⟨le_trans h.1 h'.1, fun heq => ?_⟩
  have hfirst : age (first.state i) = age (second.state i) :=
    le_antisymm h.1 (heq ▸ h'.1)
  rw [h'.2 (hfirst ▸ heq), h.2 hfirst]

theorem Foreign.refl (w : World) : Foreign age w w :=
  ⟨rfl, rfl, rfl, fun _ => rfl, fun i => .refl i _, fun _ _ => ⟨rfl, rfl⟩⟩

theorem Foreign.trans {a b c : World} (h : Foreign age a b) (h' : Foreign age b c) :
    Foreign age a c where
  created := h'.created.trans h.created
  validating := h'.validating.trans h.validating
  replaced := h'.replaced.trans h.replaced
  still := fun hval => by
    rw [h'.still (h.validating.trans hval), h.still hval]
  ages := fun i => (h.ages i).trans (h'.ages i)
  kept := fun i hi => by
    obtain ⟨hbytes, hmode⟩ := h.kept i hi
    obtain ⟨hbytes', hmode'⟩ := h'.kept i (h.created.trans hi)
    exact ⟨hbytes'.trans hbytes, hmode'.trans hmode⟩

end Ages

section Snapshot

namespace World

variable (w : World) (corpus : Identity)

/-- The bytes of `INDEX.md`. -/
def presentIndex : Option Bytes :=
  (w.entry corpus indexName).map fun i => (w.inode i).bytes

/-- The pages in the order of their names. -/
def presentPages : Option (List CapturedFile) :=
  (w.entry corpus pagesName).map fun pages =>
    ((w.directory pages).toList.filter fun entry => isMarkdownName entry.1).map
      fun entry => ⟨entry.1, (w.inode entry.2).bytes⟩

end World

/-- The catalog of the bytes of an index and of pages. -/
def canonicalIndex (adopt : Bool) (index : Bytes) (pages : List CapturedFile) :
    Except Wiki.DurableError Text := do
  let before ← indexText index
  let computed ← computeIndex adopt before pages
  return computed.canonical

/-- The files hold an index and pages with this catalog. -/
def CanonicalAt (adopt : Bool) (corpus : Identity) (w : World) (canonical : Text) : Prop :=
  ∃ index pages, w.presentIndex corpus = some index ∧
    w.presentPages corpus = some pages ∧ canonicalIndex adopt index pages = .ok canonical

/-- From the files of `w`, at the path of the corpus and with the last validation
begun, `INDEX.md` has been replaced by their catalog, in the file that the run created
and with the mode of the old one. -/
def Committed (adopt : Bool) (corpus : Identity) (w next : World) : Prop :=
  ∃ canonical old new, w.validating = true ∧ CanonicalAt adopt corpus w canonical ∧
    w.corpusPath = some corpus ∧
    w.entry corpus indexName = some old ∧ w.created = some new ∧
    next.entry corpus indexName = some new ∧
    (next.inode new).bytes = canonical.toBytes ∧
    permissionBits (next.inode new).mode = permissionBits (w.inode old).mode

/-- What a step of the run itself does to the files: it writes to no file but the one
it has created, takes no other name away, and replaces `INDEX.md` only to commit. -/
structure OwnStep (adopt : Bool) (corpus : Identity) (w next : World) : Prop where
  created : ∀ i, w.created = some i → next.created = some i
  files : ∀ i, next.created ≠ some i → next.inode i = w.inode i
  elsewhere : ∀ parent, parent ≠ corpus → next.directory parent = w.directory parent
  index : next.entry corpus indexName = w.entry corpus indexName ∧
      next.replaced = w.replaced ∨
    Committed adopt corpus w next ∧ next.replaced = true
  removed : ∀ name i, w.entry corpus name = some i → next.entry corpus name = none →
    w.created = some i

theorem OwnStep.refl (adopt : Bool) (corpus : Identity) (w : World) :
    OwnStep adopt corpus w w where
  created := fun _ h => h
  files := fun _ _ => rfl
  elsewhere := fun _ _ => rfl
  index := .inl ⟨rfl, rfl⟩
  removed := fun name i hsome hnone => by
    rw [hsome] at hnone
    cases hnone

/-- The run keeps to what it may do, the others to what is assumed of them. -/
def discipline (age : NodeState → Nat) (adopt : Bool) (corpus : Identity) :
    Discipline (system age) where
  inv _ := True
  rely _ := Foreign age
  guar _ := OwnStep adopt corpus
  rely_refl _ := Foreign.refl
  rely_trans := Foreign.trans
  compat := fun hne => absurd rfl hne
  env := fun _ h => ⟨trivial, fun _ => h⟩

end Snapshot

section Errors

/-- The error that a cleanup did not change. -/
def DurableError.root : DurableError → DurableError
  | cleanupFailed original _ _ => original.root
  | temporaryRebound original _ => original.root
  | error => error

end Errors

section Frames

variable {age : NodeState → Nat} {A R : World → Prop}

/-- The others keep an assertion. -/
abbrev Survives (age : NodeState → Nat) (R : World → Prop) : Prop :=
  ∀ a b, R a → Foreign age a b → R b

/-- What holds all through a part of the run, also after its errors. -/
structure Carried (age : NodeState → Nat) where
  holds : World → Prop
  survives : Survives age holds

/-- What is known in such a part, whatever the others do. -/
structure Frame (C : Carried age) (A : World → Prop) : Prop where
  survives : Survives age A
  kept : ∀ w, A w → C.holds w

/-- An error before the replacement of `INDEX.md`. -/
def Kept (C : Carried age) (error : DurableError) (w : World) : Prop :=
  C.holds w ∧ ∀ errno, error.root ≠ .replacedNotDurable errno

variable {C : Carried age}

theorem Survives.const (p : Prop) : Survives age fun _ => p := fun _ _ h _ => h

theorem Survives.and (hA : Survives age A) (hR : Survives age R) :
    Survives age fun w => A w ∧ R w :=
  fun a b h hab => ⟨hA a b h.1 hab, hR a b h.2 hab⟩

theorem Survives.forall {β : Sort*} {R : β → World → Prop} (h : ∀ b, Survives age (R b)) :
    Survives age fun w => ∀ b, R b w :=
  fun a c hall hac b => h b a c (hall b) hac

theorem Survives.imp (p : Prop) (hR : Survives age R) : Survives age fun w => p → R w :=
  fun a b h hab hp => hR a b (h hp) hab

theorem Survives.exists {β : Sort*} {R : β → World → Prop} (h : ∀ b, Survives age (R b)) :
    Survives age fun w => ∃ b, R b w :=
  fun a c ⟨b, hb⟩ hac => ⟨b, h b a c hb hac⟩

theorem Frame.and (hA : Frame C A) (hR : Survives age R) :
    Frame C fun w => A w ∧ R w :=
  ⟨hA.survives.and hR, fun w h => hA.kept w h.1⟩

theorem kept_survives (error : DurableError) : Survives age (Kept C error) :=
  C.survives.and (Survives.const _)

/-- An assertion held, and since then only the others have acted. -/
def Was (age : NodeState → Nat) (R : World → Prop) (w : World) : Prop :=
  ∃ before, R before ∧ Foreign age before w

theorem Was.survives (R : World → Prop) : Survives age (Was age R) := by
  rintro a b ⟨before, hbefore, hrely⟩ hab
  exact ⟨before, hbefore, hrely.trans hab⟩

/-- What holds if the last validation has begun. -/
def Now (R : World → Prop) (w : World) : Prop := w.validating = true → R w

theorem Now.survives (R : World → Prop) : Survives age (Now R) := by
  intro a b h hab hval
  have hvala : a.validating = true := hab.validating.symm.trans hval
  rw [hab.still hvala]
  exact h hvala

theorem Was.now {w : World} (h : Was age R w) : Now R w := by
  obtain ⟨before, hbefore, hrely⟩ := h
  intro hval
  rw [hrely.still (hrely.validating.symm.trans hval)]
  exact hbefore

/-- A file has been seen under a signature: it has not become younger. -/
def Seen (age : NodeState → Nat) (s : NodeState) (w : World) : Prop :=
  age s ≤ age (w.state s.identity)

/-- The contents that a file has whenever it has a signature. -/
def Known (age : NodeState → Nat) (s : NodeState) (bytes : Bytes) (w : World) : Prop :=
  Seen age s w ∧
    (age s = age (w.state s.identity) → (w.inode s.identity).bytes = bytes)

theorem Seen.ages {s : NodeState} {a b : World}
    (hages : Ages age s.identity (a.inode s.identity) (b.inode s.identity))
    (h : Seen age s a) : Seen age s b :=
  le_trans h hages.1

theorem Known.ages {s : NodeState} {bytes : Bytes} {a b : World}
    (hages : Ages age s.identity (a.inode s.identity) (b.inode s.identity))
    (h : Known age s bytes a) : Known age s bytes b := by
  refine ⟨h.1.ages hages, fun heq => ?_⟩
  have hsame : age (a.state s.identity) = age (b.state s.identity) :=
    le_antisymm hages.1 (heq ▸ h.1)
  rw [hages.2 hsame]
  exact h.2 (heq.trans hsame.symm)

theorem Seen.survives (s : NodeState) : Survives age (Seen age s) :=
  fun _ _ h hab => h.ages (hab.ages s.identity)

theorem Known.survives (s : NodeState) (bytes : Bytes) :
    Survives age (Known age s bytes) :=
  fun _ _ h hab => h.ages (hab.ages s.identity)

end Frames

section Calls

variable {α : Type} {age : NodeState → Nat} {C : Carried age} {adopt : Bool}
  {corpus : Identity} {A : World → Prop}

/-- A part of the run that ends before `INDEX.md` is replaced. -/
abbrev Part (C : Carried age) (adopt : Bool) (corpus : Identity)
    (P : World → Prop) (p : DurableM α) (Q : α → World → Prop) : Prop :=
  StableTriple (discipline age adopt corpus) () P p Q (Kept C)

theorem Part.bind {β : Type} {P : World → Prop} {p : DurableM β} {f : β → DurableM α}
    {M : β → World → Prop} {Q : α → World → Prop} (hp : Part C adopt corpus P p M)
    (hf : ∀ b, Part C adopt corpus (M b) (f b) Q) :
    Part C adopt corpus P (p >>= f) Q :=
  StableTriple.bind kept_survives hp hf

theorem Part.pure {P : World → Prop} {Q : α → World → Prop}
    (hQ : ∀ a, Survives age (Q a)) {a : α} (h : ∀ w, P w → Q a w) :
    Part C adopt corpus P (Pure.pure a) Q :=
  StableTriple.pure hQ h

theorem Part.throw {P : World → Prop} {Q : α → World → Prop} {error : DurableError}
    (h : ∀ w, P w → C.holds w)
    (herror : ∀ errno, error.root ≠ .replacedNotDurable errno) :
    Part C adopt corpus P (MonadExcept.throw error) Q :=
  StableTriple.throw kept_survives fun w hw => ⟨h w hw, herror⟩

theorem Part.iterate {σ : Type} {body : σ → DurableM (σ ⊕ α)} {J : σ → World → Prop}
    {Q : α → World → Prop} {state : σ} (hJ : ∀ st, Survives age (J st))
    (hQ : ∀ a, Survives age (Q a))
    (h : ∀ st, Part C adopt corpus (J st) (body st) fun r => Sum.elim J Q r) :
    Part C adopt corpus (J state) (Fallible.iterate body state) Q :=
  StableTriple.iterate hJ hQ kept_survives h

variable {parent fd : Identity} {name : Bytes} {path : PathBuf} {operation : Text}

/-- A name leads to a file with a signature. -/
def Names (w : World) (parent : Identity) (name : Bytes) (s : NodeState) : Prop :=
  w.entry parent name = some s.identity ∧ s = w.state s.identity

end Calls

section Reading

variable {age : NodeState → Nat} {C : Carried age} {adopt : Bool} {corpus : Identity}
  {A : World → Prop} {parent fd : Identity} {name : Bytes} {path : PathBuf}

/-- What has been read of a file, if it still has a signature. -/
def Reading (age : NodeState → Nat) (s : NodeState) (bytes : Bytes) (w : World) : Prop :=
  Seen age s w ∧
    (age s = age (w.state s.identity) → bytes <+: (w.inode s.identity).bytes)

theorem Reading.survives (s : NodeState) (bytes : Bytes) :
    Survives age (Reading age s bytes) := by
  rintro a b ⟨hseen, hread⟩ hab
  have hages := hab.ages s.identity
  refine ⟨hseen.ages hages, fun heq => ?_⟩
  have hsame : age (a.state s.identity) = age (b.state s.identity) :=
    le_antisymm hages.1 (heq ▸ hseen)
  rw [hages.2 hsame]
  exact hread (heq.trans hsame.symm)

/-- The bytes of one call: none only at the end of the file. -/
def Chunk (w : World) (fd : Identity) (offset : Nat) (chunk : Bytes) : Prop :=
  chunk <+: (w.inode fd).bytes.drop offset ∧
    (chunk = [] → (w.inode fd).bytes.length ≤ offset)

theorem Reading.append {s : NodeState} {bytes chunk : Bytes} {w : World}
    (h : Reading age s bytes w) (hchunk : Chunk w s.identity bytes.length chunk) :
    Reading age s (bytes ++ chunk) w := by
  refine ⟨h.1, fun heq => ?_⟩
  obtain ⟨rest, hrest⟩ := h.2 heq
  have hnext := hchunk.1
  rw [← hrest, List.drop_left] at hnext
  obtain ⟨more, hmore⟩ := hnext
  exact ⟨more, by rw [List.append_assoc, hmore, hrest]⟩

theorem Reading.known {s : NodeState} {bytes : Bytes} {w : World}
    (h : Reading age s bytes w) (hchunk : Chunk w s.identity bytes.length []) :
    Known age s bytes w := by
  refine ⟨h.1, fun heq => ?_⟩
  have hread := h.2 heq
  exact (hread.eq_of_length_le (hchunk.2 rfl)).symm

/-- The contents belong to a signature that is no older than one seen before. -/
def ReadSince (age : NodeState → Nat) (opened : NodeState) (bytes : Bytes) (w : World) :
    Prop :=
  ∃ s : NodeState, (s.identity = opened.identity ∧ age opened ≤ age s) ∧
    Known age s bytes w

theorem ReadSince.survives (opened : NodeState) (bytes : Bytes) :
    Survives age (ReadSince age opened bytes) :=
  Survives.exists fun s => (Survives.const _).and (Known.survives s bytes)

end Reading

section Inputs

variable {age : NodeState → Nat} {C : Carried age} {adopt : Bool} {corpus : Identity}
  {A : World → Prop} {parent fd : Identity} {name : Bytes} {path : PathBuf}

theorem ReadSince.known {s : NodeState} {bytes : Bytes} {w : World}
    (h : ReadSince age s bytes w) (hstate : s = w.state s.identity) :
    Known age s bytes w := by
  obtain ⟨found, ⟨hidentity, hage⟩, hseen, hknown⟩ := h
  rw [Seen, hidentity, ← hstate] at hseen
  have hsame : age s = age found := le_antisymm hage hseen
  rw [hidentity, ← hstate, hsame] at hknown
  refine ⟨?_, fun _ => hknown rfl⟩
  rw [Seen, ← hstate]

/-- What is known of an index that has been read. -/
def KnownIndex (age : NodeState → Nat) (index : CapturedIndex) (w : World) : Prop :=
  Known age index.state index.bytes w

theorem KnownIndex.survives (index : CapturedIndex) : Survives age (KnownIndex age index) :=
  Known.survives index.state index.bytes

/-- The names of the pages of a directory. -/
def pageKeys (entries : Entries) : List Bytes := entries.keys.filter isMarkdownName

/-- The entries of a directory with the signatures of their files. -/
def Listed (w : World) (directory : Identity) (entries : List EntrySignature) : Prop :=
  ∀ entry ∈ entries, Names w directory entry.name entry.state

/-- The entries are those of the pages in a directory, in order. -/
def AllListed (w : World) (directory : Identity) (entries : List EntrySignature) : Prop :=
  entries.map EntrySignature.name = pageKeys (w.directory directory) ∧
    Listed w directory entries

/-- The pages are known under their signatures. -/
def KnownPages (age : NodeState → Nat) (pages : List SignedPage) (w : World) : Prop :=
  ∀ page ∈ pages, Known age page.signature.state page.bytes w

theorem KnownPages.survives (pages : List SignedPage) :
    Survives age (KnownPages age pages) :=
  fun _ _ h hab page hpage => (h page hpage).ages (hab.ages page.signature.state.identity)

/-- The pages of the captured inputs are their entries, and are known. -/
def Captured (age : NodeState → Nat) (inputs : CapturedInputs) (w : World) : Prop :=
  inputs.pages.map SignedPage.signature = inputs.entries ∧ KnownPages age inputs.pages w

theorem Captured.survives (inputs : CapturedInputs) :
    Survives age (Captured age inputs) :=
  (Survives.const _).and (KnownPages.survives inputs.pages)

/-- The files are still those that the inputs were captured from. -/
structure Valid (corpus : Identity) (inputs : CapturedInputs) (w : World) : Prop where
  pages : w.entry corpus pagesName = some inputs.pagesFd
  entries : AllListed w inputs.pagesFd inputs.entries
  index : Names w corpus indexName inputs.index.state

end Inputs

end Yams.Durable
