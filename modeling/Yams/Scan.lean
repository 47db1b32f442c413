/-
What a scan reports: pages with the exact bytes they were captured with, notes
about paths that are not pages or were not observed, and the corpora that were
observed completely; with the merge of the reports of several corpora.
-/
import Yams.PathBytes

namespace Yams

/-- SHA-256 with values in `D`, and the lowercase hexadecimal text of a value. -/
class Sha256 (D : Type) where
  digest : Bytes → D
  hex : D → Text

inductive CorpusKind
  | shared | «private» | override
  deriving DecidableEq

inductive ScanNoteKind
  | oversized | raced | unreadable | unsafeSymlink | unsafeDirectory
  | unsafeHardLink | outsideCorpus | unsafeFileType | navigation
  deriving DecidableEq

structure ScanNote where
  path : PathBuf
  kind : ScanNoteKind
  detail : Text
  deriving DecidableEq

/-- The handle by which the operating system is asked whether a captured page
is still the same file. -/
structure PageRevision where
  path : PathBuf
  deriving DecidableEq

/-- The handle of a completely observed corpus. -/
structure NamespaceRevision where
  rootPath : PathBuf
  deriving DecidableEq

/-- The fields of a page when it was captured.  The digest is that of the
captured bytes. -/
structure SnapshotSeal (D : Type) [Sha256 D] where
  path : PathBuf
  corpus : CorpusKind
  byteLen : UInt64
  modifiedNs : Int
  device : UInt64
  inode : UInt64
  sha256 : D
  content : Bytes
  digest_content : Sha256.digest content = sha256

structure ScannedPage (D : Type) [Sha256 D] where
  path : PathBuf
  corpus : CorpusKind
  byteLen : UInt64
  modifiedNs : Int
  device : UInt64
  inode : UInt64
  sha256 : D
  content : Bytes
  revision : PageRevision
  snapshotSeal : SnapshotSeal D

structure PageSnapshotFields (D : Type) where
  path : PathBuf
  corpus : CorpusKind
  byteLen : UInt64
  modifiedNs : Int
  device : UInt64
  inode : UInt64
  sha256 : D
  deriving DecidableEq

structure ReportSnapshotSeal (D : Type) where
  present : List (PageSnapshotFields D)
  oversized : List ScanNote
  rejected : List ScanNote
  unknown : List ScanNote
  scannedCorpora : List PathBuf
  deriving DecidableEq

structure ScanReport (D : Type) [Sha256 D] where
  present : List (ScannedPage D)
  oversized : List ScanNote
  /-- Stable rejections, which are known not to be pages. -/
  rejected : List ScanNote
  /-- Incomplete observations. -/
  unknown : List ScanNote
  /-- Corpus roots that were observed completely. -/
  scannedCorpora : List PathBuf
  namespaceRevisions : List NamespaceRevision
  snapshotSeal : Option (ReportSnapshotSeal D)

section

variable {D : Type} [Sha256 D]

def ScannedPage.snapshotFields (page : ScannedPage D) : PageSnapshotFields D :=
  ⟨page.path, page.corpus, page.byteLen, page.modifiedNs, page.device,
    page.inode, page.sha256⟩

def SnapshotSeal.snapshotFields (captured : SnapshotSeal D) : PageSnapshotFields D :=
  ⟨captured.path, captured.corpus, captured.byteLen, captured.modifiedNs,
    captured.device, captured.inode, captured.sha256⟩

def ReportSnapshotSeal.fromReport (report : ScanReport D) :
    ReportSnapshotSeal D :=
  ⟨report.present.map ScannedPage.snapshotFields, report.oversized,
    report.rejected, report.unknown, report.scannedCorpora⟩

def ScanReport.empty : ScanReport D := ⟨[], [], [], [], [], [], none⟩

def ScanReport.reseal (report : ScanReport D) : ScanReport D :=
  { report with snapshotSeal := some (.fromReport report) }

section

variable [DecidableEq D]

/-- The public fields and the bytes are those that were captured. -/
def ScannedPage.validateSnapshot (page : ScannedPage D) :
    Except ScanNote Unit :=
  if page.snapshotFields = page.snapshotSeal.snapshotFields ∧
      page.byteLen = UInt64.ofNat page.content.length ∧
      page.content = page.snapshotSeal.content then
    .ok ()
  else
    .error ⟨page.snapshotSeal.path, .raced,
      "captured page snapshot fields changed after scanning".toList⟩

/-- The public observations are those that the scanner emitted. -/
def ScanReport.validateSnapshot (report : ScanReport D) :
    Except ScanNote Unit :=
  if report.snapshotSeal = some (.fromReport report) ∧
      report.present.all fun page => page.validateSnapshot.isOk then
    .ok ()
  else
    .error ⟨(report.scannedCorpora.head?.or
        (report.present.head?.map ScannedPage.path)).getD [], .raced,
      "captured scan report fields changed after scanning".toList⟩

end

def scopesOverlap (left right : PathBuf) : Bool :=
  PathBytes.startsWith left right || PathBytes.startsWith right left

def underUnknown (path : PathBuf) (unknownScopes : List PathBuf) : Bool :=
  unknownScopes.any fun unknown => PathBytes.startsWith path unknown

/-- The report so far and the sets that steer the merge. -/
structure Merge (D : Type) [Sha256 D] where
  target : ScanReport D
  claimedPages : List PathBuf
  unknownScopes : List PathBuf
  seenNotes : List ScanNote
  seenCorpora : List PathBuf

def Merge.start : Merge D := ⟨.empty, [], [], [], []⟩

/-- Withdraw every observation that lies under a new unknown scope. -/
def ScanReport.withdraw (report : ScanReport D) (scope : PathBuf) :
    ScanReport D :=
  { report with
    present := report.present.filter fun page =>
      !PathBytes.startsWith page.path scope
    oversized := report.oversized.filter fun prior =>
      !PathBytes.startsWith prior.path scope
    rejected := report.rejected.filter fun prior =>
      !PathBytes.startsWith prior.path scope
    scannedCorpora := report.scannedCorpora.filter fun root =>
      !scopesOverlap scope root
    namespaceRevisions := report.namespaceRevisions.filter fun revision =>
      !scopesOverlap scope revision.rootPath }

def Merge.enterScope (st : Merge D) (scope : PathBuf) : Merge D :=
  if scope ∈ st.unknownScopes then st
  else
    { st with
      target := st.target.withdraw scope
      claimedPages := scope :: st.claimedPages
      unknownScopes := scope :: st.unknownScopes }

/-- The note unless it was seen before. -/
def Merge.distinctNote (st : Merge D) (note : ScanNote) :
    List ScanNote × Merge D :=
  if note ∈ st.seenNotes then ([], st)
  else ([note], { st with seenNotes := note :: st.seenNotes })

def Merge.unknown (st : Merge D) (note : ScanNote) : Merge D :=
  let (notes, st) := (st.enterScope note.path).distinctNote note
  { st with target.unknown := st.target.unknown ++ notes }

/-- A path is claimed once, and never under an unknown scope. -/
def Merge.claims (st : Merge D) (path : PathBuf) : Bool :=
  !underUnknown path st.unknownScopes && path ∉ st.claimedPages

def Merge.claim (st : Merge D) (path : PathBuf) : Merge D :=
  { st with claimedPages := path :: st.claimedPages }

def Merge.rejected (st : Merge D) (note : ScanNote) : Merge D :=
  if st.claims note.path then
    let (notes, st) := (st.claim note.path).distinctNote note
    { st with target.rejected := st.target.rejected ++ notes }
  else st

def Merge.oversized (st : Merge D) (note : ScanNote) : Merge D :=
  if st.claims note.path then
    let (notes, st) := (st.claim note.path).distinctNote note
    { st with target.oversized := st.target.oversized ++ notes }
  else st

def Merge.present (st : Merge D) (page : ScannedPage D) : Merge D :=
  if st.claims page.path then
    let st := st.claim page.path
    { st with target.present := st.target.present ++ [page] }
  else st

/-- A corpus is complete once, and never when a scope overlaps it; its handle
moves from the source report with it. -/
def Merge.corpus : Merge D × List NamespaceRevision → PathBuf →
    Merge D × List NamespaceRevision
  | (st, revisions), path =>
      if !(st.unknownScopes.any fun unknown => scopesOverlap unknown path) &&
          path ∉ st.seenCorpora then
        let moved := (revisions.find? fun revision =>
          revision.rootPath = path).toList
        ({ st with
            seenCorpora := path :: st.seenCorpora
            target.namespaceRevisions :=
              st.target.namespaceRevisions ++ moved
            target.scannedCorpora := st.target.scannedCorpora ++ [path] },
          revisions.eraseP fun revision => revision.rootPath = path)
      else (st, revisions)

def mergeReport (st : Merge D) (source : ScanReport D) : Merge D :=
  let st := source.unknown.foldl Merge.unknown st
  let st := source.rejected.foldl Merge.rejected st
  let st := source.oversized.foldl Merge.oversized st
  let st := source.present.foldl Merge.present st
  (source.scannedCorpora.foldl Merge.corpus (st, source.namespaceRevisions)).1

def ScanNoteKind.rank : ScanNoteKind → Nat
  | .oversized => 0 | .raced => 1 | .unreadable => 2 | .unsafeSymlink => 3
  | .unsafeDirectory => 4 | .unsafeHardLink => 5 | .outsideCorpus => 6
  | .unsafeFileType => 7 | .navigation => 8

/-- The order of notes: by path, kind and detail. -/
def ScanNote.le (left right : ScanNote) : Bool :=
  if PathBytes.le left.path right.path && PathBytes.le right.path left.path then
    if left.kind = right.kind then
      decide (¬ Text.toBytes right.detail < Text.toBytes left.detail)
    else left.kind.rank ≤ right.kind.rank
  else PathBytes.le left.path right.path

def sortNotes (notes : List ScanNote) : List ScanNote :=
  notes.mergeSort ScanNote.le

/-- The report of a whole scan, from the reports of its corpora in order. -/
def scanReport (locals : List (ScanReport D)) : ScanReport D :=
  let report := (locals.foldl mergeReport .start).target
  let scannedCorpora := report.scannedCorpora.filter fun root =>
    !report.unknown.any fun note => scopesOverlap note.path root
  ScanReport.reseal
    { report with
      present := report.present.mergeSort fun left right =>
        PathBytes.le left.path right.path
      oversized := sortNotes report.oversized
      rejected := sortNotes report.rejected
      unknown := sortNotes report.unknown
      scannedCorpora := scannedCorpora
      namespaceRevisions := report.namespaceRevisions.filter fun revision =>
        scannedCorpora.any fun root => root = revision.rootPath }

/-- The report was sealed by a scan, whatever became of its public fields. -/
def Scanned (report : ScanReport D) : Prop :=
  ∃ locals : List (ScanReport D), report.snapshotSeal = (scanReport locals).snapshotSeal

end

end Yams
