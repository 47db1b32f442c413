/-
The scan of one corpus.  What the operating system answers while a directory is
scanned is a tree; the scan reads it with an explicit stack of directory frames,
whatever changes or fails in between.
-/
import Mathlib.Logic.Function.Iterate
import Yams.Scan

namespace Yams.Traversal

def maxFileBytes : UInt64 := 1048576

inductive FileType
  | regularFile | directory | symlink | fifo | socket | characterDevice
  | blockDevice | unknown
  deriving DecidableEq

/-- The errors that the scan tells apart. -/
inductive ErrnoCode
  | access | perm | noent | other
  deriving DecidableEq

/-- An error of the operating system, with its text. -/
structure Errno where
  code : ErrnoCode
  display : Text
  deriving DecidableEq

structure NodeState where
  device : UInt64
  inode : UInt64
  mode : UInt32
  kind : FileType
  nlink : UInt64
  size : UInt64
  modifiedNs : Int
  changedNs : Int
  deriving DecidableEq

/-- The answers about an open file and about the name it was opened by. -/
structure Binding where
  descriptor : Except Errno NodeState
  named : Except Errno NodeState

/-- The answer to opening a name: an error, and what the name stands for after
it, or the state of the descriptor. -/
inductive Opening
  | failed (error : Errno) (current : Except Errno NodeState)
  | opened (state : Except Errno NodeState)

/-- The answers about a page, in the order of the questions. -/
structure FileAnswers where
  /-- The test hook that refuses to open the file. -/
  failOpen : Bool
  opening : Opening
  beforeRead : Binding
  read : Except Errno Bytes
  afterRead : Binding

/-- The answers about a directory entry. -/
structure Answers where
  stat : Except Errno NodeState
  directory : Opening
  file : FileAnswers

mutual

/-- A directory as it answers during a scan: whether its stream can be opened,
the stream, and the binding of the directory when the stream has ended. -/
inductive Directory
  | mk (streamError : Option Errno) (stream : Stream) (closing : Binding)

/-- What a directory stream yields.  An entry comes with what lies below it, if
it is a directory, and with the answer of the test hook that fails the stream
after it. -/
inductive Stream
  | exhausted
  | failed (error : Errno) (rest : Stream)
  | entry (name : Bytes) (answers : Answers) (below : Directory)
      (failIteration : Bool) (rest : Stream)

end

def Directory.streamError : Directory → Option Errno
  | ⟨error, _, _⟩ => error

def Directory.stream : Directory → Stream
  | ⟨_, stream, _⟩ => stream

def Directory.closing : Directory → Binding
  | ⟨_, _, closing⟩ => closing

section

variable (D : Type) [Sha256 D]

/-- What one step adds to a report. -/
structure Found where
  present : List (ScannedPage D)
  oversized : List ScanNote
  rejected : List ScanNote
  unknown : List ScanNote

end

variable {D : Type} [Sha256 D]

def Found.nothing : Found D := ⟨[], [], [], []⟩

def oversized (path : PathBuf) (detail : Text) : Found D :=
  ⟨[], [⟨path, .oversized, detail⟩], [], []⟩

def rejected (path : PathBuf) (kind : ScanNoteKind) (detail : Text) : Found D :=
  ⟨[], [], [⟨path, kind, detail⟩], []⟩

def raced (path : PathBuf) (detail : Text) : Found D :=
  ⟨[], [], [], [⟨path, .raced, detail⟩]⟩

def unreadable (path : PathBuf) (detail : Text) : Found D :=
  ⟨[], [], [], [⟨path, .unreadable, detail⟩]⟩

def errnoNoteKind (error : Errno) : ScanNoteKind :=
  match error.code with
  | .access | .perm => .unreadable
  | .noent => .raced
  | .other => .unreadable

/-- `format!("{context}: {error}")` -/
def withError (context : String) (error : Errno) : Text :=
  context.toList ++ ": ".toList ++ error.display

def entryError (path : PathBuf) (error : Errno) (context : String) : Found D :=
  ⟨[], [], [], [⟨path, errnoNoteKind error, withError context error⟩]⟩

/-- The note about a name that could not be opened, by what it stands for now. -/
def bindingOpenError (path : PathBuf) (candidate : NodeState) (error : Errno)
    (current : Except Errno NodeState) (context : String) : Found D :=
  match current with
  | .ok state =>
      if state = candidate then unreadable path (withError context error)
      else raced path (withError
        (context ++ "; pathname changed or could not be rebound") error)
  | .error _ => raced path (withError
      (context ++ "; pathname changed or could not be rebound") error)

def hasMarkdownExtension (path : PathBuf) : Bool :=
  ((PathBytes.fileName path).bind fun name => (PathBytes.splitExtension name).2) =
    some (Text.toBytes "md".toList)

def navigationNames : List Bytes :=
  ["README.md", "MEMORY.md", "INDEX.md", "SCHEMA.md"].map fun name =>
    Text.toBytes name.toList

def isNavigationPage (path : PathBuf) : Bool :=
  (PathBytes.fileName path).any fun name => name ∈ navigationNames

/-- The binding of an opened page, if its name still names it. -/
def coherentFileBinding (binding : Binding) (expected : NodeState) :
    Except Text NodeState :=
  match binding.descriptor with
  | .error error =>
      .error (withError "cannot re-check opened page descriptor" error)
  | .ok opened =>
      match binding.named with
      | .error error => .error (withError "cannot re-check page pathname" error)
      | .ok named =>
          if opened.device ≠ expected.device ∨ opened.inode ≠ expected.inode ∨
              named.device ≠ opened.device ∨ named.inode ≠ opened.inode ∨
              named.kind ≠ .regularFile ∨ opened.kind ≠ .regularFile then
            .error "page pathname no longer names the opened regular file".toList
          else if named ≠ opened then
            .error
              "page pathname metadata differs from its opened descriptor".toList
          else .ok opened

/-- The page of some bytes that were read at a state. -/
def pageOf (path : PathBuf) (corpus : CorpusKind) (state : NodeState)
    (content : Bytes) : ScannedPage D where
  path := path
  corpus := corpus
  byteLen := UInt64.ofNat content.length
  modifiedNs := state.modifiedNs
  device := state.device
  inode := state.inode
  sha256 := Sha256.digest content
  content := content
  revision := ⟨path⟩
  snapshotSeal := ⟨path, corpus, UInt64.ofNat content.length, state.modifiedNs,
    state.device, state.inode, Sha256.digest content, content, rfl⟩

/-- `Read::take(MAX_FILE_BYTES + 1)` -/
def bounded (bytes : Bytes) : Bytes := bytes.take (maxFileBytes.toNat + 1)

/-- The last part of `scan_file`: the read and the binding after it. -/
def readFile (path : PathBuf) (corpus : CorpusKind) (before : NodeState)
    (answers : FileAnswers) : Found D :=
  match answers.read with
  | .error error => unreadable path (withError "cannot read page" error)
  | .ok source =>
      let bytes := bounded source
      match coherentFileBinding answers.afterRead before with
      | .error detail => raced path detail
      | .ok after =>
          if maxFileBytes.toNat < bytes.length ∨ maxFileBytes < after.size then
            oversized path ("page grew beyond the ".toList ++
              Text.ofNat maxFileBytes.toNat ++
              " byte cap while reading".toList)
          else if after ≠ before ∨ after.size.toNat ≠ bytes.length then
            raced path "page metadata changed while reading".toList
          else ⟨[pageOf path corpus after bytes], [], [], []⟩

/-- `scan_file` from the opened descriptor on. -/
def scanOpened (path : PathBuf) (corpus : CorpusKind) (candidate opened : NodeState)
    (answers : FileAnswers) : Found D :=
  if opened.device ≠ candidate.device ∨ opened.inode ≠ candidate.inode then
    raced path "page was replaced between inspection and open".toList
  else if opened.kind ≠ .regularFile then
    raced path "opened descriptor is no longer a regular file".toList
  else if maxFileBytes < opened.size then
    oversized path ("opened page grew to ".toList ++
      Text.ofNat opened.size.toNat ++ " bytes, above the ".toList ++
      Text.ofNat maxFileBytes.toNat ++ " byte cap".toList)
  else if opened ≠ candidate then
    raced path "page metadata changed between inspection and open".toList
  else
    match coherentFileBinding answers.beforeRead opened with
    | .error detail => raced path detail
    | .ok before =>
        if maxFileBytes < before.size then
          oversized path ("page grew to ".toList ++
            Text.ofNat before.size.toNat ++ " bytes, above the ".toList ++
            Text.ofNat maxFileBytes.toNat ++ " byte cap before reading".toList)
        else if before ≠ opened then
          raced path "page metadata changed before reading".toList
        else readFile path corpus before answers

def scanFile (path : PathBuf) (corpus : CorpusKind) (candidate : NodeState)
    (answers : FileAnswers) : Found D :=
  if 1 < candidate.nlink then
    rejected path .unsafeHardLink ("page has ".toList ++
      Text.ofNat candidate.nlink.toNat ++ " hard links".toList)
  else if maxFileBytes < candidate.size then
    oversized path ("page is ".toList ++ Text.ofNat candidate.size.toNat ++
      " bytes, above the ".toList ++ Text.ofNat maxFileBytes.toNat ++
      " byte cap".toList)
  else if answers.failOpen then
    unreadable path "injected safe-open failure".toList
  else
    match answers.opening with
    | .failed error current =>
        bindingOpenError path candidate error current "cannot safely open page"
    | .opened (.error error) =>
        unreadable path (withError "cannot inspect opened page" error)
    | .opened (.ok opened) => scanOpened path corpus candidate opened answers

inductive EntryAction
  | done
  | descend (path : PathBuf) (state : NodeState)

def openDirectory (path : PathBuf) (candidate : NodeState) (opening : Opening) :
    Found D × EntryAction :=
  match opening with
  | .failed error current =>
      (bindingOpenError path candidate error current
        "cannot safely open directory", .done)
  | .opened (.error error) =>
      (unreadable path (withError "cannot inspect opened directory" error), .done)
  | .opened (.ok opened) =>
      if opened ≠ candidate ∨ opened.kind ≠ .directory then
        (raced path "directory changed between inspection and open".toList, .done)
      else (.nothing, .descend path opened)

def inspectEntry (directory : PathBuf) (name : Bytes) (corpus : CorpusKind)
    (answers : Answers) : Found D × EntryAction :=
  let path := PathBytes.join directory name
  match answers.stat with
  | .error error =>
      (entryError path error "cannot inspect directory entry", .done)
  | .ok candidate =>
      if candidate.kind = .symlink then
        (rejected path .unsafeSymlink "symlinks are not followed".toList, .done)
      else if candidate.kind = .directory then
        if name.head? = some 0x2e then (.nothing, .done)
        else if hasMarkdownExtension path then
          (rejected path .unsafeDirectory
            "a directory named like a Markdown page is not scanned".toList, .done)
        else openDirectory path candidate answers.directory
      else if !hasMarkdownExtension path then (.nothing, .done)
      else if isNavigationPage path then
        (rejected path .navigation
          "wiki navigation filename is not indexed".toList, .done)
      else if candidate.kind ≠ .regularFile then
        (rejected path .unsafeFileType
          "Markdown candidate is not a regular file".toList, .done)
      else (scanFile path corpus candidate answers.file, .done)

/-- How much of a report was there when a directory was entered. -/
structure Checkpoint where
  present : Nat
  oversized : Nat
  rejected : Nat

/-- The report of a scan in progress. -/
abbrev Report (D : Type) [Sha256 D] := Found D

def Found.append (report found : Found D) : Found D :=
  ⟨report.present ++ found.present, report.oversized ++ found.oversized,
    report.rejected ++ found.rejected, report.unknown ++ found.unknown⟩

instance : Append (Found D) := ⟨Found.append⟩

def Checkpoint.at (report : Report D) : Checkpoint :=
  ⟨report.present.length, report.oversized.length, report.rejected.length⟩

def Checkpoint.rollback (checkpoint : Checkpoint) (report : Report D) : Report D :=
  { report with
    present := report.present.take checkpoint.present
    oversized := report.oversized.take checkpoint.oversized
    rejected := report.rejected.take checkpoint.rejected }

structure Frame where
  path : PathBuf
  nameInParent : Option Bytes
  start : NodeState
  stream : Option Stream
  processedEntries : Nat
  checkpoint : Checkpoint
  closing : Binding
  ownComplete : Bool
  subtreeComplete : Bool

/-- Enter a directory; a stream that cannot be opened is noted. -/
def makeFrame (directory : Directory) (path : PathBuf) (nameInParent : Option Bytes)
    (start : NodeState) (checkpoint : Checkpoint) (report : Report D) :
    Frame × Report D :=
  match directory.streamError with
  | none =>
      (⟨path, nameInParent, start, some directory.stream, 0, checkpoint,
        directory.closing, true, true⟩, report)
  | some error =>
      (⟨path, nameInParent, start, none, 0, checkpoint, directory.closing, false,
        false⟩,
        report ++ unreadable path (withError "cannot open directory stream" error))

inductive DirectoryStep
  | entry (name : Bytes) (answers : Answers) (below : Directory)
      (failIteration : Bool)
  | failed (error : Errno)
  | exhausted

def isDotName (name : Bytes) : Bool := name = [0x2e] ∨ name = [0x2e, 0x2e]

/-- The next entry of a stream, without `.` and `..`, and the stream after it. -/
def Stream.next : Stream → DirectoryStep × Option Stream
  | .exhausted => (.exhausted, none)
  | .failed error _ => (.failed error, none)
  | .entry name answers below failIteration rest =>
      if isDotName name then rest.next
      else (.entry name answers below failIteration, some rest)

def nextDirectoryEntry (frame : Frame) : DirectoryStep × Frame :=
  match frame.stream with
  | none => (.exhausted, frame)
  | some stream =>
      match stream.next with
      | (.failed error, _) =>
          (.failed error, { frame with
            stream := none, ownComplete := false, subtreeComplete := false })
      | (step, rest) => (step, { frame with stream := rest })

def descriptorMatches (frame : Frame) : Bool :=
  match frame.closing.descriptor with
  | .ok current => current = frame.start
  | .error _ => false

def directoryBindingMatches (child : Frame) : Bool :=
  match child.nameInParent, child.closing.descriptor, child.closing.named with
  | some _, .ok opened, .ok named => opened = child.start && named = child.start
  | _, _, _ => false

/-- A directory that was observed completely. -/
structure NamespaceDirectory where
  path : PathBuf
  state : NodeState

variable (D) in
/-- The stack of frames, the innermost directory first, and the report. -/
structure Walk where
  stack : List Frame
  report : Report D
  completedDirectories : List NamespaceDirectory

/-- A parent of an incomplete subtree is incomplete. -/
def propagate (completed : Bool) : List Frame → List Frame
  | [] => []
  | parent :: rest =>
      if completed then parent :: rest
      else { parent with subtreeComplete := false } :: rest

/-- Leave a directory: what was found below it counts only if the directory is
unchanged and its stream was read to the end. -/
def close (frame : Frame) (parents : List Frame) (report : Report D)
    (completedDirectories : List NamespaceDirectory) : Walk D :=
  let stable := if parents.isEmpty then descriptorMatches frame
    else directoryBindingMatches frame
  let incomplete := !stable || !frame.ownComplete
  let report := if incomplete then frame.checkpoint.rollback report else report
  let report := if stable then report
    else report ++ raced frame.path
      "directory namespace changed while it was being scanned".toList
  let completedDirectories := if incomplete then completedDirectories
    else completedDirectories ++ [⟨frame.path, frame.start⟩]
  ⟨propagate (frame.subtreeComplete && !incomplete) parents, report,
    completedDirectories⟩

/-- One turn of the loop of `scan_corpus`. -/
def Walk.step (corpus : CorpusKind) (walk : Walk D) : Walk D :=
  match walk.stack with
  | [] => walk
  | top :: parents =>
      let (next, frame) := nextDirectoryEntry top
      match next with
      | .entry name answers below failIteration =>
          let (found, action) := inspectEntry frame.path name corpus answers
          let frame := { frame with
            processedEntries := frame.processedEntries + 1 }
          let report := walk.report ++ found
          let (frame, report) := if failIteration then
              ({ frame with
                  stream := none, ownComplete := false,
                  subtreeComplete := false },
                report ++ unreadable frame.path
                  "injected directory iteration failure".toList)
            else (frame, report)
          match action with
          | .descend path state =>
              let (child, report) := makeFrame below path (some name) state
                (.at report) report
              { walk with stack := child :: frame :: parents, report := report }
          | .done => { walk with stack := frame :: parents, report := report }
      | .failed error =>
          { walk with
            stack := frame :: parents
            report := walk.report ++ unreadable frame.path
              (withError "cannot read a directory entry" error) }
      | .exhausted =>
          close frame parents walk.report walk.completedDirectories

/-! The root of a corpus, pinned component by component below its base. -/

structure NodeIdentity where
  device : UInt64
  inode : UInt64
  deriving DecidableEq

structure CorpusValidation where
  base : PathBuf
  relative : PathBuf
  expectedBase : NodeIdentity
  expectedRoot : NodeIdentity

structure Corpus where
  path : PathBuf
  kind : CorpusKind
  validation : CorpusValidation

structure PinnedComponent where
  nameInParent : Option Bytes
  start : NodeState

/-- The answers about a component: its name, and the opened descriptor. -/
structure ComponentAnswers where
  named : Except Errno NodeState
  opening : Except Errno (Except Errno NodeState)

/-- The answers while the root is pinned. -/
structure PinAnswers where
  base : Except Errno (Except Errno NodeState)
  components : Nat → ComponentAnswers

/-- The answers while the pinned root is checked again. -/
structure RevalidateAnswers where
  base : Except Errno (Except Errno NodeState)
  components : Nat → Binding
  /-- The second look at the descriptors. -/
  descriptors : Nat → Except Errno NodeState

def matchesIdentity (state : NodeState) (expected : NodeIdentity) : Bool :=
  state.device = expected.device && state.inode = expected.inode

def sameIdentityAndType (left right : NodeState) : Bool :=
  left.device = right.device && left.inode = right.inode &&
    left.kind = right.kind

def rootOpenNote (corpus : Corpus) (error : Errno) (context : String) : ScanNote :=
  ⟨corpus.path, errnoNoteKind error, withError context error⟩

def openComponent (corpus : Corpus) (answers : ComponentAnswers) (name : Bytes) :
    Except ScanNote PinnedComponent :=
  match answers.named with
  | .error error =>
      .error (rootOpenNote corpus error
        "cannot inspect validated corpus component")
  | .ok named =>
      if named.kind ≠ .directory then
        .error ⟨corpus.path, .raced,
          "validated corpus component is no longer a directory".toList⟩
      else
        match answers.opening with
        | .error error =>
            .error (rootOpenNote corpus error
              "cannot safely open validated corpus component")
        | .ok (.error error) =>
            .error ⟨corpus.path, .unreadable,
              withError "cannot inspect validated corpus component" error⟩
        | .ok (.ok opened) =>
            if opened ≠ named then
              .error ⟨corpus.path, .raced,
                "validated corpus component changed while opening it".toList⟩
            else .ok ⟨some name, opened⟩

def openComponents (corpus : Corpus) (answers : Nat → ComponentAnswers) :
    Nat → List PathBytes.Component → Except ScanNote (List PinnedComponent)
  | _, [] => .ok []
  | index, .normal name :: rest => do
      let component ← openComponent corpus (answers index) name
      let components ← openComponents corpus answers (index + 1) rest
      return component :: components
  | _, _ :: _ =>
      .error ⟨corpus.path, .raced,
        "validated corpus contains an unsafe path component".toList⟩

/-- `PinnedRoot::open`: the base and the components below it. -/
def openPinned (corpus : Corpus) (answers : PinAnswers) :
    Except ScanNote (PinnedComponent × List PinnedComponent) :=
  match answers.base with
  | .error error =>
      .error (rootOpenNote corpus error "cannot safely open confinement base")
  | .ok (.error error) =>
      .error ⟨corpus.path, .unreadable,
        withError "cannot inspect confinement base descriptor" error⟩
  | .ok (.ok base) =>
      if base.kind ≠ .directory ∨
          matchesIdentity base corpus.validation.expectedBase = false then
        .error ⟨corpus.path, .raced,
          "confinement base no longer has its discovered identity".toList⟩
      else do
        let components ← openComponents corpus answers.components 0
          (PathBytes.components corpus.validation.relative)
        let root := (components.getLast?.map PinnedComponent.start).getD base
        if matchesIdentity root corpus.validation.expectedRoot = false then
          throw ⟨corpus.path, .raced,
            "corpus root no longer has its discovered identity".toList⟩
        return (⟨none, base⟩, components)

/-- The descriptor still is the node it was. -/
def sameNode (answer : Except Errno NodeState) (start : NodeState) : Bool :=
  match answer with
  | .ok current => sameIdentityAndType current start
  | .error _ => false

/-- `PinnedRoot::revalidate_binding` -/
def revalidateBinding (base : PinnedComponent) (components : List PinnedComponent)
    (answers : RevalidateAnswers) : Bool :=
  let reopened := match answers.base with
    | .ok state => sameNode state base.start
    | .error _ => false
  reopened && sameNode (answers.components 0).descriptor base.start &&
    components.zipIdx.all fun (component, index) =>
      sameNode (answers.components (index + 1)).descriptor component.start &&
        component.nameInParent.isSome &&
        sameNode (answers.components (index + 1)).named component.start

/-- `PinnedRoot::revalidate` -/
def revalidate (base : PinnedComponent) (components : List PinnedComponent)
    (answers : RevalidateAnswers) : Bool :=
  revalidateBinding base components answers &&
    sameNode (answers.descriptors 0) base.start &&
    components.zipIdx.all fun (component, index) =>
      match answers.descriptors (index + 1) with
      | .ok current => current = component.start
      | .error _ => false

/-- All the answers of one scan of a corpus. -/
structure Observation where
  pin : PinAnswers
  duplicateError : Option Errno
  rootState : Except Errno NodeState
  root : Directory
  revalidation : RevalidateAnswers

mutual

/-- More turns of the loop than the directory takes. -/
def Directory.turns : Directory → Nat
  | ⟨_, stream, _⟩ => stream.turns

def Stream.turns : Stream → Nat
  | .exhausted => 1
  | .failed _ rest => rest.turns + 1
  | .entry _ _ below _ rest => below.turns + rest.turns + 1

end

/-- The loop of `scan_corpus`, for some turns. -/
def walk (corpus : CorpusKind) (turns : Nat) (start : Walk D) : Walk D :=
  (Walk.step corpus)^[turns] start

def startWalk (corpus : Corpus) (state : NodeState) (root : Directory) : Walk D :=
  let empty : Report D := .nothing
  let (frame, report) := makeFrame root corpus.path none state (.at empty) empty
  ⟨[frame], report, []⟩

/-- The walk until its stack is empty, which the turns of the root suffice for. -/
def walkAll (corpus : Corpus) (state : NodeState) (root : Directory) : Walk D :=
  walk corpus.kind root.turns (startWalk corpus state root)

/-- A report that nothing but one note is in. -/
def onlyNote (note : ScanNote) : ScanReport D :=
  { ScanReport.empty with unknown := [note] }

/-- The report of a finished walk, under a root that is checked again. -/
def finish (corpus : Corpus) (valid : Bool) (report : Report D) : ScanReport D :=
  let report := if valid then report
    else { report with present := [], oversized := [], rejected := [] } ++
      raced corpus.path
        "validated corpus binding changed while it was being scanned".toList
  let complete := report.unknown.isEmpty
  { present := report.present, oversized := report.oversized,
    rejected := report.rejected, unknown := report.unknown,
    scannedCorpora := if complete then [corpus.path] else [],
    namespaceRevisions := if complete then [⟨corpus.path⟩] else [],
    snapshotSeal := none }

def scanCorpus (corpus : Corpus) (observed : Observation) : ScanReport D :=
  match openPinned corpus observed.pin with
  | .error note => onlyNote note
  | .ok (base, components) =>
      match observed.duplicateError, observed.rootState with
      | some error, _ =>
          onlyNote ⟨corpus.path, .unreadable,
            withError "cannot duplicate pinned corpus descriptor" error⟩
      | none, .error error =>
          onlyNote ⟨corpus.path, .unreadable,
            withError "cannot inspect pinned corpus descriptor" error⟩
      | none, .ok state =>
          finish corpus (revalidate base components observed.revalidation)
            (walkAll corpus state observed.root).report

end Yams.Traversal
