/-
A reindex of a wiki: the inputs captured by descriptor, revalidated, and the
catalog put in the place of `INDEX.md` through a temporary file.  Other processes
may change the files between any two steps until the last validation begins.
-/
import Yams.LegacyIndex
import Yams.ListOrder
import Yams.Reindex
import Yams.Schedule
import Yams.WikiLock

namespace Yams.Durable

open Wiki

/-- The metadata of a file, as it is compared. -/
structure NodeState where
  identity : Identity
  mode : Nat
  kind : FileKind
  nlink : Nat
  size : Nat
  modifiedNs : Int
  changedNs : Int
  deriving DecidableEq

inductive Detail
  | text (text : Text)
  | errno (error : Errno)
  deriving DecidableEq

inductive DurableError
  | lock (error : WikiLock.LockError)
  | wiki (error : Wiki.DurableError)
  | unsafeNode (path : PathBuf) (detail : Text)
  | raced (operation : Text) (path : PathBuf) (detail : Text)
  | io (operation : Text) (path : PathBuf) (detail : Detail)
  | expectedIndexChanged
  | replacedNotDurable (error : Errno)
  | cleanupFailed (original : DurableError) (path : PathBuf) (error : Errno)
  | temporaryRebound (original : DurableError) (path : PathBuf)

structure ReindexOptions where
  checkOnly : Bool
  adopt : Bool
  expectedSha256 : Option Text
  deriving DecidableEq

structure ReindexResult where
  changed : Bool
  diff : Option Text
  indexSha256 : Text
  isolationNote : Option Text
  deriving DecidableEq

structure EntrySignature where
  name : Bytes
  state : NodeState
  deriving DecidableEq

/-- A page with the signature under which it was read. -/
structure SignedPage where
  signature : EntrySignature
  bytes : Bytes
  deriving DecidableEq

structure CapturedIndex where
  state : NodeState
  bytes : Bytes
  digest : Text
  deriving DecidableEq

structure CapturedInputs where
  pagesFd : Identity
  pagesState : NodeState
  entries : List EntrySignature
  pages : List SignedPage
  index : CapturedIndex
  deriving DecidableEq

structure Temporary where
  fd : Identity
  name : Bytes
  identity : Option Identity
  deriving DecidableEq

inductive OpenFlags
  | directory | file
  deriving DecidableEq

/-- The system calls; a descriptor is the inode it was opened on.  The guard of the
lock is revalidated as one operation, and `lastValidation` marks where the last
validation of a run begins. -/
inductive DurableOp
  | statAt (parent : Identity) (name : Bytes)
  | openAt (parent : Identity) (name : Bytes) (flags : OpenFlags)
  | fstat (fd : Identity)
  | read (fd : Identity) (offset : Nat)
  | openStream (fd : Identity)
  | readDir (fd : Identity)
  | processId
  | nextSequence
  | create (parent : Identity) (name : Bytes) (mode : Nat)
  | write (fd : Identity) (bytes : Bytes)
  | fchmod (fd : Identity) (mode : Nat)
  | fsync (fd : Identity)
  | rename (parent : Identity) (temporary target : Bytes)
  | unlink (parent : Identity) (name : Bytes)
  | revalidateGuard (corpus : Identity)
  | lastValidation

abbrev DurableAns : DurableOp → Type
  | .statAt _ _ | .fstat _ => Except Errno NodeState
  | .openAt _ _ _ | .create _ _ _ => Except Errno Identity
  | .read _ _ => Except Errno Bytes
  | .readDir _ => Except Errno (List Bytes)
  | .processId | .nextSequence => Nat
  | .write _ _ => Except Errno Nat
  | .openStream _ | .fchmod _ _ | .fsync _ | .rename _ _ _ | .unlink _ _ =>
      Except Errno Unit
  | .revalidateGuard _ => Except WikiLock.LockError Unit
  | .lastValidation => Unit

abbrev DurableM := Fallible DurableOp DurableAns DurableError

abbrev sys {ε : Type} (op : DurableOp) : Fallible DurableOp DurableAns ε (DurableAns op) :=
  Fallible.perform op

def raced {α : Type} (path : PathBuf) (operation detail : Text) : DurableM α :=
  throw (.raced operation path detail)

def unsafeNode {α : Type} (path : PathBuf) (detail : Text) : DurableM α :=
  throw (.unsafeNode path detail)

def ioError {α : Type} (operation : Text) (path : PathBuf) (error : Errno) : DurableM α :=
  throw (.io operation path (.errno error))

/-- The answer of a system call, or the error with the operation and the path. -/
def orIo {α : Type} (operation : Text) (path : PathBuf) : Except Errno α → DurableM α
  | .ok a => pure a
  | .error error => ioError operation path error

def indexName : Bytes := Text.toBytes "INDEX.md".toList

def pagesName : Bytes := Text.toBytes "pages".toList

def namedState (parent : Identity) (name : Bytes) (path : PathBuf) (operation : Text) :
    DurableM NodeState := do
  orIo operation path (← sys (.statAt parent name))

def descriptorState (fd : Identity) (path : PathBuf) (operation : Text) :
    DurableM NodeState := do
  orIo operation path (← sys (.fstat fd))

def requireKind (path : PathBuf) (state : NodeState) (kind : FileKind) (expected : Text) :
    DurableM Unit :=
  if state.kind = kind then pure ()
  else unsafeNode path ("expected a non-symlink ".toList ++ expected)

section Capture

/-- `Read::read_to_end`, which goes on after an interrupted call. -/
def readToEnd (fd : Identity) (path : PathBuf) : DurableM Bytes :=
  Fallible.iterate (fun bytes => do
    match ← sys (.read fd bytes.length) with
    | .ok [] => return .inr bytes
    | .ok chunk => return .inl (bytes ++ chunk)
    | .error .intr => return .inl bytes
    | .error error => ioError "read".toList path error) []

def readExactDescriptor (fd : Identity) (path : PathBuf) : DurableM Bytes := do
  let before ← descriptorState fd path "inspect descriptor before reading".toList
  let bytes ← readToEnd fd path
  let after ← descriptorState fd path "inspect descriptor after reading".toList
  if before ≠ after ∨ after.size ≠ bytes.length then
    raced path "reading".toList "descriptor metadata changed".toList
  else return bytes

def sha256 (D : Type) [Sha256 D] (bytes : Bytes) : Text :=
  Sha256.hex (Sha256.digest bytes : D)

def readIndex (D : Type) [Sha256 D] (corpus : Identity) (path : PathBuf) :
    DurableM CapturedIndex := do
  let candidate ← namedState corpus indexName path "inspect index".toList
  requireKind path candidate .regular "regular file".toList
  let fd ← orIo "open without following links".toList path
    (← sys (.openAt corpus indexName .file))
  let opened ← descriptorState fd path "inspect opened index".toList
  if opened ≠ candidate then
    raced path "reading".toList "index changed while opening".toList
  else
    let bytes ← readExactDescriptor fd path
    let after ← namedState corpus indexName path "reinspect index".toList
    if after ≠ opened ∨ after.size ≠ bytes.length then
      raced path "reading".toList "index changed while reading".toList
    else return ⟨after, bytes, sha256 D bytes⟩

def readBoundFile (parent : Identity) (name : Bytes) (path : PathBuf)
    (candidate : NodeState) : DurableM Bytes := do
  let fd ← orIo "open page without following links".toList path
    (← sys (.openAt parent name .file))
  let opened ← descriptorState fd path "inspect opened page".toList
  if opened ≠ candidate then
    raced path "reading pages".toList "page changed while opening".toList
  else
    let bytes ← readExactDescriptor fd path
    let after ← namedState parent name path "reinspect page".toList
    if after ≠ opened ∨ after.size ≠ bytes.length then
      raced path "reading pages".toList "page changed while reading".toList
    else return bytes

def isMarkdownName (name : Bytes) : Bool := Text.toBytes markdownSuffix <:+ name

def isDot (name : Bytes) : Bool :=
  name = Text.toBytes ".".toList ∨ name = Text.toBytes "..".toList

/-- The names of pages in the order of their bytes. -/
def pageNames (names : List Bytes) : List Bytes :=
  sortBy compare (names.filter fun name => !isDot name && isMarkdownName name)

/-- The signatures of names, none of which may come twice. -/
def signatures (directory : Identity) (path : PathBuf) (seen : List Bytes) :
    List Bytes → DurableM (List EntrySignature)
  | [] => pure []
  | name :: names =>
      if seen.contains name then
        raced path "enumerating pages".toList "duplicate directory entry".toList
      else do
        let state ← namedState directory name (PathBytes.join path name)
          "inspect directory entry".toList
        let rest ← signatures directory path (name :: seen) names
        return ⟨name, state⟩ :: rest

def enumerateEntries (directory : Identity) (path : PathBuf) :
    DurableM (List EntrySignature) := do
  orIo "open directory stream".toList path (← sys (.openStream directory))
  let names ← orIo "read directory entry".toList path (← sys (.readDir directory))
  signatures directory path [] (pageNames names)

def capturePages (directory : Identity) (path : PathBuf) :
    List EntrySignature → DurableM (List SignedPage)
  | [] => pure []
  | signature :: rest =>
      if isMarkdownName signature.name then do
        let page := PathBytes.join path signature.name
        requireKind page signature.state .regular "regular file".toList
        let bytes ← readBoundFile directory signature.name page signature.state
        let pages ← capturePages directory path rest
        return ⟨signature, bytes⟩ :: pages
      else capturePages directory path rest

def verifyDirectoryBinding (parent : Identity) (name : Bytes) (descriptor : Identity)
    (expected : NodeState) (path : PathBuf) : DurableM Unit := do
  let opened ← descriptorState descriptor path "reinspect directory descriptor".toList
  let named ← namedState parent name path "reinspect directory pathname".toList
  if opened.identity ≠ expected.identity ∨ named.identity ≠ expected.identity ∨
      opened.kind ≠ .directory ∨ named.kind ≠ .directory then
    raced path "validating directory binding".toList
      "pathname no longer names the opened directory".toList
  else return ()

def captureInputs (corpus : Identity) (corpusPath : PathBuf) (index : CapturedIndex) :
    DurableM CapturedInputs := do
  let pagesPath := PathBytes.join corpusPath pagesName
  let candidate ← namedState corpus pagesName pagesPath "inspect pages".toList
  requireKind pagesPath candidate .directory "directory".toList
  let pagesFd ← orIo "open without following links".toList pagesPath
    (← sys (.openAt corpus pagesName .directory))
  let pagesState ← descriptorState pagesFd pagesPath "inspect opened pages".toList
  if pagesState.identity ≠ candidate.identity ∨ pagesState.kind ≠ .directory then
    raced pagesPath "capturing".toList "pages changed while opening".toList
  else
    let entries ← enumerateEntries pagesFd pagesPath
    let pages ← capturePages pagesFd pagesPath entries
    verifyDirectoryBinding corpus pagesName pagesFd pagesState pagesPath
    if (← enumerateEntries pagesFd pagesPath) ≠ entries then
      raced pagesPath "capturing".toList
        "directory entry set changed while it was read".toList
    else return ⟨pagesFd, pagesState, entries, pages, index⟩

def revalidateInputs (D : Type) [Sha256 D] (corpus : Identity) (corpusPath : PathBuf)
    (inputs : CapturedInputs) : DurableM Unit := do
  let pagesPath := PathBytes.join corpusPath pagesName
  verifyDirectoryBinding corpus pagesName inputs.pagesFd inputs.pagesState pagesPath
  if (← enumerateEntries inputs.pagesFd pagesPath) ≠ inputs.entries then
    raced pagesPath "validating snapshot".toList
      "page name or signature set changed".toList
  else
    let indexPath := PathBytes.join corpusPath indexName
    let current ← readIndex D corpus indexPath
    if current.state ≠ inputs.index.state ∨ current.digest ≠ inputs.index.digest then
      raced indexPath "validating snapshot".toList
        "index identity, metadata, or digest changed".toList
    else return ()

def revalidateGuard (corpus : Identity) : DurableM Unit := do
  match ← sys (.revalidateGuard corpus) with
  | .ok () => return ()
  | .error error => throw (.lock error)

end Capture

section Replace

def temporaryAttempts : Nat := 128

def temporaryName (pid sequence : Nat) : Bytes :=
  Text.toBytes (".INDEX.md.".toList ++ Text.ofNat pid ++ ".".toList ++
    Text.ofNat sequence ++ ".tmp".toList)

/-- Try names until one is new; the argument counts the attempts left. -/
def createFresh (corpus : Identity) (corpusPath : PathBuf) (pid : Nat) :
    Nat → DurableM Temporary
  | 0 =>
      unsafeNode corpusPath ("could not find a unique index temporary after ".toList ++
        Text.ofNat temporaryAttempts ++ " attempts".toList)
  | attempts + 1 => do
      let name := temporaryName pid (← sys .nextSequence)
      match ← sys (.create corpus name 0o600) with
      | .ok fd => return ⟨fd, name, none⟩
      | .error .exist => createFresh corpus corpusPath pid attempts
      | .error error =>
          ioError "create unique index temporary".toList (PathBytes.join corpusPath name)
            error

def createTemporary (corpus : Identity) (corpusPath : PathBuf) : DurableM Temporary := do
  createFresh corpus corpusPath (← sys .processId) temporaryAttempts

/-- The created file and its name, after the identity has been taken. -/
def bindTemporary (corpus : Identity) (path : PathBuf) (name : Bytes)
    (descriptor : NodeState) : DurableM Unit := do
  if descriptor.kind ≠ .regular ∨ descriptor.nlink ≠ 1 then
    unsafeNode path "created temporary must be a regular file with one link".toList
  else
    let named ← namedState corpus name path "bind created temporary".toList
    if named ≠ descriptor then
      raced path "creating temporary".toList "name was rebound".toList
    else return ()

def writeAll (fd : Identity) (bytes : Bytes) (path : PathBuf) : DurableM Unit :=
  Fallible.iterate (fun rest => do
    if rest = [] then return .inr ()
    else
      match ← sys (.write fd rest) with
      | .ok 0 =>
          throw (.io "write index temporary".toList path
            (.text "write returned zero bytes".toList))
      | .ok written => return .inl (rest.drop written)
      | .error .intr => return .inl rest
      | .error error => ioError "write index temporary".toList path error) bytes

def verifyTemporary (corpus : Identity) (corpusPath : PathBuf) (temporary : Temporary) :
    DurableM Unit := do
  let path := PathBytes.join corpusPath temporary.name
  let descriptor ← descriptorState temporary.fd path "reinspect index temporary".toList
  let named ← namedState corpus temporary.name path "rebind index temporary".toList
  match temporary.identity with
  | none =>
      raced path "validating temporary".toList
        "created temporary identity was not established".toList
  | some identity =>
      if descriptor.identity ≠ identity ∨ named.identity ≠ identity ∨
          descriptor ≠ named ∨ descriptor.kind ≠ .regular ∨ descriptor.nlink ≠ 1 then
        raced path "validating temporary".toList
          "temporary name no longer names the created inode".toList
      else return ()

def permissionBits (mode : Nat) : Nat := mode &&& 0o7777

/-- `{:o}` -/
def octal (n : Nat) : Text := Nat.toDigits 8 n

/-- The temporary gets the bytes and the mode, and reaches the disk. -/
def fillTemporary (fd : Identity) (indexPath : PathBuf) (mode : Nat) (bytes : Bytes) :
    DurableM Unit := do
  writeAll fd bytes indexPath
  orIo "apply INDEX.md mode to temporary".toList indexPath
    (← sys (.fchmod fd (permissionBits mode)))
  let applied ← descriptorState fd indexPath "verify INDEX.md temporary mode".toList
  if permissionBits applied.mode ≠ permissionBits mode then
    unsafeNode indexPath ("temporary mode ".toList ++ octal (permissionBits applied.mode) ++
      " does not match target mode ".toList ++ octal (permissionBits mode))
  else
    orIo "fsync index temporary".toList indexPath (← sys (.fsync fd))

section

variable (D : Type) [Sha256 D] (corpus : Identity) (corpusPath : PathBuf)
  (inputs : CapturedInputs)

/-- One validation of everything that the replacement rests on. -/
def validateAll (temporary : Temporary) : DurableM Unit := do
  revalidateInputs D corpus corpusPath inputs
  revalidateGuard corpus
  verifyTemporary corpus corpusPath temporary

/-- The temporary, whose identity has been taken, replaces `INDEX.md`. -/
def replaceWith (bytes : Bytes) (descriptor : NodeState) (temporary : Temporary) :
    DurableM Unit := do
  let indexPath := PathBytes.join corpusPath indexName
  bindTemporary corpus (PathBytes.join corpusPath temporary.name) temporary.name descriptor
  fillTemporary temporary.fd indexPath inputs.index.state.mode bytes
  validateAll D corpus corpusPath inputs temporary
  -- A peer with directory rename authority can still act after this validation.
  sys .lastValidation
  validateAll D corpus corpusPath inputs temporary
  orIo "replace INDEX.md".toList indexPath
    (← sys (.rename corpus temporary.name indexName))
  match ← sys (.fsync corpus) with
  | .ok () => return ()
  | .error error => throw (.replacedNotDurable error)

/-- The error of a replacement, and the temporary that is left to clean up. -/
structure ReplaceFailure where
  error : DurableError
  temporary : Temporary

def writeAndReplace (bytes : Bytes) (temporary : Temporary) :
    Fallible DurableOp DurableAns ReplaceFailure Unit := do
  let path := PathBytes.join corpusPath temporary.name
  let descriptor ← Fallible.mapError (ReplaceFailure.mk · temporary)
    (descriptorState temporary.fd path "inspect created temporary".toList)
  let bound : Temporary := { temporary with identity := some descriptor.identity }
  Fallible.mapError (ReplaceFailure.mk · bound)
    (replaceWith D corpus corpusPath inputs bytes descriptor bound)

end

inductive Cleanup
  | removed
  | missing
  | rebound (path : PathBuf)
  | failed (path : PathBuf) (error : Errno)

def cleanupTemporary (corpus : Identity) (corpusPath : PathBuf) (temporary : Temporary) :
    DurableM Cleanup := do
  let path := PathBytes.join corpusPath temporary.name
  sys .lastValidation
  match ← sys (.fstat temporary.fd) with
  | .error error => return .failed path error
  | .ok descriptor =>
      if temporary.identity.any fun identity => descriptor.identity ≠ identity then
        return .rebound path
      else
        match ← sys (.statAt corpus temporary.name) with
        | .error .noent => return .missing
        | .error error => return .failed path error
        | .ok state =>
            if state.identity ≠ descriptor.identity then return .rebound path
            else
              match ← sys (.unlink corpus temporary.name) with
              | .ok () => return .removed
              | .error .noent => return .missing
              | .error error => return .failed path error

def cleanupError (original : DurableError) : Cleanup → DurableError
  | .removed | .missing => original
  | .rebound path => .temporaryRebound original path
  | .failed path error => .cleanupFailed original path error

end Replace

section Reindex

/-- What a reindex computes from what it captured. -/
structure Computed where
  canonical : Text
  comparison : IndexCheck

def computeIndex (adopt : Bool) (before : Text) (pages : List CapturedFile) :
    Except Wiki.DurableError Computed := do
  let pages ← parseCapturedPages pages
  let source ← (if adopt then adoptLegacy before else .ok before).mapError .index
  let canonical ← (rebuildIndex source pages).mapError .index
  let comparison ← (if adopt then .ok (compareIndex before canonical)
    else checkIndex before pages).mapError .index
  return ⟨canonical, comparison⟩

def wikiResult {α : Type} : Except Wiki.DurableError α → DurableM α
  | .ok a => pure a
  | .error error => throw (.wiki error)

def indexText (bytes : Bytes) : Except Wiki.DurableError Text :=
  match Text.fromUtf8 bytes with
  | some before => .ok before
  | none => .error .invalidIndexUtf8

def capturedFile (page : SignedPage) : CapturedFile := ⟨page.signature.name, page.bytes⟩

variable (D : Type) [Sha256 D] (corpus : Identity) (corpusPath : PathBuf)

/-- The catalog is written to a temporary that takes the place of `INDEX.md`. -/
def replaceIndex (inputs : CapturedInputs) (computed : Computed) :
    DurableM ReindexResult := do
  let temporary ← createTemporary corpus corpusPath
  match ← Fallible.observe (writeAndReplace D corpus corpusPath inputs
      computed.canonical.toBytes temporary) with
  | .ok () =>
      return ⟨true, computed.comparison.diff, sha256 D computed.canonical.toBytes, none⟩
  | .error failure =>
      let cleanup ← cleanupTemporary corpus corpusPath failure.temporary
      throw (cleanupError failure.error cleanup)

def reindexFromFd (options : ReindexOptions) : DurableM ReindexResult := do
  let index ← readIndex D corpus (PathBytes.join corpusPath indexName)
  if options.expectedSha256.any fun expected => expected ≠ index.digest then
    throw .expectedIndexChanged
  else
    let before ← wikiResult (indexText index.bytes)
    let inputs ← captureInputs corpus corpusPath index
    let computed ← wikiResult
      (computeIndex options.adopt before (inputs.pages.map capturedFile))
    let changed := decide (computed.canonical.toBytes ≠ inputs.index.bytes)
    if ¬ changed ∨ options.checkOnly then
      sys .lastValidation
      revalidateInputs D corpus corpusPath inputs
      revalidateGuard corpus
      return ⟨changed, computed.comparison.diff, inputs.index.digest, none⟩
    else replaceIndex D corpus corpusPath inputs computed

end Reindex

section World

/-- A file with its contents. -/
structure Inode where
  mode : Nat
  kind : FileKind
  nlink : Nat
  modifiedNs : Int
  changedNs : Int
  bytes : Bytes

def Inode.state (inode : Inode) (identity : Identity) : NodeState :=
  ⟨identity, inode.mode, inode.kind, inode.nlink, inode.bytes.length, inode.modifiedNs,
    inode.changedNs⟩

abbrev Entries := Std.ExtTreeMap Bytes Identity

/-- The files, the directory that the path of the corpus leads to, and three facts
about the run: the file it has created, whether its last validation has begun, and
whether it has replaced `INDEX.md`. -/
structure World where
  inode : Identity → Inode
  directory : Identity → Entries
  corpusPath : Option Identity
  created : Option Identity
  validating : Bool
  replaced : Bool

namespace World

variable (w : World)

def state (i : Identity) : NodeState := (w.inode i).state i

def entry (parent : Identity) (name : Bytes) : Option Identity :=
  (w.directory parent)[name]?

def setInode (i : Identity) (inode : Inode) : World :=
  { w with inode := Function.update w.inode i inode }

def setDirectory (parent : Identity) (entries : Entries) : World :=
  { w with directory := Function.update w.directory parent entries }

/-- What a name leads to, unless it is a link or no directory where one is asked for. -/
def opens (parent : Identity) (name : Bytes) (flags : OpenFlags) : Option Identity :=
  (w.entry parent name).filter fun i =>
    (w.inode i).kind ≠ .symlink ∧ (flags = .directory → (w.inode i).kind = .directory)

/-- The entries after a rename; one between two names of one file does nothing. -/
def renamed (parent : Identity) (temporary target : Bytes) (i : Identity) : Entries :=
  if w.entry parent target = some i then w.directory parent
  else ((w.directory parent).erase temporary).insert target i

end World

/-- Signatures age: `age` orders the signatures of a file, and as long as its age
stays the same a file keeps its contents. -/
def Ages (age : NodeState → Nat) (i : Identity) (old new : Inode) : Prop :=
  age (old.state i) ≤ age (new.state i) ∧
    (age (old.state i) = age (new.state i) → new.bytes = old.bytes)

instance (age : NodeState → Nat) (i : Identity) (old new : Inode) :
    Decidable (Ages age i old new) :=
  inferInstanceAs (Decidable (_ ∧ _))

/-- The choices of the system. -/
inductive Choice
  | ok
  | fail (error : Errno)
  | refuse (error : WikiLock.LockError)
  | number (n : Nat)
  | chunk (count : Nat)
  | names (names : List Bytes)
  | create (identity : Identity) (inode : Inode)
  | change (count : Nat) (inode : Inode)

variable (age : NodeState → Nat)

/-- How the system answers a call. -/
def answer : Choice → World → (op : DurableOp) → Option (DurableAns op × World)
  | .ok, w, .statAt parent name =>
      (w.entry parent name).map fun i => (.ok (w.state i), w)
  | .fail error, w, .statAt _ _ => some (.error error, w)
  | .ok, w, .openAt parent name flags =>
      (w.opens parent name flags).map fun i => (.ok i, w)
  | .fail error, w, .openAt _ _ _ => some (.error error, w)
  | .ok, w, .fstat fd => some (.ok (w.state fd), w)
  | .fail error, w, .fstat _ => some (.error error, w)
  | .chunk count, w, .read fd offset =>
      if count = 0 ∧ offset < (w.inode fd).bytes.length then none
      else some (.ok (((w.inode fd).bytes.drop offset).take count), w)
  | .fail error, w, .read _ _ => some (.error error, w)
  | .ok, w, .openStream _ => some (.ok (), w)
  | .fail error, w, .openStream _ => some (.error error, w)
  | .names names, w, .readDir fd =>
      -- a directory that changes while it is read can yield any names
      if w.validating ∧
          ¬ (names.filter fun name => !isDot name).Perm (w.directory fd).keys then none
      else some (.ok names, w)
  | .fail error, w, .readDir _ => some (.error error, w)
  | .number n, w, .processId => some (n, w)
  | .number n, w, .nextSequence => some (n, w)
  | .create i inode, w, .create parent name _ =>
      if w.entry parent name = none ∧ (w.directory parent).values.all (· ≠ i) ∧
          inode.bytes = [] ∧ Ages age i (w.inode i) inode then
        some (.ok i, { (w.setInode i inode).setDirectory parent
          ((w.directory parent).insert name i) with created := some i })
      else none
  | .fail error, w, .create _ _ _ => some (.error error, w)
  | .change count inode, w, .write fd bytes =>
      if count ≤ bytes.length ∧ inode.bytes = (w.inode fd).bytes ++ bytes.take count ∧
          inode.mode = (w.inode fd).mode ∧ Ages age fd (w.inode fd) inode then
        some (.ok count, w.setInode fd inode)
      else none
  | .fail error, w, .write _ _ => some (.error error, w)
  | .change _ inode, w, .fchmod fd _ =>
      -- some systems do not apply all of the bits
      if inode.bytes = (w.inode fd).bytes ∧ Ages age fd (w.inode fd) inode then
        some (.ok (), w.setInode fd inode)
      else none
  | .fail error, w, .fchmod _ _ => some (.error error, w)
  | .ok, w, .fsync _ => some (.ok (), w)
  | .fail error, w, .fsync _ => some (.error error, w)
  | .ok, w, .rename parent temporary target =>
      (w.entry parent temporary).map fun i =>
        (.ok (), { w.setDirectory parent (w.renamed parent temporary target i) with
          replaced := true })
  | .fail error, w, .rename _ _ _ => some (.error error, w)
  | .ok, w, .unlink parent name =>
      (w.entry parent name).map fun _ =>
        (.ok (), w.setDirectory parent ((w.directory parent).erase name))
  | .fail error, w, .unlink _ _ => some (.error error, w)
  | .ok, w, .revalidateGuard corpus =>
      if w.corpusPath = some corpus then some (.ok (), w) else none
  | .refuse error, w, .revalidateGuard _ => some (.error error, w)
  | .ok, w, .lastValidation => some ((), { w with validating := true })
  | _, _, _ => none

/-- What other processes may have done to the files: any change of names, and any
change of a file that its signature shows.  They leave the file alone that the run
has created, and nothing changes once the last validation has begun. -/
structure Foreign (w next : World) : Prop where
  created : next.created = w.created
  validating : next.validating = w.validating
  replaced : next.replaced = w.replaced
  still : w.validating = true → next = w
  ages : ∀ i, Ages age i (w.inode i) (next.inode i)
  kept : ∀ i, w.created = some i →
    (next.inode i).bytes = (w.inode i).bytes ∧ (next.inode i).mode = (w.inode i).mode

/-- One run of a reindex beside other processes. -/
def system : System Unit DurableOp DurableAns World where
  exec _ w op a next := ∃ choice, answer age choice w op = some (a, next)
  env := Foreign age

end World

end Yams.Durable
