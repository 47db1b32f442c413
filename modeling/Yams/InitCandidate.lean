/-
The candidate of an initialization: a map of nodes, staged in a directory of its
own and validated there, and the same map validated in memory.
-/
import Yams.FileTree
import Yams.InitPolicy
import Yams.ListOrder
import Yams.WikiCompat

namespace Yams.Init

open FileTree Wiki

inductive InitMode
  | minimal
  | full
  deriving DecidableEq

inductive DesiredNode
  | directory (mode : UInt32)
  | file (mode : UInt32) (bytes : Bytes)
  deriving DecidableEq

def DesiredNode.mode : DesiredNode → UInt32
  | directory mode => mode
  | file mode _ => mode

abbrev DesiredMap := Std.ExtTreeMap Text DesiredNode

inductive InitError
  | candidate (message : Text)
  | io (operation path : Text) (source : Fault)
  deriving DecidableEq

def ioError {α : Type} (operation path : Text) (result : Except Fault α) :
    Except InitError α := result.mapError (.io operation path)

/-- A check of the candidate, with the message of its failure. -/
def require (condition : Bool) (message : Text) : Except InitError Unit :=
  if condition then .ok () else .error (.candidate message)

section Staging

variable (host : Host)

def pathDepth (path : Text) : Nat := path.count '/' + 1

def shallowFirst (left right : Text) : Ordering :=
  (compare (pathDepth left) (pathDepth right)).then (compare left right)

def deepFirst (left right : Text) : Ordering :=
  (compare (pathDepth right) (pathDepth left)).then (compare left right)

def setMode (tree : Tree) (path : Text) (mode : UInt32) : Except InitError Tree :=
  ioError "set candidate mode".toList path (changeMode host tree path mode)

def directoryEntry (entry : Text × DesiredNode) : Option (Text × UInt32) :=
  match entry.2 with
  | .directory mode => some (entry.1, mode)
  | .file _ _ => none

def fileEntry (entry : Text × DesiredNode) : Option (Text × UInt32 × Bytes) :=
  match entry.2 with
  | .directory _ => none
  | .file mode bytes => some (entry.1, mode, bytes)

/-- The directories of a map, every one after those above it. -/
def directoriesOf (desired : DesiredMap) : List (Text × UInt32) :=
  sortBy (fun left right => shallowFirst left.1 right.1)
    (desired.toList.filterMap directoryEntry)

def stageDirectory (tree : Tree) (entry : Text × UInt32) : Except InitError Tree := do
  let created ← ioError "create candidate directory".toList entry.1
    (createDirectory host tree entry.1)
  setMode host created entry.1 (entry.2 ||| 0o700)

def stageFile (tree : Tree) (entry : Text × UInt32 × Bytes) :
    Except InitError Tree := do
  let written ← ioError "write candidate file".toList entry.1
    (writeFile host tree entry.1 entry.2.2)
  setMode host written entry.1 (entry.2.1 ||| 0o600)

/-- The nodes with modes that let the owner go on; the journal of what has been
created, which the cleanup reads, is left out. -/
def stageCandidateNodes (desired : DesiredMap) (tree : Tree) :
    Except InitError Tree := do
  let directories ← (directoriesOf desired).foldlM (stageDirectory host) tree
  (desired.toList.filterMap fileEntry).foldlM (stageFile host) directories

def finalizeCandidateModes (desired : DesiredMap) (tree : Tree) :
    Except InitError Tree :=
  (sortBy (fun left right => deepFirst left.1 right.1) desired.toList).foldlM
    (fun tree entry => setMode host tree entry.1 entry.2.mode) tree

def stageCandidate (desired : DesiredMap) (tree : Tree) : Except InitError Tree := do
  let staged ← stageCandidateNodes host desired tree
  finalizeCandidateModes host desired staged

end Staging

def agentsPath : Text := "AGENTS.md".toList

def memoryPath : Text := ".agents/memory".toList

/-- A path in the directory of the memory. -/
def inMemory (name : Text) : Text := memoryPath ++ '/' :: name

def gitignorePath : Text := inMemory ".gitignore".toList

def flatPagePath : Text := inMemory "project-context.md".toList

def schemaPath : Text := inMemory "SCHEMA.md".toList

def indexPath : Text := inMemory "INDEX.md".toList

def pagesPath : Text := inMemory "pages".toList

def pagePathOf (name : Text) : Text := pagesPath ++ '/' :: name

section Validators

variable [Unicode]

section Staged

variable (host : Host) (tree : Tree)

/-- `fs::read_to_string` -/
def readToString (path : Text) : Except Fault Text := do
  match Text.fromUtf8 (← readFile host tree path) with
  | none => .error .invalidData
  | some source => .ok source

def validateMinimalCandidate : Except InitError Unit := do
  let gitignore ← ioError "read candidate memory gitignore".toList gitignorePath
    (readFile host tree gitignorePath)
  require (gitignore = memoryGitignore.toBytes)
    "candidate memory gitignore differs from the embedded lock-ignore file".toList
  let source ← ioError "read candidate project page".toList flatPagePath
    (readToString host tree flatPagePath)
  match parseWikiPage source with
  | .error error => .error (.candidate error.message)
  | .ok page =>
      require (page.slug = "project-context".toList)
        "candidate flat page slug is not project-context".toList

def capturePage (name : Text) : Except InitError CapturedPage := do
  let node ← ioError "inspect candidate page".toList pagesPath
    (lookup host tree (pagePathOf name))
  match node with
  | .file _ _ => do
      let bytes ← ioError "read candidate page".toList pagesPath
        (readFile host tree (pagePathOf name))
      return ⟨name.toBytes, .present bytes⟩
  | .directory _ => return ⟨name.toBytes, .notRegular⟩

def capturePages : List Text → Except InitError (List CapturedPage)
  | [] => .ok []
  | name :: names => do
      let page ← capturePage host tree name
      let pages ← capturePages names
      return page :: pages

def validateFullCandidate (root : PathBuf) : Except InitError Unit := do
  let gitignore ← ioError "read candidate memory gitignore".toList gitignorePath
    (readFile host tree gitignorePath)
  require (gitignore = memoryGitignore.toBytes)
    "candidate memory gitignore differs from the embedded lock-ignore file".toList
  let found ← ioError "read candidate schema".toList schemaPath
    (readFile host tree schemaPath)
  require (found = schema.toBytes)
    "candidate SCHEMA.md differs from the embedded schema".toList
  let index ← ioError "read candidate index".toList indexPath
    (readFile host tree indexPath)
  let names ← ioError "enumerate candidate pages".toList pagesPath
    (readDirectory host tree pagesPath)
  let pages ← capturePages host tree
    (sortBy (fun left right => compare left.toBytes right.toBytes) names)
  let snapshot : WikiSnapshot :=
    { corpus := PathBytes.join root memoryPath.toBytes
      index, pages, isolated := true, isolationNote := none }
  require ((validateWiki snapshot).failures = [])
    (Text.join "; ".toList (validateWiki snapshot).failures)
  require ((compatSnapshot snapshot).violations = [])
    (Text.join "; ".toList (compatSnapshot snapshot).violations)

def validateCandidate (root : PathBuf) (mode : InitMode) : Except InitError Unit := do
  let agents ← ioError "read candidate policy".toList agentsPath
    (readToString host tree agentsPath)
  let policy := inspectPolicy agents
  require (policy.headingCount = 1 ∧ policy.exact)
    "candidate AGENTS.md does not contain the canonical policy".toList
  match mode with
  | .minimal => validateMinimalCandidate host tree
  | .full => validateFullCandidate host tree root

end Staged

def expectedBase : InitMode → List Text
  | .minimal => [agentsPath, ".agents".toList, memoryPath, gitignorePath, flatPagePath]
  | .full =>
      [agentsPath, ".agents".toList, memoryPath, gitignorePath, schemaPath, indexPath,
        pagesPath, pagePathOf "project-context.md".toList]

/-- The name of a path under `pages/`. -/
def pageName (path : Text) : Option Text :=
  Text.stripPrefix (pagesPath ++ ['/']) path

def isOwnedPage (path : Text) : Bool :=
  (pageName path).any fun name =>
    name ≠ [] ∧ '/' ∉ name ∧ ".md".toList <:+ name

def validSet (desired : DesiredMap) (mode : InitMode) : Bool :=
  match mode with
  | .minimal =>
      desired.keys.all (fun path => (expectedBase mode).contains path) &&
        (expectedBase mode).all fun path => desired.contains path
  | .full =>
      ((expectedBase mode).all fun path => desired.contains path) &&
        desired.keys.all fun path =>
          (expectedBase mode).contains path || isOwnedPage path

def modeDebug : InitMode → Text
  | .minimal => "Minimal".toList
  | .full => "Full".toList

def isCandidateDirectory (desired : DesiredMap) (path : Text) : Bool :=
  match desired[path]? with
  | some (.directory _) => true
  | _ => false

def requireDirectory (desired : DesiredMap) (path : Text) : Except InitError Unit :=
  require (isCandidateDirectory desired path)
    (path ++ " is not a candidate directory".toList)

def desiredFile (desired : DesiredMap) (path : Text) : Except InitError Bytes :=
  match desired[path]? with
  | some (.file _ bytes) => .ok bytes
  | _ => .error (.candidate (path ++ " is not a candidate file".toList))

def validateOwnedMinimal (desired : DesiredMap) : Except InitError Unit := do
  let bytes ← desiredFile desired flatPagePath
  match Text.fromUtf8 bytes with
  | none => .error (.candidate "candidate project page is not UTF-8".toList)
  | some source =>
      match parseWikiPage source with
      | .error error => .error (.candidate error.message)
      | .ok page =>
          require (page.slug = "project-context".toList)
            "candidate flat page slug is not project-context".toList

/-- The page of an entry under `pages/`. -/
def ownedPage (entry : Text × DesiredNode) : Option CapturedPage :=
  (pageName entry.1).map fun name =>
    match entry.2 with
    | .file _ bytes => ⟨name.toBytes, .present bytes⟩
    | .directory _ => ⟨name.toBytes, .notRegular⟩

def validateOwnedFull (desired : DesiredMap) : Except InitError Unit := do
  let gitignore ← desiredFile desired gitignorePath
  require (gitignore = memoryGitignore.toBytes)
    "candidate memory gitignore differs from the embedded lock-ignore file".toList
  let found ← desiredFile desired schemaPath
  require (found = schema.toBytes)
    "candidate SCHEMA.md differs from the embedded schema".toList
  let index ← desiredFile desired indexPath
  let pages := sortBy (fun left right : CapturedPage => compare left.name right.name)
    (desired.toList.filterMap ownedPage)
  let snapshot : WikiSnapshot :=
    { corpus := Text.toBytes "<owned-candidate>".toList
      index, pages, isolated := true, isolationNote := none }
  require ((validateWiki snapshot).failures = [])
    (Text.join "; ".toList (validateWiki snapshot).failures)
  require ((compatSnapshot snapshot).violations = [])
    (Text.join "; ".toList (compatSnapshot snapshot).violations)

def validateOwnedCandidate (desired : DesiredMap) (mode : InitMode) :
    Except InitError Unit := do
  require (validSet desired mode)
    ("candidate owned node set is invalid for ".toList ++ modeDebug mode ++
      ": \x7b".toList ++ Text.join ", ".toList (desired.keys.map debug) ++
      "\x7d".toList)
  requireDirectory desired ".agents".toList
  requireDirectory desired memoryPath
  if mode = .full then requireDirectory desired pagesPath else .ok ()
  let bytes ← desiredFile desired agentsPath
  match Text.fromUtf8 bytes with
  | none => .error (.candidate "candidate AGENTS.md is not UTF-8".toList)
  | some agents => do
      let policy := inspectPolicy agents
      require (policy.headingCount = 1 ∧ policy.exact)
        "candidate AGENTS.md does not contain the canonical policy".toList
      match mode with
      | .minimal => validateOwnedMinimal desired
      | .full => validateOwnedFull desired

end Validators

end Yams.Init
