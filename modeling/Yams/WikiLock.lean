/-
The project lock of the wiki: acquisition by descriptor with revalidation of
every pinned name, release, and the revalidation that precedes a commit.  The
adversary may replace every name and all metadata between any two steps.
-/
import Yams.Schedule
import Yams.Posix
import Mathlib.Algebra.Group.Nat.Defs

namespace Yams.WikiLock

/-- Durations and clock readings, in nanoseconds. -/
abbrev Duration := Nat

/-- `Duration::MAX`. -/
def durationMax : Duration := 18446744073709551615999999999

abbrev Tid := Nat

abbrev Fd := Nat

/-- Persistent lock-file name shared by every wiki reader and writer. -/
def lockName : String := ".write.lock"

/-- Default maximum time spent acquiring or safely rebinding the wiki lock. -/
def lockTimeout : Duration := 10 * 10 ^ 9

def lockPoll : Duration := 50 * 10 ^ 6

/-- Advisory lock mode for a wiki operation. -/
inductive LockMode
  | shared | exclusive
  deriving DecidableEq, Repr

/-- Why a lock is refused: a fixed text, and the system's error where the text
ends with one. -/
structure Reason where
  text : String
  cause : Option Errno
  deriving DecidableEq, Repr

/-- A refusal to use the project lock. -/
inductive LockError
  | busy (path : Path) (mode : LockMode) (timeout : Duration)
  | unsafeLock (path : Path) (reason : Reason)
  deriving DecidableEq, Repr

inductive UnisolatedReason
  | readOnlyFilesystem | unwritableCorpus
  deriving DecidableEq, Repr

/-- Evidence that neither the lock nor wiki pages can be written. -/
structure Unisolated where
  corpus : Path
  reason : UnisolatedReason
  corpusFd : Fd
  corpusIdentity : Identity
  requestedPath : Path
  deriving DecidableEq, Repr

/-- A corpus directory and a lock file pinned by descriptor. -/
structure PinnedTarget where
  corpusFd : Fd
  corpusIdentity : Identity
  requestedPath : Path
  corpusPath : Path
  lockFd : Fd
  lockIdentity : Identity
  lockPath : Path
  deriving DecidableEq, Repr

/-- A held advisory lock tied to its pinned descriptors. -/
structure LockGuard where
  target : PinnedTarget
  mode : LockMode
  deriving DecidableEq, Repr

inductive LockLease
  | isolated (guard : LockGuard)
  | unisolated (evidence : Unisolated)
  deriving DecidableEq, Repr

inductive OpenTarget
  | isolated (target : PinnedTarget)
  | unisolated (evidence : Unisolated)
  | rebound (lockPath : Path)

inductive Binding
  | current | rebound
  deriving DecidableEq, Repr

inductive OpenLockError
  | unisolated (reason : UnisolatedReason)
  | unsafeLock (reason : Reason)
  | rebound

/-- `CREATE_LOCK_FLAGS` and `EXISTING_LOCK_FLAGS`. -/
inductive OpenFlags
  | create | existing
  deriving DecidableEq

inductive FlockOperation
  | nonBlockingLock (mode : LockMode)
  | unlock
  deriving DecidableEq

/-- One call of `acquire_lock_with_timeout`. -/
structure Request where
  corpus : Path
  mode : LockMode
  timeout : Duration
  deriving DecidableEq, Repr

/-- System calls, and the points where a caller enters an acquisition, has its
result in hand, and goes on to drop it. -/
inductive LockOp
  | now
  | backoff (duration : Duration)
  | currentDir
  | canonicalize (path : Path)
  | openDirectory (path : Path)
  | fstat (fd : Fd)
  | openLock (directory : Fd) (flags : OpenFlags)
  | fchmod (fd : Fd) (mode : Nat)
  | statLock (directory : Fd)
  | accessPages (directory : Fd)
  | flock (fd : Fd) (operation : FlockOperation)
  | close (fd : Fd)
  | getuid
  | enter (request : Request)
  | returned (request : Request) (result : Except LockError LockLease)
  | resume

abbrev LockAns : LockOp → Type
  | .now => Duration
  | .currentDir | .canonicalize _ => Except Errno Path
  | .openDirectory _ | .openLock _ _ => Except Errno Fd
  | .fstat _ | .statLock _ => Except Errno Stat
  | .fchmod _ _ | .accessPages _ | .flock _ _ => Except Errno Unit
  | .backoff _ | .close _ | .enter _ | .returned _ _ | .resume => Unit
  | .getuid => Nat

/-- A fallible program over the system calls. -/
abbrev LockM := Fallible LockOp LockAns LockError

section

variable {ε : Type}

/-- The system calls, usable under every error type. -/
abbrev sys (op : LockOp) : Fallible LockOp LockAns ε (LockAns op) :=
  Fallible.perform op

def busy {α : Type} (path : Path) (mode : LockMode) (timeout : Duration) :
    LockM α :=
  throw (.busy path mode timeout)

def unsafeLock {α : Type} (path : Path) (text : String)
    (cause : Option Errno) : LockM α :=
  throw (.unsafeLock path ⟨text, cause⟩)

/-- Own what `cleanup` closes while `body` runs: an error drops it on the way
out, and a result decides itself whether it is moved or dropped. -/
def owning {α : Type} (cleanup : Fallible LockOp LockAns ε Unit)
    (body : Fallible LockOp LockAns ε α) : Fallible LockOp LockAns ε α := do
  match ← Fallible.observe body with
  | .ok result => pure result
  | .error e =>
      cleanup
      throw e

/-- Close a descriptor at the end of its scope, whatever the result. -/
def closing {α : Type} (fd : Fd) (body : Fallible LockOp LockAns ε α) :
    Fallible LockOp LockAns ε α := do
  let r ← Fallible.observe body
  sys (.close fd)
  Fallible.ofExcept r

end

def absolutePath (path : Path) : LockM Path := do
  if path.absolute then
    return path
  match ← sys .currentDir with
  | .ok cwd => return cwd.join path
  | .error e => unsafeLock path "could not resolve path: " e

def revalidateCorpus (requestedPath corpusPath : Path) (corpusFd : Fd)
    (identity : Identity) : LockM Binding := do
  match ← sys (.canonicalize requestedPath) with
  | .error _ => return .rebound
  | .ok resolved =>
      if resolved ≠ corpusPath then
        return .rebound
      match ← sys (.fstat corpusFd) with
      | .error e =>
          unsafeLock corpusPath
            "could not reinspect pinned corpus directory: " e
      | .ok pinned =>
          if pinned.kind ≠ .directory ∨ pinned.identity ≠ identity then
            return .rebound
          match ← sys (.openDirectory corpusPath) with
          | .error _ => return .rebound
          | .ok named =>
              closing named do
                match ← sys (.fstat named) with
                | .error _ => return .rebound
                | .ok namedStat =>
                    if namedStat.identity ≠ identity then
                      return .rebound
                    return .current

def validateLockDescriptor (fd : Fd) (path : Path) : LockM Stat := do
  match ← sys (.fstat fd) with
  | .error e => unsafeLock path "could not inspect lock: " e
  | .ok stat =>
      if stat.kind ≠ .regular then
        unsafeLock path "lock is not a regular file" none
      else
        let realUid ← sys .getuid
        if stat.uid ≠ realUid ∧ stat.uid ≠ 0 then
          unsafeLock path ("lock is owned by uid " ++ toString stat.uid ++
            ", expected real uid " ++ toString realUid ++ " or root") none
        else if stat.nlink ≠ 1 then
          unsafeLock path ("lock must have exactly one hard link, found " ++
            toString stat.nlink) none
        else
          return stat

def verifyNamedLock (corpusFd : Fd) (path : Path) (identity : Identity) :
    LockM Binding := do
  match ← sys (.statLock corpusFd) with
  | .error .noent => return .rebound
  | .error e => unsafeLock path "could not inspect named lock: " e
  | .ok named =>
      if named.identity ≠ identity then
        return .rebound
      return .current

def revalidateTarget (target : PinnedTarget) : LockM Binding := do
  match ← revalidateCorpus target.requestedPath target.corpusPath
      target.corpusFd target.corpusIdentity with
  | .rebound => return .rebound
  | .current =>
      let stat ← validateLockDescriptor target.lockFd target.lockPath
      if stat.identity ≠ target.lockIdentity then
        return .rebound
      verifyNamedLock target.corpusFd target.lockPath target.lockIdentity

/-- Revalidate every pinned name and identity immediately before commit. -/
def revalidateBeforeCommit (guard : LockGuard) : LockM Unit := do
  match ← revalidateTarget guard.target with
  | .current => return ()
  | .rebound =>
      unsafeLock guard.target.lockPath
        "wiki corpus or lock identity changed before commit" none

/-- `LOCK_NAME` is absent and the `pages` directory refuses writes. -/
def corpusTakesNoWrites {ε : Type} (corpusFd : Fd) :
    Fallible LockOp LockAns ε Bool := do
  match ← sys (.statLock corpusFd) with
  | .error .noent =>
      match ← sys (.accessPages corpusFd) with
      | .ok _ => return false
      | .error _ => return true
  | _ => return false

def classifyLockOpenError {α : Type} (corpusFd : Fd) (error : Errno) :
    Fallible LockOp LockAns OpenLockError α := do
  let refused :=
    OpenLockError.unsafeLock ⟨"could not open without following links: ", error⟩
  match error with
  | .rofs =>
      if ← corpusTakesNoWrites corpusFd then
        throw (.unisolated .readOnlyFilesystem)
      else
        throw refused
  | .access | .perm =>
      if ← corpusTakesNoWrites corpusFd then
        throw (.unisolated .unwritableCorpus)
      else
        throw refused
  | .noent => throw .rebound
  | _ => throw refused

/-- The descriptor of the lock file, and whether this call created it. -/
def openLockFile (corpusFd : Fd) :
    Fallible LockOp LockAns OpenLockError (Fd × Bool) := do
  match ← sys (.openLock corpusFd .create) with
  | .ok fd => return (fd, true)
  | .error .exist =>
      match ← sys (.openLock corpusFd .existing) with
      | .ok fd => return (fd, false)
      | .error .noent => throw .rebound
      | .error e => classifyLockOpenError corpusFd e
  | .error e => classifyLockOpenError corpusFd e

/-- `{:04o}` of a mode. -/
def modeText (mode : Nat) : String :=
  let digits := Nat.toDigits 8 mode
  String.ofList (List.replicate (4 - digits.length) '0' ++ digits)

/-- A new lock file gets exactly mode 0600. -/
def restrictNewLock (lockFd : Fd) (lockPath : Path) (created : Bool) :
    LockM Unit := do
  if created then
    match ← sys (.fchmod lockFd 0o600) with
    | .ok _ => return ()
    | .error e =>
        unsafeLock lockPath
          "could not set new lock permissions to 0600: " e
  else
    return ()

/-- The lock file has been opened: check it and its name. -/
def pinLock (requestedPath corpusPath : Path) (corpusFd : Fd)
    (corpusIdentity : Identity) (lockPath : Path) (lockFd : Fd)
    (created : Bool) : LockM OpenTarget := do
  restrictNewLock lockFd lockPath created
  let lockStat ← validateLockDescriptor lockFd lockPath
  if created ∧ lockStat.mode ≠ 0o600 then
    unsafeLock lockPath
      ("new lock mode must be 0600, found " ++ modeText lockStat.mode) none
  else
    match ← verifyNamedLock corpusFd lockPath lockStat.identity with
    | .rebound =>
        sys (.close lockFd)
        return .rebound lockPath
    | .current =>
        return .isolated {
          corpusFd, corpusIdentity, requestedPath, corpusPath, lockFd
          lockIdentity := lockStat.identity, lockPath }

/-- The corpus directory has been opened: check its name and open the lock. -/
def pinCorpus (requestedPath corpusPath : Path) (corpusFd : Fd)
    (corpusIdentity : Identity) : LockM OpenTarget := do
  match ← revalidateCorpus requestedPath corpusPath corpusFd
      corpusIdentity with
  | .rebound => return .rebound (corpusPath.join (.name lockName))
  | .current =>
      let lockPath := corpusPath.join (.name lockName)
      match ← Fallible.observe (openLockFile corpusFd) with
      | .ok (lockFd, created) =>
          owning (sys (.close lockFd))
            (pinLock requestedPath corpusPath corpusFd corpusIdentity
              lockPath lockFd created)
      | .error (.unisolated reason) =>
          match ← revalidateCorpus requestedPath corpusPath corpusFd
              corpusIdentity with
          | .rebound => return .rebound lockPath
          | .current =>
              return .unisolated {
                corpus := corpusPath, reason, corpusFd, corpusIdentity
                requestedPath }
      | .error (.unsafeLock reason) => throw (.unsafeLock lockPath reason)
      | .error .rebound => return .rebound lockPath

/-- The corpus directory has been opened: inspect it and go on. -/
def inspectCorpus (corpus requestedPath corpusPath : Path) (corpusFd : Fd) :
    LockM OpenTarget := do
  match ← sys (.fstat corpusFd) with
  | .error e => unsafeLock corpus "could not inspect memory directory: " e
  | .ok corpusStat =>
      if corpusStat.kind ≠ .directory then
        unsafeLock corpus "memory corpus is not a directory" none
      else
        pinCorpus requestedPath corpusPath corpusFd corpusStat.identity

def openTarget (corpus : Path) : LockM OpenTarget := do
  let requestedPath ← absolutePath corpus
  match ← sys (.canonicalize requestedPath) with
  | .error e =>
      unsafeLock corpus ("no memory directory at " ++ corpus.display ++ ": ") e
  | .ok corpusPath =>
      match ← sys (.openDirectory corpusPath) with
      | .error e =>
          unsafeLock corpus
            ("no memory directory at " ++ corpus.display ++ ": ") e
      | .ok corpusFd =>
          let target ← owning (sys (.close corpusFd))
            (inspectCorpus corpus requestedPath corpusPath corpusFd)
          -- a rebound result does not carry the directory descriptor
          match target with
          | .rebound lockPath =>
              sys (.close corpusFd)
              return .rebound lockPath
          | other => return other

def waitToRetry (deadline : Duration) (lockPath : Path) (mode : LockMode)
    (timeout : Duration) : LockM Unit := do
  let now ← sys .now
  if deadline ≤ now then
    busy lockPath mode timeout
  sys (.backoff (min lockPoll (deadline - now)))
  if deadline ≤ (← sys .now) then
    busy lockPath mode timeout

def unlock (target : PinnedTarget) : LockM Unit := do
  match ← sys (.flock target.lockFd .unlock) with
  | .ok _ => return ()
  | .error e =>
      unsafeLock target.lockPath
        "could not release rebound lock before reopening: " e

/-- The drop of a pinned target closes both descriptors. -/
def dropTarget {ε : Type} (target : PinnedTarget) :
    Fallible LockOp LockAns ε Unit := do
  sys (.close target.corpusFd)
  sys (.close target.lockFd)

/-- What one attempt to take the lock leads to. -/
inductive Attempt
  | granted
  | again
  | released
  | stale

/-- The name is verified and time is left, or the lock is given back. -/
def confirmFlock (target : PinnedTarget) (mode : LockMode)
    (timeout deadline : Duration) : LockM Attempt := do
  if deadline ≤ (← sys .now) then
    unlock target
    busy target.lockPath mode timeout
  else
    match ← revalidateTarget target with
    | .current =>
        if deadline ≤ (← sys .now) then
          unlock target
          busy target.lockPath mode timeout
        else
          return .granted
    | .rebound =>
        unlock target
        return .released

def flockAttempt (target : PinnedTarget) (mode : LockMode)
    (timeout deadline : Duration) : LockM Attempt := do
  match ← sys (.flock target.lockFd (.nonBlockingLock mode)) with
  | .ok _ => confirmFlock target mode timeout deadline
  | .error .wouldblock =>
      waitToRetry deadline target.lockPath mode timeout
      match ← revalidateTarget target with
      | .current =>
          if deadline ≤ (← sys .now) then
            busy target.lockPath mode timeout
          return .again
      | .rebound => return .stale
  | .error .intr =>
      if deadline ≤ (← sys .now) then
        busy target.lockPath mode timeout
      return .again
  | .error e =>
      unsafeLock target.lockPath (match mode with
        | .shared => "could not acquire shared lock: "
        | .exclusive => "could not acquire exclusive lock: ") e

/-- One pass of the inner loop: again, reopen the target, or a lease. -/
def flockPass (target : PinnedTarget) (mode : LockMode)
    (timeout deadline : Duration) : LockM (Unit ⊕ (Unit ⊕ LockLease)) := do
  match ← owning (dropTarget target)
      (flockAttempt target mode timeout deadline) with
  | .granted => return .inr (.inr (.isolated ⟨target, mode⟩))
  | .again => return .inl ()
  | .released =>
      dropTarget target
      waitToRetry deadline target.lockPath mode timeout
      return .inr (.inl ())
  | .stale =>
      -- A failed nonblocking flock acquired no lock; closing the descriptor
      -- is the stale waiter's release.
      dropTarget target
      if deadline ≤ (← sys .now) then
        busy target.lockPath mode timeout
      return .inr (.inl ())

/-- One pass of the outer loop. -/
def acquirePass (request : Request) (deadline : Duration) :
    LockM (Unit ⊕ LockLease) := do
  match ← openTarget request.corpus with
  | .isolated target =>
      Fallible.iterate
        (fun _ => flockPass target request.mode request.timeout deadline) ()
  | .unisolated evidence => return .inr (.unisolated evidence)
  | .rebound lockPath =>
      waitToRetry deadline lockPath request.mode request.timeout
      return .inl ()

/-- `started.checked_add(timeout).unwrap_or(Duration::MAX)`. -/
def deadlineOf (started timeout : Duration) : Duration :=
  if started + timeout ≤ durationMax then started + timeout else durationMax

def acquireWithRuntime (request : Request) : LockM LockLease := do
  let started ← sys .now
  let deadline := deadlineOf started request.timeout
  Fallible.iterate (fun _ => acquirePass request deadline) ()

/-- The drop of a guard: release, then close; a failed release is ignored. -/
def dropGuard {ε : Type} (guard : LockGuard) :
    Fallible LockOp LockAns ε Unit := do
  let _ ← sys (.flock guard.target.lockFd .unlock)
  dropTarget guard.target

/-- A caller that takes and drops leases for the rest of its life. -/
def client (requests : Nat → Request) : Prog LockOp LockAns Empty :=
  Prog.iterate (fun turn => do
    let request := requests turn
    let _ ← Prog.perform (.enter request)
    let result ← (acquireWithRuntime request).run
    let _ ← Prog.perform (.returned request result)
    let _ ← Prog.perform .resume
    match result with
    | .ok (.isolated guard) =>
        let _ ← (dropGuard guard : LockM Unit).run
        return .inl (turn + 1)
    | .ok (.unisolated evidence) =>
        let _ ← Prog.perform (.close evidence.corpusFd)
        return .inl (turn + 1)
    | .error _ => return .inl (turn + 1)) 0

/-- An open file description. -/
structure OpenFile where
  owner : Tid
  fd : Fd
  identity : Identity
  flock : Option LockMode
  deriving DecidableEq, Repr

/-- The names and files of the system, its clock, and the results in hand. -/
structure LockState where
  clock : Duration
  realUid : Nat
  canonical : Path → Option Path
  directory : Path → Option Identity
  lockEntry : Identity → Option Identity
  inode : Identity → Stat
  files : List OpenFile
  held : Tid → Option (Request × Except LockError LockLease)

namespace LockState

/-- The open files of one thread. -/
def own (s : LockState) (t : Tid) : List OpenFile :=
  s.files.filter fun f => f.owner = t

def lookup (s : LockState) (t : Tid) (fd : Fd) : Option OpenFile :=
  (s.own t).find? fun f => f.fd = fd

def stat (s : LockState) (i : Identity) : Stat :=
  { s.inode i with identity := i }

/-- A new description under a number the thread does not use. -/
def openAs (s : LockState) (t : Tid) (fd : Fd) (i : Identity) :
    Option LockState :=
  if (s.own t).all fun f => f.fd ≠ fd then
    some { s with files := ⟨t, fd, i, none⟩ :: s.files }
  else
    none

def setFlock (s : LockState) (t : Tid) (fd : Fd) (lock : Option LockMode) :
    LockState :=
  { s with files := s.files.map fun f =>
      if f.owner = t ∧ f.fd = fd then { f with flock := lock } else f }

def setMode (s : LockState) (i : Identity) (mode : Nat) : LockState :=
  { s with
    inode := Function.update s.inode i { s.inode i with mode := mode } }

def closeFd (s : LockState) (t : Tid) (fd : Fd) : LockState :=
  { s with files := s.files.filter fun f => ¬ (f.owner = t ∧ f.fd = fd) }

end LockState

/-- Locks that may be held on one inode through different descriptions. -/
def LockMode.compatible : Option LockMode → Option LockMode → Bool
  | none, _ | _, none => true
  | some .shared, some .shared => true
  | _, _ => false

/-- `flock` is granted when no other description of the inode conflicts. -/
def LockState.grants (s : LockState) (t : Tid) (file : OpenFile)
    (mode : LockMode) : Bool :=
  s.files.all fun f =>
    (f.owner = t ∧ f.fd = file.fd) ∨ f.identity ≠ file.identity ∨
      LockMode.compatible f.flock (some mode)

/-- The choices of the system and of the adversary. -/
inductive LockChoice
  | ok
  | fail (error : Errno)
  | opened (fd : Fd)
  | created (fd : Fd) (identity : Identity)
  | directory (path : Path)
  | rebind (canonical : Path → Option Path)
      (directory : Path → Option Identity)
      (lockEntry : Identity → Option Identity) (inode : Identity → Stat)
      (elapsed : Duration)

/-- How the system answers a call of thread `t`. -/
def answerLock (t : Tid) : LockChoice → LockState → (op : LockOp) →
    Option (LockAns op × LockState)
  | .ok, s, .now => some (s.clock, s)
  | .ok, s, .backoff _ => some ((), s)
  | .ok, s, .getuid => some (s.realUid, s)
  | .directory path, s, .currentDir => some (.ok path, s)
  | .fail e, s, .currentDir => some (.error e, s)
  | .ok, s, .canonicalize path =>
      (s.canonical path).map fun resolved => (.ok resolved, s)
  | .fail e, s, .canonicalize _ => some (.error e, s)
  | .opened fd, s, .openDirectory path => do
      let i ← s.directory path
      let s' ← s.openAs t fd i
      some (.ok fd, s')
  | .fail e, s, .openDirectory _ => some (.error e, s)
  | .ok, s, .fstat fd =>
      (s.lookup t fd).map fun file => (.ok (s.stat file.identity), s)
  | .fail e, s, .fstat _ => some (.error e, s)
  | .created fd i, s, .openLock directory .create => do
      let dir ← s.lookup t directory
      if s.lockEntry dir.identity = none ∧
          s.files.all (fun f => f.identity ≠ i) then
        let s' ← s.openAs t fd i
        some (.ok fd, { s' with
          lockEntry := Function.update s.lockEntry dir.identity (some i) })
      else
        none
  | .opened fd, s, .openLock directory .existing => do
      let dir ← s.lookup t directory
      let i ← s.lockEntry dir.identity
      let s' ← s.openAs t fd i
      some (.ok fd, s')
  | .fail e, s, .openLock _ _ => some (.error e, s)
  | .ok, s, .fchmod fd mode =>
      (s.lookup t fd).map fun file =>
        (.ok (), s.setMode file.identity mode)
  | .fail e, s, .fchmod _ _ => some (.error e, s)
  | .ok, s, .statLock directory => do
      let dir ← s.lookup t directory
      let i ← s.lockEntry dir.identity
      some (.ok (s.stat i), s)
  | .fail e, s, .statLock _ => some (.error e, s)
  | .ok, s, .accessPages _ => some (.ok (), s)
  | .fail e, s, .accessPages _ => some (.error e, s)
  | .ok, s, .flock fd (.nonBlockingLock mode) => do
      let file ← s.lookup t fd
      if s.grants t file mode then
        some (.ok (), s.setFlock t fd (some mode))
      else
        none
  | .ok, s, .flock fd .unlock => some (.ok (), s.setFlock t fd none)
  | .fail e, s, .flock _ _ => some (.error e, s)
  | .ok, s, .close fd => some ((), s.closeFd t fd)
  | .ok, s, .enter _ => some ((), s)
  | .ok, s, .returned request result =>
      some ((), { s with
        held := Function.update s.held t (some (request, result)) })
  | .ok, s, .resume =>
      some ((), { s with held := Function.update s.held t none })
  | _, _, _ => none

/-- The adversary may replace every name and all metadata at once; it cannot
touch open descriptions, and it does not turn the clock back. -/
def disturbLock : LockChoice → LockState → Option LockState
  | .rebind canonical directory lockEntry inode elapsed, s =>
      some { s with canonical, directory, lockEntry, inode
                    clock := s.clock + elapsed }
  | _, _ => none

def lockInterp : Interp Tid LockOp LockAns LockState LockChoice where
  answer := answerLock
  disturb := disturbLock

end Yams.WikiLock
