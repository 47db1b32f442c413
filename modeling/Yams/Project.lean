/-
The selected project and the runtime layout: paths are made absolute by name,
and the project root is what the file system calls canonical.  Paths are byte
strings; the file system answers through a parameter.
-/
import Yams.CommandLine
import Yams.PathBytes
import Yams.Posix
import Yams.Program

namespace Yams

def OsString.toBytes : OsString → Bytes
  | .utf8 text => text.toBytes
  | .other bytes => bytes

def OsString.ofBytes (bytes : Bytes) : OsString :=
  match Text.fromUtf8 bytes with
  | some text => .utf8 text
  | none => .other bytes

inductive IoError
  | notFound | notADirectory
  | other (message : Text)
  deriving DecidableEq

/-- What the file system says about a path. -/
structure Disk where
  /-- `fs::canonicalize` -/
  canonicalize : Bytes → Except IoError Bytes
  /-- `fs::metadata`, which follows links -/
  metadata : Bytes → Except IoError FileKind
  symlinkMetadata : Bytes → Except IoError FileKind
  readLink : Bytes → Except IoError Bytes

inductive DiscoveryError
  | canonicalize (path : Bytes) (source : IoError)
  | inspect (path : Bytes) (source : IoError)
  | notDirectory (path : Bytes)

inductive LayoutError
  | missingHome
  | relativeInput (name : Text)
  | resolvePath (path : Bytes) (source : IoError)
  | symlinkLoop (path : Bytes)
  | project (source : DiscoveryError)
  | other (message : Text)

/-- The parts of the runtime inputs that select the project. -/
structure RuntimeInputs where
  cwd : Bytes
  home : Bytes

/-- The parts of the runtime layout that the client reads. -/
structure RuntimeLayout where
  cwd : OsString
  serviceSocket : OsString
  deriving DecidableEq

open PathBytes

def requireAbsolute (name : Text) (path : Bytes) : Except LayoutError Unit :=
  if isAbsolute path then .ok () else .error (.relativeInput name)

/-- `~` as the first component stands for the home directory. -/
def expandTilde (path home : Bytes) : Except LayoutError Bytes :=
  match path with
  | 0x7e :: rest =>
      if rest = [] ∨ isAbsolute rest then
        if home.isEmpty then .error .missingHome
        else do
          requireAbsolute "HOME" home
          return join home (rest.dropWhile fun b => b = slash)
      else .ok path
  | _ => .ok path

section

variable (disk : Disk)

/-- One component of a path that is resolved by name; a missing file keeps its
name. -/
def resolveComponent (resolve : Bytes → Except LayoutError (List Bytes))
    (resolved : List Bytes) : Component → Except LayoutError (List Bytes)
  | .curDir => .ok resolved
  | .parentDir => .ok resolved.dropLast
  | .normal name =>
      let candidate := resolved ++ [name]
      match disk.symlinkMetadata (absolute candidate) with
      | .ok kind =>
          if kind = .symlink then
            match disk.readLink (absolute candidate) with
            | .ok target => resolve (join (absolute resolved) target)
            | .error source =>
                .error (.resolvePath (absolute candidate) source)
          else .ok candidate
      | .error source =>
          if source = .notFound ∨ source = .notADirectory then .ok candidate
          else .error (.resolvePath (absolute candidate) source)

/-- The first argument counts the symbolic links that may still be followed. -/
def resolveAbsoluteWeak : Nat → Bytes → Except LayoutError (List Bytes)
  | 0, path => .error (.symlinkLoop path)
  | links + 1, path =>
      (components path).foldlM
        (resolveComponent disk (resolveAbsoluteWeak links)) []

def resolveCompatible (cwd path home : Bytes) : Except LayoutError Bytes := do
  let expanded ← expandTilde path home
  let path := if isAbsolute expanded then expanded else join cwd expanded
  return absolute (← resolveAbsoluteWeak disk 41 path)

def canonicalDirectory (path : Bytes) : Except DiscoveryError Bytes :=
  match disk.canonicalize path with
  | .error source => .error (.canonicalize path source)
  | .ok canonical =>
      match disk.metadata canonical with
      | .error source => .error (.inspect canonical source)
      | .ok kind =>
          if kind = .directory then .ok canonical
          else .error (.notDirectory path)

/-- The nearest ancestor with a `.git` marker, or else the fallback. -/
def markedRoot (fallback : Bytes) : List Bytes → Except DiscoveryError Bytes
  | [] => .ok fallback
  | ancestor :: ancestors =>
      let marker := join ancestor [0x2e, 0x67, 0x69, 0x74]
      match disk.metadata marker with
      | .ok kind =>
          if kind = .regular ∨ kind = .directory then
            canonicalDirectory disk ancestor
          else markedRoot fallback ancestors
      | .error source =>
          if source = .notFound then markedRoot fallback ancestors
          else .error (.inspect marker source)

def projectRoot (explicit : Option Bytes) (cwd : Bytes) :
    Except DiscoveryError Bytes :=
  match explicit with
  | some explicit => canonicalDirectory disk (join cwd explicit)
  | none => do
      let canonical ← canonicalDirectory disk cwd
      markedRoot disk canonical (ancestors canonical)

/-- An empty path is no selection. -/
def resolveExplicit (cwd home : Bytes) (explicit : Option Bytes) :
    Except LayoutError (Option Bytes) :=
  match explicit with
  | some path =>
      if path.isEmpty then .ok none
      else (resolveCompatible disk cwd path home).map some
  | none => .ok none

def resolveProjectPath (explicit : Option Bytes) (inputs : RuntimeInputs) :
    Except LayoutError Bytes := do
  requireAbsolute "current directory" inputs.cwd
  let cwd ← resolveCompatible disk inputs.cwd inputs.cwd inputs.home
  let explicit ← resolveExplicit disk cwd inputs.home explicit
  (projectRoot disk explicit cwd).mapError .project

/-- A project root is what the file system calls canonical. -/
theorem canonicalDirectory_eq_ok {path root : Bytes}
    (h : canonicalDirectory disk path = .ok root) :
    disk.canonicalize path = .ok root := by
  unfold canonicalDirectory at h
  split at h
  · cases h
  · split at h
    · cases h
    · split at h
      · cases h
        assumption
      · cases h

theorem markedRoot_eq_ok {fallback root : Bytes} {ancestors : List Bytes}
    (h : markedRoot disk fallback ancestors = .ok root) :
    root = fallback ∨ ∃ path, disk.canonicalize path = .ok root := by
  induction ancestors with
  | nil =>
      cases h
      exact .inl rfl
  | cons ancestor ancestors ih =>
      unfold markedRoot at h
      simp only at h
      split at h
      · split at h
        · exact .inr ⟨ancestor, canonicalDirectory_eq_ok disk h⟩
        · exact ih h
      · split at h
        · exact ih h
        · cases h

theorem projectRoot_eq_ok {explicit : Option Bytes} {cwd root : Bytes}
    (h : projectRoot disk explicit cwd = .ok root) :
    ∃ path, disk.canonicalize path = .ok root := by
  cases explicit with
  | some explicit => exact ⟨_, canonicalDirectory_eq_ok disk h⟩
  | none =>
      unfold projectRoot at h
      cases hcwd : canonicalDirectory disk cwd with
      | error e =>
          rw [hcwd] at h
          cases h
      | ok canonical =>
          rw [hcwd] at h
          rcases markedRoot_eq_ok disk h with rfl | hroot
          · exact ⟨cwd, canonicalDirectory_eq_ok disk hcwd⟩
          · exact hroot

/-- Every step of the resolution but the last may fail only. -/
theorem resolveProjectPath_eq_ok {explicit : Option Bytes}
    {inputs : RuntimeInputs} {root : Bytes}
    (h : resolveProjectPath disk explicit inputs = .ok root) :
    ∃ path, disk.canonicalize path = .ok root := by
  unfold resolveProjectPath at h
  obtain ⟨_, _, h⟩ := except_bind_eq_ok.1 h
  obtain ⟨cwd, _, h⟩ := except_bind_eq_ok.1 h
  obtain ⟨explicit, _, h⟩ := except_bind_eq_ok.1 h
  exact projectRoot_eq_ok disk (except_mapError_eq_ok.1 h)

variable {F : Type} (describe : LayoutError → Text)
  (resolveLayout : RuntimeInputs → Except LayoutError RuntimeLayout)

/-- The operations that work on one project. -/
def selectsProject : DirectOperation → Bool
  | .search | .write | .index | .stats => true
  | _ => false

def prepareResolved (request : DirectRequest F) (inputs : RuntimeInputs) :
    Except DirectCompletion (DirectRequest F × RuntimeLayout) :=
  let write : Bool := request.operation = .write
  match resolveLayout inputs with
  | .error error => .error (.configuration (describe error) write)
  | .ok layout =>
      if selectsProject request.operation then
        match resolveProjectPath disk (request.project.map OsString.toBytes)
            inputs with
        | .error error => .error (.configuration (describe error) write)
        | .ok project =>
            .ok ({ request with project := some (.ofBytes project) }, layout)
      else .ok (request, layout)

end

end Yams
