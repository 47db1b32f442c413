/-
Paths as byte strings, the way the operating system keeps them: joining,
components, ancestors, prefixes of components and the parts of a file name.
-/
import Yams.Text

namespace Yams

/-- `PathBuf`.  Two spellings of one path are different values. -/
abbrev PathBuf := Bytes

namespace PathBytes

def slash : UInt8 := 0x2f

def isAbsolute (path : Bytes) : Bool := path.head? = some slash

/-- `Path::join`. -/
def join (base arg : Bytes) : Bytes :=
  if isAbsolute arg then arg
  else if base.isEmpty ∨ base.getLast? = some slash then base ++ arg
  else base ++ slash :: arg

inductive Component
  | curDir
  | parentDir
  | normal (name : Bytes)

def component (part : Bytes) : Component :=
  if part = [0x2e] then .curDir
  else if part = [0x2e, 0x2e] then .parentDir
  else .normal part

/-- The components after the root. -/
def components (path : Bytes) : List Component :=
  ((path.splitOn slash).filter fun part => part ≠ []).map component

/-- The absolute path of some names. -/
def absolute (names : List Bytes) : Bytes :=
  slash :: List.intercalate [slash] names

/-- `Path::ancestors` of a canonical path, the path itself first. -/
def ancestors (path : Bytes) : List Bytes :=
  let names := (path.splitOn slash).filter fun part => part ≠ []
  names.inits.reverse.map absolute

/-- The components that `Path::starts_with` compares: `.` is dropped, except at
the start of a relative path. -/
def parts (path : PathBuf) : List Bytes :=
  let names := (path.splitOn slash).filter fun part => part ≠ []
  if isAbsolute path then names.filter fun part => part ≠ [0x2e]
  else names.take 1 ++ (names.drop 1).filter fun part => part ≠ [0x2e]

/-- `Path::starts_with`. -/
def startsWith (path base : PathBuf) : Bool :=
  isAbsolute path = isAbsolute base && (parts base).isPrefixOf (parts path)

/-- `Path::cmp`, by components. -/
def le (left right : PathBuf) : Bool := decide (¬ parts right < parts left)

/-- `Path::file_name`. -/
def fileName (path : PathBuf) : Option Bytes :=
  match (parts path).getLast? with
  | some name => if name = [0x2e] ∨ name = [0x2e, 0x2e] then none else some name
  | none => none

/-- Split a file name at its last dot, unless the dot is its first byte. -/
def splitExtension (name : Bytes) : Bytes × Option Bytes :=
  match name.reverse.span fun b => b ≠ 0x2e with
  | (extension, _ :: stem) =>
      if stem = [] then (name, none) else (stem.reverse, some extension.reverse)
  | (_, []) => (name, none)

/-- `Path::file_stem`. -/
def fileStem (path : PathBuf) : Option Bytes :=
  (fileName path).map fun name => (splitExtension name).1

end PathBytes

end Yams
