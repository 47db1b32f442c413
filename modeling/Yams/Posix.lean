/-
The part of the operating system's vocabulary that several components share:
error numbers, paths, file identities and the metadata of a file.
-/
import Mathlib.Data.List.Basic

namespace Yams

/-- Error numbers of failed system calls.  `WOULDBLOCK` and `AGAIN` are one
number on the supported targets. -/
inductive Errno
  | exist | noent | rofs | access | perm | wouldblock | intr | badf
  | other (code : Nat)
  deriving DecidableEq, Repr

/-- A path: whether it starts at the root, and its components. -/
structure Path where
  absolute : Bool
  parts : List String
  deriving DecidableEq, Repr

/-- `Path::join`: an absolute argument replaces the base. -/
def Path.join (base arg : Path) : Path :=
  if arg.absolute then arg else ⟨base.absolute, base.parts ++ arg.parts⟩

/-- `Path::display`. -/
def Path.display (path : Path) : String :=
  (if path.absolute then "/" else "") ++ String.intercalate "/" path.parts

/-- A single relative component. -/
def Path.name (component : String) : Path := ⟨false, [component]⟩

/-- The device and inode numbers of a file.  An open descriptor keeps its inode
in use, so a number is not reused while a descriptor is compared with it. -/
structure Identity where
  device : Nat
  inode : Nat
  deriving DecidableEq, Repr

inductive FileKind
  | regular | directory | symlink | other
  deriving DecidableEq, Repr

/-- What `fstat` and `statat` report. -/
structure Stat where
  identity : Identity
  kind : FileKind
  mode : Nat
  uid : Nat
  nlink : Nat
  size : Nat
  modifiedNs : Int
  changedNs : Int
  deriving DecidableEq, Repr

end Yams
