/-
A file tree with permission bits: what the calls of its owner change and read,
and when they fail.  Paths are relative to a root that the owner may always enter.
-/
import Std.Data.ExtTreeMap
import Yams.Program
import Yams.Text

namespace Yams.FileTree

inductive Node
  | directory (mode : UInt32)
  | file (mode : UInt32) (bytes : Bytes)
  deriving DecidableEq

inductive Fault
  | notFound
  | alreadyExists
  | notADirectory
  | isADirectory
  | permissionDenied
  | invalidName
  | invalidData
  deriving DecidableEq

/-- Whether permission bits bind the process, and the paths that the file system
takes. -/
structure Host where
  privileged : Bool
  takesPath : Text → Bool

abbrev Tree := Std.ExtTreeMap Text Node

def ownerReads : Nat := 8

def ownerWrites : Nat := 7

def ownerSearches : Nat := 6

def Host.permits (host : Host) (bit : Nat) (mode : UInt32) : Bool :=
  host.privileged || mode.toNat.testBit bit

/-- The bits that a file system keeps of a mode. -/
def keptMode (mode : UInt32) : UInt32 := mode &&& 0xfff

def Node.withMode (mode : UInt32) : Node → Node
  | .directory _ => .directory (keptMode mode)
  | .file _ bytes => .file (keptMode mode) bytes

def ancestorsFrom (before : Text) : Text → List Text
  | [] => []
  | c :: rest =>
      if c = '/' then before :: ancestorsFrom (before ++ [c]) rest
      else ancestorsFrom (before ++ [c]) rest

/-- The directories above a path, the topmost first. -/
def ancestors (path : Text) : List Text := ancestorsFrom [] path

section Calls

variable (host : Host) (tree : Tree)

def search (dir : Text) : Except Fault Unit :=
  match tree[dir]? with
  | none => .error .notFound
  | some (.file _ _) => .error .notADirectory
  | some (.directory mode) =>
      if host.permits ownerSearches mode then .ok () else .error .permissionDenied

def walk : List Text → Except Fault Unit
  | [] => .ok ()
  | dir :: rest => do
      search host tree dir
      walk rest

/-- `lstat` -/
def lookup (path : Text) : Except Fault Node := do
  walk host tree (ancestors path)
  match tree[path]? with
  | none => .error .notFound
  | some node => .ok node

/-- Whether the directory of a path takes a new entry. -/
def takesEntry (path : Text) : Bool :=
  match (ancestors path).getLast? with
  | none => true
  | some parent =>
      match tree[parent]? with
      | some (.directory mode) => host.permits ownerWrites mode
      | _ => false

def insertNew (path : Text) (node : Node) : Except Fault Tree :=
  if ¬ host.takesPath path then .error .invalidName
  else if takesEntry host tree path then .ok (tree.insert path node)
  else .error .permissionDenied

/-- `mkdir`; the mode is what the process creates directories with. -/
def createDirectory (path : Text) : Except Fault Tree := do
  walk host tree (ancestors path)
  match tree[path]? with
  | some _ => .error .alreadyExists
  | none => insertNew host tree path (.directory 0o777)

/-- Create a file or replace the contents of one. -/
def writeFile (path : Text) (bytes : Bytes) : Except Fault Tree := do
  walk host tree (ancestors path)
  match tree[path]? with
  | some (.directory _) => .error .isADirectory
  | some (.file mode _) =>
      if host.permits ownerWrites mode then .ok (tree.insert path (.file mode bytes))
      else .error .permissionDenied
  | none => insertNew host tree path (.file 0o666 bytes)

/-- `chmod` -/
def changeMode (path : Text) (mode : UInt32) : Except Fault Tree := do
  let node ← lookup host tree path
  return tree.insert path (node.withMode mode)

def readFile (path : Text) : Except Fault Bytes := do
  match ← lookup host tree path with
  | .directory _ => .error .isADirectory
  | .file mode bytes =>
      if host.permits ownerReads mode then .ok bytes else .error .permissionDenied

/-- The name of a path in a directory, if it is right in it. -/
def childName (dir path : Text) : Option Text :=
  match Text.stripPrefix (dir ++ ['/']) path with
  | some name => if name = [] ∨ '/' ∈ name then none else some name
  | none => none

/-- The names in a directory. -/
def readDirectory (dir : Text) : Except Fault (List Text) := do
  match ← lookup host tree dir with
  | .file _ _ => .error .notADirectory
  | .directory mode =>
      if host.permits ownerReads mode then
        .ok (tree.toList.filterMap fun entry => childName dir entry.1)
      else .error .permissionDenied

end Calls

section Modes

variable {host : Host}

theorem permits_of_testBit {mode : UInt32} {bit : Nat}
    (h : mode.toNat.testBit bit = true) : host.permits bit mode = true := by
  rw [Host.permits, h, Bool.or_true]

theorem testBit_or {mode bits : UInt32} {bit : Nat}
    (h : bits.toNat.testBit bit = true) : (mode ||| bits).toNat.testBit bit = true := by
  rw [UInt32.toNat_or, Nat.testBit_or, h, Bool.or_true]

/-- Permission bits are among those a file system keeps. -/
theorem permits_keptMode {bit : Nat} (hbit : bit < 12) (mode : UInt32) :
    host.permits bit (keptMode mode) = host.permits bit mode := by
  have hkept : (0xfff : UInt32).toNat.testBit bit = true := by
    have hall : ∀ bit < 12, (0xfff : UInt32).toNat.testBit bit = true := by decide
    exact hall bit hbit
  rw [Host.permits, Host.permits, keptMode, UInt32.toNat_and, Nat.testBit_and, hkept,
    Bool.and_true]

end Modes

section Paths

variable {dir path : Text}

attribute [local simp] ancestorsFrom

theorem mem_ancestorsFrom {before rest : Text} (h : dir ∈ ancestorsFrom before rest) :
    ∃ more, before ++ rest = dir ++ '/' :: more := by
  induction rest generalizing before with
  | nil => exact absurd h List.not_mem_nil
  | cons c rest ih =>
      have hnext (h : dir ∈ ancestorsFrom (before ++ [c]) rest) :
          ∃ more, before ++ c :: rest = dir ++ '/' :: more := by
        obtain ⟨more, hmore⟩ := ih h
        exact ⟨more, by rw [← hmore, List.append_assoc, List.singleton_append]⟩
      rw [ancestorsFrom] at h
      split at h
      next hc =>
        rcases List.mem_cons.1 h with rfl | h
        · exact ⟨rest, by rw [hc]⟩
        · exact hnext h
      next => exact hnext h

/-- A directory above a path has fewer separators. -/
theorem count_lt_of_mem_ancestors (h : dir ∈ ancestors path) :
    dir.count '/' < path.count '/' := by
  obtain ⟨more, hmore⟩ := mem_ancestorsFrom h
  rw [List.nil_append] at hmore
  rw [hmore, List.count_append, List.count_cons_self]
  omega

theorem ancestorsFrom_append (before first second : Text) :
    ancestorsFrom before (first ++ second) =
      ancestorsFrom before first ++ ancestorsFrom (before ++ first) second := by
  induction first generalizing before with
  | nil => rw [List.nil_append, List.append_nil, ancestorsFrom, List.nil_append]
  | cons c rest ih =>
      rw [List.cons_append, ancestorsFrom, ancestorsFrom, ih, List.append_assoc,
        List.singleton_append]
      split <;> rfl

theorem ancestorsFrom_eq_nil {name : Text} (h : '/' ∉ name) (before : Text) :
    ancestorsFrom before name = [] := by
  induction name generalizing before with
  | nil => rfl
  | cons c rest ih =>
      rw [List.mem_cons, not_or] at h
      rw [ancestorsFrom, if_neg (Ne.symm h.1), ih h.2]

/-- Above an entry of a directory are the directory and what is above it. -/
theorem ancestors_entry (dir : Text) {name : Text} (h : '/' ∉ name) :
    ancestors (dir ++ '/' :: name) = ancestors dir ++ [dir] := by
  rw [ancestors, ancestorsFrom_append, List.nil_append, ancestorsFrom, if_pos rfl,
    ancestorsFrom_eq_nil h]
  rfl

end Paths

section Outcomes

variable {host : Host} {tree : Tree} {path dir : Text} {node : Node} {bytes : Bytes}

/-- The owner gets to a path: it may search all directories above. -/
def Reaches (host : Host) (tree : Tree) (path : Text) : Prop :=
  ∀ dir ∈ ancestors path, ∃ mode,
    tree[dir]? = some (.directory mode) ∧ host.permits ownerSearches mode = true

theorem search_eq_ok : search host tree dir = .ok () ↔ ∃ mode,
    tree[dir]? = some (.directory mode) ∧ host.permits ownerSearches mode = true := by
  unfold search
  cases hnode : tree[dir]? with
  | none => simp
  | some node =>
      cases node with
      | file mode bytes => simp
      | directory mode =>
          by_cases hmode : host.permits ownerSearches mode = true
          · simp [hmode]
          · simp [hmode]

theorem walk_eq_ok : walk host tree (ancestors path) = .ok () ↔
    Reaches host tree path := by
  unfold Reaches
  generalize ancestors path = dirs
  induction dirs with
  | nil => simp [walk]
  | cons dir dirs ih =>
      rw [walk, except_bind_eq_ok, List.forall_mem_cons, ← ih, ← search_eq_ok]
      constructor
      · rintro ⟨_, hdir, hrest⟩
        exact ⟨hdir, hrest⟩
      · rintro ⟨hdir, hrest⟩
        exact ⟨(), hdir, hrest⟩

theorem lookup_eq_ok : lookup host tree path = .ok node ↔
    Reaches host tree path ∧ tree[path]? = some node := by
  rw [lookup, except_bind_eq_ok, ← walk_eq_ok]
  cases tree[path]? with
  | none => simp
  | some found =>
      constructor
      · rintro ⟨_, hwalk, hfound⟩
        exact ⟨hwalk, congrArg some (Except.ok.inj hfound)⟩
      · rintro ⟨hwalk, hfound⟩
        exact ⟨(), hwalk, congrArg Except.ok (Option.some.inj hfound)⟩

theorem readFile_eq_ok : readFile host tree path = .ok bytes ↔
    Reaches host tree path ∧ ∃ mode, tree[path]? = some (.file mode bytes) ∧
      host.permits ownerReads mode = true := by
  rw [readFile, except_bind_eq_ok]
  constructor
  · rintro ⟨node, hnode, hbytes⟩
    obtain ⟨hreaches, hfound⟩ := lookup_eq_ok.1 hnode
    cases node with
    | directory mode => cases hbytes
    | file mode found =>
        dsimp only at hbytes
        by_cases hmode : host.permits ownerReads mode = true
        · rw [if_pos hmode] at hbytes
          obtain rfl := Except.ok.inj hbytes
          exact ⟨hreaches, mode, hfound, hmode⟩
        · rw [if_neg hmode] at hbytes
          cases hbytes
  · rintro ⟨hreaches, mode, hfound, hmode⟩
    exact ⟨_, lookup_eq_ok.2 ⟨hreaches, hfound⟩, if_pos hmode⟩

theorem readDirectory_eq_ok {names : List Text} :
    readDirectory host tree path = .ok names ↔
      Reaches host tree path ∧ (∃ mode, tree[path]? = some (.directory mode) ∧
        host.permits ownerReads mode = true) ∧
      names = tree.toList.filterMap fun entry => childName path entry.1 := by
  rw [readDirectory, except_bind_eq_ok]
  constructor
  · rintro ⟨node, hnode, hnames⟩
    obtain ⟨hreaches, hfound⟩ := lookup_eq_ok.1 hnode
    cases node with
    | file mode bytes => cases hnames
    | directory mode =>
        dsimp only at hnames
        by_cases hmode : host.permits ownerReads mode = true
        · rw [if_pos hmode] at hnames
          exact ⟨hreaches, ⟨mode, hfound, hmode⟩, (Except.ok.inj hnames).symm⟩
        · rw [if_neg hmode] at hnames
          cases hnames
  · rintro ⟨hreaches, ⟨mode, hfound, hmode⟩, rfl⟩
    exact ⟨_, lookup_eq_ok.2 ⟨hreaches, hfound⟩, if_pos hmode⟩

theorem changeMode_of_reaches (mode : UInt32) (hreaches : Reaches host tree path)
    (hnode : tree[path]? = some node) :
    changeMode host tree path mode = .ok (tree.insert path (node.withMode mode)) := by
  rw [changeMode, lookup_eq_ok.2 ⟨hreaches, hnode⟩]
  rfl

/-- A new entry is created where the owner may write to the directory. -/
theorem insertNew_eq_ok {next : Tree} :
    insertNew host tree path node = .ok next ↔
      host.takesPath path = true ∧ takesEntry host tree path = true ∧
        next = tree.insert path node := by
  unfold insertNew
  by_cases htakes : host.takesPath path = true
  · by_cases hentry : takesEntry host tree path = true
    · simp [htakes, hentry, eq_comm]
    · simp [htakes, hentry]
  · simp [htakes]

theorem createDirectory_of_new (hreaches : Reaches host tree path)
    (hnew : tree[path]? = none) :
    createDirectory host tree path = insertNew host tree path (.directory 0o777) := by
  rw [createDirectory, walk_eq_ok.2 hreaches, except_ok_bind, hnew]

theorem writeFile_of_new (bytes : Bytes) (hreaches : Reaches host tree path)
    (hnew : tree[path]? = none) :
    writeFile host tree path bytes = insertNew host tree path (.file 0o666 bytes) := by
  rw [writeFile, walk_eq_ok.2 hreaches, except_ok_bind, hnew]

end Outcomes

end Yams.FileTree
