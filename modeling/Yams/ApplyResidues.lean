/-
The temporaries of an apply: the names under which it and its recovery prepare a
directory or a file, and the search for such names that were left behind.
-/
import Yams.ApplyManifest
import Yams.ListOrder
import Yams.SyncPlan

namespace Yams.Init.Apply

open Store (dedupSorted)

/-! Names for temporaries. -/

/-- The component of a path that `open_parent` leaves to its callers. -/
def targetOf (path : Text) : Text := ((path.splitOn '/').getLast?).getD []

/-- `rsplit_once('/')`, and the repository itself above a single component. -/
def parentOf (path : Text) : Text := Text.join ['/'] (path.splitOn '/').dropLast

/-- Sixteen random bytes. -/
def Entropy : Type := { bytes : Bytes // bytes.length = 16 }

/-- `{:02x}`. -/
def hexByte (b : UInt8) : Text := (Nat.toDigits 16 b.toNat).leftpad 2 '0'

def directoryStem (target : Text) : Text := ".".toList ++ target ++ ".yams-dir-".toList

def fileStem (target : Text) : Text := ".".toList ++ target ++ ".yams-apply-".toList

def tempEnding : Text := ".tmp".toList

def directoryTempName (target : Text) (entropy : Entropy) : Bytes :=
  (directoryStem target ++ entropy.1.flatMap hexByte ++ tempEnding).toBytes

def fileTempName (target : Text) (pid : UInt32) (sequence : UInt64) : Bytes :=
  (fileStem target ++ Text.ofNat pid.toNat ++ "-".toList ++ Text.ofNat sequence.toNat ++
    tempEnding).toBytes

-- Whether a name stands in the parent.
variable (named : Bytes → Except Text Bool)

/-- The names that are tried until one is free. -/
def firstFree (exhausted : Text) : List (Except Text Bytes) → Except ApplyFailure Bytes
  | [] => .error ⟨.operational, exhausted⟩
  | .error error :: _ => .error ⟨.operational, error⟩
  | .ok name :: rest =>
      match named name with
      | .error error => .error ⟨.operational, error⟩
      | .ok true => firstFree exhausted rest
      | .ok false => .ok name

/-- The sequence numbers are those that the counter has for this process. -/
def uniqueTemp (target : Text) (pid : UInt32) (sequences : Fin 128 → UInt64) :
    Except ApplyFailure Bytes :=
  firstFree named "could not allocate an exclusive apply temporary name".toList
    ((List.finRange 128).map fun index => .ok (fileTempName target pid (sequences index)))

def uniqueDirectoryTemp (target : Text) (entropies : Fin 128 → Except Text Entropy) :
    Except ApplyFailure Bytes :=
  firstFree named "could not allocate a private directory temporary name".toList
    ((List.finRange 128).map fun index =>
      match entropies index with
      | .error error =>
          .error ("directory temporary entropy unavailable: ".toList ++ error)
      | .ok entropy => .ok (directoryTempName target entropy))

/-- The temporaries of an operation: a directory is made under one, a file is replaced and
its replacement undone through one, and the others have none. -/
def Creates (operation : InitOperation) (name : Bytes) : Prop :=
  match operation.kind with
  | .createDirectory => ∃ named entropies,
      uniqueDirectoryTemp named (targetOf operation.path) entropies = .ok name
  | .replaceFile => ∃ named pid sequences,
      uniqueTemp named (targetOf operation.path) pid sequences = .ok name
  | .createFile | .removeFile => False

/-! The search for temporaries. -/

def stripPrefix (mark bytes : Bytes) : Option Bytes :=
  if mark <+: bytes then some (bytes.drop mark.length) else none

def stripSuffix (mark bytes : Bytes) : Option Bytes :=
  if mark <:+ bytes then some (bytes.take (bytes.length - mark.length)) else none

def isDigitByte (b : UInt8) : Bool := 0x30 ≤ b && b ≤ 0x39

def hyphen : UInt8 := 0x2d

def exactDirectoryTemporary (name : Bytes) (targets : List Text) : Bool :=
  targets.any fun target =>
    ((stripPrefix (directoryStem target).toBytes name).bind
      (stripSuffix tempEnding.toBytes)).any fun entropy =>
        entropy.length = 32 && entropy.all isHexByte

def exactFileTemporary (name : Bytes) (targets : List Text) : Bool :=
  targets.any fun target =>
    match (stripPrefix (fileStem target).toBytes name).bind (stripSuffix tempEnding.toBytes) with
    | none => false
    | some body =>
        match body.dropWhile (· ≠ hyphen) with
        | [] => false
        | _ :: sequence =>
            let pid := body.takeWhile (· ≠ hyphen)
            !pid.isEmpty && !sequence.isEmpty && pid.all isDigitByte && sequence.all isDigitByte

/-- The parents that are searched, with the directories and the files that may have
temporaries there. -/
def residueTargets : List (Text × List Text × List Text) :=
  [([], [".agents".toList], ["AGENTS.md".toList]),
    (".agents".toList, ["memory".toList], []),
    (memoryPath, ["pages".toList],
      ["project-context.md".toList, "SCHEMA.md".toList, "INDEX.md".toList]),
    (pagesPath, [], ["project-context.md".toList])]

structure ResidueFailure where
  failure : ApplyFailure
  path : Text
  deriving DecidableEq

/-- What the search finds out about a parent: the kind of its node, and its entries once it
has been opened. -/
structure ParentView where
  captured : Text → Except ApplyFailure NodeKind
  entries : Text → Except ApplyFailure (List Bytes)

def orResidueFailure {α : Type} (path : Text) (result : Except ApplyFailure α) :
    Except ResidueFailure α :=
  result.mapError fun failure => ⟨failure, path⟩

/-- The names in a parent; a missing one has none. -/
def parentEntries (view : ParentView) (parent : Text) : Except ResidueFailure (List Bytes) :=
  if parent = [] then orResidueFailure ".".toList (view.entries parent)
  else do
    let kind ← orResidueFailure parent (view.captured parent)
    if kind = .missing then return []
    else if kind ≠ .directory then
      .error ⟨⟨.usage, "temporary namespace parent is not a directory: ".toList ++ parent⟩, parent⟩
    else orResidueFailure parent (view.entries parent)

def residueText (parent : Text) (name : Bytes) : Text :=
  if parent = [] then toStringLossy name else parent ++ '/' :: toStringLossy name

def residuesIn (view : ParentView) (target : Text × List Text × List Text) :
    Except ResidueFailure (List Text) := do
  let names ← parentEntries view target.1
  return (names.filter fun name =>
    exactDirectoryTemporary name target.2.1 || exactFileTemporary name target.2.2).map
      (residueText target.1)

def directoryTemporaryResidues (view : ParentView) : Except ResidueFailure (List Text) := do
  let residues ← residueTargets.mapM (residuesIn view)
  return dedupSorted (residues.flatten.insertionSort fun first second =>
    Text.le first second = true)

/-! What the search reports. -/

theorem mem_dedupSorted {α : Type} [DecidableEq α] {a : α} {items : List α} :
    a ∈ dedupSorted items ↔ a ∈ items := by
  induction items with
  | nil => rfl
  | cons x rest ih =>
      cases rest with
      | nil => rfl
      | cons y rest =>
          rw [dedupSorted]
          split
          next heq =>
            rw [ih, heq, List.mem_cons, List.mem_cons, List.mem_cons]
            tauto
          · rw [List.mem_cons, ih, List.mem_cons, List.mem_cons, List.mem_cons]

/-- The search takes a name in a parent for a temporary. -/
def recognised (parent : Text) (name : Bytes) : Bool :=
  residueTargets.any fun target => target.1 = parent &&
    (exactDirectoryTemporary name target.2.1 || exactFileTemporary name target.2.2)

theorem mem_residues {view : ParentView} {residues : List Text}
    (h : directoryTemporaryResidues view = .ok residues) (text : Text) :
    text ∈ residues ↔ ∃ parent names name, parentEntries view parent = .ok names ∧
      name ∈ names ∧ recognised parent name = true ∧ text = residueText parent name := by
  obtain ⟨found, hfound, heq⟩ := except_bind_eq_ok.1 h
  obtain rfl := Except.ok.inj heq
  obtain ⟨-, hof, hevery⟩ := mapM_mem hfound
  rw [mem_dedupSorted, (List.perm_insertionSort _ _).mem_iff, List.mem_flatten]
  constructor
  · rintro ⟨result, hresult, htext⟩
    obtain ⟨target, htarget, hin⟩ := hof result hresult
    obtain ⟨names, hnames, heq⟩ := except_bind_eq_ok.1 hin
    obtain rfl := Except.ok.inj heq
    obtain ⟨name, hname, rfl⟩ := List.mem_map.1 htext
    obtain ⟨hmem, hexact⟩ := List.mem_filter.1 hname
    refine ⟨target.1, names, name, hnames, hmem, ?_, rfl⟩
    rw [recognised, List.any_eq_true]
    exact ⟨target, htarget, by simpa using hexact⟩
  · rintro ⟨parent, names, name, hnames, hmem, hrecognised, rfl⟩
    rw [recognised, List.any_eq_true] at hrecognised
    obtain ⟨target, htarget, hexact⟩ := hrecognised
    rw [Bool.and_eq_true, decide_eq_true_eq] at hexact
    obtain ⟨rfl, hexact⟩ := hexact
    obtain ⟨result, hresult, hin⟩ := hevery target htarget
    rw [residuesIn, hnames] at hin
    obtain rfl := Except.ok.inj hin
    exact ⟨_, hresult, List.mem_map_of_mem (List.mem_filter.2 ⟨hmem, hexact⟩)⟩

/-! The names that are generated. -/

theorem firstFree_mem {named : Bytes → Except Text Bool} {exhausted : Text} {name : Bytes}
    {candidates : List (Except Text Bytes)}
    (h : firstFree named exhausted candidates = .ok name) : .ok name ∈ candidates := by
  induction candidates with
  | nil => cases h
  | cons candidate rest ih =>
      cases candidate with
      | error error => cases h
      | ok first =>
          rw [firstFree] at h
          split at h
          · cases h
          · exact List.mem_cons_of_mem _ (ih h)
          · cases h
            exact List.mem_cons_self

theorem uniqueTemp_iff {target : Text} {name : Bytes} :
    (∃ named pid sequences, uniqueTemp named target pid sequences = .ok name) ↔
      ∃ pid sequence, name = fileTempName target pid sequence := by
  constructor
  · rintro ⟨named, pid, sequences, h⟩
    obtain ⟨index, -, heq⟩ := List.mem_map.1 (firstFree_mem h)
    exact ⟨pid, sequences index, (Except.ok.inj heq).symm⟩
  · rintro ⟨pid, sequence, rfl⟩
    exact ⟨fun _ => .ok false, pid, fun _ => sequence, rfl⟩

theorem uniqueDirectoryTemp_iff {target : Text} {name : Bytes} :
    (∃ named entropies, uniqueDirectoryTemp named target entropies = .ok name) ↔
      ∃ entropy, name = directoryTempName target entropy := by
  constructor
  · rintro ⟨named, entropies, h⟩
    obtain ⟨index, -, heq⟩ := List.mem_map.1 (firstFree_mem h)
    cases hentropy : entropies index with
    | error error =>
        rw [hentropy] at heq
        cases heq
    | ok entropy =>
        rw [hentropy] at heq
        exact ⟨entropy, (Except.ok.inj heq).symm⟩
  · rintro ⟨entropy, rfl⟩
    exact ⟨fun _ => .ok false, fun _ => .ok entropy, rfl⟩

/-! The names that are recognised. -/

theorem stripPrefix_eq_some {mark bytes rest : Bytes} :
    stripPrefix mark bytes = some rest ↔ bytes = mark ++ rest := by
  unfold stripPrefix
  constructor
  · intro h
    split at h
    next hmark =>
      obtain ⟨tail, rfl⟩ := hmark
      rw [List.drop_left] at h
      rw [Option.some.inj h]
    · cases h
  · rintro rfl
    rw [if_pos (List.prefix_append mark rest), List.drop_left]

theorem stripSuffix_eq_some {mark bytes rest : Bytes} :
    stripSuffix mark bytes = some rest ↔ bytes = rest ++ mark := by
  unfold stripSuffix
  constructor
  · intro h
    split at h
    next hmark =>
      obtain ⟨front, rfl⟩ := hmark
      rw [List.length_append, Nat.add_sub_cancel, List.take_left] at h
      rw [Option.some.inj h]
    · cases h
  · rintro rfl
    rw [if_pos (List.suffix_append rest mark), List.length_append, Nat.add_sub_cancel,
      List.take_left]

/-- What stands between the stem of a temporary and its ending. -/
theorem strip_eq_some {stem : Text} {name body : Bytes} :
    ((stripPrefix stem.toBytes name).bind (stripSuffix tempEnding.toBytes)) = some body ↔
      name = stem.toBytes ++ body ++ tempEnding.toBytes := by
  rw [Option.bind_eq_some_iff]
  constructor
  · rintro ⟨tail, htail, hbody⟩
    rw [stripPrefix_eq_some.1 htail, stripSuffix_eq_some.1 hbody, List.append_assoc]
  · rintro rfl
    exact ⟨body ++ tempEnding.toBytes, stripPrefix_eq_some.2 (List.append_assoc _ _ _),
      stripSuffix_eq_some.2 rfl⟩

/-- Thirty-two hexadecimal digits. -/
def IsEntropy (entropy : Bytes) : Prop := entropy.length = 32 ∧ entropy.all isHexByte = true

def IsNumeral (digits : Bytes) : Prop := digits ≠ [] ∧ digits.all isDigitByte = true

def directoryTemporary (target : Text) (entropy : Bytes) : Bytes :=
  (directoryStem target).toBytes ++ entropy ++ tempEnding.toBytes

def fileTemporary (target : Text) (pid sequence : Bytes) : Bytes :=
  (fileStem target).toBytes ++ (pid ++ hyphen :: sequence) ++ tempEnding.toBytes

theorem exactDirectoryTemporary_iff {name : Bytes} {targets : List Text} :
    exactDirectoryTemporary name targets = true ↔
      ∃ target ∈ targets, ∃ entropy, IsEntropy entropy ∧
        name = directoryTemporary target entropy := by
  rw [exactDirectoryTemporary, List.any_eq_true]
  refine exists_congr fun target => and_congr_right fun _ => ?_
  rw [Option.any_eq_true]
  refine exists_congr fun entropy => ?_
  rw [strip_eq_some, and_comm, Bool.and_eq_true, decide_eq_true_eq]
  rfl

/-- The first hyphen parts the two numerals. -/
theorem dropWhile_numeral {pid : Bytes} (hpid : pid.all isDigitByte = true) (rest : Bytes) :
    (pid ++ hyphen :: rest).takeWhile (· ≠ hyphen) = pid ∧
      (pid ++ hyphen :: rest).dropWhile (· ≠ hyphen) = hyphen :: rest := by
  have hne : ∀ b ∈ pid, decide (b ≠ hyphen) = true := by
    intro b hb
    apply decide_eq_true
    rintro rfl
    exact absurd (List.all_eq_true.1 hpid hyphen hb) (by decide)
  rw [List.takeWhile_append_of_pos hne, List.dropWhile_append_of_pos hne]
  simp

theorem exactFileTemporary_iff {name : Bytes} {targets : List Text} :
    exactFileTemporary name targets = true ↔
      ∃ target ∈ targets, ∃ pid sequence, IsNumeral pid ∧ IsNumeral sequence ∧
        name = fileTemporary target pid sequence := by
  rw [exactFileTemporary, List.any_eq_true]
  refine exists_congr fun target => and_congr_right fun _ => ?_
  constructor
  · intro h
    split at h
    · cases h
    next body hbody =>
      split at h
      · cases h
      next b sequence hrest =>
        simp only [Bool.and_eq_true, Bool.not_eq_true', List.isEmpty_eq_false_iff] at h
        have hb : b = hyphen := by
          have hhead := List.head?_dropWhile_not (fun c => decide (c ≠ hyphen)) body
          rw [hrest] at hhead
          simpa using hhead
        refine ⟨body.takeWhile (· ≠ hyphen), sequence, ⟨h.1.1.1, h.1.2⟩, ⟨h.1.1.2, h.2⟩, ?_⟩
        have hsplit := List.takeWhile_append_dropWhile (p := fun c => decide (c ≠ hyphen)) (l := body)
        rw [hrest, hb] at hsplit
        rw [fileTemporary, hsplit]
        exact strip_eq_some.1 hbody
  · rintro ⟨pid, sequence, hpid, hsequence, hname⟩
    rw [strip_eq_some.2 hname]
    obtain ⟨htake, hdrop⟩ := dropWhile_numeral hpid.2 sequence
    simp only [hdrop, htake, hpid.2, hsequence.2, List.isEmpty_eq_false_iff.2 hpid.1,
      List.isEmpty_eq_false_iff.2 hsequence.1]
    rfl

/-! The generated names in the grammar of the recognised ones. -/

theorem fileTempName_eq (target : Text) (pid : UInt32) (sequence : UInt64) :
    fileTempName target pid sequence =
      fileTemporary target (Text.ofNat pid.toNat).toBytes (Text.ofNat sequence.toNat).toBytes := by
  have hhyphen : Text.toBytes "-".toList = [hyphen] := by decide
  simp only [fileTempName, fileTemporary, Text.toBytes_append, hhyphen, List.append_assoc,
    List.cons_append, List.nil_append]

theorem toBytes_ascii {text : Text} (hascii : ∀ c ∈ text, c.toNat < 0x80) :
    text.toBytes = text.map fun c => UInt8.ofNat c.toNat := by
  induction text with
  | nil => rfl
  | cons c text ih =>
      rw [Text.toBytes_cons_ascii (hascii c List.mem_cons_self),
        ih fun d hd => hascii d (List.mem_cons_of_mem c hd), List.map_cons]

theorem isNumeral_ofNat (n : Nat) : IsNumeral (Text.ofNat n).toBytes := by
  have hdigit : ∀ c ∈ Text.ofNat n, 0x30 ≤ c.toNat ∧ c.toNat ≤ 0x39 := by
    intro c hc
    have hdecimal := Nat.isDigit_of_mem_toDigits (by decide) (by decide) hc
    rw [Char.isDigit_iff_toNat] at hdecimal
    exact hdecimal
  have hne : Text.ofNat n ≠ [] := Nat.toDigits_ne_nil
  rw [toBytes_ascii fun c hc => Nat.lt_of_le_of_lt (hdigit c hc).2 (by decide)]
  refine ⟨fun hnil => hne (List.map_eq_nil_iff.1 hnil), ?_⟩
  rw [List.all_map, List.all_eq_true]
  intro c hc
  have hbyte : ∀ n < 0x3a, 0x30 ≤ n → isDigitByte (UInt8.ofNat n) = true := by decide
  exact hbyte c.toNat (Nat.lt_succ_of_le (hdigit c hc).2) (hdigit c hc).1

/-- A hexadecimal digit, as a byte. -/
def hexDigit (n : Nat) : UInt8 := UInt8.ofNat (if n < 10 then 0x30 + n else 0x57 + n)

theorem isHexByte_iff {b : UInt8} : isHexByte b = true ↔ ∃ n < 16, b = hexDigit n := by
  constructor
  · intro h
    have hall : ∀ m < 256, isHexByte (UInt8.ofNat m) = true →
        ∃ n < 16, UInt8.ofNat m = hexDigit n := by decide +kernel
    have hb := hall b.toNat b.toNat_lt
    rw [UInt8.ofNat_toNat] at hb
    exact hb h
  · rintro ⟨n, hn, rfl⟩
    have hall : ∀ n < 16, isHexByte (hexDigit n) = true := by decide
    exact hall n hn

theorem hexByte_eq (b : UInt8) :
    hexByte b = [Nat.digitChar (b.toNat / 16), Nat.digitChar (b.toNat % 16)] := by
  have hb := b.toNat_lt
  unfold hexByte
  rcases Nat.lt_or_ge b.toNat 16 with hsmall | hlarge
  · rw [Nat.toDigits_of_lt_base hsmall, Nat.div_eq_of_lt hsmall, Nat.mod_eq_of_lt hsmall]
    rfl
  · rw [Nat.toDigits_of_base_le (by decide) hlarge, Nat.toDigits_of_lt_base (by omega)]
    rfl

theorem toBytes_hexByte (b : UInt8) :
    (hexByte b).toBytes = [hexDigit (b.toNat / 16), hexDigit (b.toNat % 16)] := by
  have hdigit : ∀ n < 16, String.utf8EncodeChar (Nat.digitChar n) = [hexDigit n] := by
    decide
  have hb := b.toNat_lt
  have hhigh := hdigit (b.toNat / 16) (by omega)
  have hlow := hdigit (b.toNat % 16) (Nat.mod_lt _ (by decide))
  rw [hexByte_eq, Text.toBytes, List.flatMap_cons, List.flatMap_cons, hhigh, hlow]
  rfl

theorem hex_of_bytes (bytes : Bytes) :
    (Text.toBytes (bytes.flatMap hexByte)).length = 2 * bytes.length ∧
      (Text.toBytes (bytes.flatMap hexByte)).all isHexByte = true := by
  induction bytes with
  | nil => exact ⟨rfl, rfl⟩
  | cons b bytes ih =>
      have hhigh : isHexByte (hexDigit (b.toNat / 16)) = true := by
        have hb := b.toNat_lt
        exact isHexByte_iff.2 ⟨_, by omega, rfl⟩
      have hlow : isHexByte (hexDigit (b.toNat % 16)) = true :=
        isHexByte_iff.2 ⟨_, Nat.mod_lt _ (by decide), rfl⟩
      rw [List.flatMap_cons, Text.toBytes_append, toBytes_hexByte]
      refine ⟨?_, ?_⟩
      · rw [List.length_append, ih.1, List.length_cons]
        simp only [List.length_cons, List.length_nil]
        omega
      · simp only [List.cons_append, List.nil_append, List.all_cons, hhigh, hlow, ih.2,
          Bool.and_self]

/-- Every even number of hexadecimal digits is the spelling of some bytes. -/
theorem bytes_of_hex {n : Nat} : ∀ {digits : Bytes}, digits.length = 2 * n →
    digits.all isHexByte = true →
    ∃ bytes : Bytes, bytes.length = n ∧ digits = Text.toBytes (bytes.flatMap hexByte) := by
  induction n with
  | zero =>
      intro digits hlength _
      exact ⟨[], rfl, List.length_eq_zero_iff.1 hlength⟩
  | succ n ih =>
      intro digits hlength hall
      match digits with
      | [] => simp at hlength
      | [x] =>
          rw [List.length_singleton] at hlength
          omega
      | x :: y :: rest =>
          simp only [List.all_cons, Bool.and_eq_true] at hall
          obtain ⟨high, hhigh, rfl⟩ := isHexByte_iff.1 hall.1
          obtain ⟨low, hlow, rfl⟩ := isHexByte_iff.1 hall.2.1
          simp only [List.length_cons] at hlength
          obtain ⟨bytes, hbytes, rfl⟩ := ih (by omega) hall.2.2
          have hnat : (UInt8.ofNat (16 * high + low)).toNat = 16 * high + low := by
            rw [UInt8.toNat_ofNat', Nat.mod_eq_of_lt (by omega)]
          refine ⟨UInt8.ofNat (16 * high + low) :: bytes, by rw [List.length_cons, hbytes], ?_⟩
          rw [List.flatMap_cons, Text.toBytes_append, toBytes_hexByte, hnat,
            show (16 * high + low) / 16 = high by omega,
            show (16 * high + low) % 16 = low by omega]
          rfl

theorem isEntropy_iff {digits : Bytes} :
    IsEntropy digits ↔ ∃ entropy : Entropy, digits = Text.toBytes (entropy.1.flatMap hexByte) := by
  constructor
  · rintro ⟨hlength, hall⟩
    obtain ⟨bytes, hbytes, hdigits⟩ := bytes_of_hex (n := 16) hlength hall
    exact ⟨⟨bytes, hbytes⟩, hdigits⟩
  · rintro ⟨⟨bytes, hbytes⟩, rfl⟩
    obtain ⟨hlength, hall⟩ := hex_of_bytes bytes
    exact ⟨by rw [hlength, hbytes], hall⟩

theorem directoryTempName_eq (target : Text) (entropy : Entropy) :
    directoryTempName target entropy =
      directoryTemporary target (Text.toBytes (entropy.1.flatMap hexByte)) := by
  simp only [directoryTempName, directoryTemporary, Text.toBytes_append]

/-! The targets of the operations, with their parents. -/

/-- The directories that are made, and looked for. -/
def createdTargets : List (Text × Text) :=
  [([], ".agents".toList), (".agents".toList, "memory".toList), (memoryPath, "pages".toList)]

/-- The files whose temporaries are looked for. -/
def searchedFiles : List (Text × Text) :=
  [([], "AGENTS.md".toList), (memoryPath, "project-context.md".toList),
    (memoryPath, "SCHEMA.md".toList), (memoryPath, "INDEX.md".toList),
    (pagesPath, "project-context.md".toList)]

def ignoreTarget : Text × Text := (memoryPath, ".gitignore".toList)

theorem recognised_iff {parent : Text} {name : Bytes} :
    recognised parent name = true ↔
      (∃ target, (parent, target) ∈ createdTargets ∧ ∃ entropy, IsEntropy entropy ∧
        name = directoryTemporary target entropy) ∨
      ∃ target, (parent, target) ∈ searchedFiles ∧ ∃ pid sequence, IsNumeral pid ∧
        IsNumeral sequence ∧ name = fileTemporary target pid sequence := by
  have hcreated : createdTargets =
      residueTargets.flatMap fun entry => entry.2.1.map (entry.1, ·) := rfl
  have hsearched : searchedFiles =
      residueTargets.flatMap fun entry => entry.2.2.map (entry.1, ·) := rfl
  rw [recognised, List.any_eq_true, hcreated, hsearched]
  simp only [Bool.and_eq_true, Bool.or_eq_true, decide_eq_true_eq,
    exactDirectoryTemporary_iff, exactFileTemporary_iff, List.mem_flatMap, List.mem_map,
    Prod.mk.injEq]
  constructor
  · rintro ⟨entry, hentry, rfl, ⟨target, htarget, h⟩ | ⟨target, htarget, h⟩⟩
    · exact .inl ⟨target, ⟨entry, hentry, target, htarget, rfl, rfl⟩, h⟩
    · exact .inr ⟨target, ⟨entry, hentry, target, htarget, rfl, rfl⟩, h⟩
  · rintro (⟨target, ⟨entry, hentry, _, htarget, rfl, rfl⟩, h⟩ |
      ⟨target, ⟨entry, hentry, _, htarget, rfl, rfl⟩, h⟩)
    · exact ⟨entry, hentry, rfl, .inl ⟨_, htarget, h⟩⟩
    · exact ⟨entry, hentry, rfl, .inr ⟨_, htarget, h⟩⟩

theorem operates_created {operation : InitOperation} {mode : InitMode}
    (h : Operates operation mode) (hkind : operation.kind = .createDirectory) :
    (parentOf operation.path, targetOf operation.path) ∈ createdTargets := by
  have hdirectory := h.directory hkind
  simp only [directoryPath, Bool.or_eq_true, decide_eq_true_eq] at hdirectory
  rcases hdirectory with (hpath | hpath) | hpath <;> rw [hpath] <;> decide

theorem operates_replaced {operation : InitOperation} {mode : InitMode}
    (h : Operates operation mode) (hkind : operation.kind = .replaceFile) :
    (parentOf operation.path, targetOf operation.path) ∈ ignoreTarget :: searchedFiles := by
  have hfile := h.file hkind
  have hpath : operation.path ∈ [agentsPath, ".agents".toList, memoryPath, gitignorePath,
      flatPagePath, schemaPath, indexPath, pagesPath, contextPath] := by
    have howned := h.owned
    simp only [mutableOperationPath, Bool.or_eq_true, Bool.and_eq_true, decide_eq_true_eq,
      List.contains_iff_mem, List.mem_cons, List.not_mem_nil, or_false] at howned ⊢
    rcases howned with (((hown | hown | hown) | hown) | ⟨-, hown⟩) |
        ⟨-, hown | hown | hown | hown | hown⟩
    all_goals simp only [hown, true_or, or_true]
  have hall : [agentsPath, ".agents".toList, memoryPath, gitignorePath, flatPagePath,
      schemaPath, indexPath, pagesPath, contextPath].all (fun path => directoryPath path ||
        decide ((parentOf path, targetOf path) ∈ ignoreTarget :: searchedFiles)) = true := by
    decide
  have htarget := List.all_eq_true.1 hall operation.path hpath
  rw [hfile, Bool.false_or] at htarget
  exact of_decide_eq_true htarget

theorem creates_directory {operation : InitOperation} {name : Bytes}
    (hkind : operation.kind = .createDirectory) : Creates operation name ↔
      ∃ entropy, name = directoryTempName (targetOf operation.path) entropy := by
  rw [Creates, hkind]
  exact uniqueDirectoryTemp_iff

theorem creates_file {operation : InitOperation} {name : Bytes}
    (hkind : operation.kind = .replaceFile) : Creates operation name ↔
      ∃ pid sequence, name = fileTempName (targetOf operation.path) pid sequence := by
  rw [Creates, hkind]
  exact uniqueTemp_iff

/-! No name is one of two targets. -/

/-- How the temporaries of a parent begin. -/
def stems : List (Text × Text) :=
  createdTargets.map (fun target => (target.1, directoryStem target.2)) ++
    (ignoreTarget :: searchedFiles).map fun target => (target.1, fileStem target.2)

theorem stem_unique {parent first second : Text} (hfirst : (parent, first) ∈ stems)
    (hsecond : (parent, second) ∈ stems) {x y : Bytes}
    (heq : first.toBytes ++ x = second.toBytes ++ y) : first = second := by
  have hall : stems.all (fun a => stems.all fun b => a.1 ≠ b.1 || a.2 = b.2 ||
      !(a.2.toBytes.isPrefixOf b.2.toBytes || b.2.toBytes.isPrefixOf a.2.toBytes)) = true := by
    decide
  have hpair := List.all_eq_true.1 (List.all_eq_true.1 hall _ hfirst) _ hsecond
  have hnested : first.toBytes <+: second.toBytes ∨ second.toBytes <+: first.toBytes :=
    List.prefix_or_prefix_of_prefix (List.prefix_append _ x) (heq ▸ List.prefix_append _ y)
  rw [← List.isPrefixOf_iff_prefix, ← List.isPrefixOf_iff_prefix, ← Bool.or_eq_true] at hnested
  simp only [hnested, ne_eq, not_true_eq_false, decide_false, Bool.false_or, Bool.not_true,
    Bool.or_false, decide_eq_true_eq] at hpair
  exact hpair

theorem mem_stems_directory {parent target : Text} (h : (parent, target) ∈ createdTargets) :
    (parent, directoryStem target) ∈ stems :=
  List.mem_append_left _ (List.mem_map_of_mem (f := fun target => (target.1, directoryStem target.2)) h)

theorem mem_stems_file {parent target : Text}
    (h : (parent, target) ∈ ignoreTarget :: searchedFiles) :
    (parent, fileStem target) ∈ stems :=
  List.mem_append_right _ (List.mem_map_of_mem (f := fun target => (target.1, fileStem target.2)) h)

theorem directory_ne_file {parent target other : Text}
    (htarget : (parent, target) ∈ createdTargets)
    (hother : (parent, other) ∈ ignoreTarget :: searchedFiles) (entropy pid sequence : Bytes) :
    directoryTemporary target entropy ≠ fileTemporary other pid sequence := by
  intro heq
  simp only [directoryTemporary, fileTemporary, List.append_assoc] at heq
  have hstem := stem_unique (mem_stems_directory htarget) (mem_stems_file hother) heq
  have hall : createdTargets.all (fun target => (ignoreTarget :: searchedFiles).all fun other =>
      directoryStem target.2 ≠ fileStem other.2) = true := by decide
  have hne := List.all_eq_true.1 (List.all_eq_true.1 hall _ htarget) _ hother
  exact of_decide_eq_true hne hstem

theorem fileTemporary_unique {parent target other : Text}
    (htarget : (parent, target) ∈ ignoreTarget :: searchedFiles)
    (hother : (parent, other) ∈ ignoreTarget :: searchedFiles)
    {pid sequence pid' sequence' : Bytes} (hpid : IsNumeral pid) (hpid' : IsNumeral pid')
    (heq : fileTemporary target pid sequence = fileTemporary other pid' sequence') :
    target = other ∧ pid = pid' ∧ sequence = sequence' := by
  simp only [fileTemporary, List.append_assoc] at heq
  have hstem := stem_unique (mem_stems_file htarget) (mem_stems_file hother) heq
  have htargets : target = other :=
    List.append_cancel_left (List.append_cancel_right hstem)
  subst htargets
  have hbody : pid ++ hyphen :: sequence = pid' ++ hyphen :: sequence' := by
    have hrest := List.append_cancel_left heq
    rw [← List.append_assoc, ← List.append_assoc] at hrest
    exact List.append_cancel_right hrest
  obtain ⟨htake, hdrop⟩ := dropWhile_numeral hpid.2 sequence
  obtain ⟨htake', hdrop'⟩ := dropWhile_numeral hpid'.2 sequence'
  rw [hbody] at htake hdrop
  exact ⟨rfl, htake.symm.trans htake', (List.cons.inj (hdrop.symm.trans hdrop')).2⟩

/-- The search does what it is for: the name is no temporary of the ignore file, and if it is
made like one of another file, its numbers are those of a process and of a counter. -/
structure Expected (parent : Text) (name : Bytes) : Prop where
  ignored : parent = memoryPath → ∀ pid sequence,
    name ≠ fileTempName ".gitignore".toList pid sequence
  printed : ∀ target pid sequence, (parent, target) ∈ searchedFiles → IsNumeral pid →
    IsNumeral sequence → name = fileTemporary target pid sequence →
    ∃ process counter, name = fileTempName target process counter

section Manifests

variable [Wiki.Unicode] (D : Type) [Sha256 D]
variable (canonicalManifestBytes : InitManifest → Except Text Bytes)

/-- Applying some manifest that passes its checks can create the name in the parent. -/
def Temporary (parent : Text) (name : Bytes) : Prop :=
  ∃ envelope, validateManifest D canonicalManifestBytes envelope = .ok () ∧
    ∃ operation ∈ envelope.manifest.operations,
      parentOf operation.path = parent ∧ Creates operation name

/-- What the digests, the JSON writer and the character tables are relied on for: digests
are 64 hexadecimal digits, every manifest has a JSON text, and the ten digits are decimal
numbers. -/
structure Lawful : Prop where
  digest : ∀ bytes, isDigest (sha256 D bytes) = true
  json : ∀ manifest, ∃ bytes, canonicalManifestBytes manifest = .ok bytes
  digits : ∀ c : Char, '0' ≤ c → c ≤ '9' → Wiki.Unicode.generalCategory c = .decimalNumber

variable {D canonicalManifestBytes}

/-- Every directory of the layout is made by some operation. -/
theorem exists_creation {target : Text × Text} (h : target ∈ createdTargets) :
    ∃ operation mode, validateOperation D operation mode = .ok () ∧
      operation.kind = .createDirectory ∧
      (parentOf operation.path, targetOf operation.path) = target := by
  have hall : createdTargets.all (fun target =>
      [".agents".toList, memoryPath, pagesPath].any fun path =>
        (parentOf path, targetOf path) = target && validateRelativePath path = .ok () &&
          mutableOperationPath path .full && directoryPath path) = true := by decide
  obtain ⟨path, -, hpath⟩ := List.any_eq_true.1 (List.all_eq_true.1 hall target h)
  simp only [Bool.and_eq_true, decide_eq_true_eq] at hpath
  exact ⟨creation path, .full, validateOperation_creation hpath.1.1.2 hpath.1.2 hpath.2, rfl,
    hpath.1.1.1⟩

/-- The content that passes the check of a path. -/
def acceptedContent (path : Text) : Text :=
  if path = agentsPath then agentPolicy
  else if path = schemaPath then schema
  else if path = gitignorePath then memoryGitignore
  else if path = flatPagePath ∨ path = contextPath then projectPage
  else []

theorem acceptedContent_accepted (hlawful : Lawful D canonicalManifestBytes) (path : Text) :
    validateOperationContent (replacement D path (acceptedContent path)) = .ok () := by
  change (if path = agentsPath then
      let policy := inspectPolicy (acceptedContent path)
      refuse (policy.headingCount ≠ 1 ∨ policy.exact = false)
        "planned AGENTS.md does not contain the canonical policy".toList
    else if path = schemaPath ∧ acceptedContent path ≠ schema then
      .error "planned SCHEMA.md differs from the embedded asset".toList
    else if path = gitignorePath ∧ acceptedContent path ≠ memoryGitignore then
      .error "planned memory gitignore differs from the embedded asset".toList
    else if path = flatPagePath ∨ path = contextPath then
      validateProjectPage (acceptedContent path)
    else .ok ()) = .ok ()
  by_cases hagents : path = agentsPath
  · have hcontent : acceptedContent path = agentPolicy := if_pos hagents
    rw [if_pos hagents, hcontent, inspectPolicy_agentPolicy]
    exact refuse_eq_ok.2 (by decide)
  have hschema : ¬ (path = schemaPath ∧ acceptedContent path ≠ schema) := by
    rintro ⟨hpath, hne⟩
    exact hne ((if_neg hagents).trans (if_pos hpath))
  have hignore : ¬ (path = gitignorePath ∧ acceptedContent path ≠ memoryGitignore) := by
    rintro ⟨hpath, hne⟩
    have hother : path ≠ schemaPath := by
      rw [hpath]
      decide
    exact hne ((if_neg hagents).trans ((if_neg hother).trans (if_pos hpath)))
  rw [if_neg hagents, if_neg hschema, if_neg hignore]
  split
  next hpage =>
    have hothers : path ≠ schemaPath ∧ path ≠ gitignorePath := by
      rcases hpage with rfl | rfl <;> decide
    have hcontent : acceptedContent path = projectPage :=
      (if_neg hagents).trans ((if_neg hothers.1).trans ((if_neg hothers.2).trans (if_pos hpage)))
    rw [hcontent]
    exact validateProjectPage_ok hlawful.digits
  · rfl

omit [Wiki.Unicode] [Sha256 D] in
theorem length_memoryGitignore : memoryGitignore.length ≤ 1000 := by
  unfold memoryGitignore
  rw [String.toList_append]
  repeat rw [String.toList_ofList]
  decide

omit [Wiki.Unicode] [Sha256 D] in
theorem length_projectPage : projectPage.length ≤ 1000 := by
  unfold projectPage
  repeat rw [String.toList_ofList]
  decide +kernel

omit [Wiki.Unicode] in
theorem acceptedContent_short (path : Text) :
    (acceptedContent path).byteLength ≤ Traversal.maxFileBytes.toNat := by
  have hbound : Traversal.maxFileBytes.toNat = 1048576 := by decide
  rw [hbound]
  unfold acceptedContent
  split
  · have hlength := byteLength_le agentPolicy
    have hpolicy := length_agentPolicy
    omega
  split
  · have hlength := byteLength_le schema
    have hschema := length_schema
    omega
  split
  · have hlength := byteLength_le memoryGitignore
    have hignore := length_memoryGitignore
    omega
  split
  · have hlength := byteLength_le projectPage
    have hpage := length_projectPage
    omega
  · decide

/-- Every file of the layout is replaced by some operation. -/
theorem exists_replacement (hlawful : Lawful D canonicalManifestBytes) {target : Text × Text}
    (h : target ∈ ignoreTarget :: searchedFiles) :
    ∃ operation mode, validateOperation D operation mode = .ok () ∧
      operation.kind = .replaceFile ∧
      (parentOf operation.path, targetOf operation.path) = target := by
  have hall : (ignoreTarget :: searchedFiles).all (fun target =>
      [agentsPath, gitignorePath, flatPagePath, schemaPath, indexPath, contextPath].any fun path =>
        (parentOf path, targetOf path) = target && validateRelativePath path = .ok () &&
          mutableOperationPath path .full && !directoryPath path) = true := by decide +kernel
  obtain ⟨path, -, hpath⟩ := List.any_eq_true.1 (List.all_eq_true.1 hall target h)
  simp only [Bool.and_eq_true, decide_eq_true_eq, Bool.not_eq_true'] at hpath
  exact ⟨replacement D path (acceptedContent path), .full,
    validateOperation_replacement hlawful.digest hpath.1.1.2 hpath.1.2 hpath.2
      (acceptedContent_short path) (acceptedContent_accepted hlawful path), rfl, hpath.1.1.1⟩

/-- The temporaries in a parent. -/
theorem temporary_iff (hlawful : Lawful D canonicalManifestBytes) {parent : Text}
    {name : Bytes} : Temporary D canonicalManifestBytes parent name ↔
      (∃ target, (parent, target) ∈ createdTargets ∧ ∃ entropy,
        name = directoryTempName target entropy) ∨
      ∃ target, (parent, target) ∈ ignoreTarget :: searchedFiles ∧ ∃ pid sequence,
        name = fileTempName target pid sequence := by
  constructor
  · rintro ⟨envelope, hvalid, operation, hmem, rfl, hcreates⟩
    have hoperates := operates_of_validateOperation
      (validateManifest_each canonicalManifestBytes hvalid operation hmem)
    cases hkind : operation.kind with
    | createDirectory =>
        exact .inl ⟨_, operates_created hoperates hkind, (creates_directory hkind).1 hcreates⟩
    | replaceFile =>
        exact .inr ⟨_, operates_replaced hoperates hkind, (creates_file hkind).1 hcreates⟩
    | createFile | removeFile =>
        rw [Creates, hkind] at hcreates
        exact hcreates.elim
  · rintro (⟨target, htarget, hname⟩ | ⟨target, htarget, hname⟩)
    · obtain ⟨operation, mode, hvalid, hkind, hpair⟩ := exists_creation (D := D) htarget
      obtain ⟨hparent, rfl⟩ := Prod.mk.injEq .. ▸ hpair
      obtain ⟨envelope, henvelope, hmem⟩ :=
        validateManifest_single canonicalManifestBytes hlawful.digest hlawful.json hvalid
      exact ⟨envelope, henvelope, operation, hmem, hparent, (creates_directory hkind).2 hname⟩
    · obtain ⟨operation, mode, hvalid, hkind, hpair⟩ := exists_replacement hlawful htarget
      obtain ⟨hparent, rfl⟩ := Prod.mk.injEq .. ▸ hpair
      obtain ⟨envelope, henvelope, hmem⟩ :=
        validateManifest_single canonicalManifestBytes hlawful.digest hlawful.json hvalid
      exact ⟨envelope, henvelope, operation, hmem, hparent, (creates_file hkind).2 hname⟩

/-- A name is reported exactly if applying some manifest can create it, in all cases but
two: the search does not know the temporaries of the ignore file, and it takes numbers that
are never printed so. -/
theorem recognised_iff_temporary (hlawful : Lawful D canonicalManifestBytes) (parent : Text)
    (name : Bytes) :
    (recognised parent name = true ↔ Temporary D canonicalManifestBytes parent name) ↔
      Expected parent name := by
  rw [recognised_iff, temporary_iff hlawful]
  constructor
  · intro hiff
    refine ⟨?_, ?_⟩
    · rintro rfl pid sequence rfl
      have hignore : (memoryPath, ".gitignore".toList) ∈ ignoreTarget :: searchedFiles :=
        List.mem_cons_self
      rcases hiff.2 (.inr ⟨_, hignore, pid, sequence, rfl⟩) with
        ⟨target, htarget, entropy, -, hname⟩ | ⟨target, htarget, p, s, hp, -, hname⟩
      · rw [fileTempName_eq] at hname
        exact directory_ne_file htarget hignore _ _ _ hname.symm
      · rw [fileTempName_eq] at hname
        obtain ⟨rfl, -⟩ := fileTemporary_unique hignore (List.mem_cons_of_mem _ htarget)
          (isNumeral_ofNat _) hp hname
        exact absurd htarget (by decide)
    · intro target pid sequence htarget hpid hsequence hname
      have hfile := List.mem_cons_of_mem ignoreTarget htarget
      rcases hiff.1 (.inr ⟨target, htarget, pid, sequence, hpid, hsequence, hname⟩) with
        ⟨other, hother, entropy, hcreated⟩ | ⟨other, hother, process, counter, hcreated⟩
      · rw [directoryTempName_eq, hname] at hcreated
        exact absurd hcreated.symm (directory_ne_file hother hfile _ _ _)
      · refine ⟨process, counter, ?_⟩
        have heq := hcreated
        rw [fileTempName_eq, hname] at heq
        obtain ⟨rfl, -⟩ := fileTemporary_unique hfile hother hpid (isNumeral_ofNat _) heq
        exact hcreated
  · intro hexpected
    refine or_congr (exists_congr fun target => and_congr_right fun _ => ?_) ?_
    · constructor
      · rintro ⟨entropy, hentropy, rfl⟩
        obtain ⟨bytes, rfl⟩ := isEntropy_iff.1 hentropy
        exact ⟨bytes, (directoryTempName_eq target bytes).symm⟩
      · rintro ⟨bytes, rfl⟩
        exact ⟨_, isEntropy_iff.2 ⟨bytes, rfl⟩, directoryTempName_eq target bytes⟩
    · constructor
      · rintro ⟨target, htarget, pid, sequence, hpid, hsequence, hname⟩
        exact ⟨target, List.mem_cons_of_mem _ htarget,
          hexpected.printed target pid sequence htarget hpid hsequence hname⟩
      · rintro ⟨target, htarget, pid, sequence, hname⟩
        rcases List.mem_cons.1 htarget with hignore | htarget
        · obtain ⟨hparent, htarget⟩ := Prod.mk.injEq .. ▸ hignore
          exact absurd (htarget ▸ hname) (hexpected.ignored hparent pid sequence)
        · exact ⟨target, htarget, _, _, isNumeral_ofNat _, isNumeral_ofNat _,
            hname.trans (fileTempName_eq target pid sequence)⟩

/-- What a search that succeeds reports, and which names that are. -/
theorem residues_iff_temporary (hlawful : Lawful D canonicalManifestBytes) :
    (∀ view residues, directoryTemporaryResidues view = .ok residues → ∀ text,
      text ∈ residues ↔ ∃ parent names name, parentEntries view parent = .ok names ∧
        name ∈ names ∧ recognised parent name = true ∧ text = residueText parent name) ∧
    ∀ parent name, ((recognised parent name = true ↔
      Temporary D canonicalManifestBytes parent name) ↔ Expected parent name) :=
  ⟨fun _ _ h => mem_residues h, recognised_iff_temporary hlawful⟩

end Manifests

namespace ResidueSample

local instance : Wiki.Unicode := Wiki.Unicode.ascii

/-- One digest for everything. -/
local instance : Sha256 Unit := ⟨fun _ => (), fun _ => List.replicate 64 '0'⟩

def json : InitManifest → Except Text Bytes := fun _ => .ok []

theorem lawful : Lawful Unit json where
  digest _ := of_decide_eq_true (rfl : decide (isDigest (List.replicate 64 '0') = true) = true)
  json _ := ⟨[], rfl⟩
  digits _ hlow hhigh := if_pos ⟨hlow, hhigh⟩

/-- A temporary of the ignore file, in process 7. -/
def leftover : Bytes := fileTempName ".gitignore".toList 7 0

/-- A repository whose memory has that temporary, and one of the index. -/
def view (name : Bytes) : ParentView where
  captured path := .ok (if path = pagesPath then .missing else .directory)
  entries path := .ok (if path = memoryPath then [Text.toBytes "INDEX.md".toList, name] else [])

/-- An update of the ignore file that was cut off leaves a name that the search misses. -/
theorem leftover_not_reported :
    ¬ ∀ view residues parent names name, directoryTemporaryResidues view = .ok residues →
      parentEntries view parent = .ok names → name ∈ names →
      Temporary Unit json parent name → residueText parent name ∈ residues := by
  intro hclaim
  have hnone : directoryTemporaryResidues (view leftover) = .ok [] := by decide
  have htemporary : Temporary Unit json memoryPath leftover :=
    (temporary_iff lawful).2 (.inr ⟨".gitignore".toList, List.mem_cons_self, 7, 0, rfl⟩)
  have hreported := hclaim (view leftover) [] memoryPath
    [Text.toBytes "INDEX.md".toList, leftover] leftover hnone rfl (by simp) htemporary
  cases hreported

def indexTemporary : Bytes := fileTempName "INDEX.md".toList 7 0

theorem expected_index : Expected memoryPath indexTemporary := by
  have hindex : (memoryPath, "INDEX.md".toList) ∈ ignoreTarget :: searchedFiles := by
    decide
  refine ⟨?_, ?_⟩
  · intro _ pid sequence heq
    rw [indexTemporary, fileTempName_eq, fileTempName_eq] at heq
    have hsame := (fileTemporary_unique hindex List.mem_cons_self (isNumeral_ofNat _)
      (isNumeral_ofNat _) heq).1
    exact absurd hsame (by decide)
  · intro target pid sequence htarget hpid _ heq
    rw [indexTemporary, fileTempName_eq] at heq
    obtain ⟨rfl, -⟩ := fileTemporary_unique hindex (List.mem_cons_of_mem _ htarget)
      (isNumeral_ofNat _) hpid heq
    exact ⟨7, 0, rfl⟩

/-- A temporary of the index is reported, and can be created. -/
theorem residues_iff_temporary_index :
    ∃ residues, directoryTemporaryResidues (view indexTemporary) = .ok residues ∧
      residueText memoryPath indexTemporary ∈ residues ∧
      Temporary Unit json memoryPath indexTemporary := by
  have hlaws := residues_iff_temporary lawful
  have hrecognised : recognised memoryPath indexTemporary = true := by decide
  have hresidues : directoryTemporaryResidues (view indexTemporary) =
      .ok [".agents/memory/.INDEX.md.yams-apply-7-0.tmp".toList] := by decide +kernel
  refine ⟨_, hresidues, ?_, ((hlaws.2 _ _).2 expected_index).1 hrecognised⟩
  exact (hlaws.1 _ _ hresidues _).2 ⟨memoryPath, _, indexTemporary, rfl,
    List.mem_cons_of_mem _ List.mem_cons_self, hrecognised, rfl⟩

end ResidueSample

end Yams.Init.Apply
