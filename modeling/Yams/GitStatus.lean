/-
The output of `git status --porcelain=v1 -z`.  A record is two status letters, a
blank and a path, and a rename or a copy has a second path; each path ends with NUL.
-/
import Std.Data.ExtTreeSet.Lemmas
import Yams.InitCandidate
import Yams.Program

namespace Yams.Init

open Wiki

structure InitConflict where
  path : Text
  code : Text
  detail : Text
  deriving DecidableEq

/-- `InitError::Git`. -/
structure GitError where
  message : Text
  deriving DecidableEq

def invalidGitData : GitError := ⟨"git status returned invalid data".toList⟩

def runtimeLockPath : Text := ".agents/memory/.write.lock".toList

def nonUtf8GitPath (bytes : Bytes) : InitConflict where
  path := ".agents/memory".toList
  code := "non-utf8-git-status-path".toList
  detail := "git status reported a non-UTF-8 path under the managed memory tree ".toList ++
    "(lossy: ".toList ++ toStringLossy bytes ++ ").".toList

abbrev PathSet := Std.ExtTreeSet Text

/-- The paths and the conflicts of the records so far. -/
structure GitScan where
  paths : PathSet
  conflicts : List InitConflict

def insertGitPath (scan : GitScan) (bytes : Bytes) : Except GitError GitScan :=
  if bytes = [] ∨ 0 ∈ bytes then .error invalidGitData
  else
    match Text.fromUtf8 bytes with
    | some path => .ok { scan with paths := scan.paths.insert path }
    | none => .ok { scan with conflicts := scan.conflicts ++ [nonUtf8GitPath bytes] }

def statusLetters : Bytes := " MTADRCU?!".toList.map fun c => c.toNat.toUInt8

def validPorcelainStatus (byte : UInt8) : Bool := statusLetters.contains byte

/-- The letters of a rename and of a copy. -/
def namesOrigin (byte : UInt8) : Bool := byte = 0x52 ∨ byte = 0x43

def nulField (output : Bytes) : Except GitError (Bytes × Bytes) :=
  match splitOnceAt [0] output with
  | some parts => .ok parts
  | none => .error invalidGitData

theorem nulField_length {output field rest : Bytes} (h : nulField output = .ok (field, rest)) :
    rest.length < output.length := by
  unfold nulField at h
  split at h
  next parts hparts =>
    obtain rfl := Except.ok.inj h
    rw [splitOnceAt_eq_some hparts]
    simp only [List.length_append, List.length_singleton]
    omega
  next => cases h

/-- The letters and the path of a record. -/
def statusFields (field : Bytes) : Except GitError (UInt8 × UInt8 × Bytes) :=
  match field with
  | staged :: worktree :: blank :: byte :: path =>
      if blank = 0x20 ∧ validPorcelainStatus staged ∧ validPorcelainStatus worktree then
        .ok (staged, worktree, byte :: path)
      else .error invalidGitData
  | _ => .error invalidGitData

/-- The records from the cursor on. -/
def gitRecords (scan : GitScan) (output : Bytes) : Except GitError GitScan :=
  if output = [] then .ok scan
  else
    match _hfield : nulField output with
    | .error error => .error error
    | .ok (field, rest) => do
        let (staged, worktree, path) ← statusFields field
        let scan ← insertGitPath scan path
        if namesOrigin staged ∨ namesOrigin worktree then
          match _horigin : nulField rest with
          | .error error => .error error
          | .ok (origin, more) => do
              let scan ← insertGitPath scan origin
              gitRecords scan more
        else gitRecords scan rest
  termination_by output.length
  decreasing_by
    · exact (nulField_length _horigin).trans (nulField_length _hfield)
    · exact nulField_length _hfield

/-- The paths in order, and the conflicts. -/
def parseGitStatus (output : Bytes) (conflicts : List InitConflict) :
    Except GitError (List Text × List InitConflict) := do
  let scan ← gitRecords ⟨∅, conflicts⟩ output
  return ((scan.paths.erase runtimeLockPath).toList, scan.conflicts)

section Records

/-- What a record can name: bytes, at least one, none of which is NUL. -/
def IsGitPath (bytes : Bytes) : Prop := bytes ≠ [] ∧ 0 ∉ bytes

/-- A well-formed record. -/
structure GitRecord where
  staged : UInt8
  worktree : UInt8
  path : Bytes
  origin : Option Bytes
  staged_valid : validPorcelainStatus staged = true
  worktree_valid : validPorcelainStatus worktree = true
  isPath : IsGitPath path
  origin_isPath : ∀ bytes ∈ origin, IsGitPath bytes
  origin_isSome : origin.isSome = true ↔ namesOrigin staged = true ∨ namesOrigin worktree = true

namespace GitRecord

variable (record : GitRecord)

/-- The record as git writes it. -/
def encode : Bytes :=
  [record.staged, record.worktree, 0x20] ++ record.path ++ [0] ++
    record.origin.elim [] (· ++ [0])

/-- The paths that the record mentions. -/
def mentions : List Bytes := record.path :: record.origin.toList

end GitRecord

/-- The scan after paths have been mentioned. -/
def GitScan.mention (scan : GitScan) (paths : List Bytes) : GitScan where
  paths := (paths.filterMap Text.fromUtf8).foldl (fun set path => set.insert path) scan.paths
  conflicts := scan.conflicts ++
    (paths.filter fun bytes => (Text.fromUtf8 bytes).isNone).map nonUtf8GitPath

theorem GitScan.mention_append (scan : GitScan) (first second : List Bytes) :
    scan.mention (first ++ second) = (scan.mention first).mention second := by
  simp [GitScan.mention, List.filterMap_append, List.foldl_append]

theorem insertGitPath_of_isGitPath {bytes : Bytes} (h : IsGitPath bytes) (scan : GitScan) :
    insertGitPath scan bytes = .ok (scan.mention [bytes]) := by
  have hnot : ¬ (bytes = [] ∨ 0 ∈ bytes) := not_or.2 h
  rw [insertGitPath, if_neg hnot]
  cases hpath : Text.fromUtf8 bytes with
  | none => simp [GitScan.mention, hpath]
  | some path => simp [GitScan.mention, hpath]

theorem isGitPath_of_insertGitPath {bytes : Bytes} {scan next : GitScan}
    (h : insertGitPath scan bytes = .ok next) : IsGitPath bytes := by
  unfold insertGitPath at h
  split at h
  · cases h
  next hnot => exact not_or.1 hnot

theorem nulField_append {field : Bytes} (h : 0 ∉ field) (rest : Bytes) :
    nulField (field ++ [0] ++ rest) = .ok (field, rest) := by
  have hsplit : splitOnceAt [0] (field ++ [0] ++ rest) = some (field, rest) :=
    splitOnceAt_append h
  rw [nulField, hsplit]

theorem nulField_eq_ok {output field rest : Bytes} (h : nulField output = .ok (field, rest)) :
    output = field ++ [0] ++ rest := by
  unfold nulField at h
  split at h
  next parts hparts =>
    obtain rfl := Except.ok.inj h
    exact splitOnceAt_eq_some hparts
  next => cases h

theorem zero_not_valid : validPorcelainStatus 0 = false := by decide

/-- The letters, the blank and the path of a record have no NUL. -/
theorem GitRecord.zero_not_mem (record : GitRecord) :
    0 ∉ [record.staged, record.worktree, 0x20] ++ record.path := by
  have hvalid {byte : UInt8} (h : validPorcelainStatus byte = true) : 0 ≠ byte := by
    rintro rfl
    cases h
  simp only [List.mem_append, List.mem_cons, List.not_mem_nil, or_false, not_or]
  exact ⟨⟨hvalid record.staged_valid, hvalid record.worktree_valid, by decide⟩,
    record.isPath.2⟩

theorem statusFields_record (record : GitRecord) :
    statusFields ([record.staged, record.worktree, 0x20] ++ record.path) =
      .ok (record.staged, record.worktree, record.path) := by
  obtain ⟨byte, path, hpath⟩ := List.exists_cons_of_ne_nil record.isPath.1
  rw [hpath]
  simp [statusFields, record.staged_valid, record.worktree_valid]

theorem gitRecords_nil (scan : GitScan) : gitRecords scan [] = .ok scan := by
  rw [gitRecords, if_pos rfl]

/-- What is done with the output before the cursor moves on. -/
theorem gitRecords_step {output : Bytes} (hne : output ≠ []) (scan : GitScan) :
    gitRecords scan output = (do
      let (field, rest) ← nulField output
      let (staged, worktree, path) ← statusFields field
      let scan ← insertGitPath scan path
      if namesOrigin staged ∨ namesOrigin worktree then do
        let (origin, more) ← nulField rest
        let scan ← insertGitPath scan origin
        gitRecords scan more
      else gitRecords scan rest) := by
  rw [gitRecords, if_neg hne]
  split
  next error herror => rw [herror]; rfl
  next field rest hfield =>
    rw [hfield]
    simp only [bind, Except.bind]
    congr 1
    funext letters
    congr 1
    funext next
    congr 1
    split
    next error herror => rw [herror]
    next origin more horigin => rw [horigin]

/-- One record is read, whatever comes after it. -/
theorem gitRecords_record (record : GitRecord) (scan : GitScan) (rest : Bytes) :
    gitRecords scan (record.encode ++ rest) =
      gitRecords (scan.mention record.mentions) rest := by
  let first := [record.staged, record.worktree, 0x20] ++ record.path
  let tail := record.origin.elim [] (· ++ [0]) ++ rest
  have htext : record.encode ++ rest = first ++ [0] ++ tail := by
    simp [GitRecord.encode, first, tail]
  have hfield : nulField (first ++ [0] ++ tail) = .ok (first, tail) :=
    nulField_append record.zero_not_mem tail
  have hpath := insertGitPath_of_isGitPath record.isPath scan
  have hne : first ++ [0] ++ tail ≠ [] := by simp
  rw [htext, gitRecords_step hne]
  simp only [hfield, bind, Except.bind, first, statusFields_record record, hpath]
  cases horigin : record.origin with
  | none =>
      have hnot : ¬ (namesOrigin record.staged = true ∨ namesOrigin record.worktree = true) := by
        rw [← record.origin_isSome, horigin]
        exact Bool.false_ne_true
      rw [if_neg hnot]
      simp [tail, horigin, GitRecord.mentions]
  | some origin =>
      have hsome : namesOrigin record.staged = true ∨ namesOrigin record.worktree = true := by
        rw [← record.origin_isSome, horigin]
        rfl
      have hisPath : IsGitPath origin := record.origin_isPath origin horigin
      have htail : tail = origin ++ [0] ++ rest := by simp [tail, horigin]
      rw [if_pos hsome, htail, nulField_append hisPath.2]
      simp only [insertGitPath_of_isGitPath hisPath]
      rw [← GitScan.mention_append]
      simp [GitRecord.mentions, horigin]

theorem gitRecords_encode (records : List GitRecord) (scan : GitScan) :
    gitRecords scan (records.flatMap GitRecord.encode) =
      .ok (scan.mention (records.flatMap GitRecord.mentions)) := by
  induction records generalizing scan with
  | nil =>
      rw [List.flatMap_nil, gitRecords_nil]
      simp [GitScan.mention]
  | cons record records ih =>
      rw [List.flatMap_cons, gitRecords_record, ih, List.flatMap_cons,
        GitScan.mention_append]

theorem statusFields_eq_ok {field path : Bytes} {staged worktree : UInt8}
    (h : statusFields field = .ok (staged, worktree, path)) :
    field = [staged, worktree, 0x20] ++ path ∧ validPorcelainStatus staged = true ∧
      validPorcelainStatus worktree = true := by
  unfold statusFields at h
  split at h
  next x y blank byte rest =>
    split at h
    next hvalid =>
      obtain ⟨rfl, hletters⟩ := hvalid
      simp only [Except.ok.injEq, Prod.mk.injEq] at h
      obtain ⟨rfl, rfl, rfl⟩ := h
      exact ⟨rfl, hletters⟩
    next => cases h
  next => cases h

/-- An output that is read to its end is a list of records. -/
theorem exists_records {scan next : GitScan} {output : Bytes}
    (h : gitRecords scan output = .ok next) :
    ∃ records : List GitRecord, output = records.flatMap GitRecord.encode := by
  induction hlength : output.length using Nat.strong_induction_on
    generalizing scan output with
  | _ length ih =>
      subst hlength
      by_cases hnil : output = []
      · exact ⟨[], hnil⟩
      rw [gitRecords_step hnil] at h
      obtain ⟨⟨field, rest⟩, hfield, hrecord⟩ := except_bind_eq_ok.1 h
      obtain ⟨⟨staged, worktree, path⟩, hletters, hpaths⟩ := except_bind_eq_ok.1 hrecord
      obtain ⟨scanned, hpath, hnext⟩ := except_bind_eq_ok.1 hpaths
      obtain ⟨rfl, hstaged, hworktree⟩ := statusFields_eq_ok hletters
      have hrest := nulField_length hfield
      have houtput := nulField_eq_ok hfield
      dsimp only at hnext
      split at hnext
      next hnames =>
        obtain ⟨⟨origin, more⟩, horigin, hsecond⟩ := except_bind_eq_ok.1 hnext
        obtain ⟨again, hagain, hlast⟩ := except_bind_eq_ok.1 hsecond
        have hmore := nulField_length horigin
        obtain ⟨records, hrecords⟩ := ih more.length (hmore.trans hrest) hlast rfl
        dsimp only at hrecords
        let record : GitRecord :=
          { staged, worktree, path, origin := some origin
            staged_valid := hstaged
            worktree_valid := hworktree
            isPath := isGitPath_of_insertGitPath hpath
            origin_isPath := by
              rintro bytes ⟨⟩
              exact isGitPath_of_insertGitPath hagain
            origin_isSome := ⟨fun _ => hnames, fun _ => rfl⟩ }
        refine ⟨record :: records, ?_⟩
        rw [houtput, nulField_eq_ok horigin, hrecords]
        simp [GitRecord.encode, record]
      next hnames =>
        obtain ⟨records, hrecords⟩ := ih rest.length hrest hnext rfl
        let record : GitRecord :=
          { staged, worktree, path, origin := none
            staged_valid := hstaged
            worktree_valid := hworktree
            isPath := isGitPath_of_insertGitPath hpath
            origin_isPath := fun bytes hbytes => nomatch hbytes
            origin_isSome := ⟨(fun h => nomatch h), fun h => absurd h hnames⟩ }
        refine ⟨record :: records, ?_⟩
        rw [houtput, hrecords]
        simp [GitRecord.encode, record]

theorem error_of_nulField {output : Bytes} {error : GitError}
    (h : nulField output = .error error) : error = invalidGitData := by
  unfold nulField at h
  split at h
  next => cases h
  next => exact (Except.error.inj h).symm

theorem error_of_statusFields {field : Bytes} {error : GitError}
    (h : statusFields field = .error error) : error = invalidGitData := by
  unfold statusFields at h
  split at h
  next =>
    split at h
    next => cases h
    next => exact (Except.error.inj h).symm
  next => exact (Except.error.inj h).symm

theorem error_of_insertGitPath {scan : GitScan} {bytes : Bytes} {error : GitError}
    (h : insertGitPath scan bytes = .error error) : error = invalidGitData := by
  unfold insertGitPath at h
  split at h
  next => exact (Except.error.inj h).symm
  next =>
    split at h
    next => cases h
    next => cases h

/-- There is one error, whatever is wrong with the output. -/
theorem error_of_gitRecords {scan : GitScan} {output : Bytes} {error : GitError}
    (h : gitRecords scan output = .error error) : error = invalidGitData := by
  induction hlength : output.length using Nat.strong_induction_on
    generalizing scan output with
  | _ length ih =>
      subst hlength
      by_cases hnil : output = []
      · rw [hnil, gitRecords_nil] at h
        cases h
      rw [gitRecords_step hnil] at h
      rcases except_bind_eq_error.1 h with hfield | ⟨⟨field, rest⟩, hfield, hrecord⟩
      · exact error_of_nulField hfield
      have hrest := nulField_length hfield
      rcases except_bind_eq_error.1 hrecord with hletters |
        ⟨⟨staged, worktree, path⟩, hletters, hpaths⟩
      · exact error_of_statusFields hletters
      rcases except_bind_eq_error.1 hpaths with hpath | ⟨scanned, hpath, hnext⟩
      · exact error_of_insertGitPath hpath
      dsimp only at hnext
      split at hnext
      next =>
        rcases except_bind_eq_error.1 hnext with horigin |
          ⟨⟨origin, more⟩, horigin, hsecond⟩
        · exact error_of_nulField horigin
        have hmore := nulField_length horigin
        rcases except_bind_eq_error.1 hsecond with hagain | ⟨again, hagain, hlast⟩
        · exact error_of_insertGitPath hagain
        exact ih more.length (hmore.trans hrest) hlast rfl
      next => exact ih rest.length hrest hnext rfl

theorem mem_foldl_insert {paths : PathSet} {found : List Text} {path : Text} :
    path ∈ found.foldl (fun set path => set.insert path) paths ↔
      path ∈ found ∨ path ∈ paths := by
  induction found generalizing paths with
  | nil => simp
  | cons first found ih =>
      rw [List.foldl_cons, ih, Std.ExtTreeSet.mem_insert, Std.LawfulEqCmp.compare_eq_iff_eq,
        List.mem_cons]
      tauto

/-- Status output is parsed exactly.  What a list of records mentions comes back in
order and once, except the runtime lock; what is no text becomes a conflict; and no
other output is accepted. -/
theorem parseGitStatus_exact (conflicts : List InitConflict) :
    (∀ records : List GitRecord, ∃ paths : List Text,
      parseGitStatus (records.flatMap GitRecord.encode) conflicts =
        .ok (paths, conflicts ++ ((records.flatMap GitRecord.mentions).filter
          fun bytes => (Text.fromUtf8 bytes).isNone).map nonUtf8GitPath) ∧
      paths.Pairwise (fun left right => compare left right = .lt) ∧
      ∀ path, path ∈ paths ↔ path ≠ runtimeLockPath ∧
        path.toBytes ∈ records.flatMap GitRecord.mentions) ∧
    ∀ output, (∀ records : List GitRecord, output ≠ records.flatMap GitRecord.encode) →
      parseGitStatus output conflicts = .error invalidGitData := by
  constructor
  · intro records
    let mentioned := records.flatMap GitRecord.mentions
    let scan := GitScan.mention ⟨∅, conflicts⟩ mentioned
    refine ⟨(scan.paths.erase runtimeLockPath).toList, ?_, ?_, ?_⟩
    · rw [parseGitStatus, gitRecords_encode]
      rfl
    · exact Std.ExtTreeSet.ordered_toList
    · intro path
      rw [Std.ExtTreeSet.mem_toList, Std.ExtTreeSet.mem_erase]
      have hmem : path ∈ scan.paths ↔ path.toBytes ∈ mentioned := by
        have hfold : path ∈ scan.paths ↔ path ∈ mentioned.filterMap Text.fromUtf8 ∨
            path ∈ (∅ : PathSet) := mem_foldl_insert
        rw [List.mem_filterMap] at hfold
        refine hfold.trans ⟨?_, fun h => .inl ⟨_, h, Text.fromUtf8_toBytes path⟩⟩
        rintro (⟨bytes, hbytes, hpath⟩ | hempty)
        · rw [Text.toBytes_of_fromUtf8 hpath]
          exact hbytes
        · exact absurd hempty Std.ExtTreeSet.not_mem_empty
      rw [hmem]
      refine and_congr_left fun _ => ?_
      rw [Ne, Std.LawfulEqCmp.compare_eq_iff_eq]
      exact ⟨fun h heq => h heq.symm, fun h heq => h heq.symm⟩
  · intro output houtput
    cases hrecords : gitRecords ⟨∅, conflicts⟩ output with
    | ok scan =>
        obtain ⟨records, hencode⟩ := exists_records hrecords
        exact absurd hencode (houtput records)
    | error error =>
        rw [parseGitStatus, hrecords, error_of_gitRecords hrecords]
        rfl

end Records

end Yams.Init
