/-
Appending to the query log: attempts of any number of processes on the same
files, each with one write that may fail or store only a first part of its line.
-/
import Yams.AppendLog
import Yams.QueryLogLine
import Yams.Posix
import Yams.Schedule
import Yams.StableTriple

namespace Yams.QueryLog

open AppendLog

inductive QueryLogOutcome
  | appended
  | disabled
  | skipped (skip : QueryLogSkip)
  | rejected
  | failed
  deriving DecidableEq

inductive AppendError
  | missing | unsafeLog | io
  deriving DecidableEq

/-- `ELOOP`. -/
def loopErrno : Errno := .other 40

abbrev FileId := Nat

/-- `Path::parent`, up to spelling. -/
def parent (path : PathBuf) : Option PathBuf :=
  let names := PathBytes.parts path
  if names = [] then none
  else if PathBytes.isAbsolute path then some (PathBytes.absolute names.dropLast)
  else some (List.intercalate [PathBytes.slash] names.dropLast)

/-- The calls of one attempt; a descriptor of the log is the file it opened. -/
inductive AppendOp
  | openParent (path : PathBuf)
  | statat (directory : PathBuf) (name : Bytes)
  | openat (directory : PathBuf) (name : Bytes)
  | fstat (descriptor : FileId)
  | beforeFinalValidation
  | write (descriptor : FileId) (bytes : Bytes)

abbrev AppendAns : AppendOp → Type
  | .openParent _ => Except Errno Unit
  | .statat _ _ | .fstat _ => Except Errno Stat
  | .openat _ _ => Except Errno FileId
  | .beforeFinalValidation => Except Unit Unit
  | .write _ _ => Except Errno Nat

abbrev AppendM := Fallible AppendOp AppendAns AppendError

abbrev sys (op : AppendOp) : AppendM (AppendAns op) := Fallible.perform op

def namedState (directory : PathBuf) (name : Bytes) : AppendM Stat := do
  match ← sys (.statat directory name) with
  | .ok stat => return stat
  | .error .noent => throw .missing
  | .error _ => throw .io

def descriptorState (descriptor : FileId) : AppendM Stat := do
  match ← sys (.fstat descriptor) with
  | .ok stat => return stat
  | .error _ => throw .io

def validateLogState (stat : Stat) (expectedUid : Nat) : AppendM Unit :=
  if stat.kind ≠ .regular ∨ stat.uid ≠ expectedUid ∨ stat.nlink ≠ 1 ∨
      stat.mode &&& 0o077 ≠ 0 then
    throw .unsafeLog
  else pure ()

def openDirectory (path : PathBuf) : AppendM Unit := do
  match ← sys (.openParent path) with
  | .ok _ => return ()
  | .error .noent => throw .missing
  | .error _ => throw .io

def openLog (directory : PathBuf) (name : Bytes) : AppendM FileId := do
  match ← sys (.openat directory name) with
  | .ok descriptor => return descriptor
  | .error .noent => throw .missing
  | .error e => if e = loopErrno then throw .unsafeLog else throw .io

/-- Revalidate both bindings immediately before the single append syscall. -/
def finalValidation (directory : PathBuf) (name : Bytes) (descriptor : FileId)
    (identity : Identity) (expectedUid : Nat) : AppendM Unit := do
  match ← sys .beforeFinalValidation with
  | .error _ => throw .io
  | .ok _ =>
      let finalNamed ← namedState directory name
      let finalOpened ← descriptorState descriptor
      validateLogState finalNamed expectedUid
      validateLogState finalOpened expectedUid
      if finalNamed.identity ≠ identity ∨ finalOpened.identity ≠ identity then
        throw .unsafeLog
      else pure ()

/-- The name and the descriptor stand for one file. -/
def sameIdentity (named opened : Identity) : AppendM Unit :=
  if named ≠ opened then throw .unsafeLog else pure ()

/-- The log is opened, and it is the file that the name stands for. -/
def openExisting (directory : PathBuf) (name : Bytes) (expectedUid : Nat) :
    AppendM FileId := do
  openDirectory directory
  let firstNamed ← namedState directory name
  validateLogState firstNamed expectedUid
  let descriptor ← openLog directory name
  let firstOpened ← descriptorState descriptor
  validateLogState firstOpened expectedUid
  sameIdentity firstNamed.identity firstOpened.identity
  finalValidation directory name descriptor firstOpened.identity expectedUid
  return descriptor

def appendExisting (path : PathBuf) (bytes : Bytes) (expectedUid : Nat) :
    AppendM Unit := do
  match parent path, PathBytes.fileName path with
  | some directory, some name =>
      let descriptor ← openExisting directory name expectedUid
      match ← sys (.write descriptor bytes) with
      | .ok written => if written = bytes.length then pure () else throw .io
      | .error _ => throw .io
  | _, _ => throw .unsafeLog

def outcomeOf : Except AppendError Unit → QueryLogOutcome
  | .ok _ => .appended
  | .error .missing => .disabled
  | .error .unsafeLog => .rejected
  | .error .io => .failed

/-- One call of `append_query_log` by a process of user `uid`. -/
structure Attempt (F : Type) where
  path : PathBuf
  eligibility : QueryLogEligibility
  record : QueryLogRecord F
  uid : Nat

section

variable {F : Type} (tables : CaseTables) (sha256 : Bytes → Bytes) (float : Float64 F)

def appendWithRuntime (attempt : Attempt F) : Prog AppendOp AppendAns QueryLogOutcome :=
  if attempt.eligibility ≠ .searchAttempted then
    .ret (.skipped (.ineligible attempt.eligibility))
  else
    match composeLine tables sha256 float attempt.record with
    | .error skip => .ret (.skipped skip)
    | .ok line =>
        (appendExisting attempt.path line.toBytes attempt.uid).run.bind fun result =>
          .ret (outcomeOf result)

end

/-! The files: names stay what they are, and only attempts write. -/

abbrev Tid := Nat

/-- How one call ends; everything a `stat` reports is up to the environment. -/
inductive AppendChoice
  | done
  | failed (errno : Errno)
  | status (stat : Stat)
  | stored (count : Nat)

abbrev Contents := FileId → Bytes

section

variable (names : PathBuf → Bytes → Option FileId)

def answerAppend (choice : AppendChoice) (contents : Contents) :
    (op : AppendOp) → Option (AppendAns op × Contents)
  | .openParent _ =>
      match choice with
      | .done => some (.ok (), contents)
      | .failed errno => some (.error errno, contents)
      | _ => none
  | .statat _ _ | .fstat _ =>
      match choice with
      | .status stat => some (.ok stat, contents)
      | .failed errno => some (.error errno, contents)
      | _ => none
  | .openat directory name =>
      match choice, names directory name with
      | .done, some file => some (.ok file, contents)
      | .done, none => some (.error .noent, contents)
      | .failed errno, _ => some (.error errno, contents)
      | _, _ => none
  | .beforeFinalValidation =>
      match choice with
      | .done => some (.ok (), contents)
      | .failed _ => some (.error (), contents)
      | _ => none
  | .write file bytes =>
      match choice with
      | .stored count =>
          -- `O_APPEND`: what is stored goes to the end of the file, in one piece
          if count ≤ bytes.length then
            some (.ok count,
              Function.update contents file (contents file ++ bytes.take count))
          else none
      | .failed errno => some (.error errno, contents)
      | _ => none

def disk : Interp Tid AppendOp AppendAns Contents AppendChoice where
  answer _ := answerAppend names
  disturb _ _ := none

abbrev LogEvent := Event Tid AppendOp AppendAns Contents

abbrev LogTrace := Traced Tid AppendOp AppendAns Contents

/-- The file that a path names. -/
def logAt (path : PathBuf) : Option FileId := do
  names (← parent path) (← PathBytes.fileName path)

end

/-- The write to one file that an event is. -/
def writeOf (file : FileId) : LogEvent → Option (Write UInt8)
  | ⟨_, .write opened bytes, .ok count, _, _⟩ =>
      if h : opened = file ∧ count ≤ bytes.length then some ⟨bytes, count, h.2⟩ else none
  | _ => none

/-- The writes to one file, in their order. -/
def writesOn (file : FileId) (past : List LogEvent) : List (Write UInt8) :=
  past.reverse.filterMap (writeOf file)

def newline : UInt8 := 0x0a

theorem writesOn_cons (file : FileId) (e : LogEvent) (past : List LogEvent) :
    writesOn file (e :: past) = writesOn file past ++ (writeOf file e).toList := by
  rw [writesOn, List.reverse_cons, List.filterMap_append]
  cases h : writeOf file e <;> simp [writesOn, h]

/-! What is recorded of every interleaving. -/

section

variable {names : PathBuf → Bytes → Option FileId} {start : Contents} {t : Tid}

/-- Every file holds what the writes to it stored, and these were of lines. -/
structure Recorded (start : Contents) (s : LogTrace) : Prop where
  contents : ∀ file, s.now file = contents (start file) (writesOn file s.past)
  lines : ∀ file, ∀ write ∈ writesOn file s.past, IsLine newline write.asked

/-- Only lines are written. -/
def WritesLine : AppendOp → Prop
  | .write _ bytes => IsLine newline bytes
  | _ => True

/-- The operations other than a write. -/
def Quiet : AppendOp → Prop
  | .write _ _ => False
  | _ => True

/-- One call adds to a file what its event stored there. -/
theorem answerAppend_contents {choice : AppendChoice} {op : AppendOp}
    {before after : Contents} {answer : AppendAns op}
    (h : answerAppend names choice before op = some (answer, after)) (file : FileId) :
    after file = before file ++
      (writeOf file ⟨t, op, answer, before, after⟩).toList.flatMap Write.stored := by
  cases op with
  | write opened bytes =>
      dsimp only [answerAppend] at h
      split at h
      next count =>
        split at h
        next hcount =>
          obtain ⟨rfl, rfl⟩ := Prod.mk.inj (Option.some.inj h)
          by_cases hfile : opened = file
          · subst hfile
            simp [writeOf, hcount, Write.stored]
          · simp [writeOf, hfile, Function.update_of_ne (Ne.symm hfile)]
        · cases h
      · obtain ⟨rfl, rfl⟩ := Prod.mk.inj (Option.some.inj h)
        simp [writeOf]
      · cases h
  | _ =>
      have hsame : after = before := by
        dsimp only [answerAppend] at h
        split at h <;> cases h <;> rfl
      simp [hsame, writeOf]

theorem writeOf_asked {e : LogEvent} {file : FileId} {write : Write UInt8}
    (h : writeOf file e = some write) : ∃ opened, e.op = .write opened write.asked := by
  unfold writeOf at h
  split at h
  next opened bytes count _ _ =>
    split at h
    · obtain rfl := Option.some.inj h
      exact ⟨opened, rfl⟩
    · cases h
  · cases h

theorem Recorded.exec (op : AppendOp) {a b : LogTrace} {answer : AppendAns op}
    (h : Recorded start a) (hop : WritesLine op)
    (hexec : (disk names).traced.system.exec t a op answer b) :
    Recorded start b ∧ a.past <:+ b.past := by
  obtain ⟨⟨choice, hanswer⟩, hpast⟩ := Interp.exec_traced hexec
  refine ⟨⟨?_, ?_⟩, hpast ▸ List.suffix_cons _ _⟩
  · intro file
    rw [answerAppend_contents (t := t) hanswer file, h.contents file, hpast, writesOn_cons]
    simp only [AppendLog.contents, List.flatMap_append, List.append_assoc]
  · intro file write hwrite
    rw [hpast, writesOn_cons, List.mem_append, Option.mem_toList] at hwrite
    rcases hwrite with hold | hnew
    · exact h.lines file write hold
    · obtain ⟨opened, heq⟩ := writeOf_asked hnew
      change op = _ at heq
      subst heq
      exact hop

/-- An attempt lets the others record what they do. -/
def logDiscipline (names : PathBuf → Bytes → Option FileId) (start : Contents) :
    Discipline (disk names).traced.system where
  inv := Recorded start
  rely _ a b := a.past <:+ b.past
  guar _ a b := a.past <:+ b.past
  rely_refl _ _ := List.suffix_refl _
  rely_trans := List.IsSuffix.trans
  compat := fun _ _ _ h => h
  env := by
    rintro a b _ ⟨choice, hchoice⟩
    cases hchoice

/-- A program that writes nothing keeps to the discipline. -/
theorem quiet_triple {α : Type} {P : Prop} (p : AppendM α) (hp : p.run.Calls Quiet) :
    StableTriple (logDiscipline names start) t (fun _ => P) p (fun _ _ => P)
      fun _ _ => True := by
  intro s hinv hP
  apply outline_mono p.run
    (outline_calls (J := fun _ => P) (fun _ _ h _ _ => h) _ p.run hp hP)
  · intro r s' _ hs'
    cases r with
    | error e => trivial
    | ok a => exact hs'
  · intro op a answer b hop hinv hJ hexec
    have hline : WritesLine op := by
      cases op with
      | write descriptor bytes => exact hop.elim
      | _ => trivial
    have hkept := hinv.exec op hline hexec
    exact ⟨hkept.1, hkept.2, hJ⟩

theorem quiet_namedState (directory : PathBuf) (name : Bytes) :
    (namedState directory name).run.Calls Quiet := by
  apply Fallible.calls_follow
  · exact ⟨trivial, fun _ => trivial⟩
  · intro answer
    split <;> trivial

theorem quiet_descriptorState (descriptor : FileId) :
    (descriptorState descriptor).run.Calls Quiet := by
  apply Fallible.calls_follow
  · exact ⟨trivial, fun _ => trivial⟩
  · intro answer
    split <;> trivial

theorem quiet_validateLogState (stat : Stat) (expectedUid : Nat) :
    (validateLogState stat expectedUid).run.Calls Quiet := by
  unfold validateLogState
  split <;> trivial

theorem quiet_sameIdentity (named opened : Identity) :
    (sameIdentity named opened).run.Calls Quiet := by
  unfold sameIdentity
  split <;> trivial

theorem quiet_openDirectory (path : PathBuf) : (openDirectory path).run.Calls Quiet := by
  apply Fallible.calls_follow
  · exact ⟨trivial, fun _ => trivial⟩
  · intro answer
    split <;> trivial

theorem quiet_finalValidation (directory : PathBuf) (name : Bytes) (descriptor : FileId)
    (identity : Identity) (expectedUid : Nat) :
    (finalValidation directory name descriptor identity expectedUid).run.Calls Quiet := by
  apply Fallible.calls_follow
  · exact ⟨trivial, fun _ => trivial⟩
  intro answer
  split
  · trivial
  apply Fallible.calls_follow _ _ (quiet_namedState _ _)
  intro finalNamed
  apply Fallible.calls_follow _ _ (quiet_descriptorState _)
  intro finalOpened
  apply Fallible.calls_follow _ _ (quiet_validateLogState _ _)
  intro _
  apply Fallible.calls_follow _ _ (quiet_validateLogState _ _)
  intro _
  split <;> trivial

/-- The descriptor is of the file that the name stands for. -/
theorem openLog_spec (directory : PathBuf) (name : Bytes) :
    StableTriple (logDiscipline names start) t (fun _ => True) (openLog directory name)
      (fun descriptor _ => names directory name = some descriptor) fun _ _ => True := by
  have hE : ∀ e : AppendError,
      Stable (logDiscipline names start) t fun _ => True := fun _ _ _ _ _ => trivial
  have hopen : StableTriple (logDiscipline names start) t (fun _ => True)
      (sys (.openat directory name))
      (fun answer _ => ∀ descriptor, answer = .ok descriptor →
        names directory name = some descriptor) fun _ _ => True := by
    apply StableTriple.perform (fun _ _ _ _ => trivial) (fun _ _ _ h _ => h)
    intro s answer s' hinv _ hexec
    have hkept := hinv.exec (.openat directory name) trivial hexec
    refine ⟨hkept.1, hkept.2, ?_⟩
    rintro descriptor rfl
    obtain ⟨⟨choice, hanswer⟩, -⟩ := Interp.exec_traced hexec
    change answerAppend names choice s.now (.openat directory name) = _ at hanswer
    dsimp only [answerAppend] at hanswer
    split at hanswer
    next heq =>
      obtain ⟨hfile, -⟩ := Prod.mk.inj (Option.some.inj hanswer)
      rw [heq, Except.ok.inj hfile]
    all_goals cases hanswer
  apply StableTriple.bind hE hopen
  intro answer
  split
  · exact StableTriple.pure (fun _ _ _ h _ => h) fun _ h => h _ rfl
  · exact StableTriple.throw hE fun _ _ => trivial
  · split
    · exact StableTriple.throw hE fun _ _ => trivial
    · exact StableTriple.throw hE fun _ _ => trivial

theorem openExisting_spec (directory : PathBuf) (name : Bytes) (expectedUid : Nat) :
    StableTriple (logDiscipline names start) t (fun _ => True)
      (openExisting directory name expectedUid)
      (fun descriptor _ => names directory name = some descriptor) fun _ _ => True := by
  have hE : ∀ e : AppendError,
      Stable (logDiscipline names start) t fun _ => True := fun _ _ _ _ _ => trivial
  apply StableTriple.bind hE (quiet_triple _ (quiet_openDirectory _))
  intro _
  apply StableTriple.bind hE (quiet_triple _ (quiet_namedState _ _))
  intro firstNamed
  apply StableTriple.bind hE (quiet_triple _ (quiet_validateLogState _ _))
  intro _
  apply StableTriple.bind hE (openLog_spec _ _)
  intro descriptor
  apply StableTriple.bind hE (quiet_triple _ (quiet_descriptorState _))
  intro firstOpened
  apply StableTriple.bind hE (quiet_triple _ (quiet_validateLogState _ _))
  intro _
  apply StableTriple.bind hE (quiet_triple _ (quiet_sameIdentity _ _))
  intro _
  apply StableTriple.bind hE (quiet_triple _ (quiet_finalValidation _ _ _ _ _))
  intro _
  exact StableTriple.pure (fun _ _ _ h _ => h) fun _ h => h

/-- Thread `t` has written all of these bytes to the file of a path. -/
def Wrote (names : PathBuf → Bytes → Option FileId) (t : Tid) (path : PathBuf)
    (bytes : Bytes) (s : LogTrace) : Prop :=
  ∃ file before after, logAt names path = some file ∧
    (⟨t, .write file bytes, .ok bytes.length, before, after⟩ : LogEvent) ∈ s.past

theorem stable_wrote (path : PathBuf) (bytes : Bytes) :
    Stable (logDiscipline names start) t (Wrote names t path bytes) := by
  rintro a b ⟨file, before, after, hfile, hmem⟩ hrely
  exact ⟨file, before, after, hfile, hrely.subset hmem⟩

/-- A success has written the line, all of it and in one piece. -/
theorem appendExisting_spec (path : PathBuf) {bytes : Bytes}
    (hline : IsLine newline bytes) (expectedUid : Nat) :
    StableTriple (logDiscipline names start) t (fun _ => True)
      (appendExisting path bytes expectedUid) (fun _ => Wrote names t path bytes)
      fun _ _ => True := by
  have hE : ∀ e : AppendError,
      Stable (logDiscipline names start) t fun _ => True := fun _ _ _ _ _ => trivial
  unfold appendExisting
  split
  next directory name hparent hname =>
    apply StableTriple.bind hE (openExisting_spec directory name expectedUid)
    intro descriptor
    have hwrite : StableTriple (logDiscipline names start) t
        (fun _ => names directory name = some descriptor) (sys (.write descriptor bytes))
        (fun answer s => answer = .ok bytes.length → Wrote names t path bytes s)
        fun _ _ => True := by
      apply StableTriple.perform (fun _ _ h _ => h)
      · intro answer a b h hrely hok
        exact stable_wrote path bytes a b (h hok) hrely
      · intro s answer s' hinv hfile hexec
        have hkept := hinv.exec (.write descriptor bytes) hline hexec
        refine ⟨hkept.1, hkept.2, ?_⟩
        rintro rfl
        obtain ⟨-, hpast⟩ := Interp.exec_traced hexec
        refine ⟨descriptor, s.now, s'.now, ?_, hpast ▸ List.mem_cons_self⟩
        simp only [logAt, hparent, hname, Option.bind_eq_bind, Option.bind_some, hfile]
    apply StableTriple.bind hE hwrite
    intro answer
    split
    next written =>
      split
      next hwritten =>
        apply StableTriple.pure fun _ => stable_wrote path bytes
        intro s h
        exact h (by rw [hwritten])
      · exact StableTriple.throw hE fun _ _ => trivial
    · exact StableTriple.throw hE fun _ _ => trivial
  · exact StableTriple.throw hE fun _ _ => trivial

end

/-! The attempts of all processes. -/

section

variable {F : Type} {tables : CaseTables} {sha256 : Bytes → Bytes} {float : Float64 F}
variable {names : PathBuf → Bytes → Option FileId} {start : Contents} {t : Tid}

theorem isLine_composeLine (hprinted : Printed float) {record : QueryLogRecord F}
    {line : Text} (h : composeLine tables sha256 float record = .ok line) :
    IsLine newline line.toBytes := by
  obtain ⟨project, hacc⟩ := composeLine_eq_ok h
  obtain ⟨body, rfl, hvisible⟩ := hacc.visible hprinted
  refine ⟨body.toBytes, Text.toBytes_append body ['\n'], ?_⟩
  intro hmem
  obtain ⟨c, hc, hbyte⟩ := List.mem_flatMap.1 hmem
  have hlow := hvisible c hc
  by_cases hascii : c.toNat < 0x80
  · rw [Text.utf8EncodeChar_ascii hascii, List.mem_singleton] at hbyte
    have hnat := congrArg UInt8.toNat hbyte
    rw [UInt8.toNat_ofNat'] at hnat
    change 10 = _ at hnat
    omega
  · have hhigh := Text.le_of_mem_utf8EncodeChar (Nat.not_lt.1 hascii) hbyte
    change 0x80 ≤ 10 at hhigh
    omega

/-- An attempt whose record is accepted. -/
theorem appendWithRuntime_eq {attempt : Attempt F} {line : Text}
    (heligible : attempt.eligibility = .searchAttempted)
    (hline : composeLine tables sha256 float attempt.record = .ok line) :
    appendWithRuntime tables sha256 float attempt =
      (appendExisting attempt.path line.toBytes attempt.uid).run.bind fun result =>
        .ret (outcomeOf result) := by
  unfold appendWithRuntime
  rw [if_neg (not_not.2 heligible), hline]

/-- Every process at the start of its attempt. -/
def begin (tables : CaseTables) (sha256 : Bytes → Bytes) (float : Float64 F)
    (attempts : Tid → Attempt F) (start : Contents) :
    Pool Tid AppendOp AppendAns LogTrace QueryLogOutcome :=
  ⟨fun t => appendWithRuntime tables sha256 float (attempts t), ⟨start, []⟩⟩

/-- An attempt that reports success has written its composed line. -/
def Reported (tables : CaseTables) (sha256 : Bytes → Bytes) (float : Float64 F)
    (names : PathBuf → Bytes → Option FileId) (attempts : Tid → Attempt F) (t : Tid)
    (outcome : QueryLogOutcome) (s : LogTrace) : Prop :=
  outcome = .appended → ∃ line,
    composeLine tables sha256 float (attempts t).record = .ok line ∧
      Wrote names t (attempts t).path line.toBytes s

theorem attempt_outline (hprinted : Printed float) (attempts : Tid → Attempt F)
    {s : LogTrace} (hinv : Recorded start s) :
    Outline (logDiscipline names start) t
      (appendWithRuntime tables sha256 float (attempts t))
      (Reported tables sha256 float names attempts t) s := by
  unfold appendWithRuntime
  split
  · rintro s₁ _ _ ⟨⟩
  split
  · rintro s₁ _ _ ⟨⟩
  next line hline =>
    have hspec : StableTriple (logDiscipline names start) t (fun _ => True) _ _ _ :=
      appendExisting_spec (attempts t).path (isLine_composeLine hprinted hline)
        (attempts t).uid
    apply outline_bind _ _ hinv
    apply outline_mono _ (hspec s hinv trivial)
    intro result s' _ hpost s₁ hrely _ hreported
    cases result with
    | ok _ => exact ⟨line, hline, stable_wrote _ _ s' s₁ hpost hrely⟩
    | error e => cases e <;> cases hreported

/-- Along every interleaving the files hold what was recorded, and a reported
success has its line there. -/
theorem begin_outlined (hprinted : Printed float) {attempts : Tid → Attempt F}
    {pool : Pool Tid AppendOp AppendAns LogTrace QueryLogOutcome}
    (hsteps : (disk names).traced.system.Steps
      (begin tables sha256 float attempts start) pool) :
    Outlined (logDiscipline names start)
      (Reported tables sha256 float names attempts) pool := by
  apply outlined_steps hsteps
  have hinv : Recorded start ⟨start, []⟩ :=
    ⟨fun file => (List.append_nil _).symm, fun file write h => by cases h⟩
  exact ⟨hinv, fun t => attempt_outline hprinted attempts hinv⟩

/-- A recorded write of everything splits the writes to its file. -/
theorem writesOn_split {file : FileId} {bytes : Bytes} {past : List LogEvent}
    {before after : Contents}
    (h : (⟨t, .write file bytes, .ok bytes.length, before, after⟩ : LogEvent) ∈ past) :
    ∃ earlier later, writesOn file past = earlier ++ Write.whole bytes :: later := by
  apply List.append_of_mem
  apply List.mem_filterMap.2
  exact ⟨_, List.mem_reverse.2 h, dif_pos ⟨rfl, Nat.le_refl _⟩⟩

/-- What was in the log stays where it is.  A record that is reported stands in the
log whole; it starts a line exactly if the log was not torn when it was written. -/
theorem appendQueryLog_kept (hprinted : Printed float) {attempts : Tid → Attempt F}
    {pool : Pool Tid AppendOp AppendAns LogTrace QueryLogOutcome}
    (hsteps : (disk names).traced.system.Steps
      (begin tables sha256 float attempts start) pool)
    (log : FileId) (hold : Complete newline (start log)) :
    start log <+: pool.state.now log ∧
    (∀ line, OwnLine newline line (start log) →
      OwnLine newline line (pool.state.now log)) ∧
    ∀ t, logAt names (attempts t).path = some log → pool.procs t = .ret .appended →
      ∃ line earlier later,
        composeLine tables sha256 float (attempts t).record = .ok line ∧
        writesOn log pool.state.past = earlier ++ Write.whole line.toBytes :: later ∧
        pool.state.now log = contents (start log) earlier ++ line.toBytes ++
          later.flatMap Write.stored ∧
        (Complete newline (contents (start log) earlier) ↔ torn earlier = false) ∧
        (torn earlier = false → OwnLine newline line.toBytes (pool.state.now log)) := by
  have houtlined := begin_outlined hprinted hsteps
  have hrecorded : Recorded start pool.state := houtlined.1
  have hcontents := hrecorded.contents log
  have hstart : start log <+: pool.state.now log := by
    rw [hcontents]
    exact prefix_contents _ _
  refine ⟨hstart, fun line hown => hown.append hstart, ?_⟩
  intro t hlog hdone
  have hreported := houtlined.finished hdone
  obtain ⟨line, hline, file, before, after, hfile, hmem⟩ := hreported rfl
  obtain rfl : file = log := Option.some.inj (hfile.symm.trans hlog)
  obtain ⟨earlier, later, hwrites⟩ := writesOn_split hmem
  have hcomplete : Complete newline (contents (start file) earlier) ↔
      torn earlier = false := by
    apply complete_contents_iff hold
    intro write hwrite
    apply hrecorded.lines file write
    rw [hwrites]
    exact List.mem_append_left _ hwrite
  refine ⟨line, earlier, later, hline, hwrites, ?_, hcomplete, ?_⟩
  · rw [hcontents, hwrites, contents_append]
    simp only [contents, List.flatMap_cons, Write.stored_whole, List.append_assoc]
  · intro htorn
    rw [hcontents, hwrites]
    exact ownLine_contents (hcomplete.2 htorn)

end

namespace QueryLogAppendSample

open QueryLogSample (tables sha256 float printed composeLine_record)

def path : PathBuf := Text.toBytes "/state/queries.jsonl".toList

def names (directory : PathBuf) (name : Bytes) : Option FileId :=
  if directory = Text.toBytes "/state".toList ∧ name = Text.toBytes "queries.jsonl".toList
  then some 7 else none

def attempt (_ : Tid) : Attempt Nat :=
  ⟨path, .searchAttempted, QueryLogSample.record, 1000⟩

/-- The log has one line. -/
def start (file : FileId) : Bytes :=
  if file = 7 then Text.toBytes "\x7b\x7d\n".toList else []

def stat : Stat := ⟨⟨1, 7⟩, .regular, 0o600, 1000, 1, 3, 0, 0⟩

/-- An attempt of which `count` bytes are stored. -/
def turns (t : Tid) (count : Nat) : List (Turn Tid AppendChoice) :=
  [.done, .status stat, .done, .status stat, .done, .status stat, .status stat,
    .stored count].map (.thread t)

def lineBytes : Bytes := QueryLogSample.line.toBytes

def program : Prog AppendOp AppendAns QueryLogOutcome :=
  (appendExisting path lineBytes 1000).run.bind fun result => .ret (outcomeOf result)

theorem begin_eq : begin tables sha256 float attempt start =
    ⟨fun _ => program, ⟨start, []⟩⟩ := by
  have hprogram (t : Tid) : appendWithRuntime tables sha256 float (attempt t) = program :=
    appendWithRuntime_eq rfl composeLine_record
  exact congrArg (fun procs => (⟨procs, ⟨start, []⟩⟩ :
    Pool Tid AppendOp AppendAns LogTrace QueryLogOutcome)) (funext hprogram)

def finished : Prog AppendOp AppendAns QueryLogOutcome → Option QueryLogOutcome
  | .ret outcome => some outcome
  | _ => none

theorem finished_eq_some {p : Prog AppendOp AppendAns QueryLogOutcome}
    {outcome : QueryLogOutcome} (h : finished p = some outcome) : p = .ret outcome := by
  unfold finished at h
  split at h
  · rw [Option.some.inj h]
  · cases h

/-- Thread 0 stores `count` bytes of its line, and thread 1 all of the same line. -/
def run (count : Nat) : Option (Pool Tid AppendOp AppendAns LogTrace QueryLogOutcome) :=
  (disk names).traced.schedule 1 (turns 0 count ++ turns 1 lineBytes.length)
    ⟨fun _ => program, ⟨start, []⟩⟩

theorem run_steps {count : Nat}
    {pool : Pool Tid AppendOp AppendAns LogTrace QueryLogOutcome}
    (h : run count = some pool) :
    (disk names).traced.system.Steps (begin tables sha256 float attempt start) pool := by
  rw [begin_eq]
  exact schedule_steps h

theorem complete_start : Complete newline (start 7) := .inr (by decide)

theorem logAt_path : logAt names path = some 7 := by decide

/-- A write without the newline fails; the next record is behind it on its line. -/
theorem appendQueryLog_damages : ¬ ∀ attempts start pool, Complete newline (start 7) →
    (disk names).traced.system.Steps (begin tables sha256 float attempts start) pool →
      ∀ t, logAt names (attempts t).path = some 7 → pool.procs t = .ret .appended →
        ∃ line, composeLine tables sha256 float (attempts t).record = .ok line ∧
          OwnLine newline line.toBytes (pool.state.now 7) := by
  intro hclaim
  have hfacts : (run (lineBytes.length - 1)).map (fun pool =>
      (finished (pool.procs 0), finished (pool.procs 1), pool.state.now 7)) =
      some (some .failed, some .appended, start 7 ++ lineBytes.dropLast ++ lineBytes) := by
    unfold run program lineBytes QueryLogSample.line
    repeat rw [String.toList_ofList]
    decide +kernel
  obtain ⟨pool, hpool, hfacts⟩ := Option.map_eq_some_iff.1 hfacts
  simp only [Prod.mk.injEq] at hfacts
  obtain ⟨-, hdone, hcontent⟩ := hfacts
  obtain ⟨line, hline, before, after, heq, hbefore⟩ :=
    hclaim attempt start pool complete_start (run_steps hpool) 1 logAt_path
      (finished_eq_some hdone)
  obtain rfl : QueryLogSample.line = line :=
    Except.ok.inj (composeLine_record.symm.trans hline)
  change pool.state.now 7 = before ++ lineBytes ++ after at heq
  rw [hcontent] at heq
  -- the line is neither the first of the log nor behind a newline
  have hfirst : ¬ lineBytes <+: start 7 ++ lineBytes.dropLast ++ lineBytes := by
    unfold lineBytes QueryLogSample.line
    repeat rw [String.toList_ofList]
    decide
  have hlater : ¬ newline :: lineBytes <:+: start 7 ++ lineBytes.dropLast ++ lineBytes := by
    unfold lineBytes QueryLogSample.line
    repeat rw [String.toList_ofList]
    decide +kernel
  rcases hbefore with rfl | hends
  · rw [List.nil_append] at heq
    exact hfirst ⟨after, heq.symm⟩
  · obtain ⟨rest, rfl⟩ := List.getLast?_eq_some_iff.1 hends
    refine hlater ⟨rest, after, ?_⟩
    rw [heq]
    simp only [List.append_assoc, List.cons_append, List.nil_append]

/-- Two whole lines behind the old one. -/
theorem appendQueryLog_kept_two : ∃ pool, run lineBytes.length = some pool ∧
    pool.procs 1 = .ret .appended ∧ torn ((writesOn 7 pool.state.past).take 1) = false ∧
    start 7 <+: pool.state.now 7 ∧
    ∃ line earlier later, composeLine tables sha256 float QueryLogSample.record = .ok line ∧
      writesOn 7 pool.state.past = earlier ++ Write.whole line.toBytes :: later ∧
      (torn earlier = false → OwnLine newline line.toBytes (pool.state.now 7)) := by
  have hfacts : (run lineBytes.length).map (fun pool =>
      (finished (pool.procs 1), torn ((writesOn 7 pool.state.past).take 1))) =
      some (some .appended, false) := by
    unfold run program lineBytes QueryLogSample.line
    repeat rw [String.toList_ofList]
    decide +kernel
  obtain ⟨pool, hpool, hfacts⟩ := Option.map_eq_some_iff.1 hfacts
  obtain ⟨hdone, htorn⟩ := Prod.mk.inj hfacts
  have hkept := appendQueryLog_kept printed (run_steps hpool) 7 complete_start
  obtain ⟨line, earlier, later, hline, hwrites, -, -, hown⟩ :=
    hkept.2.2 1 logAt_path (finished_eq_some hdone)
  exact ⟨pool, hpool, finished_eq_some hdone, htorn, hkept.1, line, earlier, later, hline,
    hwrites, hown⟩

end QueryLogAppendSample

end Yams.QueryLog
