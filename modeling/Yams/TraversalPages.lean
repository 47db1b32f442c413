/-
Which pages a scan finds, and which notes it leaves about what it could not
establish, told without the order in which the scan looks.
-/
import Yams.ScanMerge
import Yams.TraversalWalk

namespace Yams.Traversal

variable {D : Type} [Sha256 D]

section Entries

/-- The regular file is the one that was seen before. -/
structure SameFile (current seen : NodeState) : Prop where
  device_eq : current.device = seen.device
  inode_eq : current.inode = seen.inode
  regular : current.kind = .regularFile

/-- A page is opened and read while nothing about it changes. -/
structure ReadSteadily (answers : FileAnswers) (state : NodeState)
    (content : Bytes) : Prop where
  openable : answers.failOpen = false
  opening_eq : answers.opening = .opened (.ok state)
  beforeRead_eq : answers.beforeRead = ⟨.ok state, .ok state⟩
  read_eq : answers.read = .ok content
  afterRead_eq : answers.afterRead = ⟨.ok state, .ok state⟩
  length_eq : content.length = state.size.toNat

/-- A page exceeds the size cap at a look after the first. -/
inductive Grown (answers : FileAnswers) (state : NodeState) : Prop
  | opened (current : NodeState) (hopen : answers.failOpen = false)
      (hopened : answers.opening = .opened (.ok current))
      (hsame : SameFile current state) (hlarge : maxFileBytes < current.size)
  | beforeRead (current : NodeState) (hopen : answers.failOpen = false)
      (hopened : answers.opening = .opened (.ok state))
      (hbefore : answers.beforeRead = ⟨.ok current, .ok current⟩)
      (hsame : SameFile current state) (hlarge : maxFileBytes < current.size)
  | afterRead (current : NodeState) (content : Bytes)
      (hopen : answers.failOpen = false)
      (hopened : answers.opening = .opened (.ok state))
      (hbefore : answers.beforeRead = ⟨.ok state, .ok state⟩)
      (hread : answers.read = .ok content)
      (hafter : answers.afterRead = ⟨.ok current, .ok current⟩)
      (hsame : SameFile current state)
      (hlarge : maxFileBytes.toNat < content.length ∨ maxFileBytes < current.size)

/-- An entry that is a page: a regular Markdown file with one link and a bounded
size that is no navigation file, read while nothing about it changes. -/
structure SafePage (path : PathBuf) (answers : Answers) (state : NodeState)
    (content : Bytes) : Prop where
  stat_eq : answers.stat = .ok state
  regular : state.kind = .regularFile
  markdown : hasMarkdownExtension path = true
  notNavigation : isNavigationPage path = false
  singleLink : state.nlink ≤ 1
  small : state.size ≤ maxFileBytes
  steady : ReadSteadily answers.file state content

/-- An entry that is a directory to descend into. -/
structure Entered (path : PathBuf) (name : Bytes) (answers : Answers)
    (state : NodeState) : Prop where
  stat_eq : answers.stat = .ok state
  directory : state.kind = .directory
  visible : name.head? ≠ some 0x2e
  notPage : hasMarkdownExtension path = false
  opening_eq : answers.directory = .opened (.ok state)

/-- An entry that is known to be neither a page nor a directory to descend
into. -/
inductive Excluded (path : PathBuf) (name : Bytes) (answers : Answers) : Prop
  | symlink (state : NodeState) (hstat : answers.stat = .ok state)
      (hkind : state.kind = .symlink)
  | hidden (state : NodeState) (hstat : answers.stat = .ok state)
      (hkind : state.kind = .directory) (hname : name.head? = some 0x2e)
  | namedLikePage (state : NodeState) (hstat : answers.stat = .ok state)
      (hkind : state.kind = .directory) (hpage : hasMarkdownExtension path = true)
  | notMarkdown (state : NodeState) (hstat : answers.stat = .ok state)
      (hkind : state.kind ≠ .directory) (hpage : hasMarkdownExtension path = false)
  | navigation (state : NodeState) (hstat : answers.stat = .ok state)
      (hkind : state.kind ≠ .directory) (hname : isNavigationPage path = true)
  | special (state : NodeState) (hstat : answers.stat = .ok state)
      (hkind : state.kind ≠ .directory) (hspecial : state.kind ≠ .regularFile)
  | hardLinked (state : NodeState) (hstat : answers.stat = .ok state)
      (hkind : state.kind = .regularFile) (hlinks : 1 < state.nlink)
  | large (state : NodeState) (hstat : answers.stat = .ok state)
      (hkind : state.kind = .regularFile) (hlarge : maxFileBytes < state.size)
  | grown (state : NodeState) (hstat : answers.stat = .ok state)
      (hkind : state.kind = .regularFile) (hgrown : Grown answers.file state)

/-- The state of an entry could be established. -/
def Established (path : PathBuf) (name : Bytes) (answers : Answers) : Prop :=
  Excluded path name answers ∨ (∃ state content, SafePage path answers state content) ∨
    ∃ state, Entered path name answers state

/-- The notes of failed and raced observations are the ones about what is
unknown. -/
structure Found.Noted (found : Found D) : Prop where
  unknown : ∀ note ∈ found.unknown, note.Incomplete
  rejected : ∀ note ∈ found.rejected, ¬ note.Incomplete
  oversized : ∀ note ∈ found.oversized, ¬ note.Incomplete

theorem noted_nothing : (Found.nothing : Found D).Noted := by
  constructor <;> intro note h <;> cases h

theorem noted_present (page : ScannedPage D) : Found.Noted ⟨[page], [], [], []⟩ := by
  constructor <;> intro note h <;> cases h

theorem noted_unknown {note : ScanNote} (hnote : note.Incomplete) :
    (⟨[], [], [], [note]⟩ : Found D).Noted := by
  constructor
  · intro other h
    obtain rfl := List.mem_singleton.1 h
    exact hnote
  · intro other h
    cases h
  · intro other h
    cases h

theorem noted_rejected (path : PathBuf) {kind : ScanNoteKind} (detail : Text)
    (hkind : ¬ (kind = .raced ∨ kind = .unreadable)) :
    (rejected path kind detail : Found D).Noted := by
  constructor
  · intro note h
    cases h
  · intro note h
    obtain rfl := List.mem_singleton.1 h
    exact hkind
  · intro note h
    cases h

theorem noted_oversized (path : PathBuf) (detail : Text) :
    (oversized path detail : Found D).Noted := by
  constructor
  · intro note h
    cases h
  · intro note h
    cases h
  · intro note h
    obtain rfl := List.mem_singleton.1 h
    rintro (hkind | hkind) <;> cases hkind

theorem Found.Noted.append {a b : Found D} (ha : a.Noted) (hb : b.Noted) :
    (a ++ b).Noted := by
  constructor
  · intro note h
    exact (List.mem_append.1 h).elim (ha.unknown note) (hb.unknown note)
  · intro note h
    exact (List.mem_append.1 h).elim (ha.rejected note) (hb.rejected note)
  · intro note h
    exact (List.mem_append.1 h).elim (ha.oversized note) (hb.oversized note)

/-- What an entry may come to, when it is known what makes a page of it and
what settles it otherwise. -/
inductive Outcome (corpus : CorpusKind) (path : PathBuf)
    (page : NodeState → Bytes → Prop) (settled : Prop) (found : Found D) : Prop
  | present (state : NodeState) (content : Bytes) (hpage : page state content)
      (hfound : found = ⟨[pageOf path corpus state content], [], [], []⟩)
  | settled (hsettled : settled) (hpresent : found.present = [])
      (hunknown : found.unknown = []) (hnoted : found.Noted)
  | unknown (note : ScanNote) (hpath : note.path = path) (hnote : note.Incomplete)
      (hfound : found = ⟨[], [], [], [note]⟩)

variable {corpus : CorpusKind} {path : PathBuf} {page : NodeState → Bytes → Prop}
  {settled : Prop}

theorem outcome_raced (detail : Text) :
    Outcome corpus path page settled (raced path detail : Found D) :=
  .unknown ⟨path, .raced, detail⟩ rfl (.inl rfl) rfl

theorem outcome_unreadable (detail : Text) :
    Outcome corpus path page settled (unreadable path detail : Found D) :=
  .unknown ⟨path, .unreadable, detail⟩ rfl (.inr rfl) rfl

theorem errnoNoteKind_incomplete (error : Errno) :
    errnoNoteKind error = .raced ∨ errnoNoteKind error = .unreadable := by
  unfold errnoNoteKind
  cases error.code with
  | access => exact .inr rfl
  | perm => exact .inr rfl
  | noent => exact .inl rfl
  | other => exact .inr rfl

theorem outcome_entryError (error : Errno) (context : String) :
    Outcome corpus path page settled (entryError path error context : Found D) :=
  .unknown ⟨path, errnoNoteKind error, withError context error⟩ rfl
    (errnoNoteKind_incomplete error) rfl

theorem outcome_bindingOpenError (candidate : NodeState) (error : Errno)
    (current : Except Errno NodeState) (context : String) :
    Outcome corpus path page settled
      (bindingOpenError path candidate error current context : Found D) := by
  unfold bindingOpenError
  split
  · split
    · exact outcome_unreadable _
    · exact outcome_raced _
  · exact outcome_raced _

theorem Outcome.mono {page' : NodeState → Bytes → Prop} {settled' : Prop}
    {found : Found D} (h : Outcome corpus path page settled found)
    (hpage : ∀ state content, page state content → page' state content)
    (hsettled : settled → settled') : Outcome corpus path page' settled' found := by
  cases h with
  | present state content hsafe hfound =>
      exact .present state content (hpage state content hsafe) hfound
  | settled h hpresent hunknown hnoted =>
      exact .settled (hsettled h) hpresent hunknown hnoted
  | unknown note hpath hnote hfound => exact .unknown note hpath hnote hfound

/-- A binding is coherent when the name and the descriptor agree on the file
that was opened. -/
theorem coherentFileBinding_eq_ok {binding : Binding} {expected state : NodeState} :
    coherentFileBinding binding expected = .ok state ↔
      binding = ⟨.ok state, .ok state⟩ ∧ SameFile state expected := by
  constructor
  · intro h
    rcases binding with ⟨descriptor, named⟩
    rcases descriptor with error | opened
    · exact absurd h (by simp [coherentFileBinding])
    rcases named with error | named
    · exact absurd h (by simp [coherentFileBinding])
    unfold coherentFileBinding at h
    dsimp only at h
    split at h
    · exact absurd h (by simp)
    · rename_i hsame
      split at h
      · exact absurd h (by simp)
      · rename_i hnamed
        obtain rfl := Except.ok.inj h
        push Not at hsame hnamed
        obtain ⟨hdevice, hinode, _, _, _, hkind⟩ := hsame
        exact ⟨by rw [hnamed], hdevice, hinode, hkind⟩
  · rintro ⟨rfl, hdevice, hinode, hkind⟩
    simp [coherentFileBinding, hdevice, hinode, hkind]

theorem coherentFileBinding_self {state : NodeState} (h : state.kind = .regularFile) :
    coherentFileBinding ⟨.ok state, .ok state⟩ state = .ok state :=
  coherentFileBinding_eq_ok.2 ⟨rfl, rfl, rfl, h⟩

theorem bounded_eq {content : Bytes} (h : content.length ≤ maxFileBytes.toNat) :
    bounded content = content :=
  List.take_of_length_le (h.trans (Nat.le_succ _))

theorem length_bounded (content : Bytes) :
    maxFileBytes.toNat < (bounded content).length ↔
      maxFileBytes.toNat < content.length := by
  unfold bounded
  rw [List.length_take]
  omega

/-- What the read of a page may come to. -/
theorem readFile_outcome {state : NodeState} {answers : FileAnswers}
    (hopen : answers.failOpen = false)
    (hopened : answers.opening = .opened (.ok state))
    (hbefore : answers.beforeRead = ⟨.ok state, .ok state⟩) :
    Outcome corpus path
      (fun current content => current = state ∧ ReadSteadily answers state content)
      (Grown answers state) (readFile path corpus state answers : Found D) := by
  unfold readFile
  split
  · exact outcome_unreadable _
  · rename_i content hread
    dsimp only
    split
    · exact outcome_raced _
    · rename_i current hafter
      obtain ⟨hbound, hsame⟩ := coherentFileBinding_eq_ok.1 hafter
      split
      · rename_i hlarge
        rw [length_bounded] at hlarge
        exact .settled (.afterRead current content hopen hopened hbefore hread
          hbound hsame hlarge) rfl rfl (noted_oversized _ _)
      · rename_i hlarge
        push Not at hlarge
        have hlength := hlarge.1
        rw [← Nat.not_lt, length_bounded, Nat.not_lt] at hlength
        rw [bounded_eq hlength]
        split
        · exact outcome_raced _
        · rename_i hunchanged
          push Not at hunchanged
          obtain ⟨rfl, hsize⟩ := hunchanged
          exact .present current content ⟨rfl, hopen, hopened, hbefore, hread,
            hbound, hsize.symm⟩ rfl

/-- What an opened page may come to. -/
theorem scanOpened_outcome {state opened : NodeState} {answers : FileAnswers}
    (hopen : answers.failOpen = false)
    (hopened : answers.opening = .opened (.ok opened)) :
    Outcome corpus path
      (fun current content => current = state ∧ ReadSteadily answers state content)
      (Grown answers state)
      (scanOpened path corpus state opened answers : Found D) := by
  unfold scanOpened
  split
  · exact outcome_raced _
  · rename_i hsame
    push Not at hsame
    split
    · exact outcome_raced _
    · rename_i hkind
      push Not at hkind
      split
      · rename_i hlarge
        exact .settled (.opened opened hopen hopened ⟨hsame.1, hsame.2, hkind⟩ hlarge)
          rfl rfl (noted_oversized _ _)
      · split
        · exact outcome_raced _
        · rename_i heq
          push Not at heq
          subst heq
          split
          · exact outcome_raced _
          · rename_i before hcoherent
            obtain ⟨hbound, hbefore⟩ := coherentFileBinding_eq_ok.1 hcoherent
            split
            · rename_i hlarge
              exact .settled (.beforeRead before hopen hopened hbound hbefore hlarge)
                rfl rfl (noted_oversized _ _)
            · split
              · exact outcome_raced _
              · rename_i heq
                push Not at heq
                subst heq
                exact readFile_outcome hopen hopened hbound

/-- What a Markdown file may come to. -/
theorem scanFile_outcome {state : NodeState} {answers : FileAnswers} :
    Outcome corpus path
      (fun current content => current = state ∧ state.nlink ≤ 1 ∧
        state.size ≤ maxFileBytes ∧ ReadSteadily answers state content)
      (1 < state.nlink ∨ maxFileBytes < state.size ∨ Grown answers state)
      (scanFile path corpus state answers : Found D) := by
  unfold scanFile
  split
  · rename_i hlinks
    exact .settled (.inl hlinks) rfl rfl (noted_rejected _ _ (by decide))
  · rename_i hlinks
    split
    · rename_i hlarge
      exact .settled (.inr (.inl hlarge)) rfl rfl (noted_oversized _ _)
    · rename_i hlarge
      rw [UInt64.not_lt] at hlinks hlarge
      split
      · exact outcome_unreadable _
      · rename_i hopen
        rw [Bool.not_eq_true] at hopen
        split
        · exact outcome_bindingOpenError _ _ _ _
        · exact outcome_unreadable _
        · rename_i opened hopened
          apply (scanOpened_outcome hopen hopened).mono
          · intro current content h
            exact ⟨h.1, hlinks, hlarge, h.2⟩
          · intro h
            exact .inr (.inr h)

/-- What inspecting an entry may come to: a directory to descend into, or
nothing more. -/
inductive Inspection (corpus : CorpusKind) (path : PathBuf) (name : Bytes)
    (answers : Answers) (result : Found D × EntryAction) : Prop
  | entered (state : NodeState) (hentered : Entered path name answers state)
      (hresult : result = (.nothing, .descend path state))
  | done (hresult : Outcome corpus path (SafePage path answers)
      (Excluded path name answers) result.1) (hdone : result.2 = .done)

theorem openDirectory_inspection {name : Bytes} {answers : Answers}
    {state : NodeState} (hstat : answers.stat = .ok state)
    (hkind : state.kind = .directory) (hvisible : name.head? ≠ some 0x2e)
    (hpage : hasMarkdownExtension path = false) :
    Inspection corpus path name answers
      (openDirectory path state answers.directory : Found D × EntryAction) := by
  unfold openDirectory
  split
  · exact .done (outcome_bindingOpenError _ _ _ _) rfl
  · exact .done (outcome_unreadable _) rfl
  · rename_i opened hopened
    split
    · exact .done (outcome_raced _) rfl
    · rename_i heq
      push Not at heq
      obtain ⟨rfl, _⟩ := heq
      exact .entered opened ⟨hstat, hkind, hvisible, hpage, hopened⟩ rfl

theorem inspectEntry_inspection (directory : PathBuf) (name : Bytes)
    (answers : Answers) :
    Inspection corpus (PathBytes.join directory name) name answers
      (inspectEntry directory name corpus answers : Found D × EntryAction) := by
  unfold inspectEntry
  dsimp only
  split
  · exact .done (outcome_entryError _ _) rfl
  · rename_i state hstat
    split
    · rename_i hkind
      exact .done (.settled (.symlink state hstat hkind) rfl rfl
      (noted_rejected _ _ (by decide))) rfl
    · split
      · rename_i hkind
        split
        · rename_i hname
          exact .done (.settled (.hidden state hstat hkind hname) rfl rfl
          noted_nothing) rfl
        · rename_i hvisible
          split
          · rename_i hpage
            exact .done (.settled (.namedLikePage state hstat hkind hpage) rfl rfl
            (noted_rejected _ _ (by decide))) rfl
          · rename_i hpage
            rw [Bool.not_eq_true] at hpage
            exact openDirectory_inspection hstat hkind hvisible hpage
      · rename_i hkind
        split
        · rename_i hpage
          rw [Bool.not_eq_true'] at hpage
          exact .done (.settled (.notMarkdown state hstat hkind hpage) rfl rfl
          noted_nothing) rfl
        · rename_i hpage
          rw [Bool.not_eq_true', Bool.not_eq_false] at hpage
          split
          · rename_i hname
            exact .done (.settled (.navigation state hstat hkind hname) rfl rfl
            (noted_rejected _ _ (by decide))) rfl
          · rename_i hname
            rw [Bool.not_eq_true] at hname
            split
            · rename_i hspecial
              exact .done (.settled (.special state hstat hkind hspecial) rfl rfl
              (noted_rejected _ _ (by decide))) rfl
            · rename_i hregular
              push Not at hregular
              apply Inspection.done _ rfl
              apply scanFile_outcome.mono
              · rintro current content ⟨rfl, hlinks, hsmall, hread⟩
                exact ⟨hstat, hregular, hpage, hname, hlinks, hsmall, hread⟩
              · rintro (hlinks | hlarge | hgrown)
                · exact .hardLinked state hstat hregular hlinks
                · exact .large state hstat hregular hlarge
                · exact .grown state hstat hregular hgrown

theorem readFile_of_steady {state : NodeState} {answers : FileAnswers}
    {content : Bytes} (h : ReadSteadily answers state content)
    (hregular : state.kind = .regularFile) (hsmall : state.size ≤ maxFileBytes) :
    readFile path corpus state answers =
      (⟨[pageOf path corpus state content], [], [], []⟩ : Found D) := by
  have hlength : content.length ≤ maxFileBytes.toNat := by
    rw [h.length_eq]
    exact hsmall
  have hnot : ¬ (maxFileBytes.toNat < content.length ∨ maxFileBytes < state.size) :=
    not_or.2 ⟨Nat.not_lt.2 hlength, UInt64.not_lt.2 hsmall⟩
  unfold readFile
  rw [h.read_eq]
  dsimp only
  rw [h.afterRead_eq, coherentFileBinding_self hregular, bounded_eq hlength]
  dsimp only
  rw [if_neg hnot, if_neg (by simp [h.length_eq])]

theorem inspectEntry_of_safe {directory : PathBuf} {name : Bytes}
    {answers : Answers} {state : NodeState} {content : Bytes}
    (h : SafePage (PathBytes.join directory name) answers state content) :
    inspectEntry directory name corpus answers =
      ((⟨[pageOf (PathBytes.join directory name) corpus state content], [], [],
        []⟩ : Found D), .done) := by
  have hnot := UInt64.not_lt.2 h.small
  unfold inspectEntry
  simp only [h.stat_eq, h.regular, h.markdown, h.notNavigation, scanFile,
    UInt64.not_lt.2 h.singleLink, hnot, h.steady.openable, h.steady.opening_eq,
    scanOpened, h.steady.beforeRead_eq, coherentFileBinding_self h.regular,
    readFile_of_steady h.steady h.regular h.small]
  simp

theorem inspectEntry_of_entered {directory : PathBuf} {name : Bytes}
    {answers : Answers} {state : NodeState}
    (h : Entered (PathBytes.join directory name) name answers state) :
    inspectEntry directory name corpus answers =
      ((.nothing : Found D), .descend (PathBytes.join directory name) state) := by
  unfold inspectEntry openDirectory
  simp [h.stat_eq, h.directory, h.visible, h.notPage, h.opening_eq]

/-- A page that grew beyond the cap is settled, however far the scan got. -/
theorem scanFile_of_grown {state : NodeState} {answers : FileAnswers}
    (hkind : state.kind = .regularFile) (h : Grown answers state) :
    (scanFile path corpus state answers : Found D).unknown = [] := by
  unfold scanFile
  split
  · rfl
  · split
    · rfl
    · rename_i hsmall
      rcases h with ⟨current, hopen, hopened, hsame, hlarge⟩ |
        ⟨current, hopen, hopened, hbefore, hsame, hlarge⟩ |
        ⟨current, content, hopen, hopened, hbefore, hread, hafter, hsame, hlarge⟩
      · simp [hopen, hopened, scanOpened, hsame.device_eq, hsame.inode_eq,
          hsame.regular, hlarge, oversized]
      · have hbound := coherentFileBinding_eq_ok.2 ⟨hbefore, hsame⟩
        simp [hopen, hopened, scanOpened, hkind, hsmall, hbound, hlarge, oversized]
      · have hfirst := coherentFileBinding_eq_ok.2 ⟨hbefore, rfl, rfl, hkind⟩
        have hsecond := coherentFileBinding_eq_ok.2 ⟨hafter, hsame⟩
        rw [← length_bounded] at hlarge
        simp [hopen, hopened, scanOpened, hkind, hsmall, hfirst, readFile, hread,
          hsecond, hlarge, oversized]

/-- An excluded entry leaves nothing unknown. -/
theorem inspectEntry_of_excluded {directory : PathBuf} {name : Bytes}
    {answers : Answers}
    (h : Excluded (PathBytes.join directory name) name answers) :
    (inspectEntry (D := D) directory name corpus answers).1.unknown = [] := by
  unfold inspectEntry
  rcases h with ⟨state, hstat, hkind⟩ | ⟨state, hstat, hkind, hname⟩ |
    ⟨state, hstat, hkind, hpage⟩ | ⟨state, hstat, hkind, hpage⟩ |
    ⟨state, hstat, hkind, hname⟩ | ⟨state, hstat, hkind, hspecial⟩ |
    ⟨state, hstat, hkind, hlinks⟩ | ⟨state, hstat, hkind, hlarge⟩ |
    ⟨state, hstat, hkind, hgrown⟩
  · simp [hstat, hkind, rejected]
  · simp [hstat, hkind, hname, Found.nothing]
  · simp only [hstat, hkind, hpage]
    split_ifs <;> simp_all [Found.nothing, rejected]
  · simp only [hstat, hkind, hpage]
    split_ifs <;> simp_all [Found.nothing, rejected]
  · simp only [hstat, hkind, hname]
    split_ifs <;> simp_all [Found.nothing, rejected]
  · simp only [hstat, hkind]
    split_ifs <;> simp_all [Found.nothing, rejected]
  · simp only [hstat, hkind, scanFile, if_pos hlinks]
    split_ifs <;> simp_all [Found.nothing, rejected]
  · simp only [hstat, hkind, scanFile, if_pos hlarge]
    split_ifs <;> simp_all [Found.nothing, rejected, oversized]
  · have hscan := @scanFile_of_grown D _ corpus (PathBytes.join directory name) _ _
      hkind hgrown
    simp only [hstat, hkind]
    split_ifs <;> simp_all [Found.nothing, rejected]

/-- An entry leaves something unknown when its state could not be established. -/
theorem inspectEntry_unknown_eq_nil (corpus : CorpusKind) {directory : PathBuf}
    {name : Bytes} {answers : Answers} :
    (inspectEntry (D := D) directory name corpus answers).1.unknown = [] ↔
      Established (PathBytes.join directory name) name answers := by
  constructor
  · intro h
    have hcases : Inspection corpus _ name answers
        (inspectEntry (D := D) directory name corpus answers) :=
      inspectEntry_inspection directory name answers
    rcases hcases with ⟨state, hentered, _⟩ | ⟨houtcome, _⟩
    · exact .inr (.inr ⟨state, hentered⟩)
    · rcases houtcome with ⟨state, content, hsafe, _⟩ | ⟨hexcluded, _, _, _⟩ |
        ⟨note, _, _, hfound⟩
      · exact .inr (.inl ⟨state, content, hsafe⟩)
      · exact .inl hexcluded
      · rw [hfound] at h
        exact absurd h (List.cons_ne_nil _ _)
  · rintro (hexcluded | ⟨state, content, hsafe⟩ | ⟨state, hentered⟩)
    · exact inspectEntry_of_excluded hexcluded
    · rw [inspectEntry_of_safe hsafe]
    · rw [inspectEntry_of_entered hentered]
      rfl

end Entries

section Trees

/-- An entry of a directory, whether or not the stream gets to it. -/
inductive Stream.Holds : Stream → Bytes → Answers → Directory → Prop
  | here (name : Bytes) (answers : Answers) (below : Directory)
      (failIteration : Bool) (rest : Stream) (hdot : isDotName name = false) :
      Stream.Holds (.entry name answers below failIteration rest) name answers below
  | later (first : Bytes) (asked : Answers) (inside : Directory)
      (failIteration : Bool) (rest : Stream) (name : Bytes) (answers : Answers)
      (below : Directory) (h : rest.Holds name answers below) :
      Stream.Holds (.entry first asked inside failIteration rest) name answers below
  | unread (error : Errno) (rest : Stream) (name : Bytes) (answers : Answers)
      (below : Directory) (h : rest.Holds name answers below) :
      Stream.Holds (.failed error rest) name answers below

theorem Stream.Holds.turns_lt {stream : Stream} {name : Bytes} {answers : Answers}
    {below : Directory} (h : stream.Holds name answers below) :
    below.turns < stream.turns := by
  induction h with
  | here name answers below failIteration rest hdot =>
      change below.turns < below.turns + rest.turns + 1
      omega
  | later first asked inside failIteration rest name answers below h ih =>
      change below.turns < inside.turns + rest.turns + 1
      omega
  | unread error rest name answers below h ih =>
      change below.turns < rest.turns + 1
      omega

/-- A stream that is read to its end. -/
def Stream.Complete : Stream → Prop
  | .exhausted => True
  | .failed _ _ => False
  | .entry name _ _ failIteration rest =>
      (isDotName name = false → failIteration = false) ∧ rest.Complete

/-- A directory that is observed completely: its stream is read to the end, and
then it is what it was at its start, under the name it was entered by. -/
structure Directory.Observed (directory : Directory) (isRoot : Bool)
    (start : NodeState) : Prop where
  opened : directory.streamError = none
  complete : directory.stream.Complete
  descriptor_eq : directory.closing.descriptor = .ok start
  named_eq : isRoot = false → directory.closing.named = .ok start

/-- The pages of a directory: the safe pages among its entries, and those of the
directories that it is descended into, if it is observed completely. -/
inductive PageIn (corpus : CorpusKind) :
    Directory → PathBuf → Bool → NodeState → ScannedPage D → Prop
  | entry (directory : Directory) (path : PathBuf) (isRoot : Bool)
      (start state : NodeState) (name content : Bytes) (answers : Answers)
      (below : Directory) (hobserved : directory.Observed isRoot start)
      (hholds : directory.stream.Holds name answers below)
      (hsafe : SafePage (PathBytes.join path name) answers state content) :
      PageIn corpus directory path isRoot start
        (pageOf (PathBytes.join path name) corpus state content)
  | deeper (directory : Directory) (path : PathBuf) (isRoot : Bool)
      (start state : NodeState) (name : Bytes) (answers : Answers)
      (below : Directory) (page : ScannedPage D)
      (hobserved : directory.Observed isRoot start)
      (hholds : directory.stream.Holds name answers below)
      (hentered : Entered (PathBytes.join path name) name answers state)
      (hpage : PageIn corpus below (PathBytes.join path name) false state page) :
      PageIn corpus directory path isRoot start page

/-- Something at or below a directory, with its path and the paths of the
directories it lies in, from the outermost on. -/
inductive Lies : Directory → PathBuf → List PathBuf → Prop
  | self (directory : Directory) (path : PathBuf) : Lies directory path [path]
  | deeper (directory : Directory) (path : PathBuf) (name : Bytes)
      (answers : Answers) (below : Directory) (covers : List PathBuf)
      (hholds : directory.stream.Holds name answers below)
      (h : Lies below (PathBytes.join path name) covers) :
      Lies directory path (path :: covers)

/-- Something whose state could not be established: it lies in a directory that
is not observed completely, or is or lies below an entry that could not be
inspected. -/
inductive Unestablished :
    Directory → PathBuf → Bool → NodeState → List PathBuf → Prop
  | unobserved (directory : Directory) (path : PathBuf) (isRoot : Bool)
      (start : NodeState) (covers : List PathBuf)
      (hunobserved : ¬ directory.Observed isRoot start)
      (hlies : Lies directory path covers) :
      Unestablished directory path isRoot start covers
  | entry (directory : Directory) (path : PathBuf) (isRoot : Bool)
      (start : NodeState) (name : Bytes) (answers : Answers) (below : Directory)
      (covers : List PathBuf)
      (hholds : directory.stream.Holds name answers below)
      (hentry : ¬ Established (PathBytes.join path name) name answers)
      (hlies : Lies below (PathBytes.join path name) covers) :
      Unestablished directory path isRoot start (path :: covers)
  | deeper (directory : Directory) (path : PathBuf) (isRoot : Bool)
      (start state : NodeState) (name : Bytes) (answers : Answers)
      (below : Directory) (covers : List PathBuf)
      (hholds : directory.stream.Holds name answers below)
      (hentered : Entered (PathBytes.join path name) name answers state)
      (h : Unestablished below (PathBytes.join path name) false state covers) :
      Unestablished directory path isRoot start (path :: covers)

/-- What an entry and everything below it contribute. -/
def contribution (corpus : CorpusKind) (path : PathBuf) (name : Bytes)
    (answers : Answers) (below : Directory) : Found D :=
  (inspectEntry path name corpus answers).1 ++
    descended corpus below (inspectEntry (D := D) path name corpus answers).2

variable {corpus : CorpusKind}

theorem Stream.complete_iff (corpus : CorpusKind) (path : PathBuf) (stream : Stream) :
    stream.Complete ↔ (stream.found (D := D) corpus path).2 = true := by
  cases stream with
  | exhausted => simp [Stream.Complete, Stream.found]
  | failed error rest => simp [Stream.Complete, Stream.found]
  | entry name answers below failIteration rest =>
      have ih := Stream.complete_iff corpus path rest
      cases hdot : isDotName name with
      | true =>
          rw [Stream.found, if_pos hdot, ← ih, Stream.Complete, hdot]
          simp
      | false =>
          rw [found_entry path hdot, Stream.Complete, hdot, ih]
          simp

theorem Stream.holds_entry {first name : Bytes} {asked answers : Answers}
    {inside below : Directory} {failIteration : Bool} {rest : Stream} :
    (Stream.entry first asked inside failIteration rest).Holds name answers below ↔
      (isDotName first = false ∧ name = first ∧ answers = asked ∧ below = inside) ∨
        rest.Holds name answers below := by
  constructor
  · intro h
    cases h with
    | here _ _ _ _ _ hdot => exact .inl ⟨hdot, rfl, rfl, rfl⟩
    | later _ _ _ _ _ _ _ _ h => exact .inr h
  · rintro (⟨hdot, rfl, rfl, rfl⟩ | h)
    · exact .here name answers below failIteration rest hdot
    · exact .later first asked inside failIteration rest name answers below h

/-- A completely read stream contributes what its entries contribute, in any
part of the report. -/
theorem Stream.mem_found {α : Type} (part : Found D → List α)
    (happend : ∀ a b, part (a ++ b) = part a ++ part b)
    (hnothing : part .nothing = []) (path : PathBuf) (x : α) :
    ∀ stream : Stream, stream.Complete →
      (x ∈ part (stream.found corpus path).1 ↔
        ∃ name answers below, stream.Holds name answers below ∧
          x ∈ part (contribution corpus path name answers below))
  | .exhausted, _ => by
      rw [Stream.found, hnothing]
      constructor
      · intro h
        exact absurd h List.not_mem_nil
      · rintro ⟨_, _, _, h, _⟩
        cases h
  | .failed error rest, hcomplete => hcomplete.elim
  | .entry name answers below failIteration rest, hcomplete => by
      have ih := Stream.mem_found part happend hnothing path x rest hcomplete.2
      simp only [Stream.holds_entry]
      cases hdot : isDotName name with
      | true =>
          rw [Stream.found, if_pos hdot, ih]
          simp
      | false =>
          obtain rfl := hcomplete.1 hdot
          rw [found_entry path hdot]
          change x ∈ part (_ ++ .nothing ++ _ ++ _) ↔ _
          rw [Found.append_nothing, happend, List.mem_append, if_neg Bool.false_ne_true,
            ih]
          constructor
          · rintro (h | ⟨other, asked, inside, hholds, h⟩)
            · exact ⟨name, answers, below, .inl ⟨rfl, rfl, rfl, rfl⟩, h⟩
            · exact ⟨other, asked, inside, .inr hholds, h⟩
          · rintro ⟨other, asked, inside, ⟨_, rfl, rfl, rfl⟩ | hholds, h⟩
            · exact .inl h
            · exact .inr ⟨other, asked, inside, hholds, h⟩

/-- A stream that is not read to its end leaves a note at its directory. -/
theorem Stream.exists_note (path : PathBuf) : ∀ stream : Stream,
    ¬ stream.Complete →
      ∃ note ∈ (stream.found (D := D) corpus path).1.unknown, note.path = path
  | .exhausted, h => absurd trivial h
  | .failed error rest, _ => by
      rw [Stream.found]
      exact ⟨_, List.mem_singleton_self _, rfl⟩
  | .entry name answers below failIteration rest, h => by
      have ih := Stream.exists_note path rest
      cases hdot : isDotName name with
      | true =>
          rw [Stream.found, if_pos hdot]
          apply ih
          intro hrest
          exact h ⟨fun hname => absurd (hdot.symm.trans hname) (by decide), hrest⟩
      | false =>
          rw [found_entry path hdot]
          cases failIteration with
          | true =>
              refine ⟨⟨path, .unreadable,
                "injected directory iteration failure".toList⟩, ?_, rfl⟩
              simp [interruption, unreadable]
          | false =>
              obtain ⟨note, hnote, hpath⟩ := ih fun hrest => h ⟨fun _ => rfl, hrest⟩
              exact ⟨note, by simp [hnote], hpath⟩

theorem Directory.observed_iff {directory : Directory} {isRoot : Bool}
    {start : NodeState} :
    directory.Observed isRoot start ↔ directory.streamError = none ∧
      directory.stream.Complete ∧ stableAt isRoot start directory.closing = true := by
  have hstable : stableAt isRoot start directory.closing = true ↔
      directory.closing.descriptor = .ok start ∧
        (isRoot = false → directory.closing.named = .ok start) := by
    unfold stableAt
    cases directory.closing.descriptor with
    | error error => simp
    | ok opened =>
        cases directory.closing.named with
        | error error => cases isRoot <;> simp
        | ok named => cases isRoot <;> simp
  constructor
  · rintro ⟨hopened, hcomplete, hdescriptor, hnamed⟩
    exact ⟨hopened, hcomplete, hstable.2 ⟨hdescriptor, hnamed⟩⟩
  · rintro ⟨hopened, hcomplete, h⟩
    exact ⟨hopened, hcomplete, (hstable.1 h).1, (hstable.1 h).2⟩

/-- A directory that is observed completely contributes what its entries
contribute. -/
theorem Directory.found_of_observed {directory : Directory} {isRoot : Bool}
    {start : NodeState} (path : PathBuf) (h : directory.Observed isRoot start) :
    directory.found (D := D) corpus path isRoot start =
      (directory.stream.found corpus path).1 := by
  obtain ⟨hopened, hcomplete, hstable⟩ := Directory.observed_iff.1 h
  rcases directory with ⟨error, stream, closing⟩
  change error = none at hopened
  subst hopened
  change stableAt isRoot start closing = true at hstable
  rw [Stream.complete_iff (D := D) corpus path] at hcomplete
  change (stream.found (D := D) corpus path).2 = true at hcomplete
  rw [Directory.found, hstable, hcomplete]
  rfl

theorem settle_incomplete (path : PathBuf) (stable complete : Bool)
    (found : Found D) (h : (stable && complete) = false)
    (hnote : complete = false → ∃ note ∈ found.unknown, note.path = path) :
    (settle path stable complete found).present = [] ∧
      ∃ note ∈ (settle path stable complete found).unknown, note.path = path := by
  unfold settle
  cases stable with
  | true =>
      change complete = false at h
      obtain ⟨note, hmem, hpath⟩ := hnote h
      subst h
      exact ⟨rfl, note, hmem, hpath⟩
  | false =>
      refine ⟨rfl, ⟨path, .raced,
        "directory namespace changed while it was being scanned".toList⟩, ?_, rfl⟩
      simp [raced]

/-- Any other directory contributes no page, and a note at its path. -/
theorem Directory.found_of_unobserved {directory : Directory} {isRoot : Bool}
    {start : NodeState} (path : PathBuf) (h : ¬ directory.Observed isRoot start) :
    (directory.found (D := D) corpus path isRoot start).present = [] ∧
      ∃ note ∈ (directory.found (D := D) corpus path isRoot start).unknown,
        note.path = path := by
  rcases directory with ⟨error, stream, closing⟩
  cases error with
  | some error =>
      rw [Directory.found]
      apply settle_incomplete
      · exact Bool.and_false _
      · intro _
        exact ⟨_, List.mem_singleton_self _, rfl⟩
  | none =>
      rw [Directory.found]
      apply settle_incomplete
      · rw [Bool.and_eq_false_iff, or_iff_not_and_not, Bool.not_eq_false,
          Bool.not_eq_false, ← Stream.complete_iff corpus]
        intro hboth
        exact h (Directory.observed_iff.2 ⟨rfl, hboth.2, hboth.1⟩)
      · intro hincomplete
        apply Stream.exists_note
        rw [Stream.complete_iff (D := D) corpus path, hincomplete]
        exact Bool.false_ne_true

theorem mem_present_contribution {path : PathBuf} {name : Bytes} {answers : Answers}
    {below : Directory} {page : ScannedPage D} :
    page ∈ (contribution corpus path name answers below).present ↔
      (∃ state content, SafePage (PathBytes.join path name) answers state content ∧
        page = pageOf (PathBytes.join path name) corpus state content) ∨
      ∃ state, Entered (PathBytes.join path name) name answers state ∧
        page ∈ (below.found (D := D) corpus (PathBytes.join path name) false
          state).present := by
  unfold contribution
  rw [present_append, List.mem_append]
  constructor
  · intro h
    have hcases : Inspection corpus _ name answers
        (inspectEntry (D := D) path name corpus answers) :=
      inspectEntry_inspection path name answers
    rcases hcases with ⟨state, hentered, hresult⟩ | ⟨houtcome, hdone⟩
    · rw [hresult] at h
      exact .inr ⟨state, hentered, h.resolve_left List.not_mem_nil⟩
    · rw [hdone] at h
      have hpage := h.resolve_right List.not_mem_nil
      rcases houtcome with ⟨state, content, hsafe, hfound⟩ | ⟨_, hpresent, _, _⟩ |
        ⟨note, _, _, hfound⟩
      · rw [hfound] at hpage
        exact .inl ⟨state, content, hsafe, List.mem_singleton.1 hpage⟩
      · rw [hpresent] at hpage
        exact absurd hpage List.not_mem_nil
      · rw [hfound] at hpage
        exact absurd hpage List.not_mem_nil
  · rintro (⟨state, content, hsafe, rfl⟩ | ⟨state, hentered, hpage⟩)
    · rw [inspectEntry_of_safe hsafe]
      exact .inl (List.mem_singleton_self _)
    · rw [inspectEntry_of_entered hentered]
      exact .inr hpage

theorem Directory.turns_stream (directory : Directory) :
    directory.stream.turns = directory.turns := by
  cases directory
  rfl

/-- The pages found in a directory are the pages of the directory. -/
theorem Directory.mem_present (corpus : CorpusKind) (directory : Directory)
    (path : PathBuf) (isRoot : Bool) (start : NodeState) (page : ScannedPage D) :
    page ∈ (directory.found corpus path isRoot start).present ↔
      PageIn corpus directory path isRoot start page := by
  constructor
  · induction hturns : directory.turns using Nat.strong_induction_on
      generalizing directory path isRoot start with
    | h turns ih =>
        intro hpage
        by_cases hobserved : directory.Observed isRoot start
        · rw [Directory.found_of_observed path hobserved, Stream.mem_found
            Found.present present_append rfl path page _ hobserved.complete] at hpage
          obtain ⟨name, answers, below, hholds, hpage⟩ := hpage
          rcases mem_present_contribution.1 hpage with
            ⟨state, content, hsafe, rfl⟩ | ⟨state, hentered, hpage⟩
          · exact .entry directory path isRoot start state name content answers below
              hobserved hholds hsafe
          · have hlt : below.turns < turns := by
              rw [← hturns, ← directory.turns_stream]
              exact hholds.turns_lt
            exact .deeper directory path isRoot start state name answers below page
              hobserved hholds hentered (ih below.turns hlt below _ _ _ rfl hpage)
        · rw [(Directory.found_of_unobserved path hobserved).1] at hpage
          exact absurd hpage List.not_mem_nil
  · intro h
    induction h with
    | entry directory path isRoot start state name content answers below hobserved
        hholds hsafe =>
        rw [Directory.found_of_observed path hobserved, Stream.mem_found
          Found.present present_append rfl path _ _ hobserved.complete]
        exact ⟨name, answers, below, hholds,
          mem_present_contribution.2 (.inl ⟨state, content, hsafe, rfl⟩)⟩
    | deeper directory path isRoot start state name answers below page hobserved
        hholds hentered hpage ih =>
        rw [Directory.found_of_observed path hobserved, Stream.mem_found
          Found.present present_append rfl path _ _ hobserved.complete]
        exact ⟨name, answers, below, hholds,
          mem_present_contribution.2 (.inr ⟨state, hentered, ih⟩)⟩

/-- What an entry leaves unknown it leaves at its own path. -/
theorem inspectEntry_note {path : PathBuf} {name : Bytes} {answers : Answers}
    {note : ScanNote}
    (h : note ∈ (inspectEntry (D := D) path name corpus answers).1.unknown) :
    note.path = PathBytes.join path name ∧ note.Incomplete := by
  have hcases : Inspection corpus _ name answers
      (inspectEntry (D := D) path name corpus answers) :=
    inspectEntry_inspection path name answers
  rcases hcases with ⟨state, _, hresult⟩ | ⟨houtcome, _⟩
  · rw [hresult] at h
    exact absurd h List.not_mem_nil
  · rcases houtcome with ⟨state, content, _, hfound⟩ | ⟨_, _, hunknown, _⟩ |
      ⟨other, hpath, hnote, hfound⟩
    · rw [hfound] at h
      exact absurd h List.not_mem_nil
    · rw [hunknown] at h
      exact absurd h List.not_mem_nil
    · rw [hfound] at h
      obtain rfl := List.mem_singleton.1 h
      exact ⟨hpath, hnote⟩

theorem mem_unknown_contribution {path : PathBuf} {name : Bytes} {answers : Answers}
    {below : Directory} {note : ScanNote} :
    note ∈ (contribution (D := D) corpus path name answers below).unknown ↔
      note ∈ (inspectEntry (D := D) path name corpus answers).1.unknown ∨
      ∃ state, Entered (PathBytes.join path name) name answers state ∧
        note ∈ (below.found (D := D) corpus (PathBytes.join path name) false
          state).unknown := by
  unfold contribution
  rw [unknown_append, List.mem_append]
  apply or_congr_right
  constructor
  · intro h
    have hcases : Inspection corpus _ name answers
        (inspectEntry (D := D) path name corpus answers) :=
      inspectEntry_inspection path name answers
    rcases hcases with ⟨state, hentered, hresult⟩ | ⟨_, hdone⟩
    · rw [hresult] at h
      exact ⟨state, hentered, h⟩
    · rw [hdone] at h
      exact absurd h List.not_mem_nil
  · rintro ⟨state, hentered, h⟩
    rw [inspectEntry_of_entered hentered]
    exact h

theorem Lies.path_mem {directory : Directory} {path : PathBuf}
    {covers : List PathBuf} (h : Lies directory path covers) : path ∈ covers := by
  cases h with
  | self => exact List.mem_singleton_self path
  | deeper => exact List.mem_cons_self

/-- The paths of something that could not be established begin with that of the
directory. -/
theorem Unestablished.path_mem {directory : Directory} {path : PathBuf}
    {isRoot : Bool} {start : NodeState} {covers : List PathBuf}
    (h : Unestablished directory path isRoot start covers) : path ∈ covers := by
  cases h with
  | @unobserved _ _ _ _ _ _ hlies => exact hlies.path_mem
  | entry => exact List.mem_cons_self
  | deeper => exact List.mem_cons_self

/-- A note of an entry stays, unless the directory has a note itself. -/
theorem Directory.exists_note {directory : Directory} {path : PathBuf}
    {name : Bytes} {answers : Answers} {below : Directory} (isRoot : Bool)
    (start : NodeState) {covers : List PathBuf}
    (hholds : directory.stream.Holds name answers below)
    (hnote : ∃ note ∈ (contribution (D := D) corpus path name answers
      below).unknown, note.path ∈ covers) :
    ∃ note ∈ (directory.found (D := D) corpus path isRoot start).unknown,
      note.path ∈ path :: covers := by
  by_cases hobserved : directory.Observed isRoot start
  · obtain ⟨note, hmem, hpath⟩ := hnote
    refine ⟨note, ?_, List.mem_cons_of_mem path hpath⟩
    rw [Directory.found_of_observed path hobserved, Stream.mem_found Found.unknown
      unknown_append rfl path note _ hobserved.complete]
    exact ⟨name, answers, below, hholds, hmem⟩
  · obtain ⟨note, hmem, hpath⟩ :=
      (@Directory.found_of_unobserved D _ corpus _ _ _ path hobserved).2
    exact ⟨note, hmem, hpath ▸ List.mem_cons_self⟩

/-- Whatever could not be established is covered by a note about it or about a
directory that it lies in; by induction on where it lies. -/
theorem Unestablished.exists_note (corpus : CorpusKind) {directory : Directory}
    {path : PathBuf} {isRoot : Bool} {start : NodeState} {covers : List PathBuf}
    (h : Unestablished directory path isRoot start covers) :
    ∃ note ∈ (directory.found (D := D) corpus path isRoot start).unknown,
      note.path ∈ covers := by
  induction h with
  | unobserved directory path isRoot start covers hunobserved hlies =>
      obtain ⟨note, hnote, hpath⟩ :=
        (@Directory.found_of_unobserved D _ corpus _ _ _ path hunobserved).2
      exact ⟨note, hnote, by rw [hpath]; exact hlies.path_mem⟩
  | entry directory path isRoot start name answers below covers hholds hentry hlies =>
      apply Directory.exists_note isRoot start hholds
      rw [← inspectEntry_unknown_eq_nil (D := D) corpus] at hentry
      obtain ⟨note, hmem⟩ := List.exists_mem_of_ne_nil _ hentry
      refine ⟨note, mem_unknown_contribution.2 (.inl hmem), ?_⟩
      rw [(inspectEntry_note hmem).1]
      exact hlies.path_mem
  | deeper directory path isRoot start state name answers below covers hholds
      hentered h ih =>
      apply Directory.exists_note isRoot start hholds
      obtain ⟨note, hmem, hpath⟩ := ih
      exact ⟨note, mem_unknown_contribution.2 (.inr ⟨state, hentered, hmem⟩), hpath⟩

/-- A note is only left when something could not be established. -/
theorem Directory.exists_unestablished (corpus : CorpusKind) (directory : Directory)
    (path : PathBuf) (isRoot : Bool) (start : NodeState) (note : ScanNote) :
    note ∈ (directory.found (D := D) corpus path isRoot start).unknown →
      ∃ covers, Unestablished directory path isRoot start covers := by
  induction hturns : directory.turns using Nat.strong_induction_on
    generalizing directory path isRoot start with
  | h turns ih =>
      intro hnote
      by_cases hobserved : directory.Observed isRoot start
      · rw [Directory.found_of_observed path hobserved, Stream.mem_found
          Found.unknown unknown_append rfl path note _ hobserved.complete] at hnote
        obtain ⟨name, answers, below, hholds, hnote⟩ := hnote
        rcases mem_unknown_contribution.1 hnote with hentry | ⟨state, hentered, hnote⟩
        · have hnot : ¬ Established (PathBytes.join path name) name answers := by
            rw [← inspectEntry_unknown_eq_nil (D := D) corpus]
            exact List.ne_nil_of_mem hentry
          exact ⟨_, .entry directory path isRoot start name answers below _ hholds
            hnot (.self _ _)⟩
        · have hlt : below.turns < turns := by
            rw [← hturns, ← directory.turns_stream]
            exact hholds.turns_lt
          obtain ⟨covers, h⟩ := ih below.turns hlt below _ _ _ rfl hnote
          exact ⟨_, .deeper directory path isRoot start state name answers below covers
            hholds hentered h⟩
      · exact ⟨_, .unobserved directory path isRoot start [path] hobserved (.self _ _)⟩

theorem inspectEntry_noted (directory : PathBuf) (name : Bytes) (answers : Answers) :
    (inspectEntry (D := D) directory name corpus answers).1.Noted := by
  have hcases : Inspection corpus _ name answers
      (inspectEntry (D := D) directory name corpus answers) :=
    inspectEntry_inspection directory name answers
  rcases hcases with ⟨state, _, hresult⟩ | ⟨houtcome, _⟩
  · rw [hresult]
    exact noted_nothing
  · rcases houtcome with ⟨state, content, _, hfound⟩ | ⟨_, _, _, hnoted⟩ |
      ⟨note, _, hnote, hfound⟩
    · rw [hfound]
      exact noted_present _
    · exact hnoted
    · rw [hfound]
      exact noted_unknown hnote

theorem Found.Noted.settle {found : Found D} (h : found.Noted) (path : PathBuf)
    (stable complete : Bool) : (settle path stable complete found).Noted := by
  have hunknown : found.onlyUnknown.Noted :=
    ⟨h.unknown, fun _ hmem => absurd hmem List.not_mem_nil,
      fun _ hmem => absurd hmem List.not_mem_nil⟩
  unfold Traversal.settle
  cases stable with
  | true =>
      cases complete with
      | true => exact h
      | false => exact hunknown
  | false => exact hunknown.append (noted_unknown (.inl rfl))

mutual

theorem Directory.found_noted (corpus : CorpusKind) :
    ∀ (directory : Directory) (path : PathBuf) (isRoot : Bool) (start : NodeState),
      (directory.found (D := D) corpus path isRoot start).Noted
  | ⟨some error, stream, closing⟩, path, isRoot, start => by
      rw [Directory.found]
      exact (noted_unknown (.inr rfl)).settle path _ _
  | ⟨none, stream, closing⟩, path, isRoot, start => by
      rw [Directory.found]
      exact (Stream.found_noted corpus stream path).settle path _ _

theorem Stream.found_noted (corpus : CorpusKind) :
    ∀ (stream : Stream) (path : PathBuf),
      (stream.found (D := D) corpus path).1.Noted
  | .exhausted, path => by
      rw [Stream.found]
      exact noted_nothing
  | .failed error rest, path => by
      rw [Stream.found]
      exact noted_unknown (.inr rfl)
  | .entry name answers below failIteration rest, path => by
      have hrest := Stream.found_noted corpus rest path
      have hbelow := Directory.found_noted corpus below
      cases hdot : isDotName name with
      | true =>
          rw [Stream.found, if_pos hdot]
          exact hrest
      | false =>
          rw [found_entry path hdot]
          apply Found.Noted.append
          · apply Found.Noted.append
            · apply (inspectEntry_noted path name answers).append
              cases failIteration with
              | true => exact noted_unknown (.inr rfl)
              | false => exact noted_nothing
            · cases (inspectEntry (D := D) path name corpus answers).2 with
              | done => exact noted_nothing
              | descend child state => exact hbelow child false state
          · cases failIteration with
            | true => exact noted_nothing
            | false => exact hrest

end

end Trees

section Corpora

/-- The root of a corpus is pinned, in a state. -/
structure Pinned (corpus : Corpus) (observed : Observation) (base : PinnedComponent)
    (components : List PinnedComponent) (state : NodeState) : Prop where
  pin_eq : openPinned corpus observed.pin = .ok (base, components)
  duplicated : observed.duplicateError = none
  rootState_eq : observed.rootState = .ok state

/-- The pages of a corpus: those of its root, if the root is pinned and still is
where it was when everything below it has been scanned. -/
inductive PageOf (corpus : Corpus) (observed : Observation) (page : ScannedPage D) :
    Prop
  | mk (base : PinnedComponent) (components : List PinnedComponent)
      (state : NodeState) (hpinned : Pinned corpus observed base components state)
      (hvalid : revalidate base components observed.revalidation = true)
      (hpage : PageIn corpus.kind observed.root corpus.path true state page)

/-- Something in a corpus whose state could not be established. -/
inductive Uncertain (corpus : Corpus) (observed : Observation) : List PathBuf → Prop
  | unpinned (covers : List PathBuf)
      (hpinned : ¬ ∃ base components state,
        Pinned corpus observed base components state)
      (hlies : Lies observed.root corpus.path covers) : Uncertain corpus observed covers
  | moved (base : PinnedComponent) (components : List PinnedComponent)
      (state : NodeState) (covers : List PathBuf)
      (hpinned : Pinned corpus observed base components state)
      (hvalid : revalidate base components observed.revalidation = false)
      (hlies : Lies observed.root corpus.path covers) : Uncertain corpus observed covers
  | inside (base : PinnedComponent) (components : List PinnedComponent)
      (state : NodeState) (covers : List PathBuf)
      (hpinned : Pinned corpus observed base components state)
      (h : Unestablished observed.root corpus.path true state covers) :
      Uncertain corpus observed covers

/-- A note about the whole corpus. -/
def AboutRoot (corpus : Corpus) (note : ScanNote) : Prop :=
  note.path = corpus.path ∧ note.Incomplete

theorem openComponent_note {corpus : Corpus} {answers : ComponentAnswers}
    {name : Bytes} {note : ScanNote}
    (h : openComponent corpus answers name = .error note) : AboutRoot corpus note := by
  unfold openComponent at h
  split at h
  · obtain rfl := Except.error.inj h
    exact ⟨rfl, errnoNoteKind_incomplete _⟩
  · split at h
    · obtain rfl := Except.error.inj h
      exact ⟨rfl, .inl rfl⟩
    · split at h
      · obtain rfl := Except.error.inj h
        exact ⟨rfl, errnoNoteKind_incomplete _⟩
      · obtain rfl := Except.error.inj h
        exact ⟨rfl, .inr rfl⟩
      · split at h
        · obtain rfl := Except.error.inj h
          exact ⟨rfl, .inl rfl⟩
        · cases h

theorem openComponents_note {corpus : Corpus} {answers : Nat → ComponentAnswers}
    {note : ScanNote} : ∀ (parts : List PathBytes.Component) (index : Nat),
      openComponents corpus answers index parts = .error note → AboutRoot corpus note
  | [], index, h => by cases h
  | part :: parts, index, h => by
      cases part with
      | normal name =>
          rw [openComponents] at h
          cases hfirst : openComponent corpus (answers index) name with
          | error first =>
              rw [hfirst] at h
              obtain rfl := Except.error.inj h
              exact openComponent_note hfirst
          | ok component =>
              rw [hfirst] at h
              cases hrest : openComponents corpus answers (index + 1) parts with
              | error other =>
                  change (openComponents corpus answers (index + 1) parts >>= _) = _ at h
                  rw [hrest] at h
                  obtain rfl := Except.error.inj h
                  exact openComponents_note parts (index + 1) hrest
              | ok components =>
                  change (openComponents corpus answers (index + 1) parts >>= _) = _ at h
                  rw [hrest] at h
                  cases h
      | _ =>
          rw [openComponents] at h
          · obtain rfl := Except.error.inj h
            exact ⟨rfl, .inl rfl⟩
          · simp

theorem openPinned_note {corpus : Corpus} {answers : PinAnswers} {note : ScanNote}
    (h : openPinned corpus answers = .error note) : AboutRoot corpus note := by
  unfold openPinned at h
  split at h
  · obtain rfl := Except.error.inj h
    exact ⟨rfl, errnoNoteKind_incomplete _⟩
  · obtain rfl := Except.error.inj h
    exact ⟨rfl, .inr rfl⟩
  · split at h
    · obtain rfl := Except.error.inj h
      exact ⟨rfl, .inl rfl⟩
    · cases hparts : openComponents corpus answers.components 0
          (PathBytes.components corpus.validation.relative) with
      | error other =>
          rw [hparts] at h
          obtain rfl := Except.error.inj h
          exact openComponents_note _ 0 hparts
      | ok components =>
          rw [hparts] at h
          change (if _ then _ else _ : Except ScanNote _) = _ at h
          split at h
          · obtain rfl := Except.error.inj h
            exact ⟨rfl, .inl rfl⟩
          · cases h

/-- A root that is not pinned leaves a note about the corpus and nothing else. -/
theorem scanCorpus_of_unpinned {corpus : Corpus} {observed : Observation}
    (h : ¬ ∃ base components state, Pinned corpus observed base components state) :
    ∃ note, AboutRoot corpus note ∧
      scanCorpus (D := D) corpus observed = onlyNote note := by
  unfold scanCorpus
  split
  · rename_i note hpin
    exact ⟨note, openPinned_note hpin, rfl⟩
  · rename_i base components hpin
    split
    · exact ⟨_, ⟨rfl, .inr rfl⟩, rfl⟩
    · exact ⟨_, ⟨rfl, .inr rfl⟩, rfl⟩
    · rename_i state hduplicated hstate
      exact absurd ⟨base, components, state, hpin, hduplicated, hstate⟩ h

theorem Pinned.scanCorpus_eq {corpus : Corpus} {observed : Observation}
    {base : PinnedComponent} {components : List PinnedComponent} {state : NodeState}
    (h : Pinned corpus observed base components state) :
    scanCorpus corpus observed =
      finish (D := D) corpus (revalidate base components observed.revalidation)
        (observed.root.found corpus.kind corpus.path true state) := by
  unfold scanCorpus
  rw [h.pin_eq]
  dsimp only
  rw [h.duplicated, h.rootState_eq]
  dsimp only
  rw [(walkAll_eq corpus state observed.root).2]

/-- The pages that are reported. -/
theorem mem_scanCorpus_present (corpus : Corpus) (observed : Observation)
    (page : ScannedPage D) :
    page ∈ (scanCorpus (D := D) corpus observed).present ↔
      PageOf corpus observed page := by
  by_cases hpinned : ∃ base components state,
      Pinned corpus observed base components state
  · obtain ⟨base, components, state, hpinned⟩ := hpinned
    rw [hpinned.scanCorpus_eq]
    constructor
    · intro h
      cases hvalid : revalidate base components observed.revalidation with
      | false =>
          rw [hvalid] at h
          exact absurd h List.not_mem_nil
      | true =>
          rw [hvalid] at h
          exact .mk base components state hpinned hvalid
            ((Directory.mem_present corpus.kind _ _ _ _ page).1 h)
    · rintro ⟨base', components', state', hpinned', hvalid, hpage⟩
      obtain ⟨rfl, rfl⟩ := Prod.mk.inj
        (Except.ok.inj (hpinned.pin_eq.symm.trans hpinned'.pin_eq))
      obtain rfl := Except.ok.inj
        (hpinned.rootState_eq.symm.trans hpinned'.rootState_eq)
      rw [hvalid]
      exact (Directory.mem_present corpus.kind _ _ _ _ page).2 hpage
  · obtain ⟨note, _, heq⟩ := scanCorpus_of_unpinned (D := D) hpinned
    rw [heq]
    constructor
    · intro h
      exact absurd h List.not_mem_nil
    · rintro ⟨base, components, state, h, _, _⟩
      exact absurd ⟨base, components, state, h⟩ hpinned

/-- What could not be established is covered by a note. -/
theorem Uncertain.exists_note {corpus : Corpus} {observed : Observation}
    {covers : List PathBuf} (h : Uncertain corpus observed covers) :
    ∃ note ∈ (scanCorpus (D := D) corpus observed).unknown, note.path ∈ covers := by
  cases h with
  | @unpinned _ hpinned hlies =>
      obtain ⟨note, hnote, heq⟩ := scanCorpus_of_unpinned (D := D) hpinned
      rw [heq]
      exact ⟨note, List.mem_singleton_self note, hnote.1 ▸ hlies.path_mem⟩
  | moved base components state _ hpinned hvalid hlies =>
      rw [hpinned.scanCorpus_eq, hvalid]
      exact ⟨_, List.mem_append_right _ (List.mem_singleton_self _), hlies.path_mem⟩
  | inside base components state _ hpinned h =>
      obtain ⟨note, hmem, hpath⟩ := h.exists_note (D := D) corpus.kind
      rw [hpinned.scanCorpus_eq]
      refine ⟨note, ?_, hpath⟩
      unfold finish
      cases revalidate base components observed.revalidation with
      | true => exact hmem
      | false => exact List.mem_append_left _ hmem

/-- Nothing is unknown when everything could be established. -/
theorem scanCorpus_unknown_eq_nil (corpus : Corpus) (observed : Observation) :
    (scanCorpus (D := D) corpus observed).unknown = [] ↔
      ∀ covers, ¬ Uncertain corpus observed covers := by
  constructor
  · intro hnil covers h
    obtain ⟨note, hmem, _⟩ := h.exists_note (D := D)
    rw [hnil] at hmem
    exact List.not_mem_nil hmem
  · intro h
    by_cases hpinned : ∃ base components state,
        Pinned corpus observed base components state
    · obtain ⟨base, components, state, hpinned⟩ := hpinned
      rw [hpinned.scanCorpus_eq]
      cases hvalid : revalidate base components observed.revalidation with
      | false =>
          exact absurd (.moved base components state _ hpinned hvalid (.self _ _))
            (h [corpus.path])
      | true =>
          apply List.eq_nil_iff_forall_not_mem.2
          intro note hnote
          obtain ⟨covers, hinside⟩ := Directory.exists_unestablished (D := D)
            corpus.kind _ _ _ _ note hnote
          exact h covers (.inside base components state covers hpinned hinside)
    · exact absurd (.unpinned [corpus.path] hpinned (.self _ _)) (h _)

/-- A corpus is reported completely scanned when nothing in it is unknown. -/
theorem scanCorpus_scannedCorpora (corpus : Corpus) (observed : Observation) :
    (scanCorpus (D := D) corpus observed).scannedCorpora =
      if (scanCorpus (D := D) corpus observed).unknown = [] then [corpus.path]
      else [] := by
  by_cases hpinned : ∃ base components state,
      Pinned corpus observed base components state
  · obtain ⟨base, components, state, hpinned⟩ := hpinned
    rw [hpinned.scanCorpus_eq]
    unfold finish
    simp only [List.isEmpty_iff]
  · obtain ⟨note, _, heq⟩ := scanCorpus_of_unpinned (D := D) hpinned
    rw [heq]
    rfl

/-- The loop of the scan ends and reports what the recursion over the tree of
answers finds; the pages are the safe pages below completely observed
directories; what could not be established is covered by a note; and the corpus
is reported completely scanned exactly when there is none. -/
theorem scanCorpus_traverses (corpus : Corpus) (observed : Observation) :
    (∀ state : NodeState,
      (walkAll (D := D) corpus state observed.root).stack = [] ∧
        (walkAll (D := D) corpus state observed.root).report =
          observed.root.found corpus.kind corpus.path true state) ∧
    (∀ page : ScannedPage D, page ∈ (scanCorpus corpus observed).present ↔
      PageOf corpus observed page) ∧
    (∀ covers, Uncertain corpus observed covers →
      ∃ note ∈ (scanCorpus (D := D) corpus observed).unknown,
        note.path ∈ covers) ∧
    ((scanCorpus (D := D) corpus observed).scannedCorpora =
      if (scanCorpus (D := D) corpus observed).unknown = [] then [corpus.path]
      else []) ∧
    ((scanCorpus (D := D) corpus observed).unknown = [] ↔
      ∀ covers, ¬ Uncertain corpus observed covers) :=
  ⟨fun state => walkAll_eq corpus state observed.root,
    mem_scanCorpus_present corpus observed, fun _ h => h.exists_note,
    scanCorpus_scannedCorpora corpus observed,
    scanCorpus_unknown_eq_nil corpus observed⟩

/-- The scan of a corpus reports as the merge of the corpora relies on. -/
theorem scanCorpus_localReport (corpus : Corpus) (observed : Observation) :
    LocalReport (scanCorpus (D := D) corpus observed) := by
  by_cases hpinned : ∃ base components state,
      Pinned corpus observed base components state
  · obtain ⟨base, components, state, hpinned⟩ := hpinned
    have hfound := Directory.found_noted (D := D) corpus.kind observed.root
      corpus.path true state
    rw [hpinned.scanCorpus_eq]
    unfold finish
    cases revalidate base components observed.revalidation with
    | true => exact ⟨hfound.unknown, hfound.rejected, hfound.oversized⟩
    | false =>
        apply LocalReport.mk
        · intro note h
          rcases List.mem_append.1 h with h | h
          · exact hfound.unknown note h
          · obtain rfl := List.mem_singleton.1 h
            exact .inl rfl
        · intro note h
          cases h
        · intro note h
          cases h
  · obtain ⟨note, hnote, heq⟩ := scanCorpus_of_unpinned (D := D) hpinned
    rw [heq]
    apply LocalReport.mk
    · intro other h
      obtain rfl := List.mem_singleton.1 h
      exact hnote.2
    · intro other h
      cases h
    · intro other h
      cases h

/-- The report of all corpora, in terms of what the scan of each observed. -/
theorem scanReport_scanCorpus (corpora : List (Corpus × Observation)) :
    let locals := corpora.map fun (corpus, observed) =>
      scanCorpus (D := D) corpus observed
    Reports (scanReport locals) (.ofReports locals) := by
  apply scanReport_reports
  intro report hreport
  obtain ⟨⟨corpus, observed⟩, _, rfl⟩ := List.mem_map.1 hreport
  exact scanCorpus_localReport corpus observed

end Corpora

end Yams.Traversal
