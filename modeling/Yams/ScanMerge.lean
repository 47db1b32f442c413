/-
The merge of the reports of several corpora.  Merging collects what was
observed; an unknown scope withdraws every observation under it, before or
after, so that the order of the corpora makes no difference to what is left.
-/
import Yams.Scan
import Mathlib.Data.Set.Insert
import Mathlib.Data.List.Perm.Basic

namespace Yams

section

variable {D : Type} [Sha256 D]

/-! What was observed, without an order. -/

/-- The notes about unknown scopes, the paths that were given a category and
the corpora that were observed completely. -/
@[ext]
structure Observed where
  unknown : Set ScanNote
  listed : Set PathBuf
  complete : Set PathBuf

namespace Observed

/-- The path lies under an unknown scope. -/
def Hides (observed : Observed) (path : PathBuf) : Prop :=
  ∃ note ∈ observed.unknown, PathBytes.startsWith path note.path = true

def survivors (observed : Observed) : Set PathBuf :=
  { path | path ∈ observed.listed ∧ ¬ observed.Hides path }

/-- The corpora that no unknown scope overlaps. -/
def completed (observed : Observed) : Set PathBuf :=
  { root | root ∈ observed.complete ∧
    ∀ note ∈ observed.unknown, scopesOverlap note.path root = false }

def nothing : Observed := ⟨∅, ∅, ∅⟩

def addUnknown (observed : Observed) (note : ScanNote) : Observed :=
  { observed with unknown := insert note observed.unknown }

def addListed (observed : Observed) (path : PathBuf) : Observed :=
  { observed with listed := insert path observed.listed }

def addComplete (observed : Observed) (root : PathBuf) : Observed :=
  { observed with complete := insert root observed.complete }

end Observed

/-- The paths that a report gives a category other than unknown. -/
def ScanReport.survivors (report : ScanReport D) : List PathBuf :=
  report.present.map ScannedPage.path ++
    (report.oversized.map ScanNote.path ++ report.rejected.map ScanNote.path)

/-- A note about an observation that failed or raced. -/
def ScanNote.Incomplete (note : ScanNote) : Prop :=
  note.kind = .raced ∨ note.kind = .unreadable

/-- What the scan of one corpus reports: exactly the failed and raced
observations are unknown. -/
structure LocalReport (report : ScanReport D) : Prop where
  unknown : ∀ note ∈ report.unknown, note.Incomplete
  rejected : ∀ note ∈ report.rejected, ¬ note.Incomplete
  oversized : ∀ note ∈ report.oversized, ¬ note.Incomplete

/-! The merge and what it has observed. -/

theorem startsWith_refl (path : PathBuf) : PathBytes.startsWith path path = true := by
  simp [PathBytes.startsWith, List.isPrefixOf_iff_prefix]

/-- The state of a merge that has made some observations. -/
structure Merge.Collects (st : Merge D) (observed : Observed) : Prop where
  scopes : ∀ path, path ∈ st.unknownScopes ↔
    ∃ note ∈ observed.unknown, note.path = path
  unknown : ∀ note, note ∈ st.target.unknown ↔ note ∈ observed.unknown
  incomplete : ∀ note ∈ observed.unknown, note.Incomplete
  survivors : ∀ path, path ∈ st.target.survivors ↔ path ∈ observed.survivors
  distinct : st.target.survivors.Nodup
  claimed : ∀ path ∈ st.target.survivors, path ∈ st.claimedPages
  entered : ∀ path ∈ st.unknownScopes, path ∈ st.claimedPages
  settled : ∀ path ∈ st.claimedPages,
    observed.Hides path ∨ path ∈ st.target.survivors
  seen : ∀ note ∈ st.seenNotes, note.path ∈ st.claimedPages
  told : ∀ note ∈ st.seenNotes, note.Incomplete → note ∈ observed.unknown
  complete : ∀ root, root ∈ st.target.scannedCorpora ↔ root ∈ observed.completed
  listedOnce : ∀ root ∈ st.seenCorpora,
    (∃ note ∈ observed.unknown, scopesOverlap note.path root = true) ∨
      root ∈ st.target.scannedCorpora

namespace Merge.Collects

variable {st : Merge D} {observed : Observed}

theorem start : (Merge.start : Merge D).Collects .nothing := by
  constructor <;> simp [Merge.start, ScanReport.empty, ScanReport.survivors,
    Observed.nothing, Observed.survivors, Observed.completed]

theorem underUnknown_iff (h : st.Collects observed) (path : PathBuf) :
    underUnknown path st.unknownScopes = true ↔ observed.Hides path := by
  rw [underUnknown, List.any_eq_true]
  constructor
  · rintro ⟨scope, hscope, hstarts⟩
    obtain ⟨note, hnote, rfl⟩ := (h.scopes scope).1 hscope
    exact ⟨note, hnote, hstarts⟩
  · rintro ⟨note, hnote, hstarts⟩
    exact ⟨note.path, (h.scopes _).2 ⟨note, hnote, rfl⟩, hstarts⟩

/-- A path is claimed when it is seen for the first time outside every unknown
scope. -/
theorem claims_iff (h : st.Collects observed) (path : PathBuf) :
    st.claims path = true ↔
      ¬ observed.Hides path ∧ path ∉ st.target.survivors := by
  rw [Merge.claims, Bool.and_eq_true, Bool.not_eq_true', decide_eq_true_eq,
    ← Bool.not_eq_true, h.underUnknown_iff]
  constructor
  · rintro ⟨hhides, hclaimed⟩
    exact ⟨hhides, fun hmem => hclaimed (h.claimed path hmem)⟩
  · rintro ⟨hhides, hnot⟩
    refine ⟨hhides, fun hclaimed => ?_⟩
    rcases h.settled path hclaimed with hhidden | hmem
    · exact hhides hhidden
    · exact hnot hmem

/-- The observation of a path that is already settled changes nothing. -/
theorem addListed_of_settled (h : st.Collects observed) {path : PathBuf}
    (hpath : ¬ st.claims path = true) : st.Collects (observed.addListed path) := by
  have hsurvivors : (observed.addListed path).survivors = observed.survivors := by
    ext other
    constructor
    · rintro ⟨rfl | hlisted, hhides⟩
      · rw [h.claims_iff] at hpath
        by_contra hnot
        apply hpath
        exact ⟨hhides, fun hmem => hnot ((h.survivors _).1 hmem)⟩
      · exact ⟨hlisted, hhides⟩
    · rintro ⟨hlisted, hhides⟩
      exact ⟨.inr hlisted, hhides⟩
  exact { h with survivors := by rw [hsurvivors]; exact h.survivors }

/-- A path that is claimed gets its category. -/
theorem addListed_of_claims (h : st.Collects observed) {path : PathBuf}
    {next : Merge D} (hclaims : st.claims path = true)
    (hsurvivors : next.target.survivors.Perm (path :: st.target.survivors))
    (hclaimed : next.claimedPages = path :: st.claimedPages)
    (hscopes : next.unknownScopes = st.unknownScopes)
    (hunknown : next.target.unknown = st.target.unknown)
    (hscanned : next.target.scannedCorpora = st.target.scannedCorpora)
    (hcorpora : next.seenCorpora = st.seenCorpora)
    (hseen : ∀ note ∈ next.seenNotes, note ∈ st.seenNotes ∨
      note.path = path ∧ ¬ note.Incomplete) :
    next.Collects (observed.addListed path) := by
  obtain ⟨hhides, hnew⟩ := (h.claims_iff path).1 hclaims
  have hmem : ∀ other, other ∈ next.target.survivors ↔
      other = path ∨ other ∈ st.target.survivors := by
    intro other
    rw [hsurvivors.mem_iff, List.mem_cons]
  constructor
  · rw [hscopes]
    exact h.scopes
  · rw [hunknown]
    exact h.unknown
  · exact h.incomplete
  · intro other
    rw [hmem, h.survivors]
    constructor
    · rintro (rfl | ⟨hlisted, hother⟩)
      · exact ⟨.inl rfl, hhides⟩
      · exact ⟨.inr hlisted, hother⟩
    · rintro ⟨rfl | hlisted, hother⟩
      · exact .inl rfl
      · exact .inr ⟨hlisted, hother⟩
  · rw [hsurvivors.nodup_iff, List.nodup_cons]
    exact ⟨hnew, h.distinct⟩
  · intro other hother
    rw [hclaimed]
    rcases (hmem other).1 hother with rfl | hold
    · exact List.mem_cons_self
    · exact List.mem_cons_of_mem _ (h.claimed other hold)
  · intro other hother
    rw [hscopes] at hother
    rw [hclaimed]
    exact List.mem_cons_of_mem _ (h.entered other hother)
  · intro other hother
    rw [hclaimed] at hother
    rcases List.mem_cons.1 hother with rfl | hold
    · exact .inr ((hmem _).2 (.inl rfl))
    · rcases h.settled other hold with hhidden | hsurvives
      · exact .inl hhidden
      · exact .inr ((hmem _).2 (.inr hsurvives))
  · intro note hnote
    rw [hclaimed]
    rcases hseen note hnote with hold | ⟨rfl, _⟩
    · exact List.mem_cons_of_mem _ (h.seen note hold)
    · exact List.mem_cons_self
  · intro note hnote hincomplete
    rcases hseen note hnote with hold | ⟨_, hcomplete⟩
    · exact h.told note hold hincomplete
    · exact absurd hincomplete hcomplete
  · rw [hscanned]
    exact h.complete
  · rw [hcorpora, hscanned]
    exact h.listedOnce

/-- A claimed path's note has not been seen, so it is kept. -/
theorem distinctNote_of_claims (h : st.Collects observed) {note : ScanNote}
    (hclaims : st.claims note.path = true) :
    (st.claim note.path).distinctNote note =
      ([note], { st.claim note.path with seenNotes := note :: st.seenNotes }) := by
  have hnew : note ∉ st.seenNotes := by
    intro hmem
    have hclaimed := h.seen note hmem
    rw [Merge.claims, Bool.and_eq_true, decide_eq_true_eq] at hclaims
    exact hclaims.2 hclaimed
  exact if_neg hnew

theorem rejected (h : st.Collects observed) {note : ScanNote}
    (hkind : ¬ note.Incomplete) :
    (st.rejected note).Collects (observed.addListed note.path) := by
  rw [Merge.rejected]
  by_cases hclaims : st.claims note.path = true
  · rw [if_pos hclaims, h.distinctNote_of_claims hclaims]
    dsimp only
    refine h.addListed_of_claims hclaims ?_ rfl rfl rfl rfl rfl ?_
    · simp only [ScanReport.survivors, Merge.claim, List.map_append, List.map_cons,
        List.map_nil, ← List.append_assoc]
      exact List.perm_append_singleton _ _
    · intro other hother
      rcases List.mem_cons.1 hother with rfl | hold
      · exact .inr ⟨rfl, hkind⟩
      · exact .inl hold
  · rw [if_neg hclaims]
    exact h.addListed_of_settled hclaims

theorem oversized (h : st.Collects observed) {note : ScanNote}
    (hkind : ¬ note.Incomplete) :
    (st.oversized note).Collects (observed.addListed note.path) := by
  rw [Merge.oversized]
  by_cases hclaims : st.claims note.path = true
  · rw [if_pos hclaims, h.distinctNote_of_claims hclaims]
    dsimp only
    refine h.addListed_of_claims hclaims ?_ rfl rfl rfl rfl rfl ?_
    · simp only [ScanReport.survivors, Merge.claim, List.map_append, List.map_cons,
        List.map_nil, List.append_assoc, List.cons_append, List.nil_append]
      rw [← List.append_assoc]
      refine List.perm_middle.trans ?_
      rw [List.append_assoc]
    · intro other hother
      rcases List.mem_cons.1 hother with rfl | hold
      · exact .inr ⟨rfl, hkind⟩
      · exact .inl hold
  · rw [if_neg hclaims]
    exact h.addListed_of_settled hclaims

theorem present (h : st.Collects observed) (page : ScannedPage D) :
    (st.present page).Collects (observed.addListed page.path) := by
  rw [Merge.present]
  by_cases hclaims : st.claims page.path = true
  · rw [if_pos hclaims]
    dsimp only
    refine h.addListed_of_claims hclaims ?_ rfl rfl rfl rfl rfl ?_
    · simp only [ScanReport.survivors, Merge.claim, List.map_append, List.map_cons,
        List.map_nil, List.append_assoc, List.cons_append, List.nil_append]
      exact List.perm_middle
    · intro other hother
      exact .inl hother
  · rw [if_neg hclaims]
    exact h.addListed_of_settled hclaims

/-- What entering an unknown scope does, whether it is new or not. -/
structure Enters (st next : Merge D) (scope : PathBuf) : Prop where
  scopes : ∀ path, path ∈ next.unknownScopes ↔
    path = scope ∨ path ∈ st.unknownScopes
  claimed : ∀ path, path ∈ next.claimedPages ↔ path = scope ∨ path ∈ st.claimedPages
  survivors : ∀ path, path ∈ next.target.survivors ↔
    path ∈ st.target.survivors ∧ PathBytes.startsWith path scope = false
  distinct : next.target.survivors.Nodup
  scanned : ∀ root, root ∈ next.target.scannedCorpora ↔
    root ∈ st.target.scannedCorpora ∧ scopesOverlap scope root = false
  unknown : next.target.unknown = st.target.unknown
  seenNotes : next.seenNotes = st.seenNotes
  seenCorpora : next.seenCorpora = st.seenCorpora

theorem survivors_withdraw (report : ScanReport D) (scope : PathBuf) :
    (report.withdraw scope).survivors =
      report.survivors.filter fun path => !PathBytes.startsWith path scope := by
  simp only [ScanReport.survivors, ScanReport.withdraw, List.filter_append,
    List.filter_map]
  rfl

theorem enterScope (h : st.Collects observed) (scope : PathBuf) :
    Enters st (st.enterScope scope) scope := by
  by_cases hold : scope ∈ st.unknownScopes
  · obtain ⟨note, hnote, rfl⟩ := (h.scopes scope).1 hold
    rw [Merge.enterScope, if_pos hold]
    refine ⟨?_, ?_, ?_, h.distinct, ?_, rfl, rfl, rfl⟩
    · intro path
      exact ⟨.inr, fun hpath => hpath.elim (fun heq => heq ▸ hold) id⟩
    · intro path
      exact ⟨.inr, fun hpath => hpath.elim (fun heq => heq ▸ h.entered _ hold) id⟩
    · intro path
      refine ⟨fun hpath => ⟨hpath, ?_⟩, fun hpath => hpath.1⟩
      rw [← Bool.not_eq_true]
      intro hstarts
      exact ((h.survivors path).1 hpath).2 ⟨note, hnote, hstarts⟩
    · intro root
      exact ⟨fun hroot => ⟨hroot, ((h.complete root).1 hroot).2 note hnote⟩,
        fun hroot => hroot.1⟩
  · rw [Merge.enterScope, if_neg hold]
    have hmem : ∀ path, path ∈ (st.target.withdraw scope).survivors ↔
        path ∈ st.target.survivors ∧ PathBytes.startsWith path scope = false := by
      intro path
      rw [survivors_withdraw, List.mem_filter, Bool.not_eq_true']
    refine ⟨fun _ => List.mem_cons, fun _ => List.mem_cons, hmem, ?_, ?_, rfl, rfl,
      rfl⟩
    · dsimp only
      rw [survivors_withdraw]
      exact h.distinct.filter _
    · intro root
      change root ∈ st.target.scannedCorpora.filter _ ↔ _
      rw [List.mem_filter, Bool.not_eq_true']

theorem hides_addUnknown (note : ScanNote) (path : PathBuf) :
    (observed.addUnknown note).Hides path ↔
      PathBytes.startsWith path note.path = true ∨ observed.Hides path := by
  constructor
  · rintro ⟨other, rfl | hold, hstarts⟩
    · exact .inl hstarts
    · exact .inr ⟨other, hold, hstarts⟩
  · rintro (hstarts | ⟨other, hold, hstarts⟩)
    · exact ⟨note, .inl rfl, hstarts⟩
    · exact ⟨other, .inr hold, hstarts⟩

/-- A note that is already told changes nothing but the scopes. -/
theorem unknown_mem (h : st.Collects observed) {note : ScanNote}
    (hkind : note.Incomplete) :
    ∀ other, other ∈ (st.unknown note).target.unknown ↔
      other = note ∨ other ∈ observed.unknown := by
  intro other
  have hentered := h.enterScope note.path
  rw [Merge.unknown, Merge.distinctNote, hentered.seenNotes]
  by_cases hseen : note ∈ st.seenNotes
  · rw [if_pos hseen]
    dsimp only
    rw [List.append_nil, hentered.unknown, h.unknown]
    exact ⟨.inr, fun hother => hother.elim
      (fun heq => heq ▸ h.told note hseen hkind) id⟩
  · rw [if_neg hseen]
    dsimp only
    rw [List.mem_append, hentered.unknown, h.unknown, List.mem_singleton, or_comm]

theorem unknown_step (h : st.Collects observed) {note : ScanNote}
    (hkind : note.Incomplete) :
    (st.unknown note).Collects (observed.addUnknown note) := by
  have hentered := h.enterScope note.path
  have hunknown := h.unknown_mem hkind
  -- the note is told last, and touches only the notes
  obtain ⟨hscopes, hclaimed, hsurvivors, hscanned, hcorpora, hseen⟩ :
      (st.unknown note).unknownScopes = (st.enterScope note.path).unknownScopes ∧
      (st.unknown note).claimedPages = (st.enterScope note.path).claimedPages ∧
      (st.unknown note).target.survivors =
        (st.enterScope note.path).target.survivors ∧
      (st.unknown note).target.scannedCorpora =
        (st.enterScope note.path).target.scannedCorpora ∧
      (st.unknown note).seenCorpora = st.seenCorpora ∧
      ∀ other, other ∈ (st.unknown note).seenNotes ↔
        other = note ∨ other ∈ st.seenNotes := by
    rw [Merge.unknown, Merge.distinctNote, hentered.seenNotes]
    by_cases hold : note ∈ st.seenNotes
    · rw [if_pos hold]
      refine ⟨rfl, rfl, rfl, rfl, hentered.seenCorpora, ?_⟩
      intro other
      dsimp only
      rw [hentered.seenNotes]
      exact ⟨.inr, fun hother => hother.elim (fun heq => heq ▸ hold) id⟩
    · rw [if_neg hold]
      exact ⟨rfl, rfl, rfl, rfl, hentered.seenCorpora, fun _ => List.mem_cons⟩
  constructor
  · intro path
    rw [hscopes, hentered.scopes, h.scopes]
    constructor
    · rintro (rfl | ⟨other, hother, rfl⟩)
      · exact ⟨note, .inl rfl, rfl⟩
      · exact ⟨other, .inr hother, rfl⟩
    · rintro ⟨other, rfl | hother, rfl⟩
      · exact .inl rfl
      · exact .inr ⟨other, hother, rfl⟩
  · exact hunknown
  · rintro other (rfl | hother)
    · exact hkind
    · exact h.incomplete other hother
  · intro path
    rw [hsurvivors, hentered.survivors, h.survivors]
    have hhides : (observed.addUnknown note).Hides path ↔ _ :=
      hides_addUnknown note path
    constructor
    · rintro ⟨⟨hlisted, hold⟩, hstarts⟩
      refine ⟨hlisted, fun hnew => ?_⟩
      rcases hhides.1 hnew with hstarts' | hold'
      · rw [hstarts] at hstarts'
        cases hstarts'
      · exact hold hold'
    · rintro ⟨hlisted, hnew⟩
      refine ⟨⟨hlisted, fun hold => hnew (hhides.2 (.inr hold))⟩, ?_⟩
      rw [← Bool.not_eq_true]
      exact fun hstarts => hnew (hhides.2 (.inl hstarts))
  · rw [hsurvivors]
    exact hentered.distinct
  · intro path hpath
    rw [hsurvivors, hentered.survivors] at hpath
    rw [hclaimed, hentered.claimed]
    exact .inr (h.claimed path hpath.1)
  · intro path hpath
    rw [hscopes, hentered.scopes] at hpath
    rw [hclaimed, hentered.claimed]
    exact hpath.imp_right (h.entered path)
  · intro path hpath
    rw [hclaimed, hentered.claimed] at hpath
    rw [hsurvivors, hentered.survivors, hides_addUnknown]
    rcases hpath with rfl | hold
    · exact .inl (.inl (startsWith_refl _))
    · rcases h.settled path hold with hhides | hmem
      · exact .inl (.inr hhides)
      · cases hstarts : PathBytes.startsWith path note.path with
        | true => exact .inl (.inl rfl)
        | false => exact .inr ⟨hmem, rfl⟩
  · intro other hother
    rw [hclaimed, hentered.claimed]
    rcases (hseen other).1 hother with rfl | hold
    · exact .inl rfl
    · exact .inr (h.seen other hold)
  · intro other hother hincomplete
    rcases (hseen other).1 hother with rfl | hold
    · exact .inl rfl
    · exact .inr (h.told other hold hincomplete)
  · intro root
    rw [hscanned, hentered.scanned, h.complete]
    constructor
    · rintro ⟨⟨hroot, hold⟩, hoverlap⟩
      refine ⟨hroot, ?_⟩
      rintro other (rfl | hother)
      · exact hoverlap
      · exact hold other hother
    · rintro ⟨hroot, hall⟩
      exact ⟨⟨hroot, fun other hother => hall other (.inr hother)⟩, hall note (.inl rfl)⟩
  · intro root hroot
    rw [hcorpora] at hroot
    rw [hscanned, hentered.scanned]
    rcases h.listedOnce root hroot with ⟨other, hother, hoverlap⟩ | hmem
    · exact .inl ⟨other, .inr hother, hoverlap⟩
    · cases hoverlap : scopesOverlap note.path root with
      | true => exact .inl ⟨note, .inl rfl, hoverlap⟩
      | false => exact .inr ⟨hmem, rfl⟩

theorem corpus_step (h : st.Collects observed) (revisions : List NamespaceRevision)
    (path : PathBuf) :
    (Merge.corpus (st, revisions) path).1.Collects (observed.addComplete path) := by
  have hany : (st.unknownScopes.any fun unknown => scopesOverlap unknown path) = true ↔
      ∃ note ∈ observed.unknown, scopesOverlap note.path path = true := by
    rw [List.any_eq_true]
    constructor
    · rintro ⟨scope, hscope, hoverlap⟩
      obtain ⟨note, hnote, rfl⟩ := (h.scopes scope).1 hscope
      exact ⟨note, hnote, hoverlap⟩
    · rintro ⟨note, hnote, hoverlap⟩
      exact ⟨note.path, (h.scopes _).2 ⟨note, hnote, rfl⟩, hoverlap⟩
  have hcompleted : ∀ root, root ∈ (observed.addComplete path).completed ↔
      (root = path ∧ ∀ note ∈ observed.unknown, scopesOverlap note.path path = false) ∨
        root ∈ observed.completed := by
    intro root
    constructor
    · rintro ⟨rfl | hroot, hall⟩
      · exact .inl ⟨rfl, hall⟩
      · exact .inr ⟨hroot, hall⟩
    · rintro (⟨rfl, hall⟩ | ⟨hroot, hall⟩)
      · exact ⟨.inl rfl, hall⟩
      · exact ⟨.inr hroot, hall⟩
  rw [Merge.corpus]
  by_cases hnew : (!(st.unknownScopes.any fun unknown => scopesOverlap unknown path) &&
      decide (path ∉ st.seenCorpora)) = true
  · rw [if_pos hnew]
    rw [Bool.and_eq_true, Bool.not_eq_true', ← Bool.not_eq_true, hany,
      decide_eq_true_eq] at hnew
    have hclear : ∀ note ∈ observed.unknown,
        scopesOverlap note.path path = false := by
      intro note hnote
      rw [← Bool.not_eq_true]
      exact fun hoverlap => hnew.1 ⟨note, hnote, hoverlap⟩
    refine { h with complete := ?_, listedOnce := ?_ }
    · intro root
      change root ∈ st.target.scannedCorpora ++ [path] ↔ _
      rw [List.mem_append, List.mem_singleton, h.complete, hcompleted, or_comm]
      exact or_congr_left (iff_self_and.2 fun _ => hclear)
    · intro root hroot
      change _ ∨ root ∈ st.target.scannedCorpora ++ [path]
      rw [List.mem_append, List.mem_singleton]
      rcases List.mem_cons.1 hroot with rfl | hold
      · exact .inr (.inr rfl)
      · exact (h.listedOnce root hold).imp_right .inl
  · rw [if_neg hnew]
    refine { h with complete := ?_ }
    intro root
    rw [h.complete, hcompleted]
    refine ⟨.inr, fun hroot => hroot.elim ?_ id⟩
    rintro ⟨rfl, hclear⟩
    by_contra hnot
    apply hnew
    rw [Bool.and_eq_true, Bool.not_eq_true', ← Bool.not_eq_true, hany,
      decide_eq_true_eq]
    constructor
    · rintro ⟨note, hnote, hoverlap⟩
      rw [hclear note hnote] at hoverlap
      cases hoverlap
    · intro hseen
      rcases h.listedOnce root hseen with ⟨note, hnote, hoverlap⟩ | hmem
      · rw [hclear note hnote] at hoverlap
        cases hoverlap
      · exact hnot ((h.complete root).1 hmem)

end Merge.Collects

/-! Whole reports. -/

/-- What a report adds to the observations. -/
def Observed.addReport (observed : Observed) (report : ScanReport D) : Observed where
  unknown := observed.unknown ∪ { note | note ∈ report.unknown }
  listed := observed.listed ∪ { path | path ∈ report.survivors }
  complete := observed.complete ∪ { root | root ∈ report.scannedCorpora }

namespace Merge.Collects

variable {st : Merge D} {observed : Observed}

theorem insert_union_mem {E : Type} (head : E) (rest : List E) (set : Set E) :
    insert head set ∪ { item | item ∈ rest } =
      set ∪ { item | item ∈ head :: rest } := by
  ext item
  simp only [Set.mem_union, Set.mem_insert_iff, Set.mem_ofPred_eq, List.mem_cons]
  tauto

theorem foldl_unknown (h : st.Collects observed) {notes : List ScanNote}
    (hkinds : ∀ note ∈ notes, note.Incomplete) :
    (notes.foldl Merge.unknown st).Collects
      { observed with unknown := observed.unknown ∪ { note | note ∈ notes } } := by
  induction notes generalizing st observed with
  | nil => simpa using h
  | cons note notes ih =>
      have hrest := ih (h.unknown_step (hkinds note List.mem_cons_self))
        (fun other hother => hkinds other (List.mem_cons_of_mem _ hother))
      have hsame : insert note observed.unknown ∪ { other | other ∈ notes } =
          observed.unknown ∪ { other | other ∈ note :: notes } :=
        insert_union_mem _ _ _
      rw [← hsame]
      exact hrest

/-- One step for each element of a list that gives a path its category. -/
theorem foldl_listed {E : Type} {step : Merge D → E → Merge D} {pathOf : E → PathBuf}
    {good : E → Prop}
    (hstep : ∀ {st : Merge D} {observed : Observed}, st.Collects observed →
      ∀ item, good item → (step st item).Collects (observed.addListed (pathOf item)))
    {items : List E} (hgood : ∀ item ∈ items, good item) (h : st.Collects observed) :
    (items.foldl step st).Collects
      { observed with
        listed := observed.listed ∪ { path | path ∈ items.map pathOf } } := by
  induction items generalizing st observed with
  | nil => simpa using h
  | cons item items ih =>
      have hrest := ih (fun other hother => hgood other (List.mem_cons_of_mem _ hother))
        (hstep h item (hgood item List.mem_cons_self))
      have hsame : insert (pathOf item) observed.listed ∪
          { path | path ∈ items.map pathOf } =
          observed.listed ∪ { path | path ∈ (item :: items).map pathOf } :=
        insert_union_mem _ _ _
      rw [← hsame]
      exact hrest

theorem foldl_corpus (h : st.Collects observed) (revisions : List NamespaceRevision)
    (roots : List PathBuf) :
    (roots.foldl Merge.corpus (st, revisions)).1.Collects
      { observed with complete := observed.complete ∪ { root | root ∈ roots } } := by
  induction roots generalizing st observed revisions with
  | nil => simpa using h
  | cons root roots ih =>
      have hrest := ih (h.corpus_step revisions root)
        (Merge.corpus (st, revisions) root).2
      have hsame : insert root observed.complete ∪ { path | path ∈ roots } =
          observed.complete ∪ { path | path ∈ root :: roots } :=
        insert_union_mem _ _ _
      rw [← hsame]
      exact hrest

/-- Merging a report adds what it has observed. -/
theorem mergeReport (h : st.Collects observed) {report : ScanReport D}
    (hlocal : LocalReport report) :
    (Yams.mergeReport st report).Collects (observed.addReport report) := by
  have hunknown := h.foldl_unknown hlocal.unknown
  have hrejected := foldl_listed (fun hst note => hst.rejected) hlocal.rejected
    hunknown
  have hoversized := foldl_listed (fun hst note => hst.oversized) hlocal.oversized
    hrejected
  have hpresent := foldl_listed (fun hst page _ => hst.present page)
    (fun page (_ : page ∈ report.present) => trivial) hoversized
  have hcorpora := hpresent.foldl_corpus report.namespaceRevisions
    report.scannedCorpora
  have hsame : observed.listed ∪ { path | path ∈ report.rejected.map ScanNote.path } ∪
      { path | path ∈ report.oversized.map ScanNote.path } ∪
      { path | path ∈ report.present.map ScannedPage.path } =
      observed.listed ∪ { path | path ∈ report.survivors } := by
    ext path
    simp only [Set.mem_union, Set.mem_ofPred_eq, ScanReport.survivors, List.mem_append]
    tauto
  rw [Observed.addReport, ← hsame]
  exact hcorpora

/-- What a whole scan has observed. -/
theorem foldl_mergeReport {locals : List (ScanReport D)}
    (hlocals : ∀ report ∈ locals, LocalReport report) (h : st.Collects observed) :
    (locals.foldl Yams.mergeReport st).Collects
      (locals.foldl Observed.addReport observed) := by
  induction locals generalizing st observed with
  | nil => exact h
  | cons report locals ih =>
      apply ih
      · intro other hother
        exact hlocals other (List.mem_cons_of_mem _ hother)
      · exact h.mergeReport (hlocals report List.mem_cons_self)

end Merge.Collects

namespace Observed

variable {locals : List (ScanReport D)}

/-- What the reports have observed together. -/
def ofReports (locals : List (ScanReport D)) : Observed where
  unknown := { note | ∃ report ∈ locals, note ∈ report.unknown }
  listed := { path | ∃ report ∈ locals, path ∈ report.survivors }
  complete := { root | ∃ report ∈ locals, root ∈ report.scannedCorpora }

theorem foldl_addReport (locals : List (ScanReport D)) (observed : Observed) :
    locals.foldl addReport observed =
      ⟨observed.unknown ∪ (ofReports locals).unknown,
        observed.listed ∪ (ofReports locals).listed,
        observed.complete ∪ (ofReports locals).complete⟩ := by
  induction locals generalizing observed with
  | nil => ext <;> simp [ofReports]
  | cons report locals ih =>
      rw [List.foldl_cons, ih]
      ext item <;> simp [addReport, ofReports, or_assoc]

theorem foldl_nothing (locals : List (ScanReport D)) :
    locals.foldl addReport nothing = ofReports locals := by
  rw [foldl_addReport]
  ext item <;> simp [nothing]

/-- The order of the corpora makes no difference to what was observed. -/
theorem ofReports_perm {others : List (ScanReport D)} (h : others.Perm locals) :
    ofReports others = ofReports locals := by
  ext item <;> simp [ofReports, h.mem_iff]

end Observed

/-- A scan's report in terms of what its corpora observed. -/
structure Reports (report : ScanReport D) (observed : Observed) : Prop where
  unknown : ∀ note, note ∈ report.unknown ↔ note ∈ observed.unknown
  survivors : ∀ path, path ∈ report.survivors ↔ path ∈ observed.survivors
  distinct : report.survivors.Nodup
  complete : ∀ root, root ∈ report.scannedCorpora ↔ root ∈ observed.completed

theorem scanReport_reports {locals : List (ScanReport D)}
    (hlocals : ∀ report ∈ locals, LocalReport report) :
    Reports (scanReport locals) (.ofReports locals) := by
  have h := Merge.Collects.foldl_mergeReport hlocals Merge.Collects.start
  rw [Observed.foldl_nothing] at h
  have hperm : (scanReport locals).survivors.Perm
      (locals.foldl mergeReport .start).target.survivors :=
    ((List.mergeSort_perm _ _).map _).append
      (((List.mergeSort_perm _ _).map _).append ((List.mergeSort_perm _ _).map _))
  have hunknown : ∀ note, note ∈ (scanReport locals).unknown ↔
      note ∈ (Observed.ofReports locals).unknown := by
    intro note
    rw [← h.unknown]
    exact (List.mergeSort_perm _ _).mem_iff
  refine ⟨hunknown, ?_, hperm.nodup_iff.2 h.distinct, ?_⟩
  · intro path
    rw [hperm.mem_iff, h.survivors]
  · intro root
    change root ∈ (locals.foldl mergeReport .start).target.scannedCorpora.filter _ ↔ _
    rw [List.mem_filter, h.complete, Bool.not_eq_true', ← Bool.not_eq_true,
      List.any_eq_true]
    refine ⟨fun hroot => hroot.1, fun hroot => ⟨hroot, ?_⟩⟩
    rintro ⟨note, hnote, hoverlap⟩
    rw [hroot.2 note ((h.unknown note).1 hnote)] at hoverlap
    cases hoverlap

/-- The merge law of scans: one category for each path, nothing under an
unknown scope, and no trace of the order of the corpora. -/
theorem scanReport_merge {locals : List (ScanReport D)}
    (hlocals : ∀ report ∈ locals, LocalReport report) :
    (scanReport locals).survivors.Nodup ∧
    (∀ note ∈ (scanReport locals).unknown,
      note.path ∉ (scanReport locals).survivors) ∧
    (∀ note ∈ (scanReport locals).unknown, ∀ path ∈ (scanReport locals).survivors,
      PathBytes.startsWith path note.path = false) ∧
    (∀ note ∈ (scanReport locals).unknown,
      ∀ root ∈ (scanReport locals).scannedCorpora,
        scopesOverlap note.path root = false) ∧
    ∀ others : List (ScanReport D), others.Perm locals →
      (∀ note, note ∈ (scanReport others).unknown ↔
        note ∈ (scanReport locals).unknown) ∧
      (∀ path, path ∈ (scanReport others).survivors ↔
        path ∈ (scanReport locals).survivors) ∧
      ∀ root, root ∈ (scanReport others).scannedCorpora ↔
        root ∈ (scanReport locals).scannedCorpora := by
  have h := scanReport_reports hlocals
  have hclear : ∀ note ∈ (scanReport locals).unknown,
      ∀ path ∈ (scanReport locals).survivors,
        PathBytes.startsWith path note.path = false := by
    intro note hnote path hpath
    rw [← Bool.not_eq_true]
    intro hstarts
    exact ((h.survivors path).1 hpath).2 ⟨note, (h.unknown note).1 hnote, hstarts⟩
  refine ⟨h.distinct, ?_, hclear, ?_, ?_⟩
  · intro note hnote hmem
    have hstarts := hclear note hnote note.path hmem
    rw [startsWith_refl] at hstarts
    cases hstarts
  · intro note hnote root hroot
    exact ((h.complete root).1 hroot).2 note ((h.unknown note).1 hnote)
  · intro others hperm
    have hother := scanReport_reports fun report hreport =>
      hlocals report (hperm.mem_iff.1 hreport)
    rw [Observed.ofReports_perm hperm] at hother
    refine ⟨?_, ?_, ?_⟩
    · intro note
      rw [hother.unknown, h.unknown]
    · intro path
      rw [hother.survivors, h.survivors]
    · intro root
      rw [hother.complete, h.complete]

end

namespace ScanMergeWitness

/-- Digests play no part here. -/
local instance : Sha256 Unit := ⟨fun _ => (), fun _ => []⟩

/-- The corpus `/a`, with a hard-linked page in `/a/b`. -/
def outer : ScanReport Unit :=
  { ScanReport.empty with
    rejected := [⟨Text.toBytes "/a/b/x.md", .unsafeHardLink, []⟩]
    scannedCorpora := [Text.toBytes "/a"] }

/-- The nested corpus `/a/b`, which changed while it was scanned. -/
def inner : ScanReport Unit :=
  { ScanReport.empty with unknown := [⟨Text.toBytes "/a/b", .raced, []⟩] }

example : (scanReport [outer, inner]).survivors = [] := by decide +kernel

theorem locals_local : ∀ report ∈ [outer, inner], LocalReport report := by
  intro report hreport
  rcases List.mem_pair.1 hreport with rfl | rfl
  · refine ⟨?_, ?_, ?_⟩
    all_goals
      intro note hnote
      first
        | exact absurd hnote List.not_mem_nil
        | (obtain rfl := List.mem_singleton.1 hnote; simp [ScanNote.Incomplete])
  · refine ⟨?_, ?_, ?_⟩
    all_goals
      intro note hnote
      first
        | exact absurd hnote List.not_mem_nil
        | (obtain rfl := List.mem_singleton.1 hnote; simp [ScanNote.Incomplete])

/-- A nested corpus withdraws what the outer one has seen in it, in either
order. -/
theorem scanReport_merge_nested :
    (∀ note, note ∈ (scanReport [inner, outer]).unknown ↔
        note ∈ (scanReport [outer, inner]).unknown) ∧
      (∀ path, path ∈ (scanReport [inner, outer]).survivors ↔
        path ∈ (scanReport [outer, inner]).survivors) ∧
      ∀ root, root ∈ (scanReport [inner, outer]).scannedCorpora ↔
        root ∈ (scanReport [outer, inner]).scannedCorpora :=
  (scanReport_merge locals_local).2.2.2.2 [inner, outer] (List.Perm.swap outer inner [])

end ScanMergeWitness

end Yams
