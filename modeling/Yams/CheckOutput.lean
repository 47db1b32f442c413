/-
What the check of a wiki writes to its two outputs.  Failures pass the terminal
filter and notes do not, so a note carries the name of its page as it is.
-/
import Mathlib.Data.List.TakeWhile
import Yams.Arguments
import Yams.RenderSafety
import Yams.WikiCheck
import Yams.WikiLock

namespace Yams.Wiki

open Terminal

section Output

variable [Unicode]

/-- `isolation_note` -/
def isolationNote : WikiLock.UnisolatedReason → Text
  | .readOnlyFilesystem => "read-only filesystem".toList
  | .unwritableCorpus => "unwritable corpus".toList

/-- A diagnostic on the standard error output, with its line feed. -/
def writeDiagnostic (message : Text) : Text :=
  sanitizeTerminal .inline message ++ ['\n']

/-- The lines of one run, each with its line feed. -/
structure CheckOutput where
  exit : ExitCode
  stdout : List Text
  stderr : List Text
  deriving DecidableEq

/-- `run_check` after the wiki was captured, or with the message of the error
that kept it from being captured. -/
def runCheck : Except Text WikiCheckReport → CheckOutput
  | .error error => ⟨.operational, [], [writeDiagnostic error]⟩
  | .ok report =>
      { exit := if report.failures.isEmpty then .ok else .empty
        stdout := report.notes.map fun note => note ++ ['\n']
        stderr := report.failures.map writeDiagnostic }

/-- Nothing in a line acts on a terminal besides the line feed that ends it. -/
def PlainLine (line : Text) : Prop := ∃ text, line = text ++ ['\n'] ∧ Plain text

/-- Every line of a run, on either output. -/
def CheckOutput.lines (output : CheckOutput) : List Text :=
  output.stdout ++ output.stderr

theorem plainLine_iff (text : Text) : PlainLine (text ++ ['\n']) ↔ Plain text := by
  constructor
  · intro h
    rcases h with ⟨other, heq, hother⟩
    rwa [List.append_cancel_right heq]
  · intro h
    exact ⟨text, rfl, h⟩

theorem writeDiagnostic_plain (message : Text) : PlainLine (writeDiagnostic message) :=
  (plainLine_iff _).2 (sanitizeTerminal_inline message)

/-- A capture error is written as one line. -/
theorem runCheck_error_plain (error : Text) :
    ∀ line ∈ (runCheck (.error error)).lines, PlainLine line := by
  intro line hline
  rw [List.mem_singleton.1 hline]
  exact writeDiagnostic_plain error

/-- Only the notes of a report can bring something into its lines. -/
theorem runCheck_plain_iff (report : WikiCheckReport) :
    (∀ line ∈ (runCheck (.ok report)).lines, PlainLine line) ↔
      ∀ note ∈ report.notes, Plain note := by
  constructor
  · intro h note hnote
    rw [← plainLine_iff]
    apply h
    exact List.mem_append_left _ (List.mem_map_of_mem hnote)
  · intro h line hline
    rcases List.mem_append.1 hline with hline | hline
    · rcases List.mem_map.1 hline with ⟨note, hnote, rfl⟩
      exact (plainLine_iff note).2 (h note hnote)
    · rcases List.mem_map.1 hline with ⟨failure, _, rfl⟩
      exact writeDiagnostic_plain failure

end Output

section Noted

/-- A captured page that could be read: its name without `.md`, its bytes and its
text. -/
structure ReadablePage (snapshot : WikiSnapshot) (slug : Text) (bytes : Bytes)
    (source : Text) : Prop where
  captured : ⟨Text.toBytes (slug ++ markdownSuffix), .present bytes⟩ ∈ snapshot.pages
  text : Text.fromUtf8 bytes = some source

/-- A page with frontmatter links a slug. -/
def Links (snapshot : WikiSnapshot) (slug linked : Text) : Prop :=
  ∃ bytes source, ReadablePage snapshot slug bytes source ∧
    (parseFrontmatter source).fields ≠ [] ∧ linked ∈ wikilinkTargets source

/-- A page that a note names: a large one, one with a link to no page, or one of
several that no other page links. -/
inductive Noted (snapshot : WikiSnapshot) (slug : Text) : Prop
  | oversized {bytes : Bytes} {source : Text}
      (hread : ReadablePage snapshot slug bytes source) (hsize : sizeNote < bytes.length)
  | unwritten {linked : Text} (hlinks : Links snapshot slug linked)
      (hmissing : linked ∉ pageSlugs snapshot)
  | unreachable (hmany : 1 < (pageFiles snapshot).length)
      (hpage : slug ++ markdownSuffix ∈ pageFiles snapshot)
      (halone : ∀ other, Links snapshot other slug → other = slug)

/-- The notes name nothing that acts on a terminal. -/
def PlainNames [Unicode] (snapshot : WikiSnapshot) : Prop :=
  (∀ note, snapshot.isolationNote = some note → Plain note) ∧
    ((Text.fromUtf8 snapshot.index).isSome →
      ∀ slug, Noted snapshot slug → Plain slug)

variable {snapshot : WikiSnapshot} {slug name linked note : Text}

theorem mem_pageSlugs :
    slug ∈ pageSlugs snapshot ↔ slug ++ markdownSuffix ∈ pageFiles snapshot := by
  have hslugs : slug ∈ pageSlugs snapshot ↔
      ∃ name ∈ pageFiles snapshot, stripSuffix markdownSuffix name = some slug := by
    simp [pageSlugs, sortTexts]
  rw [hslugs]
  constructor
  · intro h
    rcases h with ⟨name, hname, hslug⟩
    rwa [← stripSuffix_eq_some hslug]
  · intro h
    exact ⟨_, h, stripSuffix_append markdownSuffix slug⟩

theorem mem_pageFiles_iff :
    name ∈ pageFiles snapshot ↔ ∃ page ∈ snapshot.pages,
      isNotRegular page = false ∧ Text.fromUtf8 page.name = some name := by
  simp [pageFiles, sortTexts, regularPages, and_assoc]

/-- The target of a link consists of the characters of slugs. -/
theorem wikilinkAt_slugChars {text target after : Text} {fragment : Option Text}
    (h : wikilinkAt text = some (target, fragment, after)) :
    ∀ c ∈ target, isSlugChar c = true := by
  unfold wikilinkAt at h
  split at h
  · exact nomatch h
  · next rest _ =>
      dsimp only at h
      split at h
      · exact nomatch h
      · rcases Option.map_eq_some_iff.1 h with ⟨_, _, heq⟩
        rw [← (Prod.mk.inj heq).1]
        exact fun c hc => List.mem_takeWhile_imp hc

theorem wikilinkTargetsFrom_slugChars (embedded : Bool) (text : Text) :
    ∀ target ∈ wikilinkTargetsFrom embedded text, ∀ c ∈ target, isSlugChar c = true := by
  fun_induction wikilinkTargetsFrom embedded text with
  | case1 => exact fun _ h => absurd h List.not_mem_nil
  | case2 embedded c rest target fragment after hlink hskip ih => exact ih
  | case3 embedded c rest target fragment after hlink hkeep ih =>
      intro other hother
      rcases List.mem_cons.1 hother with rfl | hother
      · exact wikilinkAt_slugChars hlink
      · exact ih other hother
  | case4 embedded c rest hlink ih => exact ih

end Noted

section Notes

variable [Unicode] {snapshot : WikiSnapshot} {slug linked note : Text}

theorem plain_append_iff {left right : Text} :
    Plain (left ++ right) ↔ Plain left ∧ Plain right := List.forall_mem_append

theorem slugChars_plain (hcategories : Render.PlainCategories) {text : Text}
    (htext : ∀ c ∈ text, isSlugChar c = true) : Plain text := by
  apply hcategories.plain_own
  rw [List.all_eq_true]
  intro c hc
  have hslug := htext c hc
  unfold isSlugChar at hslug
  rw [decide_eq_true_iff] at hslug
  have hrange : 0x20 ≤ c.toNat ∧ c.toNat < 0x7f := by
    rcases hslug with ⟨hleast, hmost⟩ | ⟨hleast, hmost⟩ | rfl
    · have hleast : 0x61 ≤ c.toNat := hleast
      have hmost : c.toNat ≤ 0x7a := hmost
      omega
    · have hleast : 0x30 ≤ c.toNat := hleast
      have hmost : c.toNat ≤ 0x39 := hmost
      omega
    · decide
  unfold Render.isOwn
  rw [decide_eq_true hrange.1, decide_eq_true hrange.2]
  rfl

/-- The note at a page that links a slug without a page. -/
def unwrittenNote (slug linked : Text) : Text :=
  pagePath (slug ++ markdownSuffix) ++ " links [[".toList ++ linked ++
    "]], not yet written".toList

/-- A page that cannot be read says nothing about links or sizes. -/
theorem checkPage_cases (slugs : List Text) (page : CapturedPage) :
    ((checkPage slugs page).notes = [] ∧ (checkPage slugs page).linked = []) ∨
      ∃ slug bytes source, page = ⟨Text.toBytes (slug ++ markdownSuffix), .present bytes⟩ ∧
        Text.fromUtf8 bytes = some source := by
  unfold checkPage
  split
  · exact .inl ⟨rfl, rfl⟩
  next name hname =>
  split
  · exact .inl ⟨rfl, rfl⟩
  next slug hslug =>
  rw [stripSuffix_eq_some hslug] at hname
  split
  · exact .inl ⟨rfl, rfl⟩
  · exact .inl ⟨rfl, rfl⟩
  · exact .inl ⟨rfl, rfl⟩
  · exact .inl ⟨rfl, rfl⟩
  next bytes houtcome =>
  rcases hsource : Text.fromUtf8 bytes with _ | source
  · unfold checkSource
    rw [hsource]
    exact .inl ⟨rfl, rfl⟩
  · refine .inr ⟨slug, bytes, source, ?_, hsource⟩
    rw [Text.toBytes_of_fromUtf8 hname, ← houtcome]

theorem checkPage_read (slugs : List Text) (slug : Text) (bytes : Bytes) :
    checkPage slugs ⟨Text.toBytes (slug ++ markdownSuffix), .present bytes⟩ =
      checkSource slugs (slug ++ markdownSuffix) slug bytes := by
  unfold checkPage
  simp only [Text.fromUtf8_toBytes, stripSuffix_append]

/-- The notes at a page that could be read. -/
theorem mem_checkSource_notes {slugs : List Text} {bytes : Bytes} {source : Text}
    (hsource : Text.fromUtf8 bytes = some source) :
    note ∈ (checkSource slugs (slug ++ markdownSuffix) slug bytes).notes ↔
      note ∈ oversizedNotes (slug ++ markdownSuffix) bytes ∨
        (parseFrontmatter source).fields ≠ [] ∧ ∃ linked ∈ wikilinkTargets source,
          linked ∉ slugs ∧ note = unwrittenNote slug linked := by
  unfold checkSource
  rw [hsource]
  dsimp only
  split
  · next hempty =>
      have hnil := List.isEmpty_iff.1 hempty
      constructor
      · exact fun h => .inl h
      · intro h
        rcases h with h | ⟨hne, _⟩
        · exact h
        · exact absurd hnil hne
  · next hsome =>
      have hne : (parseFrontmatter source).fields ≠ [] :=
        fun hnil => hsome (List.isEmpty_iff.2 hnil)
      rw [List.mem_append, List.mem_map]
      apply or_congr Iff.rfl
      constructor
      · intro h
        rcases h with ⟨linked, hlinked, rfl⟩
        rcases List.mem_filter.1 hlinked with ⟨hmem, hmissing⟩
        exact ⟨hne, linked, hmem, of_decide_eq_true hmissing, rfl⟩
      · intro h
        rcases h with ⟨_, linked, hmem, hmissing, rfl⟩
        exact ⟨linked, List.mem_filter.2 ⟨hmem, decide_eq_true hmissing⟩, rfl⟩

theorem mem_checkSource_linked {slugs : List Text} {bytes : Bytes} {source : Text}
    (hsource : Text.fromUtf8 bytes = some source) :
    linked ∈ (checkSource slugs (slug ++ markdownSuffix) slug bytes).linked ↔
      (parseFrontmatter source).fields ≠ [] ∧ linked ∈ wikilinkTargets source ∧
        linked ∈ slugs ∧ linked ≠ slug := by
  unfold checkSource
  rw [hsource]
  dsimp only
  split
  · next hempty =>
      have hnil := List.isEmpty_iff.1 hempty
      constructor
      · exact fun h => absurd h List.not_mem_nil
      · exact fun h => absurd hnil h.1
  · next hsome =>
      have hne : (parseFrontmatter source).fields ≠ [] :=
        fun hnil => hsome (List.isEmpty_iff.2 hnil)
      rw [List.mem_filter, decide_eq_true_iff]
      exact ⟨fun h => ⟨hne, h⟩, fun h => h.2⟩

/-- The notes at the pages of a wiki. -/
theorem mem_page_notes :
    note ∈ (snapshot.pages.map (checkPage (pageSlugs snapshot))).flatMap
        PageCheck.notes ↔
      ∃ slug, (∃ bytes source, ReadablePage snapshot slug bytes source ∧
          note ∈ oversizedNotes (slug ++ markdownSuffix) bytes) ∨
        ∃ linked, Links snapshot slug linked ∧ linked ∉ pageSlugs snapshot ∧
          note = unwrittenNote slug linked := by
  rw [List.flatMap_map, List.mem_flatMap]
  constructor
  · intro h
    rcases h with ⟨page, hpage, hnote⟩
    rcases checkPage_cases (pageSlugs snapshot) page with
      ⟨hnone, _⟩ | ⟨slug, bytes, source, rfl, hsource⟩
    · rw [hnone] at hnote
      exact absurd hnote List.not_mem_nil
    · rw [checkPage_read, mem_checkSource_notes hsource] at hnote
      rcases hnote with hnote | ⟨hfields, linked, hlinked, hmissing, heq⟩
      · exact ⟨slug, .inl ⟨bytes, source, ⟨hpage, hsource⟩, hnote⟩⟩
      · exact ⟨slug, .inr ⟨linked, ⟨bytes, source, ⟨hpage, hsource⟩, hfields, hlinked⟩,
          hmissing, heq⟩⟩
  · intro h
    rcases h with ⟨slug, ⟨bytes, source, hread, hnote⟩ |
      ⟨linked, ⟨bytes, source, hread, hfields, hlinked⟩, hmissing, heq⟩⟩
    · refine ⟨_, hread.captured, ?_⟩
      rw [checkPage_read, mem_checkSource_notes hread.text]
      exact .inl hnote
    · refine ⟨_, hread.captured, ?_⟩
      rw [checkPage_read, mem_checkSource_notes hread.text]
      exact .inr ⟨hfields, linked, hlinked, hmissing, heq⟩

/-- The slugs of pages that another page links. -/
theorem mem_page_linked :
    linked ∈ (snapshot.pages.map (checkPage (pageSlugs snapshot))).flatMap
        PageCheck.linked ↔
      linked ∈ pageSlugs snapshot ∧
        ∃ other, Links snapshot other linked ∧ linked ≠ other := by
  rw [List.flatMap_map, List.mem_flatMap]
  constructor
  · intro h
    rcases h with ⟨page, hpage, hmem⟩
    rcases checkPage_cases (pageSlugs snapshot) page with
      ⟨_, hnone⟩ | ⟨slug, bytes, source, rfl, hsource⟩
    · rw [hnone] at hmem
      exact absurd hmem List.not_mem_nil
    · rw [checkPage_read, mem_checkSource_linked hsource] at hmem
      rcases hmem with ⟨hfields, hlinked, hslug, hne⟩
      exact ⟨hslug, slug, ⟨bytes, source, ⟨hpage, hsource⟩, hfields, hlinked⟩, hne⟩
  · intro h
    rcases h with ⟨hslug, other, ⟨bytes, source, hread, hfields, hlinked⟩, hne⟩
    refine ⟨_, hread.captured, ?_⟩
    rw [checkPage_read, mem_checkSource_linked hread.text]
    exact ⟨hfields, hlinked, hslug, hne⟩

/-- The note at a page that no other page links. -/
def unreachableNote (slug : Text) : Text :=
  pagePath (slug ++ markdownSuffix) ++ ": no other page links [[".toList ++ slug ++
    "]] — unreachable except through INDEX.md".toList

theorem mem_unreachableNotes :
    note ∈ unreachableNotes (pageFiles snapshot)
        ((snapshot.pages.map (checkPage (pageSlugs snapshot))).flatMap
          PageCheck.linked) ↔
      1 < (pageFiles snapshot).length ∧
        ∃ slug, slug ++ markdownSuffix ∈ pageFiles snapshot ∧
          (∀ other, Links snapshot other slug → other = slug) ∧
          note = unreachableNote slug := by
  unfold unreachableNotes
  split
  · next hmany =>
      rw [List.mem_flatMap]
      constructor
      · intro h
        rcases h with ⟨name, hname, hnote⟩
        split at hnote
        · next slug hslug =>
            rw [stripSuffix_eq_some hslug] at hname hnote
            split at hnote
            · exact absurd hnote List.not_mem_nil
            · next halone =>
                refine ⟨hmany, slug, hname, ?_, List.mem_singleton.1 hnote⟩
                intro other hother
                by_contra hne
                exact halone (mem_page_linked.2
                  ⟨mem_pageSlugs.2 hname, other, hother, Ne.symm hne⟩)
        · exact absurd hnote List.not_mem_nil
      · intro h
        rcases h with ⟨_, slug, hname, halone, rfl⟩
        refine ⟨_, hname, ?_⟩
        simp only [stripSuffix_append]
        rw [if_neg]
        · exact List.mem_singleton_self _
        · intro hlinked
          rcases (mem_page_linked.1 hlinked).2 with ⟨other, hother, hne⟩
          exact hne (halone other hother).symm
  · next hfew =>
      constructor
      · exact fun h => absurd h List.not_mem_nil
      · exact fun h => absurd h.1 hfew

theorem validateWiki_notes_of_none (h : Text.fromUtf8 snapshot.index = none) :
    (validateWiki snapshot).notes = isolationNotes snapshot := by
  unfold validateWiki
  dsimp only
  rw [h]

/-- The notes of a check whose catalog is UTF-8: one on isolation, those at the
pages, and those at the pages that no other page links. -/
theorem mem_validateWiki_notes {index : Text}
    (h : Text.fromUtf8 snapshot.index = some index) :
    note ∈ (validateWiki snapshot).notes ↔
      (note ∈ isolationNotes snapshot ∨
        note ∈ (snapshot.pages.map (checkPage (pageSlugs snapshot))).flatMap
          PageCheck.notes) ∨
        note ∈ unreachableNotes (pageFiles snapshot)
          ((snapshot.pages.map (checkPage (pageSlugs snapshot))).flatMap
            PageCheck.linked) := by
  unfold validateWiki
  dsimp only
  rw [h]
  dsimp only
  rw [List.mem_eraseDups, List.mem_append, List.mem_append]

end Notes

section Plainness

variable [Unicode] {snapshot : WikiSnapshot} {slug linked note : Text}

omit [Unicode] in
/-- A note begins with the name of its page. -/
theorem subset_note (slug rest : Text) :
    slug ⊆ pagePath (slug ++ markdownSuffix) ++ rest := by
  intro c hc
  exact List.mem_append_left _ (List.mem_append_right _ (List.mem_append_left _ hc))

omit [Unicode] in
theorem oversizedNotes_eq (slug : Text) {bytes : Bytes} (hsize : sizeNote < bytes.length) :
    ∃ note, oversizedNotes (slug ++ markdownSuffix) bytes = [note] ∧ slug ⊆ note := by
  unfold oversizedNotes
  rw [if_pos hsize]
  refine ⟨_, rfl, ?_⟩
  rw [List.append_assoc, List.append_assoc]
  exact subset_note slug _

/-- A page that is noted has its name in a note. -/
theorem note_of_noted {index : Text} (hindex : Text.fromUtf8 snapshot.index = some index)
    (h : Noted snapshot slug) :
    ∃ note ∈ (validateWiki snapshot).notes, slug ⊆ note := by
  cases h with
  | @oversized bytes source hread hsize =>
      rcases oversizedNotes_eq slug hsize with ⟨note, hnotes, hsubset⟩
      have hmem : note ∈ oversizedNotes (slug ++ markdownSuffix) bytes := by
        rw [hnotes]
        exact List.mem_singleton_self note
      refine ⟨note, ?_, hsubset⟩
      rw [mem_validateWiki_notes hindex]
      exact .inl (.inr (mem_page_notes.2 ⟨slug, .inl ⟨bytes, source, hread, hmem⟩⟩))
  | @unwritten linked hlinks hmissing =>
      refine ⟨unwrittenNote slug linked, ?_, ?_⟩
      · rw [mem_validateWiki_notes hindex]
        exact .inl (.inr (mem_page_notes.2 ⟨slug, .inr ⟨linked, hlinks, hmissing, rfl⟩⟩))
      · unfold unwrittenNote
        rw [List.append_assoc, List.append_assoc]
        exact subset_note slug _
  | unreachable hmany hpage halone =>
      refine ⟨unreachableNote slug, ?_, ?_⟩
      · rw [mem_validateWiki_notes hindex]
        exact .inr (mem_unreachableNotes.2 ⟨hmany, slug, hpage, halone, rfl⟩)
      · unfold unreachableNote
        rw [List.append_assoc, List.append_assoc]
        exact subset_note slug _

variable (hcategories : Render.PlainCategories)

include hcategories

theorem plain_written {chars : List Char} (h : chars.all Render.isOwn = true) :
    Plain (String.ofList chars).toList :=
  hcategories.plain_own (Render.all_isOwn_ofList h)

theorem plain_pagePath (h : Plain slug) : Plain (pagePath (slug ++ markdownSuffix)) :=
  (plain_written hcategories (by decide)).append
    (h.append (plain_written hcategories (by decide)))

theorem plain_oversizedNotes (h : Plain slug) (bytes : Bytes) :
    ∀ note ∈ oversizedNotes (slug ++ markdownSuffix) bytes, Plain note := by
  intro note hnote
  unfold oversizedNotes at hnote
  split at hnote
  · rw [List.mem_singleton.1 hnote]
    rw [String.toList_append]
    exact (((plain_pagePath hcategories h).append (plain_written hcategories (by decide))).append
      (hcategories.plain_own (Render.all_isOwn_ofNat _))).append
        ((plain_written hcategories (by decide)).append
          (plain_written hcategories (by decide)))
  · exact absurd hnote List.not_mem_nil

theorem plain_unwrittenNote (h : Plain slug) (hlinked : Plain linked) :
    Plain (unwrittenNote slug linked) :=
  (((plain_pagePath hcategories h).append (plain_written hcategories (by decide))).append
    hlinked).append (plain_written hcategories (by decide))

theorem plain_unreachableNote (h : Plain slug) : Plain (unreachableNote slug) :=
  (((plain_pagePath hcategories h).append (plain_written hcategories (by decide))).append
    h).append (plain_written hcategories (by decide))

theorem plain_isolationNotes :
    (∀ note ∈ isolationNotes snapshot, Plain note) ↔
      ∀ note, snapshot.isolationNote = some note → Plain note := by
  unfold isolationNotes
  cases snapshot.isolationNote with
  | none =>
      constructor
      · exact fun _ _ h => nomatch h
      · exact fun _ _ h => absurd h List.not_mem_nil
  | some reason =>
      rw [List.forall_mem_singleton, plain_append_iff, plain_append_iff]
      constructor
      · intro h note heq
        rw [← Option.some.inj heq]
        exact h.1.2
      · intro h
        exact ⟨⟨plain_written hcategories (by decide), h reason rfl⟩,
          plain_written hcategories (by decide)⟩

/-- The reasons that the lock gives for a check without isolation are plain. -/
theorem plain_isolationNote (reason : WikiLock.UnisolatedReason) :
    Plain (isolationNote reason) := by
  cases reason
  · exact plain_written hcategories (by decide)
  · exact plain_written hcategories (by decide)

/-- What a check writes acts on no terminal exactly when nothing does that its
notes name. -/
theorem runCheck_validateWiki_plain (snapshot : WikiSnapshot) :
    (∀ line ∈ (runCheck (.ok (validateWiki snapshot))).lines, PlainLine line) ↔
      PlainNames snapshot := by
  rw [runCheck_plain_iff]
  unfold PlainNames
  rw [← plain_isolationNotes hcategories]
  rcases hindex : Text.fromUtf8 snapshot.index with _ | index
  · rw [validateWiki_notes_of_none hindex]
    exact ⟨fun h => ⟨h, fun hsome => nomatch hsome⟩, fun h => h.1⟩
  · constructor
    · intro h
      constructor
      · intro note hnote
        exact h note ((mem_validateWiki_notes hindex).2 (.inl (.inl hnote)))
      · intro _ slug hnoted c hc
        rcases note_of_noted hindex hnoted with ⟨note, hnote, hsubset⟩
        exact h note hnote c (hsubset hc)
    · intro h note hnote
      rcases h with ⟨hisolation, hnames⟩
      rcases (mem_validateWiki_notes hindex).1 hnote with (hnote | hnote) | hnote
      · exact hisolation note hnote
      · rcases mem_page_notes.1 hnote with
          ⟨slug, ⟨bytes, source, hread, hlarge⟩ | ⟨linked, hlinks, hmissing, rfl⟩⟩
        · have hsize : sizeNote < bytes.length := by
            by_contra hsmall
            unfold oversizedNotes at hlarge
            rw [if_neg hsmall] at hlarge
            exact absurd hlarge List.not_mem_nil
          exact plain_oversizedNotes hcategories
            (hnames rfl slug (.oversized hread hsize)) bytes note hlarge
        · have hlinked : Plain linked := by
            rcases hlinks with ⟨_, source, _, _, hlinked⟩
            exact slugChars_plain hcategories
              (wikilinkTargetsFrom_slugChars false source linked hlinked)
          exact plain_unwrittenNote hcategories
            (hnames rfl slug (.unwritten hlinks hmissing)) hlinked
      · rcases mem_unreachableNotes.1 hnote with ⟨hmany, slug, hpage, halone, rfl⟩
        exact plain_unreachableNote hcategories
          (hnames rfl slug (.unreachable hmany hpage halone))

end Plainness

namespace OutputSample

local instance : Unicode := Unicode.ascii

/-- Two empty pages, one with an escape character for its name. -/
def snapshot : WikiSnapshot where
  corpus := Text.toBytes "/wiki".toList
  index := []
  pages := [⟨Text.toBytes "a.md".toList, .present []⟩,
    ⟨Text.toBytes (escape :: ".md".toList), .present []⟩]
  isolated := true
  isolationNote := none

theorem runCheck_snapshot :
    (∀ line ∈ (runCheck (.ok (validateWiki snapshot))).lines, PlainLine line) ↔
      PlainNames snapshot :=
  runCheck_validateWiki_plain Render.Sample.plainCategories snapshot

theorem noted_escape : Noted snapshot [escape] := by
  have hfiles : pageFiles snapshot =
      sortTexts ["a.md".toList, escape :: ".md".toList] := by
    have hnames : ((regularPages snapshot).filterMap fun page =>
        Text.fromUtf8 page.name) = ["a.md".toList, escape :: ".md".toList] := by
      have hregular : regularPages snapshot = snapshot.pages := by decide
      rw [hregular]
      simp only [snapshot, List.filterMap_cons, Text.fromUtf8_toBytes, List.filterMap_nil]
    unfold pageFiles
    rw [hnames]
    rfl
  have hsource {slug : Text} {bytes : Bytes} {source : Text}
      (h : ReadablePage snapshot slug bytes source) : source = [] := by
    have hbytes : bytes = [] := by
      have hcaptured := h.captured
      simp only [snapshot, List.mem_cons, List.not_mem_nil, or_false,
        CapturedPage.mk.injEq, CapturedPageOutcome.present.injEq] at hcaptured
      rcases hcaptured with ⟨_, hbytes⟩ | ⟨_, hbytes⟩ <;> exact hbytes
    have htext := h.text
    rw [hbytes] at htext
    exact (Option.some.inj ((Text.fromUtf8_toBytes []).symm.trans htext)).symm
  apply Noted.unreachable
  · rw [hfiles, sortTexts, List.length_mergeSort]
    decide
  · rw [hfiles, sortTexts, List.mem_mergeSort]
    exact List.mem_cons_of_mem _ List.mem_cons_self
  · intro other hother
    rcases hother with ⟨bytes, source, hread, hfields, _⟩
    rw [hsource hread] at hfields
    exact absurd rfl hfields

/-- The check of that wiki sends the escape character to the terminal. -/
theorem note_unfiltered :
    ¬ ∀ snapshot : WikiSnapshot,
      ∀ line ∈ (runCheck (.ok (validateWiki snapshot))).lines, PlainLine line := by
  intro h
  have hindex : Text.fromUtf8 snapshot.index = some [] := Text.fromUtf8_toBytes []
  rcases note_of_noted hindex noted_escape with ⟨note, hnote, hsubset⟩
  have hplain := (runCheck_plain_iff _).1 (h snapshot) note hnote
  exact hplain.escape_notMem (hsubset List.mem_cons_self)

end OutputSample

end Yams.Wiki
