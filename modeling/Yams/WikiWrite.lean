/-
Storing a rendered page and rebuilding the catalog.  The write always goes
through; whether the next check finds nothing is a matter of the `(pages/` that
a summary may leave open.
-/
import Mathlib.Data.List.Sort
import Yams.WrittenPage

namespace Yams.Wiki

/-- The byte order of directory names. -/
def nameLe (left right : CapturedPage) : Bool := decide (¬ right.name < left.name)

/-- The entries of the directory after bytes have been stored under a name. -/
def storedPages (pages : List CapturedPage) (name bytes : Bytes) :
    List CapturedPage :=
  (⟨name, .present bytes⟩ :: pages.filter fun page =>
    page.name ≠ name).insertionSort fun left right => nameLe left right

/-- The wiki with a page stored as `pages/<slug>.md`. -/
def storePage (snapshot : WikiSnapshot) (slug page : Text) : WikiSnapshot :=
  { snapshot with
    pages := storedPages snapshot.pages (pageFile slug) page.toBytes }

/-- The wiki with its catalog rebuilt, if a reindex goes through. -/
def reindexed (snapshot : WikiSnapshot) : Option WikiSnapshot :=
  match Text.fromUtf8 snapshot.index,
      (captureInputs snapshot).map parseCapturedPages with
  | some before, some (.ok pages) =>
      match rebuildIndex before pages with
      | .ok canonical => some { snapshot with index := canonical.toBytes }
      | .error _ => none
  | _, _ => none

def written (snapshot : WikiSnapshot) (slug page : Text) : Option WikiSnapshot :=
  reindexed (storePage snapshot slug page)

/-- A snapshot as it is captured: `enumerate` takes `.md` names only. -/
def WikiSnapshot.Captured (snapshot : WikiSnapshot) : Prop :=
  ∀ page ∈ snapshot.pages, isMarkdownEntry page = true

section Entries

variable [Unicode]

/-- The slugs of a wiki matter to the notes of a page only. -/
theorem checkPage_slugs (slugs others : List Text) (page : CapturedPage) :
    (checkPage slugs page).failures = (checkPage others page).failures ∧
      (checkPage slugs page).valid = (checkPage others page).valid := by
  have hsource (name slug : Text) (bytes : Bytes) :
      (checkSource slugs name slug bytes).failures =
          (checkSource others name slug bytes).failures ∧
        (checkSource slugs name slug bytes).valid =
          (checkSource others name slug bytes).valid := by
    rcases hsource : Text.fromUtf8 bytes with _ | source
    · simp only [checkSource, hsource, and_self]
    · by_cases hempty : (parseFrontmatter source).fields.isEmpty = true
      · simp only [checkSource, hsource, hempty, if_true, and_self]
      · simp only [checkSource, hsource, hempty]
        exact ⟨rfl, rfl⟩
  unfold checkPage
  split
  · exact ⟨rfl, rfl⟩
  split
  · exact ⟨rfl, rfl⟩
  split
  case h_5 => exact hsource _ _ _
  all_goals exact ⟨rfl, rfl⟩

/-- The pages that the check takes from some entries. -/
def takenPages (slugs : List Text) (pages : List CapturedPage) : List IndexPage :=
  renderPages (pages.filterMap fun page => (checkPage slugs page).valid)

theorem takenPages_slugs (slugs others : List Text) (pages : List CapturedPage) :
    takenPages slugs pages = takenPages others pages := by
  unfold takenPages
  congr 2
  funext page
  exact (checkPage_slugs slugs others page).2

theorem takenPages_nil (slugs : List Text) : takenPages slugs [] = [] := rfl

theorem takenPages_perm (slugs : List Text) {pages others : List CapturedPage}
    (h : pages.Perm others) :
    (takenPages slugs pages).Perm (takenPages slugs others) :=
  (h.filterMap _).filterMap _

/-- An entry that the check finds nothing in, with the page it takes. -/
structure TakenEntry (slugs : List Text) (page : CapturedPage)
    (entry : IndexPage) : Prop where
  named : page.name = pageFile entry.slug
  clean : CleanEntry slugs page (entry.slug ++ markdownSuffix)
  taken : ∀ rest, takenPages slugs (page :: rest) = entry :: takenPages slugs rest

theorem takenPages_cons {slugs : List Text} {page : CapturedPage}
    {fields : Fields} {entry : IndexPage} (hfields : CatalogFields fields entry)
    (hvalid : (checkPage slugs page).valid =
      some (entry.slug ++ markdownSuffix, fields)) (rest : List CapturedPage) :
    takenPages slugs (page :: rest) = entry :: takenPages slugs rest := by
  unfold takenPages
  simp only [List.filterMap_cons, hvalid]
  exact renderPages_cons hfields _

theorem takenEntry_of_clean {slugs : List Text} {page : CapturedPage} {name : Text}
    (hclean : CleanEntry slugs page name) (hmarkdown : isMarkdownEntry page = true) :
    ∃ entry, TakenEntry slugs page entry := by
  rw [isMarkdownEntry_of_name hclean.named, Option.isSome_iff_exists]
    at hmarkdown
  obtain ⟨slug, hslug⟩ := hmarkdown
  obtain ⟨bytes, source, hpage⟩ := hclean.page hslug
  obtain ⟨entry, rfl, hfields⟩ := catalogFields_of_pageFailures hpage.failures
  have hname := stripSuffix_eq_some hslug
  refine ⟨entry, ?_, hname ▸ hclean, takenPages_cons hfields hpage.valid⟩
  rw [pageFile, ← hname]
  exact (Text.toBytes_of_fromUtf8 hclean.named).symm

/-- Dropping the entry of a slug drops its page. -/
theorem takenPages_filter {slugs : List Text} {pages : List CapturedPage}
    (hpages : ∀ page ∈ pages, ∃ entry, TakenEntry slugs page entry) (slug : Text) :
    takenPages slugs (pages.filter fun page =>
        page.name ≠ pageFile slug) =
      (takenPages slugs pages).filter fun entry => entry.slug ≠ slug := by
  induction pages with
  | nil => rfl
  | cons page pages ih =>
      have hrest := ih fun other hother => hpages other (List.mem_cons_of_mem _ hother)
      obtain ⟨entry, hentry⟩ := hpages page List.mem_cons_self
      have hiff : page.name = pageFile slug ↔
          entry.slug = slug := by
        rw [hentry.named]
        constructor
        · exact fun heq => List.append_cancel_right (Text.toBytes_injective heq)
        · rintro rfl
          rfl
      rw [hentry.taken]
      by_cases hslug : entry.slug = slug
      · rw [List.filter_cons_of_neg (by simp [hiff, hslug]),
          List.filter_cons_of_neg (by simp [hslug]), hrest]
      · rw [List.filter_cons_of_pos (by simp [hiff, hslug]),
          List.filter_cons_of_pos (by simp [hslug]), hentry.taken, hrest]

theorem mem_takenPages {slugs : List Text} {pages : List CapturedPage}
    (hpages : ∀ page ∈ pages, ∃ entry, TakenEntry slugs page entry)
    {entry : IndexPage} :
    entry ∈ takenPages slugs pages ↔
      ∃ page ∈ pages, TakenEntry slugs page entry := by
  induction pages with
  | nil => simp [takenPages_nil]
  | cons page pages ih =>
      have hrest := ih fun other hother => hpages other (List.mem_cons_of_mem _ hother)
      obtain ⟨found, hfound⟩ := hpages page List.mem_cons_self
      rw [hfound.taken, List.mem_cons, hrest]
      constructor
      · rintro (rfl | ⟨other, hother, hentry⟩)
        · exact ⟨page, List.mem_cons_self, hfound⟩
        · exact ⟨other, List.mem_cons_of_mem _ hother, hentry⟩
      · rintro ⟨other, hother, hentry⟩
        rcases List.mem_cons.1 hother with rfl | hother
        · have heq := (hentry.taken []).symm.trans (hfound.taken [])
          exact Or.inl (List.cons.inj heq).1
        · exact Or.inr ⟨other, hother, hentry⟩

end Entries

section Stored

variable [Unicode]

/-- A wiki whose entries are all pages that the check takes. -/
def AllTaken (snapshot : WikiSnapshot) : Prop :=
  ∀ page ∈ snapshot.pages, ∃ entry, TakenEntry (pageSlugs snapshot) page entry

theorem allTaken_of_structure {snapshot : WikiSnapshot} {index : Text}
    (hcaptured : snapshot.Captured) (h : structureFailures snapshot index = []) :
    AllTaken snapshot := by
  intro page hpage
  obtain ⟨name, hclean⟩ := cleanEntry_of_structure h page hpage
  exact takenEntry_of_clean hclean (hcaptured page hpage)

theorem TakenEntry.slugs {slugs : List Text} {page : CapturedPage}
    {entry : IndexPage} (h : TakenEntry slugs page entry) (others : List Text) :
    TakenEntry others page entry := by
  refine ⟨h.named, ⟨h.clean.named, h.clean.regular, ?_⟩, ?_⟩
  · rw [(checkPage_slugs others slugs page).1]
    exact h.clean.checked
  · intro rest
    rw [takenPages_slugs others slugs, takenPages_slugs others slugs]
    exact h.taken rest

theorem WrittenPage.taken {page : Text} {entry : IndexPage}
    (h : WrittenPage page entry) (slugs : List Text) :
    TakenEntry slugs ⟨pageFile entry.slug, .present page.toBytes⟩ entry := by
  obtain ⟨hfailures, hvalid⟩ := h.check slugs
  refine ⟨rfl, ⟨?_, rfl, hfailures⟩, takenPages_cons h.fields hvalid⟩
  exact Text.fromUtf8_toBytes _

/-- The files of a wiki are those of its pages. -/
theorem mem_pageFiles {snapshot : WikiSnapshot} (htaken : AllTaken snapshot)
    {name : Text} :
    name ∈ pageFiles snapshot ↔
      ∃ entry ∈ takenPages (pageSlugs snapshot) snapshot.pages,
        name = entry.slug ++ markdownSuffix := by
  have hfiles : name ∈ pageFiles snapshot ↔
      ∃ page ∈ snapshot.pages, isNotRegular page = false ∧
        Text.fromUtf8 page.name = some name := by
    simp [pageFiles, sortTexts, regularPages, and_assoc]
  rw [hfiles]
  constructor
  · rintro ⟨page, hpage, -, hname⟩
    obtain ⟨entry, hentry⟩ := htaken page hpage
    refine ⟨entry, (mem_takenPages htaken).2 ⟨page, hpage, hentry⟩, ?_⟩
    rw [hentry.clean.named] at hname
    exact (Option.some.inj hname).symm
  · rintro ⟨entry, hentry, rfl⟩
    obtain ⟨page, hpage, hfound⟩ := (mem_takenPages htaken).1 hentry
    exact ⟨page, hpage, hfound.clean.regular, hfound.clean.named⟩

omit [Unicode] in
theorem storedPages_perm (pages : List CapturedPage) (name bytes : Bytes) :
    (storedPages pages name bytes).Perm
      (⟨name, .present bytes⟩ :: pages.filter fun page => page.name ≠ name) :=
  List.perm_insertionSort _ _

theorem allTaken_storePage {snapshot : WikiSnapshot} {page : Text}
    {entry : IndexPage} (htaken : AllTaken snapshot)
    (hpage : WrittenPage page entry) :
    AllTaken (storePage snapshot entry.slug page) := by
  intro found hfound
  have hmem := (storedPages_perm _ _ _).mem_iff.1 hfound
  rcases List.mem_cons.1 hmem with rfl | hold
  · exact ⟨entry, hpage.taken _⟩
  · obtain ⟨old, hentry⟩ := htaken found (List.mem_filter.1 hold).1
    exact ⟨old, hentry.slugs _⟩

/-- The pages of the catalog after the write. -/
def pagesAfter (pages : List IndexPage) (entry : IndexPage) : List IndexPage :=
  entry :: pages.filter fun page => page.slug ≠ entry.slug

theorem takenPages_storePage {snapshot : WikiSnapshot} {page : Text}
    {entry : IndexPage} (htaken : AllTaken snapshot)
    (hpage : WrittenPage page entry) (slugs : List Text) :
    (takenPages slugs (storePage snapshot entry.slug page).pages).Perm
      (pagesAfter (renderPages (validPages snapshot)) entry) := by
  have hold := takenPages_filter htaken entry.slug
  refine (takenPages_perm slugs (storedPages_perm _ _ _)).trans ?_
  rw [(hpage.taken slugs).taken, takenPages_slugs slugs (pageSlugs snapshot), hold]
  exact List.Perm.refl _

omit [Unicode] in
theorem validatePages_pagesAfter {pages : List IndexPage} {entry : IndexPage}
    (hpages : validatePages pages = .ok ()) (hentry : ValidPage entry) :
    validatePages (pagesAfter pages entry) = .ok () := by
  rw [validatePages_eq_ok] at hpages ⊢
  refine ⟨?_, ?_⟩
  · intro page hpage
    rcases List.mem_cons.1 hpage with rfl | hold
    · exact hentry
    · exact hpages.1 page (List.mem_filter.1 hold).1
  · rw [pagesAfter, List.map_cons, List.nodup_cons]
    refine ⟨?_, hpages.2.sublist (List.filter_sublist.map IndexPage.slug)⟩
    intro hmem
    obtain ⟨page, hpage, heq⟩ := List.mem_map.1 hmem
    have hne := of_decide_eq_true (List.mem_filter.1 hpage).2
    exact hne heq

end Stored

section Checked

variable [Unicode]

omit [Unicode] in
theorem infix_unlines_of_mem {c : Char} {line : Text} {lines : List Text}
    (h : line ∈ lines) : line <:+: unlines c lines := by
  induction lines with
  | nil => cases h
  | cons other lines ih =>
      rw [unlines_cons]
      rcases List.mem_cons.1 h with rfl | hrest
      · exact ⟨[], c :: unlines c lines, by simp⟩
      · exact (ih hrest).trans ⟨other ++ [c], [], by simp⟩

omit [Unicode] in
/-- The catalog lists the file of each of its pages. -/
theorem listed_in_catalog {pages : List IndexPage} {entry : IndexPage}
    (hentry : entry ∈ pages) (before after : Text) (c : Char) :
    linkOpening ++ (entry.slug ++ markdownSuffix) ++ ")".toList <:+:
      markedText beginMarker before c (catalogBetween pages) after := by
  have hrow : entryLine entry ∈ typeOrder.flatMap (sectionLines pages) := by
    have hmem : entry ∈ rowsOf pages entry.pageType := mem_rowsOf.2 ⟨hentry, rfl⟩
    refine List.mem_flatMap.2 ⟨entry.pageType, mem_typeOrder _, ?_⟩
    rw [sectionLines, if_neg (List.ne_nil_of_mem hmem)]
    exact List.mem_cons_of_mem _ (List.mem_map.2 ⟨entry, hmem, rfl⟩)
  have hline : entryLine entry ∈ catalogLines pages := by
    rw [← filter_catalogLines] at hrow
    exact (List.mem_filter.1 hrow).1
  have hcatalog : entryLine entry <:+: catalogBetween pages := by
    rw [catalogBetween_eq]
    exact infix_unlines_of_mem (by simp [hline])
  have hlink : linkOpening ++ (entry.slug ++ markdownSuffix) ++ ")".toList <:+:
      entryLine entry := by
    refine ⟨"- [".toList ++ entry.slug ++ "]".toList,
      " — ".toList ++ entry.summary, ?_⟩
    rw [entryLine_segment, entryHead]
    simp
  refine (hlink.trans hcatalog).trans ⟨before ++ beginMarker ++ [c],
    endMarker ++ after, ?_⟩
  simp [markedText]

theorem structureFailures_eq_nil_iff {snapshot : WikiSnapshot} {index : Text}
    (htaken : AllTaken snapshot) :
    structureFailures snapshot index = [] ↔
      orphanFailures index (pageFiles snapshot) = [] ∧
        LinksIn (pageFiles snapshot) index := by
  have hentries : snapshot.pages.flatMap entryFailures = [] := by
    refine List.flatMap_eq_nil_iff.2 fun page hpage => ?_
    obtain ⟨entry, hentry⟩ := htaken page hpage
    simp [entryFailures, hentry.clean.named, hentry.clean.regular]
  have hchecks : (snapshot.pages.flatMap fun page =>
      (checkPage (pageSlugs snapshot) page).failures) = [] := by
    refine List.flatMap_eq_nil_iff.2 fun page hpage => ?_
    obtain ⟨entry, hentry⟩ := htaken page hpage
    exact hentry.clean.checked
  have hlinks : danglingFailures index (pageFiles snapshot) = [] ↔
      LinksIn (pageFiles snapshot) index := by
    unfold danglingFailures LinksIn
    rw [List.flatMap_eq_nil_iff]
    refine forall_congr' fun name => forall_congr' fun _ => ?_
    by_cases hname : name ∈ pageFiles snapshot
    · simp [hname]
    · simp [hname]
  unfold structureFailures
  rw [hentries, hchecks, List.nil_append, List.append_nil,
    List.append_eq_nil_iff, hlinks]

/-- What the new pages of the catalog must meet, with the text around it: an
opening that a text leaves is followed by no link. -/
structure LinksStayClosed (index : Text) (region : MarkerRegion)
    (pages : List IndexPage) : Prop where
  head : opensLink (index.take region.headEnd) = false
  entries : ∀ page ∈ pages, opensLink page.summary = true →
    (∀ other ∈ pages, ¬ Precedes page other) ∧
      closesLink (index.drop region.tailStart) = false

/-- What a write does to a wiki without failures. -/
structure WriteOutcome (snapshot : WikiSnapshot) (index : Text)
    (region : MarkerRegion) (page : Text) (entry : IndexPage) : Prop where
  stored : ∃ next, written snapshot entry.slug page = some next
  exempted : references (stripLineRefExemptions page) = [] ∧
    firstLineReference page = none
  clean : (∃ next, written snapshot entry.slug page = some next ∧
      (validateWiki next).failures = []) ↔
    LinksStayClosed index region
      (pagesAfter (renderPages (validPages snapshot)) entry)

omit [Unicode] in
theorem linksFine_iff_stayClosed {before after between : Text} {c : Char}
    {pages others : List IndexPage} {entry : IndexPage}
    (hnodup : (pages.map IndexPage.slug).Nodup) (hperm : pages.Perm others)
    (hentry : entry ∈ others) :
    linksFine (endMarker ++ after) (opensLink (before ++ beginMarker ++ [c]))
        (typeOrder.flatMap (rowsOf pages)) = true ↔
      LinksStayClosed (markedText beginMarker before c between after)
        ⟨(before ++ beginMarker ++ [c]).length,
          (before ++ beginMarker ++ [c]).length + between.length⟩ others := by
  have hmem (page : IndexPage) : page ∈ typeOrder.flatMap (rowsOf pages) ↔
      page ∈ others := by
    rw [(flatMap_rowsOf_perm pages).mem_iff, hperm.mem_iff]
  have hne : typeOrder.flatMap (rowsOf pages) ≠ [] :=
    List.ne_nil_of_mem ((hmem entry).2 hentry)
  rw [linksFine_iff (rows_precede hnodup)]
  simp only [hmem, hne, false_and, imp_false, Bool.not_eq_true]
  constructor
  · rintro ⟨hhead, hentries⟩
    refine ⟨?_, ?_⟩
    · rw [take_markedText]
      exact hhead
    · rw [drop_markedText]
      exact hentries
  · rintro ⟨hhead, hentries⟩
    rw [take_markedText] at hhead
    rw [drop_markedText] at hentries
    exact ⟨hhead, hentries⟩

/-- The catalog of a wiki without failures, and the parts around it. -/
structure CleanIndex (snapshot : WikiSnapshot) (before : Text) (c : Char)
    (after : Text) : Prop where
  index : Text.fromUtf8 snapshot.index = some (markedText beginMarker before c
    (catalogBetween (renderPages (validPages snapshot))) after)
  marked : Marked beginMarker before c
    (catalogBetween (renderPages (validPages snapshot))) after
  pages : validatePages (renderPages (validPages snapshot)) = .ok ()
  taken : AllTaken snapshot
  links : LinksIn (pageFiles snapshot) (markedText beginMarker before c
    (catalogBetween (renderPages (validPages snapshot))) after)

theorem cleanIndex_of_validateWiki {snapshot : WikiSnapshot}
    (hcaptured : snapshot.Captured) (h : (validateWiki snapshot).failures = []) :
    ∃ before c after, CleanIndex snapshot before c after := by
  obtain ⟨index, hindex, hstructure, hgenerated⟩ := validateWiki_eq_nil h
  have hcatalog : catalogFailures index (renderPages (validPages snapshot)) =
      [] := by
    unfold validateGeneratedIndex at hgenerated
    exact (List.append_eq_nil_iff.1 hgenerated).1
  have hcanonical := rebuildIndex_of_catalogFailures hcatalog
  obtain ⟨⟨region, hregion⟩, hpages⟩ := rebuildIndex_eq_ok hcanonical
  obtain ⟨before, c, between, after, htext, hmarked, -⟩ :=
    exists_marked isMarker_begin hregion
  rw [htext, rebuildIndex_of_marked hmarked hpages] at hcanonical
  have hbetween := markedText_between_injective (Except.ok.inj hcanonical)
  have htaken := allTaken_of_structure hcaptured hstructure
  have hlinks := ((structureFailures_eq_nil_iff htaken).1 hstructure).2
  rw [← hbetween] at htext hmarked
  exact ⟨before, c, after, htext ▸ hindex, hmarked, hpages, htaken,
    htext ▸ hlinks⟩

/-- The pages of the catalog of a wiki in which a page has been stored. -/
theorem CleanIndex.pages_storePage {snapshot : WikiSnapshot} {before : Text}
    {c : Char} {after page : Text} {entry : IndexPage}
    (h : CleanIndex snapshot before c after) (hpage : WrittenPage page entry) :
    (renderPages (validPages (storePage snapshot entry.slug page))).Perm
        (pagesAfter (renderPages (validPages snapshot)) entry) ∧
      validatePages (renderPages (validPages
        (storePage snapshot entry.slug page))) = .ok () := by
  have hperm : (renderPages (validPages (storePage snapshot entry.slug page))).Perm
      (pagesAfter (renderPages (validPages snapshot)) entry) :=
    takenPages_storePage h.taken hpage _
  exact ⟨hperm,
    validatePages_perm hperm (validatePages_pagesAfter h.pages hpage.valid)⟩

/-- The write goes through, and leaves the rendered catalog. -/
theorem CleanIndex.written_eq {snapshot : WikiSnapshot} {before : Text}
    {c : Char} {after page : Text} {entry : IndexPage}
    (h : CleanIndex snapshot before c after) (hpage : WrittenPage page entry) :
    written snapshot entry.slug page =
      some { storePage snapshot entry.slug page with
        index := (markedText beginMarker before c (catalogBetween (renderPages
          (validPages (storePage snapshot entry.slug page)))) after).toBytes } := by
  have htaken := allTaken_storePage h.taken hpage
  obtain ⟨-, hvalid⟩ := h.pages_storePage hpage
  have hclean : ∀ found ∈ (storePage snapshot entry.slug page).pages, ∃ name,
      CleanEntry (pageSlugs (storePage snapshot entry.slug page)) found name := by
    intro found hfound
    obtain ⟨old, hold⟩ := htaken found hfound
    exact ⟨_, hold.clean⟩
  obtain ⟨files, hfiles, hparsed⟩ := parseCapturedPages_of_clean hclean
    (validatePages_eq_ok.1 hvalid).1
  have hcaptured : captureInputs (storePage snapshot entry.slug page) =
      some files := hfiles
  have hpages : parseCapturedPages files = .ok (renderPages (validPages
      (storePage snapshot entry.slug page))) := hparsed
  have hindex : Text.fromUtf8 (storePage snapshot entry.slug page).index = _ :=
    h.index
  have hrebuilt := rebuildIndex_of_marked h.marked hvalid
  unfold written reindexed
  rw [hindex, hcaptured, Option.map_some, hpages]
  simp only [hrebuilt]

theorem pageNames_of_taken {snapshot : WikiSnapshot} (htaken : AllTaken snapshot)
    (hvalid : validatePages (renderPages (validPages snapshot)) = .ok ()) :
    PageNames (pageFiles snapshot) := by
  intro name hname
  obtain ⟨entry, hentry, rfl⟩ := (mem_pageFiles htaken).1 hname
  exact ⟨entry.slug, ((validatePages_eq_ok.1 hvalid).1 entry hentry).slugOk, rfl⟩

/-- A write keeps the files of a wiki. -/
theorem CleanIndex.files_kept {snapshot : WikiSnapshot} {before : Text}
    {c : Char} {after page : Text} {entry : IndexPage}
    (h : CleanIndex snapshot before c after) (hpage : WrittenPage page entry) :
    ∀ name ∈ pageFiles snapshot,
      name ∈ pageFiles (storePage snapshot entry.slug page) := by
  intro name hname
  obtain ⟨old, hold, rfl⟩ := (mem_pageFiles h.taken).1 hname
  have hperm := (h.pages_storePage hpage).1
  refine (mem_pageFiles (allTaken_storePage h.taken hpage)).2 ?_
  by_cases hslug : old.slug = entry.slug
  · refine ⟨entry, hperm.mem_iff.2 List.mem_cons_self, ?_⟩
    rw [hslug]
  · refine ⟨old, hperm.mem_iff.2 (List.mem_cons_of_mem _ ?_), rfl⟩
    exact List.mem_filter.2 ⟨hold, by simpa using hslug⟩

/-- The links of the rebuilt index are those of the old text around it and those
of the entries, as far as no opening is left. -/
theorem CleanIndex.links_iff {snapshot : WikiSnapshot} {before : Text}
    {c : Char} {after page : Text} {entry : IndexPage}
    (h : CleanIndex snapshot before c after) (hpage : WrittenPage page entry) :
    LinksIn (pageFiles (storePage snapshot entry.slug page))
        (markedText beginMarker before c (catalogBetween (renderPages
          (validPages (storePage snapshot entry.slug page)))) after) ↔
      linksFine (endMarker ++ after) (opensLink (before ++ beginMarker ++ [c]))
        (typeOrder.flatMap (rowsOf (renderPages
          (validPages (storePage snapshot entry.slug page))))) = true := by
  have htaken := allTaken_storePage h.taken hpage
  obtain ⟨-, hvalid⟩ := h.pages_storePage hpage
  have hkept := h.files_kept hpage
  have hnew : LinksIn (pageFiles (storePage snapshot entry.slug page))
      (markedText beginMarker before c (catalogBetween (renderPages
        (validPages (storePage snapshot entry.slug page)))) after) ↔ _ :=
    linksIn_markedText (pageNames_of_taken htaken hvalid)
      (validatePages_eq_ok.1 hvalid).1 h.marked.lineEnd
  have hold := (linksIn_markedText (pageNames_of_taken h.taken h.pages)
    (validatePages_eq_ok.1 h.pages).1 h.marked.lineEnd).1 h.links
  obtain ⟨hhead, -, htail, -⟩ := hold
  rw [hnew]
  constructor
  · exact fun hall => hall.2.2.2
  · intro hfine
    refine ⟨fun name hname => hkept name (hhead name hname), ?_,
      fun name hname => hkept name (htail name hname), hfine⟩
    intro found hfound
    exact (mem_pageFiles htaken).2 ⟨found, hfound, rfl⟩

theorem CleanIndex.writeOutcome {snapshot : WikiSnapshot} {before : Text}
    {c : Char} {after page : Text} {entry : IndexPage}
    (h : CleanIndex snapshot before c after) (hpage : WrittenPage page entry) :
    WriteOutcome snapshot
      (markedText beginMarker before c
        (catalogBetween (renderPages (validPages snapshot))) after)
      ⟨(before ++ beginMarker ++ [c]).length, (before ++ beginMarker ++ [c]).length +
        (catalogBetween (renderPages (validPages snapshot))).length⟩
      page entry := by
  have hwritten := h.written_eq hpage
  obtain ⟨hperm, hvalid⟩ := h.pages_storePage hpage
  have hreferences : references (stripLineRefExemptions page) = [] := by
    have hfailures := hpage.failures
    simp only [pageFailures, List.append_eq_nil_iff] at hfailures
    exact List.map_eq_nil_iff.1 hfailures.2
  refine ⟨⟨_, hwritten⟩,
    ⟨hreferences, (references_stripLineRefExemptions page).1 hreferences⟩, ?_⟩
  let pages := renderPages (validPages (storePage snapshot entry.slug page))
  let canonical := markedText beginMarker before c (catalogBetween pages) after
  let next : WikiSnapshot :=
    { storePage snapshot entry.slug page with index := canonical.toBytes }
  have hmarked : Marked beginMarker before c (catalogBetween pages) after :=
    h.marked.withCatalog (validatePages_eq_ok.1 hvalid).1
  have hindex : Text.fromUtf8 next.index = some canonical :=
    Text.fromUtf8_toBytes canonical
  have hfixed : rebuildIndex canonical (renderPages (validPages next)) =
      .ok canonical := rebuildIndex_of_marked hmarked hvalid
  have htaken : AllTaken next := allTaken_storePage h.taken hpage
  have horphans : orphanFailures canonical (pageFiles next) = [] := by
    refine List.flatMap_eq_nil_iff.2 fun name hname => ?_
    obtain ⟨found, hfound, rfl⟩ := (mem_pageFiles htaken).1 hname
    have hfound' : found ∈ pages := hfound
    exact if_pos (contains_iff.2 (listed_in_catalog hfound' before after c))
  have hchecked : (validateWiki next).failures = [] ↔
      LinksIn (pageFiles next) canonical := by
    rw [validateWiki_of_rebuildIndex hindex hfixed, eraseDups_eq_nil_iff,
      structureFailures_eq_nil_iff htaken]
    exact and_iff_right horphans
  have hlinks : LinksIn (pageFiles next) canonical ↔ _ := h.links_iff hpage
  rw [hlinks, linksFine_iff_stayClosed (validatePages_eq_ok.1 hvalid).2 hperm
    List.mem_cons_self] at hchecked
  rw [← hchecked]
  constructor
  · rintro ⟨found, hfound, hclean⟩
    rw [hwritten] at hfound
    rw [← Option.some.inj hfound] at hclean
    exact hclean
  · exact fun hclean => ⟨next, hwritten, hclean⟩

end Checked

section Requests

variable [Unicode]

/-- A create request that goes through: its page is rendered and its slug is
free. -/
structure AcceptsCreate (snapshot : WikiSnapshot) (request : CreateRequest)
    (today slug page : Text) : Prop where
  rendered : renderCreate request today = .ok page
  slugOf : slugify request.title = .ok slug
  free : ∀ entry ∈ snapshot.pages, entry.name ≠ pageFile slug

/-- An update request that goes through, over the page that is stored. -/
structure AcceptsUpdate (D : Type) [Sha256 D] (snapshot : WikiSnapshot)
    (request : UpdateRequest) (current today : Text) (rendered : RenderedUpdate) :
    Prop where
  stored : ⟨pageFile request.target, .present current.toBytes⟩ ∈ snapshot.pages
  rendered : renderUpdate D request current today = .ok rendered

theorem AcceptsCreate.written {snapshot : WikiSnapshot} {request : CreateRequest}
    {today slug page : Text} (h : AcceptsCreate snapshot request today slug page) :
    WrittenPage page (requestEntry (.create request) slug) := by
  obtain ⟨found, htoday, haccepted, hpage, hensure⟩ :=
    renderCreate_eq_ok h.rendered
  have hslug : found = slug :=
    Except.ok.inj (haccepted.slugOf.symm.trans h.slugOf)
  subst hslug
  exact writtenPage_of_rendered haccepted htoday htoday hpage hensure

theorem AcceptsUpdate.written {D : Type} [Sha256 D] {snapshot : WikiSnapshot}
    {request : UpdateRequest} {current today : Text} {rendered : RenderedUpdate}
    (h : AcceptsUpdate D snapshot request current today rendered) :
    WrittenPage rendered.page
      (requestEntry (.update request) request.target) := by
  obtain ⟨fields, owner, status, htoday, haccepted, hstored, hpage, hensure⟩ :=
    renderUpdate_eq_ok h.rendered
  refine writtenPage_of_rendered haccepted ?_ htoday hpage hensure
  split
  · exact htoday
  · exact (of_decide_eq_true hstored.updated).1

/-- A write to a wiki without failures goes through.  The next check finds
nothing exactly when no opening that a text leaves is closed by a later link. -/
theorem write_keeps_clean_iff (D : Type) [Sha256 D] {snapshot : WikiSnapshot}
    (hcaptured : snapshot.Captured) (hclean : (validateWiki snapshot).failures = []) :
    ∃ index region, Text.fromUtf8 snapshot.index = some index ∧
      markerRegion index = .ok region ∧
      (∀ request today slug page,
        AcceptsCreate snapshot request today slug page →
          WriteOutcome snapshot index region page
            (requestEntry (.create request) slug)) ∧
      ∀ request current today rendered,
        AcceptsUpdate D snapshot request current today rendered →
          WriteOutcome snapshot index region rendered.page
            (requestEntry (.update request) request.target) := by
  obtain ⟨before, c, after, h⟩ := cleanIndex_of_validateWiki hcaptured hclean
  refine ⟨_, _, h.index, markerRegion_of_marked h.marked, ?_, ?_⟩
  · intro request today slug page haccepts
    exact h.writeOutcome haccepts.written
  · intro request current today rendered haccepts
    exact h.writeOutcome haccepts.written

end Requests

namespace WikiWriteWitness

local instance : Unicode := Unicode.ascii

local instance : Sha256 Bytes := ⟨id, fun _ => []⟩

def today : Text := "2026-08-09".toList

def stored : Text :=
  ("---\nslug: tabs\ntitle: Tabs\ntype: pattern\nstatus: current\n" ++
    "owner: codex\nupdated: 2026-08-08\nverified: 2026-08-08\n" ++
    "summary: indent\n---\n\nTwo columns.\n").toList

def index : Text :=
  "# Wiki\n".toList ++ beginMarker ++ "\n".toList ++
    catalogBetween [⟨"tabs".toList, .pattern, "indent".toList⟩] ++ endMarker ++
    "\n".toList

def snapshot : WikiSnapshot where
  corpus := Text.toBytes "/home".toList
  index := index.toBytes
  pages := [⟨pageFile "tabs".toList, .present stored.toBytes⟩]
  isolated := true
  isolationNote := none

def create : CreateRequest where
  title := "Cache".toList
  pageType := .gotcha
  owner := .codex
  fact := "It is stale.".toList
  why := "Nobody clears it.".toList
  howToApply := "Clear it.".toList
  falsifiedBy := "A fresh read.".toList
  summary := "Stale (after a while)".toList
  related := []

def page : Text :=
  renderPage (.create create) "cache".toList .codex .current today today

def update : UpdateRequest where
  title := "Tabs".toList
  pageType := .workflow
  fact := "Two columns.".toList
  why := "They fit.".toList
  howToApply := "Indent.".toList
  falsifiedBy := "A wide file.".toList
  summary := "see (pages/ dir".toList
  related := []
  update := true
  target := "tabs".toList
  expectedSha256 := none

def updated : RenderedUpdate where
  page := renderPage (.update update) "tabs".toList .codex .current today today
  contentChanged := true

theorem captured : snapshot.Captured := by
  unfold WikiSnapshot.Captured
  decide

/-- The one page is read from its text; its bytes are not decoded again. -/
theorem checked_stored :
    (checkPage (pageSlugs snapshot)
        ⟨pageFile "tabs".toList, .present stored.toBytes⟩).failures = [] ∧
      validPages snapshot =
        [("tabs".toList ++ markdownSuffix, (parseFrontmatter stored).fields)] := by
  have hfields : (parseFrontmatter stored).fields.isEmpty = false := by
    unfold stored
    repeat rw [String.toList_append]
    repeat rw [String.toList_ofList]
    decide
  have hclean : pageFailures ("tabs".toList ++ markdownSuffix) "tabs".toList stored
      (parseFrontmatter stored).fields = [] := by
    unfold stored
    repeat rw [String.toList_append]
    repeat rw [String.toList_ofList]
    decide +kernel
  obtain ⟨hfailures, hvalid⟩ := checkPage_toBytes (pageSlugs snapshot) hfields
  have hpages : snapshot.pages = [⟨pageFile "tabs".toList, .present stored.toBytes⟩] := rfl
  exact ⟨hfailures.trans hclean,
    (congrArg (List.filterMap _) hpages).trans (List.filterMap_cons_some hvalid)⟩

theorem clean : (validateWiki snapshot).failures = [] := by
  have hindex : Text.fromUtf8 snapshot.index = some index := Text.fromUtf8_toBytes index
  obtain ⟨hchecked, hvalid⟩ := checked_stored
  have hentries : snapshot.pages.flatMap entryFailures = [] := by decide
  have horphan : orphanFailures index (pageFiles snapshot) = [] := by
    unfold snapshot index catalogBetween beginMarker
    repeat rw [String.toList_append]
    repeat rw [String.toList_ofList]
    decide +kernel
  have hdangling : danglingFailures index (pageFiles snapshot) = [] := by
    unfold snapshot index catalogBetween beginMarker
    repeat rw [String.toList_append]
    repeat rw [String.toList_ofList]
    decide +kernel
  have hstructure : structureFailures snapshot index = [] := by
    unfold structureFailures
    rw [hentries, horphan, hdangling, show snapshot.pages = [⟨pageFile "tabs".toList,
      .present stored.toBytes⟩] from rfl, List.flatMap_cons, hchecked]
    rfl
  have hgenerated : validateGeneratedIndex index (validPages snapshot) = [] := by
    rw [hvalid]
    unfold index stored catalogBetween
    repeat rw [String.toList_append]
    repeat rw [String.toList_ofList]
    decide +kernel
  exact validateWiki_clean hindex hstructure hgenerated

theorem write_keeps_clean_here :
    ∃ index region, Text.fromUtf8 snapshot.index = some index ∧
      WriteOutcome snapshot index region page
        (requestEntry (.create create) "cache".toList) ∧
      WriteOutcome snapshot index region updated.page
        (requestEntry (.update update) "tabs".toList) := by
  have hvalid : validateCreate create = .ok "cache".toList := by
    unfold create
    repeat rw [String.toList_ofList]
    decide +kernel
  have hcreated : renderCreate create today = .ok page := by
    apply renderCreate_ok (by decide) hvalid
    unfold renderPage create today
    repeat rw [String.toList_ofList]
    decide +kernel
  have hcreate : AcceptsCreate snapshot create today "cache".toList page :=
    ⟨hcreated, by decide +kernel, by decide +kernel⟩
  have htoday : validateToday today = .ok () := by decide +kernel
  have htabs : validateUpdate update = .ok "tabs".toList := by
    unfold update
    repeat rw [String.toList_ofList]
    decide +kernel
  have hupdated : renderUpdate Bytes update stored today = .ok updated := by
    unfold renderUpdate
    rw [htoday, except_ok_bind, htabs, except_ok_bind]
    unfold updated stored renderPage update today
    repeat rw [String.toList_append]
    repeat rw [String.toList_ofList]
    decide +kernel
  have hupdate : AcceptsUpdate Bytes snapshot update stored today updated :=
    ⟨List.mem_singleton_self _, hupdated⟩
  obtain ⟨index, region, hindex, -, hcreated, hupdated⟩ :=
    write_keeps_clean_iff Bytes captured clean
  exact ⟨index, region, hindex, hcreated _ _ _ _ hcreate,
    hupdated _ _ _ _ hupdate⟩

/-- A summary with a `(pages/` that it does not close. -/
def openCreate : CreateRequest := { create with summary := "see (pages/ dir".toList }

def openPage : Text :=
  renderPage (.create openCreate) "cache".toList .codex .current today today

/-- The write is accepted, and the check then reports a link to nowhere. -/
theorem write_breaks_check :
    snapshot.Captured ∧ (validateWiki snapshot).failures = [] ∧
      AcceptsCreate snapshot openCreate today "cache".toList openPage ∧
      ∃ next, written snapshot "cache".toList openPage = some next ∧
        (validateWiki next).failures ≠ [] := by
  have hvalid : validateCreate openCreate = .ok "cache".toList := by
    unfold openCreate create
    repeat rw [String.toList_ofList]
    decide +kernel
  have hcreated : renderCreate openCreate today = .ok openPage := by
    apply renderCreate_ok (by decide) hvalid
    unfold renderPage openCreate create today
    repeat rw [String.toList_ofList]
    decide
  have haccepts : AcceptsCreate snapshot openCreate today "cache".toList openPage :=
    ⟨hcreated, by decide, by decide⟩
  obtain ⟨before, c, after, h⟩ := cleanIndex_of_validateWiki captured clean
  have houtcome := h.writeOutcome haccepts.written
  obtain ⟨next, hnext⟩ := houtcome.stored
  refine ⟨captured, clean, haccepts, next, hnext, fun hnil => ?_⟩
  -- the page of the tabs comes after the summary that leaves an opening
  have hclosed := houtcome.clean.1 ⟨next, hnext, hnil⟩
  have hother : ⟨"tabs".toList, .pattern, "indent".toList⟩ ∈
      pagesAfter (renderPages (validPages snapshot))
        (requestEntry (.create openCreate) "cache".toList) := by
    rw [checked_stored.2]
    unfold stored
    repeat rw [String.toList_append]
    repeat rw [String.toList_ofList]
    decide
  exact (hclosed.entries _ List.mem_cons_self (by decide)).1 _ hother
    (Or.inl (by decide))

end WikiWriteWitness

end Yams.Wiki
