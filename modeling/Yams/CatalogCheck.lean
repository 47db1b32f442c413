/-
The checker and the catalog agree.  A snapshot without failures is one whose
pages a reindex accepts and whose `INDEX.md` it leaves alone; and what the
catalog renders passes the checker's own reading of the generated lines.
-/
import Yams.Program
import Yams.RegionCheck
import Yams.Reindex

namespace Yams.Wiki

section Stems

/-- The bytes of a slug have neither a slash nor a dot. -/
theorem toBytes_slug {slug : Text} (hslug : validateSlug slug = .ok ()) :
    ∀ b ∈ slug.toBytes, b ≠ PathBytes.slash ∧ b ≠ 0x2e := by
  obtain ⟨-, hall⟩ := slugChars_of_validateSlug hslug
  intro b hb
  obtain ⟨c, hc, hbyte⟩ := List.mem_flatMap.1 hb
  have hchar := List.all_eq_true.1 hall c hc
  have hrange := isSlugChar_toNat hchar
  rw [Text.utf8EncodeChar_ascii (by omega), List.mem_singleton] at hbyte
  have hdot : c ≠ '.' := by
    rintro rfl
    revert hchar
    decide
  have hslash : c ≠ '/' := by
    rintro rfl
    revert hchar
    decide
  constructor
  · intro heq
    exact hslash (Text.ofNat_toNat_injective (by omega) (by decide)
      (hbyte.symm.trans heq))
  · intro heq
    exact hdot (Text.ofNat_toNat_injective (by omega) (by decide)
      (hbyte.symm.trans heq))

theorem splitExtension_append {stem extension : Bytes} (hne : stem ≠ [])
    (hdot : 0x2e ∉ extension) :
    PathBytes.splitExtension (stem ++ 0x2e :: extension) =
      (stem, some extension) := by
  have hreverse : (stem ++ 0x2e :: extension).reverse =
      extension.reverse ++ 0x2e :: stem.reverse := by simp
  have htake : (extension.reverse ++ 0x2e :: stem.reverse).takeWhile
      (fun b => decide (b ≠ 0x2e)) = extension.reverse := by
    rw [List.takeWhile_append_of_pos]
    · simp
    · intro b hb
      have hne : b ≠ 0x2e := by
        rintro rfl
        exact hdot (List.mem_reverse.1 hb)
      simpa using hne
  have hdrop : (extension.reverse ++ 0x2e :: stem.reverse).dropWhile
      (fun b => decide (b ≠ 0x2e)) = 0x2e :: stem.reverse := by
    rw [List.dropWhile_append_of_pos]
    · simp
    · intro b hb
      have hne : b ≠ 0x2e := by
        rintro rfl
        exact hdot (List.mem_reverse.1 hb)
      simpa using hne
  unfold PathBytes.splitExtension
  rw [hreverse, List.span_eq_takeWhile_dropWhile, htake, hdrop]
  simp [hne]

theorem markdownStem_append {stem : Bytes} (hne : stem ≠ [])
    (hstem : ∀ b ∈ stem, b ≠ PathBytes.slash ∧ b ≠ 0x2e) :
    markdownStem (stem ++ Text.toBytes markdownSuffix) = some stem := by
  have hsuffix : Text.toBytes markdownSuffix =
      0x2e :: Text.toBytes "md".toList := by decide
  have hslash : PathBytes.slash ∉ stem ++ Text.toBytes markdownSuffix := by
    have hfixed : PathBytes.slash ∉ Text.toBytes markdownSuffix := by decide
    rw [List.mem_append, not_or]
    exact ⟨fun hmem => (hstem _ hmem).1 rfl, hfixed⟩
  have hrelative : PathBytes.isAbsolute (stem ++ Text.toBytes markdownSuffix) =
      false := by
    refine decide_eq_false fun hhead => hslash ?_
    exact List.mem_of_mem_head? hhead
  have hparts : PathBytes.parts (stem ++ Text.toBytes markdownSuffix) =
      [stem ++ Text.toBytes markdownSuffix] := by
    simp [PathBytes.parts, List.splitOn_eq_singleton hslash, hrelative, hne]
  have hname : PathBytes.fileName (stem ++ Text.toBytes markdownSuffix) =
      some (stem ++ Text.toBytes markdownSuffix) := by
    have hlength : 4 ≤ (stem ++ Text.toBytes markdownSuffix).length := by
      have hpos := List.length_pos_iff.2 hne
      have hfixed : (Text.toBytes markdownSuffix).length = 3 := by decide
      rw [List.length_append]
      omega
    unfold PathBytes.fileName
    rw [hparts, List.getLast?_singleton]
    have hdots : ¬ (stem ++ Text.toBytes markdownSuffix = [0x2e] ∨
        stem ++ Text.toBytes markdownSuffix = [0x2e, 0x2e]) := by
      rintro (heq | heq)
      · rw [heq] at hlength
        simp at hlength
      · rw [heq] at hlength
        simp at hlength
    simp only [hdots, if_false]
  have hsplit : PathBytes.splitExtension
      (stem ++ Text.toBytes markdownSuffix) =
        (stem, some (Text.toBytes "md".toList)) := by
    rw [hsuffix]
    exact splitExtension_append hne (by decide)
  unfold markdownStem
  rw [hname, hparts, hrelative, Option.map_some, hsplit]
  simp only [List.length_singleton, if_true]
  simp

theorem parseIndexPage_slug {slug : Text} (hslug : validateSlug slug = .ok ())
    (source : Text) :
    parseIndexPage (slug ++ markdownSuffix) source =
      parseIndexFields (slug ++ markdownSuffix) slug
        (parseFrontmatter source).fields := by
  have hne : slug.toBytes ≠ [] := by
    intro hnil
    have heq : slug.toBytes = Text.toBytes [] := hnil
    exact (slugChars_of_validateSlug hslug).1 (Text.toBytes_injective heq)
  unfold parseIndexPage
  rw [Text.toBytes_append, markdownStem_append hne (toBytes_slug hslug)]
  simp

end Stems

section Clean

theorem eraseDups_eq_nil_iff {texts : List Text} :
    texts.eraseDups = [] ↔ texts = [] := by
  cases texts with
  | nil => simp
  | cons text texts => simp [List.eraseDups_cons]

theorem named_eq_some {value : Text} {pageType : PageType} :
    PageType.named value = some pageType ↔ value = pageType.asStr := by
  constructor
  · intro h
    unfold PageType.named at h
    split at h
    next heq => rw [← Option.some.inj h, heq]; rfl
    split at h
    next heq => rw [← Option.some.inj h, heq]; rfl
    split at h
    next heq => rw [← Option.some.inj h, heq]; rfl
    split at h
    next heq => rw [← Option.some.inj h, heq]; rfl
    split at h
    next heq => rw [← Option.some.inj h, heq]; rfl
    split at h
    next heq => rw [← Option.some.inj h, heq]; rfl
    cases h
  · rintro rfl
    cases pageType <;> decide

/-- The fields of a page that the catalog takes. -/
structure CatalogFields (fields : Fields) (page : IndexPage) : Prop where
  slug : fields.get "slug".toList = some page.slug
  pageType : fields.get "type".toList = some page.pageType.asStr
  summary : fields.get "summary".toList = some page.summary

/-- A page that the catalog takes, under the name of its slug. -/
def Catalogued (entry : Text × Fields) : Prop :=
  ∃ page : IndexPage, entry.1 = page.slug ++ markdownSuffix ∧
    CatalogFields entry.2 page

theorem enumFailures_eq_nil {name field : Text} {fields : Fields}
    {allowed : List Text} (h : enumFailures name fields field allowed = []) :
    ∃ value, fields.get field = some value ∧ value ∈ allowed := by
  unfold enumFailures at h
  split at h
  · cases h
  next value hvalue =>
  split at h
  · cases h
  split at h
  · cases h
  next hmem => exact ⟨value, hvalue, not_not.1 hmem⟩

/-- The type of a page with an allowed name. -/
theorem exists_asStr {value : Text}
    (h : value ∈ ["decision".toList, "feature".toList, "gotcha".toList,
      "pattern".toList, "project-state".toList, "workflow".toList]) :
    ∃ pageType : PageType, value = pageType.asStr := by
  simp only [List.mem_cons, List.not_mem_nil, or_false] at h
  rcases h with rfl | rfl | rfl | rfl | rfl | rfl
  · exact ⟨.decision, rfl⟩
  · exact ⟨.feature, rfl⟩
  · exact ⟨.gotcha, rfl⟩
  · exact ⟨.pattern, rfl⟩
  · exact ⟨.projectState, rfl⟩
  · exact ⟨.workflow, rfl⟩

variable [Unicode]

theorem catalogFields_of_pageFailures {name slug source : Text} {fields : Fields}
    (h : pageFailures name slug source fields = []) :
    ∃ page, page.slug = slug ∧ CatalogFields fields page := by
  simp only [pageFailures, List.append_eq_nil_iff] at h
  obtain ⟨⟨⟨⟨⟨⟨⟨⟨⟨hslug, -⟩, hsummary⟩, -⟩, htype⟩, -⟩, -⟩, -⟩, -⟩, -⟩ := h
  obtain ⟨value, hvalue, hallowed⟩ := enumFailures_eq_nil htype
  obtain ⟨pageType, rfl⟩ := exists_asStr hallowed
  have hslugField : fields.get "slug".toList = some slug := by
    unfold slugFailures at hslug
    split at hslug
    next heq => exact heq
    · cases hslug
  unfold summaryFailures at hsummary
  split at hsummary
  · cases hsummary
  next summary hget =>
      exact ⟨⟨slug, pageType, summary⟩, rfl, hslugField, hvalue, hget⟩

theorem validateWiki_eq_nil {snapshot : WikiSnapshot}
    (h : (validateWiki snapshot).failures = []) :
    ∃ index, Text.fromUtf8 snapshot.index = some index ∧
      structureFailures snapshot index = [] ∧
      validateGeneratedIndex index (validPages snapshot) = [] := by
  unfold validateWiki at h
  split at h
  · cases h
  next index hindex =>
  rw [eraseDups_eq_nil_iff] at h
  split at h
  next hstructure => exact ⟨index, hindex, hstructure, h⟩
  next hstructure => exact absurd h hstructure

theorem validateWiki_clean {snapshot : WikiSnapshot} {index : Text}
    (hindex : Text.fromUtf8 snapshot.index = some index)
    (hstructure : structureFailures snapshot index = [])
    (hgenerated : validateGeneratedIndex index (validPages snapshot) = []) :
    (validateWiki snapshot).failures = [] := by
  simp only [validateWiki, hindex, hstructure, hgenerated, if_true, List.eraseDups_nil]

/-- A captured page that has no failure of its own. -/
structure CleanEntry (slugs : List Text) (page : CapturedPage) (name : Text) :
    Prop where
  named : Text.fromUtf8 page.name = some name
  regular : isNotRegular page = false
  checked : (checkPage slugs page).failures = []

theorem cleanEntry_of_structure {snapshot : WikiSnapshot} {index : Text}
    (h : structureFailures snapshot index = []) :
    ∀ page ∈ snapshot.pages,
      ∃ name, CleanEntry (pageSlugs snapshot) page name := by
  simp only [structureFailures, List.append_eq_nil_iff,
    List.flatMap_eq_nil_iff] at h
  obtain ⟨⟨⟨hentries, -⟩, -⟩, hchecks⟩ := h
  intro page hpage
  have hentry := hentries page hpage
  unfold entryFailures at hentry
  rcases hname : Text.fromUtf8 page.name with _ | name
  · simp [hname] at hentry
  · refine ⟨name, hname, ?_, hchecks page hpage⟩
    rcases hregular : isNotRegular page with _ | _
    · rfl
    · simp [hname, hregular] at hentry

/-- What the check of a clean `.md` page found. -/
structure CleanPage (slugs : List Text) (page : CapturedPage) (slug : Text)
    (bytes : Bytes) (source : Text) : Prop where
  present : page.outcome = .present bytes
  text : Text.fromUtf8 bytes = some source
  nonempty : (parseFrontmatter source).fields.isEmpty = false
  failures : pageFailures (slug ++ markdownSuffix) slug source
    (parseFrontmatter source).fields = []
  valid : (checkPage slugs page).valid =
    some (slug ++ markdownSuffix, (parseFrontmatter source).fields)

theorem CleanEntry.page {slugs : List Text} {page : CapturedPage}
    {name slug : Text} (h : CleanEntry slugs page name)
    (hslug : stripSuffix markdownSuffix name = some slug) :
    ∃ bytes source, CleanPage slugs page slug bytes source := by
  have hname := stripSuffix_eq_some hslug
  subst hname
  have hchecked := h.checked
  rcases houtcome : page.outcome with bytes | _ | detail | _ | _
  case notRegular =>
      have hregular := h.regular
      simp [isNotRegular, houtcome] at hregular
  case unreadable =>
      simp [checkPage, h.named, hslug, houtcome, PageCheck.failed] at hchecked
  case symlink =>
      simp [checkPage, h.named, hslug, houtcome, PageCheck.failed] at hchecked
  case outsideCorpus =>
      simp [checkPage, h.named, hslug, houtcome, PageCheck.failed] at hchecked
  case present =>
      have hcheck : checkPage slugs page =
          checkSource slugs (slug ++ markdownSuffix) slug bytes := by
        simp [checkPage, h.named, hslug, houtcome]
      rw [hcheck] at hchecked
      rcases hsource : Text.fromUtf8 bytes with _ | source
      · simp [checkSource, hsource, PageCheck.failed] at hchecked
      rcases hempty : (parseFrontmatter source).fields.isEmpty with _ | _
      · refine ⟨bytes, source, houtcome, hsource, hempty, ?_, ?_⟩
        · simpa [checkSource, hsource, hempty] using hchecked
        · rw [hcheck]
          simp [checkSource, hsource, hempty]
      · simp [checkSource, hsource, hempty, PageCheck.failed] at hchecked

/-- What the check of a page whose fields can be read finds in its text. -/
theorem checkPage_toBytes (slugs : List Text) {slug source : Text}
    (hfields : (parseFrontmatter source).fields.isEmpty = false) :
    (checkPage slugs ⟨(slug ++ markdownSuffix).toBytes, .present source.toBytes⟩).failures =
      pageFailures (slug ++ markdownSuffix) slug source (parseFrontmatter source).fields ∧
    (checkPage slugs ⟨(slug ++ markdownSuffix).toBytes, .present source.toBytes⟩).valid =
      some (slug ++ markdownSuffix, (parseFrontmatter source).fields) := by
  simp only [checkPage, checkSource, Text.fromUtf8_toBytes, stripSuffix_append, hfields]
  exact ⟨rfl, rfl⟩

end Clean

section Reindexed

theorem renderPages_cons {fields : Fields} {page : IndexPage}
    (hfields : CatalogFields fields page) (rest : List (Text × Fields)) :
    renderPages ((page.slug ++ markdownSuffix, fields) :: rest) =
      page :: renderPages rest := by
  have hnamed : PageType.named page.pageType.asStr = some page.pageType :=
    named_eq_some.2 rfl
  unfold renderPages
  rw [List.filterMap_cons_some]
  simp only [stripSuffix_append, hfields.pageType, hfields.summary,
    Option.bind_some, hnamed]
  rfl

theorem parseIndexFields_eq_ok {filename : Text} {fields : Fields}
    {page : IndexPage} (hfields : CatalogFields fields page)
    (hvalid : ValidPage page) (hne : fields.isEmpty = false) :
    parseIndexFields filename page.slug fields = .ok page := by
  have hnamed : parsePageType page.pageType.asStr = some page.pageType :=
    named_eq_some.2 rfl
  unfold parseIndexFields
  simp only [hne, hfields.slug, hvalid.slugOk, hfields.pageType,
    Option.bind_some, hnamed, hfields.summary, Option.getD_some,
    hvalid.summaryOk]
  simp

theorem isMarkdownEntry_of_name {page : CapturedPage} {name : Text}
    (hname : Text.fromUtf8 page.name = some name) :
    isMarkdownEntry page = (stripSuffix markdownSuffix name).isSome := by
  have hbytes := Text.toBytes_of_fromUtf8 hname
  have hascii : ∀ c ∈ markdownSuffix, c.toNat < 0x80 := by
    have hall : markdownSuffix.all (fun c => decide (c.toNat < 0x80)) = true := by
      decide
    simpa using hall
  rcases hstrip : stripSuffix markdownSuffix name with _ | slug
  · refine decide_eq_false ?_
    rintro ⟨before, hbefore⟩
    rw [← hbytes] at hbefore
    obtain ⟨start, rfl, -⟩ :=
      Text.exists_append_of_toBytes hascii hbefore.symm
    rw [stripSuffix_append] at hstrip
    cases hstrip
  · have hslug := stripSuffix_eq_some hstrip
    refine decide_eq_true ⟨slug.toBytes, ?_⟩
    rw [← hbytes, hslug, Text.toBytes_append]

/-- The line check of a catalogued page list expects the pages as rendered. -/
theorem expectedEntries_eq {pages : List (Text × Fields)}
    (hpages : ∀ entry ∈ pages, Catalogued entry) :
    expectedEntries pages =
      SlugMap.collect ((renderPages pages).map expectedEntry) := by
  unfold expectedEntries
  congr 1
  induction pages with
  | nil => rfl
  | cons entry rest ih =>
      obtain ⟨page, hname, hfields⟩ := hpages entry List.mem_cons_self
      obtain ⟨name, fields⟩ := entry
      change name = _ at hname
      change CatalogFields fields page at hfields
      subst hname
      have hrest := ih fun other hother => hpages other (List.mem_cons_of_mem _ hother)
      rw [renderPages_cons hfields, List.map_cons, ← hrest,
        List.filterMap_cons_some]
      simp only [stripSuffix_append, hfields.pageType, hfields.summary]
      rfl

variable [Unicode]

/-- A reindex captures the clean pages and reads what the catalog takes. -/
theorem parseCapturedPages_of_clean {slugs : List Text} {pages : List CapturedPage}
    (hclean : ∀ page ∈ pages, ∃ name, CleanEntry slugs page name)
    (hvalid : ∀ page ∈ renderPages
      (pages.filterMap fun page => (checkPage slugs page).valid), ValidPage page) :
    ∃ files, (pages.filter isMarkdownEntry).mapM captureEntry = some files ∧
      parseCapturedPages files = .ok (renderPages
        (pages.filterMap fun page => (checkPage slugs page).valid)) := by
  induction pages with
  | nil => exact ⟨[], rfl, rfl⟩
  | cons page pages ih =>
      have hrest := ih fun other hother => hclean other (List.mem_cons_of_mem _ hother)
      obtain ⟨name, hentry⟩ := hclean page List.mem_cons_self
      have hmarkdown := isMarkdownEntry_of_name hentry.named
      rcases hslug : stripSuffix markdownSuffix name with _ | slug
      · -- neither the check nor the reindex looks at the page
        have hskipped : (checkPage slugs page).valid = none := by
          simp [checkPage, hentry.named, hslug, PageCheck.skipped]
        have hfound : (page :: pages).filterMap
            (fun page => (checkPage slugs page).valid) =
              pages.filterMap fun page => (checkPage slugs page).valid := by
          simp only [List.filterMap_cons, hskipped]
        rw [hslug] at hmarkdown
        rw [hfound] at hvalid ⊢
        rw [List.filter_cons_of_neg (by simp [hmarkdown])]
        exact hrest hvalid
      · obtain ⟨bytes, source, hpage⟩ := hentry.page hslug
        obtain ⟨indexPage, hindexSlug, hfields⟩ :=
          catalogFields_of_pageFailures hpage.failures
        subst hindexSlug
        have hfound : (page :: pages).filterMap
            (fun page => (checkPage slugs page).valid) =
              (indexPage.slug ++ markdownSuffix,
                (parseFrontmatter source).fields) ::
                pages.filterMap fun page => (checkPage slugs page).valid := by
          simp only [List.filterMap_cons, hpage.valid]
        rw [hslug] at hmarkdown
        rw [hfound, renderPages_cons hfields] at hvalid ⊢
        obtain ⟨files, hfiles, hparsed⟩ := hrest fun other hother =>
          hvalid other (List.mem_cons_of_mem _ hother)
        have hvalidPage := hvalid indexPage List.mem_cons_self
        have hname := stripSuffix_eq_some hslug
        have hfile : parseCapturedPage ⟨page.name, bytes⟩ = .ok indexPage := by
          unfold parseCapturedPage
          rw [hentry.named, hname, hpage.text]
          simp only [parseIndexPage_slug hvalidPage.slugOk,
            parseIndexFields_eq_ok hfields hvalidPage hpage.nonempty]
        refine ⟨⟨page.name, bytes⟩ :: files, ?_, ?_⟩
        · rw [List.filter_cons_of_pos (by simp [hmarkdown]), List.mapM_cons]
          simp [captureEntry, hpage.present, hfiles]
        · rw [parseCapturedPages, hfile, hparsed]
          rfl

end Reindexed

section Agreement

variable [Unicode]

omit [Unicode] in
theorem rebuildIndex_of_catalogFailures {index : Text} {pages : List IndexPage}
    (h : catalogFailures index pages = []) :
    rebuildIndex index pages = .ok index := by
  unfold catalogFailures at h
  split at h
  next canonical hcanonical =>
      split at h
      · cases h
      next heq =>
          rw [hcanonical, not_not.1 heq]
  next => cases h

/-- The line check of what the catalog renders finds nothing. -/
theorem regionFailures_of_rebuildIndex {index region : Text}
    {pages : List (Text × Fields)} (hpages : ∀ entry ∈ pages, Catalogued entry)
    (hcanonical : rebuildIndex index (renderPages pages) = .ok index)
    (hregion : generatedRegion index = .ok region) :
    regionFailures (expectedEntries pages) region = [] := by
  obtain ⟨⟨found, hfound⟩, hvalid⟩ := rebuildIndex_eq_ok hcanonical
  obtain ⟨before, c, between, after, hindex, hmarked, -⟩ :=
    exists_marked isMarker_begin hfound
  rw [hindex, rebuildIndex_of_marked hmarked hvalid] at hcanonical
  have hbetween := markedText_between_injective (Except.ok.inj hcanonical)
  rw [hindex, generatedRegion_of_marked hmarked] at hregion
  rw [← Except.ok.inj hregion, ← hbetween, expectedEntries_eq hpages]
  exact regionFailures_catalogBetween hvalid

theorem catalogued_of_structure {snapshot : WikiSnapshot} {index : Text}
    (h : structureFailures snapshot index = []) :
    ∀ entry ∈ validPages snapshot, Catalogued entry := by
  intro entry hentry
  obtain ⟨page, hpage, hvalid⟩ := List.mem_filterMap.1 hentry
  obtain ⟨name, hclean⟩ := cleanEntry_of_structure h page hpage
  rcases hslug : stripSuffix markdownSuffix name with _ | slug
  · simp [checkPage, hclean.named, hslug, PageCheck.skipped] at hvalid
  · obtain ⟨bytes, source, hfound⟩ := hclean.page hslug
    obtain ⟨indexPage, rfl, hfields⟩ :=
      catalogFields_of_pageFailures hfound.failures
    rw [hfound.valid] at hvalid
    rw [← Option.some.inj hvalid]
    exact ⟨indexPage, rfl, hfields⟩

/-- What a reindex over the bytes of a snapshot without failures does. -/
structure ReindexLeaves (D : Type) [Sha256 D] (snapshot : WikiSnapshot)
    (files : List CapturedFile) : Prop where
  captured : captureInputs snapshot = some files
  accepted : parseCapturedPages files = .ok (renderPages (validPages snapshot))
  unchanged : reindexChange snapshot.index files = .ok (false, none)
  digest : canonicalDigest D snapshot.index files =
    some (Sha256.digest snapshot.index)

theorem reindexLeaves_of_validateWiki (D : Type) [Sha256 D]
    {snapshot : WikiSnapshot} (h : (validateWiki snapshot).failures = []) :
    ∃ files, ReindexLeaves D snapshot files := by
  obtain ⟨index, hindex, hstructure, hgenerated⟩ := validateWiki_eq_nil h
  have hcatalog : catalogFailures index (renderPages (validPages snapshot)) =
      [] := by
    unfold validateGeneratedIndex at hgenerated
    exact (List.append_eq_nil_iff.1 hgenerated).1
  have hcanonical := rebuildIndex_of_catalogFailures hcatalog
  have hvalid := (validatePages_eq_ok.1 (rebuildIndex_eq_ok hcanonical).2).1
  obtain ⟨files, hfiles, hparsed⟩ :=
    parseCapturedPages_of_clean (cleanEntry_of_structure hstructure) hvalid
  have hpages : parseCapturedPages files =
      .ok (renderPages (validPages snapshot)) := hparsed
  have hcheck : checkIndex index (renderPages (validPages snapshot)) =
      .ok ⟨true, none⟩ := by
    simp [checkIndex, hcanonical, compareIndex, bind, Except.bind, pure,
      Except.pure]
  have hbytes := Text.toBytes_of_fromUtf8 hindex
  refine ⟨files, hfiles, hpages, ?_, ?_⟩
  · simp [reindexChange, hindex, hpages, hcanonical, hcheck, hbytes, bind,
      Except.bind]
  · simp [canonicalDigest, hindex, hpages, hcheck]

theorem validateWiki_of_rebuildIndex {snapshot : WikiSnapshot} {index : Text}
    (hindex : Text.fromUtf8 snapshot.index = some index)
    (hcanonical : rebuildIndex index (renderPages (validPages snapshot)) =
      .ok index) :
    (validateWiki snapshot).failures =
      (structureFailures snapshot index).eraseDups := by
  unfold validateWiki
  rw [hindex]
  by_cases hstructure : structureFailures snapshot index = []
  · obtain ⟨found, hfound⟩ := (rebuildIndex_eq_ok hcanonical).1
    have hregion : generatedRegion index =
        .ok ((index.take found.tailStart).drop found.headEnd) := by
      simp [generatedRegion, hfound, bind, Except.bind, pure, Except.pure]
    have hlines := regionFailures_of_rebuildIndex
      (catalogued_of_structure hstructure) hcanonical hregion
    simp only [hstructure, if_true, validateGeneratedIndex, catalogFailures,
      hcanonical, hregion, hlines]
    simp
  · simp only [hstructure, if_false]

/-- The checker and the catalog agree, in both directions. -/
theorem check_agrees_with_catalog (D : Type) [Sha256 D] :
    (∀ snapshot, (validateWiki snapshot).failures = [] →
      ∃ files, ReindexLeaves D snapshot files) ∧
    (∀ index pages region, (∀ entry ∈ pages, Catalogued entry) →
      rebuildIndex index (renderPages pages) = .ok index →
      generatedRegion index = .ok region →
      regionFailures (expectedEntries pages) region = []) ∧
    ∀ snapshot index, Text.fromUtf8 snapshot.index = some index →
      rebuildIndex index (renderPages (validPages snapshot)) = .ok index →
      (validateWiki snapshot).failures =
        (structureFailures snapshot index).eraseDups := by
  refine ⟨?_, ?_, ?_⟩
  · intro snapshot hchecked
    exact reindexLeaves_of_validateWiki D hchecked
  · intro index pages region hpages hcanonical hregion
    exact regionFailures_of_rebuildIndex hpages hcanonical hregion
  · intro snapshot index hindex hcanonical
    exact validateWiki_of_rebuildIndex hindex hcanonical

end Agreement

namespace CatalogCheckWitness

local instance : Unicode := Unicode.ascii

local instance : Sha256 Bytes := ⟨id, fun _ => []⟩

def page : IndexPage := ⟨"tabs".toList, .pattern, "always (two) — indent".toList⟩

def source : Text :=
  ("---\nslug: tabs\ntitle: Tabs\nsummary: always (two) — indent\n" ++
    "type: pattern\nowner: codex\nstatus: current\nupdated: 2026-08-08\n" ++
    "verified: 2026-08-08\n---\n\nTwo columns.\n").toList

/-- An index with CRLF lines around the generated region. -/
def index : Text :=
  "# Wiki\r\n".toList ++ beginMarker ++ "\r".toList ++ catalogBetween [page] ++
    endMarker ++ "\r\n".toList

def snapshot : WikiSnapshot where
  corpus := Text.toBytes "/home".toList
  index := index.toBytes
  pages := [⟨Text.toBytes "tabs.md".toList, .present source.toBytes⟩]
  isolated := true
  isolationNote := none

def tabs : CapturedPage := ⟨Text.toBytes "tabs.md".toList, .present source.toBytes⟩

/-- The one page is read from its text; its bytes are not decoded again. -/
theorem checked_tabs :
    (checkPage (pageSlugs snapshot) tabs).failures = [] ∧
      validPages snapshot = [("tabs.md".toList, (parseFrontmatter source).fields)] := by
  have hname : "tabs.md".toList = "tabs".toList ++ markdownSuffix := by decide
  have hfields : (parseFrontmatter source).fields.isEmpty = false := by
    unfold source
    repeat rw [String.toList_append]
    repeat rw [String.toList_ofList]
    decide
  have hclean : pageFailures ("tabs".toList ++ markdownSuffix) "tabs".toList source
      (parseFrontmatter source).fields = [] := by
    unfold source
    repeat rw [String.toList_append]
    repeat rw [String.toList_ofList]
    decide +kernel
  obtain ⟨hfailures, hvalid⟩ := checkPage_toBytes (pageSlugs snapshot) hfields
  rw [← hname] at hfailures hvalid hclean
  have hpages : snapshot.pages = [tabs] := rfl
  exact ⟨hfailures.trans hclean,
    (congrArg (List.filterMap _) hpages).trans (List.filterMap_cons_some hvalid)⟩

theorem check_agrees_once :
    (∃ files, ReindexLeaves Bytes snapshot files) ∧
    regionFailures (expectedEntries (validPages snapshot))
      (catalogBetween [page]) = [] ∧
    (validateWiki snapshot).failures =
      (structureFailures snapshot index).eraseDups := by
  have hagrees := check_agrees_with_catalog Bytes
  have hindex : Text.fromUtf8 snapshot.index = some index := Text.fromUtf8_toBytes index
  obtain ⟨hchecked, hvalid⟩ := checked_tabs
  have horphan : orphanFailures index (pageFiles snapshot) = [] := by
    unfold snapshot index page beginMarker
    repeat rw [String.toList_append]
    repeat rw [String.toList_ofList]
    decide +kernel
  have hdangling : danglingFailures index (pageFiles snapshot) = [] := by
    unfold snapshot index page beginMarker
    repeat rw [String.toList_append]
    repeat rw [String.toList_ofList]
    decide +kernel
  have hstructure : structureFailures snapshot index = [] := by
    unfold structureFailures
    have hentries : snapshot.pages.flatMap entryFailures = [] := by decide
    rw [hentries, horphan, hdangling, show snapshot.pages = [tabs] from rfl,
      List.flatMap_cons, hchecked]
    rfl
  have hcanonical : rebuildIndex index (renderPages (validPages snapshot)) =
      .ok index := by
    rw [hvalid]
    unfold index source page
    repeat rw [String.toList_append]
    repeat rw [String.toList_ofList]
    decide +kernel
  have hfailures := hagrees.2.2 snapshot index hindex hcanonical
  have hclean : (validateWiki snapshot).failures = [] := by
    rw [hfailures, hstructure]
    rfl
  refine ⟨hagrees.1 snapshot hclean, ?_, hfailures⟩
  exact hagrees.2.1 index (validPages snapshot) _
    (catalogued_of_structure hstructure) hcanonical (by decide +kernel)

end CatalogCheckWitness

end Yams.Wiki
