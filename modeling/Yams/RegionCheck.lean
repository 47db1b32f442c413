/-
The line-by-line validation of a generated region, run over the lines that the
catalog renders.  Each heading and each entry is accepted where it stands, so
the run over the sections of all types adds no failure.
-/
import Mathlib.Data.List.Nodup
import Yams.CatalogForm

namespace Yams.Wiki

section Maps

variable {α : Type}

theorem insert_of_fresh {map : SlugMap α} {entry : Text × α}
    (hfresh : entry.1 ∉ map.map Prod.fst) :
    SlugMap.insert map entry = entry :: map := by
  unfold SlugMap.insert
  rw [List.filter_eq_self.2]
  intro old hold
  refine decide_eq_true fun heq => hfresh ?_
  exact heq ▸ List.mem_map.2 ⟨old, hold, rfl⟩

theorem foldl_insert_of_nodup {entries : List (Text × α)} (map : SlugMap α)
    (hnodup : (entries.map Prod.fst).Nodup)
    (hfresh : ∀ entry ∈ entries, entry.1 ∉ map.map Prod.fst) :
    entries.foldl SlugMap.insert map = entries.reverse ++ map := by
  induction entries generalizing map with
  | nil => rfl
  | cons entry rest ih =>
      rw [List.map_cons, List.nodup_cons] at hnodup
      have hfirst := hfresh entry List.mem_cons_self
      have hrest : ∀ other ∈ rest,
          other.1 ∉ (entry :: map).map Prod.fst := by
        intro other hother hmem
        rw [List.map_cons, List.mem_cons] at hmem
        rcases hmem with heq | hmem
        · exact hnodup.1 (heq ▸ List.mem_map.2 ⟨other, hother, rfl⟩)
        · exact hfresh other (List.mem_cons_of_mem _ hother) hmem
      rw [List.foldl_cons, insert_of_fresh hfirst, ih _ hnodup.2 hrest]
      simp

/-- Distinct slugs are all kept, the last one first. -/
theorem collect_of_nodup {entries : List (Text × α)}
    (hnodup : (entries.map Prod.fst).Nodup) :
    SlugMap.collect entries = entries.reverse := by
  rw [SlugMap.collect, foldl_insert_of_nodup [] hnodup (by simp)]
  simp

theorem get_of_mem {map : SlugMap α} {slug : Text} {value : α}
    (hnodup : (map.map Prod.fst).Nodup) (hmem : (slug, value) ∈ map) :
    map.get slug = some value := by
  induction map with
  | nil => cases hmem
  | cons entry rest ih =>
      rw [List.map_cons, List.nodup_cons] at hnodup
      rcases List.mem_cons.1 hmem with rfl | hrest
      · simp [SlugMap.get]
      · have hne : entry.1 ≠ slug := by
          intro heq
          exact hnodup.1 (heq ▸ List.mem_map.2 ⟨_, hrest, rfl⟩)
        have htail := ih hnodup.2 hrest
        simpa [SlugMap.get, List.find?_cons, hne] using htail

end Maps

section Steps

theorem literalHeading_asStr (pageType : PageType) :
    literalHeading pageType.asStr = some pageType.heading := by
  cases pageType <;> decide

theorem heading_injective {left right : PageType}
    (h : left.heading = right.heading) : left = right := by
  revert h
  cases left <;> cases right <;> decide

theorem headings_eq : headings = typeOrder.map PageType.heading := by
  decide

/-- The rank of a heading is the place of its type. -/
theorem idxOf_heading {before after : List PageType} {pageType : PageType}
    (horder : typeOrder = before ++ pageType :: after) :
    headings.idxOf pageType.heading = before.length := by
  have hfresh : pageType ∉ before := by
    have hnodup := typeOrder_nodup
    rw [horder] at hnodup
    intro hmem
    exact (List.nodup_append.1 hnodup).2.2 pageType hmem pageType
      List.mem_cons_self rfl
  have hheading : pageType.heading ∉ before.map PageType.heading := by
    intro hmem
    obtain ⟨other, hother, heq⟩ := List.mem_map.1 hmem
    exact hfresh (heading_injective heq ▸ hother)
  rw [headings_eq, horder, List.map_append, List.map_cons,
    List.idxOf_append_of_notMem hheading]
  simp

variable [Unicode] {expected : Expected} {state : RegionState}

theorem regionLine_headingText {pageType : PageType}
    (hrank : ∀ last, state.lastHeadingRank = some last →
      last < headings.idxOf pageType.heading)
    (hfresh : pageType.heading ∉ state.seenHeadings) :
    regionLine expected state (headingText pageType) =
      { state with
        currentSection := some pageType.heading
        lastHeadingRank := some (headings.idxOf pageType.heading)
        previousSlug := none
        seenHeadings := pageType.heading :: state.seenHeadings } := by
  have hknown : pageType.heading ∈ headings := by
    rw [headings_eq]
    exact List.mem_map.2 ⟨pageType, mem_typeOrder pageType, rfl⟩
  have hordered : state.lastHeadingRank.any
      (fun last => decide (headings.idxOf pageType.heading ≤ last)) = false := by
    cases hlast : state.lastHeadingRank with
    | none => rfl
    | some last =>
        have hlt := hrank last hlast
        simpa using hlt
  unfold regionLine
  rw [if_neg (headingText_ne_nil pageType), stripPrefix_headingText]
  simp only [headingLine, hknown, hfresh, hordered, not_true_eq_false, if_false]
  simp [RegionState.fail]

theorem regionLine_entryLine {page : IndexPage} (hpage : ValidPage page)
    (hsection : state.currentSection = some page.pageType.heading)
    (hprevious : ∀ previous, state.previousSlug = some previous →
      previous < page.slug)
    (hunseen : page.slug ∉ state.seen)
    (hexpected : expected.get page.slug =
      some (page.pageType.asStr, page.summary)) :
    regionLine expected state (entryLine page) =
      { state with
        previousSlug := some page.slug
        seen := page.slug :: state.seen } := by
  have hordered : state.previousSlug.any
      (fun previous => Text.le page.slug previous) = false := by
    cases hlast : state.previousSlug with
    | none => rfl
    | some previous =>
        have hlt := hprevious previous hlast
        simpa [Text.le] using hlt
  have hagrees : expectedFailures state page.slug page.summary
      (expected.get page.slug) = [] := by
    simp [expectedFailures, hexpected, hsection, literalHeading_asStr]
  unfold regionLine
  rw [if_neg (entryLine_ne_nil page), stripPrefix_entryLine,
    parseGeneratedEntry_entryLine hpage]
  simp only [entryLineChecks, hagrees, hordered, hunseen]
  simp [RegionState.fail]

/-- Empty lines are skipped. -/
theorem foldl_regionLine_filter (lines : List Text) (state : RegionState) :
    lines.foldl (regionLine expected) state =
      (lines.filter (· ≠ [])).foldl (regionLine expected) state := by
  induction lines generalizing state with
  | nil => rfl
  | cons line rest ih =>
      by_cases hline : line = []
      · have hskipped : regionLine expected state line = state := if_pos hline
        rw [List.foldl_cons, hskipped, List.filter_cons_of_neg (by simpa using hline)]
        exact ih state
      · rw [List.foldl_cons, List.filter_cons_of_pos (by simpa using hline),
          List.foldl_cons]
        exact ih _

end Steps

section Runs

variable [Unicode] {expected : Expected} {state : RegionState}
  {pages : List IndexPage}

/-- What the validation expects of every page of a catalog. -/
def ExpectsPages (expected : Expected) (pages : List IndexPage) : Prop :=
  ∀ page ∈ pages, expected.get page.slug =
    some (page.pageType.asStr, page.summary)

/-- The state after the entries of some rows. -/
structure ReadRows (state : RegionState) (rows : List IndexPage)
    (after : RegionState) : Prop where
  failures : after.failures = state.failures
  lastHeadingRank : after.lastHeadingRank = state.lastHeadingRank
  seenHeadings : after.seenHeadings = state.seenHeadings
  seen : ∀ slug, slug ∈ after.seen ↔
    slug ∈ state.seen ∨ slug ∈ rows.map IndexPage.slug

theorem foldl_entryLines {pageType : PageType} {rows : List IndexPage}
    (hrows : ∀ page ∈ rows, ValidPage page ∧ page.pageType = pageType)
    (hexpected : ExpectsPages expected rows)
    (hsorted : rows.Pairwise fun left right => left.slug < right.slug)
    (hsection : state.currentSection = some pageType.heading)
    (hprevious : ∀ previous, state.previousSlug = some previous →
      ∀ page ∈ rows, previous < page.slug)
    (hunseen : ∀ page ∈ rows, page.slug ∉ state.seen) :
    ReadRows state rows
      ((rows.map entryLine).foldl (regionLine expected) state) := by
  induction rows generalizing state with
  | nil => exact ⟨rfl, rfl, rfl, by simp⟩
  | cons page rows ih =>
      obtain ⟨hpage, htype⟩ := hrows page List.mem_cons_self
      rw [List.pairwise_cons] at hsorted
      have hline := regionLine_entryLine hpage (htype ▸ hsection)
        (fun previous h => hprevious previous h page List.mem_cons_self)
        (hunseen page List.mem_cons_self) (hexpected page List.mem_cons_self)
      rw [List.map_cons, List.foldl_cons, hline]
      have hbefore : ∀ previous, some page.slug = some previous →
          ∀ other ∈ rows, previous < other.slug := by
        intro previous heq other hother
        rw [← Option.some.inj heq]
        exact hsorted.1 other hother
      have hfresh : ∀ other ∈ rows, other.slug ∉ page.slug :: state.seen := by
        intro other hother hmem
        rcases List.mem_cons.1 hmem with heq | hmem
        · exact absurd (heq ▸ hsorted.1 other hother) (List.lt_irrefl _)
        · exact hunseen other (List.mem_cons_of_mem _ hother) hmem
      let next : RegionState :=
        { state with
          previousSlug := some page.slug
          seen := page.slug :: state.seen }
      have hrest : ReadRows next rows
          ((rows.map entryLine).foldl (regionLine expected) next) :=
        ih (fun other hother => hrows other (List.mem_cons_of_mem _ hother))
          (fun other hother => hexpected other (List.mem_cons_of_mem _ hother))
          hsorted.2 hsection hbefore hfresh
      refine ⟨hrest.failures, hrest.lastHeadingRank, hrest.seenHeadings, ?_⟩
      intro slug
      rw [hrest.seen slug]
      simp only [next, List.map_cons, List.mem_cons]
      tauto

/-- The state after the sections of the types `done`. -/
structure ReadSections (pages : List IndexPage) (done : List PageType)
    (state : RegionState) : Prop where
  failures : state.failures = []
  rank : ∀ last, state.lastHeadingRank = some last → last < done.length
  seen : ∀ slug, slug ∈ state.seen ↔
    ∃ page ∈ pages, page.pageType ∈ done ∧ page.slug = slug
  seenHeadings : ∀ heading, heading ∈ state.seenHeadings ↔
    ∃ page ∈ pages, page.pageType ∈ done ∧ page.pageType.heading = heading

omit [Unicode] in
theorem readSections_initial (pages : List IndexPage) :
    ReadSections pages [] .initial :=
  ⟨rfl, by simp [RegionState.initial], by simp [RegionState.initial],
    by simp [RegionState.initial]⟩

theorem ReadSections.section_ {done after : List PageType} {pageType : PageType}
    (hpages : ∀ page ∈ pages, ValidPage page)
    (hnodup : (pages.map IndexPage.slug).Nodup)
    (hexpected : ExpectsPages expected pages)
    (h : ReadSections pages done state)
    (horder : typeOrder = done ++ pageType :: after) :
    ReadSections pages (done ++ [pageType])
      ((sectionLines pages pageType).foldl (regionLine expected) state) := by
  have hfresh : pageType ∉ done := by
    have hdistinct := typeOrder_nodup
    rw [horder] at hdistinct
    intro hmem
    exact (List.nodup_append.1 hdistinct).2.2 pageType hmem pageType
      List.mem_cons_self rfl
  by_cases hrows : rowsOf pages pageType = []
  · -- a type without pages has no lines
    have hnone : ∀ page ∈ pages, page.pageType ≠ pageType := by
      intro page hpage htype
      have hmem := mem_rowsOf.2 ⟨hpage, htype⟩
      rw [hrows] at hmem
      cases hmem
    have hdone : ∀ page ∈ pages,
        (page.pageType ∈ done ++ [pageType] ↔ page.pageType ∈ done) := by
      intro page hpage
      simp [hnone page hpage]
    rw [sectionLines, if_pos hrows]
    refine ⟨h.failures, ?_, ?_, ?_⟩
    · intro last hlast
      have hlt := h.rank last hlast
      rw [List.length_append]
      omega
    · intro slug
      rw [List.foldl_nil, h.seen slug]
      refine exists_congr fun page => and_congr_right fun hpage => ?_
      rw [hdone page hpage]
    · intro heading
      rw [List.foldl_nil, h.seenHeadings heading]
      refine exists_congr fun page => and_congr_right fun hpage => ?_
      rw [hdone page hpage]
  · obtain ⟨first, hfirst⟩ := List.exists_mem_of_ne_nil _ hrows
    obtain ⟨hfirstPage, hfirstType⟩ := mem_rowsOf.1 hfirst
    have hrank : ∀ last, state.lastHeadingRank = some last →
        last < headings.idxOf pageType.heading := by
      intro last hlast
      rw [idxOf_heading horder]
      exact h.rank last hlast
    have hunread : pageType.heading ∉ state.seenHeadings := by
      intro hmem
      obtain ⟨page, _, hdone, heq⟩ := (h.seenHeadings _).1 hmem
      exact hfresh (heading_injective heq ▸ hdone)
    have hunseen : ∀ page ∈ rowsOf pages pageType, page.slug ∉ state.seen := by
      intro page hpage hmem
      obtain ⟨hpages', htype⟩ := mem_rowsOf.1 hpage
      obtain ⟨other, hother, hdone, heq⟩ := (h.seen _).1 hmem
      have hsame := List.inj_on_of_nodup_map hnodup hother hpages' heq
      exact hfresh (htype ▸ hsame ▸ hdone)
    rw [sectionLines, if_neg hrows, List.foldl_cons,
      regionLine_headingText hrank hunread]
    let below : RegionState :=
      { state with
        currentSection := some pageType.heading
        lastHeadingRank := some (headings.idxOf pageType.heading)
        previousSlug := none
        seenHeadings := pageType.heading :: state.seenHeadings }
    have hrun : ReadRows below (rowsOf pages pageType)
        (((rowsOf pages pageType).map entryLine).foldl (regionLine expected)
          below) := foldl_entryLines
      (fun page hpage => ⟨hpages page (mem_rowsOf.1 hpage).1,
        (mem_rowsOf.1 hpage).2⟩)
      (fun page hpage => hexpected page (mem_rowsOf.1 hpage).1)
      (rowsOf_sorted hnodup) rfl (by simp) hunseen
    refine ⟨hrun.failures.trans h.failures, ?_, ?_, ?_⟩
    · intro last hlast
      rw [hrun.lastHeadingRank] at hlast
      rw [← Option.some.inj hlast, idxOf_heading horder]
      simp
    · intro slug
      rw [hrun.seen slug]
      simp only [below, List.mem_map, mem_rowsOf, List.mem_append,
        List.mem_singleton, h.seen slug]
      constructor
      · rintro (⟨page, hpage, hdone, heq⟩ | ⟨page, ⟨hpage, htype⟩, heq⟩)
        · exact ⟨page, hpage, Or.inl hdone, heq⟩
        · exact ⟨page, hpage, Or.inr htype, heq⟩
      · rintro ⟨page, hpage, hdone | htype, heq⟩
        · exact Or.inl ⟨page, hpage, hdone, heq⟩
        · exact Or.inr ⟨page, ⟨hpage, htype⟩, heq⟩
    · intro heading
      rw [hrun.seenHeadings]
      simp only [below, List.mem_cons, List.mem_append, List.not_mem_nil,
        or_false, h.seenHeadings heading]
      constructor
      · rintro (rfl | ⟨page, hpage, hdone, heq⟩)
        · exact ⟨first, hfirstPage, Or.inr hfirstType, by rw [hfirstType]⟩
        · exact ⟨page, hpage, Or.inl hdone, heq⟩
      · rintro ⟨page, hpage, hdone | htype, heq⟩
        · exact Or.inr ⟨page, hpage, hdone, heq⟩
        · exact Or.inl (by rw [← heq, htype])

theorem foldl_sections {done after : List PageType}
    (hpages : ∀ page ∈ pages, ValidPage page)
    (hnodup : (pages.map IndexPage.slug).Nodup)
    (hexpected : ExpectsPages expected pages)
    (h : ReadSections pages done state) (horder : typeOrder = done ++ after) :
    ReadSections pages typeOrder
      ((after.flatMap (sectionLines pages)).foldl (regionLine expected) state) := by
  induction after generalizing done state with
  | nil =>
      rw [List.append_nil] at horder
      exact horder ▸ h
  | cons pageType rest ih =>
      rw [List.flatMap_cons, List.foldl_append]
      exact ih (h.section_ hpages hnodup hexpected horder) (by simp [horder])

end Runs

section Region

variable [Unicode] {pages : List IndexPage}

omit [Unicode] in
theorem sameSet_of_mem_iff {left right : List Text}
    (h : ∀ text, text ∈ left ↔ text ∈ right) : sameSet left right = true := by
  refine decide_eq_true ⟨?_, ?_⟩
  · exact List.all_eq_true.2 fun text hmem => decide_eq_true ((h text).1 hmem)
  · exact List.all_eq_true.2 fun text hmem => decide_eq_true ((h text).2 hmem)

/-- The entry of a page in the map that the validation expects. -/
def expectedEntry (page : IndexPage) : Text × Text × Text :=
  (page.slug, page.pageType.asStr, page.summary)

/-- The validation of the rendered region finds nothing. -/
theorem regionFailures_catalogBetween
    (hpages : validatePages pages = .ok ()) :
    regionFailures (SlugMap.collect (pages.map expectedEntry))
      (catalogBetween pages) = [] := by
  obtain ⟨hvalid, hnodup⟩ := validatePages_eq_ok.1 hpages
  have hkeys : ((pages.map expectedEntry).map Prod.fst).Nodup := by
    rw [List.map_map]
    exact hnodup
  have hcollect := collect_of_nodup hkeys
  have hexpected : ExpectsPages (SlugMap.collect (pages.map expectedEntry))
      pages := by
    intro page hpage
    rw [hcollect]
    refine get_of_mem ?_ ?_
    · rw [List.map_reverse, List.nodup_reverse]
      exact hkeys
    · exact List.mem_reverse.2 (List.mem_map.2 ⟨page, hpage, rfl⟩)
  have hrun := foldl_sections hvalid hnodup hexpected
    (readSections_initial pages) (List.nil_append typeOrder).symm
  have hseen : ∀ slug, slug ∈ ((typeOrder.flatMap (sectionLines pages)).foldl
      (regionLine (SlugMap.collect (pages.map expectedEntry))) .initial).seen ↔
        slug ∈ (SlugMap.collect (pages.map expectedEntry)).map Prod.fst := by
    intro slug
    rw [hrun.seen slug, hcollect]
    simp [expectedEntry, mem_typeOrder]
  have hheadings : ∀ heading,
      heading ∈ ((typeOrder.flatMap (sectionLines pages)).foldl
        (regionLine (SlugMap.collect (pages.map expectedEntry)))
          .initial).seenHeadings ↔
        heading ∈ ((SlugMap.collect (pages.map expectedEntry)).filterMap
          fun entry => literalHeading entry.2.1).eraseDups := by
    intro heading
    rw [hrun.seenHeadings heading, hcollect, List.mem_eraseDups]
    simp [expectedEntry, mem_typeOrder, literalHeading_asStr]
  unfold regionFailures
  rw [foldl_regionLine_filter, filter_logicalLines hvalid]
  simp only [hrun.failures, sameSet_of_mem_iff hseen,
    sameSet_of_mem_iff hheadings]
  rfl

end Region

end Yams.Wiki
