/-
What the checker and the catalog say about a page that the writer has rendered:
the structural check finds nothing in it, and its entry is valid.
-/
import Yams.CatalogCheck
import Yams.IndexLinks
import Yams.LineReferences

namespace Yams.Wiki

section Summaries

theorem characterProblems_agree {summary : Text}
    (h : characterProblem summary = none) :
    summaryCharacterProblem summary = none := by
  induction summary with
  | nil => rfl
  | cons c rest ih =>
      by_cases hboundary : isSplitlinesBoundary c = true
      · simp [characterProblem, hboundary] at h
      · by_cases hcontrol : isControl c = true
        · simp [characterProblem, hboundary, hcontrol] at h
        · simp only [characterProblem, hboundary, hcontrol] at h
          simp only [summaryCharacterProblem, hboundary, hcontrol]
          exact ih h

theorem indexLinkAt_of_shape {text after name rest : Text}
    (hstrip : Text.stripPrefix linkOpening text = some after)
    (hsplit : splitOnceAt ".md)".toList after = some (name, rest))
    (hne : name ≠ []) (hname : ')' ∉ name) :
    indexLinkAt text = some (name ++ ".md".toList, rest) := by
  have hafter : after = (name ++ ".md".toList) ++ ')' :: rest := by
    rw [splitOnceAt_eq_some hsplit]
    simp
  have hclean : ')' ∉ name ++ ".md".toList := by
    have hfixed : ')' ∉ ".md".toList := by decide
    simp only [List.mem_append, not_or]
    exact ⟨hname, hfixed⟩
  have hlength : 3 < (name ++ ".md".toList).length := by
    have hpos := List.length_pos_iff.2 hne
    have hfixed : ".md".toList.length = 3 := by decide
    rw [List.length_append]
    omega
  have hsuffix : ".md".toList <:+ name ++ ".md".toList := ⟨name, rfl⟩
  rw [indexLinkAt, hstrip, hafter]
  simp only [Text.splitOnce_append hclean]
  rw [if_pos ⟨hlength, hsuffix⟩]

/-- The catalog's shape of a link is one that the writer's pattern finds. -/
theorem matches_of_shape {summary : Text} (h : hasIndexLinkShape summary = true) :
    contains linkOpening summary = true ∧ contains ".md)".toList summary = true ∧
      matchesIndexLink summary = true := by
  induction summary with
  | nil => cases h
  | cons c rest ih =>
      rw [hasIndexLinkShape, Bool.or_eq_true] at h
      rcases h with hhere | hrest
      · split at hhere
        case h_2 => cases hhere
        case h_1 after hstrip =>
        split at hhere
        case h_2 => cases hhere
        case h_1 name more hsplit =>
        obtain ⟨hne, hname⟩ := of_decide_eq_true hhere
        have hat := indexLinkAt_of_shape hstrip hsplit hne hname
        have htext := stripPrefix_eq_some hstrip
        refine ⟨contains_iff.2 ?_, contains_iff.2 ?_, ?_⟩
        · exact ⟨[], after, by rw [htext, List.nil_append]⟩
        · exact ⟨linkOpening ++ name, more, by
            rw [htext, splitOnceAt_eq_some hsplit]
            simp⟩
        · rw [matchesIndexLink, hat]
          rfl
      · obtain ⟨hopening, hclosing, hmatch⟩ := ih hrest
        refine ⟨contains_iff.2 ?_, contains_iff.2 ?_, ?_⟩
        · exact (contains_iff.1 hopening).trans (List.suffix_cons _ _).isInfix
        · exact (contains_iff.1 hclosing).trans (List.suffix_cons _ _).isInfix
        · rw [matchesIndexLink, hmatch, Bool.or_true]

/-- What the rules of a page accept, the rules of the catalog accept. -/
theorem summaryProblem_of_scalarProblem {summary : Text}
    (h : scalarProblem summary = none) : summaryProblem summary = none := by
  unfold scalarProblem at h
  unfold summaryProblem
  split at h
  · cases h
  next htrim =>
  split at h
  · cases h
  next hcharacters =>
  split at h
  · cases h
  next hcomment =>
  split at h
  · cases h
  next hlink =>
  rw [if_neg htrim, characterProblems_agree hcharacters]
  simp only
  rw [if_neg hcomment, if_neg]
  intro hshape
  exact hlink (matches_of_shape hshape)

end Summaries

section Fields

theorem get_eq_none_of_not_mem {fields : Fields} {key : Text}
    (h : key ∉ fields.map Prod.fst) : fields.get key = none := by
  unfold Fields.get
  rw [List.find?_eq_none.2, Option.map_none]
  intro field hfield heq
  exact h (List.mem_map.2 ⟨field, hfield, of_decide_eq_true heq⟩)

/-- Equal maps have the same entry under every key. -/
theorem get_eq_of_sameFields {left right : Fields}
    (h : sameFields left right = true) (key : Text) :
    left.get key = right.get key := by
  by_cases hmem : key ∈ left.map Prod.fst ++ right.map Prod.fst
  · exact of_decide_eq_true (List.all_eq_true.1 h key hmem)
  · rw [List.mem_append, not_or] at hmem
    rw [get_eq_none_of_not_mem hmem.1, get_eq_none_of_not_mem hmem.2]

theorem get_of_at {fields : Fields} {key value : Text}
    (h : Fields.at fields key = value) (hne : value ≠ []) :
    fields.get key = some value := by
  unfold Fields.at at h
  cases hget : fields.get key with
  | none =>
      rw [hget] at h
      exact absurd h.symm hne
  | some found =>
      rw [hget] at h
      exact congrArg some h

theorem pageType_of_parse {value : Text} {pageType : PageType}
    (h : PageType.parse value = .ok pageType) : value = pageType.asStr := by
  unfold PageType.parse at h
  split at h
  next hnamed =>
      rw [← Except.ok.inj h]
      exact named_eq_some.1 hnamed
  · cases h

theorem status_of_parse {value : Text} {status : Status}
    (h : Status.parse value = .ok status) : value = status.asStr := by
  unfold Status.parse at h
  split at h
  next found hnamed =>
      rw [← Except.ok.inj h]
      unfold Status.named at hnamed
      split at hnamed
      next heq => rw [← Option.some.inj hnamed, heq]; rfl
      split at hnamed
      next heq => rw [← Option.some.inj hnamed, heq]; rfl
      split at hnamed
      next heq => rw [← Option.some.inj hnamed, heq]; rfl
      cases hnamed
  · cases h

theorem owner_of_parse {value : Text} {owner : Owner}
    (h : Owner.parse value = .ok owner) : value = owner.asStr := by
  unfold Owner.parse at h
  split at h
  next found hnamed =>
      rw [← Except.ok.inj h]
      unfold Owner.named at hnamed
      split at hnamed
      next heq => rw [← Option.some.inj hnamed, heq]; rfl
      split at hnamed
      next heq => rw [← Option.some.inj hnamed, heq]; rfl
      split at hnamed
      next heq => rw [← Option.some.inj hnamed, heq]; rfl
      cases hnamed
  · cases h

end Fields

section Pages

variable [Unicode]

omit [Unicode] in
theorem requiredPageField_ne_nil {fields : Fields} {field value : Text}
    (h : requiredPageField fields field = .ok value) : value ≠ [] := by
  have hvalue := requiredPageField_eq_ok h
  unfold requiredPageField at h
  split at h
  · cases h
  next hne => exact hvalue ▸ hne

/-- The checks that a page has passed when it was read. -/
structure CheckedPage (wiki : ParsedWikiPage) : Prop where
  slug : wiki.slug ≠ []
  title : wiki.title ≠ []
  summary : wiki.summary ≠ []
  summaryScalar : scalarProblem wiki.summary = none
  updated : isIsoDate wiki.updated = true
  verified : isIsoDate wiki.verified = true
  ordered : ¬ wiki.verified < wiki.updated

omit [Unicode] in
theorem scalarProblem_of_validate {field value : Text}
    (h : validateFrontmatterScalar field value = .ok ()) :
    scalarProblem value = none := by
  unfold validateFrontmatterScalar at h
  split at h
  · cases h
  next hproblem => exact hproblem

theorem checkedPage_of_parseWikiPage {source : Text} {wiki : ParsedWikiPage}
    (h : parseWikiPage source = .ok wiki) : CheckedPage wiki := by
  simp only [parseWikiPage, except_bind_eq_ok] at h
  obtain ⟨fields, _, slug, hslug, _, _, title, htitle, _, _, summary,
    hsummary, _, hscalar, pageType, _, status, _, owner, _,
    updated, _, verified, _, _, hupdated, _, hverified, _, hordered,
    hwiki⟩ := h
  have hresult := Except.ok.inj hwiki
  subst hresult
  exact
    { slug := requiredPageField_ne_nil hslug
      title := requiredPageField_ne_nil htitle
      summary := requiredPageField_ne_nil hsummary
      summaryScalar := scalarProblem_of_validate hscalar
      updated := check_eq_ok.1 hupdated
      verified := check_eq_ok.1 hverified
      ordered := of_decide_eq_true (check_eq_ok.1 hordered) }

theorem isoDate_ne_nil {value : Text} (h : isIsoDate value = true) : value ≠ [] := by
  rintro rfl
  have hlength := (of_decide_eq_true h).1
  cases hlength

omit [Unicode] in
theorem enumFailures_eq_nil_of_mem {name field value : Text} {fields : Fields}
    {allowed : List Text} (hget : fields.get field = some value)
    (hne : value ≠ []) (hallowed : value ∈ allowed) :
    enumFailures name fields field allowed = [] := by
  unfold enumFailures
  rw [hget]
  simp only
  rw [if_neg hne, if_neg (not_not.2 hallowed)]

theorem dateFailures_eq_nil {name field value : Text} {fields : Fields}
    (hget : fields.get field = some value) (hdate : isIsoDate value = true) :
    dateFailures name fields field = [] := by
  unfold dateFailures
  rw [hget]
  simp only
  rw [if_neg (isoDate_ne_nil hdate), if_neg (not_not.2 hdate)]

/-- The fields of a page that was read have no failure of their own. -/
theorem pageFailures_of_parseWikiPage {name source : Text} {wiki : ParsedWikiPage}
    {fields : Fields} (hwiki : parseWikiPage source = .ok wiki)
    (hsame : sameFields wiki.fields fields = true)
    (hreferences : references (stripLineRefExemptions source) = []) :
    pageFailures name wiki.slug source fields = [] := by
  have hread := parseWikiPage_eq_ok hwiki
  have hchecked := checkedPage_of_parseWikiPage hwiki
  have hget {key value : Text} (hat : value = Fields.at wiki.fields key)
      (hne : value ≠ []) : fields.get key = some value := by
    rw [← get_eq_of_sameFields hsame]
    exact get_of_at hat.symm hne
  have hslug := hget hread.slug hchecked.slug
  have htitle := hget hread.title hchecked.title
  have hsummary := hget hread.summary hchecked.summary
  have hupdated := hget hread.updated (isoDate_ne_nil hchecked.updated)
  have hverified := hget hread.verified (isoDate_ne_nil hchecked.verified)
  have hstatus : fields.get "status".toList = some wiki.status.asStr :=
    hget (status_of_parse hread.status).symm (by cases wiki.status <;> decide)
  have htype : fields.get "type".toList = some wiki.pageType.asStr :=
    hget (pageType_of_parse hread.pageType).symm
      (by cases wiki.pageType <;> decide)
  have howner : fields.get "owner".toList = some wiki.owner.asStr :=
    hget (owner_of_parse hread.owner).symm (by cases wiki.owner <;> decide)
  have hslugFailures : slugFailures name wiki.slug fields = [] := by
    rw [slugFailures, if_pos hslug]
  have htitleFailures : titleFailures name fields = [] := by
    rw [titleFailures, htitle]
    simp [hchecked.title]
  have hsummaryFailures : summaryFailures name fields = [] := by
    rw [summaryFailures, hsummary]
    simp only
    rw [if_neg hchecked.summary, hchecked.summaryScalar]
  have horderFailures : dateOrderFailures name fields = [] := by
    rw [dateOrderFailures, hupdated, hverified]
    simp [hchecked.ordered]
  have hreferenceFailures : referenceFailures name source = [] := by
    rw [referenceFailures, hreferences]
    rfl
  unfold pageFailures
  rw [hslugFailures, htitleFailures, hsummaryFailures,
    enumFailures_eq_nil_of_mem hstatus (by cases wiki.status <;> decide)
      (by cases wiki.status <;> decide),
    enumFailures_eq_nil_of_mem htype (by cases wiki.pageType <;> decide)
      (by cases wiki.pageType <;> decide),
    enumFailures_eq_nil_of_mem howner (by cases wiki.owner <;> decide)
      (by cases wiki.owner <;> decide),
    dateFailures_eq_nil hupdated hchecked.updated,
    dateFailures_eq_nil hverified hchecked.verified, horderFailures,
    hreferenceFailures]
  rfl

/-- A page that the checker and the catalog take, as the given entry. -/
structure WrittenPage (page : Text) (entry : IndexPage) : Prop where
  failures : pageFailures (entry.slug ++ markdownSuffix) entry.slug page
    (parseFrontmatter page).fields = []
  nonempty : (parseFrontmatter page).fields.isEmpty = false
  fields : CatalogFields (parseFrontmatter page).fields entry
  valid : ValidPage entry

/-- The entry of a request: its summary as the reader returns it. -/
def requestEntry (request : CommonRequest) (slug : Text) : IndexPage :=
  ⟨slug, request.pageType, readValue request.summary⟩

theorem writtenPage_of_rendered {request : CommonRequest}
    {slug updated verified page : Text} {owner : Owner} {status : Status}
    (haccepted : Accepted request slug) (hupdated : isIsoDate updated = true)
    (hverified : isIsoDate verified = true)
    (hpage : page = renderPage request slug owner status updated verified)
    (hensure : ensureRenderedPage page = .ok ()) :
    WrittenPage page (requestEntry request slug) := by
  obtain ⟨wiki, hwiki, hsame⟩ := ensureRenderedPage_eq_ok hensure
  have hchecked := checkedPage_of_parseWikiPage hwiki
  have hread := parseWikiPage_eq_ok hwiki
  have hreads : Reads wiki request slug owner status updated verified :=
    reads_renderPage haccepted hupdated hverified (hpage ▸ hwiki)
  have hreferences : references (stripLineRefExemptions page) = [] := by
    rw [hpage]
    exact haccepted.noReferences hupdated hverified owner status
  have hget {key value : Text} (hat : value = Fields.at wiki.fields key)
      (hne : value ≠ []) : (parseFrontmatter page).fields.get key = some value := by
    rw [← get_eq_of_sameFields hsame]
    exact get_of_at hat.symm hne
  have hslug := hget hread.slug hchecked.slug
  have htype : (parseFrontmatter page).fields.get "type".toList =
      some wiki.pageType.asStr :=
    hget (pageType_of_parse hread.pageType).symm
      (by cases wiki.pageType <;> decide)
  have hsummary := hget hread.summary hchecked.summary
  have hfailures : pageFailures (slug ++ markdownSuffix) wiki.slug page
      (parseFrontmatter page).fields = [] :=
    pageFailures_of_parseWikiPage hwiki hsame hreferences
  rw [hreads.slug] at hslug hfailures
  rw [hreads.pageType] at htype
  rw [hreads.summary] at hsummary
  have hscalar := hchecked.summaryScalar
  rw [hreads.summary] at hscalar
  refine ⟨hfailures, ?_, ⟨hslug, htype, hsummary⟩,
    ⟨haccepted.slugOk, summaryProblem_of_scalarProblem hscalar⟩⟩
  cases hfields : (parseFrontmatter page).fields with
  | nil =>
      rw [hfields] at hslug
      cases hslug
  | cons field rest => rfl

/-- The name of the file of a slug. -/
def pageFile (slug : Text) : Bytes := (slug ++ markdownSuffix).toBytes

/-- What the check of a stored page finds. -/
theorem WrittenPage.check {page : Text} {entry : IndexPage}
    (h : WrittenPage page entry) (slugs : List Text) :
    (checkPage slugs ⟨pageFile entry.slug, .present page.toBytes⟩).failures =
      [] ∧
    (checkPage slugs ⟨pageFile entry.slug, .present page.toBytes⟩).valid =
      some (entry.slug ++ markdownSuffix, (parseFrontmatter page).fields) := by
  have hcheck : checkPage slugs ⟨pageFile entry.slug, .present page.toBytes⟩ =
        checkSource slugs (entry.slug ++ markdownSuffix) entry.slug
          page.toBytes := by
    simp only [checkPage, pageFile, Text.fromUtf8_toBytes, stripSuffix_append]
  rw [hcheck]
  simp only [checkSource, Text.fromUtf8_toBytes, h.nonempty]
  exact ⟨h.failures, rfl⟩

end Pages

end Yams.Wiki
