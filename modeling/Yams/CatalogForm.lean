/-
The canonical form of a catalog.  A text with a well-formed marker region is a
head, a text between and a tail; the markers cannot reach across the cuts, so
another text between them that lacks comment delimiters is well formed again.
The generated lines are read back, which makes the rendering injective.
-/
import Mathlib.Data.List.Perm.Basic
import Yams.WikiCheck

namespace Yams.Wiki

section Markers

theorem isCompleteLine_append (before line after : Text) :
    isCompleteLine (before ++ line ++ after) before.length
        (before.length + line.length) =
      decide ((before = [] ∨ before.getLast?.any isLineEnd) ∧
        (after = [] ∨ after.head?.any isLineEnd)) := by
  have hstart : (before.length = 0 ∨
        (before ++ line ++ after)[before.length - 1]?.any isLineEnd = true) ↔
      (before = [] ∨ before.getLast?.any isLineEnd) := by
    rcases List.eq_nil_or_concat before with rfl | ⟨rest, c, rfl⟩
    · simp
    · simp [List.concat_eq_append, List.append_assoc]
  have hstop : (before.length + line.length = (before ++ line ++ after).length ∨
        (before ++ line ++ after)[before.length + line.length]?.any isLineEnd
          = true) ↔
      (after = [] ∨ after.head?.any isLineEnd) := by
    cases after with
    | nil => simp
    | cons c after =>
        have hget : (before ++ line ++ c :: after)[before.length + line.length]?
            = some c := by
          rw [← List.length_append]
          simp
        simp only [hget, List.length_append, List.length_cons, List.head?_cons]
        simp
  unfold isCompleteLine
  simp only [hstart, hstop]

/-- The parts of a text whose marker region is well formed: `c` is the one
character that is kept after the marker. -/
structure Marked (marker before : Text) (c : Char) (between after : Text) :
    Prop where
  lineEnd : isLineEnd c = true
  startsLine : before = [] ∨ before.getLast?.any isLineEnd = true
  endsLine : after = [] ∨ after.head?.any isLineEnd = true
  separated : between = [] ∨ between.getLast?.any isLineEnd = true
  begins : matchIndices marker 0 0 (before ++ marker ++ [c]) = [before.length]
  noEnd : ¬ endMarker <:+: before ++ marker ++ [c]
  cleanBegin : ¬ marker <:+: between
  cleanEnd : ¬ endMarker <:+: between
  ends : matchIndices endMarker 0 0 (endMarker ++ after) = [0]
  noBegin : ¬ marker <:+: endMarker ++ after

/-- The text with the given parts. -/
def markedText (marker before : Text) (c : Char) (between after : Text) : Text :=
  before ++ marker ++ [c] ++ between ++ (endMarker ++ after)

/-- A marker is a nonempty text without line ends. -/
def IsMarker (marker : Text) : Prop :=
  marker ≠ [] ∧ marker.all (fun c => !isLineEnd c) = true

theorem isMarker_begin : IsMarker beginMarker := by
  unfold beginMarker
  rw [String.toList_append]
  repeat rw [String.toList_ofList]
  exact ⟨by decide, by decide⟩

theorem isMarker_end : IsMarker endMarker := by
  constructor
  · decide
  · decide

theorem IsMarker.not_mem {marker : Text} (hmarker : IsMarker marker) {c : Char}
    (hc : isLineEnd c = true) : c ∉ marker := by
  intro hmem
  have hall := List.all_eq_true.1 hmarker.2 c hmem
  rw [hc] at hall
  cases hall

theorem IsMarker.cut_concat {marker : Text} (hmarker : IsMarker marker)
    {text : Text} {c : Char} (hc : isLineEnd c = true) :
    Cut marker (text ++ [c]) :=
  Yams.cut_concat (hmarker.not_mem hc)

theorem IsMarker.cut {marker : Text} (hmarker : IsMarker marker) {text : Text}
    (htext : text = [] ∨ text.getLast?.any isLineEnd = true) :
    Cut marker text := by
  rcases htext with rfl | hlast
  · exact cut_nil
  · intro c hc
    rw [hc] at hlast
    exact hmarker.not_mem hlast

variable {marker before between after : Text} {c : Char}

/-- Where a marker occurs in a text cut at the markers. -/
theorem matchIndices_markedText {pattern : Text} (hpattern : IsMarker pattern)
    (hc : isLineEnd c = true)
    (hbetween : between = [] ∨ between.getLast?.any isLineEnd = true) :
    matchIndices pattern 0 0 (markedText marker before c between after) =
      matchIndices pattern 0 0 (before ++ marker ++ [c]) ++
        matchIndices pattern 0 (before ++ marker ++ [c]).length between ++
        matchIndices pattern 0
          ((before ++ marker ++ [c]).length + between.length)
          (endMarker ++ after) := by
  unfold markedText
  rw [List.append_assoc, matchIndices_append_of_cut (hpattern.cut_concat hc)
    hpattern.1, matchIndices_append_of_cut (hpattern.cut hbetween) hpattern.1]
  simp

theorem markerRegionWithBegin_of_marked (hmarker : IsMarker marker)
    (h : Marked marker before c between after) :
    markerRegionWithBegin (markedText marker before c between after) marker =
      .ok ⟨(before ++ marker ++ [c]).length,
        (before ++ marker ++ [c]).length + between.length⟩ := by
  have hbegins : matchIndices marker 0 0
      (markedText marker before c between after) = [before.length] := by
    rw [matchIndices_markedText hmarker h.lineEnd h.separated, h.begins,
      (matchIndices_eq_nil_iff hmarker.1 _).2 h.cleanBegin,
      (matchIndices_eq_nil_iff hmarker.1 _).2 h.noBegin]
    rfl
  have hends : matchIndices endMarker 0 0
      (markedText marker before c between after) =
        [(before ++ marker ++ [c]).length + between.length] := by
    rw [matchIndices_markedText isMarker_end h.lineEnd h.separated,
      (matchIndices_eq_nil_iff isMarker_end.1 _).2 h.noEnd,
      (matchIndices_eq_nil_iff isMarker_end.1 _).2 h.cleanEnd,
      matchIndices_offset, h.ends]
    simp
  have hbeginLine : isCompleteLine (markedText marker before c between after)
      before.length (before.length + marker.length) = true := by
    have hline := isCompleteLine_append before marker
      ([c] ++ between ++ (endMarker ++ after))
    have htext : before ++ marker ++ ([c] ++ between ++ (endMarker ++ after)) =
        markedText marker before c between after := by
      simp [markedText]
    rw [htext] at hline
    rw [hline]
    exact decide_eq_true ⟨h.startsLine, Or.inr (by simpa using h.lineEnd)⟩
  have hendLine : isCompleteLine (markedText marker before c between after)
      ((before ++ marker ++ [c]).length + between.length)
      ((before ++ marker ++ [c]).length + between.length + endMarker.length)
        = true := by
    have hline := isCompleteLine_append (before ++ marker ++ [c] ++ between)
      endMarker after
    have htext : before ++ marker ++ [c] ++ between ++ endMarker ++ after =
        markedText marker before c between after := by
      simp [markedText]
    rw [htext, List.length_append] at hline
    rw [hline]
    refine decide_eq_true ⟨Or.inr ?_, h.endsLine⟩
    rcases h.separated with rfl | hlast
    · simpa using h.lineEnd
    · cases between with
      | nil => cases hlast
      | cons d between =>
          rw [List.getLast?_append_of_ne_nil _ (by simp)]
          exact hlast
  have hmin : min (before.length + marker.length + 1)
      (markedText marker before c between after).length =
        (before ++ marker ++ [c]).length := by
    simp only [markedText, List.length_append, List.length_singleton]
    omega
  have horder : ¬ (before ++ marker ++ [c]).length + between.length <
      before.length + marker.length := by
    simp only [List.length_append]
    omega
  simp only [markerRegionWithBegin, hbegins, hends, hbeginLine, hendLine, hmin,
    horder]
  simp

/-- The text after a marker that is a complete line starts with a line end. -/
theorem exists_lineEnd_of_completeLine {middle : Text}
    (hline : middle ++ (endMarker ++ after) = [] ∨
      (middle ++ (endMarker ++ after)).head?.any isLineEnd = true) :
    ∃ c rest, middle = c :: rest ∧ isLineEnd c = true := by
  cases middle with
  | nil =>
      have hstart : endMarker = '<' :: endMarker.tail := by decide
      rw [hstart] at hline
      rcases hline with hnil | hhead
      · cases hnil
      · revert hhead
        simp [isLineEnd]
  | cons c rest =>
      refine ⟨c, rest, rfl, ?_⟩
      simpa using hline

/-- The parts of a complete-line cut that has one occurrence of each marker. -/
theorem marked_of_matches (hmarker : IsMarker marker)
    (hc : isLineEnd c = true)
    (hstarts : before = [] ∨ before.getLast?.any isLineEnd = true)
    (hendsLine : after = [] ∨ after.head?.any isLineEnd = true)
    (hseparated : between = [] ∨ between.getLast?.any isLineEnd = true)
    (hbegins : matchIndices marker 0 0
      (markedText marker before c between after) = [before.length])
    (hends : matchIndices endMarker 0 0
      (markedText marker before c between after) =
        [(before ++ marker ++ [c]).length + between.length]) :
    Marked marker before c between after := by
  rw [matchIndices_markedText hmarker hc hseparated] at hbegins
  rw [matchIndices_markedText isMarker_end hc hseparated] at hends
  have hheadBegin : matchIndices marker 0 0 (before ++ marker ++ [c]) ≠ [] := by
    rw [Ne, matchIndices_eq_nil_iff hmarker.1, not_not]
    exact ⟨before, [c], rfl⟩
  have htailEnd : matchIndices endMarker 0
      ((before ++ marker ++ [c]).length + between.length)
      (endMarker ++ after) ≠ [] := by
    rw [Ne, matchIndices_eq_nil_iff isMarker_end.1, not_not]
    exact ⟨[], after, rfl⟩
  rw [List.append_assoc, List.append_eq_singleton_iff] at hbegins
  rw [List.append_eq_singleton_iff] at hends
  rcases hbegins with ⟨hnil, _⟩ | ⟨hbegin, hrest⟩
  · exact absurd hnil hheadBegin
  rcases hends with ⟨hfirst, hend⟩ | ⟨_, hnil⟩
  swap
  · exact absurd hnil htailEnd
  rw [List.append_eq_nil_iff] at hrest hfirst
  rw [matchIndices_offset] at hend
  obtain ⟨offset, hoffset, hsum⟩ := List.map_eq_singleton_iff.1 hend
  have hzero : offset = 0 := by omega
  exact
    { lineEnd := hc
      startsLine := hstarts
      endsLine := hendsLine
      separated := hseparated
      begins := hbegin
      noEnd := (matchIndices_eq_nil_iff isMarker_end.1 _).1 hfirst.1
      cleanBegin := (matchIndices_eq_nil_iff hmarker.1 _).1 hrest.1
      cleanEnd := (matchIndices_eq_nil_iff isMarker_end.1 _).1 hfirst.2
      ends := hzero ▸ hoffset
      noBegin := (matchIndices_eq_nil_iff hmarker.1 _).1 hrest.2 }

theorem exists_marked (hmarker : IsMarker marker) {current : Text}
    {region : MarkerRegion}
    (h : markerRegionWithBegin current marker = .ok region) :
    ∃ before c between after, current = markedText marker before c between after ∧
      Marked marker before c between after ∧
      region = ⟨(before ++ marker ++ [c]).length,
        (before ++ marker ++ [c]).length + between.length⟩ := by
  unfold markerRegionWithBegin at h
  split at h
  case h_2 => cases h
  case h_1 start hbegins =>
  split at h
  case h_2 => cases h
  case h_1 stop hends =>
  split at h
  · cases h
  next hbeginLine =>
  split at h
  · cases h
  next hendLine =>
  split at h
  · cases h
  next horder =>
  obtain ⟨before, middle, after, hcurrent, hstart, hstop⟩ :=
    exists_append_of_matches hmarker.1 isMarker_end.1
      (hbegins ▸ List.mem_singleton.2 rfl) (hends ▸ List.mem_singleton.2 rfl)
      (Nat.le_of_not_lt horder)
  rw [hcurrent, List.append_assoc, ← hstart, isCompleteLine_append]
    at hbeginLine
  have hbegin := of_decide_eq_true (not_not.1 hbeginLine)
  obtain ⟨c, between, rfl, hc⟩ := exists_lineEnd_of_completeLine hbegin.2
  have hmarked : current = markedText marker before c between after := by
    rw [hcurrent]
    simp [markedText]
  rw [hcurrent, ← List.append_assoc, ← hstop, isCompleteLine_append] at hendLine
  have hend := of_decide_eq_true (not_not.1 hendLine)
  have hseparated : between = [] ∨ between.getLast?.any isLineEnd = true := by
    cases between with
    | nil => exact Or.inl rfl
    | cons d between =>
        right
        rcases hend.1 with hnil | hlast
        · simp at hnil
        · rw [List.getLast?_append_of_ne_nil _ (by simp)] at hlast
          exact hlast
  have hstopLen : stop = (before ++ marker ++ [c]).length + between.length := by
    rw [← hstop]
    simp only [List.length_append, List.length_cons, List.length_nil]
    omega
  refine ⟨before, c, between, after, hmarked, ?_, ?_⟩
  · refine marked_of_matches hmarker hc hbegin.1 hend.2 hseparated ?_ ?_
    · rw [← hmarked, hbegins, hstart]
    · rw [← hmarked, hends, hstopLen]
  · have hmin : min (start + marker.length + 1) current.length =
        (before ++ marker ++ [c]).length := by
      rw [hmarked, ← hstart]
      simp only [markedText, List.length_append, List.length_singleton]
      omega
    rw [← Except.ok.inj h, hmin, hstopLen]

end Markers

section Pages

/-- What a valid page of a catalog is. -/
structure ValidPage (page : IndexPage) : Prop where
  slugOk : validateSlug page.slug = .ok ()
  summaryOk : summaryProblem page.summary = none

theorem validatePagesFrom_eq_ok {seen : List Text} {pages : List IndexPage} :
    validatePagesFrom seen pages = .ok () ↔
      (∀ page ∈ pages, ValidPage page) ∧ (pages.map IndexPage.slug).Nodup ∧
        ∀ page ∈ pages, page.slug ∉ seen := by
  induction pages generalizing seen with
  | nil => simp [validatePagesFrom]
  | cons page rest ih =>
      constructor
      · intro h
        unfold validatePagesFrom at h
        split at h
        · cases h
        · cases h
        next hslug =>
        split at h
        · cases h
        next hseen =>
        split at h
        · cases h
        next hsummary =>
        obtain ⟨hvalid, hnodup, hfresh⟩ := ih.1 h
        refine ⟨?_, ?_, ?_⟩
        · intro other hother
          rcases List.mem_cons.1 hother with rfl | hrest
          · exact ⟨hslug, hsummary⟩
          · exact hvalid other hrest
        · rw [List.map_cons, List.nodup_cons]
          refine ⟨?_, hnodup⟩
          intro hmem
          obtain ⟨other, hother, heq⟩ := List.mem_map.1 hmem
          exact hfresh other hother (heq ▸ List.mem_cons_self)
        · intro other hother
          rcases List.mem_cons.1 hother with rfl | hrest
          · exact hseen
          · exact fun hmem => hfresh other hrest (List.mem_cons_of_mem _ hmem)
      · rintro ⟨hvalid, hnodup, hfresh⟩
        have hpage := hvalid page List.mem_cons_self
        rw [List.map_cons, List.nodup_cons] at hnodup
        have hrest : validatePagesFrom (page.slug :: seen) rest = .ok () := by
          refine ih.2 ⟨?_, hnodup.2, ?_⟩
          · intro other hother
            exact hvalid other (List.mem_cons_of_mem _ hother)
          · intro other hother hmem
            rcases List.mem_cons.1 hmem with heq | hmem
            · exact hnodup.1 (List.mem_map.2 ⟨other, hother, heq⟩)
            · exact hfresh other (List.mem_cons_of_mem _ hother) hmem
        simp [validatePagesFrom, hpage.slugOk, hpage.summaryOk,
          hfresh page List.mem_cons_self, hrest]

theorem validatePages_eq_ok {pages : List IndexPage} :
    validatePages pages = .ok () ↔
      (∀ page ∈ pages, ValidPage page) ∧ (pages.map IndexPage.slug).Nodup := by
  simp [validatePages, validatePagesFrom_eq_ok]

/-- The facts of an accepted summary that the catalog relies on. -/
structure SafeSummary (summary : Text) : Prop where
  nonempty : summary ≠ []
  oneLine : ∀ c ∈ summary, isSplitlinesBoundary c = false
  noOpening : ¬ "<!--".toList <:+: summary

theorem summaryCharacterProblem_eq_none {summary : Text}
    (h : summaryCharacterProblem summary = none) :
    ∀ c ∈ summary, isSplitlinesBoundary c = false ∧ isControl c = false := by
  induction summary with
  | nil => simp
  | cons c rest ih =>
      by_cases hboundary : isSplitlinesBoundary c = true
      · simp [summaryCharacterProblem, hboundary] at h
      · by_cases hcontrol : isControl c = true
        · simp [summaryCharacterProblem, hboundary, hcontrol] at h
        · simp only [summaryCharacterProblem, hboundary, hcontrol] at h
          intro d hd
          rcases List.mem_cons.1 hd with rfl | hrest
          · exact ⟨by simpa using hboundary, by simpa using hcontrol⟩
          · exact ih h d hrest

theorem safeSummary_of_summaryProblem {summary : Text}
    (h : summaryProblem summary = none) : SafeSummary summary := by
  unfold summaryProblem at h
  split at h
  · cases h
  next htrim =>
  split at h
  · cases h
  next hcharacters =>
  split at h
  · cases h
  next hcomment =>
  refine ⟨?_, ?_, ?_⟩
  · rintro rfl
    exact htrim rfl
  · exact fun c hc => (summaryCharacterProblem_eq_none hcharacters c hc).1
  · exact fun hcontained => hcomment (Or.inl (contains_iff.2 hcontained))

theorem ValidPage.safe {page : IndexPage} (hpage : ValidPage page) :
    SafeSummary page.summary :=
  safeSummary_of_summaryProblem hpage.summaryOk

end Pages

section Rows

variable {pages : List IndexPage} {pageType : PageType}

theorem rowsOf_perm (pages : List IndexPage) (pageType : PageType) :
    (rowsOf pages pageType).Perm
      (pages.filter fun page => page.pageType = pageType) :=
  List.mergeSort_perm _ _

theorem mem_rowsOf {page : IndexPage} :
    page ∈ rowsOf pages pageType ↔ page ∈ pages ∧ page.pageType = pageType := by
  rw [(rowsOf_perm pages pageType).mem_iff]
  simp

theorem rowsOf_sorted (hnodup : (pages.map IndexPage.slug).Nodup) :
    (rowsOf pages pageType).Pairwise fun left right => left.slug < right.slug := by
  have hsorted : (rowsOf pages pageType).Pairwise
      fun left right => Text.le left.slug right.slug = true := by
    apply List.pairwise_mergeSort
    · intro x y z hxy hyz
      exact Text.le_trans hxy hyz
    · intro x y
      simpa using Text.le_total x.slug y.slug
  have hslugs : ((rowsOf pages pageType).map IndexPage.slug).Nodup := by
    rw [((rowsOf_perm pages pageType).map IndexPage.slug).nodup_iff]
    exact hnodup.sublist (List.filter_sublist.map IndexPage.slug)
  have hdistinct : (rowsOf pages pageType).Pairwise
      fun left right => left.slug ≠ right.slug := List.pairwise_map.1 hslugs
  refine List.Pairwise.imp₂ ?_ hsorted hdistinct
  intro left right hle hne
  exact Text.lt_of_le_of_ne hle hne

/-- The rows only depend on which pages the list has. -/
theorem rowsOf_eq_of_perm {other : List IndexPage} (hperm : other.Perm pages)
    (hnodup : (pages.map IndexPage.slug).Nodup) :
    rowsOf other pageType = rowsOf pages pageType := by
  have hother : (other.map IndexPage.slug).Nodup :=
    (hperm.map IndexPage.slug).nodup_iff.2 hnodup
  have hrows : (rowsOf other pageType).Perm (rowsOf pages pageType) :=
    (rowsOf_perm other pageType).trans
      ((hperm.filter _).trans (rowsOf_perm pages pageType).symm)
  refine hrows.eq_of_pairwise ?_ (rowsOf_sorted hother) (rowsOf_sorted hnodup)
  intro left right _ _ hlt hgt
  exact absurd (List.lt_trans hlt hgt) (List.lt_irrefl _)

/-- The pages of each of some types, for all types of the pages, are the pages. -/
theorem flatMap_filter_perm {types : List PageType} (htypes : types.Nodup)
    (hpages : ∀ page ∈ pages, page.pageType ∈ types) :
    (types.flatMap fun pageType =>
      pages.filter fun page => page.pageType = pageType).Perm pages := by
  induction types generalizing pages with
  | nil =>
      cases pages with
      | nil => simp
      | cons page pages => exact absurd (hpages page List.mem_cons_self) (by simp)
  | cons first rest ih =>
      rw [List.nodup_cons] at htypes
      let others := pages.filter fun page => ¬ page.pageType = first
      have hrest : (rest.flatMap fun pageType =>
          pages.filter fun page => page.pageType = pageType) =
            rest.flatMap fun pageType =>
              others.filter fun page => page.pageType = pageType := by
        refine List.flatMap_congr fun pageType hmem => ?_
        rw [List.filter_filter]
        refine List.filter_congr fun page _ => ?_
        have hne : pageType ≠ first := fun heq => htypes.1 (heq ▸ hmem)
        by_cases htype : page.pageType = pageType
        · simp [htype, hne]
        · simp [htype]
      have hothers : ∀ page ∈ others, page.pageType ∈ rest := by
        intro page hpage
        have hmem := List.mem_filter.1 hpage
        rcases List.mem_cons.1 (hpages page hmem.1) with heq | hrest
        · simp [heq] at hmem
        · exact hrest
      rw [List.flatMap_cons, hrest]
      refine ((ih htypes.2 hothers).append_left _).trans ?_
      simpa [others] using
        List.filter_append_perm (fun page => decide (page.pageType = first)) pages

theorem mem_typeOrder (pageType : PageType) : pageType ∈ typeOrder := by
  cases pageType <;> decide

theorem typeOrder_nodup : typeOrder.Nodup := by decide

theorem flatMap_rowsOf_perm (pages : List IndexPage) :
    (typeOrder.flatMap (rowsOf pages)).Perm pages := by
  have hrows : (typeOrder.flatMap (rowsOf pages)).Perm
      (typeOrder.flatMap fun pageType =>
        pages.filter fun page => page.pageType = pageType) :=
    List.Perm.flatMap_left _ fun pageType _ => rowsOf_perm pages pageType
  exact hrows.trans (flatMap_filter_perm typeOrder_nodup
    fun page _ => mem_typeOrder page.pageType)

end Rows

section Lines

def headingText (pageType : PageType) : Text :=
  "## ".toList ++ pageType.heading

/-- The nonempty lines of the section of one type. -/
def sectionLines (pages : List IndexPage) (pageType : PageType) : List Text :=
  if rowsOf pages pageType = [] then []
  else headingText pageType :: (rowsOf pages pageType).map entryLine

/-- All lines of the section of one type. -/
def groupLines (pageType : PageType) (rows : List IndexPage) : List Text :=
  headingText pageType :: [] :: rows.map entryLine

theorem renderGroup_eq (pageType : PageType) (rows : List IndexPage) :
    renderGroup pageType rows = unlines '\n' (groupLines pageType rows) := by
  simp [renderGroup, groupLines, headingText, unlines, List.flatMap_map]

/-- The lines of groups that are joined by a line feed. -/
def joinedLines : List (List Text) → List Text
  | [] => []
  | [lines] => lines
  | lines :: rest => lines ++ [] :: joinedLines rest

attribute [local simp] joinedLines

theorem join_unlines (groups : List (List Text)) :
    Text.join "\n".toList (groups.map (unlines '\n')) =
      unlines '\n' (joinedLines groups) := by
  induction groups with
  | nil => rfl
  | cons lines rest ih =>
      cases rest with
      | nil => rfl
      | cons next rest =>
          rw [List.map_cons] at ih
          rw [List.map_cons, List.map_cons, Text.join, joinedLines, ih,
            unlines_append, unlines_cons]
          all_goals simp

theorem mem_joinedLines {line : Text} {groups : List (List Text)}
    (h : line ∈ joinedLines groups) :
    line = [] ∨ ∃ lines ∈ groups, line ∈ lines := by
  induction groups with
  | nil => cases h
  | cons lines rest ih =>
      cases rest with
      | nil => exact Or.inr ⟨lines, List.mem_cons_self, h⟩
      | cons next rest =>
          simp only [joinedLines, List.mem_append, List.mem_cons] at h
          rcases h with hfirst | rfl | hrest
          · exact Or.inr ⟨lines, List.mem_cons_self, hfirst⟩
          · exact Or.inl rfl
          · rcases ih hrest with hnil | ⟨found, hfound, hline⟩
            · exact Or.inl hnil
            · exact Or.inr ⟨found, List.mem_cons_of_mem _ hfound, hline⟩

theorem filter_joinedLines (groups : List (List Text)) :
    (joinedLines groups).filter (· ≠ []) =
      groups.flatMap fun lines => lines.filter (· ≠ []) := by
  induction groups with
  | nil => rfl
  | cons lines rest ih =>
      cases rest with
      | nil => simp
      | cons next rest => simp_all

/-- The lines of the group of a type that has pages. -/
def typeGroup (pages : List IndexPage) (pageType : PageType) :
    Option (List Text) :=
  if rowsOf pages pageType = [] then none
  else some (groupLines pageType (rowsOf pages pageType))

def catalogGroups (pages : List IndexPage) : List (List Text) :=
  typeOrder.filterMap (typeGroup pages)

/-- The lines of a catalog; one without pages is one empty line. -/
def catalogLines (pages : List IndexPage) : List Text :=
  if catalogGroups pages = [] then [[]] else joinedLines (catalogGroups pages)

theorem groupsOf_eq (pages : List IndexPage) :
    groupsOf pages = (catalogGroups pages).map (unlines '\n') := by
  unfold groupsOf catalogGroups
  rw [List.map_filterMap]
  congr 1
  funext pageType
  unfold typeGroup
  split
  · rfl
  · rw [renderGroup_eq]
    rfl

theorem renderEntries_eq (pages : List IndexPage) :
    renderEntries pages = unlines '\n' (catalogLines pages) := by
  unfold renderEntries catalogLines
  simp only [groupsOf_eq, List.map_eq_nil_iff, join_unlines]
  split
  · rfl
  · rfl

theorem entryLine_ne_nil (page : IndexPage) : entryLine page ≠ [] := by
  unfold entryLine
  iterate 5 apply List.append_ne_nil_of_left_ne_nil
  decide

theorem headingText_ne_nil (pageType : PageType) : headingText pageType ≠ [] := by
  intro h
  have hlen := congrArg List.length h
  simp [headingText] at hlen

theorem filter_groupLines (pageType : PageType) (rows : List IndexPage) :
    (groupLines pageType rows).filter (· ≠ []) =
      headingText pageType :: rows.map entryLine := by
  have hrows : (rows.map entryLine).filter (· ≠ []) = rows.map entryLine := by
    rw [List.filter_eq_self]
    intro line hline
    obtain ⟨page, _, rfl⟩ := List.mem_map.1 hline
    simpa using entryLine_ne_nil page
  rw [groupLines, List.filter_cons_of_pos (by simpa using headingText_ne_nil _),
    List.filter_cons_of_neg (by simp), hrows]

theorem filter_catalogLines (pages : List IndexPage) :
    (catalogLines pages).filter (· ≠ []) =
      typeOrder.flatMap (sectionLines pages) := by
  have hgroups : (catalogGroups pages).flatMap
      (fun lines => lines.filter (· ≠ [])) =
        typeOrder.flatMap (sectionLines pages) := by
    unfold catalogGroups
    generalize typeOrder = types
    induction types with
    | nil => rfl
    | cons pageType rest ih =>
        by_cases hrows : rowsOf pages pageType = []
        · have hnone : typeGroup pages pageType = none := if_pos hrows
          rw [List.filterMap_cons_none hnone, List.flatMap_cons, ih,
            sectionLines, if_pos hrows, List.nil_append]
        · have hsome : typeGroup pages pageType =
              some (groupLines pageType (rowsOf pages pageType)) := if_neg hrows
          rw [List.filterMap_cons_some hsome, List.flatMap_cons,
            List.flatMap_cons, ih, filter_groupLines, sectionLines,
            if_neg hrows]
  unfold catalogLines
  split
  next hnil =>
      rw [hnil] at hgroups
      rw [← hgroups]
      rfl
  next => rw [filter_joinedLines, hgroups]

/-- A line of a catalog is empty, a heading or the entry of a page. -/
theorem mem_catalogLines {pages : List IndexPage} {line : Text}
    (h : line ∈ catalogLines pages) :
    line = [] ∨ (∃ pageType, line = headingText pageType) ∨
      ∃ page ∈ pages, line = entryLine page := by
  unfold catalogLines at h
  split at h
  · exact Or.inl (List.mem_singleton.1 h)
  rcases mem_joinedLines h with hnil | ⟨lines, hlines, hline⟩
  · exact Or.inl hnil
  obtain ⟨pageType, _, heq⟩ := List.mem_filterMap.1 hlines
  unfold typeGroup at heq
  split at heq
  · cases heq
  rw [← Option.some.inj heq] at hline
  rcases List.mem_cons.1 hline with rfl | hline
  · exact Or.inr (Or.inl ⟨pageType, rfl⟩)
  rcases List.mem_cons.1 hline with rfl | hline
  · exact Or.inl rfl
  · obtain ⟨page, hpage, rfl⟩ := List.mem_map.1 hline
    exact Or.inr (Or.inr ⟨page, (mem_rowsOf.1 hpage).1, rfl⟩)

end Lines

section Reading

/-- The fixed parts of an entry around its slugs and its summary. -/
theorem entryLine_eq (page : IndexPage) :
    entryLine page = "- [".toList ++ (page.slug ++ "](".toList ++
      (("pages/".toList ++ (page.slug ++ markdownSuffix)) ++ ") — ".toList ++
        page.summary)) := by
  have hopening : "](pages/".toList = "](".toList ++ "pages/".toList := by decide
  have hclosing : ".md) — ".toList = markdownSuffix ++ ") — ".toList := by decide
  unfold entryLine
  rw [hopening, hclosing]
  simp only [List.append_assoc]

theorem parseGeneratedEntry_entryLine {page : IndexPage}
    (hpage : ValidPage page) :
    parseGeneratedEntry (entryLine page) =
      some (page.slug, page.slug, page.summary) := by
  have hlabel : splitOnceAt "](".toList (page.slug ++ "](".toList ++
      (("pages/".toList ++ (page.slug ++ markdownSuffix)) ++ ") — ".toList ++
        page.summary)) = some (page.slug,
      ("pages/".toList ++ (page.slug ++ markdownSuffix)) ++ ") — ".toList ++
        page.summary) :=
    splitOnceAt_append (not_mem_slug hpage.slugOk (by decide))
  have hparen : ')' ∉ "pages/".toList ++ (page.slug ++ markdownSuffix) := by
    have hslug : ')' ∉ page.slug := not_mem_slug hpage.slugOk (by decide)
    have hpages : ')' ∉ "pages/".toList := by decide
    have hsuffix : ')' ∉ markdownSuffix := by decide
    simp only [List.mem_append, not_or]
    exact ⟨hpages, hslug, hsuffix⟩
  have hdestination : splitOnceAt ") — ".toList
      (("pages/".toList ++ (page.slug ++ markdownSuffix)) ++ ") — ".toList ++
        page.summary) =
      some ("pages/".toList ++ (page.slug ++ markdownSuffix), page.summary) :=
    splitOnceAt_append hparen
  have hslugNe := (slugChars_of_validateSlug hpage.slugOk).1
  have hsummaryNe := hpage.safe.nonempty
  rw [parseGeneratedEntry, entryLine_eq, stripPrefix_append]
  simp only [hlabel, hdestination, stripPrefix_append, stripSuffix_append,
    Option.bind_some]
  simp [hslugNe, hsummaryNe]

theorem stripPrefix_headingText (pageType : PageType) :
    Text.stripPrefix "## ".toList (headingText pageType) =
      some pageType.heading :=
  stripPrefix_append _ _

theorem stripPrefix_entryLine (page : IndexPage) :
    Text.stripPrefix "## ".toList (entryLine page) = none := by
  have hcons : entryLine page = '-' :: (entryLine page).tail := by
    simp [entryLine]
  have hmark : "## ".toList = '#' :: "# ".toList := by decide
  rw [hcons, hmark]
  simp [Text.stripPrefix, List.isPrefixOf]

/-- The page of an entry below the heading of the given type. -/
def readEntry (current : Option PageType) (line : Text) : List IndexPage :=
  match current, parseGeneratedEntry line with
  | some pageType, some (_, slug, shown) => [⟨slug, pageType, shown⟩]
  | _, _ => []

/-- Read the pages of the nonempty lines of a catalog back, the first of which
are below the heading of the given type. -/
def readEntries : Option PageType → List Text → List IndexPage
  | _, [] => []
  | current, line :: rest =>
      match Text.stripPrefix "## ".toList line with
      | some heading =>
          readEntries (typeOrder.find? fun t => t.heading = heading) rest
      | none => readEntry current line ++ readEntries current rest

theorem find_heading (pageType : PageType) :
    typeOrder.find? (fun t => t.heading = pageType.heading) = some pageType := by
  cases pageType <;> decide

theorem readEntries_rows {pageType : PageType} {rows : List IndexPage}
    (hrows : ∀ page ∈ rows, ValidPage page ∧ page.pageType = pageType)
    (rest : List Text) :
    readEntries (some pageType) (rows.map entryLine ++ rest) =
      rows ++ readEntries (some pageType) rest := by
  induction rows with
  | nil => rfl
  | cons page rows ih =>
      have hpage := hrows page List.mem_cons_self
      have hrest := ih fun other hother =>
        hrows other (List.mem_cons_of_mem _ hother)
      have hentry : readEntry (some pageType) (entryLine page) = [page] := by
        simp only [readEntry, parseGeneratedEntry_entryLine hpage.1, ← hpage.2]
      rw [List.map_cons, List.cons_append, readEntries, stripPrefix_entryLine]
      simp only [hentry, hrest, List.cons_append, List.nil_append]

theorem readEntries_sections {pages : List IndexPage}
    (hpages : ∀ page ∈ pages, ValidPage page) (types : List PageType)
    (current : Option PageType) :
    readEntries current (types.flatMap (sectionLines pages)) =
      types.flatMap (rowsOf pages) := by
  induction types generalizing current with
  | nil => rfl
  | cons pageType rest ih =>
      rw [List.flatMap_cons, List.flatMap_cons]
      by_cases hrows : rowsOf pages pageType = []
      · rw [sectionLines, if_pos hrows, hrows, List.nil_append, List.nil_append]
        exact ih current
      · rw [sectionLines, if_neg hrows, List.cons_append, readEntries,
          stripPrefix_headingText]
        simp only [find_heading]
        rw [readEntries_rows, ih]
        intro page hpage
        obtain ⟨hmem, htype⟩ := mem_rowsOf.1 hpage
        exact ⟨hpages page hmem, htype⟩

/-- A boundary of lines is no character of a line of a valid catalog. -/
theorem catalogLines_oneLine {pages : List IndexPage}
    (hpages : ∀ page ∈ pages, ValidPage page) :
    ∀ line ∈ catalogLines pages, ∀ c ∈ line, isSplitlinesBoundary c = false := by
  intro line hline c hc
  rcases mem_catalogLines hline with rfl | ⟨pageType, rfl⟩ | ⟨page, hpage, rfl⟩
  · cases hc
  · have hall : (headingText pageType).all (fun c => !isSplitlinesBoundary c) =
        true := by
      cases pageType <;> decide
    simpa using List.all_eq_true.1 hall c hc
  · have hvalid := hpages page hpage
    have hfixed : (["- [".toList, "](pages/".toList, ".md) — ".toList].all
        fun part => part.all fun c => !isSplitlinesBoundary c) = true := by
      decide
    have hslug : ∀ d ∈ page.slug, isSplitlinesBoundary d = false := by
      intro d hd
      have hrange := isSlugChar_toNat
        (List.all_eq_true.1 (slugChars_of_validateSlug hvalid.slugOk).2 d hd)
      unfold isSplitlinesBoundary
      exact decide_eq_false (by omega)
    simp only [List.all_cons, List.all_nil, Bool.and_true, Bool.and_eq_true,
      List.all_eq_true, Bool.not_eq_true'] at hfixed
    obtain ⟨hopening, hmiddle, hclosing⟩ := hfixed
    simp only [entryLine, List.mem_append] at hc
    rcases hc with ((((hc | hc) | hc) | hc) | hc) | hc
    · exact hopening c hc
    · exact hslug c hc
    · exact hmiddle c hc
    · exact hslug c hc
    · exact hclosing c hc
    · exact hvalid.safe.oneLine c hc

theorem catalogLines_noOpening {pages : List IndexPage}
    (hpages : ∀ page ∈ pages, ValidPage page) :
    ∀ line ∈ catalogLines pages, ¬ "<!--".toList <:+: line := by
  intro line hline
  rcases mem_catalogLines hline with rfl | ⟨pageType, rfl⟩ | ⟨page, hpage, rfl⟩
  · decide
  · cases pageType <;> decide
  · have hvalid := hpages page hpage
    have hslug : '<' ∉ page.slug := not_mem_slug hvalid.slugOk (by decide)
    have hfixed : '<' ∉ "- [".toList ∧ '<' ∉ "](pages/".toList ∧
        '<' ∉ ".md) — ".toList := by
      decide
    have hbefore : '<' ∉ "- [".toList ++ page.slug ++ "](pages/".toList ++
        page.slug ++ ".md) — ".toList := by
      simp only [List.mem_append, not_or]
      exact ⟨⟨⟨⟨hfixed.1, hslug⟩, hfixed.2.1⟩, hslug⟩, hfixed.2.2⟩
    have hcontained : "<!--".toList <:+: entryLine page ↔
        "<!--".toList <:+: page.summary := infix_append_of_not_mem hbefore
    rw [hcontained]
    exact hvalid.safe.noOpening

end Reading

section Rebuild

variable {current : Text} {pages : List IndexPage} {before after : Text}
  {c : Char} {between : Text}

/-- The text between the kept character and the END marker of a catalog. -/
def catalogBetween (pages : List IndexPage) : Text :=
  "\n".toList ++ renderEntries pages ++ "\n".toList

theorem catalogBetween_eq (pages : List IndexPage) :
    catalogBetween pages = unlines '\n' ([] :: catalogLines pages ++ [[]]) := by
  simp [catalogBetween, renderEntries_eq]

theorem marker_not_infix {marker : Text} (hmarker : "<!--".toList <+: marker)
    (hpages : ∀ page ∈ pages, ValidPage page) :
    ¬ marker <:+: catalogBetween pages := by
  intro hcontained
  have hopening : "<!--".toList <:+: catalogBetween pages :=
    hmarker.isInfix.trans hcontained
  rw [catalogBetween_eq, infix_unlines_iff (by decide) (by decide)] at hopening
  obtain ⟨line, hline, hfound⟩ := hopening
  rw [List.cons_append, List.mem_cons, List.mem_append, List.mem_singleton]
    at hline
  rcases hline with rfl | hline | rfl
  · revert hfound
    decide
  · exact catalogLines_noOpening hpages line hline hfound
  · revert hfound
    decide

theorem opening_begin : "<!--".toList <+: beginMarker := by
  unfold beginMarker
  rw [String.toList_append]
  repeat rw [String.toList_ofList]
  decide

/-- A well-formed text stays well formed with a catalog between its markers. -/
theorem Marked.withCatalog (h : Marked beginMarker before c between after)
    (hpages : ∀ page ∈ pages, ValidPage page) :
    Marked beginMarker before c (catalogBetween pages) after :=
  { h with
    separated := by
      right
      have hlast : (catalogBetween pages).getLast? = some '\n' :=
        List.getLast?_concat
      rw [hlast]
      decide
    cleanBegin := marker_not_infix opening_begin hpages
    cleanEnd := marker_not_infix (by decide) hpages }

theorem markerRegion_of_marked (h : Marked beginMarker before c between after) :
    markerRegion (markedText beginMarker before c between after) =
      .ok ⟨(before ++ beginMarker ++ [c]).length,
        (before ++ beginMarker ++ [c]).length + between.length⟩ :=
  markerRegionWithBegin_of_marked isMarker_begin h

theorem take_markedText :
    (markedText beginMarker before c between after).take
      (before ++ beginMarker ++ [c]).length = before ++ beginMarker ++ [c] := by
  have htext : markedText beginMarker before c between after =
      before ++ beginMarker ++ [c] ++ (between ++ (endMarker ++ after)) := by
    simp [markedText]
  rw [htext]
  exact List.take_left

theorem drop_markedText :
    (markedText beginMarker before c between after).drop
        ((before ++ beginMarker ++ [c]).length + between.length) =
      endMarker ++ after := by
  rw [markedText, ← List.length_append]
  exact List.drop_left

theorem rebuildIndex_of_marked (h : Marked beginMarker before c between after)
    (hpages : validatePages pages = .ok ()) :
    rebuildIndex (markedText beginMarker before c between after) pages =
      .ok (markedText beginMarker before c (catalogBetween pages) after) := by
  have hregion := markerRegion_of_marked h
  simp only [rebuildIndex, hregion, hpages, bind, Except.bind, pure,
    Except.pure, take_markedText, drop_markedText]
  simp [markedText, catalogBetween]

theorem generatedRegion_of_marked
    (h : Marked beginMarker before c between after) :
    generatedRegion (markedText beginMarker before c between after) =
      .ok between := by
  have hregion := markerRegion_of_marked h
  have htake : (markedText beginMarker before c between after).take
      ((before ++ beginMarker ++ [c]).length + between.length) =
        before ++ beginMarker ++ [c] ++ between := by
    rw [markedText, ← List.length_append]
    exact List.take_left
  simp only [generatedRegion, hregion, bind, Except.bind, pure, Except.pure,
    htake]
  rw [List.drop_left]

theorem markedText_between_injective {between' : Text}
    (h : markedText beginMarker before c between after =
      markedText beginMarker before c between' after) : between = between' := by
  simpa [markedText] using h

/-- The nonempty lines between the markers of a catalog. -/
theorem logicalLines_catalogBetween
    (hpages : ∀ page ∈ pages, ValidPage page) :
    logicalLines (catalogBetween pages) =
      [] :: catalogLines pages ++ [[], []] := by
  have hlines : ∀ line ∈ [] :: catalogLines pages ++ [[]],
      ∀ d ∈ line, isSplitlinesBoundary d = false := by
    intro line hline d hd
    rw [List.cons_append, List.mem_cons, List.mem_append, List.mem_singleton]
      at hline
    rcases hline with rfl | hline | rfl
    · cases hd
    · exact catalogLines_oneLine hpages line hline d hd
    · cases hd
  rw [catalogBetween_eq, logicalLines,
    splitWhere_unlines (by decide) hlines]
  simp

theorem filter_logicalLines (hpages : ∀ page ∈ pages, ValidPage page) :
    (logicalLines (catalogBetween pages)).filter (· ≠ []) =
      typeOrder.flatMap (sectionLines pages) := by
  rw [logicalLines_catalogBetween hpages, List.filter_append,
    List.filter_cons_of_neg (by simp), filter_catalogLines]
  simp

/-- A catalog determines its pages up to order. -/
theorem perm_of_catalogBetween_eq {other : List IndexPage}
    (hother : ∀ page ∈ other, ValidPage page)
    (hpages : ∀ page ∈ pages, ValidPage page)
    (h : catalogBetween other = catalogBetween pages) : other.Perm pages := by
  have hlines : typeOrder.flatMap (sectionLines other) =
      typeOrder.flatMap (sectionLines pages) := by
    rw [← filter_logicalLines hother, ← filter_logicalLines hpages, h]
  have hrows : typeOrder.flatMap (rowsOf other) =
      typeOrder.flatMap (rowsOf pages) := by
    rw [← readEntries_sections hother typeOrder none, hlines,
      readEntries_sections hpages]
  exact (flatMap_rowsOf_perm other).symm.trans
    (hrows ▸ flatMap_rowsOf_perm pages)

theorem renderEntries_perm {other : List IndexPage} (hperm : other.Perm pages)
    (hnodup : (pages.map IndexPage.slug).Nodup) :
    renderEntries other = renderEntries pages := by
  have hrows (pageType : PageType) : rowsOf other pageType =
      rowsOf pages pageType := rowsOf_eq_of_perm hperm hnodup
  have hgroups : groupsOf other = groupsOf pages := by
    unfold groupsOf
    simp only [hrows]
  simp only [renderEntries, hgroups]

theorem validatePages_perm {other : List IndexPage} (hperm : other.Perm pages)
    (hpages : validatePages pages = .ok ()) : validatePages other = .ok () := by
  rw [validatePages_eq_ok] at hpages ⊢
  refine ⟨fun page hpage => hpages.1 page (hperm.mem_iff.1 hpage), ?_⟩
  exact (hperm.map IndexPage.slug).nodup_iff.2 hpages.2

theorem rebuildIndex_eq_ok {canonical : Text}
    (h : rebuildIndex current pages = .ok canonical) :
    (∃ region, markerRegion current = .ok region) ∧
      validatePages pages = .ok () := by
  simp only [rebuildIndex, bind, Except.bind] at h
  split at h
  · cases h
  next region hregion =>
  split at h
  · cases h
  next hpages => exact ⟨⟨region, hregion⟩, hpages⟩

end Rebuild

/-- What a rebuilt catalog is.  The text that was there is `current`, with the
marker region `region`. -/
structure CanonicalForm (current : Text) (region : MarkerRegion)
    (pages : List IndexPage) (canonical : Text) : Prop where
  /-- the text up to the character after BEGIN and the text from END on stay -/
  kept : ∃ before c between after,
    current.take region.headEnd = before ++ beginMarker ++ [c] ∧
      isLineEnd c = true ∧ current.drop region.tailStart = endMarker ++ after ∧
      canonical = current.take region.headEnd ++ between ++
        current.drop region.tailStart
  /-- the markers are well formed again, at the same places -/
  marked : ∃ again, markerRegion canonical = .ok again ∧
    again.headEnd = region.headEnd ∧
    canonical.drop again.tailStart = current.drop region.tailStart
  orderFree : ∀ other : List IndexPage, other.Perm pages →
    rebuildIndex current other = .ok canonical
  textFree : ∀ other otherRegion, markerRegion other = .ok otherRegion →
    other.take otherRegion.headEnd = current.take region.headEnd →
    other.drop otherRegion.tailStart = current.drop region.tailStart →
    rebuildIndex other pages = .ok canonical
  /-- the nonempty lines are the sections of the types in order -/
  listed : ∃ generated, generatedRegion canonical = .ok generated ∧
    (logicalLines generated).filter (· ≠ []) =
      typeOrder.flatMap (sectionLines pages)
  /-- the rows of a section are its pages by slug -/
  rows : ∀ pageType,
    (rowsOf pages pageType).Perm
        (pages.filter fun page => page.pageType = pageType) ∧
      (rowsOf pages pageType).Pairwise
        fun left right => left.slug < right.slug
  /-- every page is in the rows of exactly one section, once -/
  once : (typeOrder.flatMap (rowsOf pages)).Perm pages
  injective : ∀ other, rebuildIndex current other = .ok canonical →
    ∀ page, page ∈ other ↔ page ∈ pages
  fixed : rebuildIndex canonical pages = .ok canonical ∧
    checkIndex canonical pages = .ok ⟨true, none⟩

theorem rebuildIndex_canonicalForm {current : Text} {region : MarkerRegion}
    {pages : List IndexPage} (hregion : markerRegion current = .ok region)
    (hpages : validatePages pages = .ok ()) :
    ∃ canonical, rebuildIndex current pages = .ok canonical ∧
      CanonicalForm current region pages canonical := by
  obtain ⟨before, c, between, after, rfl, hmarked, rfl⟩ :=
    exists_marked isMarker_begin hregion
  obtain ⟨hvalid, hnodup⟩ := validatePages_eq_ok.1 hpages
  have hagain : Marked beginMarker before c (catalogBetween pages) after :=
    hmarked.withCatalog hvalid
  have hfixed := rebuildIndex_of_marked hagain hpages
  refine ⟨_, rebuildIndex_of_marked hmarked hpages, ?_⟩
  refine
    { kept := ⟨before, c, catalogBetween pages, after, take_markedText,
        hmarked.lineEnd, drop_markedText, ?_⟩
      marked := ⟨_, markerRegion_of_marked hagain, rfl, ?_⟩
      orderFree := ?_
      textFree := ?_
      listed := ⟨_, generatedRegion_of_marked hagain,
        filter_logicalLines hvalid⟩
      rows := fun pageType => ⟨rowsOf_perm pages pageType, rowsOf_sorted hnodup⟩
      once := flatMap_rowsOf_perm pages
      injective := ?_
      fixed := ⟨hfixed, ?_⟩ }
  · rw [take_markedText, drop_markedText, markedText]
  · rw [drop_markedText, drop_markedText]
  · intro other hperm
    rw [rebuildIndex_of_marked hmarked (validatePages_perm hperm hpages)]
    simp only [catalogBetween, renderEntries_perm hperm hnodup]
  · intro other otherRegion hother htake hdrop
    simp only [rebuildIndex, hother, hpages, bind, Except.bind, pure,
      Except.pure, htake, hdrop, take_markedText, drop_markedText]
    simp [markedText, catalogBetween]
  · intro other hother page
    have hotherPages := (rebuildIndex_eq_ok hother).2
    rw [rebuildIndex_of_marked hmarked hotherPages] at hother
    have hbetween := markedText_between_injective (Except.ok.inj hother)
    exact (perm_of_catalogBetween_eq (validatePages_eq_ok.1 hotherPages).1
      hvalid hbetween).mem_iff
  · simp [checkIndex, hfixed, compareIndex, bind, Except.bind, pure,
      Except.pure]

namespace CatalogWitness

/-- An index with CRLF lines and an empty region. -/
def index : Text :=
  "# Wiki\r\n".toList ++ beginMarker ++ "\r\n".toList ++ endMarker ++
    "\r\n".toList

def region : MarkerRegion := ⟨82, 83⟩

def pages : List IndexPage :=
  [⟨"tabs".toList, .pattern, "indent (two) — always".toList⟩,
    ⟨"cache".toList, .gotcha, "stale".toList⟩]

theorem rebuildIndex_crlf : ∃ canonical,
    rebuildIndex index pages = .ok canonical ∧
      CanonicalForm index region pages canonical := by
  have hregion : markerRegion index = .ok region := by
    unfold markerRegion index beginMarker
    rw [String.toList_append]
    repeat rw [String.toList_ofList]
    decide
  exact rebuildIndex_canonicalForm hregion (by decide)

end CatalogWitness

end Yams.Wiki
