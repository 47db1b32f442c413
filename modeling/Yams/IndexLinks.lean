/-
The links that the checker finds in `INDEX.md`.  A link ends at a closing
parenthesis, so the text is read segment by segment, and a `(pages/` that a
summary leaves open swallows the text up to the next closing parenthesis.
-/
import Yams.CatalogForm
import Yams.WikiPageReading

namespace Yams.Wiki

section Segments

variable {segment rest : Text}

/-- The link of a text up to a closing parenthesis. -/
def segmentLink (segment : Text) : Option Text :=
  match splitOnceAt linkOpening segment with
  | some (_, name) =>
      if 3 < name.length ∧ ".md".toList <:+ name then some name else none
  | none => none

theorem indexLinks_of_none {c : Char} (h : indexLinkAt (c :: rest) = none) :
    indexLinks (c :: rest) = indexLinks rest := by
  rw [indexLinks, h]

theorem indexLinks_of_some {c : Char} {name after : Text}
    (h : indexLinkAt (c :: rest) = some (name, after)) :
    indexLinks (c :: rest) = name :: indexLinks after := by
  rw [indexLinks, h]

/-- Without a closing parenthesis there is no link. -/
theorem indexLinks_of_not_mem {text : Text} (h : ')' ∉ text) :
    indexLinks text = [] := by
  induction text with
  | nil => rw [indexLinks]
  | cons c text ih =>
      have hnone : indexLinkAt (c :: text) = none := by
        rcases hstrip : Text.stripPrefix linkOpening (c :: text) with _ | after
        · rw [indexLinkAt, hstrip]
        · have htext := stripPrefix_eq_some hstrip
          have hafter : ')' ∉ after := by
            intro hmem
            rw [htext] at h
            exact h (List.mem_append_right _ hmem)
          simp only [indexLinkAt, hstrip, Text.splitOnce_of_not_mem hafter]
      rw [indexLinks_of_none hnone]
      exact ih fun hmem => h (List.mem_cons_of_mem _ hmem)

/-- A later opening of a segment closes as the first one does. -/
theorem segmentLink_eq_none {c : Char} {name : Text}
    (hname : linkOpening ++ name = c :: segment)
    (hlink : ¬ (3 < name.length ∧ ".md".toList <:+ name)) :
    segmentLink segment = none := by
  unfold segmentLink
  split
  case h_2 => rfl
  case h_1 before later hsplit =>
  refine if_neg fun hlater => hlink ?_
  have hsegment := splitOnceAt_eq_some hsplit
  have hend : later <:+ c :: segment := by
    refine ⟨c :: before ++ linkOpening, ?_⟩
    rw [hsegment]
    simp
  have hnameEnd : name <:+ c :: segment := ⟨linkOpening, hname⟩
  have hsuffix : later <:+ name := by
    refine List.suffix_of_suffix_length_le hend hnameEnd ?_
    have hlength := congrArg List.length hname
    have hshorter := congrArg List.length hsegment
    simp only [List.length_append, List.length_cons] at hlength hshorter
    omega
  exact ⟨Nat.lt_of_lt_of_le hlater.1 hsuffix.length_le,
    hlater.2.trans hsuffix⟩

theorem indexLinks_segment (h : ')' ∉ segment) :
    indexLinks (segment ++ ')' :: rest) =
      (segmentLink segment).toList ++ indexLinks rest := by
  have hopening : ')' ∉ linkOpening := by decide
  induction segment with
  | nil =>
      have hstrip : ¬ linkOpening <+: [] ++ ')' :: rest := by
        rw [prefix_append_cons_iff hopening]
        decide
      have hnone : indexLinkAt (')' :: rest) = none := by
        rw [List.nil_append] at hstrip
        rw [indexLinkAt, stripPrefix_of_not_prefix hstrip]
      rw [List.nil_append, indexLinks_of_none hnone]
      rfl
  | cons c segment ih =>
      have hrest : ')' ∉ segment := fun hmem => h (List.mem_cons_of_mem _ hmem)
      by_cases hprefix : linkOpening <+: c :: segment
      · -- the leftmost opening of the segment
        obtain ⟨name, hname⟩ := hprefix
        have hclean : ')' ∉ name := by
          intro hmem
          rw [← hname] at h
          exact h (List.mem_append_right _ hmem)
        have hsplit : splitOnceAt linkOpening (c :: segment) = some ([], name) := by
          have hprefix : linkOpening <+: c :: segment := ⟨name, hname⟩
          rw [splitOnceAt, if_pos hprefix, ← hname]
          simp
        have hstrip : Text.stripPrefix linkOpening (c :: segment ++ ')' :: rest) =
            some (name ++ ')' :: rest) := by
          rw [← hname, List.append_assoc, stripPrefix_append]
        have hat : indexLinkAt (c :: segment ++ ')' :: rest) =
            if 3 < name.length ∧ ".md".toList <:+ name then some (name, rest)
            else none := by
          simp only [indexLinkAt, hstrip, Text.splitOnce_append hclean]
        rw [List.cons_append] at hat ⊢
        by_cases hlink : 3 < name.length ∧ ".md".toList <:+ name
        · rw [if_pos hlink] at hat
          rw [indexLinks_of_some hat]
          simp only [segmentLink, hsplit]
          rw [if_pos hlink]
          rfl
        · rw [if_neg hlink] at hat
          have hnone : segmentLink (c :: segment) = none := by
            simp only [segmentLink, hsplit]
            exact if_neg hlink
          rw [indexLinks_of_none hat, ih hrest, segmentLink_eq_none hname hlink,
            hnone]
      · have hnone : indexLinkAt (c :: segment ++ ')' :: rest) = none := by
          have hstrip : ¬ linkOpening <+: (c :: segment) ++ ')' :: rest := by
            rw [prefix_append_cons_iff hopening]
            exact hprefix
          rw [indexLinkAt, stripPrefix_of_not_prefix hstrip]
        have hlink : segmentLink (c :: segment) = segmentLink segment := by
          unfold segmentLink
          rw [splitOnceAt, if_neg hprefix]
          cases splitOnceAt linkOpening segment with
          | none => rfl
          | some found => rfl
        rw [List.cons_append] at hnone ⊢
        rw [indexLinks_of_none hnone, ih hrest, hlink]

end Segments

section Open

/-- The text after the last closing parenthesis. -/
def openEnd : Text → Text
  | [] => []
  | c :: rest => if ')' ∈ c :: rest then openEnd rest else c :: rest

/-- The text has a `(pages/` that it does not close. -/
def opensLink (text : Text) : Bool := contains linkOpening (openEnd text)

/-- The first closing parenthesis comes right after `.md`. -/
def closesLink (text : Text) : Bool :=
  match Text.splitOnce ')' text with
  | some (before, _) => ".md".toList <:+ before
  | none => false

attribute [local simp] openEnd

theorem openEnd_of_not_mem {text : Text} (h : ')' ∉ text) : openEnd text = text := by
  cases text with
  | nil => rfl
  | cons c rest => rw [openEnd, if_neg h]

theorem openEnd_append_cons (before rest : Text) :
    openEnd (before ++ ')' :: rest) = openEnd rest := by
  induction before with
  | nil =>
      rw [List.nil_append, openEnd, if_pos List.mem_cons_self]
  | cons c before ih =>
      rw [List.cons_append, openEnd, if_pos (by simp), ih]

theorem not_mem_openEnd (text : Text) : ')' ∉ openEnd text := by
  induction text with
  | nil => simp
  | cons c rest ih =>
      rw [openEnd]
      split
      · exact ih
      next h => exact h

theorem length_lt_segment (segment rest : Text) :
    rest.length < (segment ++ ')' :: rest).length := by
  rw [List.length_append, List.length_cons]
  omega

theorem openEnd_append (before after : Text) (hafter : ')' ∉ after) :
    openEnd (before ++ after) = openEnd before ++ after := by
  induction hlength : before.length using Nat.strong_induction_on
    generalizing before with
  | h n ih =>
      subst hlength
      rcases Text.segment_cases ')' before with hbefore | ⟨segment, rest, rfl, -⟩
      · rw [openEnd_of_not_mem hbefore, openEnd_of_not_mem (by simp [hbefore, hafter])]
      · rw [List.append_assoc, List.cons_append, openEnd_append_cons,
          openEnd_append_cons]
        exact ih rest.length (length_lt_segment segment rest) rest rfl

/-- The links of a text are those of its first part and those that the open end
of that part and the rest have. -/
theorem indexLinks_append (before after : Text) :
    indexLinks (before ++ after) =
      indexLinks before ++ indexLinks (openEnd before ++ after) := by
  induction hlength : before.length using Nat.strong_induction_on
    generalizing before with
  | h n ih =>
      subst hlength
      rcases Text.segment_cases ')' before with hbefore | ⟨segment, rest, rfl, hsegment⟩
      · rw [openEnd_of_not_mem hbefore, indexLinks_of_not_mem hbefore,
          List.nil_append]
      · rw [List.append_assoc, List.cons_append, indexLinks_segment hsegment,
          indexLinks_segment hsegment, openEnd_append_cons,
          ih rest.length (length_lt_segment segment rest) rest rfl,
          List.append_assoc]

/-- A text that no opening reaches out of does not matter to a link after it. -/
theorem segmentLink_append {before segment : Text}
    (hcut : Cut linkOpening before) (hclosed : ¬ linkOpening <:+: before) :
    segmentLink (before ++ segment) = segmentLink segment := by
  unfold segmentLink
  rw [splitOnceAt_append_of_cut hcut hclosed]
  cases splitOnceAt linkOpening segment with
  | none => rfl
  | some found => rfl

/-- An opening that is left open takes the segment after it. -/
theorem segmentLink_append_of_open {before segment : Text}
    (hopen : linkOpening <:+: before) (hlength : 3 < segment.length) :
    ∃ rest, segmentLink (before ++ segment) =
      if ".md".toList <:+ segment then some (rest ++ segment) else none := by
  rcases hsplit : splitOnceAt linkOpening before with _ | ⟨start, rest⟩
  · exact absurd hopen (splitOnceAt_eq_none_iff.1 hsplit)
  · have hlong : 3 < (rest ++ segment).length := by
      rw [List.length_append]
      omega
    have hends : ".md".toList <:+ rest ++ segment ↔ ".md".toList <:+ segment := by
      constructor
      · intro hsuffix
        refine List.suffix_of_suffix_length_le hsuffix ⟨rest, rfl⟩ ?_
        exact Nat.le_of_lt hlength
      · exact fun hsuffix => hsuffix.trans ⟨rest, rfl⟩
    refine ⟨rest, ?_⟩
    unfold segmentLink
    rw [splitOnceAt_append_of_some hsplit]
    simp only [hlong, hends, true_and]

end Open

section Entries

/-- Lines without parentheses, and the entries of some pages. -/
inductive Lists : List Text → List IndexPage → Prop
  | nil : Lists [] []
  | quiet {line : Text} {lines : List Text} {pages : List IndexPage} :
      '(' ∉ line → ')' ∉ line → Lists lines pages →
        Lists (line :: lines) pages
  | entry {page : IndexPage} {lines : List Text} {pages : List IndexPage} :
      ValidPage page → Lists lines pages →
        Lists (entryLine page :: lines) (page :: pages)

/-- No opening that is left is closed by a later link: `left` says that the
text before the entries leaves one. -/
def linksFine (tail : Text) : Bool → List IndexPage → Bool
  | left, [] => !(left && closesLink tail)
  | left, page :: pages => !left && linksFine tail (opensLink page.summary) pages

/-- The names of files that pages have. -/
def PageNames (files : List Text) : Prop :=
  ∀ name ∈ files, ∃ slug, validateSlug slug = .ok () ∧
    name = slug ++ markdownSuffix

/-- The entry of a page up to the end of its link. -/
def entryHead (page : IndexPage) : Text :=
  ("- [".toList ++ page.slug ++ "]".toList) ++ linkOpening ++
    (page.slug ++ markdownSuffix)

theorem entryLine_segment (page : IndexPage) :
    entryLine page = entryHead page ++ ')' :: (" — ".toList ++ page.summary) := by
  have hopening : "](pages/".toList = "]".toList ++ linkOpening := by decide
  have hclosing : ".md) — ".toList = markdownSuffix ++ ')' :: " — ".toList := by
    decide
  unfold entryLine entryHead
  rw [hopening, hclosing]
  simp only [List.append_assoc, List.cons_append]

theorem PageNames.not_mem {files : List Text} (hfiles : PageNames files)
    {name : Text} {c : Char} (hname : name ∈ files) (hc : isSlugChar c = false)
    (hsuffix : c ∉ markdownSuffix) : c ∉ name := by
  obtain ⟨slug, hslug, rfl⟩ := hfiles name hname
  rw [List.mem_append, not_or]
  exact ⟨not_mem_slug hslug hc, hsuffix⟩

theorem segmentLink_entryHead {page : IndexPage} (hpage : ValidPage page) :
    segmentLink (entryHead page) = some (page.slug ++ markdownSuffix) := by
  have hparen : '(' ∉ "- [".toList ++ page.slug ++ "]".toList := by
    have hslug : '(' ∉ page.slug := not_mem_slug hpage.slugOk (by decide)
    have hfixed : '(' ∉ "- [".toList ∧ '(' ∉ "]".toList := by decide
    simp only [List.mem_append, not_or]
    exact ⟨⟨hfixed.1, hslug⟩, hfixed.2⟩
  have hsplit : splitOnceAt linkOpening (entryHead page) =
      some ("- [".toList ++ page.slug ++ "]".toList,
        page.slug ++ markdownSuffix) := splitOnceAt_append hparen
  have hlength : 3 < (page.slug ++ markdownSuffix).length := by
    have hpos := List.length_pos_iff.2 (slugChars_of_validateSlug hpage.slugOk).1
    have hfixed : markdownSuffix.length = 3 := by decide
    rw [List.length_append]
    omega
  have hsuffix : ".md".toList <:+ page.slug ++ markdownSuffix := ⟨page.slug, rfl⟩
  unfold segmentLink
  rw [hsplit]
  simp only [hlength, hsuffix, and_self, if_true]

theorem not_mem_entryHead {page : IndexPage} (hpage : ValidPage page) :
    ')' ∉ entryHead page := by
  have hslug : ')' ∉ page.slug := not_mem_slug hpage.slugOk (by decide)
  have hfixed : ')' ∉ "- [".toList ∧ ')' ∉ "]".toList ∧ ')' ∉ linkOpening ∧
      ')' ∉ markdownSuffix := by decide
  simp only [entryHead, List.mem_append, not_or]
  exact ⟨⟨⟨⟨hfixed.1, hslug⟩, hfixed.2.1⟩, hfixed.2.2.1⟩, hslug,
    hfixed.2.2.2⟩

theorem indexLinks_cons_of_ne {c : Char} (hc : c ≠ '(') (rest : Text) :
    indexLinks (c :: rest) = indexLinks rest := by
  refine indexLinks_of_none ?_
  have hprefix : ¬ linkOpening <+: c :: rest := by
    rintro ⟨more, hmore⟩
    have hstart : linkOpening = '(' :: "pages/".toList := by decide
    rw [hstart] at hmore
    exact hc (List.cons.inj hmore).1.symm
  rw [indexLinkAt, stripPrefix_of_not_prefix hprefix]

theorem indexLinks_append_of_not_mem {before : Text} (hbefore : '(' ∉ before)
    (after : Text) : indexLinks (before ++ after) = indexLinks after := by
  induction before with
  | nil => rfl
  | cons c before ih =>
      have hc : c ≠ '(' := fun heq => hbefore (heq ▸ List.mem_cons_self)
      rw [List.cons_append, indexLinks_cons_of_ne hc]
      exact ih fun hmem => hbefore (List.mem_cons_of_mem _ hmem)

theorem shape_of_indexLinkAt {c : Char} {text found rest : Text}
    (h : indexLinkAt (c :: text) = some (found, rest)) :
    hasIndexLinkShape (c :: text) = true := by
  unfold indexLinkAt at h
  split at h
  · cases h
  next after hstrip =>
  split at h
  · cases h
  next before more hsplit =>
  split at h
  case isFalse => cases h
  case isTrue hlink =>
  obtain ⟨hlength, name, hname⟩ := hlink
  obtain ⟨hafter, hclean⟩ := Text.splitOnce_eq_some hsplit
  have hnameClean : ')' ∉ name := by
    intro hmem
    rw [← hname] at hclean
    exact hclean (List.mem_append_left _ hmem)
  have hne : name ≠ [] := by
    rintro rfl
    rw [← hname] at hlength
    revert hlength
    decide
  have hfound : splitOnceAt ".md)".toList after = some (name, more) := by
    have hmark : ".md)".toList = ".md".toList ++ [')'] := by decide
    have htext : after = name ++ (".md".toList ++ [')']) ++ more := by
      rw [hafter, ← hname]
      simp
    rw [hmark, htext]
    exact splitOnceAt_append_concat hnameClean (by decide)
  rw [hasIndexLinkShape, hstrip]
  simp only [hfound, hne, hnameClean, ne_eq, not_false_eq_true, and_self,
    decide_true, Bool.true_or]

theorem indexLinks_of_noShape {text : Text} (h : hasIndexLinkShape text = false) :
    indexLinks text = [] := by
  induction text with
  | nil => rw [indexLinks]
  | cons c text ih =>
      have hrest : hasIndexLinkShape text = false := by
        rw [hasIndexLinkShape, Bool.or_eq_false_iff] at h
        exact h.2
      rcases hat : indexLinkAt (c :: text) with _ | ⟨found, rest⟩
      · rw [indexLinks_of_none hat]
        exact ih hrest
      · rw [shape_of_indexLinkAt hat] at h
        cases h

theorem ValidPage.noLinks {page : IndexPage} (hpage : ValidPage page) :
    indexLinks page.summary = [] := by
  have hproblem := hpage.summaryOk
  unfold summaryProblem at hproblem
  split at hproblem
  · cases hproblem
  split at hproblem
  · cases hproblem
  split at hproblem
  · cases hproblem
  split at hproblem
  · cases hproblem
  next hshape =>
      refine indexLinks_of_noShape ?_
      simpa using hshape

theorem opensLink_append_of_not_mem {before : Text} (hparen : '(' ∉ before)
    (hclose : ')' ∉ before) (after : Text) :
    opensLink (before ++ after) = opensLink after := by
  have hstart : linkOpening = '(' :: "pages/".toList := by decide
  have hcontains : (linkOpening <:+: before ++ openEnd after) ↔
      linkOpening <:+: openEnd after := by
    rw [hstart]
    exact infix_append_of_not_mem hparen
  unfold opensLink contains
  rcases Text.segment_cases ')' after with hafter | ⟨segment, rest, rfl, hsegment⟩
  · rw [openEnd_of_not_mem hafter] at hcontains ⊢
    rw [openEnd_of_not_mem (by simp [hclose, hafter])]
    exact decide_eq_decide.2 hcontains
  · rw [← List.append_assoc, openEnd_append_cons, openEnd_append_cons]

end Entries

section Reading

variable {files : List Text} {tail : Text}

/-- Whether every link of a text has its file. -/
def LinksIn (files : List Text) (text : Text) : Prop :=
  ∀ name ∈ indexLinks text, name ∈ files

theorem linksIn_append (before after : Text) :
    LinksIn files (before ++ after) ↔
      LinksIn files before ∧ LinksIn files (openEnd before ++ after) := by
  unfold LinksIn
  rw [indexLinks_append, List.forall_mem_append]

theorem linksIn_segment {segment rest : Text} (h : ')' ∉ segment) :
    LinksIn files (segment ++ ')' :: rest) ↔
      (∀ name, segmentLink segment = some name → name ∈ files) ∧
        LinksIn files rest := by
  unfold LinksIn
  rw [indexLinks_segment h, List.forall_mem_append]
  simp

/-- The tail of a catalog starts with a marker that lacks the parenthesis. -/
structure CatalogTail (tail : Text) : Prop where
  long : ∀ segment rest, tail = segment ++ ')' :: rest → 3 < segment.length
  marked : ∀ segment rest, tail = segment ++ ')' :: rest → '<' ∈ segment

theorem catalogTail_endMarker (after : Text) : CatalogTail (endMarker ++ after) := by
  have hclean : ')' ∉ endMarker := by decide
  have hstarts {segment rest : Text}
      (h : endMarker ++ after = segment ++ ')' :: rest) : endMarker <+: segment := by
    have hmark : endMarker <+: segment ++ ')' :: rest := ⟨after, h⟩
    exact (prefix_append_cons_iff hclean).1 hmark
  constructor
  · intro segment rest h
    have hlength := (hstarts h).length_le
    have hfixed : 3 < endMarker.length := by decide
    omega
  · intro segment rest h
    exact (hstarts h).subset (by decide)

/-- The links of the tail, after a text that leaves an opening or does not. -/
theorem linksIn_tail (hfiles : PageNames files) (htail : CatalogTail tail)
    {pending : Text} (hcut : Cut linkOpening pending) (hclean : ')' ∉ pending) :
    LinksIn files (pending ++ tail) ↔
      LinksIn files tail ∧
        linksFine tail (contains linkOpening pending) [] = true := by
  rcases Text.segment_cases ')' tail with hmem | ⟨segment, rest, rfl, hsegment⟩
  · have hnone : ')' ∉ pending ++ tail := by simp [hclean, hmem]
    have hcloses : closesLink tail = false := by
      rw [closesLink, Text.splitOnce_of_not_mem hmem]
    unfold LinksIn
    rw [indexLinks_of_not_mem hnone, indexLinks_of_not_mem hmem]
    simp [linksFine, hcloses]
  · have hlong := htail.long segment rest rfl
    have hmarked := htail.marked segment rest rfl
    have hjoined : ')' ∉ pending ++ segment := by simp [hclean, hsegment]
    have hcloses : closesLink (segment ++ ')' :: rest) =
        decide (".md".toList <:+ segment) := by
      rw [closesLink, Text.splitOnce_append hsegment]
    rw [← List.append_assoc, linksIn_segment hjoined, linksIn_segment hsegment,
      linksFine, hcloses]
    by_cases hopen : linkOpening <:+: pending
    · obtain ⟨name, hname⟩ := segmentLink_append_of_open hopen hlong
      rw [hname, contains_iff.2 hopen]
      by_cases hends : ".md".toList <:+ segment
      · -- the opening takes the text up to the tail's parenthesis
        have hmissing : name ++ segment ∉ files := by
          intro hmem
          exact hfiles.not_mem hmem (by decide) (by decide)
            (List.mem_append_right _ hmarked)
        rw [if_pos hends, decide_eq_true hends]
        simp [hmissing]
      · have hnone : segmentLink segment = none := by
          unfold segmentLink
          split
          next found later hsplit =>
              refine if_neg fun hlater => hends (hlater.2.trans ?_)
              rw [splitOnceAt_eq_some hsplit]
              exact ⟨found ++ linkOpening, rfl⟩
          · rfl
        rw [if_neg hends, decide_eq_false hends, hnone]
        simp
    · have hclosed : contains linkOpening pending = false := by
        simpa [contains] using hopen
      rw [segmentLink_append hcut hopen, hclosed]
      simp

/-- The links of the entries and the tail, after a text that leaves an opening
or does not. -/
theorem linksIn_lists (hfiles : PageNames files) (htail : CatalogTail tail)
    {lines : List Text} {pages : List IndexPage} (hlists : Lists lines pages)
    {pending : Text} (hcut : Cut linkOpening pending) (hclean : ')' ∉ pending) :
    LinksIn files (pending ++ (unlines '\n' lines ++ tail)) ↔
      (∀ page ∈ pages, page.slug ++ markdownSuffix ∈ files) ∧
        LinksIn files tail ∧
          linksFine tail (contains linkOpening pending) pages = true := by
  have hnewline : '\n' ∉ linkOpening := by decide
  have hnonempty : linkOpening ≠ [] := by decide
  induction hlists generalizing pending with
  | nil =>
      rw [unlines_nil, List.nil_append, linksIn_tail hfiles htail hcut hclean]
      simp
  | @quiet line lines pages hopen hclose _ ih =>
      have htext : pending ++ (unlines '\n' (line :: lines) ++ tail) =
          (pending ++ line ++ ['\n']) ++ (unlines '\n' lines ++ tail) := by
        simp
      have hcontains : contains linkOpening (pending ++ line ++ ['\n']) =
          contains linkOpening pending := by
        have hstart : linkOpening = '(' :: "pages/".toList := by decide
        have hline : ¬ linkOpening <:+: line := fun hfound =>
          hopen (hfound.subset (by rw [hstart]; exact List.mem_cons_self))
        refine decide_eq_decide.2 ?_
        rw [infix_append_cons_iff hnewline, infix_append_iff_of_cut hcut hnonempty,
          List.infix_nil]
        simp [hline, hnonempty]
      have hnext : ')' ∉ pending ++ line ++ ['\n'] := by simp [hclean, hclose]
      have hnextCut : Cut linkOpening (pending ++ line ++ ['\n']) :=
        cut_concat hnewline
      rw [htext, ← hcontains]
      exact ih hnextCut hnext
  | @entry page lines pages hpage _ ih =>
      let shown := " — ".toList ++ page.summary
      have htext : pending ++ (unlines '\n' (entryLine page :: lines) ++ tail) =
          (pending ++ entryHead page) ++
            ')' :: ((shown ++ ['\n']) ++ (unlines '\n' lines ++ tail)) := by
        rw [unlines_cons, entryLine_segment]
        simp [shown]
      have hhead : ')' ∉ pending ++ entryHead page := by
        simp [hclean, not_mem_entryHead hpage]
      have hfixed : '(' ∉ " — ".toList ∧ ')' ∉ " — ".toList := by decide
      have hshown : LinksIn files (shown ++ ['\n']) := by
        have hend : ')' ∉ openEnd page.summary ++ ['\n'] := by
          simp [not_mem_openEnd]
        have hnone : indexLinks (page.summary ++ ['\n']) = [] := by
          rw [indexLinks_append, hpage.noLinks, indexLinks_of_not_mem hend]
          rfl
        have hall : indexLinks (shown ++ ['\n']) = [] := by
          rw [List.append_assoc, indexLinks_append_of_not_mem hfixed.1, hnone]
        intro name hname
        rw [hall] at hname
        cases hname
      have hnewlineClean : ')' ∉ ['\n'] := by decide
      have hnextText : openEnd (shown ++ ['\n']) = openEnd shown ++ ['\n'] :=
        openEnd_append shown ['\n'] hnewlineClean
      have hnext : ')' ∉ openEnd shown ++ ['\n'] := by simp [not_mem_openEnd]
      have hnextCut : Cut linkOpening (openEnd shown ++ ['\n']) :=
        cut_concat hnewline
      have hcontains : contains linkOpening (openEnd shown ++ ['\n']) =
          opensLink page.summary := by
        rw [← opensLink_append_of_not_mem hfixed.1 hfixed.2 page.summary]
        refine decide_eq_decide.2 ?_
        rw [infix_append_cons_iff hnewline, List.infix_nil]
        simp [hnonempty, shown]
      have hrest := ih hnextCut hnext
      rw [hcontains] at hrest
      rw [htext, linksIn_segment hhead, linksIn_append, hnextText]
      generalize openEnd shown ++ ['\n'] ++ (unlines '\n' lines ++ tail) = later
        at hrest ⊢
      by_cases hopen : linkOpening <:+: pending
      · -- the opening takes the text up to the entry's parenthesis
        have hends : ".md".toList <:+ entryHead page :=
          ⟨("- [".toList ++ page.slug ++ "]".toList) ++ linkOpening ++ page.slug,
            by simp [entryHead, markdownSuffix]⟩
        have hlong : 3 < (entryHead page).length := by
          have hopening : linkOpening.length = 7 := by decide
          simp only [entryHead, List.length_append]
          omega
        obtain ⟨name, hname⟩ := segmentLink_append_of_open hopen hlong
        have hmissing : name ++ entryHead page ∉ files := by
          intro hmem
          have hbracket : '[' ∈ name ++ entryHead page := by simp [entryHead]
          exact hfiles.not_mem hmem (by decide) (by decide) hbracket
        rw [if_pos hends] at hname
        rw [hname, linksFine, contains_iff.2 hopen]
        simp [hmissing]
      · have hclosed : contains linkOpening pending = false := by
          simpa [contains] using hopen
        rw [segmentLink_append hcut hopen, segmentLink_entryHead hpage, linksFine,
          hclosed]
        simp [hshown, hrest, and_assoc]

end Reading

section Catalog

variable {pages : List IndexPage}

theorem Lists.append {lines more : List Text} {others : List IndexPage}
    (h : Lists lines pages) (hmore : Lists more others) :
    Lists (lines ++ more) (pages ++ others) := by
  induction h with
  | nil => exact hmore
  | quiet hopen hclose _ ih => exact .quiet hopen hclose ih
  | entry hpage _ ih => exact .entry hpage ih

theorem lists_of_filter {lines : List Text}
    (h : Lists (lines.filter (· ≠ [])) pages) : Lists lines pages := by
  induction lines generalizing pages with
  | nil => exact h
  | cons line lines ih =>
      by_cases hline : line = []
      · subst hline
        rw [List.filter_cons_of_neg (by simp)] at h
        exact .quiet (by simp) (by simp) (ih h)
      · rw [List.filter_cons_of_pos (by simpa using hline)] at h
        cases h with
        | quiet hopen hclose hrest => exact .quiet hopen hclose (ih hrest)
        | entry hpage hrest => exact .entry hpage (ih hrest)

theorem lists_rows {rows : List IndexPage} (hrows : ∀ page ∈ rows, ValidPage page) :
    Lists (rows.map entryLine) rows := by
  induction rows with
  | nil => exact .nil
  | cons page rows ih =>
      exact .entry (hrows page List.mem_cons_self)
        (ih fun other hother => hrows other (List.mem_cons_of_mem _ hother))

theorem lists_sections (hpages : ∀ page ∈ pages, ValidPage page)
    (types : List PageType) :
    Lists (types.flatMap (sectionLines pages)) (types.flatMap (rowsOf pages)) := by
  induction types with
  | nil => exact .nil
  | cons pageType rest ih =>
      rw [List.flatMap_cons, List.flatMap_cons]
      by_cases hrows : rowsOf pages pageType = []
      · rw [sectionLines, if_pos hrows, hrows]
        exact ih
      · have hheading : '(' ∉ headingText pageType ∧ ')' ∉ headingText pageType := by
          cases pageType <;> decide
        rw [sectionLines, if_neg hrows]
        exact .quiet hheading.1 hheading.2 ((lists_rows fun page hpage =>
          hpages page (mem_rowsOf.1 hpage).1).append ih)

theorem lists_catalog (hpages : ∀ page ∈ pages, ValidPage page) :
    Lists ([] :: catalogLines pages ++ [[]])
      (typeOrder.flatMap (rowsOf pages)) := by
  refine lists_of_filter ?_
  have hlines : ([] :: catalogLines pages ++ [[]]).filter (· ≠ []) =
      typeOrder.flatMap (sectionLines pages) := by
    rw [List.cons_append, List.filter_cons_of_neg (by simp), List.filter_append,
      filter_catalogLines]
    simp
  rw [hlines]
  exact lists_sections hpages typeOrder

/-- The links of an index with a catalog between its markers. -/
theorem linksIn_markedText {files : List Text} (hfiles : PageNames files)
    (hpages : ∀ page ∈ pages, ValidPage page) {before after : Text} {c : Char}
    (hc : isLineEnd c = true) :
    LinksIn files
        (markedText beginMarker before c (catalogBetween pages) after) ↔
      LinksIn files (before ++ beginMarker ++ [c]) ∧
        (∀ page ∈ pages, page.slug ++ markdownSuffix ∈ files) ∧
          LinksIn files (endMarker ++ after) ∧
            linksFine (endMarker ++ after)
              (opensLink (before ++ beginMarker ++ [c]))
              (typeOrder.flatMap (rowsOf pages)) = true := by
  have hfixed : isLineEnd ')' = false ∧
      linkOpening.all (fun d => !isLineEnd d) = true := by decide
  have hparen : ')' ∉ [c] := by
    intro hmem
    rw [List.mem_singleton.1 hmem, hc] at hfixed
    cases hfixed.1
  have hmark : c ∉ linkOpening := by
    intro hmem
    have hplain := List.all_eq_true.1 hfixed.2 c hmem
    rw [hc] at hplain
    cases hplain
  have hend : openEnd (before ++ beginMarker ++ [c]) =
      openEnd (before ++ beginMarker) ++ [c] := openEnd_append _ _ hparen
  have hcut : Cut linkOpening (openEnd (before ++ beginMarker ++ [c])) := by
    rw [hend]
    exact cut_concat hmark
  have hlists := linksIn_lists hfiles (catalogTail_endMarker after)
    (lists_catalog hpages) hcut (not_mem_openEnd _)
  have hmembers : (∀ page ∈ typeOrder.flatMap (rowsOf pages),
      page.slug ++ markdownSuffix ∈ files) ↔
        ∀ page ∈ pages, page.slug ++ markdownSuffix ∈ files := by
    refine forall_congr' fun page => ?_
    rw [(flatMap_rowsOf_perm pages).mem_iff]
  rw [hmembers] at hlists
  have htext : markedText beginMarker before c (catalogBetween pages) after =
      (before ++ beginMarker ++ [c]) ++
        (unlines '\n' ([] :: catalogLines pages ++ [[]]) ++
          (endMarker ++ after)) := by
    rw [markedText, catalogBetween_eq]
    simp only [List.append_assoc]
  rw [htext, linksIn_append]
  exact and_congr_right fun _ => hlists

/-- The order of the entries of a catalog. -/
def Precedes (left right : IndexPage) : Prop :=
  typeOrder.idxOf left.pageType < typeOrder.idxOf right.pageType ∨
    left.pageType = right.pageType ∧ left.slug < right.slug

theorem Precedes.asymm {left right : IndexPage} (h : Precedes left right) :
    ¬ Precedes right left := by
  rintro (hgt | ⟨htype, hgt⟩)
  · rcases h with hlt | ⟨htype, _⟩
    · omega
    · rw [htype] at hgt
      omega
  · rcases h with hlt | ⟨_, hlt⟩
    · rw [htype] at hlt
      omega
    · exact absurd (List.lt_trans hlt hgt) (List.lt_irrefl _)

theorem rows_precede (hnodup : (pages.map IndexPage.slug).Nodup) :
    (typeOrder.flatMap (rowsOf pages)).Pairwise Precedes := by
  rw [List.pairwise_flatMap]
  constructor
  · intro pageType _
    refine List.Pairwise.imp_of_mem ?_ (rowsOf_sorted hnodup)
    intro left right hleft hright hlt
    exact Or.inr ⟨(mem_rowsOf.1 hleft).2.trans (mem_rowsOf.1 hright).2.symm, hlt⟩
  · have horder : typeOrder.Pairwise
        fun left right => typeOrder.idxOf left < typeOrder.idxOf right := by
      decide
    refine horder.imp fun hlt left hleft right hright => Or.inl ?_
    rw [(mem_rowsOf.1 hleft).2, (mem_rowsOf.1 hright).2]
    exact hlt

theorem linksFine_iff {tail : Text} {left : Bool} {rows : List IndexPage}
    (hrows : rows.Pairwise Precedes) :
    linksFine tail left rows = true ↔
      (left = true → rows = [] ∧ closesLink tail = false) ∧
        ∀ page ∈ rows, opensLink page.summary = true →
          (∀ other ∈ rows, ¬ Precedes page other) ∧ closesLink tail = false := by
  induction rows generalizing left with
  | nil =>
      cases left <;> simp [linksFine]
  | cons page rows ih =>
      rw [List.pairwise_cons] at hrows
      obtain ⟨hfirst, hsorted⟩ := hrows
      rw [linksFine, Bool.and_eq_true, Bool.not_eq_true', ih hsorted]
      constructor
      · rintro ⟨rfl, hlast, hrest⟩
        refine ⟨fun hleft => absurd hleft (by decide), ?_⟩
        intro found hfound hopens
        rcases List.mem_cons.1 hfound with rfl | hmem
        · obtain ⟨rfl, hcloses⟩ := hlast hopens
          refine ⟨fun other hother hprecedes => ?_, hcloses⟩
          rw [List.mem_singleton.1 hother] at hprecedes
          exact hprecedes.asymm hprecedes
        · obtain ⟨hnone, hcloses⟩ := hrest found hmem hopens
          refine ⟨fun other hother => ?_, hcloses⟩
          rcases List.mem_cons.1 hother with rfl | hother
          · exact (hfirst found hmem).asymm
          · exact hnone other hother
      · rintro ⟨hleft, hall⟩
        refine ⟨?_, ?_, ?_⟩
        · cases left with
          | false => rfl
          | true => cases (hleft rfl).1
        · intro hopens
          obtain ⟨hnone, hcloses⟩ := hall page List.mem_cons_self hopens
          refine ⟨?_, hcloses⟩
          cases rows with
          | nil => rfl
          | cons other rest =>
              exact absurd (hfirst other List.mem_cons_self)
                (hnone other (by simp))
        · intro found hfound hopens
          obtain ⟨hnone, hcloses⟩ :=
            hall found (List.mem_cons_of_mem _ hfound) hopens
          exact ⟨fun other hother => hnone other (List.mem_cons_of_mem _ hother),
            hcloses⟩

end Catalog

end Yams.Wiki
