/-
Repeating an update.  The stored page, with its fields as they are read back, is
compared with the page that the request renders: they differ where a title or a
summary is read back otherwise than it was written.
-/
import Yams.ChunkPacking
import Yams.FrontmatterAgreement
import Yams.WikiPageRoundtrip

namespace Yams.Wiki

section PageTexts

/-- A page with the given lines between its markers. -/
def pageText (lines : List Text) (body : Text) : Text :=
  unlines '\n' (frontmatterMarker :: lines ++ [frontmatterMarker]) ++ body

/-- Lines that stay what they are between the markers of a page. -/
structure BlockLines (lines : List Text) : Prop where
  oneLine : ∀ line ∈ lines, ∀ c ∈ line, isSplitlinesBoundary c = false
  unmarked : frontmatterMarker ∉ lines

variable {lines others : List Text} {line body rest : Text}

theorem marker_oneLine : ∀ c ∈ frontmatterMarker, isSplitlinesBoundary c = false := by
  have hall : (frontmatterMarker.all fun c => !isSplitlinesBoundary c) = true := by decide
  intro c hc
  exact Bool.not_eq_true' _ ▸ List.all_eq_true.1 hall c hc

theorem newline_not_mem (h : ∀ c ∈ line, isSplitlinesBoundary c = false) :
    '\n' ∉ line := by
  intro hmem
  have hnewline : isSplitlinesBoundary '\n' = true := by decide
  rw [h _ hmem] at hnewline
  cases hnewline

theorem BlockLines.tail (h : BlockLines (line :: lines)) : BlockLines lines :=
  ⟨fun other hother => h.oneLine other (List.mem_cons_of_mem _ hother),
    fun hmem => h.unmarked (List.mem_cons_of_mem _ hmem)⟩

theorem BlockLines.head_ne (h : BlockLines (line :: lines)) :
    line ≠ frontmatterMarker :=
  fun heq => h.unmarked (heq ▸ List.mem_cons_self)

theorem frontmatterBlock_unlines (h : BlockLines lines) (body : Text) :
    ∃ block, frontmatterBlock (pythonLines false
      (unlines '\n' lines ++ (frontmatterMarker ++ '\n' :: body))) =
        some (block, pythonLines false body) := by
  induction lines with
  | nil =>
      rw [unlines_nil, List.nil_append, pythonLines_append_newline marker_oneLine]
      exact ⟨[], if_pos rfl⟩
  | cons line lines ih =>
      obtain ⟨block, hblock⟩ := ih h.tail
      rw [unlines_cons, List.append_assoc, List.cons_append,
        pythonLines_append_newline (h.oneLine line List.mem_cons_self),
        frontmatterBlock, if_neg h.head_ne, hblock]
      exact ⟨_, rfl⟩

/-- The body of a page comes back if it starts with a line feed. -/
theorem frontmatterBody_pageText (h : BlockLines lines) :
    frontmatterBody (pageText lines ('\n' :: rest)) = some ('\n' :: rest) := by
  have htext : pageText lines ('\n' :: rest) = frontmatterMarker ++ '\n' ::
      (unlines '\n' lines ++ (frontmatterMarker ++ '\n' :: ('\n' :: rest))) := by
    simp [pageText]
  have hbody : pythonLines false ('\n' :: rest) =
      ⟨[], '\n' :: rest⟩ :: pythonLines false rest :=
    pythonLines_append_newline (fun c hc => absurd hc List.not_mem_nil) rest
  obtain ⟨block, hblock⟩ := frontmatterBlock_unlines h ('\n' :: rest)
  rw [frontmatterBody, htext, pythonLines_append_newline marker_oneLine,
    List.drop_one, List.tail_cons, hblock, hbody]
  rfl

theorem pageText_injective (hlines : BlockLines lines) (hothers : BlockLines others)
    (h : pageText lines body = pageText others body) : lines = others := by
  have hsplit {lines : List Text} (hlines : BlockLines lines) :
      splitWhere (fun c => c = '\n')
        (unlines '\n' (frontmatterMarker :: lines ++ [frontmatterMarker])) =
      frontmatterMarker :: lines ++ [frontmatterMarker] ++ [[]] := by
    apply splitWhere_unlines (by decide)
    intro line hline c hc
    have hboundary : isSplitlinesBoundary c = false := by
      rw [List.mem_append, List.mem_cons, List.mem_singleton] at hline
      rcases hline with (rfl | hline) | rfl
      · exact marker_oneLine c hc
      · exact hlines.oneLine line hline c hc
      · exact marker_oneLine c hc
    apply decide_eq_false
    rintro rfl
    exact absurd hboundary (by decide)
  have htexts := List.append_cancel_right h
  have hsame := (hsplit hlines).symm.trans (htexts ▸ hsplit hothers)
  exact (List.cons.inj (List.append_cancel_right
    (List.append_cancel_right hsame))).2

end PageTexts

section Dates

variable {lines : List Text} {line body rest : Text}

/-- A line that change detection leaves out. -/
def isDateLine (line : Text) : Bool :=
  "updated:".toList <+: line ∨ "verified:".toList <+: line

attribute [local simp] withoutDateLines

theorem withoutDateLines_closed (lines : List Text) :
    withoutDateLines true true lines = lines := by
  induction lines with
  | nil => rfl
  | cons line lines ih =>
      rw [withoutDateLines]
      simp [ih]

theorem withoutDateLines_line (hne : line ≠ frontmatterMarker) (rest : List Text) :
    withoutDateLines true false ((line ++ ['\n']) :: rest) =
      if isDateLine line then withoutDateLines true false rest
      else (line ++ ['\n']) :: withoutDateLines true false rest := by
  have hcontent : (if (line ++ ['\n']).getLast? = some '\n' then
      (line ++ ['\n']).dropLast else line ++ ['\n']) = line := by simp
  rw [withoutDateLines, hcontent, if_neg fun h => h.1 rfl, if_neg fun h => hne h.2.2]
  by_cases hdate : isDateLine line = true
  · rw [if_pos hdate, if_pos ⟨rfl, Bool.false_ne_true, of_decide_eq_true hdate⟩]
  · rw [if_neg hdate, if_neg fun h => hdate (decide_eq_true h.2.2)]

theorem withoutDateLines_open (h : BlockLines lines) (rest : Text) :
    (withoutDateLines true false (splitInclusive
      (unlines '\n' lines ++ (frontmatterMarker ++ '\n' :: rest)))).flatten =
    unlines '\n' (lines.filter fun line => !isDateLine line) ++
      (frontmatterMarker ++ '\n' :: rest) := by
  induction lines with
  | nil =>
      rw [unlines_nil, List.nil_append,
        splitInclusive_append_newline (newline_not_mem marker_oneLine),
        withoutDateLines]
      simp [withoutDateLines_closed, splitInclusive_flatten]
  | cons line lines ih =>
      have hrest := ih h.tail
      rw [unlines_cons, List.append_assoc, List.cons_append,
        splitInclusive_append_newline
          (newline_not_mem (h.oneLine line List.mem_cons_self)),
        withoutDateLines_line h.head_ne]
      by_cases hdate : isDateLine line = true
      · rw [if_pos hdate, hrest, List.filter_cons_of_neg (by simp [hdate])]
      · rw [if_neg hdate, List.flatten_cons, hrest,
          List.filter_cons_of_pos (by simp [hdate]), unlines_cons]
        simp only [List.append_assoc, List.cons_append, List.nil_append]

/-- Without its dates a page has the other lines and the same body. -/
theorem withoutDates_pageText (h : BlockLines lines) :
    withoutDates (pageText lines body) =
      pageText (lines.filter fun line => !isDateLine line) body := by
  have htext (lines : List Text) : pageText lines body = frontmatterMarker ++ '\n' ::
      (unlines '\n' lines ++ (frontmatterMarker ++ '\n' :: body)) := by
    simp [pageText]
  rw [withoutDates, htext, splitInclusive_append_newline
    (newline_not_mem marker_oneLine), withoutDateLines, htext]
  simp [withoutDateLines_open h]

end Dates

section Fields

variable {entries : List (Text × Text)} {fields : Fields} {key value : Text}

/-- The fields that change detection looks at. -/
def undated (entry : Text × Text) : Bool :=
  entry.1 ≠ "updated".toList ∧ entry.1 ≠ "verified".toList

/-- A field as it is read back. -/
def reread (entry : Text × Text) : Text × Text := (entry.1, readValue entry.2)

theorem mem_of_mem_readValue {c : Char} (h : c ∈ readValue value) : c ∈ value :=
  mem_of_mem_trimMatches (mem_of_mem_unquote h)

theorem prefix_fieldText_iff {other : Text} (value : Text) (hkey : ':' ∉ key)
    (hother : ':' ∉ other) :
    other ++ [':'] <+: fieldText (key, value) ↔ other = key := by
  have htext : fieldText (key, value) = key ++ ':' :: (' ' :: value) := by
    simp [fieldText]
  constructor
  · rintro ⟨rest, hrest⟩
    rw [htext, List.append_assoc, List.singleton_append] at hrest
    have hsplit : Text.splitOnce ':' (other ++ ':' :: rest) = some (other, rest) :=
      Text.splitOnce_append hother
    rw [hrest, Text.splitOnce_append hkey] at hsplit
    exact (congrArg Prod.fst (Option.some.inj hsplit)).symm
  · rintro rfl
    exact ⟨' ' :: value, by rw [htext, List.append_assoc, List.singleton_append]⟩

theorem isDateLine_fieldText {entry : Text × Text} (hkey : entry.1 ∈ canonicalKeys) :
    (!isDateLine (fieldText entry)) = undated entry := by
  have hcolon : ':' ∉ entry.1 :=
    (of_decide_eq_true (List.all_eq_true.1 canonicalKeys_plain _ hkey)).2.1
  have hupdated := prefix_fieldText_iff entry.2 hcolon
    (show ':' ∉ "updated".toList by decide)
  have hverified := prefix_fieldText_iff entry.2 hcolon
    (show ':' ∉ "verified".toList by decide)
  have hline : isDateLine (fieldText entry) =
      decide ("updated".toList = entry.1 ∨ "verified".toList = entry.1) :=
    decide_eq_decide.2 (or_congr hupdated hverified)
  rw [hline, undated, ← decide_not, decide_eq_decide, not_or]
  exact and_congr ⟨Ne.symm, Ne.symm⟩ ⟨Ne.symm, Ne.symm⟩

theorem fieldText_injective : Function.Injective (fun value => fieldText (key, value)) :=
  fun _ _ h => List.append_cancel_left h

/-- The lines of entries with canonical keys. -/
theorem blockLines_entries (hkeys : ∀ entry ∈ entries, entry.1 ∈ canonicalKeys)
    (hlines : OneLine entries) : BlockLines (entries.map fieldText) := by
  constructor
  · intro line hline
    obtain ⟨entry, hentry, rfl⟩ := List.mem_map.1 hline
    exact fieldText_oneLine (hkeys entry hentry) (hlines entry hentry)
  · intro hmem
    obtain ⟨entry, hentry, heq⟩ := List.mem_map.1 hmem
    exact fieldText_ne_marker (hkeys entry hentry) heq

theorem filter_fieldText (hkeys : ∀ entry ∈ entries, entry.1 ∈ canonicalKeys) :
    ((entries.map fieldText).filter fun line => !isDateLine line) =
      (entries.filter undated).map fieldText := by
  rw [List.filter_map]
  congr 1
  apply List.filter_congr
  intro entry hentry
  exact isDateLine_fieldText (hkeys entry hentry)

theorem OneLine.reread (h : OneLine entries) : OneLine (entries.map reread) := by
  intro entry hentry c hc
  obtain ⟨source, hsource, rfl⟩ := List.mem_map.1 hentry
  exact h source hsource c (mem_of_mem_readValue hc)

/-- Change detection sees no difference between the fields of a page and what is
read back of them just when all of them but the dates are read back as they are. -/
theorem withoutDates_reread_iff {body : Text}
    (hkeys : ∀ entry ∈ entries, entry.1 ∈ canonicalKeys) (hlines : OneLine entries) :
    withoutDates (pageText (entries.map fieldText) body) =
        withoutDates (pageText ((entries.map reread).map fieldText) body) ↔
      ∀ entry ∈ entries.filter undated, readValue entry.2 = entry.2 := by
  have hkeysRead : ∀ entry ∈ entries.map reread, entry.1 ∈ canonicalKeys := by
    intro entry hentry
    obtain ⟨source, hsource, rfl⟩ := List.mem_map.1 hentry
    exact hkeys source hsource
  have hblock := blockLines_entries hkeys hlines
  have hblockRead := blockLines_entries hkeysRead hlines.reread
  have hfilter : (entries.map reread).filter undated =
      (entries.filter undated).map reread := List.filter_map
  rw [withoutDates_pageText hblock, withoutDates_pageText hblockRead,
    filter_fieldText hkeys, filter_fieldText hkeysRead, hfilter, List.map_map]
  constructor
  · intro h
    have hsame := pageText_injective
      (blockLines_entries (fun entry hentry => hkeys entry (List.mem_of_mem_filter hentry))
        fun entry hentry => hlines entry (List.mem_of_mem_filter hentry))
      (by
        rw [← List.map_map, ← hfilter]
        exact blockLines_entries
          (fun entry hentry => hkeysRead entry (List.mem_of_mem_filter hentry))
          fun entry hentry => hlines.reread entry (List.mem_of_mem_filter hentry)) h
    intro entry hentry
    exact (fieldText_injective (List.map_inj_left.1 hsame entry hentry)).symm
  · intro h
    congr 1
    apply List.map_congr_left
    intro entry hentry
    rw [Function.comp_apply, reread, h entry hentry]

end Fields

section Pages

variable [Unicode] {request : CommonRequest} {slug updated verified later : Text}
  {owner : Owner} {status : Status}

/-- Title and summary are read back as they were written: no white space around them
and no pair of quotes. -/
def ReadBack (request : CommonRequest) : Prop :=
  readValue request.title = request.title ∧
    readValue request.summary = request.summary

/-- What is read back of title and summary is again a title and a summary. -/
structure Rereadable (request : CommonRequest) : Prop where
  title : readValue request.title ≠ []
  titleScalar :
    validateFrontmatterScalar "title".toList (readValue request.title) = .ok ()
  summary : readValue request.summary ≠ []
  summaryScalar :
    validateFrontmatterScalar "summary".toList (readValue request.summary) = .ok ()

omit [Unicode] in
theorem requiredPageField_iff {fields : Fields} {field value : Text} :
    requiredPageField fields field = .ok value ↔
      Fields.at fields field = value ∧ value ≠ [] := by
  unfold requiredPageField
  split
  next hnil =>
    constructor
    · intro h
      cases h
    · rintro ⟨rfl, hne⟩
      exact absurd hnil hne
  next hne =>
    constructor
    · intro h
      obtain rfl := Except.ok.inj h
      exact ⟨rfl, hne⟩
    · rintro ⟨rfl, -⟩
      rfl

omit [Unicode] in
theorem length_storeEntries {entries : List (Text × Text)} {fields : Fields}
    (hnodup : (entries.map Prod.fst).Nodup)
    (hnew : ∀ entry ∈ entries, ∀ field ∈ fields, field.1 ≠ entry.1) :
    (storeEntries fields entries).length = fields.length + entries.length := by
  induction entries generalizing fields with
  | nil => rfl
  | cons entry entries ih =>
      rw [List.map_cons, List.nodup_cons] at hnodup
      have hfilter : (fields.filter fun field => field.1 ≠ entry.1) = fields :=
        List.filter_eq_self.2 fun field hfield =>
          decide_eq_true (hnew entry List.mem_cons_self field hfield)
      have hinsert : fields.insert entry.1 (readValue entry.2) =
          (entry.1, readValue entry.2) :: fields := by
        rw [Fields.insert, hfilter]
      change (storeEntries (fields.insert entry.1 (readValue entry.2))
        entries).length = _
      rw [hinsert, ih hnodup.2]
      · simp only [List.length_cons]
        omega
      · intro other hother field hfield
        rcases List.mem_cons.1 hfield with rfl | hfield
        · intro heq
          exact hnodup.1 (List.mem_map.2 ⟨other, hother, heq.symm⟩)
        · exact hnew other (List.mem_cons_of_mem _ hother) field hfield

omit [Unicode] in
theorem length_fields (request : CommonRequest) (slug : Text) (owner : Owner)
    (status : Status) (updated verified : Text) :
    (storeEntries [] (pageEntries request slug owner status updated verified)).length =
      canonicalKeys.length := by
  rw [length_storeEntries (keys_pageEntries ▸ canonicalKeys_nodup)]
  · rfl
  · exact fun _ _ field hfield => absurd hfield List.not_mem_nil

/-- A rendered page is accepted exactly if its scalars can be read back and it was
verified no earlier than updated. -/
theorem ensureRenderedPage_renderPage (haccepted : Accepted request slug)
    (hupdated : isIsoDate updated = true) (hverified : isIsoDate verified = true) :
    ensureRenderedPage (renderPage request slug owner status updated verified) =
        .ok () ↔ Rereadable request ∧ ¬ verified < updated := by
  have hparsed := parseFrontmatterFields_renderPage
    (pageEntries_oneLine owner status haccepted hupdated hverified)
  have hlength := length_fields request slug owner status updated verified
  have hfields := renderedFields owner status haccepted hupdated hverified
  generalize storeEntries [] (pageEntries request slug owner status updated verified) =
    fields at hparsed hlength hfields
  constructor
  · intro h
    obtain ⟨wiki, hwiki, -⟩ := ensureRenderedPage_eq_ok h
    simp only [parseWikiPage, hparsed, except_ok_bind, except_bind_eq_ok,
      requiredPageField_iff, hfields.title, hfields.summary, hfields.updated,
      hfields.verified] at hwiki
    obtain ⟨_, _, _, _, title, ⟨rfl, htitle⟩, _, htitleScalar, summary,
      ⟨rfl, hsummary⟩, _, hsummaryScalar, _, _, _, _, _, _, found, ⟨rfl, _⟩, last,
      ⟨rfl, _⟩, _, _, _, _, _, hordered, _⟩ := hwiki
    exact ⟨⟨htitle, htitleScalar, hsummary, hsummaryScalar⟩,
      of_decide_eq_true (check_eq_ok.1 hordered)⟩
  · rintro ⟨hread, hordered⟩
    have hwiki : ∃ wiki, parseWikiPage
        (renderPage request slug owner status updated verified) = .ok wiki ∧
          wiki.fields = fields := by
      have hslugField := requiredPageField_iff.2
        ⟨hfields.slug, (slugChars_of_validateSlug haccepted.slugOk).1⟩
      have hslugOk : validatePageSlug slug = .ok () := by
        rw [validatePageSlug, haccepted.slugOk]
      unfold parseWikiPage
      rw [hparsed, except_ok_bind, hslugField, except_ok_bind, hslugOk, except_ok_bind,
        requiredPageField_iff.2 ⟨hfields.title, hread.title⟩, except_ok_bind,
        hread.titleScalar, except_ok_bind,
        requiredPageField_iff.2 ⟨hfields.summary, hread.summary⟩, except_ok_bind,
        hread.summaryScalar, except_ok_bind, hfields.pageType, parse_pageType,
        except_ok_bind, hfields.status, parse_status, except_ok_bind, hfields.owner,
        parse_owner, except_ok_bind,
        requiredPageField_iff.2 ⟨hfields.updated, isoDate_ne_nil hupdated⟩,
        except_ok_bind,
        requiredPageField_iff.2 ⟨hfields.verified, isoDate_ne_nil hverified⟩,
        except_ok_bind, check_eq_ok.2 hupdated, except_ok_bind,
        check_eq_ok.2 hverified, except_ok_bind,
        check_eq_ok.2 (decide_eq_true hordered), except_ok_bind]
      exact ⟨_, rfl, rfl⟩
    obtain ⟨wiki, hwiki, hsame⟩ := hwiki
    rw [ensureRenderedPage_of_wiki hwiki, check_eq_ok, hsame]
    exact decide_eq_true hlength

omit [Unicode] in
theorem renderPage_pageText :
    renderPage request slug owner status updated verified =
      pageText ((pageEntries request slug owner status updated verified).map fieldText)
        (pageBody request) := renderPage_eq

omit [Unicode] in
theorem mem_canonicalKeys : ∀ entry ∈ pageEntries request slug owner status updated
    verified, entry.1 ∈ canonicalKeys := by
  intro entry hentry
  have hkeys : (pageEntries request slug owner status updated verified).map Prod.fst =
      canonicalKeys := keys_pageEntries
  rw [← hkeys]
  exact List.mem_map_of_mem hentry

/-- A rendered page with its fields as they are read. -/
theorem recanonicalizeFrontmatter_renderPage (haccepted : Accepted request slug)
    (hupdated : isIsoDate updated = true) (hverified : isIsoDate verified = true) :
    recanonicalizeFrontmatter (renderPage request slug owner status updated verified)
        (storeEntries [] (pageEntries request slug owner status updated verified)) =
      pageText (((pageEntries request slug owner status updated verified).map
        reread).map fieldText) (pageBody request) := by
  have hblock := blockLines_entries mem_canonicalKeys
    (pageEntries_oneLine owner status haccepted hupdated hverified)
  have hkeys : (pageEntries request slug owner status updated verified).map Prod.fst =
      canonicalKeys := keys_pageEntries
  have hvalues : ∀ entry ∈ pageEntries request slug owner status updated verified,
      Fields.at (storeEntries []
        (pageEntries request slug owner status updated verified)) entry.1 =
          readValue entry.2 := by
    intro entry hentry
    rw [Fields.at, get_storeEntries (keys_pageEntries ▸ canonicalKeys_nodup) hentry]
    rfl
  rw [renderPage_pageText]
  generalize pageEntries request slug owner status updated verified = entries
    at hblock hkeys hvalues
  generalize storeEntries [] entries = fields at hvalues
  have hunmarked : unmarked (pageText (entries.map fieldText) (pageBody request)) =
      pageText (entries.map fieldText) (pageBody request) := rfl
  have hlines : (canonicalKeys.flatMap fun key =>
      key ++ ": ".toList ++ Fields.at fields key ++ "\n".toList) =
        unlines '\n' ((entries.map reread).map fieldText) := by
    rw [← hkeys, unlines, List.flatMap_map, List.flatMap_map, List.flatMap_map]
    apply List.flatMap_congr
    intro entry hentry
    rw [hvalues entry hentry]
    rfl
  have hmarker : "---\n".toList = frontmatterMarker ++ ['\n'] := by decide
  have hbody : frontmatterBody (pageText (entries.map fieldText) (pageBody request)) =
      some (pageBody request) := frontmatterBody_pageText hblock
  unfold recanonicalizeFrontmatter
  rw [hunmarked, hbody]
  dsimp only
  rw [hlines, hmarker, pageText, unlines_append, unlines_cons, unlines_cons,
    unlines_nil]
  simp only [List.append_assoc, List.cons_append, List.nil_append]

omit [Unicode] in
theorem filter_pageEntries (request : CommonRequest) (slug : Text) (owner : Owner)
    (status : Status) (updated verified : Text) :
    (pageEntries request slug owner status updated verified).filter undated =
      [("slug".toList, slug), ("title".toList, request.title),
        ("type".toList, request.pageType.asStr), ("status".toList, status.asStr),
        ("owner".toList, owner.asStr), ("summary".toList, request.summary)] := by
  simp [pageEntries, undated]

/-- A page is found unchanged by the request it was rendered from exactly if title
and summary are read back as they were written. -/
theorem withoutDates_renderPage_iff (owner : Owner) (status : Status)
    (haccepted : Accepted request slug)
    (hupdated : isIsoDate updated = true) (hverified : isIsoDate verified = true)
    (hlater : isIsoDate later = true) :
    withoutDates (renderPage request slug owner status updated later) =
        withoutDates (recanonicalizeFrontmatter
          (renderPage request slug owner status updated verified)
          (storeEntries [] (pageEntries request slug owner status updated verified))) ↔
      ReadBack request := by
  have hlines := pageEntries_oneLine owner status haccepted hupdated hverified
  have hlaterLines := pageEntries_oneLine owner status haccepted hupdated hlater
  have hsame : withoutDates (renderPage request slug owner status updated later) =
      withoutDates (pageText ((pageEntries request slug owner status updated
        verified).map fieldText) (pageBody request)) := by
    rw [renderPage_pageText,
      withoutDates_pageText (blockLines_entries mem_canonicalKeys hlaterLines),
      withoutDates_pageText (blockLines_entries mem_canonicalKeys hlines),
      filter_fieldText mem_canonicalKeys, filter_fieldText mem_canonicalKeys,
      filter_pageEntries, filter_pageEntries]
  rw [hsame, recanonicalizeFrontmatter_renderPage haccepted hupdated hverified,
    withoutDates_reread_iff mem_canonicalKeys hlines, filter_pageEntries]
  constructor
  · intro h
    exact ⟨h ("title".toList, request.title) (by simp),
      h ("summary".toList, request.summary) (by simp)⟩
  · rintro ⟨htitle, hsummary⟩ entry hentry
    simp only [List.mem_cons, List.not_mem_nil, or_false] at hentry
    rcases hentry with rfl | rfl | rfl | rfl | rfl | rfl
    · exact readValue_eq_self (slug_plain haccepted.slugOk)
    · exact htitle
    · exact readValue_eq_self (pageType_plain _)
    · exact readValue_eq_self (status_plain _)
    · exact readValue_eq_self (owner_plain _)
    · exact hsummary

end Pages

section Updates

variable [Unicode] {D : Type} [Sha256 D] {request : UpdateRequest}
  {updated verified later today page : Text} {owner : Owner} {status : Status}

omit [Unicode] in
theorem not_lt_trans {first second third : Text} (hfirst : ¬ second < first)
    (hsecond : ¬ third < second) : ¬ third < first :=
  List.le_trans hfirst hsecond

omit [Unicode] in
theorem storedOwner_of_at {slug : Text} {fields : Fields}
    (h : Fields.at fields "owner".toList = owner.asStr) :
    storedOwner slug fields = .ok owner := by
  have hnamed : Owner.named owner.asStr = some owner := by cases owner <;> decide
  rw [storedOwner, h, hnamed]

omit [Unicode] in
theorem storedStatus_of_at {slug : Text} {fields : Fields}
    (h : Fields.at fields "status".toList = status.asStr) :
    storedStatus slug fields = .ok status := by
  have hnamed : Status.named status.asStr = some status := by
    cases status <;> decide
  rw [storedStatus, h, hnamed]

/-- What an update makes of the page it was rendered to itself. -/
theorem renderUpdate_rendered (hvalid : validateUpdate request = .ok request.target)
    (hexpected : (request.expectedSha256.all fun expected =>
      textDigest D page = expected) = true)
    (hupdated : isIsoDate updated = true) (hverified : isIsoDate verified = true)
    (hlater : isIsoDate later = true) (hdate : ¬ later < updated)
    (hpage : page = renderPage (.update request) request.target owner status updated
      verified) (hread : Rereadable (.update request)) (changed : Bool)
    (hchanged : changed = true ↔ ¬ ReadBack (.update request)) :
    renderUpdate D request page later =
      .ok ⟨renderPage (.update request) request.target owner status
        (if changed then later else updated) later, changed⟩ := by
  have haccepted := (validateUpdate_eq_ok hvalid).1
  have hparsed := parseFrontmatterFields_renderPage
    (pageEntries_oneLine owner status haccepted hupdated hverified)
  have hfields := renderedFields owner status haccepted hupdated hverified
  have hsame := withoutDates_renderPage_iff owner status haccepted hupdated hverified
    hlater
  rw [← hpage] at hparsed hsame
  generalize storeEntries [] (pageEntries (.update request) request.target owner status
    updated verified) = fields at hparsed hfields hsame
  have htoday : validateToday later = .ok () := if_pos hlater
  have hslugOk : validatePageSlug request.target = .ok () := by
    rw [validatePageSlug, haccepted.slugOk]
  have hstored : storedDateValid updated later = true := decide_eq_true ⟨hupdated, hdate⟩
  have hdecide : decide (withoutDates (renderPage (.update request) request.target owner
      status updated later) ≠ withoutDates (recanonicalizeFrontmatter page fields)) =
        changed := by
    rw [Bool.eq_iff_iff, decide_eq_true_eq, hchanged]
    exact not_congr hsame
  have hensure : ensureRenderedPage (renderPage (.update request) request.target owner
      status (if changed then later else updated) later) = .ok () := by
    cases changed with
    | true =>
        exact (ensureRenderedPage_renderPage haccepted hlater hlater).2
          ⟨hread, List.lt_irrefl later⟩
    | false =>
        exact (ensureRenderedPage_renderPage haccepted hupdated hlater).2
          ⟨hread, hdate⟩
  unfold renderUpdate
  rw [htoday, except_ok_bind, hvalid, except_ok_bind, check_eq_ok.2 hexpected,
    except_ok_bind, hparsed, except_ok_bind, requiredPageField_iff.2 ⟨hfields.slug,
      (slugChars_of_validateSlug haccepted.slugOk).1⟩, except_ok_bind, hslugOk,
    except_ok_bind, check_eq_ok.2 (decide_eq_true rfl), except_ok_bind,
    storedOwner_of_at hfields.owner, except_ok_bind, storedStatus_of_at hfields.status,
    except_ok_bind, hfields.updated]
  dsimp only
  rw [check_eq_ok.2 hstored, except_ok_bind, hdecide]
  have hpages : (if changed = true then
      renderPage (.update request) request.target owner status later later
      else renderPage (.update request) request.target owner status updated later) =
      renderPage (.update request) request.target owner status
        (if changed then later else updated) later := by
    cases changed <;> rfl
  rw [hpages, hensure]
  rfl

/-- The page of a repeated update: only the day it was verified is another. -/
def MovesVerified (request : UpdateRequest) (today later page again : Text) : Prop :=
  ∃ slug owner status updated,
    page = renderPage (.update request) slug owner status updated today ∧
      again = renderPage (.update request) slug owner status updated later

/-- The update is accepted once more and finds nothing changed. -/
def Unchanged (D : Type) [Sha256 D] (request : UpdateRequest)
    (today later page : Text) : Prop :=
  ∃ again, renderUpdate D request page later = .ok ⟨again, false⟩ ∧
    MovesVerified request today later page again

/-- An update with all that a new page was made of. -/
structure SameContent (create : CreateRequest) (update : UpdateRequest) : Prop where
  title : update.title = create.title
  pageType : update.pageType = create.pageType
  fact : update.fact = create.fact
  why : update.why = create.why
  howToApply : update.howToApply = create.howToApply
  falsifiedBy : update.falsifiedBy = create.falsifiedBy
  summary : update.summary = create.summary
  related : update.related = create.related

theorem unchanged_iff (hvalid : validateUpdate request = .ok request.target)
    (hexpected : (request.expectedSha256.all fun expected =>
      textDigest D page = expected) = true)
    (hupdated : isIsoDate updated = true) (htoday : isIsoDate today = true)
    (hlater : isIsoDate later = true) (hdate : ¬ later < updated)
    (hpage : page = renderPage (.update request) request.target owner status updated
      today) (hensure : ensureRenderedPage page = .ok ()) :
    (Unchanged D request today later page ↔ ReadBack (.update request)) ∧
      ((∃ again, renderUpdate D request page later = .ok ⟨again, false⟩) ↔
        ReadBack (.update request)) := by
  have haccepted := (validateUpdate_eq_ok hvalid).1
  have hread := ((ensureRenderedPage_renderPage haccepted hupdated htoday).1
    (hpage ▸ hensure)).1
  have hagain (changed : Bool)
      (hchanged : changed = true ↔ ¬ ReadBack (.update request)) :=
    renderUpdate_rendered hvalid hexpected hupdated htoday hlater hdate hpage hread
      changed hchanged
  have hreported {again : Text}
      (h : renderUpdate D request page later = .ok ⟨again, false⟩) :
      ReadBack (.update request) := by
    by_contra hnot
    have hchanged := (hagain true (by simp [hnot])).symm.trans h
    have hflag := congrArg RenderedUpdate.contentChanged (Except.ok.inj hchanged)
    exact Bool.noConfusion hflag
  have hunchanged (hback : ReadBack (.update request)) :
      Unchanged D request today later page :=
    ⟨_, hagain false (by simp [hback]), _, owner, status, updated, hpage, rfl⟩
  refine ⟨⟨?_, hunchanged⟩, ?_, ?_⟩
  · rintro ⟨again, h, -⟩
    exact hreported h
  · rintro ⟨again, h⟩
    exact hreported h
  · intro hback
    obtain ⟨again, h, -⟩ := hunchanged hback
    exact ⟨again, h⟩

theorem validateUpdate_of_renderUpdate {current : Text} {rendered : RenderedUpdate}
    (h : renderUpdate D request current today = .ok rendered) :
    validateUpdate request = .ok request.target := by
  simp only [renderUpdate, except_bind_eq_ok] at h
  obtain ⟨_, _, slug, hslug, _⟩ := h
  rw [hslug, (validateUpdate_eq_ok hslug).2]

/-- On every later day an update finds the page that it or its new page wrote
unchanged, exactly if its title and summary are read back as they were written. -/
theorem repeated_update :
    (∀ (request : UpdateRequest) (current today : Text) (rendered : RenderedUpdate)
      (later : Text), renderUpdate D request current today = .ok rendered →
        request.expectedSha256 = none → isIsoDate later = true → ¬ later < today →
        (Unchanged D request today later rendered.page ↔
          ReadBack (.update request))) ∧
    ∀ (create : CreateRequest) (today page : Text) (request : UpdateRequest)
      (later : Text), renderCreate create today = .ok page →
        SameContent create request → validateUpdateRequest request later = .ok () →
        (request.expectedSha256.all fun expected =>
          textDigest D page = expected) = true → ¬ later < today →
        ((∃ again, renderUpdate D request page later = .ok ⟨again, false⟩) ↔
          ReadBack (.update request)) := by
  constructor
  · intro request current today rendered later h hnone hlater horder
    obtain ⟨fields, owner, status, htoday, haccepted, hstored, hpage, hensure⟩ :=
      renderUpdate_eq_ok h
    have hupdated := of_decide_eq_true hstored.updated
    refine (unchanged_iff (validateUpdate_of_renderUpdate h) ?_ ?_ htoday hlater ?_ hpage
      hensure).1
    · rw [hnone]
      rfl
    · split
      · exact htoday
      · exact hupdated.1
    · split
      · exact horder
      · exact not_lt_trans hupdated.2 horder
  · intro create today page request later h hsame hrequest hexpected horder
    obtain ⟨slug, htoday, haccepted, hpage, hensure⟩ := renderCreate_eq_ok h
    simp only [validateUpdateRequest, except_bind_eq_ok] at hrequest
    obtain ⟨_, hlater, found, hvalid, -⟩ := hrequest
    obtain ⟨hupdateAccepted, rfl⟩ := validateUpdate_eq_ok hvalid
    have hslug : slug = request.target := by
      have htitle := hupdateAccepted.slugOf
      rw [show CommonRequest.title (.update request) = create.title from hsame.title,
        show slugify create.title = .ok slug from haccepted.slugOf] at htitle
      exact Except.ok.inj htitle
    have hrendered : page = renderPage (.update request) request.target create.owner
        .current today today := by
      rw [hpage, hslug]
      unfold renderPage
      simp only [CommonRequest.title, CommonRequest.pageType, CommonRequest.fact,
        CommonRequest.why, CommonRequest.howToApply, CommonRequest.falsifiedBy,
        CommonRequest.summary, CommonRequest.related, hsame.title, hsame.pageType,
        hsame.fact, hsame.why, hsame.howToApply, hsame.falsifiedBy, hsame.summary,
        hsame.related]
    exact (unchanged_iff hvalid hexpected htoday htoday (validateToday_eq_ok hlater)
      horder hrendered hensure).2

end Updates

namespace RepeatSample

local instance : Unicode := Unicode.ascii

/-- No digest is compared in the runs below. -/
local instance : Sha256 Bytes := ⟨id, fun _ => []⟩

open RoundtripWitness (create update updated page today quotedPage)

def laterDay : Text := "2026-08-10".toList

/-- An update with what the page was created from. -/
def repeated : UpdateRequest :=
  { update with
    pageType := create.pageType
    fact := create.fact
    why := create.why
    howToApply := create.howToApply
    falsifiedBy := create.falsifiedBy
    summary := create.summary
    related := create.related }

theorem repeated_update_sample :
    Unchanged Bytes update "2026-08-09".toList laterDay updated.page ∧
      ∃ again, renderUpdate Bytes repeated page laterDay = .ok ⟨again, false⟩ := by
  have hrepeated : validateUpdateRequest repeated laterDay = .ok () := by
    unfold repeated update create laterDay
    repeat rw [String.toList_ofList]
    decide +kernel
  exact ⟨(repeated_update.1 update page "2026-08-09".toList updated laterDay
      RoundtripWitness.page_updated rfl (by decide) (by decide)).2
      ⟨by decide, by decide⟩,
    (repeated_update.2 create today page repeated laterDay RoundtripWitness.page_created
      ⟨rfl, rfl, rfl, rfl, rfl, rfl, rfl, rfl⟩ hrepeated rfl
      (by decide)).2 ⟨by decide, by decide⟩⟩

/-- The same update with its title in quotes. -/
def quotedUpdate : UpdateRequest := { repeated with title := RoundtripWitness.quoted.title }

def written (today : Text) : RenderedUpdate :=
  ⟨renderPage (.update quotedUpdate) "cache-rules".toList .codex .current today today,
    true⟩

theorem quotedUpdate_valid : validateUpdate quotedUpdate = .ok "cache-rules".toList := by
  unfold quotedUpdate repeated RoundtripWitness.quoted update create
  repeat rw [String.toList_ofList]
  decide +kernel

theorem quotedPage_updated :
    renderUpdate Bytes quotedUpdate quotedPage "2026-08-09".toList =
      .ok (written "2026-08-09".toList) := by
  have htoday : validateToday "2026-08-09".toList = .ok () := by decide
  unfold renderUpdate
  rw [htoday, except_ok_bind, quotedUpdate_valid, except_ok_bind]
  unfold written quotedPage renderPage quotedUpdate repeated RoundtripWitness.quoted update
    create today
  repeat rw [String.toList_ofList]
  decide +kernel

theorem written_updated :
    renderUpdate Bytes quotedUpdate (written "2026-08-09".toList).page laterDay =
      .ok (written laterDay) := by
  have htoday : validateToday laterDay = .ok () := by decide
  unfold renderUpdate
  rw [htoday, except_ok_bind, quotedUpdate_valid, except_ok_bind]
  unfold written renderPage quotedUpdate repeated RoundtripWitness.quoted update create
    laterDay
  repeat rw [String.toList_ofList]
  decide +kernel

/-- Every repeat reports a change and moves the day of the last update, also the
first one after the page was created. -/
theorem quoted_title_changes :
    renderCreate RoundtripWitness.quoted today = .ok quotedPage ∧
      renderUpdate Bytes quotedUpdate quotedPage "2026-08-09".toList =
        .ok (written "2026-08-09".toList) ∧
      renderUpdate Bytes quotedUpdate (written "2026-08-09".toList).page laterDay =
        .ok (written laterDay) ∧
      (written laterDay).contentChanged = true :=
  ⟨RoundtripWitness.quotedPage_created, quotedPage_updated, written_updated, rfl⟩

end RepeatSample

end Yams.Wiki
