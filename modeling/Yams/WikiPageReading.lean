/-
Reading a rendered page.  The frontmatter of a page is one line for each key;
the strict reader gets back every value up to the white space around it and
one pair of quotes, which it strips.
-/
import Mathlib.Data.List.TakeWhile
import Yams.Program
import Yams.WikiCheck

namespace Yams.Wiki

section Trim

variable {p : Char → Bool} {text rest : Text} {c : Char}

theorem trimMatches_eq_nil_iff :
    Text.trimMatches p text = [] ↔ ∀ c ∈ text, p c = true := by
  rw [Text.trimMatches, List.reverse_eq_nil_iff, List.dropWhile_eq_nil_iff]
  constructor
  · intro h
    have hall : ∀ c ∈ text.dropWhile p, p c = true :=
      fun c hc => h c (List.mem_reverse.2 hc)
    have hnil : text.dropWhile p = [] := by
      rcases hdrop : text.dropWhile p with _ | ⟨c, rest⟩
      · rfl
      · have hfirst := List.head?_dropWhile_not p text
        rw [hdrop] at hfirst
        have hc := hall c (hdrop ▸ List.mem_cons_self)
        simp [hc] at hfirst
    exact List.dropWhile_eq_nil_iff.1 hnil
  · intro h c hc
    exact h c ((List.dropWhile_suffix p).subset (List.mem_reverse.1 hc))

theorem trimMatches_cons (hc : p c = true) :
    Text.trimMatches p (c :: text) = Text.trimMatches p text := by
  simp [Text.trimMatches, hc]

theorem trimMatches_eq_self (htext : ∀ c ∈ text, p c = false) :
    Text.trimMatches p text = text := by
  have hdrop {text : Text} (h : ∀ c ∈ text, p c = false) :
      text.dropWhile p = text := by
    cases text with
    | nil => rfl
    | cons c rest => simp [h c List.mem_cons_self]
  rw [Text.trimMatches, hdrop htext, hdrop, List.reverse_reverse]
  intro c hc
  exact htext c (List.mem_reverse.1 hc)

theorem trimMatches_append_of_blank (hrest : ∀ c ∈ rest, p c = true) :
    Text.trimMatches p (text ++ rest) = Text.trimMatches p text := by
  simp only [Text.trimMatches, List.dropWhile_append]
  have hreverse : rest.reverse.dropWhile p = [] :=
    List.dropWhile_eq_nil_iff.2 fun c hc => hrest c (List.mem_reverse.1 hc)
  split
  · next hempty =>
      rw [List.isEmpty_iff.1 hempty, List.dropWhile_eq_nil_iff.2 hrest]
  · rw [List.reverse_append, List.dropWhile_append, hreverse]
    rfl

/-- A text that goes on after its first part trims to the same only when
nothing but blanks is added. -/
theorem trimMatches_append_eq_iff (htext : Text.trimMatches p text ≠ []) :
    Text.trimMatches p text = Text.trimMatches p (text ++ rest) ↔
      Text.trimMatches p rest = [] := by
  constructor
  · intro hsame
    by_contra hrest
    have hdropped : (text.dropWhile p).isEmpty = false := by
      rw [List.isEmpty_eq_false_iff]
      intro hempty
      exact htext (trimMatches_eq_nil_iff.2 (List.dropWhile_eq_nil_iff.1 hempty))
    have hkept : (rest.reverse.dropWhile p).isEmpty = false := by
      rw [List.isEmpty_eq_false_iff]
      intro hempty
      exact hrest (trimMatches_eq_nil_iff.2 fun c hc =>
        List.dropWhile_eq_nil_iff.1 hempty c (List.mem_reverse.2 hc))
    have hlength := congrArg List.length hsame
    simp only [Text.trimMatches, List.dropWhile_append, hdropped,
      List.reverse_append, hkept, Bool.false_eq_true, if_false,
      List.length_reverse, List.length_append] at hlength
    have hle : ((text.dropWhile p).reverse.dropWhile p).length ≤
        (text.dropWhile p).length := by
      have h := (List.dropWhile_sublist (l := (text.dropWhile p).reverse) p).length_le
      rwa [List.length_reverse] at h
    have hpositive : 0 < (rest.reverse.dropWhile p).length :=
      List.length_pos_iff.2 (List.isEmpty_eq_false_iff.1 hkept)
    omega
  · intro hrest
    exact (trimMatches_append_of_blank (trimMatches_eq_nil_iff.1 hrest)).symm

theorem strictUnquote_eq_self
    (htext : ∀ c ∈ text, c ≠ '\'' ∧ c ≠ '"') : strictUnquote text = text := by
  cases text with
  | nil => rfl
  | cons c rest =>
      have hc := htext c List.mem_cons_self
      simp [strictUnquote, unquote, hc.1, hc.2]

end Trim

section Lines

theorem pythonLines_append_newline {line : Text}
    (hline : ∀ c ∈ line, isSplitlinesBoundary c = false) (rest : Text) :
    pythonLines false (line ++ '\n' :: rest) =
      ⟨line, line ++ '\n' :: rest⟩ :: pythonLines false rest := by
  induction line with
  | nil =>
      have hnewline : isSplitlinesBoundary '\n' = true := by decide
      simp [pythonLines, hnewline]
  | cons c line ih =>
      have hc := hline c List.mem_cons_self
      have hrest := ih fun d hd => hline d (List.mem_cons_of_mem _ hd)
      simp [pythonLines, hc, hrest]

theorem map_content_unlines {lines : List Text}
    (hlines : ∀ line ∈ lines, ∀ c ∈ line, isSplitlinesBoundary c = false)
    (rest : Text) :
    (pythonLines false (unlines '\n' lines ++ rest)).map SourceLine.content =
      lines ++ (pythonLines false rest).map SourceLine.content := by
  induction lines with
  | nil => rfl
  | cons line lines ih =>
      have hline := hlines line List.mem_cons_self
      have hrest := ih fun other hother =>
        hlines other (List.mem_cons_of_mem _ hother)
      rw [unlines_cons, List.append_assoc, List.cons_append,
        pythonLines_append_newline hline, List.map_cons, hrest,
        List.cons_append]

theorem frontmatterBlock_eq_some {lines : List SourceLine}
    {block rest : List Text} (hblock : frontmatterMarker ∉ block)
    (hlines : lines.map SourceLine.content =
      block ++ frontmatterMarker :: rest) :
    ∃ inside after, frontmatterBlock lines = some (inside, after) ∧
      inside.map SourceLine.content = block := by
  induction block generalizing lines with
  | nil =>
      cases lines with
      | nil => cases hlines
      | cons line lines =>
          rw [List.map_cons, List.nil_append, List.cons.injEq] at hlines
          exact ⟨[], lines, by simp [frontmatterBlock, hlines.1], rfl⟩
  | cons first block ih =>
      cases lines with
      | nil => cases hlines
      | cons line lines =>
          rw [List.map_cons, List.cons_append, List.cons.injEq] at hlines
          obtain ⟨hfirst, hrest⟩ := hlines
          obtain ⟨inside, after, hinside, hcontent⟩ :=
            ih (fun hmem => hblock (List.mem_cons_of_mem _ hmem)) hrest
          have hne : line.content ≠ frontmatterMarker := by
            rw [hfirst]
            exact fun heq => hblock (heq ▸ List.mem_cons_self)
          refine ⟨line :: inside, after, ?_, ?_⟩
          · simp [frontmatterBlock, hne, hinside]
          · rw [List.map_cons, hfirst, hcontent]

end Lines

section Fields

variable {fields : Fields} {key other value : Text}

@[simp] theorem fields_get_insert_self :
    (fields.insert key value).get key = some value := by
  simp [Fields.insert, Fields.get]

theorem fields_get_insert_of_ne (hne : other ≠ key) :
    (fields.insert key value).get other = fields.get other := by
  have hfind : (fields.filter fun field => field.1 ≠ key).find?
      (fun field => field.1 = other) =
        fields.find? fun field => field.1 = other := by
    rw [List.find?_filter]
    congr 1
    funext field
    by_cases hfield : field.1 = other
    · simp [hfield, hne]
    · simp [hfield]
  simp only [Fields.insert, Fields.get]
  rw [List.find?_cons_of_neg (by simpa using Ne.symm hne), hfind]

/-- The line of a field. -/
def fieldText (entry : Text × Text) : Text := entry.1 ++ ": ".toList ++ entry.2

/-- A value as the reader takes it from its line. -/
def readValue (value : Text) : Text := strictUnquote (Text.trim value)

def storeEntries (fields : Fields) (entries : List (Text × Text)) : Fields :=
  entries.foldl (fun fields entry =>
    fields.insert entry.1 (readValue entry.2)) fields

/-- What a key has to be for its line to be read as a field. -/
def plainKey (key : Text) : Bool :=
  legalKey key ∧ ':' ∉ key ∧ key.head?.all fun c =>
    !(Text.isWhitespace c || c = '-')

theorem canonicalKeys_plain : canonicalKeys.all plainKey = true := by decide

theorem strictFieldLine_fieldText (hkey : plainKey key = true) :
    strictFieldLine (fieldText (key, value)) = some (key, Text.trim value) := by
  obtain ⟨hlegal, hcolon, -⟩ := of_decide_eq_true hkey
  have htext : fieldText (key, value) = key ++ ':' :: (' ' :: value) := by
    simp [fieldText]
  have htrim : Text.trim (' ' :: value) = Text.trim value :=
    trimMatches_cons (by decide)
  rw [htext, strictFieldLine, fieldLine, Text.splitOnce_append hcolon]
  simp [hlegal, htrim]

theorem fieldText_head (hkey : plainKey key = true) (value : Text) :
    ∃ c rest, fieldText (key, value) = c :: rest ∧
      Text.isWhitespace c = false ∧ c ≠ '-' := by
  obtain ⟨hlegal, -, hhead⟩ := of_decide_eq_true hkey
  cases key with
  | nil => cases hlegal
  | cons c rest =>
      refine ⟨c, _, rfl, ?_⟩
      simpa using hhead

theorem wikiFields_cons (hkey : key ∈ canonicalKeys)
    (hnew : fields.get key = none) (rest : List Text) :
    wikiFields fields (fieldText (key, value) :: rest) =
      wikiFields (fields.insert key (readValue value)) rest := by
  have hplain := List.all_eq_true.1 canonicalKeys_plain key hkey
  obtain ⟨c, tail, htext, hspace, -⟩ := fieldText_head hplain value
  have hblank : Text.trim (fieldText (key, value)) ≠ [] := by
    rw [Text.trim, Ne, trimMatches_eq_nil_iff, htext]
    intro hall
    rw [hall c List.mem_cons_self] at hspace
    cases hspace
  have hindent : ¬ ((fieldText (key, value)).head? = some ' ' ∨
      (fieldText (key, value)).head? = some '\t') := by
    rw [htext]
    rintro (heq | heq)
    · rw [List.head?_cons, Option.some.injEq] at heq
      subst heq
      revert hspace
      decide
    · rw [List.head?_cons, Option.some.injEq] at heq
      subst heq
      revert hspace
      decide
  have hcanonical : canonicalKey key = true := by
    simpa [canonicalKey] using hkey
  rw [wikiFields, if_neg hblank, if_neg hindent,
    strictFieldLine_fieldText hplain]
  simp [hcanonical, hnew, readValue]

theorem wikiFields_entries {entries : List (Text × Text)}
    (hkeys : ∀ entry ∈ entries, entry.1 ∈ canonicalKeys)
    (hnodup : (entries.map Prod.fst).Nodup)
    (hnew : ∀ entry ∈ entries, fields.get entry.1 = none) :
    wikiFields fields (entries.map fieldText) =
      .ok (storeEntries fields entries) := by
  induction entries generalizing fields with
  | nil => rfl
  | cons entry entries ih =>
      obtain ⟨key, value⟩ := entry
      rw [List.map_cons, List.nodup_cons] at hnodup
      rw [List.map_cons, wikiFields_cons (hkeys _ List.mem_cons_self)
        (hnew _ List.mem_cons_self), ih]
      · rfl
      · exact fun other hother => hkeys other (List.mem_cons_of_mem _ hother)
      · exact hnodup.2
      · intro other hother
        rw [fields_get_insert_of_ne]
        · exact hnew other (List.mem_cons_of_mem _ hother)
        · intro heq
          exact hnodup.1 (heq ▸ List.mem_map_of_mem hother)

theorem get_storeEntries_of_not_mem {entries : List (Text × Text)}
    (hkey : key ∉ entries.map Prod.fst) :
    (storeEntries fields entries).get key = fields.get key := by
  induction entries generalizing fields with
  | nil => rfl
  | cons entry entries ih =>
      rw [List.map_cons, List.mem_cons, not_or] at hkey
      calc (storeEntries fields (entry :: entries)).get key
          = (storeEntries (fields.insert entry.1 (readValue entry.2))
              entries).get key := rfl
        _ = (fields.insert entry.1 (readValue entry.2)).get key := ih hkey.2
        _ = fields.get key := fields_get_insert_of_ne hkey.1

theorem get_storeEntries {entries : List (Text × Text)}
    (hnodup : (entries.map Prod.fst).Nodup) (hmem : (key, value) ∈ entries) :
    (storeEntries fields entries).get key = some (readValue value) := by
  induction entries generalizing fields with
  | nil => cases hmem
  | cons entry entries ih =>
      rw [List.map_cons, List.nodup_cons] at hnodup
      change (storeEntries (fields.insert entry.1 (readValue entry.2))
        entries).get key = some (readValue value)
      rcases List.mem_cons.1 hmem with rfl | hrest
      · rw [get_storeEntries_of_not_mem hnodup.1, fields_get_insert_self]
      · exact ih hnodup.2 hrest

end Fields

section Rendered

variable {request : CommonRequest} {slug updated verified : Text}
  {owner : Owner} {status : Status}

/-- The fields of a rendered page. -/
def pageEntries (request : CommonRequest) (slug : Text) (owner : Owner)
    (status : Status) (updated verified : Text) : List (Text × Text) :=
  [("slug".toList, slug), ("title".toList, request.title),
    ("type".toList, request.pageType.asStr), ("status".toList, status.asStr),
    ("owner".toList, owner.asStr), ("updated".toList, updated),
    ("verified".toList, verified), ("summary".toList, request.summary)]

/-- The text of a rendered page after its frontmatter. -/
def pageBody (request : CommonRequest) : Text :=
  '\n' :: request.fact ++
    "\n\n**Why:** ".toList ++ request.why ++
    "\n\n**How to apply:** ".toList ++ request.howToApply ++
    "\n\n**Falsified by:** ".toList ++ request.falsifiedBy ++
    "\n".toList ++ relatedLine request.related

theorem renderPage_eq :
    renderPage request slug owner status updated verified =
      unlines '\n' (frontmatterMarker ::
        (pageEntries request slug owner status updated verified).map fieldText ++
          [frontmatterMarker]) ++ pageBody request := by
  have hslug : "---\nslug: ".toList =
      frontmatterMarker ++ '\n' :: ("slug".toList ++ ": ".toList) := by decide
  have htitle : "\ntitle: ".toList = '\n' :: ("title".toList ++ ": ".toList) := by
    decide
  have htype : "\ntype: ".toList = '\n' :: ("type".toList ++ ": ".toList) := by
    decide
  have hstatus : "\nstatus: ".toList =
      '\n' :: ("status".toList ++ ": ".toList) := by decide
  have howner : "\nowner: ".toList = '\n' :: ("owner".toList ++ ": ".toList) := by
    decide
  have hupdated : "\nupdated: ".toList =
      '\n' :: ("updated".toList ++ ": ".toList) := by decide
  have hverified : "\nverified: ".toList =
      '\n' :: ("verified".toList ++ ": ".toList) := by decide
  have hsummary : "\nsummary: ".toList =
      '\n' :: ("summary".toList ++ ": ".toList) := by decide
  have hclose : "\n---\n\n".toList =
      '\n' :: (frontmatterMarker ++ ['\n', '\n']) := by decide
  unfold renderPage pageBody pageEntries
  rw [hslug, htitle, htype, hstatus, howner, hupdated, hverified, hsummary,
    hclose]
  simp only [unlines_cons, unlines_nil, List.map_cons, List.map_nil, fieldText, List.append_assoc, List.cons_append,
    List.nil_append]

/-- The values of a page, each on one line. -/
def OneLine (entries : List (Text × Text)) : Prop :=
  ∀ entry ∈ entries, ∀ c ∈ entry.2, isSplitlinesBoundary c = false

theorem keys_pageEntries :
    (pageEntries request slug owner status updated verified).map Prod.fst =
      canonicalKeys := rfl

theorem canonicalKeys_nodup : canonicalKeys.Nodup := by decide

theorem requireKeys_eq_ok {fields : Fields} {keys : List Text}
    (hkeys : ∀ key ∈ keys, (fields.get key).isSome) :
    requireKeys fields keys = .ok () := by
  induction keys with
  | nil => rfl
  | cons key keys ih =>
      have hkey := hkeys key List.mem_cons_self
      have hrest := ih fun other hother =>
        hkeys other (List.mem_cons_of_mem _ hother)
      rw [requireKeys, if_neg (by simp [Option.isSome_iff_ne_none.1 hkey]),
        hrest]

theorem fieldText_oneLine {entry : Text × Text}
    (hkey : entry.1 ∈ canonicalKeys)
    (hvalue : ∀ c ∈ entry.2, isSplitlinesBoundary c = false) :
    ∀ c ∈ fieldText entry, isSplitlinesBoundary c = false := by
  have hkeys : (canonicalKeys.all fun key =>
      key.all fun c => !isSplitlinesBoundary c) = true := by decide
  have hcolon : (": ".toList.all fun c => !isSplitlinesBoundary c) = true := by
    decide
  intro c hc
  simp only [fieldText, List.mem_append] at hc
  rcases hc with (hc | hc) | hc
  · simpa using List.all_eq_true.1 (List.all_eq_true.1 hkeys _ hkey) c hc
  · simpa using List.all_eq_true.1 hcolon c hc
  · exact hvalue c hc

theorem fieldText_ne_marker {entry : Text × Text}
    (hkey : entry.1 ∈ canonicalKeys) : fieldText entry ≠ frontmatterMarker := by
  have hplain := List.all_eq_true.1 canonicalKeys_plain _ hkey
  obtain ⟨c, rest, htext, -, hne⟩ := fieldText_head hplain entry.2
  have hmarker : frontmatterMarker = '-' :: "--".toList := by decide
  intro heq
  rw [htext, hmarker, List.cons.injEq] at heq
  exact hne heq.1

/-- The strict reader gets every field of a rendered page. -/
theorem parseFrontmatterFields_renderPage
    (hlines : OneLine (pageEntries request slug owner status updated verified)) :
    parseFrontmatterFields
        (renderPage request slug owner status updated verified) =
      .ok (storeEntries []
        (pageEntries request slug owner status updated verified)) := by
  have hkeysEq : (pageEntries request slug owner status updated
      verified).map Prod.fst = canonicalKeys := keys_pageEntries
  rw [renderPage_eq]
  generalize pageEntries request slug owner status updated verified = entries
    at hlines hkeysEq
  have hkeys : ∀ entry ∈ entries, entry.1 ∈ canonicalKeys := by
    intro entry hentry
    rw [← hkeysEq]
    exact List.mem_map_of_mem hentry
  have hnodup : (entries.map Prod.fst).Nodup := hkeysEq ▸ canonicalKeys_nodup
  generalize htext : unlines '\n' (frontmatterMarker ::
    entries.map fieldText ++ [frontmatterMarker]) ++ pageBody request = text
  have hunmarked : unmarked text = text := by
    rw [← htext]
    rfl
  have hcontent : (pythonLines false text).map SourceLine.content =
      frontmatterMarker :: (entries.map fieldText ++ frontmatterMarker ::
        (pythonLines false (pageBody request)).map SourceLine.content) := by
    rw [← htext, map_content_unlines]
    · simp
    · intro line hline
      have hmarker : frontmatterMarker.all (fun c => !isSplitlinesBoundary c) =
          true := by decide
      simp only [List.cons_append, List.mem_cons, List.mem_append,
        List.not_mem_nil, or_false] at hline
      rcases hline with rfl | hline | rfl
      · simpa using List.all_eq_true.1 hmarker
      · obtain ⟨entry, hentry, rfl⟩ := List.mem_map.1 hline
        exact fieldText_oneLine (hkeys entry hentry) (hlines entry hentry)
      · simpa using List.all_eq_true.1 hmarker
  have hblock : frontmatterMarker ∉ entries.map fieldText := by
    intro hmem
    obtain ⟨entry, hentry, heq⟩ := List.mem_map.1 hmem
    exact fieldText_ne_marker (hkeys entry hentry) heq
  rcases hpython : pythonLines false text with _ | ⟨first, lines⟩
  · rw [hpython] at hcontent
    cases hcontent
  rw [hpython, List.map_cons, List.cons.injEq] at hcontent
  obtain ⟨inside, after, hinside, hlinesEq⟩ :=
    frontmatterBlock_eq_some hblock hcontent.2
  have hfields : wikiFields [] (inside.map SourceLine.content) =
      .ok (storeEntries [] entries) := by
    rw [hlinesEq]
    exact wikiFields_entries hkeys hnodup fun _ _ => rfl
  have hrequired : requireKeys (storeEntries [] entries) canonicalKeys =
      .ok () := by
    apply requireKeys_eq_ok
    intro key hkey
    rw [← hkeysEq] at hkey
    obtain ⟨entry, hentry, rfl⟩ := List.mem_map.1 hkey
    rw [get_storeEntries hnodup hentry]
    rfl
  simp [parseFrontmatterFields, hunmarked, hpython, hcontent.1, hinside,
    hfields, hrequired, bind, Except.bind, pure, Except.pure]

end Rendered

section Values

/-- A character that the reader keeps wherever it stands in a value. -/
def plainChar (c : Char) : Prop :=
  Text.isWhitespace c = false ∧ c ≠ '\'' ∧ c ≠ '"' ∧
    isSplitlinesBoundary c = false

theorem readValue_eq_self {value : Text} (hvalue : ∀ c ∈ value, plainChar c) :
    readValue value = value := by
  have htrim : Text.trim value = value :=
    trimMatches_eq_self fun c hc => (hvalue c hc).1
  rw [readValue, htrim]
  exact strictUnquote_eq_self fun c hc => ⟨(hvalue c hc).2.1, (hvalue c hc).2.2.1⟩

theorem isSlugChar_plain {c : Char} (hc : isSlugChar c = true) : plainChar c := by
  have hrange := isSlugChar_toNat hc
  refine ⟨?_, ?_, ?_, ?_⟩
  · exact decide_eq_false (by omega)
  · rintro rfl
    revert hrange
    decide
  · rintro rfl
    revert hrange
    decide
  · exact decide_eq_false (by omega)

theorem slug_plain {slug : Text} (hslug : validateSlug slug = .ok ()) :
    ∀ c ∈ slug, plainChar c := fun c hc =>
  isSlugChar_plain
    (List.all_eq_true.1 (slugChars_of_validateSlug hslug).2 c hc)

/-- The names of the enumerations are slugs. -/
theorem pageType_plain (pageType : PageType) : ∀ c ∈ pageType.asStr, plainChar c := by
  have hall : pageType.asStr.all isSlugChar = true := by
    cases pageType <;> decide
  exact fun c hc => isSlugChar_plain (List.all_eq_true.1 hall c hc)

theorem owner_plain (owner : Owner) : ∀ c ∈ owner.asStr, plainChar c := by
  have hall : owner.asStr.all isSlugChar = true := by
    cases owner <;> decide
  exact fun c hc => isSlugChar_plain (List.all_eq_true.1 hall c hc)

theorem status_plain (status : Status) : ∀ c ∈ status.asStr, plainChar c := by
  have hall : status.asStr.all isSlugChar = true := by
    cases status <;> decide
  exact fun c hc => isSlugChar_plain (List.all_eq_true.1 hall c hc)

theorem characterProblem_eq_none {value : Text} (h : characterProblem value = none) :
    ∀ c ∈ value, isSplitlinesBoundary c = false ∧ isControl c = false := by
  induction value with
  | nil => simp
  | cons c rest ih =>
      by_cases hboundary : isSplitlinesBoundary c = true
      · simp [characterProblem, hboundary] at h
      · by_cases hcontrol : isControl c = true
        · simp [characterProblem, hboundary, hcontrol] at h
        · simp only [characterProblem, hboundary, hcontrol] at h
          intro d hd
          rcases List.mem_cons.1 hd with rfl | hrest
          · exact ⟨by simpa using hboundary, by simpa using hcontrol⟩
          · exact ih h d hrest

theorem scalar_oneLine {field value : Text}
    (h : validateFrontmatterScalar field value = .ok ()) :
    ∀ c ∈ value, isSplitlinesBoundary c = false := by
  unfold validateFrontmatterScalar at h
  split at h
  · cases h
  next hproblem =>
  unfold scalarProblem at hproblem
  split at hproblem
  · cases hproblem
  split at hproblem
  · cases hproblem
  next hcharacters =>
  exact fun c hc => (characterProblem_eq_none hcharacters c hc).1

variable [Unicode]

theorem isDecimalNumber_plain {c : Char} (hc : isDecimalNumber c = true) :
    plainChar c := by
  have hcategory := of_decide_eq_true hc
  have hspace := Unicode.decimalNumber_visible c hcategory
  have hascii := Unicode.decimalNumber_ascii c
  have hrange : c.toNat < 0x80 → 0x30 ≤ c.toNat := fun h => (hascii h hcategory).1
  refine ⟨hspace, ?_, ?_, ?_⟩
  · rintro rfl
    revert hrange
    decide
  · rintro rfl
    revert hrange
    decide
  · have hnot := of_decide_eq_false hspace
    exact decide_eq_false (by omega)

theorem isoDate_plain {value : Text} (h : isIsoDate value = true) :
    ∀ c ∈ value, plainChar c := by
  obtain ⟨-, hall⟩ := of_decide_eq_true h
  intro c hc
  rw [← List.zipIdx_map_fst 0 value] at hc
  obtain ⟨⟨d, index⟩, hmem, rfl⟩ := List.mem_map.1 hc
  have hd := List.all_eq_true.1 hall _ hmem
  simp only at hd
  split at hd
  · have hdash : isSlugChar '-' = true := by decide
    rw [of_decide_eq_true hd]
    exact isSlugChar_plain hdash
  · exact isDecimalNumber_plain hd

end Values

section Checkers

variable [Unicode]

omit [Unicode] in
@[simp] theorem check_eq_ok {condition : Bool} {message : Text} :
    check condition message = .ok () ↔ condition = true := by
  unfold check
  cases condition <;> simp

/-- What an accepted page says. -/
structure ReadPage (source : Text) (wiki : ParsedWikiPage) : Prop where
  fields : parseFrontmatterFields source = .ok wiki.fields
  slug : wiki.slug = Fields.at wiki.fields "slug".toList
  title : wiki.title = Fields.at wiki.fields "title".toList
  summary : wiki.summary = Fields.at wiki.fields "summary".toList
  pageType : PageType.parse (Fields.at wiki.fields "type".toList) =
    .ok wiki.pageType
  status : Status.parse (Fields.at wiki.fields "status".toList) =
    .ok wiki.status
  owner : Owner.parse (Fields.at wiki.fields "owner".toList) = .ok wiki.owner
  updated : wiki.updated = Fields.at wiki.fields "updated".toList
  verified : wiki.verified = Fields.at wiki.fields "verified".toList

omit [Unicode] in
theorem requiredPageField_eq_ok {fields : Fields} {field value : Text}
    (h : requiredPageField fields field = .ok value) :
    value = Fields.at fields field := by
  unfold requiredPageField at h
  split at h
  · cases h
  · exact (Except.ok.inj h).symm

theorem parseWikiPage_eq_ok {source : Text} {wiki : ParsedWikiPage}
    (h : parseWikiPage source = .ok wiki) : ReadPage source wiki := by
  simp only [parseWikiPage, except_bind_eq_ok] at h
  obtain ⟨fields, hfields, slug, hslug, -, -, title, htitle, -, -, summary,
    hsummary, -, -, pageType, hpageType, status, hstatus, owner, howner,
    updated, hupdated, verified, hverified, -, -, -, -, -, -, hwiki⟩ := h
  have hresult := Except.ok.inj hwiki
  subst hresult
  exact
    { fields := hfields
      slug := requiredPageField_eq_ok hslug
      title := requiredPageField_eq_ok htitle
      summary := requiredPageField_eq_ok hsummary
      pageType := hpageType
      status := hstatus
      owner := howner
      updated := requiredPageField_eq_ok hupdated
      verified := requiredPageField_eq_ok hverified }

theorem ensureRenderedPage_eq_ok {page : Text}
    (h : ensureRenderedPage page = .ok ()) :
    ∃ wiki, parseWikiPage page = .ok wiki ∧
      sameFields wiki.fields (parseFrontmatter page).fields = true := by
  simp only [ensureRenderedPage, except_bind_eq_ok] at h
  obtain ⟨wiki, hwiki, _, hsame, _⟩ := h
  exact ⟨wiki, hwiki, check_eq_ok.1 hsame⟩

end Checkers

end Yams.Wiki
