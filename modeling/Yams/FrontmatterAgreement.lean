/-
The two frontmatter readers: both cut a source into the same lines, and what the
strict one of the wiki accepts the one of the search reads alike.
-/
import Yams.Splitlines
import Yams.WrittenPage

namespace Yams.Wiki

section Blocks

theorem closedBlock_of_frontmatterBlock {lines : List Line}
    {sources block after : List SourceLine}
    (hlines : lines.map Line.content = sources.map SourceLine.content)
    (h : frontmatterBlock sources = some (block, after)) :
    ∃ inside close rest, closedBlock lines = some (inside, close, rest) ∧
      inside.map Line.content = block.map SourceLine.content := by
  induction sources generalizing lines block after with
  | nil => cases h
  | cons first sources ih =>
      obtain ⟨line, lines, rfl⟩ : ∃ line rest, lines = line :: rest := by
        cases lines with
        | nil => cases hlines
        | cons line lines => exact ⟨line, lines, rfl⟩
      rw [List.map_cons, List.map_cons, List.cons.injEq] at hlines
      obtain ⟨hcontent, hlines⟩ := hlines
      rw [frontmatterBlock] at h
      rw [closedBlock, hcontent]
      split at h
      · next hmarker =>
          obtain ⟨rfl, rfl⟩ := Prod.mk.inj (Option.some.inj h)
          rw [if_pos hmarker]
          exact ⟨[], line, lines, rfl, rfl⟩
      · next hmarker =>
          obtain ⟨⟨inner, last⟩, hblock, heq⟩ := Option.map_eq_some_iff.1 h
          obtain ⟨rfl, rfl⟩ := Prod.mk.inj heq
          obtain ⟨inside, close, rest, hclosed, hinside⟩ := ih hlines hblock
          rw [if_neg hmarker, hclosed]
          refine ⟨line :: inside, close, rest, rfl, ?_⟩
          rw [List.map_cons, List.map_cons, hcontent, hinside]

theorem frontmatterFields_of_wikiFields {lines : List Line} {fields result : Fields}
    (h : wikiFields fields (lines.map Line.content) = .ok result)
    (hresult : result ≠ []) :
    frontmatterFields fields lines = some result := by
  induction lines generalizing fields with
  | nil =>
      obtain rfl : fields = result := Except.ok.inj h
      cases fields with
      | nil => exact absurd rfl hresult
      | cons field fields => rfl
  | cons line lines ih =>
      rw [List.map_cons, wikiFields] at h
      rw [frontmatterFields]
      split at h
      · cases h
      next hblank =>
      have hfull : line.isBlank ≠ true := by
        unfold Line.isBlank
        simpa using hblank
      rw [if_neg hfull]
      split at h
      · next hindent =>
          rw [if_pos hindent]
          split at h
          · cases h
          next hfields =>
          rw [if_neg hfields]
          exact ih h
      next hindent =>
      rw [if_neg hindent]
      split at h
      · cases h
      next key value hfield =>
      rw [show fieldLine line.content = some (key, value) from hfield]
      split at h
      · cases h
      split at h
      · cases h
      exact ih h

/-- What the strict reader accepts, the reader of the search reads alike. -/
theorem parseFrontmatter_of_strict {source : Text} {fields : Fields}
    (h : parseFrontmatterFields source = .ok fields) :
    (parseFrontmatter source).fields = fields := by
  unfold parseFrontmatterFields at h
  have hcontents := contents_linesWithSeparators (unmarked source)
  split at h
  · cases h
  next first sources hsources =>
  split at h
  · cases h
  next hmarker =>
  split at h
  · cases h
  next block after hblock =>
  obtain ⟨found, hfound, h⟩ := except_bind_eq_ok.1 h
  obtain ⟨_, hkeys, h⟩ := except_bind_eq_ok.1 h
  obtain rfl : found = fields := Except.ok.inj h
  have hne : found ≠ [] := by
    rintro rfl
    cases hkeys
  rw [hsources] at hcontents
  obtain ⟨line, lines, hlines⟩ : ∃ line rest,
      linesWithSeparators (unmarked source) = line :: rest := by
    cases hsplit : linesWithSeparators (unmarked source) with
    | nil =>
        rw [hsplit] at hcontents
        cases hcontents
    | cons line lines => exact ⟨line, lines, rfl⟩
  rw [hlines, List.map_cons, List.map_cons, List.cons.injEq] at hcontents
  obtain ⟨hcontent, hrest⟩ := hcontents
  obtain ⟨inside, close, rest, hclosed, hinside⟩ :=
    closedBlock_of_frontmatterBlock hrest hblock
  have hfields := frontmatterFields_of_wikiFields (hinside ▸ hfound) hne
  unfold parseFrontmatter
  rw [show (Text.stripPrefix [byteOrderMark] source).getD source = unmarked source
    from rfl]
  simp only [hlines, hcontent, not_not.1 hmarker, if_true, hclosed, hfields]

/-- Two maps with the same entries in the same order are equal. -/
theorem mem_of_mem_unquote {value : Text} {c : Char}
    (h : c ∈ unquote value) : c ∈ value := by
  cases value with
  | nil => exact h
  | cons quote rest =>
      rw [unquote] at h
      split at h
      · exact List.mem_cons_of_mem _ (List.dropLast_subset _ h)
      · exact h

theorem sameFields_self (fields : Fields) : sameFields fields fields = true := by
  unfold sameFields
  simp

theorem check_true (message : Text) : check true message = .ok () := rfl

variable [Unicode]

/-- Of a page that can be read only the number of its fields is in question. -/
theorem ensureRenderedPage_of_wiki {page : Text} {wiki : ParsedWikiPage}
    (h : parseWikiPage page = .ok wiki) :
    ensureRenderedPage page = check (wiki.fields.length = canonicalKeys.length)
      ("rendered page does not contain exactly one of every canonical " ++
        "frontmatter key").toList := by
  have hfields := parseFrontmatter_of_strict (parseWikiPage_eq_ok h).fields
  unfold ensureRenderedPage
  rw [h]
  rw [except_ok_bind]
  dsimp only
  rw [hfields, sameFields_self, check_true, except_ok_bind]

/-- What the strict reader accepts both read alike, so that a rendered page is
never refused for a disagreement; their lines have the same contents. -/
theorem frontmatter_readers_agree :
    (∀ source fields, parseFrontmatterFields source = .ok fields →
      (parseFrontmatter source).fields = fields) ∧
    (∀ page wiki, parseWikiPage page = .ok wiki →
      ensureRenderedPage page = check (wiki.fields.length = canonicalKeys.length)
        ("rendered page does not contain exactly one of every canonical " ++
          "frontmatter key").toList) ∧
    ∀ source, (pythonLines false source).map SourceLine.content =
      (linesWithSeparators source).map Line.content := by
  exact ⟨fun _ _ h => parseFrontmatter_of_strict h,
    fun _ _ h => ensureRenderedPage_of_wiki h,
    fun source => (contents_linesWithSeparators source).symm⟩

end Blocks

namespace ReadersSample

local instance : Unicode := Unicode.ascii

/-- A continuation line, a quoted value and five kinds of separators. -/
def page : Text :=
  ("---\r\nslug: a-b\r\n  more\r\ntitle: 'A b'\x0btype: gotcha\rstatus: current\n" ++
    "owner: codex\u2028updated: 2026-08-01\nverified: 2026-08-01\nsummary: s\n---\n\nx").toList

def fields : Fields :=
  [("summary".toList, "s".toList), ("verified".toList, "2026-08-01".toList),
    ("updated".toList, "2026-08-01".toList), ("owner".toList, "codex".toList),
    ("status".toList, "current".toList), ("type".toList, "gotcha".toList),
    ("title".toList, "A b".toList), ("slug".toList, "a-b".toList)]

theorem frontmatter_readers_agree_page : (parseFrontmatter page).fields = fields := by
  have hstrict : parseFrontmatterFields page = .ok fields := by
    unfold page
    rw [String.toList_append]
    repeat rw [String.toList_ofList]
    decide
  exact frontmatter_readers_agree.1 page fields hstrict

end ReadersSample

end Yams.Wiki
