/-
The name a search result shows for a page.  The title is not stored: it is read
back from the embedding text of a chunk, which begins with it, up to the first
blank line.
-/
import Yams.ChunkPacking
import Yams.FrontmatterAgreement
import Yams.Occurrence
import Yams.WikiPageReading

namespace Yams

/-- The first part of a text that is split at its blank lines. -/
def firstPart (text : Text) : Text :=
  ((splitOnceAt "\n\n".toList text).map Prod.fst).getD text

/-- The name a page has without a title. -/
def stemName (path : PathBuf) : Text :=
  ((PathBytes.fileStem path).bind Text.fromUtf8).getD "page".toList

/-- The displayed name of a page, from the embedding text stored with a chunk. -/
def displayTitle (path : PathBuf) (embedText : Option Text) : Text :=
  match (embedText.map fun text => Text.trim (firstPart text)).filter
      fun title => title ≠ [] with
  | some title => title
  | none => stemName path

/-- The title survives the way through the embedding text: nothing but
whitespace follows its first blank line, or what precedes that line is blank and
the name of the file stands for it. -/
def Recoverable (path : PathBuf) (title : Text) : Prop :=
  if Text.trim (firstPart title) = [] then
    Text.trim (stemName path) = Text.trim title
  else Text.trim (title.drop (firstPart title).length) = []

instance (path : PathBuf) (title : Text) : Decidable (Recoverable path title) :=
  inferInstanceAs (Decidable (ite _ _ _))

theorem firstPart_eq_of_some {text before after : Text}
    (h : splitOnceAt "\n\n".toList text = some (before, after)) :
    firstPart text = before := by
  rw [firstPart, h]
  rfl

theorem firstPart_eq_self {text : Text} (h : ¬ "\n\n".toList <:+: text) :
    firstPart text = text := by
  rw [firstPart, splitOnceAt_eq_none_iff.2 h]
  rfl

theorem firstPart_prefix (text : Text) : firstPart text <+: text := by
  rcases hsplit : splitOnceAt "\n\n".toList text with _ | ⟨before, after⟩
  · rw [firstPart, hsplit]
    exact List.prefix_refl text
  · rw [firstPart_eq_of_some hsplit]
    exact ⟨"\n\n".toList ++ after,
      (List.append_assoc before "\n\n".toList after) ▸ (splitOnceAt_eq_some hsplit).symm⟩

/-- A title without a blank line is found in front of the text it heads, but for
a line feed at its end, which the blank line takes. -/
theorem firstPart_append {title : Text} (text : Text)
    (htitle : ¬ "\n\n".toList <:+: title) :
    firstPart (title ++ "\n\n".toList ++ text) = title ∨
      firstPart (title ++ "\n\n".toList ++ text) ++ ['\n'] = title := by
  induction title with
  | nil =>
      left
      have hsplit : splitOnceAt "\n\n".toList ([] ++ "\n\n".toList ++ text) =
          some ([], text) := rfl
      exact firstPart_eq_of_some hsplit
  | cons c rest ih =>
      rw [List.infix_cons_iff, not_or] at htitle
      by_cases hprefix : "\n\n".toList <+: c :: (rest ++ "\n\n".toList ++ text)
      · right
        have hrest : rest = [] := by
          cases rest with
          | nil => rfl
          | cons d rest =>
              rcases hprefix with ⟨after, hafter⟩
              injection hafter with hc hafter
              injection hafter with hd _
              exact absurd ⟨rest, by rw [← hc, ← hd]; rfl⟩ htitle.1
        subst hrest
        have hc : c = '\n' := by
          rcases hprefix with ⟨after, hafter⟩
          exact (List.cons.inj hafter).1.symm
        rw [hc]
        have hsplit : splitOnceAt "\n\n".toList (['\n'] ++ "\n\n".toList ++ text) =
            some ([], '\n' :: text) := rfl
        rw [firstPart_eq_of_some hsplit]
        rfl
      · have hcons : firstPart (c :: (rest ++ "\n\n".toList ++ text)) =
            c :: firstPart (rest ++ "\n\n".toList ++ text) := by
          rw [firstPart, splitOnceAt, if_neg hprefix, firstPart]
          cases splitOnceAt "\n\n".toList (rest ++ "\n\n".toList ++ text) <;> rfl
        rcases ih htitle.2 with hsame | hsame
        · left
          rw [List.cons_append, List.cons_append, hcons, hsame]
        · right
          rw [List.cons_append, List.cons_append, hcons, List.cons_append, hsame]

/-- What is read back from behind a title is, up to whitespace, its own first
part. -/
theorem trim_firstPart_append (title text : Text) :
    Text.trim (firstPart (title ++ "\n\n".toList ++ text)) =
      Text.trim (firstPart title) := by
  rcases hsplit : splitOnceAt "\n\n".toList title with _ | ⟨before, after⟩
  · have hnot := splitOnceAt_eq_none_iff.1 hsplit
    rw [firstPart_eq_self hnot]
    rcases firstPart_append text hnot with hsame | hsame
    · rw [hsame]
    · have hblank : ∀ c ∈ ['\n'], Text.isWhitespace c = true := by
        intro c hc
        rw [List.mem_singleton.1 hc]
        rfl
      have htrim : Text.trim (firstPart (title ++ "\n\n".toList ++ text) ++ ['\n']) =
          Text.trim (firstPart (title ++ "\n\n".toList ++ text)) :=
        Wiki.trimMatches_append_of_blank hblank
      rw [hsame] at htrim
      exact htrim.symm
  · rw [firstPart_eq_of_some hsplit, List.append_assoc,
      firstPart_eq_of_some (splitOnceAt_append_of_some hsplit)]

theorem titleFor_length (path : PathBuf) (fields : Fields) :
    (titleFor path fields).length ≤ maxTitleChars :=
  List.length_take_le _ _

/-- A page is without a title only where its file name gives none. -/
theorem titleFor_eq_nil {path : PathBuf} {fields : Fields}
    (h : titleFor path fields = []) : filenameTitle path = [] := by
  unfold titleFor truncateChars at h
  have hmaximum : maxTitleChars ≠ 0 := by decide
  rw [List.take_eq_nil_iff, or_iff_right hmaximum] at h
  split at h
  · next title htitle =>
      have hnonempty := (Option.filter_eq_some_iff.1 htitle).2
      exact absurd h (of_decide_eq_true hnonempty)
  · split at h
    · next name hname =>
        have hnonempty := (Option.filter_eq_some_iff.1 hname).2
        exact absurd h (of_decide_eq_true hnonempty)
    · exact h

/-- Every chunk of a page is embedded under the whole title of the page. -/
theorem embedTextFor_titleFor (path : PathBuf) (fields : Fields) (text : Text) :
    embedTextFor path text (some (titleFor path fields)) =
      titleFor path fields ++ "\n\n".toList ++ text := by
  unfold embedTextFor truncateChars
  split
  · next title htitle =>
      have hsome := (Option.filter_eq_some_iff.1 htitle).1
      rw [← Option.some.inj hsome]
      change (titleFor path fields).take maxTitleChars ++ _ ++ _ = _
      rw [List.take_of_length_le (titleFor_length path fields)]
  · next hnone =>
      have hempty : titleFor path fields = [] := by
        by_contra hne
        rw [Option.filter_some, if_pos (decide_eq_true hne)] at hnone
        exact Option.some_ne_none _ hnone
      rw [titleFor_eq_nil hempty, hempty]
      rfl

theorem chunksForPage_mem {path : PathBuf} {source : Text} {chunks : List Chunk}
    (h : chunksForPage path source = .ok chunks) {chunk : Chunk}
    (hchunk : chunk ∈ chunks) :
    chunk.embedText =
      titleFor path (parseFrontmatter source).fields ++ "\n\n".toList ++ chunk.text := by
  rcases (mapM_mem h).2.1 chunk hchunk with ⟨⟨text, ordinal⟩, _, hat⟩
  change chunkAt path (titleFor path (parseFrontmatter source).fields) text ordinal =
    .ok chunk at hat
  unfold chunkAt at hat
  split at hat
  · rw [← Except.ok.inj hat]
    exact embedTextFor_titleFor path _ text
  · exact nomatch hat

/-- The displayed name is the trimmed first part of the title, and the name of
the file where that part is blank. -/
theorem displayTitle_embedText (path : PathBuf) (title text : Text) :
    displayTitle path (some (title ++ "\n\n".toList ++ text)) =
      if Text.trim (firstPart title) = [] then stemName path
      else Text.trim (firstPart title) := by
  unfold displayTitle
  rw [Option.map_some, trim_firstPart_append, Option.filter_some]
  by_cases hblank : Text.trim (firstPart title) = []
  · rw [if_pos hblank, if_neg]
    rw [decide_eq_true_iff]
    exact fun h => h hblank
  · rw [if_neg hblank, if_pos (decide_eq_true hblank)]

/-- A title is displayed as it was indexed exactly when it is recoverable. -/
theorem displayTitle_eq_iff (path : PathBuf) (title text : Text) :
    Text.trim (displayTitle path (some (title ++ "\n\n".toList ++ text))) =
        Text.trim title ↔ Recoverable path title := by
  rw [displayTitle_embedText]
  unfold Recoverable
  by_cases hblank : Text.trim (firstPart title) = []
  · rw [if_pos hblank, if_pos hblank]
  · rw [if_neg hblank, if_neg hblank]
    rcases firstPart_prefix title with ⟨rest, hrest⟩
    have hdrop : title.drop (firstPart title).length = rest := by
      have hleft := @List.drop_left _ (firstPart title) rest
      rwa [hrest] at hleft
    have htrim : Text.trim (Text.trim (firstPart title)) =
        Text.trim (firstPart title) := trimMatches_trimMatches _ _
    have hadded : Text.trim (firstPart title) = Text.trim (firstPart title ++ rest) ↔
        Text.trim rest = [] := Wiki.trimMatches_append_eq_iff hblank
    rw [hrest] at hadded
    rw [htrim, hdrop]
    exact hadded

/-- The name recovered from the chunks of a page is one for all of them, and it
is the indexed title exactly when that title is recoverable. -/
theorem displayTitle_chunks {path : PathBuf} {source : Text}
    {chunks : List Chunk} (h : chunksForPage path source = .ok chunks)
    (hsome : chunks ≠ []) :
    ((∀ chunk ∈ chunks, Text.trim (displayTitle path (some chunk.embedText)) =
        Text.trim (titleFor path (parseFrontmatter source).fields)) ∧
      ∀ first ∈ chunks, ∀ second ∈ chunks,
        displayTitle path (some first.embedText) =
          displayTitle path (some second.embedText)) ↔
      Recoverable path (titleFor path (parseFrontmatter source).fields) := by
  constructor
  · intro hall
    rcases List.exists_mem_of_ne_nil chunks hsome with ⟨chunk, hchunk⟩
    have hname := hall.1 chunk hchunk
    rw [chunksForPage_mem h hchunk] at hname
    exact (displayTitle_eq_iff path _ _).1 hname
  · intro hrecoverable
    constructor
    · intro chunk hchunk
      rw [chunksForPage_mem h hchunk]
      exact (displayTitle_eq_iff path _ _).2 hrecoverable
    · intro first hfirst second hsecond
      rw [chunksForPage_mem h hfirst, chunksForPage_mem h hsecond,
        displayTitle_embedText, displayTitle_embedText]

section FieldTitles

theorem Splitlines.unbroken {source : Text} {lines : List (Text × Text)}
    (h : Splitlines source lines) : ∀ line ∈ lines, Unbroken line.1 := by
  induction h with
  | nil => exact fun _ h => absurd h List.not_mem_nil
  | last hne hcontent =>
      intro line hline
      rw [List.mem_singleton.1 hline]
      exact hcontent
  | cons hcontent hseparator hrest ih =>
      intro line hline
      rcases List.mem_cons.1 hline with rfl | hline
      · exact hcontent
      · exact ih line hline

theorem unbroken_linesWithSeparators (source : Text) :
    ∀ line ∈ linesWithSeparators source, Unbroken line.content := by
  intro line hline
  rcases splitlines_linesWithSeparators source with ⟨cuts, hcuts, hlines⟩
  rw [hlines] at hline
  have hcontent : line.content ∈ (offsetLines 0 cuts).map Line.content :=
    List.mem_map_of_mem hline
  rw [map_content_offsetLines] at hcontent
  rcases List.mem_map.1 hcontent with ⟨cut, hcut, heq⟩
  rw [← heq]
  exact hcuts.unbroken cut hcut

theorem closedBlock_subset {lines block after : List Line} {close : Line}
    (h : closedBlock lines = some (block, close, after)) : block ⊆ lines := by
  induction lines generalizing block with
  | nil => exact nomatch h
  | cons line rest ih =>
      rw [closedBlock] at h
      split at h
      · rw [← (Prod.mk.inj (Option.some.inj h)).1]
        exact List.nil_subset _
      · rcases Option.map_eq_some_iff.1 h with ⟨⟨inner, last, others⟩, hrest, heq⟩
        rcases Prod.mk.inj heq with ⟨rfl, hpair⟩
        rw [(Prod.mk.inj hpair).1, (Prod.mk.inj hpair).2] at hrest
        exact List.cons_subset_cons line (ih hrest)

theorem fieldLine_value_subset {line key value : Text}
    (h : fieldLine line = some (key, value)) : value ⊆ line := by
  unfold fieldLine at h
  split at h
  · next before after hsplit =>
      split at h
      · rw [← (Prod.mk.inj (Option.some.inj h)).2]
        intro c hc
        rw [(Text.splitOnce_eq_some hsplit).1]
        exact List.mem_append_right _
          (List.mem_cons_of_mem _ (mem_of_mem_trimMatches hc))
      · exact nomatch h
  · exact nomatch h

/-- The values of a block are parts of its lines, so none of them has an end of
a line in it. -/
theorem frontmatterFields_unbroken {fields result : Fields} {lines : List Line}
    (hfields : ∀ field ∈ fields, Unbroken field.2)
    (hlines : ∀ line ∈ lines, Unbroken line.content)
    (h : frontmatterFields fields lines = some result) :
    ∀ field ∈ result, Unbroken field.2 := by
  induction lines generalizing fields with
  | nil =>
      rw [frontmatterFields] at h
      split at h
      · cases h
      · rw [← Option.some.inj h]
        exact hfields
  | cons line rest ih =>
      have hrest : ∀ line ∈ rest, Unbroken line.content :=
        fun other hother => hlines other (List.mem_cons_of_mem _ hother)
      rw [frontmatterFields] at h
      split at h
      · cases h
      · split at h
        · split at h
          · cases h
          · exact ih hfields hrest h
        · split at h
          · next key value hfield =>
              apply ih _ hrest h
              intro field hmem
              rcases List.mem_cons.1 hmem with rfl | hmem
              · intro c hc
                exact hlines line List.mem_cons_self c
                  (fieldLine_value_subset hfield (Wiki.mem_of_mem_unquote hc))
              · exact hfields field (List.mem_of_mem_filter hmem)
          · cases h

theorem parseFrontmatter_unbroken (source : Text) :
    ∀ field ∈ (parseFrontmatter source).fields, Unbroken field.2 := by
  have hnone : ∀ field ∈ ([] : Fields), Unbroken field.2 :=
    fun _ h => absurd h List.not_mem_nil
  unfold parseFrontmatter
  dsimp only
  split
  · exact hnone
  · next first lines hlines =>
      split
      · split
        · exact hnone
        · next block close after hblock =>
            split
            · exact hnone
            · next fields hfields =>
                apply frontmatterFields_unbroken hnone _ hfields
                intro line hline
                apply unbroken_linesWithSeparators
                rw [hlines]
                exact List.mem_cons_of_mem _ (closedBlock_subset hblock hline)
      · exact hnone

/-- A title of one line is recovered unless it is blank. -/
theorem recoverable_of_unbroken {path : PathBuf} {title : Text}
    (htitle : Unbroken title) (hblank : Text.trim title ≠ []) :
    Recoverable path title := by
  have hnot : ¬ "\n\n".toList <:+: title := by
    intro hblank
    exact htitle '\n' (hblank.subset List.mem_cons_self) (by decide)
  unfold Recoverable
  rw [firstPart_eq_self hnot, if_neg hblank, List.drop_length]
  rfl

/-- A title that a field gives is recovered unless it is blank. -/
theorem recoverable_of_field {path : PathBuf} {source key value : Text}
    (hvalue : (parseFrontmatter source).fields.get key = some value)
    (htitle : titleFor path (parseFrontmatter source).fields =
      truncateChars value maxTitleChars)
    (hblank : Text.trim (truncateChars value maxTitleChars) ≠ []) :
    Recoverable path (titleFor path (parseFrontmatter source).fields) := by
  rcases Option.map_eq_some_iff.1 hvalue with ⟨field, hfield, heq⟩
  have hunbroken := parseFrontmatter_unbroken source field
    (List.mem_of_find?_eq_some hfield)
  rw [htitle]
  apply recoverable_of_unbroken _ hblank
  intro c hc
  apply hunbroken
  rw [heq]
  exact List.mem_of_mem_take hc

end FieldTitles

namespace TitleSample

def notesPath : PathBuf := Text.toBytes "notes.md".toList

/-- A page whose title is a quoted space. -/
def source : Text := "---\ntitle: \" \"\n---\nBody.".toList

theorem chunk_body : chunk "Body.".toList = ["Body.".toList] := by
  have hparagraphs : paragraphs "Body.".toList = ["Body.".toList] := by decide
  have hlines : "Body.".toList.splitOn '\n' = ["Body.".toList] := by decide
  have hwrap : hardWrap "Body.".toList = ["Body.".toList] := by
    rw [hardWrap, if_pos (by decide)]
  have hpiece : appendPiece ⟨[], []⟩ .none "Body.".toList =
      ⟨[], "Body.".toList⟩ := by
    rw [appendPiece, if_neg (by decide), if_neg (by decide), if_neg (by decide),
      appendPiece, if_pos (by decide)]
    rfl
  unfold chunk
  rw [hparagraphs]
  simp only [List.zipIdx_cons, List.zipIdx_nil, List.foldl_cons, List.foldl_nil,
    appendParagraph, hlines, appendLine, hwrap]
  have hbefore : boundaryBefore 0 0 0 = .none := rfl
  rw [hbefore, hpiece]
  rfl

theorem chunksForPage_source : chunksForPage notesPath source =
    .ok [⟨0, "Body.".toList, " \n\nBody.".toList⟩] := by
  have hpage : parseFrontmatter source =
      ⟨[("title".toList, " ".toList)], "Body.".toList⟩ := by decide
  have htitle : titleFor notesPath [("title".toList, " ".toList)] = " ".toList := rfl
  unfold chunksForPage
  dsimp only
  rw [hpage, chunk_body, htitle]
  rfl

theorem displayTitle_chunks_source :
    ((∀ chunk ∈ [(⟨0, "Body.".toList, " \n\nBody.".toList⟩ : Chunk)],
        Text.trim (displayTitle notesPath (some chunk.embedText)) =
          Text.trim (titleFor notesPath (parseFrontmatter source).fields)) ∧
      ∀ first ∈ [(⟨0, "Body.".toList, " \n\nBody.".toList⟩ : Chunk)],
        ∀ second ∈ [(⟨0, "Body.".toList, " \n\nBody.".toList⟩ : Chunk)],
          displayTitle notesPath (some first.embedText) =
            displayTitle notesPath (some second.embedText)) ↔
      Recoverable notesPath (titleFor notesPath (parseFrontmatter source).fields) :=
  displayTitle_chunks chunksForPage_source (List.cons_ne_nil _ _)

/-- The page is indexed under a blank title and shown as `notes`. -/
theorem blank_title_displayed :
    ¬ ∀ (path : PathBuf) (source : Text) (chunks : List Chunk),
      chunksForPage path source = .ok chunks → chunks ≠ [] →
      (∀ chunk ∈ chunks, Text.trim (displayTitle path (some chunk.embedText)) =
        Text.trim (titleFor path (parseFrontmatter source).fields)) ∧
      ∀ first ∈ chunks, ∀ second ∈ chunks,
        displayTitle path (some first.embedText) =
          displayTitle path (some second.embedText) := by
  intro h
  have hname := (h notesPath source _ chunksForPage_source
    (List.cons_ne_nil _ _)).1 _ List.mem_cons_self
  have hstem : PathBytes.fileStem notesPath = some (Text.toBytes "notes".toList) := by
    decide
  have hshown : displayTitle notesPath (some " \n\nBody.".toList) =
      "notes".toList := by
    have hblank : Text.trim (firstPart " ".toList) = [] := by decide
    have hname := displayTitle_embedText notesPath " ".toList "Body.".toList
    rw [if_pos hblank, stemName, hstem, Option.bind_some,
      Text.fromUtf8_toBytes] at hname
    exact hname
  have htitle : Text.trim (titleFor notesPath (parseFrontmatter source).fields) =
      [] := by decide
  rw [hshown, htitle] at hname
  exact absurd hname (by decide)

end TitleSample

end Yams
