/-
Splitting a page loses nothing: the lines of a source and their separators tile
it, and a source that has a frontmatter block is an optional byte order mark,
the lines of the block, empty lines, and the body.
-/
import Yams.Splitlines

namespace Yams

section Offsets

/-- The separator of each line ends where its offset says, behind the lines
before it and its own content. -/
theorem offsetLines_separatorEnd (start : Nat) (lines : List (Text × Text)) :
    (offsetLines start lines).map Line.separatorEnd =
      (List.range lines.length).map fun index =>
        start + ((lines.take (index + 1)).flatMap lineText).length := by
  induction lines generalizing start with
  | nil => rfl
  | cons line lines ih =>
      rw [offsetLines, List.map_cons, ih, List.length_cons,
        List.range_succ_eq_map, List.map_cons, List.map_map]
      simp only [List.take_succ_cons, List.flatMap_cons, List.take_zero,
        List.flatMap_nil, List.append_nil, lineText, List.length_append,
        Nat.add_assoc]
      rfl

/-- Every line of a cut has a character, counting its separator. -/
theorem Splitlines.lineText_ne_nil {source : Text} {lines : List (Text × Text)}
    (h : Splitlines source lines) : ∀ line ∈ lines, lineText line ≠ [] := by
  induction h with
  | nil => exact fun line h => absurd h List.not_mem_nil
  | last hne _ =>
      intro line hline
      rw [List.mem_singleton.1 hline]
      simpa [lineText] using hne
  | cons _ hseparator _ ih =>
      intro line hline
      rcases List.mem_cons.1 hline with rfl | hline
      · simp [lineText, hseparator.ne_nil]
      · exact ih line hline

theorem lt_separatorEnd {start : Nat} {lines : List (Text × Text)} {line : Line}
    (hlines : ∀ line ∈ lines, lineText line ≠ []) (h : line ∈ offsetLines start lines) :
    start < line.separatorEnd := by
  induction lines generalizing start with
  | nil => exact absurd h List.not_mem_nil
  | cons first lines ih =>
      have hfirst := List.length_pos_iff.2 (hlines first List.mem_cons_self)
      rw [lineText, List.length_append] at hfirst
      have hnext : start < start + first.1.length + first.2.length := by omega
      rcases List.mem_cons.1 h with rfl | h
      · exact hnext
      · exact Nat.lt_trans hnext (ih (fun line hline =>
          hlines line (List.mem_cons_of_mem _ hline)) h)

/-- The offsets of the lines of a cut increase. -/
theorem pairwise_offsetLines {start : Nat} {lines : List (Text × Text)}
    (hlines : ∀ line ∈ lines, lineText line ≠ []) :
    (offsetLines start lines).Pairwise fun left right =>
      left.separatorEnd < right.separatorEnd := by
  induction lines generalizing start with
  | nil => exact List.Pairwise.nil
  | cons first lines ih =>
      have hrest := fun line hline => hlines line (List.mem_cons_of_mem first hline)
      exact List.pairwise_cons.2 ⟨fun line h => lt_separatorEnd hrest h, ih hrest⟩

end Offsets

section Block

/-- A line of a frontmatter block that sets a field. -/
def FieldLine (content : Text) : Prop :=
  content.head? ≠ some ' ' ∧ content.head? ≠ some '\t' ∧ (fieldLine content).isSome

/-- A line of a frontmatter block that continues the field before it. -/
def ContinuationLine (content : Text) : Prop :=
  (content.head? = some ' ' ∨ content.head? = some '\t') ∧ Text.trim content ≠ []

/-- The parts of a source whose page has frontmatter: an optional byte order
mark, the opening marker, field lines and what continues them, the closing
marker, empty lines, and the body, which starts with no empty line. -/
structure FrontmatterParts (source : Text) (page : ParsedPage) where
  mark : Text
  opening : Text × Text
  block : List (Text × Text)
  closing : Text × Text
  blank : List (Text × Text)
  rest : List (Text × Text)
  tiles : source = mark ++ lineText opening ++ block.flatMap lineText ++
    lineText closing ++ blank.flatMap lineText ++ page.body
  cut : Splitlines (source.drop mark.length)
    (opening :: block ++ closing :: (blank ++ rest))
  mark_optional : mark = [] ∨ mark = [byteOrderMark]
  opening_marker : opening.1 = frontmatterMarker
  block_lines : ∀ line ∈ block, FieldLine line.1 ∨ ContinuationLine line.1
  block_first : ∃ first ∈ block.head?, FieldLine first.1
  block_inner : ∀ line ∈ block, line.1 ≠ frontmatterMarker
  closing_marker : closing.1 = frontmatterMarker
  blank_empty : ∀ line ∈ blank, line.1 = []
  body_lines : page.body = rest.flatMap lineText
  body_first : ∀ first ∈ rest.head?, first.1 ≠ []
  fields_found : page.fields ≠ []

theorem closedBlock_offsetLines {start : Nat} {lines : List (Text × Text)}
    {inside after : List Line} {close : Line}
    (h : closedBlock (offsetLines start lines) = some (inside, close, after)) :
    ∃ block closing rest, lines = block ++ closing :: rest ∧
      (∀ line ∈ block, line.1 ≠ frontmatterMarker) ∧
      closing.1 = frontmatterMarker ∧
      inside = offsetLines start block ∧
      close.separatorEnd =
        start + ((block ++ [closing]).flatMap lineText).length ∧
      after = offsetLines close.separatorEnd rest := by
  induction lines generalizing start inside with
  | nil => cases h
  | cons line lines ih =>
      rw [offsetLines, closedBlock] at h
      split at h
      · rename_i hmarker
        obtain ⟨rfl, hrest⟩ := Prod.mk.inj (Option.some.inj h)
        obtain ⟨rfl, rfl⟩ := Prod.mk.inj hrest
        refine ⟨[], line, lines, rfl, fun _ h => absurd h List.not_mem_nil,
          hmarker, rfl, ?_, rfl⟩
        simp [lineText, Nat.add_assoc]
      · rename_i hmarker
        obtain ⟨⟨inner, last, others⟩, hclosed, heq⟩ := Option.map_eq_some_iff.1 h
        obtain ⟨rfl, hrest⟩ := Prod.mk.inj heq
        obtain ⟨rfl, rfl⟩ := Prod.mk.inj hrest
        obtain ⟨block, closing, rest, rfl, hinner, hclosing, rfl, hend, hafter⟩ :=
          ih hclosed
        refine ⟨line :: block, closing, rest, rfl, ?_, hclosing, rfl, ?_, hafter⟩
        · intro other hother
          rcases List.mem_cons.1 hother with rfl | hother
          · exact hmarker
          · exact hinner other hother
        · rw [hend, List.cons_append, List.flatMap_cons, lineText,
            List.length_append, List.length_append]
          omega

/-- A block that has fields has field lines and continuations only, and starts
with a field unless there are fields already. -/
theorem frontmatterFields_lines {fields result : Fields} {lines : List Line}
    (h : frontmatterFields fields lines = some result) :
    result ≠ [] ∧
      (∀ line ∈ lines, FieldLine line.content ∨ ContinuationLine line.content) ∧
      (fields = [] → ∃ first ∈ lines.head?, FieldLine first.content) := by
  induction lines generalizing fields with
  | nil =>
      rw [frontmatterFields] at h
      split at h
      · cases h
      · rename_i hfields
        obtain rfl := Option.some.inj h
        have hne : fields ≠ [] := by simpa using hfields
        exact ⟨hne, fun _ h => absurd h List.not_mem_nil, fun h => absurd h hne⟩
  | cons line lines ih =>
      rw [frontmatterFields] at h
      split at h
      · cases h
      rename_i hblank
      have htrim : Text.trim line.content ≠ [] := by
        simpa [Line.isBlank] using hblank
      split at h
      · rename_i hindent
        split at h
        · cases h
        rename_i hfields
        obtain ⟨hresult, hlines, -⟩ := ih h
        refine ⟨hresult, ?_, fun hnil => absurd (by rw [hnil]; rfl) hfields⟩
        intro other hother
        rcases List.mem_cons.1 hother with rfl | hother
        · exact Or.inr ⟨hindent, htrim⟩
        · exact hlines other hother
      · rename_i hindent
        rw [not_or] at hindent
        split at h
        · rename_i key value hfield
          obtain ⟨hresult, hlines, -⟩ := ih h
          have hfirst : FieldLine line.content :=
            ⟨hindent.1, hindent.2, by rw [hfield]; rfl⟩
          refine ⟨hresult, ?_, fun _ => ⟨line, rfl, hfirst⟩⟩
          intro other hother
          rcases List.mem_cons.1 hother with rfl | hother
          · exact Or.inl hfirst
          · exact hlines other hother
        · cases h

/-- The body starts behind the empty lines. -/
theorem bodyStart_offsetLines (start : Nat) (lines : List (Text × Text)) :
    ∃ blank rest, lines = blank ++ rest ∧ (∀ line ∈ blank, line.1 = []) ∧
      (∀ first ∈ rest.head?, first.1 ≠ []) ∧
      bodyStart start (offsetLines start lines) =
        start + (blank.flatMap lineText).length := by
  induction lines generalizing start with
  | nil =>
      exact ⟨[], [], rfl, fun _ h => absurd h List.not_mem_nil,
        (fun _ h => nomatch h), rfl⟩
  | cons line lines ih =>
      rw [offsetLines, bodyStart]
      split
      · rename_i hempty
        obtain ⟨blank, rest, rfl, hblank, hrest, hstart⟩ :=
          ih (start + line.1.length + line.2.length)
        refine ⟨line :: blank, rest, rfl, ?_, hrest, ?_⟩
        · intro other hother
          rcases List.mem_cons.1 hother with rfl | hother
          · exact hempty
          · exact hblank other hother
        · rw [hstart, List.flatMap_cons, lineText, List.length_append,
            List.length_append]
          omega
      · rename_i hfull
        refine ⟨[], line :: lines, rfl, fun _ h => absurd h List.not_mem_nil, ?_, rfl⟩
        intro first hfirst
        rw [List.head?_cons, Option.mem_some_iff] at hfirst
        exact hfirst ▸ hfull

theorem exists_mark (source : Text) :
    ∃ mark, (mark = [] ∨ mark = [byteOrderMark]) ∧
      source = mark ++ (Text.stripPrefix [byteOrderMark] source).getD source := by
  unfold Text.stripPrefix
  split
  · rename_i hprefix
    obtain ⟨rest, hrest⟩ := List.isPrefixOf_iff_prefix.1 hprefix
    refine ⟨[byteOrderMark], Or.inr rfl, ?_⟩
    rw [← hrest]
    rfl
  · exact ⟨[], Or.inl rfl, rfl⟩

theorem offsetLines_eq_cons {start : Nat} {cuts : List (Text × Text)} {first : Line}
    {lines : List Line} (h : offsetLines start cuts = first :: lines) :
    ∃ opening rest, cuts = opening :: rest ∧ first.content = opening.1 ∧
      lines = offsetLines (start + (lineText opening).length) rest := by
  cases cuts with
  | nil => cases h
  | cons opening rest =>
      rw [offsetLines, List.cons.injEq] at h
      refine ⟨opening, rest, rfl, by rw [← h.1], ?_⟩
      rw [← h.2, lineText, List.length_append, Nat.add_assoc]

theorem mem_offsetLines (start : Nat) {cuts : List (Text × Text)} {cut : Text × Text}
    (h : cut ∈ cuts) : ∃ line ∈ offsetLines start cuts, line.content = cut.1 := by
  have hmem := @List.mem_map_of_mem _ _ _ _ Prod.fst h
  rw [← map_content_offsetLines start] at hmem
  obtain ⟨line, hline, heq⟩ := List.mem_map.1 hmem
  exact ⟨line, hline, heq⟩

/-- A page has no fields and the whole source as its body, or its source is cut
at the frontmatter. -/
theorem parseFrontmatter_parts (source : Text) :
    ((parseFrontmatter source).fields = [] ∧
      (parseFrontmatter source).body = source) ∨
    Nonempty (FrontmatterParts source (parseFrontmatter source)) := by
  obtain ⟨mark, hmark, hsource⟩ := exists_mark source
  unfold parseFrontmatter
  dsimp only
  generalize (Text.stripPrefix [byteOrderMark] source).getD source = parseSource
    at hsource
  obtain ⟨cuts, hcuts, hlines⟩ := splitlines_linesWithSeparators parseSource
  split
  · exact Or.inl ⟨rfl, rfl⟩
  rename_i first lines hfirst
  split
  rotate_left
  · exact Or.inl ⟨rfl, rfl⟩
  rename_i hopening
  split
  · exact Or.inl ⟨rfl, rfl⟩
  rename_i inside close after hclosed
  split
  · exact Or.inl ⟨rfl, rfl⟩
  rename_i fields hfields
  right
  rw [hlines] at hfirst
  obtain ⟨opening, others, rfl, hcontent, rfl⟩ := offsetLines_eq_cons hfirst
  obtain ⟨block, closing, tail, rfl, hinner, hclosing, rfl, hend, rfl⟩ :=
    closedBlock_offsetLines hclosed
  obtain ⟨blank, rest, rfl, hblank, hrest, hstart⟩ :=
    bodyStart_offsetLines close.separatorEnd tail
  obtain ⟨hresult, hblock, hhead⟩ := frontmatterFields_lines hfields
  have htiles : parseSource = lineText opening ++ (block ++ [closing]).flatMap lineText ++
      blank.flatMap lineText ++ rest.flatMap lineText := by
    rw [← hcuts.flatMap_lineText]
    simp
  have hbody : parseSource.drop
      (bodyStart close.separatorEnd (offsetLines close.separatorEnd (blank ++ rest))) =
      rest.flatMap lineText := by
    rw [hstart, hend, htiles, List.drop_left' (by simp [Nat.add_assoc])]
  have hdrop : source.drop mark.length = parseSource := by
    rw [hsource, List.drop_left]
  exact ⟨{
    mark, opening, block, closing, blank, rest
    tiles := by
      dsimp only
      rw [hbody, hsource, htiles]
      simp
    cut := by rw [hdrop]; exact hcuts
    mark_optional := hmark
    opening_marker := hcontent.symm.trans hopening
    block_lines := fun line hline => by
      obtain ⟨found, hfound, heq⟩ := mem_offsetLines (0 + (lineText opening).length) hline
      exact heq ▸ hblock found hfound
    block_first := by
      obtain ⟨found, hfound, hfield⟩ := hhead rfl
      cases block with
      | nil => cases hfound
      | cons head block =>
          obtain rfl := Option.some.inj hfound
          exact ⟨head, rfl, hfield⟩
    block_inner := hinner
    closing_marker := hclosing
    blank_empty := hblank
    body_lines := hbody
    body_first := hrest
    fields_found := hresult }⟩

/-- The lines of a source and their separators tile it and are cut where
Python cuts them, at offsets that increase; and a page has the whole source as its
body, or its source is cut at the frontmatter and loses nothing. -/
theorem frontmatter_lossless (source : Text) :
    (∃ lines, Splitlines source lines ∧ lines.flatMap lineText = source ∧
      linesWithSeparators source = offsetLines 0 lines ∧
      (linesWithSeparators source).Pairwise fun left right =>
        left.separatorEnd < right.separatorEnd) ∧
    (((parseFrontmatter source).fields = [] ∧
      (parseFrontmatter source).body = source) ∨
    Nonempty (FrontmatterParts source (parseFrontmatter source))) := by
  obtain ⟨lines, hlines, heq⟩ := splitlines_linesWithSeparators source
  refine ⟨⟨lines, hlines, hlines.flatMap_lineText, heq, ?_⟩,
    parseFrontmatter_parts source⟩
  rw [heq]
  exact pairwise_offsetLines hlines.lineText_ne_nil

end Block

end Yams
