/-
Chunking loses nothing: the chunks of a text put together are its paragraphs,
their sizes stay between the bounds, and chunking them again changes nothing.
-/
import Mathlib.Data.List.DropRight
import Yams.Chunk
import Yams.ListOrder
import Yams.WikiPageReading

namespace Yams

section Packing

/-- What has been gathered so far, in order. -/
def Gathering.text (st : Gathering) : Text := st.chunks.flatten ++ st.pending

/-- Every finished chunk is of a full size, and what is pending is not. -/
structure Gathering.Packed (st : Gathering) : Prop where
  least : ∀ text ∈ st.chunks, minChunk ≤ text.length
  most : ∀ text ∈ st.chunks, text.length ≤ maxChunk
  pending_lt : st.pending.length < minChunk

theorem packed_start : Gathering.Packed ⟨[], []⟩ :=
  ⟨fun _ h => absurd h List.not_mem_nil, fun _ h => absurd h List.not_mem_nil,
    by decide⟩

/-- Finish a chunk of a full size. -/
theorem Gathering.Packed.finish {st : Gathering} (h : st.Packed) {text : Text}
    (hleast : minChunk ≤ text.length) (hmost : text.length ≤ maxChunk) :
    Gathering.Packed ⟨st.chunks ++ [text], []⟩ := by
  constructor
  · intro other hother
    rcases List.mem_append.1 hother with hother | hother
    · exact h.least other hother
    · rw [List.mem_singleton.1 hother]
      exact hleast
  · intro other hother
    rcases List.mem_append.1 hother with hother | hother
    · exact h.most other hother
    · rw [List.mem_singleton.1 hother]
      exact hmost
  · exact Nat.zero_lt_succ _

/-- What a piece adds to the text: nothing, or its boundary and itself. -/
def pieceText (boundary : Boundary) (piece : Text) : Text :=
  if piece = [] then [] else boundary.text ++ piece

theorem pieceText_of_ne_nil {boundary : Boundary} {piece : Text} (h : piece ≠ []) :
    pieceText boundary piece = boundary.text ++ piece :=
  if_neg h

theorem pieceText_none (piece : Text) : pieceText .none piece = piece := by
  unfold pieceText
  split
  · rename_i h
    exact h.symm
  · rfl

/-- A piece is gathered behind its boundary, and the sizes stay in bounds; by
induction on the turns of the loop of `append_piece`. -/
theorem appendPiece_spec (st : Gathering) (boundary : Boundary) (remaining : Text)
    (h : st.Packed) :
    (appendPiece st boundary remaining).Packed ∧
      (appendPiece st boundary remaining).text =
        st.text ++ pieceText boundary remaining := by
  induction st, boundary, remaining using appendPiece.induct with
  | case1 st boundary =>
      rw [appendPiece, if_pos rfl]
      exact ⟨h, by simp [pieceText]⟩
  | case2 st boundary remaining hne available hfull ih =>
      have hpending := h.pending_lt
      have hboundary := boundary_text_length_le boundary
      have hmin : minChunk = 400 := rfl
      have hmax : maxChunk = 1200 := rfl
      omega
  | case3 st boundary remaining hne available hfits taken pending hleast ih =>
      have hsize : pending.length ≤ maxChunk := by
        have hboundary := boundary_text_length_le boundary
        have hpending := h.pending_lt
        simp +zetaDelta only [List.length_append, List.length_take] at *
        omega
      obtain ⟨hpacked, htext⟩ := ih (h.finish hleast hsize)
      rw [appendPiece, if_neg hne, if_neg hfits, if_pos hleast]
      refine ⟨hpacked, htext.trans ?_⟩
      simp only [Gathering.text, pieceText_none, pieceText_of_ne_nil hne,
        List.flatten_append, List.flatten_cons, List.flatten_nil, List.append_nil,
        List.append_assoc, pending, taken, available, List.take_append_drop]
  | case4 st boundary remaining hne available hfits taken pending hleast ih =>
      obtain ⟨hpacked, htext⟩ := ih ⟨h.least, h.most, Nat.lt_of_not_le hleast⟩
      rw [appendPiece, if_neg hne, if_neg hfits, if_neg hleast]
      refine ⟨hpacked, htext.trans ?_⟩
      simp only [Gathering.text, pieceText_none, pieceText_of_ne_nil hne,
        List.append_assoc, pending, taken, available, List.take_append_drop]

theorem hardWrap_flatten (line : Text) : (hardWrap line).flatten = line := by
  induction line using hardWrap.induct with
  | case1 line hfits => simp [hardWrap, hfits]
  | case2 line hlong ih =>
      rw [hardWrap, if_neg hlong, List.flatten_cons, ih, List.take_append_drop]

/-- The pieces of a line after the first one stand without a boundary. -/
theorem foldl_parts_spec (parts : List Text) (line paragraph first : Nat)
    (hfirst : 0 < first) (st : Gathering) (h : st.Packed) :
    ((parts.zipIdx first).foldl (fun st (part, index) =>
        appendPiece st (boundaryBefore index line paragraph) part) st).Packed ∧
      ((parts.zipIdx first).foldl (fun st (part, index) =>
        appendPiece st (boundaryBefore index line paragraph) part) st).text =
          st.text ++ parts.flatten := by
  induction parts generalizing first st with
  | nil => exact ⟨h, by simp⟩
  | cons part parts ih =>
      have hnone : boundaryBefore first line paragraph = .none := by
        simp [boundaryBefore, Nat.ne_of_gt hfirst]
      obtain ⟨hpacked, htext⟩ := appendPiece_spec st .none part h
      rw [List.zipIdx_cons, List.foldl_cons, List.flatten_cons]
      dsimp only
      rw [hnone]
      obtain ⟨hrest, hrestText⟩ := ih (first + 1) (Nat.succ_pos _) _ hpacked
      exact ⟨hrest, by rw [hrestText, htext, pieceText_none, List.append_assoc]⟩

/-- A line that is not empty is gathered behind its boundary. -/
theorem appendLine_spec (paragraph index : Nat) (line : Text) (hline : line ≠ [])
    (st : Gathering) (h : st.Packed) :
    (appendLine paragraph st (line, index)).Packed ∧
      (appendLine paragraph st (line, index)).text =
        st.text ++ (boundaryBefore 0 index paragraph).text ++ line := by
  have hflatten := hardWrap_flatten line
  unfold appendLine
  cases hparts : hardWrap line with
  | nil =>
      rw [hparts] at hflatten
      exact absurd hflatten.symm hline
  | cons part parts =>
      have hpart : part ≠ [] := by
        intro hnil
        subst hnil
        rw [hardWrap] at hparts
        split at hparts
        · exact hline (List.cons.inj hparts).1
        · rename_i hlong
          apply hlong
          have hlength := congrArg List.length (List.cons.inj hparts).1
          have hmax : maxChunk = 1200 := rfl
          simp only [List.length_take, List.length_nil] at hlength
          omega
      obtain ⟨hpacked, htext⟩ :=
        appendPiece_spec st (boundaryBefore 0 index paragraph) part h
      obtain ⟨hrest, hrestText⟩ :=
        foldl_parts_spec parts index paragraph 1 Nat.one_pos _ hpacked
      rw [hparts] at hflatten
      rw [List.zipIdx_cons, List.foldl_cons]
      refine ⟨hrest, hrestText.trans ?_⟩
      rw [htext, pieceText_of_ne_nil hpart, ← hflatten, List.flatten_cons]
      simp only [List.append_assoc]

theorem foldl_appendLine_spec (lines : List Text) (hlines : [] ∉ lines)
    (paragraph first : Nat) (hfirst : 0 < first) (st : Gathering) (h : st.Packed) :
    ((lines.zipIdx first).foldl (appendLine paragraph) st).Packed ∧
      ((lines.zipIdx first).foldl (appendLine paragraph) st).text =
        st.text ++ lines.flatMap ("\n".toList ++ ·) := by
  induction lines generalizing first st with
  | nil => exact ⟨h, by simp⟩
  | cons line lines ih =>
      rw [List.mem_cons, not_or] at hlines
      have hboundary : boundaryBefore 0 first paragraph = .line := by
        simp [boundaryBefore, hfirst]
      obtain ⟨hpacked, htext⟩ :=
        appendLine_spec paragraph first line (Ne.symm hlines.1) st h
      obtain ⟨hrest, hrestText⟩ :=
        ih hlines.2 (first + 1) (Nat.succ_pos _) _ hpacked
      rw [List.zipIdx_cons, List.foldl_cons, List.flatMap_cons]
      refine ⟨hrest, hrestText.trans ?_⟩
      rw [htext, hboundary]
      simp only [Boundary.text, List.append_assoc]

theorem join_cons (separator text : Text) (rest : List Text) :
    Text.join separator (text :: rest) = text ++ rest.flatMap (separator ++ ·) := by
  induction rest generalizing text with
  | nil => simp [Text.join]
  | cons next rest ih =>
      rw [Text.join, ih next, List.flatMap_cons, List.append_assoc,
        List.append_assoc]
      simp

theorem join_splitOn (c : Char) (text : Text) :
    Text.join [c] (text.splitOn c) = text := by
  have hintercalate (lines : List Text) :
      Text.join [c] lines = [c].intercalate lines := by
    induction lines with
    | nil => rfl
    | cons line lines ih =>
        cases lines with
        | nil => simp [Text.join]
        | cons next lines =>
            rw [Text.join, ih, List.intercalate_cons_cons]
            simp
  rw [hintercalate, List.intercalate_splitOn]

/-- A paragraph without an empty line is gathered behind its boundary. -/
theorem appendParagraph_spec (paragraph : Text) (index : Nat)
    (hparagraph : [] ∉ paragraph.splitOn '\n') (st : Gathering) (h : st.Packed) :
    (appendParagraph st (paragraph, index)).Packed ∧
      (appendParagraph st (paragraph, index)).text =
        st.text ++ (boundaryBefore 0 0 index).text ++ paragraph := by
  have hjoin := join_splitOn '\n' paragraph
  unfold appendParagraph
  cases hlines : paragraph.splitOn '\n' with
  | nil => exact absurd hlines (List.splitOn_ne_nil _ _)
  | cons line lines =>
      rw [hlines, List.mem_cons, not_or] at hparagraph
      rw [hlines, join_cons] at hjoin
      obtain ⟨hpacked, htext⟩ :=
        appendLine_spec index 0 line (Ne.symm hparagraph.1) st h
      obtain ⟨hrest, hrestText⟩ :=
        foldl_appendLine_spec lines hparagraph.2 index 1 Nat.one_pos _ hpacked
      rw [List.zipIdx_cons, List.foldl_cons]
      refine ⟨hrest, hrestText.trans ?_⟩
      rw [htext, List.append_assoc _ line, ← hjoin]
      rfl

theorem foldl_appendParagraph_spec (paragraphs : List Text)
    (hparagraphs : ∀ paragraph ∈ paragraphs, [] ∉ paragraph.splitOn '\n')
    (first : Nat) (hfirst : 0 < first) (st : Gathering) (h : st.Packed) :
    ((paragraphs.zipIdx first).foldl appendParagraph st).Packed ∧
      ((paragraphs.zipIdx first).foldl appendParagraph st).text =
        st.text ++ paragraphs.flatMap ("\n\n".toList ++ ·) := by
  induction paragraphs generalizing first st with
  | nil => exact ⟨h, by simp⟩
  | cons paragraph paragraphs ih =>
      have hboundary : boundaryBefore 0 0 first = .paragraph := by
        simp [boundaryBefore, hfirst]
      obtain ⟨hpacked, htext⟩ := appendParagraph_spec paragraph first
        (hparagraphs paragraph List.mem_cons_self) st h
      obtain ⟨hrest, hrestText⟩ := ih
        (fun other hother => hparagraphs other (List.mem_cons_of_mem _ hother))
        (first + 1) (Nat.succ_pos _) _ hpacked
      rw [List.zipIdx_cons, List.foldl_cons, List.flatMap_cons]
      refine ⟨hrest, hrestText.trans ?_⟩
      rw [htext, hboundary]
      simp only [Boundary.text, List.append_assoc]

end Packing

section Splitting

variable {α : Type}

/-- A reversed list is split into the reversed parts, in reverse order. -/
theorem splitOn_reverse [BEq α] [LawfulBEq α] (c : α) (list : List α) :
    list.reverse.splitOn c = ((list.splitOn c).map List.reverse).reverse := by
  by_cases hc : c ∈ list
  · obtain ⟨before, after, rfl, hbefore⟩ := List.eq_append_cons_of_mem hc
    have hafter := splitOn_reverse c after
    have hreverse : c ∉ before.reverse := fun h => hbefore (List.mem_reverse.1 h)
    rw [List.reverse_append, List.reverse_cons, List.append_assoc,
      List.singleton_append, List.splitOn_append_cons_self, hafter,
      List.splitOn_append_cons_self_of_not_mem hbefore,
      List.splitOn_eq_singleton hreverse, List.map_cons, List.reverse_cons]
  · rw [List.splitOn_eq_singleton hc, List.splitOn_eq_singleton
      (by rwa [List.mem_reverse])]
    rfl
termination_by list.length
decreasing_by
  subst_vars
  simp only [List.length_append, List.length_cons]
  omega

end Splitting

section Paragraphs

/-- Every line ending as a line feed. -/
def universalNewlines : Text → Text
  | [] => []
  | '\r' :: '\n' :: rest => '\n' :: universalNewlines rest
  | c :: rest => (if c = '\r' then '\n' else c) :: universalNewlines rest

def blankLine (line : Text) : Bool := (Text.trim line).isEmpty

/-- The paragraphs as a reader sees them: the runs of lines between blank ones,
joined by a line feed and trimmed. -/
def paragraphRuns (text : Text) : List Text :=
  let runs := ((universalNewlines text).splitOn '\n').splitOnP blankLine
  (runs.filter (· ≠ [])).map fun lines =>
    Text.trim (Text.join "\n".toList lines)

attribute [local simp] universalNewlines

/-- The lines are those between the line feeds; a line without a character is
missing at the end. -/
theorem logicalLines_eq (current text : Text) :
    ∃ rest : List Text, (rest = [] ∨ rest = [[]]) ∧
      (universalNewlines text).splitOnPPrepend (· == '\n') current =
        logicalLines current text ++ rest := by
  induction current, text using logicalLines.induct with
  | case1 => exact ⟨[[]], Or.inr rfl, rfl⟩
  | case2 current hcurrent =>
      refine ⟨[], Or.inl rfl, ?_⟩
      cases current with
      | nil => exact absurd rfl hcurrent
      | cons c current => rfl
  | case3 current rest ih =>
      obtain ⟨last, hlast, heq⟩ := ih
      refine ⟨last, hlast, ?_⟩
      rw [universalNewlines, List.splitOnPPrepend_cons_pos (by rfl), logicalLines,
        List.cons_append, ← heq, List.splitOnPPrepend_nil_right]
  | case4 current c rest hne hend ih =>
      obtain ⟨last, hlast, heq⟩ := ih
      refine ⟨last, hlast, ?_⟩
      have hnewline : (if c = '\r' then '\n' else c) = '\n' := by
        rcases hend with rfl | rfl <;> rfl
      rw [universalNewlines.eq_3 c rest hne, logicalLines.eq_4 current c rest hne,
        hnewline, List.splitOnPPrepend_cons_pos (by rfl), if_pos hend,
        List.cons_append, ← heq, List.splitOnPPrepend_nil_right]
  | case5 current c rest hne hend ih =>
      obtain ⟨last, hlast, heq⟩ := ih
      refine ⟨last, hlast, ?_⟩
      rw [not_or] at hend
      rw [universalNewlines.eq_3 c rest hne, logicalLines.eq_4 current c rest hne,
        if_neg hend.2, List.splitOnPPrepend_cons_neg (by simp [hend.1]),
        if_neg (not_or.2 hend), heq]

theorem paragraphsFrom_eq (lines rest : List Text) :
    paragraphsFrom lines rest =
      (rest.splitOnPPrepend blankLine lines).flatMap pushParagraph := by
  induction rest generalizing lines with
  | nil => simp [paragraphsFrom]
  | cons line rest ih =>
      rw [paragraphsFrom, List.splitOnPPrepend_cons_eq_if]
      unfold blankLine
      split
      · rw [List.flatMap_cons, ih]
        rfl
      · exact ih (line :: lines)

theorem pushParagraph_of_full {lines : List Text}
    (h : ∀ line ∈ lines, blankLine line = false) :
    pushParagraph lines = ([lines].filter (· ≠ [])).map fun lines =>
      Text.trim (Text.join "\n".toList lines) := by
  cases lines with
  | nil => rfl
  | cons line lines =>
      have hline : Text.trim line ≠ [] := by
        simpa [blankLine] using h line List.mem_cons_self
      have htrim : Text.trim (Text.join ['\n'] (line :: lines)) ≠ [] := by
        intro hnil
        apply hline
        rw [Text.trim, Wiki.trimMatches_eq_nil_iff] at hnil ⊢
        intro c hc
        apply hnil
        rw [join_cons]
        exact List.mem_append_left _ hc
      simp [pushParagraph, htrim]

/-- The loop over the lines finds the paragraphs. -/
theorem paragraphs_eq (text : Text) : paragraphs text = paragraphRuns text := by
  obtain ⟨last, hlast, hlines⟩ := logicalLines_eq [] text
  rw [List.splitOnPPrepend_nil_right, ← List.splitOn_eq_splitOnP] at hlines
  have hruns : ((logicalLines [] text).splitOnP blankLine).flatMap pushParagraph =
      (((logicalLines [] text ++ last).splitOnP blankLine)).flatMap
        pushParagraph := by
    rcases hlast with rfl | rfl
    · rw [List.append_nil]
    · rw [List.splitOnP_append_cons _ _ (by rfl), List.flatMap_append]
      simp [pushParagraph]
  unfold paragraphs paragraphRuns
  dsimp only
  rw [paragraphsFrom_eq, List.splitOnPPrepend_nil_right, hruns, hlines]
  have hfull : ∀ part ∈ (logicalLines [] text ++ last).splitOnP blankLine,
      ∀ line ∈ part, blankLine line = false :=
    fun part hpart line hline => (of_mem_splitOnP hpart line hline).2
  generalize (logicalLines [] text ++ last).splitOnP blankLine = parts at hfull
  induction parts with
  | nil => rfl
  | cons part parts ih =>
      rw [List.flatMap_cons, ih fun other hother => hfull other
        (List.mem_cons_of_mem _ hother), pushParagraph_of_full
        (hfull part List.mem_cons_self), ← List.map_append, ← List.filter_append,
        List.singleton_append]

/-- A paragraph: trimmed, and with no carriage return and no blank line in it. -/
structure IsParagraph (paragraph : Text) : Prop where
  trimmed : Text.trim paragraph = paragraph
  lines : ∀ line ∈ paragraph.splitOn '\n', blankLine line = false
  noReturn : '\r' ∉ paragraph

theorem IsParagraph.nil_not_mem {paragraph : Text} (h : IsParagraph paragraph) :
    [] ∉ paragraph.splitOn '\n' :=
  fun hmem => absurd (h.lines [] hmem) (by decide)

theorem IsParagraph.ne_nil {paragraph : Text} (h : IsParagraph paragraph) :
    paragraph ≠ [] := by
  intro hnil
  subst hnil
  exact h.nil_not_mem (by simp)

theorem universalNewlines_not_mem (text : Text) : '\r' ∉ universalNewlines text := by
  induction text using universalNewlines.induct with
  | case1 => simp
  | case2 rest ih => simp [ih]
  | case3 c rest hne ih =>
      rw [universalNewlines.eq_3 c rest hne, List.mem_cons, not_or]
      refine ⟨?_, ih⟩
      split
      · decide
      · exact fun heq => ‹¬ c = '\r'› heq.symm

theorem universalNewlines_of_not_mem {text : Text} (h : '\r' ∉ text) :
    universalNewlines text = text := by
  induction text with
  | nil => rfl
  | cons c rest ih =>
      rw [List.mem_cons, not_or] at h
      have hne (tail : Text) (hc : c = '\r') (_ : rest = '\n' :: tail) : False :=
        h.1 hc.symm
      rw [universalNewlines.eq_3 c rest hne, if_neg (Ne.symm h.1), ih h.2]

theorem blankLine_eq_true_iff {line : Text} :
    blankLine line = true ↔ ∀ c ∈ line, Text.isWhitespace c = true := by
  unfold blankLine Text.trim
  rw [List.isEmpty_iff, Wiki.trimMatches_eq_nil_iff]

/-- White space at the start of a text hides no line of it. -/
theorem lines_dropWhile {text : Text}
    (h : ∀ line ∈ text.splitOn '\n', blankLine line = false) :
    ∀ line ∈ (text.dropWhile Text.isWhitespace).splitOn '\n',
      blankLine line = false := by
  induction text with
  | nil => exact h
  | cons c rest ih =>
      by_cases hc : Text.isWhitespace c = true
      · rw [List.dropWhile_cons_of_pos hc]
        apply ih
        obtain ⟨first, others, hsplit⟩ :=
          List.exists_cons_of_ne_nil (List.splitOn_ne_nil '\n' rest)
        rw [List.splitOn_cons_eq_if_modifyHead, hsplit] at h
        split at h
        · exact absurd (h [] List.mem_cons_self) (by decide)
        · rw [List.modifyHead_cons] at h
          rw [hsplit]
          intro line hline
          rcases List.mem_cons.1 hline with rfl | hline
          · have hfirst := h (c :: line) List.mem_cons_self
            rw [Bool.eq_false_iff] at hfirst ⊢
            intro hblank
            apply hfirst
            rw [blankLine_eq_true_iff] at hblank ⊢
            intro d hd
            rcases List.mem_cons.1 hd with rfl | hd
            · exact hc
            · exact hblank d hd
          · exact h line (List.mem_cons_of_mem _ hline)
      · rwa [List.dropWhile_cons_of_neg hc]

theorem lines_reverse {text : Text}
    (h : ∀ line ∈ text.splitOn '\n', blankLine line = false) :
    ∀ line ∈ text.reverse.splitOn '\n', blankLine line = false := by
  rw [splitOn_reverse]
  intro line hline
  obtain ⟨original, horiginal, rfl⟩ := List.mem_map.1 (List.mem_reverse.1 hline)
  have hfull := h original horiginal
  rw [Bool.eq_false_iff] at hfull ⊢
  intro hblank
  apply hfull
  rw [blankLine_eq_true_iff] at hblank ⊢
  exact fun c hc => hblank c (List.mem_reverse.2 hc)

theorem trimMatches_trimMatches (p : Char → Bool) (text : Text) :
    Text.trimMatches p (Text.trimMatches p text) = Text.trimMatches p text := by
  change (((text.dropWhile p).rdropWhile p).dropWhile p).rdropWhile p =
    (text.dropWhile p).rdropWhile p
  have hdrop : ((text.dropWhile p).rdropWhile p).dropWhile p =
      (text.dropWhile p).rdropWhile p := by
    rw [List.dropWhile_eq_self_iff]
    intro hlength hfirst
    obtain ⟨ending, hending⟩ := List.rdropWhile_prefix p (text.dropWhile p)
    have hhead := List.head?_dropWhile_not p text
    rw [← hending] at hhead
    generalize (text.dropWhile p).rdropWhile p = trimmed at *
    cases trimmed with
    | nil => exact absurd hlength (Nat.lt_irrefl 0)
    | cons c rest =>
        rw [List.cons_append, List.head?_cons] at hhead
        exact absurd hfirst (Bool.eq_false_iff.1 hhead)
  rw [hdrop, List.rdropWhile_idempotent]

theorem mem_of_mem_trimMatches {p : Char → Bool} {text : Text} {c : Char}
    (h : c ∈ Text.trimMatches p text) : c ∈ text :=
  (List.dropWhile_suffix p).subset (List.mem_reverse.1
    ((List.dropWhile_suffix p).subset (List.mem_reverse.1 h)))

theorem mem_join {separator : Text} {texts : List Text} {c : Char}
    (h : c ∈ Text.join separator texts) :
    c ∈ separator ∨ ∃ text ∈ texts, c ∈ text := by
  cases texts with
  | nil => exact absurd h List.not_mem_nil
  | cons text texts =>
      rw [join_cons, List.mem_append, List.mem_flatMap] at h
      rcases h with hc | ⟨other, hother, hc⟩
      · exact Or.inr ⟨text, List.mem_cons_self, hc⟩
      · rcases List.mem_append.1 hc with hc | hc
        · exact Or.inl hc
        · exact Or.inr ⟨other, List.mem_cons_of_mem _ hother, hc⟩

theorem splitOn_join {lines : List Text} (hne : lines ≠ [])
    (hlines : ∀ line ∈ lines, '\n' ∉ line) :
    (Text.join "\n".toList lines).splitOn '\n' = lines := by
  induction lines with
  | nil => exact absurd rfl hne
  | cons line lines ih =>
      have hline := hlines line List.mem_cons_self
      cases lines with
      | nil => exact List.splitOn_eq_singleton hline
      | cons next lines =>
          have hrest := ih (List.cons_ne_nil _ _) fun other hother =>
            hlines other (List.mem_cons_of_mem _ hother)
          rw [Text.join]
          · rw [List.append_assoc]
            exact (List.splitOn_append_cons_self_of_not_mem hline _).trans
              (congrArg _ hrest)
          · exact fun h => nomatch h

/-- What is found in a text are paragraphs. -/
theorem isParagraph_of_mem {text paragraph : Text}
    (h : paragraph ∈ paragraphRuns text) : IsParagraph paragraph := by
  obtain ⟨run, hrun, rfl⟩ := List.mem_map.1 h
  obtain ⟨hrun, hne⟩ := List.mem_filter.1 hrun
  have hlines := of_mem_splitOnP hrun
  have hsplit := splitOn_join (of_decide_eq_true hne) fun line hline => by
    have hmem := (hlines line hline).1
    rw [List.splitOn_eq_splitOnP] at hmem
    exact fun hc => absurd (of_mem_splitOnP hmem _ hc).2 (by decide)
  constructor
  · exact trimMatches_trimMatches _ _
  · have hfull : ∀ line ∈ (Text.join "\n".toList run).splitOn '\n',
        blankLine line = false := by
      rw [hsplit]
      exact fun line hline => (hlines line hline).2
    exact lines_reverse (lines_dropWhile (lines_reverse (lines_dropWhile hfull)))
  · intro hc
    rcases mem_join (mem_of_mem_trimMatches hc) with hc | ⟨line, hline, hc⟩
    · exact absurd hc (by decide)
    · have hmem := (hlines line hline).1
      rw [List.splitOn_eq_splitOnP] at hmem
      exact universalNewlines_not_mem text (of_mem_splitOnP hmem _ hc).1

/-- A blank line between paragraphs ends the run of lines before it. -/
theorem splitOnP_join {paragraphs : List Text} (hne : paragraphs ≠ [])
    (h : ∀ paragraph ∈ paragraphs, IsParagraph paragraph) :
    ((Text.join "\n\n".toList paragraphs).splitOn '\n').splitOnP blankLine =
      paragraphs.map (List.splitOn '\n') := by
  induction paragraphs with
  | nil => exact absurd rfl hne
  | cons paragraph paragraphs ih =>
      have hlines := (h paragraph List.mem_cons_self).lines
      cases paragraphs with
      | nil => exact List.splitOnP_eq_singleton hlines
      | cons next paragraphs =>
          have hrest := ih (List.cons_ne_nil _ _) fun other hother =>
            h other (List.mem_cons_of_mem _ hother)
          have hsplit : (paragraph ++ "\n\n".toList ++
              Text.join "\n\n".toList (next :: paragraphs)).splitOn '\n' =
              paragraph.splitOn '\n' ++
                [] :: (Text.join "\n\n".toList (next :: paragraphs)).splitOn '\n' := by
            rw [List.append_assoc]
            exact (List.splitOn_append_cons_self _ _).trans
              (congrArg _ (List.splitOn_append_cons_self [] _))
          rw [Text.join, hsplit, List.splitOnP_append_cons _ _ (by rfl), hrest,
            List.splitOnP_eq_singleton hlines]
          · rfl
          · exact fun h => nomatch h

/-- The paragraphs of paragraphs that are put together are these. -/
theorem paragraphRuns_join {paragraphs : List Text}
    (h : ∀ paragraph ∈ paragraphs, IsParagraph paragraph) :
    paragraphRuns (Text.join "\n\n".toList paragraphs) = paragraphs := by
  by_cases hne : paragraphs = []
  · rw [hne]
    rfl
  have hreturn : '\r' ∉ Text.join "\n\n".toList paragraphs := by
    intro hc
    rcases mem_join hc with hc | ⟨paragraph, hparagraph, hc⟩
    · exact absurd hc (by decide)
    · exact (h paragraph hparagraph).noReturn hc
  unfold paragraphRuns
  rw [universalNewlines_of_not_mem hreturn]
  dsimp only
  rw [splitOnP_join hne h, List.filter_eq_self.2, List.map_map]
  · have hself : ∀ paragraph ∈ paragraphs, ((fun lines =>
        Text.trim (Text.join "\n".toList lines)) ∘ List.splitOn '\n') paragraph =
          id paragraph := by
      intro paragraph hparagraph
      have hjoin := join_splitOn '\n' paragraph
      exact (congrArg Text.trim hjoin).trans (h paragraph hparagraph).trimmed
    rw [List.map_congr_left hself, List.map_id]
  · intro lines hlines
    obtain ⟨paragraph, -, rfl⟩ := List.mem_map.1 hlines
    exact decide_eq_true (List.splitOn_ne_nil _ _)

end Paragraphs

section Chunks

/-- All paragraphs are gathered, with a blank line between them. -/
theorem gathered_spec (text : Text) :
    ((paragraphs text).zipIdx.foldl appendParagraph ⟨[], []⟩).Packed ∧
      ((paragraphs text).zipIdx.foldl appendParagraph ⟨[], []⟩).text =
        Text.join "\n\n".toList (paragraphRuns text) := by
  have hparagraphs : ∀ paragraph ∈ paragraphs text, [] ∉ paragraph.splitOn '\n' := by
    rw [paragraphs_eq]
    exact fun paragraph h => (isParagraph_of_mem h).nil_not_mem
  rw [← paragraphs_eq]
  cases hall : paragraphs text with
  | nil => exact ⟨packed_start, rfl⟩
  | cons paragraph rest =>
      rw [hall] at hparagraphs
      obtain ⟨hpacked, htext⟩ := appendParagraph_spec paragraph 0
        (hparagraphs paragraph List.mem_cons_self) _ packed_start
      obtain ⟨hrest, hrestText⟩ := foldl_appendParagraph_spec rest
        (fun other hother => hparagraphs other (List.mem_cons_of_mem _ hother))
        1 Nat.one_pos _ hpacked
      rw [List.zipIdx_cons, List.foldl_cons, join_cons]
      refine ⟨hrest, hrestText.trans ?_⟩
      rw [htext]
      rfl

theorem chunk_flatten (text : Text) :
    (chunk text).flatten = Text.join "\n\n".toList (paragraphRuns text) := by
  obtain ⟨-, htext⟩ := gathered_spec text
  rw [← htext]
  unfold chunk Gathering.text
  dsimp only
  split
  · rename_i hpending
    rw [hpending, List.append_nil]
  · simp

theorem length_of_mem_chunk {text part : Text} (h : part ∈ chunk text) :
    1 ≤ part.length ∧ part.length ≤ maxChunk := by
  obtain ⟨hpacked, -⟩ := gathered_spec text
  have hfinished (h : part ∈
      ((paragraphs text).zipIdx.foldl appendParagraph ⟨[], []⟩).chunks) :
      1 ≤ part.length ∧ part.length ≤ maxChunk :=
    ⟨Nat.le_trans (by decide) (hpacked.least part h), hpacked.most part h⟩
  unfold chunk at h
  dsimp only at h
  split at h
  · exact hfinished h
  · rename_i hpending
    rcases List.mem_append.1 h with h | h
    · exact hfinished h
    · rw [List.mem_singleton.1 h]
      exact ⟨List.length_pos_iff.2 hpending,
        Nat.le_trans (Nat.le_of_lt hpacked.pending_lt) (by decide)⟩

theorem length_of_mem_dropLast {text part : Text} (h : part ∈ (chunk text).dropLast) :
    minChunk ≤ part.length := by
  obtain ⟨hpacked, -⟩ := gathered_spec text
  unfold chunk at h
  dsimp only at h
  split at h
  · exact hpacked.least part (List.mem_of_mem_dropLast h)
  · rw [List.dropLast_concat] at h
    exact hpacked.least part h

/-- Chunking what the chunks hold finds the same chunks again. -/
theorem chunk_flatten_chunk (text : Text) :
    chunk (chunk text).flatten = chunk text := by
  have hsame : paragraphs (chunk text).flatten = paragraphs text := by
    rw [paragraphs_eq, paragraphs_eq, chunk_flatten]
    exact paragraphRuns_join fun paragraph h => isParagraph_of_mem h
  unfold chunk at hsame ⊢
  rw [hsame]

/-- The chunks of a text hold its paragraphs and nothing else, a blank line
between each two; their sizes are bounded, and only the last one is small. -/
theorem chunk_lossless (text : Text) :
    (chunk text).flatten = Text.join "\n\n".toList (paragraphRuns text) ∧
      (∀ part ∈ chunk text, 1 ≤ part.length ∧ part.length ≤ 1200) ∧
      (∀ part ∈ (chunk text).dropLast, 400 ≤ part.length) ∧
      chunk (chunk text).flatten = chunk text :=
  ⟨chunk_flatten text, fun _ h => length_of_mem_chunk h,
    fun _ h => length_of_mem_dropLast h, chunk_flatten_chunk text⟩

end Chunks

end Yams
