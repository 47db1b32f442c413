/-
Python's `str.splitlines()` as a relation between a text and its lines, each
with the separator that ends it.  A text has one such cut, and both line readers
of the program compute it.
-/
import Yams.WikiPage

namespace Yams

section Cut

/-- The characters that end a line; a carriage return and the line feed after
it end one line together. -/
def lineBoundaries : List Char :=
  ['\n', '\r', '\x0b', '\x0c', '\x1c', '\x1d', '\x1e', '\u0085', '\u2028', '\u2029']

/-- What ends a line before `rest`. -/
inductive Separates (rest : Text) : Text → Prop
  | pair : Separates rest ['\r', '\n']
  | single {c : Char} (hboundary : c ∈ lineBoundaries)
      (halone : c = '\r' → rest.head? ≠ some '\n') : Separates rest [c]

def Unbroken (text : Text) : Prop := ∀ c ∈ text, c ∉ lineBoundaries

/-- A text and its lines with their separators; only the last line may lack
one, and then it has a character. -/
inductive Splitlines : Text → List (Text × Text) → Prop
  | nil : Splitlines [] []
  | last {content : Text} (hne : content ≠ []) (hcontent : Unbroken content) :
      Splitlines content [(content, [])]
  | cons {content separator rest : Text} {lines : List (Text × Text)}
      (hcontent : Unbroken content) (hseparator : Separates rest separator)
      (hrest : Splitlines rest lines) :
      Splitlines (content ++ (separator ++ rest)) ((content, separator) :: lines)

theorem unbroken_nil : Unbroken [] := fun _ h => absurd h List.not_mem_nil

/-- A separator at the start ends an empty line. -/
theorem Splitlines.empty {separator rest : Text} {lines : List (Text × Text)}
    (hseparator : Separates rest separator) (hrest : Splitlines rest lines) :
    Splitlines (separator ++ rest) (([], separator) :: lines) := by
  rw [← List.nil_append (separator ++ rest)]
  exact .cons unbroken_nil hseparator hrest

def lineText (line : Text × Text) : Text := line.1 ++ line.2

/-- The lines and their separators tile the text. -/
theorem Splitlines.flatMap_lineText {source : Text} {lines : List (Text × Text)}
    (h : Splitlines source lines) : lines.flatMap lineText = source := by
  induction h with
  | nil => rfl
  | last _ _ => simp [lineText]
  | cons _ _ _ ih => simp [lineText, ih]

theorem Separates.ne_nil {rest separator : Text} (h : Separates rest separator) :
    separator ≠ [] := by
  cases h <;> exact List.cons_ne_nil _ _

/-- A separator starts with a boundary. -/
theorem Separates.exists_cons {rest separator : Text} (h : Separates rest separator) :
    ∃ c tail, separator = c :: tail ∧ c ∈ lineBoundaries := by
  cases h with
  | pair => exact ⟨'\r', ['\n'], rfl, by decide⟩
  | single hboundary _ => exact ⟨_, [], rfl, hboundary⟩

/-- Texts without a boundary that are followed by one end in the same place. -/
theorem Unbroken.eq_of_append {left right leftRest rightRest : Text} {c d : Char}
    (hleft : Unbroken left) (hright : Unbroken right) (hc : c ∈ lineBoundaries)
    (hd : d ∈ lineBoundaries) (h : left ++ c :: leftRest = right ++ d :: rightRest) :
    left = right ∧ c :: leftRest = d :: rightRest := by
  induction left generalizing right with
  | nil =>
      cases right with
      | nil => exact ⟨rfl, h⟩
      | cons e right =>
          rw [List.nil_append, List.cons_append, List.cons.injEq] at h
          exact absurd (h.1 ▸ hc) (hright e List.mem_cons_self)
  | cons e left ih =>
      cases right with
      | nil =>
          rw [List.nil_append, List.cons_append, List.cons.injEq] at h
          exact absurd (h.1 ▸ hd) (hleft e List.mem_cons_self)
      | cons f right =>
          rw [List.cons_append, List.cons_append, List.cons.injEq] at h
          obtain ⟨hsame, hrest⟩ := ih
            (fun c hmem => hleft c (List.mem_cons_of_mem _ hmem))
            (fun c hmem => hright c (List.mem_cons_of_mem _ hmem)) h.2
          exact ⟨by rw [h.1, hsame], hrest⟩

theorem Unbroken.ne_append {content left separator rest : Text}
    (hcontent : Unbroken content) (hseparator : Separates rest separator) :
    content ≠ left ++ (separator ++ rest) := by
  intro heq
  obtain ⟨c, tail, rfl, hc⟩ := hseparator.exists_cons
  apply hcontent c
  · rw [heq]
    simp
  · exact hc

/-- Two separators at the start of one text are the same. -/
theorem Separates.unique {left right separator other : Text}
    (hseparator : Separates left separator) (hother : Separates right other)
    (h : separator ++ left = other ++ right) : separator = other := by
  cases hseparator with
  | pair =>
      cases hother with
      | pair => rfl
      | single _ halone =>
          simp only [List.cons_append, List.nil_append, List.cons.injEq] at h
          exact absurd (by rw [← h.2]; rfl) (halone h.1.symm)
  | single _ halone =>
      cases hother with
      | pair =>
          simp only [List.cons_append, List.nil_append, List.cons.injEq] at h
          exact absurd (by rw [h.2]; rfl) (halone h.1)
      | single _ _ =>
          simp only [List.cons_append, List.nil_append, List.cons.injEq] at h
          rw [h.1]

/-- A text is cut in one way only. -/
theorem Splitlines.unique {source : Text} {left right : List (Text × Text)}
    (hleft : Splitlines source left) (hright : Splitlines source right) :
    left = right := by
  induction hleft generalizing right with
  | nil =>
      generalize hsource : ([] : Text) = source at hright
      cases hright with
      | nil => rfl
      | last hne _ => exact absurd hsource.symm hne
      | cons _ hseparator _ =>
          exact absurd hsource (by simp [hseparator.ne_nil])
  | @last content hne hcontent =>
      generalize hsource : content = source at hright
      cases hright with
      | nil => exact absurd hsource hne
      | last _ _ => rfl
      | cons _ hseparator _ => exact absurd hsource (hcontent.ne_append hseparator)
  | @cons content separator rest lines hcontent hseparator _ ih =>
      generalize hsource : content ++ (separator ++ rest) = source at hright
      cases hright with
      | nil => exact absurd hsource (by simp [hseparator.ne_nil])
      | last _ hother => exact absurd hsource.symm (hother.ne_append hseparator)
      | @cons other otherSeparator otherRest others hother hotherSeparator hrest =>
          obtain ⟨c, tail, hc, hboundary⟩ := hseparator.exists_cons
          obtain ⟨d, otherTail, hd, hotherBoundary⟩ := hotherSeparator.exists_cons
          obtain ⟨hsame, htail⟩ : content = other ∧
              separator ++ rest = otherSeparator ++ otherRest := by
            rw [hc, hd] at hsource ⊢
            exact hcontent.eq_of_append hother hboundary hotherBoundary hsource
          have heq := hseparator.unique hotherSeparator htail
          rw [heq] at htail
          have hrests := List.append_cancel_left htail
          subst hrests
          rw [hsame, heq, ih hrest]

/-- One more character before a text that starts no line of its own. -/
def attach (c : Char) : List (Text × Text) → List (Text × Text)
  | [] => [([c], [])]
  | (content, separator) :: lines => (c :: content, separator) :: lines

theorem Unbroken.cons {c : Char} {text : Text} (hc : c ∉ lineBoundaries)
    (htext : Unbroken text) : Unbroken (c :: text) := by
  intro d hd
  rcases List.mem_cons.1 hd with rfl | hd
  · exact hc
  · exact htext d hd

theorem Splitlines.cons_char {c : Char} {source : Text} {lines : List (Text × Text)}
    (hc : c ∉ lineBoundaries) (h : Splitlines source lines) :
    Splitlines (c :: source) (attach c lines) := by
  cases h with
  | nil =>
      exact .last (List.cons_ne_nil _ _) (unbroken_nil.cons hc)
  | last _ hcontent => exact .last (List.cons_ne_nil _ _) (hcontent.cons hc)
  | cons hcontent hseparator hrest => exact .cons (hcontent.cons hc) hseparator hrest

end Cut

section Readers

theorem isSplitlinesBoundary_eq_true_iff {c : Char} :
    Wiki.isSplitlinesBoundary c = true ↔ c ∈ lineBoundaries := by
  unfold Wiki.isSplitlinesBoundary lineBoundaries
  simp only [decide_eq_true_eq, List.mem_cons, List.not_mem_nil, or_false,
    ← Char.toNat_inj]
  change _ ↔ c.toNat = 0xa ∨ c.toNat = 0xd ∨ c.toNat = 0xb ∨ c.toNat = 0xc ∨
    c.toNat = 0x1c ∨ c.toNat = 0x1d ∨ c.toNat = 0x1e ∨ c.toNat = 0x85 ∨
    c.toNat = 0x2028 ∨ c.toNat = 0x2029
  exact Iff.rfl

theorem isExplicitSeparator_eq_true_iff {c : Char} :
    isExplicitSeparator c = true ↔ c ∈ lineBoundaries ∧ c ≠ '\n' := by
  rw [← isSplitlinesBoundary_eq_true_iff, Ne, ← Char.toNat_inj]
  change _ ↔ _ ∧ ¬ c.toNat = 0xa
  unfold Wiki.isSplitlinesBoundary isExplicitSeparator
  simp only [decide_eq_true_eq]
  omega

/-- The strict reader of the wiki cuts at the boundaries. -/
theorem splitlines_pythonLines (source : Text) :
    ∃ lines, Splitlines source lines ∧
      (Wiki.pythonLines false source).map Wiki.SourceLine.content =
        lines.map Prod.fst := by
  match source with
  | [] => exact ⟨[], .nil, rfl⟩
  | c :: rest =>
      obtain ⟨lines, hlines, hcontents⟩ := splitlines_pythonLines rest
      by_cases hc : c ∈ lineBoundaries
      · have hboundary := isSplitlinesBoundary_eq_true_iff.2 hc
        by_cases hreturn : c = '\r' ∧ rest.head? = some '\n'
        · obtain ⟨rfl, hhead⟩ := hreturn
          match rest with
          | d :: rest =>
              obtain rfl : d = '\n' := Option.some.inj hhead
              obtain ⟨lines, hlines, hcontents⟩ := splitlines_pythonLines rest
              refine ⟨([], ['\r', '\n']) :: lines,
                Splitlines.empty .pair hlines, ?_⟩
              simp [Wiki.pythonLines, hboundary, hcontents]
        · refine ⟨([], [c]) :: lines, Splitlines.empty
            (.single hc fun heq hhead => hreturn ⟨heq, hhead⟩) hlines, ?_⟩
          have hflag : Wiki.pythonLines (c = '\r') rest =
              Wiki.pythonLines false rest := by
            cases rest with
            | nil => simp [Wiki.pythonLines]
            | cons d rest =>
                have hd : ¬ (c = '\r' ∧ d = '\n') := fun ⟨heq, hd⟩ =>
                  hreturn ⟨heq, congrArg some hd⟩
                rw [Wiki.pythonLines, Wiki.pythonLines]
                simp [hd]
          simp [Wiki.pythonLines, hboundary, hflag, hcontents]
      · have hboundary : Wiki.isSplitlinesBoundary c = false :=
          Bool.eq_false_iff.2 fun h => hc (isSplitlinesBoundary_eq_true_iff.1 h)
        refine ⟨attach c lines, hlines.cons_char hc, ?_⟩
        rw [Wiki.pythonLines]
        simp only [hboundary, Bool.false_eq_true, false_and, if_false]
        cases hread : Wiki.pythonLines false rest with
        | nil =>
            rw [hread] at hcontents
            rw [List.map_eq_nil_iff.1 hcontents.symm]
            rfl
        | cons line others =>
            rw [hread] at hcontents
            cases lines with
            | nil => cases hcontents
            | cons first lines =>
                rw [List.map_cons, List.map_cons, List.cons.injEq] at hcontents
                simp [attach, hcontents.1, hcontents.2]
termination_by source.length

/-- The lines with the offsets just after their separators. -/
def offsetLines : Nat → List (Text × Text) → List Line
  | _, [] => []
  | start, (content, separator) :: rest =>
      ⟨content, start + content.length + separator.length⟩ ::
        offsetLines (start + content.length + separator.length) rest

theorem map_content_offsetLines (start : Nat) (lines : List (Text × Text)) :
    (offsetLines start lines).map Line.content = lines.map Prod.fst := by
  induction lines generalizing start with
  | nil => rfl
  | cons line lines ih => simp [offsetLines, ih]

theorem offsetLines_append (start : Nat) (left right : List (Text × Text)) :
    offsetLines start (left ++ right) = offsetLines start left ++
      offsetLines (start + (left.flatMap lineText).length) right := by
  induction left generalizing start with
  | nil => rfl
  | cons line left ih =>
      simp only [List.cons_append, offsetLines, ih, List.flatMap_cons, lineText,
        List.length_append, Nat.add_assoc]

/-- How a native line ends, by what stands before and after its end. -/
inductive NativeEnd (line rest : Text) : Text → Prop
  | missing (hrest : rest = []) : NativeEnd line rest []
  | lineFeed (hline : line.getLast? ≠ some '\r') : NativeEnd line rest ['\n']
  | pair : NativeEnd line rest ['\r', '\n']

/-- What a carriage return in a native line ends is not followed by a line
feed. -/
theorem NativeEnd.head?_ne {c : Char} {line rest ending : Text}
    (h : NativeEnd (c :: line) rest ending) (hline : '\n' ∉ line) (hc : c = '\r') :
    (line ++ (ending ++ rest)).head? ≠ some '\n' := by
  subst hc
  cases line with
  | nil =>
      cases h with
      | missing hrest => simp [hrest]
      | lineFeed hline => exact absurd rfl hline
      | pair => simp
  | cons d line =>
      intro hhead
      rw [List.cons_append, List.head?_cons, Option.some.injEq] at hhead
      exact hline (hhead ▸ List.mem_cons_self)

theorem NativeEnd.tail {c : Char} {line rest ending : Text}
    (h : NativeEnd (c :: line) rest ending) : NativeEnd line rest ending := by
  cases h with
  | missing hrest => exact .missing hrest
  | lineFeed hline =>
      apply NativeEnd.lineFeed
      cases line with
      | nil => exact fun h => nomatch h
      | cons d line => rwa [List.getLast?_cons_cons] at hline
  | pair => exact .pair

/-- One native line is cut at its explicit separators and at its end; by
induction on what is left of it. -/
theorem explicitlySeparatedLines_spec {current line rest ending : Text}
    {lines : List (Text × Text)} (start : Nat) (hcurrent : Unbroken current)
    (hline : '\n' ∉ line) (hend : NativeEnd line rest ending)
    (hrest : Splitlines rest lines) :
    ∃ parts, Splitlines (current.reverse ++ (line ++ (ending ++ rest)))
        (parts ++ lines) ∧
      (parts.flatMap lineText).length =
        current.length + line.length + ending.length ∧
      explicitlySeparatedLines ending.length current (start + current.length) line =
        offsetLines start parts := by
  have hreverse (current : Text) (h : Unbroken current) : Unbroken current.reverse :=
    fun c hc => h c (List.mem_reverse.1 hc)
  induction line generalizing current start with
  | nil =>
      cases hend with
      | missing hnil =>
          subst hnil
          obtain rfl := hrest.unique .nil
          by_cases hempty : current = []
          · subst hempty
            exact ⟨[], .nil, rfl, rfl⟩
          · refine ⟨[(current.reverse, [])], ?_, by simp [lineText], ?_⟩
            · simpa using Splitlines.last (by simpa using hempty)
                (hreverse current hcurrent)
            · simp [explicitlySeparatedLines, hempty, offsetLines]
      | lineFeed _ =>
          refine ⟨[(current.reverse, ['\n'])], ?_, by simp [lineText], ?_⟩
          · exact .cons (hreverse current hcurrent)
              (.single (by decide) fun h => absurd h (by decide)) hrest
          · simp [explicitlySeparatedLines, offsetLines]
      | pair =>
          refine ⟨[(current.reverse, ['\r', '\n'])], ?_, by simp [lineText], ?_⟩
          · exact .cons (hreverse current hcurrent) .pair hrest
          · simp [explicitlySeparatedLines, offsetLines]
  | cons c line ih =>
      rw [List.mem_cons, not_or] at hline
      by_cases hc : isExplicitSeparator c = true
      · obtain ⟨parts, hparts, hlength, heq⟩ :=
          ih (start + current.length + 1) unbroken_nil hline.2 hend.tail
        obtain ⟨hboundary, hne⟩ := isExplicitSeparator_eq_true_iff.1 hc
        refine ⟨(current.reverse, [c]) :: parts, ?_, ?_, ?_⟩
        · exact .cons (hreverse current hcurrent)
            (.single hboundary (hend.head?_ne hline.2)) hparts
        · simp only [List.flatMap_cons, List.length_append, hlength, lineText,
            List.length_reverse, List.length_cons, List.length_nil]
          omega
        · rw [explicitlySeparatedLines, if_pos hc]
          simp only [offsetLines, List.length_reverse, List.length_cons,
            List.length_nil, Nat.zero_add, ← heq, Nat.add_zero]
      · have hboundary : c ∉ lineBoundaries := fun h =>
          hc (isExplicitSeparator_eq_true_iff.2 ⟨h, Ne.symm hline.1⟩)
        obtain ⟨parts, hparts, hlength, heq⟩ :=
          ih start (hcurrent.cons hboundary) hline.2 hend.tail
        refine ⟨parts, by simpa using hparts, ?_, ?_⟩
        · rw [hlength]
          simp only [List.length_cons]
          omega
        · rw [explicitlySeparatedLines, if_neg hc, ← heq]
          rfl

/-- The reader of the search cuts at the boundaries, and its offsets are those
of the separators. -/
theorem separatedLinesFrom_spec {current : Text} (hcurrent : '\n' ∉ current)
    (cursor : Nat) (source : Text) :
    ∃ lines, Splitlines (current.reverse ++ source) lines ∧
      separatedLinesFrom cursor (nativeLines current source) =
        offsetLines cursor lines := by
  have hreverse : '\n' ∉ current.reverse := fun h =>
    hcurrent (List.mem_reverse.1 h)
  induction source generalizing current cursor with
  | nil =>
      obtain ⟨parts, hparts, -, heq⟩ := explicitlySeparatedLines_spec cursor
        unbroken_nil hreverse (.missing rfl) .nil
      cases current with
      | nil => exact ⟨[], .nil, rfl⟩
      | cons c current =>
          refine ⟨parts, by simpa using hparts, ?_⟩
          simpa [nativeLines, separatedLinesFrom] using heq
  | cons c rest ih =>
      by_cases hc : c = '\n'
      · subst hc
        by_cases hreturn : current.head? = some '\r'
        · obtain ⟨line, rfl⟩ : ∃ line, current = '\r' :: line := by
            cases current with
            | nil => cases hreturn
            | cons c line =>
                rw [List.head?_cons, Option.some.injEq] at hreturn
                exact ⟨line, hreturn ▸ rfl⟩
          obtain ⟨lines, hlines, hrest⟩ :=
            ih List.not_mem_nil (cursor + line.length + 2) List.not_mem_nil
          have hline : '\n' ∉ line.reverse := fun hmem =>
            hcurrent (List.mem_cons_of_mem _ (List.mem_reverse.1 hmem))
          obtain ⟨parts, hparts, hlength, heq⟩ :=
            explicitlySeparatedLines_spec cursor unbroken_nil hline .pair hlines
          refine ⟨parts ++ lines, by simpa using hparts, ?_⟩
          rw [offsetLines_append, hlength, ← heq, nativeLines, separatedLinesFrom]
          simp only [List.length_reverse, List.length_nil, List.length_cons,
            Nat.zero_add, Nat.add_zero, ← Nat.add_assoc, hrest]
        · obtain ⟨lines, hlines, hrest⟩ :=
            ih List.not_mem_nil (cursor + current.length + 1) List.not_mem_nil
          have hlast : current.reverse.getLast? ≠ some '\r' := by
            rwa [List.getLast?_reverse]
          obtain ⟨parts, hparts, hlength, heq⟩ := explicitlySeparatedLines_spec
            cursor unbroken_nil hreverse (.lineFeed hlast) hlines
          refine ⟨parts ++ lines, by simpa using hparts, ?_⟩
          have hnative : nativeLines current ('\n' :: rest) =
              (current.reverse, 1) :: nativeLines [] rest := by
            cases current with
            | nil => rfl
            | cons c line =>
                have hc : c ≠ '\r' := fun heq => hreturn (congrArg some heq)
                simp [nativeLines, hc]
          rw [offsetLines_append, hlength, ← heq, hnative, separatedLinesFrom]
          simp only [List.length_reverse, List.length_nil, List.length_cons,
            Nat.zero_add, Nat.add_zero, ← Nat.add_assoc, hrest]
      · have hnext : '\n' ∉ c :: current := by
          rw [List.mem_cons, not_or]
          exact ⟨fun heq => hc heq.symm, hcurrent⟩
        obtain ⟨lines, hlines, heq⟩ := ih hnext cursor fun h =>
          hnext (List.mem_reverse.1 h)
        have hnative : nativeLines current (c :: rest) =
            nativeLines (c :: current) rest := by
          cases current <;> simp [nativeLines]
        exact ⟨lines, by simpa using hlines, by rw [hnative, heq]⟩

theorem splitlines_linesWithSeparators (source : Text) :
    ∃ lines, Splitlines source lines ∧
      linesWithSeparators source = offsetLines 0 lines :=
  separatedLinesFrom_spec List.not_mem_nil 0 source

/-- Both readers cut a text into lines of the same contents. -/
theorem contents_linesWithSeparators (source : Text) :
    (linesWithSeparators source).map Line.content =
      (Wiki.pythonLines false source).map Wiki.SourceLine.content := by
  obtain ⟨lines, hlines, heq⟩ := splitlines_linesWithSeparators source
  obtain ⟨others, hothers, hcontents⟩ := splitlines_pythonLines source
  rw [heq, hcontents, map_content_offsetLines, hlines.unique hothers]

end Readers

end Yams
