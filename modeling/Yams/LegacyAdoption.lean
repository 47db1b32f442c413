/-
The adoption of a legacy `INDEX.md`.  A text is cut at one of its lines without
changing the lines, so what comes before the first legacy heading stays as it is;
a retired marker is one line of a well-formed region and stays one.
-/
import Mathlib.Data.List.TakeWhile
import Yams.CatalogForm
import Yams.LegacyIndex
import Yams.Program

namespace Yams.Wiki

section Lines

variable {start : Nat} {line text rest : Text} {c : Char}

/-- The lines of a text, without their endings. -/
def lineContents (text : Text) : List Text :=
  (logicalLinesFrom 0 [] text).map LogicalLine.content

/-- What ends a line before the text `rest`: a single CR only where no LF follows. -/
inductive LineEnding (rest : Text) : Text → Prop
  | lf : LineEnding rest ['\n']
  | crlf : LineEnding rest ['\r', '\n']
  | cr : rest.head? ≠ some '\n' → LineEnding rest ['\r']

attribute [local simp] logicalLinesFrom

theorem logicalLinesFrom_plain (hc : isLineEnd c = false) :
    logicalLinesFrom start line (c :: text) = logicalLinesFrom start (c :: line) text := by
  have hne : c ≠ '\r' := by
    rintro rfl
    cases hc
  cases text with
  | nil => simp [hc]
  | cons d text => simp [hc, hne]

theorem logicalLinesFrom_ending {ending : Text} (h : LineEnding rest ending) :
    logicalLinesFrom start line (ending ++ rest) =
      ⟨start, line.reverse⟩ ::
        logicalLinesFrom (start + line.length + ending.length) [] rest := by
  cases h with
  | lf => simp [isLineEnd]
  | crlf => simp
  | cr hhead =>
      cases rest with
      | nil => simp [isLineEnd]
      | cons d rest =>
          have hd : d ≠ '\n' := fun heq => hhead (by rw [heq]; rfl)
          simp [isLineEnd, hd]

/-- A text is one line without an ending, or a line, its ending and the rest. -/
theorem exists_line (text : Text) :
    (text.all fun c => !isLineEnd c) = true ∨
      ∃ content ending rest, text = content ++ (ending ++ rest) ∧
        (content.all fun c => !isLineEnd c) = true ∧ LineEnding rest ending := by
  induction text with
  | nil => exact .inl rfl
  | cons c text ih =>
      cases hc : isLineEnd c with
      | true =>
          right
          have hends : c = '\n' ∨ c = '\r' := of_decide_eq_true hc
          rcases hends with rfl | rfl
          · exact ⟨[], ['\n'], text, rfl, rfl, .lf⟩
          · by_cases hhead : text.head? = some '\n'
            · obtain ⟨rest, rfl⟩ := List.head?_eq_some_iff.1 hhead
              exact ⟨[], ['\r', '\n'], rest, rfl, rfl, .crlf⟩
            · exact ⟨[], ['\r'], text, rfl, rfl, .cr hhead⟩
      | false =>
          rcases ih with hplain | ⟨content, ending, rest, rfl, hcontent, hending⟩
          · left
            simp [hc, hplain]
          · right
            refine ⟨c :: content, ending, rest, rfl, ?_, hending⟩
            simp [hc, hcontent]

theorem logicalLinesFrom_append {content : Text}
    (h : (content.all fun c => !isLineEnd c) = true) :
    logicalLinesFrom start line (content ++ rest) =
      logicalLinesFrom start (content.reverse ++ line) rest := by
  induction content generalizing line with
  | nil => rfl
  | cons c content ih =>
      rw [List.all_cons, Bool.and_eq_true, Bool.not_eq_true'] at h
      rw [List.cons_append, logicalLinesFrom_plain h.1, ih h.2, List.reverse_cons,
        List.append_assoc, List.singleton_append]

theorem logicalLinesFrom_unended (h : (text.all fun c => !isLineEnd c) = true) :
    logicalLinesFrom start [] text = if text = [] then [] else [⟨start, text⟩] := by
  have hlines : logicalLinesFrom start [] (text ++ []) =
      logicalLinesFrom start (text.reverse ++ []) [] := logicalLinesFrom_append h
  rw [List.append_nil, List.append_nil] at hlines
  rw [hlines, logicalLinesFrom, List.reverse_reverse]
  simp only [List.reverse_eq_nil_iff]

theorem logicalLinesFrom_line {content ending : Text}
    (hcontent : (content.all fun c => !isLineEnd c) = true)
    (hending : LineEnding rest ending) :
    logicalLinesFrom start [] (content ++ (ending ++ rest)) =
      ⟨start, content⟩ ::
        logicalLinesFrom (start + content.length + ending.length) [] rest := by
  rw [logicalLinesFrom_append hcontent, List.append_nil, logicalLinesFrom_ending hending,
    List.reverse_reverse, List.length_reverse]

theorem LineEnding.length_pos {ending : Text} (h : LineEnding rest ending) :
    0 < ending.length := by
  cases h with
  | lf => exact Nat.one_pos
  | crlf => exact Nat.two_pos
  | cr _ => exact Nat.one_pos

theorem LineEnding.last {ending : Text} (h : LineEnding rest ending) :
    ∃ c, ending.getLast? = some c ∧ isLineEnd c = true := by
  cases h with
  | lf => exact ⟨'\n', rfl, rfl⟩
  | crlf => exact ⟨'\n', rfl, rfl⟩
  | cr _ => exact ⟨'\r', rfl, rfl⟩

/-- The ending of a line is also one before the first part of what follows. -/
theorem LineEnding.before {before after ending : Text}
    (h : LineEnding (before ++ after) ending) : LineEnding before ending := by
  cases h with
  | lf => exact .lf
  | crlf => exact .crlf
  | cr hhead =>
      apply LineEnding.cr
      intro hbefore
      apply hhead
      rw [List.head?_append, hbefore]
      rfl

/-- The text ends where a line ends, or before its first line. -/
def EndsLine (text : Text) : Prop := text = [] ∨ text.getLast?.any isLineEnd = true

/-- A text is cut before one of its lines. -/
theorem logicalLinesFrom_cut {front lines : List LogicalLine}
    (h : logicalLinesFrom start [] text = front ++ lines) (hlines : lines ≠ []) :
    ∃ before after, text = before ++ after ∧ EndsLine before ∧
      logicalLinesFrom start [] before = front ∧
      logicalLinesFrom (start + before.length) [] after = lines := by
  induction front generalizing start text with
  | nil => exact ⟨[], text, rfl, .inl rfl, rfl, h⟩
  | cons first front ih =>
      rcases exists_line text with hplain | ⟨content, ending, rest, rfl, hcontent, hending⟩
      · rw [logicalLinesFrom_unended hplain] at h
        split at h
        · cases h
        · have hnil := (List.append_eq_nil_iff.1 (List.cons.inj h).2.symm).2
          exact absurd hnil hlines
      · rw [logicalLinesFrom_line hcontent hending] at h
        obtain ⟨hfirst, hrest⟩ := List.cons.inj h
        obtain ⟨before, after, rfl, hends, hfront, hafter⟩ := ih hrest
        have hlength : start + (content ++ (ending ++ before)).length =
            start + content.length + ending.length + before.length := by
          simp only [List.length_append]
          omega
        refine ⟨content ++ (ending ++ before), after, by simp, ?_, ?_, ?_⟩
        · right
          rcases hends with rfl | hlast
          · obtain ⟨c, hc, hline⟩ := hending.last
            rw [List.append_nil, List.getLast?_append, hc]
            simpa using hline
          · cases hbefore : before.getLast? with
            | none =>
                rw [hbefore] at hlast
                cases hlast
            | some c =>
                rw [hbefore] at hlast
                simpa [List.getLast?_append, hbefore] using hlast
        · rw [logicalLinesFrom_line hcontent hending.before, hfirst, hfront]
        · rw [hlength]
          exact hafter

theorem start_of_logicalLinesFrom {first : LogicalLine} {lines : List LogicalLine}
    (h : logicalLinesFrom start [] text = first :: lines) : first.start = start := by
  rcases exists_line text with hplain | ⟨content, ending, rest, rfl, hcontent, hending⟩
  · rw [logicalLinesFrom_unended hplain] at h
    split at h
    · cases h
    · rw [← (List.cons.inj h).1]
  · rw [logicalLinesFrom_line hcontent hending] at h
    rw [← (List.cons.inj h).1]

/-- Where a text starts does not change the contents of its lines. -/
theorem contents_logicalLinesFrom (start : Nat) (text : Text) :
    (logicalLinesFrom start [] text).map LogicalLine.content = lineContents text := by
  have hshift : ∀ (n : Nat) (text : Text), text.length ≤ n → ∀ first second,
      (logicalLinesFrom first [] text).map LogicalLine.content =
        (logicalLinesFrom second [] text).map LogicalLine.content := by
    intro n
    induction n with
    | zero =>
        intro text hlength first second
        rw [List.length_eq_zero_iff.1 (Nat.le_zero.1 hlength)]
        rfl
    | succ n ih =>
        intro text hlength first second
        rcases exists_line text with hplain |
          ⟨content, ending, rest, rfl, hcontent, hending⟩
        · rw [logicalLinesFrom_unended hplain, logicalLinesFrom_unended hplain]
          split
          · rfl
          · rfl
        · have hpos := hending.length_pos
          simp only [List.length_append] at hlength
          rw [logicalLinesFrom_line hcontent hending,
            logicalLinesFrom_line hcontent hending, List.map_cons, List.map_cons,
            ih rest (by omega)]
  exact hshift text.length text le_rfl start 0

end Lines

section Markers

variable {marker before between after : Text} {c : Char}

/-- A marked text has no marker before its first one. -/
theorem Marked.clean_before (hmarker : IsMarker marker)
    (h : Marked marker before c between after) : ¬ marker <:+: before := by
  have hbegins := h.begins
  rw [List.append_assoc,
    matchIndices_append_of_cut (hmarker.cut h.startsLine) hmarker.1] at hbegins
  have hfound : matchIndices marker 0 (0 + before.length) (marker ++ [c]) ≠ [] := by
    rw [Ne, matchIndices_eq_nil_iff hmarker.1, not_not]
    exact ⟨[], [c], rfl⟩
  rcases List.append_eq_singleton_iff.1 hbegins with ⟨hnil, -⟩ | ⟨-, hnil⟩
  · exact (matchIndices_eq_nil_iff hmarker.1 0).1 hnil
  · exact absurd hnil hfound

/-- A marked text is split at its marker. -/
theorem splitOnceAt_markedText (hmarker : IsMarker marker)
    (h : Marked marker before c between after) :
    splitOnceAt marker (markedText marker before c between after) =
      some (before, [c] ++ between ++ (endMarker ++ after)) := by
  have htext : markedText marker before c between after =
      before ++ (marker ++ ([c] ++ between ++ (endMarker ++ after))) := by
    simp [markedText]
  have hstart (rest : Text) : splitOnceAt marker (marker ++ rest) = some ([], rest) := by
    cases hcons : marker ++ rest with
    | nil => exact absurd (List.append_eq_nil_iff.1 hcons).1 hmarker.1
    | cons d tail =>
        have hprefix : marker <+: d :: tail := ⟨rest, hcons⟩
        rw [splitOnceAt, if_pos hprefix, ← hcons, List.drop_left]
  rw [htext, splitOnceAt_append_of_cut (hmarker.cut h.startsLine) (h.clean_before hmarker),
    hstart, Option.map_some, List.append_nil]

/-- The region stays well formed when another marker, which is nowhere in the text,
takes the place of its marker. -/
theorem Marked.remark {other : Text} (hother : IsMarker other)
    (h : Marked marker before c between after)
    (hfresh : ¬ other <:+: markedText marker before c between after)
    (halone : matchIndices other 0 0 (other ++ [c]) = [0])
    (hend : ¬ endMarker <:+: other ++ [c]) :
    Marked other before c between after := by
  have hbefore : ¬ other <:+: before := fun hmark =>
    hfresh (hmark.trans ⟨[], marker ++ [c] ++ between ++ (endMarker ++ after), by
      simp [markedText]⟩)
  have hnoEnd : ¬ endMarker <:+: before := fun hmark =>
    h.noEnd (hmark.trans ⟨[], marker ++ [c], by simp⟩)
  exact
    { h with
      begins := by
        rw [List.append_assoc,
          matchIndices_append_of_cut (hother.cut h.startsLine) hother.1,
          (matchIndices_eq_nil_iff hother.1 0).2 hbefore, matchIndices_offset, halone]
        simp
      noEnd := by
        rw [List.append_assoc,
          infix_append_iff_of_cut (isMarker_end.cut h.startsLine) isMarker_end.1]
        exact not_or.2 ⟨hnoEnd, hend⟩
      cleanBegin := fun hmark =>
        hfresh (hmark.trans ⟨before ++ marker ++ [c], endMarker ++ after, by
          simp [markedText]⟩)
      noBegin := fun hmark =>
        hfresh (hmark.trans ⟨before ++ marker ++ [c] ++ between, [], by
          simp [markedText]⟩) }

/-- The BEGIN marker stands alone before either ending of a line. -/
theorem beginMarker_alone (hc : isLineEnd c = true) :
    matchIndices beginMarker 0 0 (beginMarker ++ [c]) = [0] ∧
      ¬ endMarker <:+: beginMarker ++ [c] := by
  have hends : c = '\n' ∨ c = '\r' := of_decide_eq_true hc
  unfold beginMarker
  rw [String.toList_append]
  repeat rw [String.toList_ofList]
  rcases hends with rfl | rfl
  · exact ⟨by decide, by decide +kernel⟩
  · exact ⟨by decide, by decide +kernel⟩

theorem beginMarker_absent :
    ¬ beginMarker <:+: ['\n'] ∧ ¬ beginMarker <:+: endMarker ++ ['\n'] := by
  unfold beginMarker endMarker
  rw [String.toList_append]
  repeat rw [String.toList_ofList]
  exact ⟨by decide, by decide⟩

theorem isMarker_retired : ∀ retired ∈ retiredBeginMarkers, IsMarker retired := by
  have hall : (retiredBeginMarkers.all fun retired =>
      !retired.isEmpty && retired.all fun c => !isLineEnd c) = true := by
    unfold retiredBeginMarkers
    rw [String.toList_append]
    repeat rw [String.toList_ofList]
    decide
  intro retired hretired
  have hmarker := List.all_eq_true.1 hall retired hretired
  rw [Bool.and_eq_true] at hmarker
  refine ⟨?_, hmarker.2⟩
  rintro rfl
  cases hmarker.1

end Markers

section Adoption

variable {current adopted : Text}

/-- What an adoption makes of an index.  A retired marker, which is a line of its own,
is replaced; or the text is cut before its first legacy heading, and what comes after
the cut is legacy lines only. -/
inductive AdoptedFrom (current adopted : Text) : Prop
  | marker (retired before after : Text) (hretired : retired ∈ retiredBeginMarkers)
      (hcurrent : current = before ++ retired ++ after)
      (hline : isCompleteLine current before.length (before.length + retired.length) = true)
      (hadopted : adopted = before ++ beginMarker ++ after)
  | headings (preamble legacy : Text) (hcurrent : current = preamble ++ legacy)
      (hlines : lineContents current = lineContents preamble ++ lineContents legacy)
      (hbefore : ∀ line ∈ lineContents preamble, line ∉ legacyHeadings)
      (hfirst : ∃ heading rest, lineContents legacy = heading :: rest ∧
        heading ∈ legacyHeadings)
      (hlegacy : ∀ line ∈ lineContents legacy, line ∈ legacyHeadings ∨
        isLegacyEntry line = true ∨ line = [])
      (hadopted : adopted = preamble ++ beginMarker ++ "\n\n".toList ++ endMarker ++
        "\n".toList)

/-- A text with one well-formed region of the current markers. -/
def HasRegion (text : Text) : Prop :=
  ∃ before c between after, text = markedText beginMarker before c between after ∧
    Marked beginMarker before c between after

theorem adoptMarker_adopts {retired : Text} (hretired : retired ∈ retiredBeginMarkers)
    (hfresh : ¬ beginMarker <:+: current) (h : adoptMarker current retired = .ok adopted) :
    HasRegion adopted ∧ AdoptedFrom current adopted := by
  have hmarker := isMarker_retired retired hretired
  obtain ⟨region, hregion, h⟩ := except_bind_eq_ok.1 h
  obtain ⟨before, c, between, after, rfl, hmarked, -⟩ := exists_marked hmarker hregion
  rw [splitOnceAt_markedText hmarker hmarked] at h
  have hadopted := Except.ok.inj h
  obtain ⟨halone, hend⟩ := beginMarker_alone hmarked.lineEnd
  have hagain := hmarked.remark isMarker_begin hfresh halone hend
  have htext : markedText retired before c between after =
      before ++ retired ++ ([c] ++ between ++ (endMarker ++ after)) := by
    simp [markedText]
  refine ⟨⟨before, c, between, after, ?_, hagain⟩, ?_⟩
  · rw [← hadopted]
    simp [markedText]
  · refine .marker retired before ([c] ++ between ++ (endMarker ++ after)) hretired htext ?_
      hadopted.symm
    rw [htext, isCompleteLine_append]
    refine decide_eq_true ⟨hmarked.startsLine, .inr ?_⟩
    simpa using hmarked.lineEnd

theorem firstUnknownLine_eq_none {lines : List LogicalLine} {number : Nat}
    (h : firstUnknownLine number lines = none) :
    ∀ line ∈ lines, isLegacyLine line.content = true := by
  induction lines generalizing number with
  | nil => exact fun line hline => absurd hline List.not_mem_nil
  | cons first rest ih =>
      rw [firstUnknownLine] at h
      split at h
      next hfirst =>
        intro line hline
        rcases List.mem_cons.1 hline with rfl | hrest
        · exact hfirst
        · exact ih h line hrest
      next => cases h

theorem isLegacyLine_iff {line : Text} : isLegacyLine line = true ↔
    line ∈ legacyHeadings ∨ isLegacyEntry line = true ∨ line = [] := by
  unfold isLegacyLine
  rw [Bool.or_eq_true, Bool.or_eq_true, decide_eq_true_eq, List.contains_iff_mem]
  tauto

/-- Empty markers after a text without markers are a well-formed region. -/
theorem marked_empty {preamble : Text} (hends : EndsLine preamble)
    (hbegin : ¬ beginMarker <:+: preamble) (hend : ¬ endMarker <:+: preamble) :
    Marked beginMarker preamble '\n' ['\n'] ['\n'] where
  lineEnd := rfl
  startsLine := hends
  endsLine := .inr rfl
  separated := .inr rfl
  begins := by
    rw [List.append_assoc, matchIndices_append_of_cut (isMarker_begin.cut hends)
      isMarker_begin.1, (matchIndices_eq_nil_iff isMarker_begin.1 0).2 hbegin,
      matchIndices_offset, (beginMarker_alone rfl).1]
    simp
  noEnd := by
    rw [List.append_assoc,
      infix_append_iff_of_cut (isMarker_end.cut hends) isMarker_end.1]
    exact not_or.2 ⟨hend, (beginMarker_alone rfl).2⟩
  cleanBegin := beginMarker_absent.1
  cleanEnd := by decide
  ends := by decide
  noBegin := beginMarker_absent.2

theorem adoptHeadings_adopts (hbegin : ¬ beginMarker <:+: current)
    (hend : ¬ endMarker <:+: current) (h : adoptHeadings current = .ok adopted) :
    HasRegion adopted ∧ AdoptedFrom current adopted := by
  let unknown (line : LogicalLine) : Bool := !legacyHeadings.contains line.content
  let front := (logicalLinesFrom 0 [] current).takeWhile unknown
  unfold adoptHeadings at h
  dsimp only at h
  split at h
  · cases h
  next first rest hdrop =>
  split at h
  · cases h
  next hlegacy =>
  have hlines : logicalLinesFrom 0 [] current = front ++ first :: rest := by
    rw [← hdrop]
    exact (List.takeWhile_append_dropWhile).symm
  obtain ⟨preamble, legacy, rfl, hends, hfront, hrest⟩ :=
    logicalLinesFrom_cut hlines (by simp)
  have hcontents : lineContents legacy = first.content :: rest.map LogicalLine.content := by
    rw [← contents_logicalLinesFrom (0 + preamble.length), hrest, List.map_cons]
  have hstart : first.start = preamble.length := by
    rw [start_of_logicalLinesFrom hrest, Nat.zero_add]
  have hadopted := Except.ok.inj h
  rw [hstart, List.take_left] at hadopted
  have hheading : first.content ∈ legacyHeadings := by
    have hhead := List.head?_dropWhile_not unknown (logicalLinesFrom 0 [] (preamble ++ legacy))
    rw [hdrop] at hhead
    simpa [unknown] using hhead
  have hbeginBefore : ¬ beginMarker <:+: preamble := fun hmark =>
    hbegin (hmark.trans ⟨[], legacy, rfl⟩)
  have hendBefore : ¬ endMarker <:+: preamble := fun hmark =>
    hend (hmark.trans ⟨[], legacy, rfl⟩)
  refine ⟨⟨preamble, '\n', ['\n'], ['\n'], ?_, marked_empty hends hbeginBefore hendBefore⟩,
    ?_⟩
  · rw [← hadopted]
    simp [markedText]
  · refine .headings preamble legacy rfl ?_ ?_ ⟨_, _, hcontents, hheading⟩ ?_ hadopted.symm
    · rw [lineContents, hlines, List.map_append, lineContents, hfront, hcontents]
      rfl
    · intro line hline hmem
      rw [lineContents, hfront] at hline
      obtain ⟨found, hfound, rfl⟩ := List.mem_map.1 hline
      have hunknown := List.mem_takeWhile_imp hfound
      simp [unknown, hmem] at hunknown
    · intro line hline
      rw [hcontents, ← List.map_cons] at hline
      obtain ⟨found, hfound, rfl⟩ := List.mem_map.1 hline
      exact isLegacyLine_iff.1 (firstUnknownLine_eq_none hlegacy found hfound)

/-- An adoption keeps everything but generated text.  The result has one well-formed
region, which takes every valid list of pages, and is not adopted again. -/
theorem adoptLegacy_keeps (h : adoptLegacy current = .ok adopted) :
    AdoptedFrom current adopted ∧ HasRegion adopted ∧
      (∃ region, markerRegion adopted = .ok region) ∧
      (∀ pages, validatePages pages = .ok () →
        ∃ canonical, rebuildIndex adopted pages = .ok canonical) ∧
      ∃ error, adoptLegacy adopted = .error error := by
  have hadopts : HasRegion adopted ∧ AdoptedFrom current adopted := by
    unfold adoptLegacy at h
    split at h
    · cases h
    next hbegin =>
    rw [contains_iff] at hbegin
    split at h
    next retired hfind =>
      exact adoptMarker_adopts (List.mem_of_find?_eq_some hfind) hbegin h
    next =>
      split at h
      next =>
        exact adoptMarker_adopts List.mem_cons_self hbegin h
      next hend =>
        rw [contains_iff] at hend
        exact adoptHeadings_adopts hbegin hend h
  obtain ⟨hregion, hfrom⟩ := hadopts
  refine ⟨hfrom, hregion, ?_⟩
  obtain ⟨before, c, between, after, rfl, hmarked⟩ := hregion
  refine ⟨⟨_, markerRegion_of_marked hmarked⟩, fun pages hpages =>
    ⟨_, rebuildIndex_of_marked hmarked hpages⟩, ?_⟩
  have hcontains : contains beginMarker (markedText beginMarker before c between after) =
      true := by
    apply contains_iff.2
    exact ⟨before, [c] ++ between ++ (endMarker ++ after), by simp [markedText]⟩
  exact ⟨_, by rw [adoptLegacy, if_pos hcontains]⟩

/-- An index without markers is adopted by its headings. -/
theorem adoptLegacy_of_headings (hbegin : contains beginMarker current = false)
    (hretired : (retiredBeginMarkers.find? fun marker => contains marker current) = none)
    (hend : contains endMarker current = false) :
    adoptLegacy current = adoptHeadings current := by
  rw [adoptLegacy, if_neg (by rw [hbegin]; decide), hretired]
  dsimp only
  rw [if_neg (by rw [hend]; decide)]

theorem firstUnknownLine_of_legacy {lines : List LogicalLine} {number : Nat}
    (h : ∀ line ∈ lines, isLegacyLine line.content = true) :
    firstUnknownLine number lines = none := by
  induction lines generalizing number with
  | nil => rfl
  | cons first rest ih =>
      rw [firstUnknownLine, if_pos (h first List.mem_cons_self)]
      exact ih fun line hline => h line (List.mem_cons_of_mem first hline)

theorem adoptHeadings_of_lines {first : LogicalLine} {rest : List LogicalLine}
    (hdrop : (logicalLinesFrom 0 [] current).dropWhile
      (fun line => !legacyHeadings.contains line.content) = first :: rest)
    (hlegacy : ∀ line ∈ first :: rest, isLegacyLine line.content = true) :
    adoptHeadings current = .ok (current.take first.start ++ beginMarker ++
      "\n\n".toList ++ endMarker ++ "\n".toList) := by
  unfold adoptHeadings
  dsimp only
  rw [hdrop]
  dsimp only
  rw [firstUnknownLine_of_legacy hlegacy]

namespace AdoptionSample

/-- An index of the first shape. -/
def headings : Text :=
  "# Memory\n\n## Decisions\n- [a](pages/a.md) — An entry.\n\n## Patterns".toList

def first : LogicalLine := ⟨10, "## Decisions".toList⟩

def rest : List LogicalLine :=
  [⟨23, "- [a](pages/a.md) — An entry.".toList⟩, ⟨53, []⟩, ⟨54, "## Patterns".toList⟩]

theorem adoptLegacy_keeps_headings :
    AdoptedFrom headings ("# Memory\n\n".toList ++ beginMarker ++ "\n\n".toList ++
      endMarker ++ "\n".toList) := by
  have hbegin : contains beginMarker headings = false := by
    unfold beginMarker headings
    rw [String.toList_append]
    repeat rw [String.toList_ofList]
    decide
  have hretired : (retiredBeginMarkers.find? fun marker =>
      contains marker headings) = none := by
    unfold retiredBeginMarkers headings
    rw [String.toList_append]
    repeat rw [String.toList_ofList]
    decide
  have hend : contains endMarker headings = false := by
    unfold endMarker headings
    repeat rw [String.toList_ofList]
    decide
  have hdrop : (logicalLinesFrom 0 [] headings).dropWhile
      (fun line => !legacyHeadings.contains line.content) = first :: rest := by
    unfold headings legacyHeadings first rest
    repeat rw [String.toList_ofList]
    decide
  have hlegacy : ∀ line ∈ first :: rest, isLegacyLine line.content = true := by
    unfold isLegacyLine legacyHeadings first rest
    repeat rw [String.toList_ofList]
    decide
  apply (adoptLegacy_keeps _).1
  rw [adoptLegacy_of_headings hbegin hretired hend, adoptHeadings_of_lines hdrop hlegacy]
  unfold headings
  repeat rw [String.toList_ofList]
  rfl

end AdoptionSample

end Adoption

end Yams.Wiki
