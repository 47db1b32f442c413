/-
Which headings count: a declarative account of fenced code blocks, over the lines of a
text, and what the scan of a policy file makes of it.
-/
import Mathlib.Data.List.TakeWhile
import Yams.InitPolicy

namespace Yams.Init

open Yams.Wiki (splitInclusive splitInclusive_append_newline splitInclusive_flatten)

section Fences

/-- At most three spaces, at least three markers, and an info string that does not go on
with the marker; after backticks it has no backtick. -/
def OpensFence (line : Text) (fence : Fence) : Prop :=
  ∃ indent info, indent ≤ 3 ∧ 3 ≤ fence.2 ∧
    (fence.1 = '`' ∧ '`' ∉ info ∨ fence.1 = '~' ∧ info.head? ≠ some '~') ∧
    line = List.replicate indent ' ' ++ (List.replicate fence.2 fence.1 ++ info)

/-- At most three spaces, at least as many of the same marker, and blanks. -/
def ClosesFence (line : Text) (fence : Fence) : Prop :=
  ∃ indent width blanks, indent ≤ 3 ∧ fence.2 ≤ width ∧
    (∀ c ∈ blanks, c = ' ' ∨ c = '\t') ∧
    line = List.replicate indent ' ' ++ (List.replicate width fence.1 ++ blanks)

/-- A text is a run of one character and what follows it. -/
theorem run_append (c : Char) (text : Text) :
    ∃ n rest, rest.head? ≠ some c ∧ text = List.replicate n c ++ rest := by
  refine ⟨(text.takeWhile (· = c)).length, text.dropWhile (· = c), ?_, ?_⟩
  · intro hhead
    have hfirst := List.head?_dropWhile_not (fun x => decide (x = c)) text
    rw [hhead] at hfirst
    simp at hfirst
  · have hrun : text.takeWhile (· = c) = List.replicate (text.takeWhile (· = c)).length c := by
      apply List.eq_replicate_iff.2
      refine ⟨rfl, fun x hx => ?_⟩
      exact of_decide_eq_true (List.mem_takeWhile_imp (p := fun x => decide (x = c)) hx)
    rw [← hrun, List.takeWhile_append_dropWhile]

theorem takeWhile_run {c : Char} {n : Nat} {rest : Text} (h : rest.head? ≠ some c) :
    (List.replicate n c ++ rest).takeWhile (· = c) = List.replicate n c := by
  rw [List.takeWhile_append_of_pos fun x hx => decide_eq_true (List.eq_of_mem_replicate hx)]
  cases rest with
  | nil => exact List.append_nil _
  | cons first rest =>
      have hfirst : first ≠ c := fun heq => h (congrArg some heq)
      rw [List.takeWhile_cons_of_neg (by simp [hfirst]), List.append_nil]

theorem drop_run {c : Char} {n : Nat} {rest : Text} (h : rest.head? ≠ some c) :
    (List.replicate n c ++ rest).drop
      ((List.replicate n c ++ rest).takeWhile (· = c)).length = rest := by
  rw [takeWhile_run h]
  exact List.drop_left' rfl

/-- The indentation of a line and the rest of it. -/
theorem indentation (indent : Nat) {rest : Text} (h : rest.head? ≠ some ' ') :
    ((List.replicate indent ' ' ++ rest).takeWhile isBlank).length = indent ∧
      (List.replicate indent ' ' ++ rest).drop indent = rest := by
  constructor
  · change ((List.replicate indent ' ' ++ rest).takeWhile (· = ' ')).length = indent
    rw [takeWhile_run h, List.length_replicate]
  · exact List.drop_left' List.length_replicate

/-- A line that is recognised opens a fence. -/
theorem opens_of_opensFence {line : Text} {fence : Fence} (h : opensFence line = some fence) :
    OpensFence line fence := by
  obtain ⟨indent, rest, hrest, rfl⟩ := run_append ' ' line
  obtain ⟨hlength, hdrop⟩ := indentation indent hrest
  rw [opensFence, hlength, hdrop] at h
  split at h
  next => cases h
  next hindent =>
    cases rest with
    | nil => cases h
    | cons marker rest =>
        dsimp only at h
        split at h
        next => cases h
        next hmarker =>
          obtain ⟨width, info, hinfo, hsplit⟩ := run_append marker (marker :: rest)
          rw [hsplit, takeWhile_run hinfo, List.length_replicate,
            List.drop_left' List.length_replicate] at h
          split at h
          next => cases h
          next hwidth =>
            obtain rfl := Option.some.inj h
            rw [not_or, Nat.not_lt] at hwidth
            refine ⟨indent, info, Nat.le_of_not_lt hindent, hwidth.1, ?_, by rw [hsplit]⟩
            by_cases htick : marker = '`'
            · exact .inl ⟨htick, fun hmem => hwidth.2 ⟨htick, hmem⟩⟩
            · have htilde : marker = '~' := by
                by_contra hother
                exact hmarker ⟨htick, hother⟩
              exact .inr ⟨htilde, htilde ▸ hinfo⟩

theorem head?_replicate_append (c : Char) {n : Nat} (rest : Text) (h : 0 < n) :
    (List.replicate n c ++ rest).head? = some c := by
  cases n with
  | zero => cases h
  | succ n => rfl

/-- A line that opens a fence is recognised. -/
theorem opensFence_of_opens {line : Text} {fence : Fence} (h : OpensFence line fence) :
    opensFence line = some fence := by
  obtain ⟨marker, width⟩ := fence
  obtain ⟨indent, info, hindent, hwidth, hmarker, rfl⟩ := h
  change 3 ≤ width at hwidth
  have hhead := head?_replicate_append marker info
    (Nat.lt_of_lt_of_le (by decide) hwidth)
  have hkind : (marker = '`' ∨ marker = '~') ∧ info.head? ≠ some marker ∧
      ¬ (marker = '`' ∧ '`' ∈ info) := by
    rcases hmarker with ⟨rfl, hinfo⟩ | ⟨rfl, hinfo⟩
    · refine ⟨.inl rfl, fun hfirst => ?_, fun hboth => hinfo hboth.2⟩
      exact hinfo (List.mem_of_mem_head? hfirst)
    · exact ⟨.inr rfl, hinfo, fun hboth => absurd hboth.1 (by decide)⟩
  obtain ⟨hmarker, hinfo, htick⟩ := hkind
  have hspace : (List.replicate width marker ++ info).head? ≠ some ' ' := by
    rw [hhead]
    rcases hmarker with rfl | rfl <;> decide
  obtain ⟨hlength, hdrop⟩ := indentation indent hspace
  rw [opensFence, hlength, hdrop, if_neg (Nat.not_lt.2 hindent)]
  obtain ⟨rest, hrest⟩ : ∃ rest, List.replicate width marker ++ info = marker :: rest := by
    cases width with
    | zero => cases hwidth
    | succ width => exact ⟨_, rfl⟩
  have hrun := takeWhile_run (n := width) hinfo
  have hafter := drop_run (n := width) hinfo
  rw [hrest] at hrun hafter ⊢
  have hboth : ¬ (marker ≠ '`' ∧ marker ≠ '~') := by
    rcases hmarker with rfl | rfl <;> decide
  rw [hrun, List.length_replicate] at hafter
  simp only [if_neg hboth, hrun, List.length_replicate, hafter, htick, or_false,
    if_neg (Nat.not_lt.2 hwidth)]

theorem opensFence_iff {line : Text} {fence : Fence} :
    opensFence line = some fence ↔ OpensFence line fence :=
  ⟨opens_of_opensFence, opensFence_of_opens⟩

theorem opensFence_eq_none {line : Text} (h : ∀ fence, ¬ OpensFence line fence) :
    opensFence line = none := by
  cases hopens : opensFence line with
  | none => rfl
  | some fence => exact absurd (opens_of_opensFence hopens) (h fence)

/-- An open fence has one of the two markers. -/
theorem OpensFence.marker {line : Text} {fence : Fence} (h : OpensFence line fence) :
    (fence.1 = '`' ∨ fence.1 = '~') ∧ 3 ≤ fence.2 := by
  obtain ⟨_, _, _, hwidth, hmarker, _⟩ := h
  exact ⟨hmarker.imp And.left And.left, hwidth⟩

theorem closesFence_iff {line : Text} {fence : Fence}
    (hmarker : fence.1 = '`' ∨ fence.1 = '~') (hwidth : 3 ≤ fence.2) :
    closesFence line fence = true ↔ ClosesFence line fence := by
  constructor
  · intro h
    obtain ⟨indent, rest, hrest, rfl⟩ := run_append ' ' line
    obtain ⟨hlength, hdrop⟩ := indentation indent hrest
    obtain ⟨width, blanks, hblanks, rfl⟩ := run_append fence.1 rest
    rw [closesFence, hlength, hdrop, takeWhile_run hblanks, List.length_replicate] at h
    dsimp only at h
    rw [List.drop_left' List.length_replicate] at h
    split at h
    next => cases h
    next hindent =>
      obtain ⟨hlong, hall⟩ := of_decide_eq_true h
      refine ⟨indent, width, blanks, Nat.le_of_not_lt hindent, hlong, fun c hc => ?_, rfl⟩
      exact of_decide_eq_true (List.all_eq_true.1 hall c hc)
  · rintro ⟨indent, width, blanks, hindent, hlong, hblanks, rfl⟩
    have hhead := head?_replicate_append fence.1 blanks
      (Nat.lt_of_lt_of_le (by decide) (hwidth.trans hlong))
    have hspace : (List.replicate width fence.1 ++ blanks).head? ≠ some ' ' := by
      rw [hhead]
      rcases hmarker with heq | heq <;> rw [heq] <;> decide
    have hafter : blanks.head? ≠ some fence.1 := by
      intro hfirst
      rcases hblanks _ (List.mem_of_mem_head? hfirst) with heq | heq <;>
        rcases hmarker with hm | hm <;> rw [hm] at heq <;> revert heq <;> decide
    obtain ⟨hlength, hdrop⟩ := indentation indent hspace
    rw [closesFence, hlength, hdrop, takeWhile_run hafter, List.length_replicate,
      if_neg (Nat.not_lt.2 hindent)]
    dsimp only
    rw [List.drop_left' List.length_replicate]
    exact decide_eq_true ⟨hlong, List.all_eq_true.2 fun c hc => decide_eq_true (hblanks c hc)⟩

end Fences

section Lines

/-- A carriage return before a line end belongs to the line end. -/
def Ends (line ending : Text) : Prop :=
  ending = [] ∧ line.getLast? ≠ some '\r' ∨ ending = ['\r']

/-- The lines of a text without their ends, which are LF or CRLF; the last line may have
none, or a CR. -/
inductive LinesOf : Text → List Text → Prop
  | nil : LinesOf [] []
  | last {line ending : Text} (hline : '\n' ∉ line) (hends : Ends line ending)
      (hne : line ++ ending ≠ []) : LinesOf (line ++ ending) [line]
  | cons {line ending rest : Text} {lines : List Text} (hline : '\n' ∉ line)
      (hends : Ends line ending) (hrest : LinesOf rest lines) :
      LinesOf (line ++ ending ++ '\n' :: rest) (line :: lines)

/-- `Outside unclosed lines shown`: of these lines `shown` lie outside of fenced blocks; the
end of the text closes a block that is `unclosed`. -/
inductive Outside : Bool → List Text → List Text → Prop
  | nil : Outside false [] []
  | line {unclosed : Bool} {line : Text} {rest shown : List Text}
      (hline : ∀ fence, ¬ OpensFence line fence) (hrest : Outside unclosed rest shown) :
      Outside unclosed (line :: rest) (line :: shown)
  | block {unclosed : Bool} {first last : Text} {fence : Fence}
      {inside rest shown : List Text} (hopens : OpensFence first fence)
      (hinside : ∀ line ∈ inside, ¬ ClosesFence line fence)
      (hcloses : ClosesFence last fence) (hrest : Outside unclosed rest shown) :
      Outside unclosed (first :: (inside ++ last :: rest)) shown
  | unclosed {first : Text} {fence : Fence} {inside : List Text}
      (hopens : OpensFence first fence) (hinside : ∀ line ∈ inside, ¬ ClosesFence line fence) :
      Outside true (first :: inside) []

/-- The content of a raw line. -/
def content (rawLine : Text) : Text := withoutEnding '\r' (withoutEnding '\n' rawLine)

theorem withoutEnding_append (ending : Char) (line : Text) :
    withoutEnding ending (line ++ [ending]) = line := by
  simp [withoutEnding]

theorem withoutEnding_of_ne {ending : Char} {line : Text} (h : line.getLast? ≠ some ending) :
    withoutEnding ending line = line := if_neg h

theorem withoutEnding_ends {line ending : Text} (h : Ends line ending) :
    withoutEnding '\r' (line ++ ending) = line := by
  rcases h with ⟨rfl, hlast⟩ | rfl
  · rw [List.append_nil, withoutEnding_of_ne hlast]
  · exact withoutEnding_append _ _

theorem content_line {line ending : Text} (h : Ends line ending) :
    content (line ++ ending ++ ['\n']) = line := by
  rw [content, withoutEnding_append, withoutEnding_ends h]

theorem Ends.not_mem {line ending : Text} (h : Ends line ending) (hline : '\n' ∉ line) :
    '\n' ∉ line ++ ending := by
  rcases h with ⟨rfl, -⟩ | rfl
  · rwa [List.append_nil]
  · intro hmem
    rcases List.mem_append.1 hmem with hold | hnew
    · exact hline hold
    · exact absurd (List.mem_singleton.1 hnew) (by decide)

theorem splitInclusive_single {line : Text} (hline : '\n' ∉ line) (hne : line ≠ []) :
    splitInclusive line = [line] := by
  induction line with
  | nil => exact absurd rfl hne
  | cons c line ih =>
      rw [List.mem_cons, not_or] at hline
      rw [splitInclusive, if_neg (Ne.symm hline.1)]
      cases line with
      | nil => rfl
      | cons d line => rw [ih hline.2 (List.cons_ne_nil _ _)]

/-- The scan looks at the lines of the text. -/
theorem LinesOf.contents {source : Text} {lines : List Text} (h : LinesOf source lines) :
    (splitInclusive source).map content = lines := by
  induction h with
  | nil => rfl
  | @last line ending hline hends hne =>
      have hwhole := hends.not_mem hline
      have hlast : (line ++ ending).getLast? ≠ some '\n' := fun heq =>
        hwhole (List.mem_of_getLast? heq)
      rw [splitInclusive_single hwhole hne, List.map_singleton, content,
        withoutEnding_of_ne hlast, withoutEnding_ends hends]
  | @cons line ending rest lines hline hends _ ih =>
      rw [splitInclusive_append_newline (hends.not_mem hline), List.map_cons,
        content_line hends, ih]

theorem ends_of (text : Text) : ∃ line ending, text = line ++ ending ∧ Ends line ending := by
  by_cases hlast : text.getLast? = some '\r'
  · obtain ⟨line, rfl⟩ := List.getLast?_eq_some_iff.1 hlast
    exact ⟨line, ['\r'], rfl, .inr rfl⟩
  · exact ⟨text, [], (List.append_nil _).symm, .inl ⟨rfl, hlast⟩⟩

/-- Every text has its lines. -/
theorem exists_linesOf (source : Text) : ∃ lines, LinesOf source lines := by
  induction hlength : source.length using Nat.strongRecOn generalizing source with
  | ind n ih =>
      by_cases hmem : '\n' ∈ source
      · obtain ⟨first, rest, rfl, hfirst⟩ := List.eq_append_cons_of_mem hmem
        obtain ⟨lines, hlines⟩ := ih rest.length (by
          rw [← hlength, List.length_append, List.length_cons]
          omega) rest rfl
        obtain ⟨line, ending, rfl, hends⟩ := ends_of first
        exact ⟨_, .cons (fun hline => hfirst (List.mem_append_left _ hline)) hends hlines⟩
      · by_cases hnil : source = []
        · subst hnil
          exact ⟨[], .nil⟩
        · obtain ⟨line, ending, rfl, hends⟩ := ends_of source
          exact ⟨_, .last (fun hline => hmem (List.mem_append_left _ hline)) hends hnil⟩

/-- Every list of lines has those that lie outside of fenced blocks. -/
theorem exists_outside (lines : List Text) :
    ∃ unclosed shown, Outside unclosed lines shown := by
  induction hlength : lines.length using Nat.strongRecOn generalizing lines with
  | ind n ih =>
      cases lines with
      | nil => exact ⟨false, [], .nil⟩
      | cons first rest =>
          rw [List.length_cons] at hlength
          cases hopens : opensFence first with
          | none =>
              obtain ⟨unclosed, shown, hrest⟩ := ih rest.length (by omega) rest rfl
              refine ⟨unclosed, first :: shown, .line (fun fence hfence => ?_) hrest⟩
              rw [opensFence_of_opens hfence] at hopens
              cases hopens
          | some fence =>
              have hfence := opens_of_opensFence hopens
              obtain ⟨hmarker, hwidth⟩ := hfence.marker
              have hinside : ∀ line ∈ rest.takeWhile (!closesFence · fence),
                  ¬ ClosesFence line fence := by
                intro line hmem hcloses
                have hnot := List.mem_takeWhile_imp (p := (!closesFence · fence)) hmem
                rw [(closesFence_iff hmarker hwidth).2 hcloses] at hnot
                cases hnot
              have hsplit := List.takeWhile_append_dropWhile
                (p := (!closesFence · fence)) (l := rest)
              cases hafter : rest.dropWhile (!closesFence · fence) with
              | nil =>
                  rw [hafter, List.append_nil] at hsplit
                  rw [hsplit] at hinside
                  exact ⟨true, [], .unclosed hfence hinside⟩
              | cons last after =>
                  have hcloses : closesFence last fence = true := by
                    have hnot := List.head?_dropWhile_not (!closesFence · fence) rest
                    rw [hafter] at hnot
                    simpa using hnot
                  rw [hafter] at hsplit
                  have hshort := congrArg List.length hsplit
                  rw [List.length_append, List.length_cons] at hshort
                  obtain ⟨unclosed, shown, hrest⟩ := ih after.length (by omega) after rfl
                  rw [← hsplit]
                  exact ⟨unclosed, shown, .block hfence hinside
                    ((closesFence_iff hmarker hwidth).1 hcloses) hrest⟩

end Lines

section Scanning

/-- What a scan has added to the headings and to those of level two. -/
structure Scanned (before after : PolicyScan) (count : Nat) : Prop where
  headings : ∃ new, after.headings = new ++ before.headings ∧ new.length = count
  levelTwo : ∃ new, after.levelTwo = new ++ before.levelTwo ∧
    ∀ offset ∈ new, before.offset ≤ offset ∧ offset ≤ after.offset
  offset : before.offset ≤ after.offset

theorem Scanned.refl (scan : PolicyScan) : Scanned scan scan 0 :=
  ⟨⟨[], rfl, rfl⟩, ⟨[], rfl, fun _ hmem => absurd hmem List.not_mem_nil⟩, Nat.le_refl _⟩

theorem Scanned.trans {first second third : PolicyScan} {count more : Nat}
    (h : Scanned first second count) (hmore : Scanned second third more) :
    Scanned first third (more + count) := by
  obtain ⟨⟨new, hnew, hcount⟩, ⟨offsets, hoffsets, hbounds⟩, hoffset⟩ := h
  obtain ⟨⟨later, hlater, hlaterCount⟩, ⟨others, hothers, hlaterBounds⟩, hlaterOffset⟩ := hmore
  refine ⟨⟨later ++ new, ?_, ?_⟩, ⟨others ++ offsets, ?_, ?_⟩, hoffset.trans hlaterOffset⟩
  · rw [hlater, hnew, List.append_assoc]
  · rw [List.length_append, hlaterCount, hcount]
  · rw [hothers, hoffsets, List.append_assoc]
  · intro offset hmem
    rcases List.mem_append.1 hmem with hother | hold
    · obtain ⟨hleast, hmost⟩ := hlaterBounds offset hother
      exact ⟨hoffset.trans hleast, hmost⟩
    · obtain ⟨hleast, hmost⟩ := hbounds offset hold
      exact ⟨hleast, hmost.trans hlaterOffset⟩

/-- A line that adds no heading. -/
theorem scanned_move {scan : PolicyScan} {length : Nat} {fence : Option Fence} :
    Scanned scan { scan with fence, offset := scan.offset + length } 0 :=
  ⟨⟨[], rfl, rfl⟩, ⟨[], rfl, fun _ hmem => absurd hmem List.not_mem_nil⟩, Nat.le_add_right _ _⟩

theorem policyLine_eq {scan : PolicyScan} {rawLine : Text} (hfence : scan.fence = none)
    (hline : opensFence (content rawLine) = none) :
    policyLine scan rawLine =
      { scan with
        headings := if content rawLine = policyHeading then scan.offset :: scan.headings
          else scan.headings
        levelTwo := if levelTwoMark <+: content rawLine then scan.offset :: scan.levelTwo
          else scan.levelTwo
        offset := scan.offset + rawLine.length } := by
  have hopens : opensFence (withoutEnding '\r' (withoutEnding '\n' rawLine)) = none := hline
  simp only [policyLine, hfence, hopens]
  rfl

theorem policyLine_outside {scan : PolicyScan} {rawLine : Text} (hfence : scan.fence = none)
    (hline : opensFence (content rawLine) = none) :
    (policyLine scan rawLine).fence = none ∧
      Scanned scan (policyLine scan rawLine) ([content rawLine].count policyHeading) := by
  rw [policyLine_eq hfence hline]
  refine ⟨hfence, ⟨?_, ?_, Nat.le_add_right _ _⟩⟩
  · dsimp only
    by_cases hheading : content rawLine = policyHeading
    · exact ⟨[scan.offset], if_pos hheading, by simp [hheading]⟩
    · exact ⟨[], if_neg hheading, by simp [hheading]⟩
  · dsimp only
    by_cases hmark : levelTwoMark <+: content rawLine
    · refine ⟨[scan.offset], if_pos hmark, fun offset hmem => ?_⟩
      rw [List.mem_singleton.1 hmem]
      exact ⟨Nat.le_refl _, Nat.le_add_right _ _⟩
    · exact ⟨[], if_neg hmark, fun _ hmem => absurd hmem List.not_mem_nil⟩

theorem policyLine_opens {scan : PolicyScan} {rawLine : Text} {fence : Fence}
    (hfence : scan.fence = none) (hline : OpensFence (content rawLine) fence) :
    (policyLine scan rawLine).fence = some fence ∧
      Scanned scan (policyLine scan rawLine) 0 := by
  have hopens : opensFence (withoutEnding '\r' (withoutEnding '\n' rawLine)) = some fence :=
    opensFence_of_opens hline
  have hstep : policyLine scan rawLine =
      { scan with fence := some fence, offset := scan.offset + rawLine.length } := by
    simp only [policyLine, hfence, hopens]
  rw [hstep]
  exact ⟨rfl, scanned_move⟩

theorem policyLine_inside {scan : PolicyScan} (rawLine : Text) {fence : Fence}
    (hfence : scan.fence = some fence) :
    (policyLine scan rawLine).fence =
        (if closesFence (content rawLine) fence then none else some fence) ∧
      Scanned scan (policyLine scan rawLine) 0 := by
  have hstep : policyLine scan rawLine =
      { scan with
        fence := if closesFence (content rawLine) fence then none else some fence
        offset := scan.offset + rawLine.length } := by
    simp only [policyLine, hfence]
    rfl
  rw [hstep]
  exact ⟨rfl, scanned_move⟩

/-- The lines of a block, up to its end. -/
theorem scan_inside {rawLines : List Text} {fence : Fence} {scan : PolicyScan}
    (hmarker : (fence.1 = '`' ∨ fence.1 = '~') ∧ 3 ≤ fence.2)
    (hinside : ∀ line ∈ rawLines.map content, ¬ ClosesFence line fence)
    (hfence : scan.fence = some fence) :
    (rawLines.foldl policyLine scan).fence = some fence ∧
      Scanned scan (rawLines.foldl policyLine scan) 0 := by
  induction rawLines generalizing scan with
  | nil => exact ⟨hfence, .refl scan⟩
  | cons rawLine rawLines ih =>
      obtain ⟨hstep, hscanned⟩ := policyLine_inside rawLine hfence
      have hnot : ¬ closesFence (content rawLine) fence = true := fun hcloses =>
        hinside _ List.mem_cons_self ((closesFence_iff hmarker.1 hmarker.2).1 hcloses)
      rw [if_neg hnot] at hstep
      obtain ⟨hrest, hmore⟩ := ih (fun line hmem => hinside line (List.mem_cons_of_mem _ hmem)) hstep
      exact ⟨hrest, hscanned.trans hmore⟩

/-- The scan counts the headings that lie outside of fenced blocks. -/
theorem scan_outside {unclosed : Bool} {lines shown rawLines : List Text} {scan : PolicyScan}
    (h : Outside unclosed lines shown) (hlines : rawLines.map content = lines)
    (hfence : scan.fence = none) :
    (unclosed = false → (rawLines.foldl policyLine scan).fence = none) ∧
      Scanned scan (rawLines.foldl policyLine scan) (shown.count policyHeading) := by
  induction h generalizing rawLines scan with
  | nil =>
      obtain rfl := List.map_eq_nil_iff.1 hlines
      exact ⟨fun _ => hfence, .refl scan⟩
  | @line unclosed line rest shown hline _ ih =>
      obtain ⟨rawLine, rawRest, rfl, rfl, hrest⟩ := List.map_eq_cons_iff.1 hlines
      obtain ⟨hstep, hscanned⟩ := policyLine_outside hfence (opensFence_eq_none hline)
      obtain ⟨hafter, hmore⟩ := ih hrest hstep
      refine ⟨hafter, ?_⟩
      have hcount : (content rawLine :: shown).count policyHeading =
          shown.count policyHeading + [content rawLine].count policyHeading := by
        rw [← List.singleton_append, List.count_append, Nat.add_comm]
      rw [hcount]
      exact hscanned.trans hmore
  | @block unclosed first last fence inside rest shown hopens hinside hcloses _ ih =>
      obtain ⟨rawFirst, rawMore, rfl, rfl, hmore⟩ := List.map_eq_cons_iff.1 hlines
      obtain ⟨rawInside, rawAfter, rfl, rfl, hafter⟩ := List.map_eq_append_iff.1 hmore
      obtain ⟨rawLast, rawRest, rfl, rfl, hrest⟩ := List.map_eq_cons_iff.1 hafter
      obtain ⟨hopen, hfirst⟩ := policyLine_opens hfence hopens
      obtain ⟨hstill, hmiddle⟩ := scan_inside hopens.marker hinside hopen
      obtain ⟨hlast, hclosed⟩ := policyLine_inside rawLast hstill
      rw [if_pos ((closesFence_iff hopens.marker.1 hopens.marker.2).2 hcloses)] at hlast
      obtain ⟨hend, hremaining⟩ := ih hrest hlast
      rw [List.foldl_cons, List.foldl_append, List.foldl_cons]
      exact ⟨hend, ((hfirst.trans hmiddle).trans hclosed).trans hremaining⟩
  | @unclosed first fence inside hopens hinside =>
      obtain ⟨rawFirst, rawInside, rfl, rfl, rfl⟩ := List.map_eq_cons_iff.1 hlines
      obtain ⟨hopen, hfirst⟩ := policyLine_opens hfence hopens
      obtain ⟨-, hmiddle⟩ := scan_inside hopens.marker hinside hopen
      exact ⟨(fun hfalse => nomatch hfalse), hfirst.trans hmiddle⟩

end Scanning

section Sections

theorem foldl_offset (rawLines : List Text) (scan : PolicyScan) :
    (rawLines.foldl policyLine scan).offset = scan.offset + rawLines.flatten.length := by
  induction rawLines generalizing scan with
  | nil => rfl
  | cons rawLine rawLines ih =>
      have hstep : (policyLine scan rawLine).offset = scan.offset + rawLine.length := by
        unfold policyLine
        split
        next => rfl
        next =>
          dsimp only
          split <;> rfl
      rw [List.foldl_cons, ih, hstep, List.flatten_cons, List.length_append, Nat.add_assoc]

/-- A text that ends with a line end, or has nothing in it. -/
def AtLineStart (text : Text) : Prop := text = [] ∨ text.getLast? = some '\n'

theorem splitInclusive_append {text : Text} (h : AtLineStart text) (rest : Text) :
    splitInclusive (text ++ rest) = splitInclusive text ++ splitInclusive rest := by
  induction text with
  | nil => rfl
  | cons c text ih =>
      have hlast : (c :: text).getLast? = some '\n' := h.resolve_left (List.cons_ne_nil _ _)
      cases text with
      | nil =>
          obtain rfl : c = '\n' := Option.some.inj hlast
          rfl
      | cons d text =>
          rw [List.getLast?_cons_cons] at hlast
          have hrest := ih (.inr hlast)
          rw [List.cons_append, splitInclusive, splitInclusive, hrest]
          split
          next => rfl
          next =>
            cases hsplit : splitInclusive (d :: text) with
            | nil =>
                have hflat := splitInclusive_flatten (d :: text)
                rw [hsplit] at hflat
                cases hflat
            | cons line lines => rfl

/-- What a prefix of a text that stops before a foreign character has in common with it. -/
theorem prefix_of_prefix_append {mark line rest : Text} (h : mark <+: line ++ rest)
    (hrest : ∀ c ∈ rest.head?, c ∉ mark) : mark <+: line := by
  rcases List.prefix_or_prefix_of_prefix h (List.prefix_append line rest) with hmark | ⟨more, rfl⟩
  · exact hmark
  · have hmore : more <+: rest := (List.prefix_append_right_inj line).1 h
    cases more with
    | nil =>
        rw [List.append_nil]
    | cons c more =>
        obtain ⟨others, rfl⟩ := hmore
        exact absurd (List.mem_append_right _ List.mem_cons_self) (hrest c rfl)

/-- A text that starts with the mark of a heading has a first line that does. -/
theorem LinesOf.levelTwo {source : Text} {lines : List Text} (h : LinesOf source lines)
    (hmark : levelTwoMark <+: source) :
    ∃ line rest, lines = line :: rest ∧ levelTwoMark <+: line := by
  have hforeign : '\r' ∉ levelTwoMark ∧ '\n' ∉ levelTwoMark := by decide
  have hend {line ending : Text} (rest : Text) (hends : Ends line ending)
      (hrest : ∀ c ∈ rest.head?, c = '\n') (hline : levelTwoMark <+: line ++ (ending ++ rest)) :
      levelTwoMark <+: line := by
    apply prefix_of_prefix_append hline
    intro c hc
    rcases hends with ⟨rfl, -⟩ | rfl
    · rw [hrest c hc]
      exact hforeign.2
    · rw [← Option.some.inj hc]
      exact hforeign.1
  cases h with
  | nil => exact absurd (List.prefix_nil.1 hmark) (by decide)
  | @last line ending _ hends _ =>
      refine ⟨line, [], rfl, hend [] hends (fun c hc => nomatch hc) ?_⟩
      rwa [List.append_nil]
  | @cons line ending rest lines _ hends _ =>
      refine ⟨line, lines, rfl, hend ('\n' :: rest) hends ?_ ?_⟩
      · exact fun c hc => (Option.some.inj hc).symm
      · rwa [← List.append_assoc]

/-- The policy and the line feed after it. -/
def policyBlock : Text := agentPolicy ++ ['\n']

theorem policyBlock_eq :
    policyBlock = policyHeading ++ '\n' :: unlines '\n' (policyLines ++ [[]]) := by
  have hpolicy : agentPolicy = unlines '\n' (policyHeading :: policyLines) := rfl
  have hlast : unlines '\n' [[]] = ['\n'] := rfl
  rw [policyBlock, hpolicy, unlines_cons, unlines_append, hlast, List.append_assoc]
  rfl

theorem trimEnd_append_newline (text : Text) : trimEnd (text ++ ['\n']) = trimEnd text := by
  have hspace : Text.isWhitespace '\n' = true := by decide
  rw [trimEnd, List.reverse_append, List.reverse_singleton, List.singleton_append,
    List.dropWhile_cons_of_pos hspace]
  rfl

/-- The scan of the policy block adds its heading. -/
theorem scan_policyBlock (levelTwo : List Nat) (offset : Nat) :
    (splitInclusive policyBlock).foldl policyLine ⟨[], levelTwo, none, offset⟩ =
      ⟨[offset], offset :: levelTwo, none, offset + policyBlock.length⟩ := by
  have hplain : ∀ line ∈ policyLines ++ [[]], PlainLine line := by
    intro line hmem
    rcases List.mem_append.1 hmem with hold | hnew
    · exact plainLine_policyLines line hold
    · rw [List.mem_singleton.1 hnew]
      exact ⟨List.not_mem_nil, by decide, fun c hc => nomatch hc⟩
  have hheading : policyLine ⟨[], levelTwo, none, offset⟩ (policyHeading ++ ['\n']) =
      ⟨[offset], offset :: levelTwo, none, offset + (policyHeading ++ ['\n']).length⟩ := by
    have hcontent : withoutEnding '\r' (withoutEnding '\n' (policyHeading ++ ['\n'])) =
        policyHeading := by decide
    have hopens : opensFence policyHeading = none := by decide
    have hmark : levelTwoMark <+: policyHeading := by decide
    simp only [policyLine, hcontent, hopens, if_pos hmark, if_true]
  have hlength : policyBlock.length =
      (policyHeading ++ ['\n']).length + (unlines '\n' (policyLines ++ [[]])).length := by
    rw [policyBlock_eq, ← List.length_append, List.append_assoc, List.singleton_append]
  rw [hlength, policyBlock_eq, splitInclusive_append_newline (by decide), List.foldl_cons,
    hheading, foldl_policyLine_plain hplain, Nat.add_assoc]

/-- The scan of what stands before a policy block, and of the block. -/
theorem scan_before {before : Text} {lines shown : List Text} (hlines : LinesOf before lines)
    (houtside : Outside false lines shown) (hnone : policyHeading ∉ shown) :
    ∃ levelTwo, (∀ offset ∈ levelTwo, offset ≤ before.length) ∧
      (splitInclusive policyBlock).foldl policyLine
        ((splitInclusive before).foldl policyLine .initial) =
      ⟨[before.length], before.length :: levelTwo, none,
        before.length + policyBlock.length⟩ := by
  have hstart : PolicyScan.initial.fence = none := rfl
  obtain ⟨hclosed, hscanned⟩ := scan_outside houtside hlines.contents hstart
  have hoffset := foldl_offset (splitInclusive before) .initial
  rw [List.count_eq_zero_of_not_mem hnone] at hscanned
  rw [splitInclusive_flatten] at hoffset
  obtain ⟨⟨new, hnew, hcount⟩, ⟨levelTwo, hlevelTwo, hbounds⟩, -⟩ := hscanned
  obtain rfl := List.eq_nil_of_length_eq_zero hcount
  generalize hscan : (splitInclusive before).foldl policyLine .initial = scan at *
  obtain ⟨headings, offsets, fence, offset⟩ := scan
  obtain rfl : fence = none := hclosed rfl
  obtain rfl : headings = [] := hnew
  obtain rfl : offsets = levelTwo := hlevelTwo.trans (List.append_nil _)
  obtain rfl : offset = before.length := hoffset.trans (Nat.zero_add _)
  exact ⟨offsets, fun other hother => (hbounds other hother).2, scan_policyBlock _ _⟩

/-- The section from a heading to the first heading of its level after it. -/
theorem policySection_eq {before after : Text} {levelTwo later : List Nat}
    (hbefore : ∀ offset ∈ levelTwo, offset ≤ before.length)
    (hlater : later = [] ∧ after = [] ∨ later.getLast? = some (before.length + policyBlock.length)) :
    policySection (before ++ (policyBlock ++ after))
      (later ++ before.length :: levelTwo).reverse before.length = policyBlock := by
  have hfirst : (levelTwo.reverse ++ [before.length]).find?
      (fun candidate => decide (candidate > before.length)) = none := by
    apply List.find?_eq_none.2
    intro offset hmem
    rw [decide_eq_true_iff, Nat.not_lt]
    rcases List.mem_append.1 hmem with hold | hnew
    · exact hbefore offset (List.mem_reverse.1 hold)
    · exact Nat.le_of_eq (List.mem_singleton.1 hnew)
  rw [policySection, List.reverse_append, List.reverse_cons, List.find?_append, hfirst,
    Option.none_or]
  rcases hlater with ⟨rfl, rfl⟩ | hlast
  · rw [List.reverse_nil, List.find?_nil, Option.getD_none, List.take_length, List.append_nil,
      List.drop_left]
  · obtain ⟨others, rfl⟩ := List.getLast?_eq_some_iff.1 hlast
    have hpos : 0 < policyBlock.length := by
      rw [policyBlock, List.length_append, List.length_singleton]
      omega
    have hmore : before.length + policyBlock.length > before.length :=
      Nat.lt_add_of_pos_right hpos
    rw [List.reverse_append, List.reverse_singleton, List.singleton_append,
      List.find?_cons_of_pos (p := fun candidate => decide (candidate > before.length))
        (decide_eq_true hmore), Option.getD_some, ← List.append_assoc, ← List.length_append,
      List.take_left, List.drop_left]

theorem opensFence_levelTwo {line : Text} (h : levelTwoMark <+: line) :
    opensFence line = none := by
  obtain ⟨rest, rfl⟩ := h
  rfl

/-- Of the lines after a policy block the first is the next heading of its level. -/
theorem scan_after {after : Text} {unclosed : Bool} {others seen : List Text} {start : Nat}
    {levelTwo : List Nat} {offset : Nat} (hmark : levelTwoMark <+: after)
    (hothers : LinesOf after others) (hother : Outside unclosed others seen)
    (hneither : policyHeading ∉ seen) :
    ∃ later, ((splitInclusive after).foldl policyLine ⟨[start], levelTwo, none, offset⟩).headings =
        [start] ∧
      ((splitInclusive after).foldl policyLine ⟨[start], levelTwo, none, offset⟩).levelTwo =
        later ++ levelTwo ∧ later.getLast? = some offset := by
  obtain ⟨line, rest, rfl, hline⟩ := hothers.levelTwo hmark
  obtain ⟨rawLine, rawRest, hraw, rfl, hrest⟩ := List.map_eq_cons_iff.1 hothers.contents
  have hnone := opensFence_levelTwo hline
  have hopens (fence : Fence) : ¬ OpensFence (content rawLine) fence := by
    intro hfence
    rw [opensFence_of_opens hfence] at hnone
    cases hnone
  cases hother with
  | line _ hmore =>
      rw [List.mem_cons, not_or] at hneither
      have hfirst : (PolicyScan.mk [start] levelTwo none offset).fence = none := rfl
      have hsecond : (PolicyScan.mk [start] (offset :: levelTwo) none
          (offset + rawLine.length)).fence = none := rfl
      have hstep := policyLine_eq hfirst hnone
      rw [if_neg (Ne.symm hneither.1), if_pos hline] at hstep
      obtain ⟨-, ⟨new, hnew, hcount⟩, ⟨offsets, hoffsets, -⟩, -⟩ :=
        scan_outside hmore hrest hsecond
      rw [List.count_eq_zero_of_not_mem hneither.2] at hcount
      obtain rfl := List.eq_nil_of_length_eq_zero hcount
      rw [hraw, List.foldl_cons, hstep]
      refine ⟨offsets ++ [offset], hnew, ?_, List.getLast?_concat⟩
      rw [List.append_assoc]
      exact hoffsets
  | block hfence => exact absurd hfence (hopens _)
  | unclosed hfence => exact absurd hfence (hopens _)

/-- A policy block is recognised wherever it stands between other sections. -/
theorem exact_between {before after : Text} {unclosed : Bool}
    {lines shown others seen : List Text} (hstart : AtLineStart before)
    (hlines : LinesOf before lines) (houtside : Outside false lines shown)
    (hnone : policyHeading ∉ shown) (hafter : after = [] ∨ levelTwoMark <+: after)
    (hothers : LinesOf after others) (hother : Outside unclosed others seen)
    (hneither : policyHeading ∉ seen) :
    (inspectPolicy (before ++ (policyBlock ++ after))).exact = true := by
  obtain ⟨levelTwo, hbefore, hscan⟩ := scan_before hlines houtside hnone
  have hblock : AtLineStart policyBlock := .inr (List.getLast?_concat)
  have hheadings : ∃ later, ((splitInclusive (before ++ (policyBlock ++ after))).foldl policyLine
        .initial).headings = [before.length] ∧
      ((splitInclusive (before ++ (policyBlock ++ after))).foldl policyLine
        .initial).levelTwo = later ++ before.length :: levelTwo ∧
      (later = [] ∧ after = [] ∨
        later.getLast? = some (before.length + policyBlock.length)) := by
    rw [splitInclusive_append hstart, splitInclusive_append hblock, List.foldl_append,
      List.foldl_append, hscan]
    rcases hafter with rfl | hmark
    · exact ⟨[], rfl, rfl, .inl ⟨rfl, rfl⟩⟩
    · obtain ⟨later, hone, htwo, hlast⟩ := scan_after hmark hothers hother hneither
      exact ⟨later, hone, htwo, .inr hlast⟩
  obtain ⟨later, hone, htwo, hlater⟩ := hheadings
  unfold inspectPolicy
  dsimp only
  rw [hone, htwo]
  dsimp only
  rw [policySection_eq hbefore hlater, policyBlock, trimEnd_append_newline]
  exact decide_eq_true rfl

/-- The headings that count are those outside of fenced blocks; and a canonical policy
between other sections is recognised as exact. -/
theorem inspectPolicy_sections :
    (∀ source : Text, ∃ lines unclosed shown, LinesOf source lines ∧
      Outside unclosed lines shown) ∧
    (∀ source lines unclosed shown, LinesOf source lines → Outside unclosed lines shown →
      (inspectPolicy source).headingCount = shown.count policyHeading) ∧
    ∀ before after lines shown others seen unclosed, AtLineStart before →
      LinesOf before lines → Outside false lines shown → policyHeading ∉ shown →
      (after = [] ∨ levelTwoMark <+: after) → LinesOf after others →
      Outside unclosed others seen → policyHeading ∉ seen →
      (inspectPolicy (before ++ agentPolicy ++ ['\n'] ++ after)).exact = true := by
  refine ⟨fun source => ?_, fun source lines unclosed shown hlines houtside => ?_, ?_⟩
  · obtain ⟨lines, hlines⟩ := exists_linesOf source
    obtain ⟨unclosed, shown, houtside⟩ := exists_outside lines
    exact ⟨lines, unclosed, shown, hlines, houtside⟩
  · have hstart : PolicyScan.initial.fence = none := rfl
    obtain ⟨-, ⟨new, hnew, hcount⟩, -⟩ := scan_outside houtside hlines.contents hstart
    change ((splitInclusive source).foldl policyLine .initial).headings.length = _
    rw [hnew, List.length_append, hcount]
    rfl
  · intro before after lines shown others seen unclosed hstart hlines houtside hnone hafter
      hothers hother hneither
    rw [List.append_assoc, List.append_assoc, ← List.append_assoc agentPolicy]
    exact exact_between hstart hlines houtside hnone hafter hothers hother hneither

/-- A heading at the end of a text, with a carriage return and no line feed. -/
theorem heading_with_return :
    (inspectPolicy (policyHeading ++ ['\r'])).headingCount = 1 ∧
      policyHeading ++ ['\r'] ≠ policyHeading ∧ '\n' ∉ policyHeading ++ ['\r'] := by
  decide

end Sections

namespace PolicySample

/-- A text of one line that opens no fence. -/
theorem one_line (line : Text) (hline : '\n' ∉ line) (hlast : line.getLast? ≠ some '\r')
    (hopens : opensFence line = none) :
    LinesOf (line ++ ['\n']) [line] ∧ Outside false [line] [line] := by
  constructor
  · have hends : Ends line [] := .inl ⟨rfl, hlast⟩
    have hlines := LinesOf.cons hline hends .nil
    rwa [List.append_nil] at hlines
  · refine .line (fun fence hfence => ?_) .nil
    rw [opensFence_of_opens hfence] at hopens
    cases hopens

/-- A policy between a title and another section. -/
theorem inspectPolicy_between :
    (inspectPolicy ("# Notes\n".toList ++ agentPolicy ++ ['\n'] ++ "## Other\n".toList)).exact =
      true := by
  obtain ⟨hlines, houtside⟩ :=
    one_line "# Notes".toList (by decide) (by decide) (by decide)
  obtain ⟨hothers, hother⟩ :=
    one_line "## Other".toList (by decide) (by decide) (by decide)
  exact inspectPolicy_sections.2.2 _ _ _ _ _ _ _ (.inr (by decide)) hlines houtside (by decide)
    (.inr (by decide)) hothers hother (by decide)

end PolicySample

end Yams.Init
