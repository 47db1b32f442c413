/-
The policy section of `AGENTS.md`: its headings are counted outside fenced code
blocks, and the one section is compared with the canonical text.  Offsets count
characters.
-/
import Yams.InitAssets
import Yams.WikiPage

namespace Yams.Init

open Yams.Wiki (splitInclusive splitInclusive_append_newline)

structure PolicyInspection where
  headingCount : Nat
  exact : Bool
  deriving DecidableEq

/-- A fence that is open: its marker and its width. -/
abbrev Fence := Char × Nat

/-- `str::strip_suffix` of one character, where it is there. -/
def withoutEnding (ending : Char) (line : Text) : Text :=
  if line.getLast? = some ending then line.dropLast else line

def isBlank (c : Char) : Bool := c = ' '

def opensFence (line : Text) : Option Fence :=
  let indent := (line.takeWhile isBlank).length
  if indent > 3 then none
  else
    match line.drop indent with
    | [] => none
    | marker :: rest =>
        if marker ≠ '`' ∧ marker ≠ '~' then none
        else
          let width := ((marker :: rest).takeWhile fun c => c = marker).length
          if width < 3 ∨
              (marker = '`' ∧ '`' ∈ (marker :: rest).drop width) then none
          else some (marker, width)

def closesFence (line : Text) (fence : Fence) : Bool :=
  let indent := (line.takeWhile isBlank).length
  if indent > 3 then false
  else
    let width := ((line.drop indent).takeWhile fun c => c = fence.1).length
    width ≥ fence.2 ∧
      ((line.drop indent).drop width).all fun c => c = ' ' ∨ c = '\t'

def policyHeading : Text := "## Project memory".toList

def levelTwoMark : Text := "## ".toList

/-- The offsets of the headings so far, the last one first, the open fence and
the offset of the next line. -/
structure PolicyScan where
  headings : List Nat
  levelTwo : List Nat
  fence : Option Fence
  offset : Nat
  deriving DecidableEq

def PolicyScan.initial : PolicyScan := ⟨[], [], none, 0⟩

def policyLine (scan : PolicyScan) (rawLine : Text) : PolicyScan :=
  let line := withoutEnding '\r' (withoutEnding '\n' rawLine)
  let offset := scan.offset + rawLine.length
  match scan.fence with
  | some fence =>
      { scan with
        fence := if closesFence line fence then none else some fence
        offset }
  | none =>
      match opensFence line with
      | some opening => { scan with fence := some opening, offset }
      | none =>
          { scan with
            headings :=
              if line = policyHeading then scan.offset :: scan.headings
              else scan.headings
            levelTwo :=
              if levelTwoMark <+: line then scan.offset :: scan.levelTwo
              else scan.levelTwo
            offset }

/-- `str::trim_end`. -/
def trimEnd (text : Text) : Text :=
  (text.reverse.dropWhile Text.isWhitespace).reverse

/-- The section that starts at a heading: up to the next one of its level. -/
def policySection (source : Text) (levelTwo : List Nat) (start : Nat) : Text :=
  let stop := (levelTwo.find? fun candidate => candidate > start).getD
    source.length
  (source.take stop).drop start

def inspectPolicy (source : Text) : PolicyInspection :=
  let scan := (splitInclusive source).foldl policyLine .initial
  { headingCount := scan.headings.length
    exact :=
      match scan.headings with
      | [start] =>
          trimEnd (policySection source scan.levelTwo.reverse start) =
            trimEnd agentPolicy
      | _ => false }

section Sections

variable {line : Text} {lines : List Text}

/-- A line that neither starts a heading nor a fence. -/
structure PlainLine (line : Text) : Prop where
  oneLine : '\n' ∉ line
  unended : line.getLast? ≠ some '\r'
  start : ∀ c ∈ line.head?, c ≠ ' ' ∧ c ≠ '`' ∧ c ≠ '~' ∧ c ≠ '#'

theorem PlainLine.opensFence (h : PlainLine line) : opensFence line = none := by
  cases line with
  | nil => rfl
  | cons c line =>
      obtain ⟨hspace, htick, htilde, -⟩ := h.start c rfl
      simp [Init.opensFence, isBlank, hspace, htick, htilde]

theorem PlainLine.ne_heading (h : PlainLine line) : line ≠ policyHeading := by
  rintro rfl
  exact (h.start '#' (by decide)).2.2.2 rfl

theorem PlainLine.not_levelTwo (h : PlainLine line) : ¬ levelTwoMark <+: line := by
  rintro ⟨rest, rfl⟩
  exact (h.start '#' (by simp [levelTwoMark])).2.2.2 rfl

/-- After its first line a policy that stands alone has no other heading. -/
theorem foldl_policyLine_plain (hlines : ∀ line ∈ lines, PlainLine line)
    (headings levelTwo : List Nat) (offset : Nat) :
    (splitInclusive (unlines '\n' lines)).foldl policyLine
        ⟨headings, levelTwo, none, offset⟩ =
      ⟨headings, levelTwo, none, offset + (unlines '\n' lines).length⟩ := by
  induction lines generalizing offset with
  | nil => rfl
  | cons line lines ih =>
      have hplain := hlines line List.mem_cons_self
      have hrest := ih (fun other hother => hlines other (List.mem_cons_of_mem _ hother))
        (offset + (line ++ ['\n']).length)
      have hcontent : withoutEnding '\r' (withoutEnding '\n' (line ++ ['\n'])) = line := by
        simp [withoutEnding, hplain.unended]
      have hstep : policyLine ⟨headings, levelTwo, none, offset⟩ (line ++ ['\n']) =
          ⟨headings, levelTwo, none, offset + (line ++ ['\n']).length⟩ := by
        have hheading := hplain.ne_heading
        have hlevel := hplain.not_levelTwo
        simp only [policyLine, hcontent, hplain.opensFence, if_neg hheading, if_neg hlevel]
      rw [unlines_cons, splitInclusive_append_newline hplain.oneLine, List.foldl_cons,
        hstep, hrest]
      simp only [List.length_append, List.length_cons, List.length_nil]
      congr 1
      omega

/-- A source that is one policy section from its first line on. -/
theorem inspectPolicy_section (hlines : ∀ line ∈ lines, PlainLine line) :
    inspectPolicy (unlines '\n' (policyHeading :: lines)) =
      ⟨1, trimEnd (unlines '\n' (policyHeading :: lines)) = trimEnd agentPolicy⟩ := by
  have hheading : policyLine .initial (policyHeading ++ ['\n']) =
      ⟨[0], [0], none, (policyHeading ++ ['\n']).length⟩ := by decide
  have hscan : (splitInclusive (unlines '\n' (policyHeading :: lines))).foldl policyLine
      .initial = ⟨[0], [0], none, (unlines '\n' (policyHeading :: lines)).length⟩ := by
    rw [unlines_cons, splitInclusive_append_newline (by decide), List.foldl_cons, hheading,
      foldl_policyLine_plain hlines]
    simp only [List.length_append, List.length_cons, List.length_nil]
    congr 1
    omega
  unfold inspectPolicy
  rw [hscan]
  dsimp only
  have hsection : policySection (unlines '\n' (policyHeading :: lines)) [0].reverse 0 =
      unlines '\n' (policyHeading :: lines) := by
    simp [policySection]
  rw [hsection]
  rfl

theorem plainLine_policyLines : ∀ line ∈ policyLines, PlainLine line := by
  have hall : policyLines.all (fun line => decide ('\n' ∉ line) &&
      line.getLast? != some '\r' && line.head?.all fun c =>
        c != ' ' && c != '`' && c != '~' && c != '#') = true := by
    unfold policyLines
    repeat rw [String.toList_ofList]
    decide
  intro line hline
  have hplain := List.all_eq_true.1 hall line hline
  simp only [Bool.and_eq_true, decide_eq_true_eq, bne_iff_ne,
    Option.all_eq_true] at hplain
  obtain ⟨⟨honeLine, hunended⟩, hstart⟩ := hplain
  refine ⟨honeLine, hunended, fun c hc => ?_⟩
  obtain ⟨⟨⟨hspace, htick⟩, htilde⟩, hsharp⟩ := hstart c hc
  exact ⟨hspace, htick, htilde, hsharp⟩

/-- The canonical policy is found in the file it makes up. -/
theorem inspectPolicy_agentPolicy : inspectPolicy agentPolicy = ⟨1, true⟩ := by
  have hsection := inspectPolicy_section plainLine_policyLines
  have hpolicy : unlines '\n' (policyHeading :: policyLines) = agentPolicy := rfl
  rw [hpolicy] at hsection
  rw [hsection]
  simp

end Sections

end Yams.Init
