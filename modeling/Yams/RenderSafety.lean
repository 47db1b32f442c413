/-
What the text renderer writes, line by line: which lines there are, where the
style sequences stand in them, and that nothing else in them acts on a terminal.
-/
import Yams.Program
import Yams.Render

namespace Yams.Render

open Terminal

section Lines

/-- A line of output, without the line feed that ends it. -/
inductive Line
  | heading (project : Text)
  | title (indent : Nat) (shown rest : Text)
  | plain (text : Text)
  | body (indent : Nat) (text : Text)

/-- Only headings and titles are styled, and only around the text itself. -/
def Line.text (styling : Styling) : Line → Text
  | .heading project => sequence styling "[4m" ++ project ++ sequence styling "[0m"
  | .title indent shown rest =>
      spaces indent ++ sequence styling "[1m" ++ shown ++ sequence styling "[0m" ++ rest
  | .plain text => text
  | .body indent text => spaces indent ++ "  ".toList ++ text

def assemble (styling : Styling) (lines : List Line) : Text :=
  lines.flatMap fun line => line.text styling ++ ['\n']

@[simp] theorem assemble_nil (styling : Styling) : assemble styling [] = [] := rfl

@[simp] theorem assemble_append (styling : Styling) (left right : List Line) :
    assemble styling (left ++ right) = assemble styling left ++ assemble styling right :=
  List.flatMap_append

@[simp] theorem assemble_cons (styling : Styling) (line : Line) (lines : List Line) :
    assemble styling (line :: lines) =
      line.text styling ++ '\n' :: assemble styling lines := by
  simp [assemble]

theorem assemble_eq_nil {styling : Styling} {lines : List Line} :
    assemble styling lines = [] ↔ lines = [] := by
  cases lines with
  | nil => simp
  | cons line lines => simp

end Lines

section Writes

/-- A step of the renderer only appends to its output, and what it appends. -/
def Appends (result : Except RenderError BoundedBuffer) (output : BoundedBuffer)
    (text : Text) : Prop :=
  ∀ after, result = .ok after → after.inner = output.inner ++ text

variable {output : BoundedBuffer} {text : Text}

theorem appends_ok : Appends (.ok output) output [] := by
  intro after h
  obtain rfl := Except.ok.inj h
  exact (List.append_nil _).symm

theorem appends_error (error : RenderError) : Appends (.error error) output text := by
  intro after h
  cases h

theorem appends_writeStr (output : BoundedBuffer) (value : Text) :
    Appends (output.writeStr value) output value := by
  intro after h
  unfold BoundedBuffer.writeStr at h
  split at h
  · cases h
  · obtain rfl := Except.ok.inj h
    rfl

theorem appends_writeLine (styling : Styling) (output : BoundedBuffer) (line : Line) :
    Appends (output.writeLine (line.text styling)) output (assemble styling [line]) := by
  rw [assemble_cons, assemble_nil]
  exact appends_writeStr output _

/-- The texts of two steps follow one another. -/
theorem Appends.bind {result : Except RenderError BoundedBuffer} {rest : Text}
    {next : BoundedBuffer → Except RenderError BoundedBuffer}
    (hresult : Appends result output text)
    (hnext : ∀ after, Appends (next after) after rest) :
    Appends (result >>= next) output (text ++ rest) := by
  intro last h
  obtain ⟨after, hafter, hlast⟩ := except_bind_eq_ok.1 h
  rw [hnext after last hlast, hresult after hafter, List.append_assoc]

/-- A check or a conversion before a step writes nothing. -/
theorem Appends.after {α : Type} {result : Except RenderError α}
    {next : α → Except RenderError BoundedBuffer}
    (h : ∀ value, result = .ok value → Appends (next value) output text) :
    Appends (result >>= next) output text := by
  intro last hlast
  obtain ⟨value, hvalue, hnext⟩ := except_bind_eq_ok.1 hlast
  exact h value hvalue last hnext

/-- The texts of the turns of a loop follow one another. -/
theorem Appends.foldlM {α : Type} (turn : BoundedBuffer → α →
    Except RenderError BoundedBuffer) (texts : α → Text) (items : List α)
    (hturn : ∀ item ∈ items, ∀ output, Appends (turn output item) output (texts item)) :
    Appends (items.foldlM turn output) output (items.flatMap texts) := by
  induction items generalizing output with
  | nil => exact appends_ok
  | cons item items ih =>
      rw [List.foldlM_cons, List.flatMap_cons]
      apply (hturn item List.mem_cons_self output).bind
      intro after
      apply ih
      intro other hother
      exact hturn other (List.mem_cons_of_mem item hother)

end Writes

section Contents

variable {F : Type} [Binary64 F] [Wiki.Unicode]

def withoutLineFeed (line : Text) : Text :=
  if line.getLast? = some '\n' then line.dropLast else line

/-- The lines of a body, without their line feeds; an empty body shows as one
empty line. -/
def bodyTexts (body : Text) : List Text :=
  if body.isEmpty then [[]] else (Wiki.splitInclusive body).map withoutLineFeed

def gateEntryLine (indent : Text) (gate action : String) (entry : GateEntry F)
    (suffix : String) : Line :=
  .plain (indent ++ "  ".toList ++ gate.toList ++ " ".toList ++ action.toList ++
    "  ".toList ++ fixed 4 entry.score ++ "  ".toList ++
    sanitizeTerminal .inline entry.path ++ suffix.toList)

def gateLines (indent : Text) (applied : Bool) (gate : GateVerdict F) : List Line :=
  let dropped := if !applied then "would drop" else "dropped"
  let kept := if !applied then "would keep" else "kept"
  let note := if applied then "" else "   (shown anyway: --no-gate)"
  [.plain (indent ++ "baseline ".toList ++ fixed 4 gate.baseline ++
      "   floor ".toList ++ fixed 2 gate.minScore ++ "   gap ".toList ++
      fixed 2 gate.maxGap ++ "   margin ".toList ++
      fixedSigned 4 (Binary64.sub gate.baseline gate.minScore) ++ note.toList)] ++
  ([.plain (indent ++ "  ".toList ++ gateSummary gate !applied)] ++
  (gate.floorDropped.map (fun entry => gateEntryLine indent "floor" dropped entry "") ++
  (gate.gapDropped.map (fun entry => gateEntryLine indent "gap  " dropped entry "") ++
  gate.rescued.map fun entry =>
    gateEntryLine indent "rescue" kept entry "  (exact identifier)")))

def explanationLines (indentation : Nat) (explanation : SearchExplanation F) :
    List Line :=
  match explanation.gate with
  | none =>
      [.plain (spaces indentation ++
        "gate: not consulted — this corpus holds no vectors".toList)]
  | some gate => gateLines (spaces indentation) explanation.applied gate

def snippetLine (options : TextOptions) (hit : SearchHit F) : Line :=
  let (body, narrowed) := takeChars hit.snippet (280 - 2 * options.indent)
  let lead := if hit.clippedStart then "..." else ""
  let trail := if hit.clippedEnd || narrowed then "..." else ""
  .plain (spaces options.indent ++ "  ".toList ++ lead.toList ++
    sanitizeTerminal .inline body ++ trail.toList)

def bodyLines (options : TextOptions) (hit : SearchHit F) : List Line :=
  if options.full then
    (bodyTexts (sanitizeTerminal .multiline hit.text)).map (.body options.indent)
  else [snippetLine options hit]

/-- The line with the rank signals; a hit that lacks them is refused. -/
def signalLine (indent : Text) (hit : SearchHit F) : Line :=
  match hit.explanation with
  | none => .plain []
  | some explanation =>
      .plain (indent ++ "    dense ".toList ++ rankText explanation.denseRank ++
        "   bm25 ".toList ++ rankText explanation.bm25Rank ++ "   rrf ".toList ++
        match explanation.rrfScore with
        | none => "—".toList
        | some score => fixed 5 score)

def titleLine (options : TextOptions) (hit : SearchHit F) : Line :=
  .title options.indent (sanitizeTerminal .inline hit.name)
    ("  (".toList ++ fixed 4 hit.score ++ ")".toList ++ textLabels hit)

def hitLines (hits : List (SearchHit F)) (explained : Bool) (options : TextOptions)
    (hit : SearchHit F) : List Line :=
  (if options.indent = 0 then [.plain []] else []) ++ ([titleLine options hit] ++
    ((if options.showPath || 1 < seen hits (sanitizeTerminal .inline hit.name) then
      [.plain (spaces options.indent ++ "  ".toList ++
        sanitizeTerminal .inline hit.path)]
    else []) ++
    (bodyLines options hit ++
    if explained then [signalLine (spaces options.indent) hit] else [])))

def optionLines (indentation : Nat) : Option (SearchExplanation F) → List Line
  | none => []
  | some explanation => explanationLines indentation explanation

/-- The lines of a response. -/
def responseLines (hits : List (SearchHit F))
    (explanation : Option (SearchExplanation F)) (options : TextOptions) : List Line :=
  if hits.isEmpty then
    .plain (if (explanation.bind SearchExplanation.gate).isSome then
      "no confident match" else "no results").toList ::
      optionLines options.indent explanation
  else
    optionLines options.indent explanation ++
      (hits.flatMap (hitLines hits explanation.isSome options) ++
      if options.indent = 0 then [.plain []] else [])

def groupLines (full : Bool) (styling : Styling) (group : ProjectSearchResponse F) :
    List Line :=
  if group.hits.isEmpty then []
  else [.plain [], .heading (sanitizeTerminal .inline group.project)] ++
    responseLines group.hits none (.grouped full styling)

/-- The lines of the results of several projects. -/
def allLines (groups : List (ProjectSearchResponse F)) (full : Bool)
    (styling : Styling) : List Line :=
  if groups.all fun group => group.hits.isEmpty then [.plain "no results".toList]
  else groups.flatMap (groupLines full styling) ++ [.plain []]

end Contents

section Rendering

variable {F : Type} [Binary64 F] {output : BoundedBuffer} {styling : Styling}

theorem textNumber_eq {field : String} {value : F} {precision : Nat} {text : Text}
    (h : textNumber field value precision = .ok text) : text = fixed precision value := by
  unfold textNumber at h
  split at h
  · exact (Except.ok.inj h).symm
  · cases h

theorem appends_plain (output : BoundedBuffer) (text : Text) :
    Appends (output.writeLine text) output (assemble styling [.plain text]) :=
  appends_writeLine styling output (.plain text)

theorem assemble_flatMap {α : Type} (lines : α → List Line) (items : List α) :
    assemble styling (items.flatMap lines) =
      items.flatMap fun item => assemble styling (lines item) := by
  induction items with
  | nil => rfl
  | cons item items ih => rw [List.flatMap_cons, assemble_append, ih, List.flatMap_cons]

/-- A loop that writes some lines in each turn. -/
theorem appends_loop {α : Type}
    (turn : BoundedBuffer → α → Except RenderError BoundedBuffer)
    (lines : α → List Line) (items : List α)
    (hturn : ∀ item ∈ items, ∀ output,
      Appends (turn output item) output (assemble styling (lines item))) :
    Appends (items.foldlM turn output) output
      (assemble styling (items.flatMap lines)) := by
  rw [assemble_flatMap]
  exact Appends.foldlM turn (fun item => assemble styling (lines item)) items hturn

theorem withoutLineFeed_append (line : Text) :
    withoutLineFeed line ++ ['\n'] =
      line ++ if line.getLast? = some '\n' then [] else ['\n'] := by
  unfold withoutLineFeed
  by_cases h : line.getLast? = some '\n'
  · rw [if_pos h, if_pos h, List.append_nil]
    exact List.dropLast_append_getLast? '\n' h
  · rw [if_neg h, if_neg h]

theorem pushIndentedMultiline_appends (indent : Nat) (body : Text) :
    Appends (pushIndentedMultiline output (spaces indent) body) output
      (assemble styling ((bodyTexts body).map (.body indent))) := by
  unfold pushIndentedMultiline bodyTexts
  split
  · have hline := appends_writeLine styling output (.body indent [])
    rw [Line.text, List.append_nil] at hline
    exact hline
  · rw [List.map_map, List.map_eq_flatMap]
    apply appends_loop
    intro line _ before
    have hline : assemble styling [(Line.body indent ∘ withoutLineFeed) line] =
        spaces indent ++ "  ".toList ++ line ++
          if line.getLast? = some '\n' then [] else ['\n'] := by
      rw [assemble_cons, assemble_nil, Function.comp, Line.text, List.append_assoc,
        withoutLineFeed_append, List.append_assoc _ line]
    rw [hline]
    apply (appends_writeStr before _).bind
    intro after
    split
    · exact appends_ok
    · exact appends_writeStr after _

theorem pushHitExplanation_appends (indent : Text) (hit : SearchHit F) :
    Appends (pushHitExplanation output indent hit) output
      (assemble styling [signalLine indent hit]) := by
  unfold pushHitExplanation signalLine
  cases hit.explanation with
  | none => exact appends_error _
  | some explanation =>
      dsimp only
      cases explanation.rrfScore with
      | none => exact appends_plain output _
      | some score =>
          apply Appends.after
          intro rrf hrrf
          obtain rfl := textNumber_eq hrrf
          exact appends_plain output _

variable [Wiki.Unicode]

theorem pushGateEntry_appends (indent : Text) (gate action : String)
    (entry : GateEntry F) (suffix : String) :
    Appends (pushGateEntry output indent gate action entry suffix) output
      (assemble styling [gateEntryLine indent gate action entry suffix]) := by
  unfold pushGateEntry
  apply Appends.after
  intro score hscore
  obtain rfl := textNumber_eq hscore
  exact appends_plain output _

theorem pushExplanationText_appends (explanation : SearchExplanation F)
    (indentation : Nat) :
    Appends (pushExplanationText output explanation indentation) output
      (assemble styling (explanationLines indentation explanation)) := by
  unfold pushExplanationText explanationLines
  cases explanation.gate with
  | none => exact appends_plain output _
  | some gate =>
      dsimp only
      apply Appends.after
      intro baseline hbaseline
      apply Appends.after
      intro minScore hminScore
      apply Appends.after
      intro maxGap hmaxGap
      apply Appends.after
      intro _ _
      obtain rfl := textNumber_eq hbaseline
      obtain rfl := textNumber_eq hminScore
      obtain rfl := textNumber_eq hmaxGap
      unfold gateLines
      simp only [List.map_eq_flatMap, assemble_append]
      apply (appends_plain output _).bind
      intro afterBaseline
      apply (appends_plain afterBaseline _).bind
      intro afterSummary
      apply Appends.bind
      · apply appends_loop
        intro entry _ before
        exact pushGateEntry_appends _ _ _ entry _
      intro afterFloor
      apply Appends.bind
      · apply appends_loop
        intro entry _ before
        exact pushGateEntry_appends _ _ _ entry _
      intro afterGap
      apply appends_loop
      intro entry _ before
      exact pushGateEntry_appends _ _ _ entry _

omit [Binary64 F] in
theorem pushBody_appends (options : TextOptions) (hit : SearchHit F) :
    Appends (pushBody output options hit) output
      (assemble styling (bodyLines options hit)) := by
  unfold pushBody bodyLines
  dsimp only
  split
  · exact pushIndentedMultiline_appends options.indent _
  · exact appends_plain output _

theorem pushHit_appends (hits : List (SearchHit F)) (explained : Bool)
    (options : TextOptions) (hit : SearchHit F) :
    Appends (pushHit hits explained options output hit) output
      (assemble options.styling (hitLines hits explained options hit)) := by
  unfold pushHit hitLines
  apply Appends.after
  intro score hscore
  obtain rfl := textNumber_eq hscore
  rw [assemble_append, assemble_append, ← List.append_assoc]
  apply Appends.bind
  · have hline : assemble options.styling
          (if options.indent = 0 then [.plain []] else []) ++
          assemble options.styling [titleLine options hit] =
        (if options.indent = 0 then "\n" else "").toList ++ spaces options.indent ++
          sequence options.styling "[1m" ++ sanitizeTerminal .inline hit.name ++
          sequence options.styling "[0m" ++ "  (".toList ++ fixed 4 hit.score ++
          ")".toList ++ textLabels hit ++ ['\n'] := by
      unfold titleLine
      split <;> simp [Line.text]
    rw [hline]
    exact appends_writeStr output _
  intro afterTitle
  rw [assemble_append]
  apply Appends.bind
  · split
    · exact appends_plain afterTitle _
    · exact appends_ok
  intro afterPath
  rw [assemble_append]
  apply (pushBody_appends options hit).bind
  intro afterBody
  split
  · exact pushHitExplanation_appends _ hit
  · exact appends_ok

theorem renderTextInner_appends (hits : List (SearchHit F))
    (explanation : Option (SearchExplanation F)) (options : TextOptions) :
    Appends (renderTextInner output hits explanation options) output
      (assemble options.styling (responseLines hits explanation options)) := by
  have hexplanation : ∀ before : BoundedBuffer,
      Appends (match explanation with
        | none => .ok before
        | some explanation => pushExplanationText before explanation options.indent)
        before (assemble options.styling (optionLines options.indent explanation)) := by
    intro before
    cases explanation with
    | none => exact appends_ok
    | some explanation => exact pushExplanationText_appends explanation _
  unfold renderTextInner responseLines
  dsimp only
  split
  · rw [← List.singleton_append, assemble_append]
    exact (appends_plain output _).bind hexplanation
  · rw [assemble_append, assemble_append]
    apply (hexplanation output).bind
    intro afterExplanation
    apply Appends.bind
    · apply appends_loop
      intro hit _ before
      exact pushHit_appends hits _ options hit
    intro afterHits
    split
    · exact appends_writeStr afterHits _
    · exact appends_ok

theorem pushGroup_appends (full : Bool) (styling : Styling)
    (group : ProjectSearchResponse F) :
    Appends (pushGroup full styling output group) output
      (assemble styling (groupLines full styling group)) := by
  unfold pushGroup groupLines
  split
  · exact appends_ok
  · rw [assemble_append]
    apply Appends.bind
    · have hline : assemble styling
            [.plain [], .heading (sanitizeTerminal .inline group.project)] =
          "\n".toList ++ sequence styling "[4m" ++
            sanitizeTerminal .inline group.project ++ sequence styling "[0m" ++
            ['\n'] := by
        simp [Line.text]
      rw [hline]
      exact appends_writeStr output _
    · intro afterHeading
      exact renderTextInner_appends group.hits none (.grouped full styling)

end Rendering

section Words

variable {F : Type} [Binary64 F]

/-- The characters of the renderer's own words. -/
def isOwn (c : Char) : Bool := (0x20 ≤ c.toNat && c.toNat < 0x7f) || c = '—'

/-- A text that is written down has the characters that are written. -/
theorem all_isOwn_ofList {chars : List Char} (h : chars.all isOwn = true) :
    (String.ofList chars).toList.all isOwn = true := by
  rwa [String.toList_ofList]

theorem all_isOwn_ofNat (n : Nat) : (Text.ofNat n).all isOwn = true := by
  rw [List.all_eq_true]
  intro c hc
  have hdigit := Nat.isDigit_of_mem_toDigits (by decide) (by decide) hc
  simp only [Char.isDigit, Bool.and_eq_true, decide_eq_true_eq] at hdigit
  have hlow : 48 ≤ c.toNat := hdigit.1
  have hhigh : c.toNat ≤ 57 := hdigit.2
  unfold isOwn
  rw [Bool.or_eq_true, Bool.and_eq_true]
  exact .inl ⟨decide_eq_true (by omega), decide_eq_true (by omega)⟩

theorem all_isOwn_decimals (precision : Nat) (a : F) :
    (decimals precision a).all isOwn = true := by
  unfold decimals
  simp only [List.all_append, all_isOwn_ofNat, List.all_replicate, Bool.and_true]
  split <;> rfl

theorem all_isOwn_fixed (precision : Nat) (a : F) :
    (fixed precision a).all isOwn = true := by
  unfold fixed
  rw [List.all_append, all_isOwn_decimals, Bool.and_true]
  split <;> rfl

theorem all_isOwn_fixedSigned (precision : Nat) (a : F) :
    (fixedSigned precision a).all isOwn = true := by
  unfold fixedSigned
  rw [List.all_append, all_isOwn_decimals, Bool.and_true]
  split <;> rfl

theorem all_isOwn_spaces (n : Nat) : (spaces n).all isOwn = true := by
  unfold spaces
  rw [List.all_replicate]
  split <;> rfl

theorem all_isOwn_rankText (rank : Option Nat) : (rankText rank).all isOwn = true := by
  cases rank with
  | none => decide
  | some rank =>
      unfold rankText
      rw [List.all_cons, all_isOwn_ofNat]
      rfl

omit [Binary64 F] in
theorem all_isOwn_gateSummary (gate : GateVerdict F) (hypothetical : Bool) :
    (gateSummary gate hypothetical).all isOwn = true := by
  unfold gateSummary
  split_ifs
  all_goals
    repeat rw [String.toList_ofList]
    decide

theorem all_isOwn_corpusName (corpus : CorpusKind) :
    (corpusName corpus).all isOwn = true := by
  cases corpus <;> decide

end Words

section Safety

variable {F : Type} [Binary64 F] [Wiki.Unicode]

/-- The letters, digits and marks of the renderer's own words are no format
characters. -/
structure PlainCategories : Prop where
  ascii : ∀ c : Char, 0x20 ≤ c.toNat → c.toNat < 0x7f →
    Wiki.Unicode.generalCategory c ≠ .format
  emDash : Wiki.Unicode.generalCategory '—' ≠ .format

theorem PlainCategories.plain_own (h : PlainCategories) {text : Text}
    (hown : text.all isOwn = true) : Plain text := by
  intro c hc
  have hc := List.all_eq_true.1 hown c hc
  unfold isOwn at hc
  rw [Bool.or_eq_true, Bool.and_eq_true, decide_eq_true_eq, decide_eq_true_eq,
    decide_eq_true_eq] at hc
  rcases hc with ⟨hlow, hhigh⟩ | rfl
  · have hcategory := h.ascii c hlow hhigh
    simp [isUnsafeControl, hcategory]
    omega
  · have hcategory := h.emDash
    simp [isUnsafeControl, hcategory]

/-- Nothing in a line acts on a terminal, but for the style sequences around a
heading or a title and for the tabs of a body. -/
def Line.Clean : Line → Prop
  | .heading project => Plain project
  | .title _ shown rest => Plain shown ∧ Plain rest
  | .plain text => Plain text
  | .body _ text => ∀ c ∈ text, isUnsafeControl c = false ∨ c = '\t'

variable (hcategories : PlainCategories)

include hcategories

/-- A text of the renderer's own words with a filtered string in it. -/
theorem plain_around {before after : Text} (hbefore : before.all isOwn = true)
    (string : Text) (hafter : after.all isOwn = true) :
    Plain (before ++ sanitizeTerminal .inline string ++ after) :=
  ((hcategories.plain_own hbefore).append (sanitizeTerminal_inline string)).append
    (hcategories.plain_own hafter)

theorem gateEntryLine_clean {indent : Text} (hindent : indent.all isOwn = true)
    {gate action suffix : String} (hgate : gate.toList.all isOwn = true)
    (haction : action.toList.all isOwn = true)
    (hsuffix : suffix.toList.all isOwn = true) (entry : GateEntry F) :
    (gateEntryLine indent gate action entry suffix).Clean := by
  apply plain_around hcategories _ entry.path hsuffix
  simp only [List.all_append, hindent, hgate, haction, all_isOwn_fixed]
  decide

theorem gateLines_clean {indent : Text} (hindent : indent.all isOwn = true)
    (applied : Bool) (gate : GateVerdict F) :
    ∀ line ∈ gateLines indent applied gate, line.Clean := by
  have hbaseline : (indent ++ "baseline ".toList ++ fixed 4 gate.baseline ++
      "   floor ".toList ++ fixed 2 gate.minScore ++ "   gap ".toList ++
      fixed 2 gate.maxGap ++ "   margin ".toList ++
      fixedSigned 4 (Binary64.sub gate.baseline gate.minScore) ++
      (if applied then "" else "   (shown anyway: --no-gate)").toList).all isOwn =
        true := by
    simp only [List.all_append, hindent, all_isOwn_fixed, all_isOwn_fixedSigned]
    cases applied <;> decide
  have hsummary : (indent ++ "  ".toList ++ gateSummary gate !applied).all isOwn =
      true := by
    simp only [List.all_append, hindent, all_isOwn_gateSummary]
    decide
  have hdropped : (if !applied then "would drop" else "dropped").toList.all isOwn =
      true := by
    cases applied <;> decide
  have hkept : (if !applied then "would keep" else "kept").toList.all isOwn =
      true := by
    cases applied <;> decide
  intro line hline
  unfold gateLines at hline
  simp only [List.mem_append, List.mem_singleton, List.mem_map] at hline
  rcases hline with rfl | rfl | ⟨entry, _, rfl⟩ | ⟨entry, _, rfl⟩ | ⟨entry, _, rfl⟩
  · exact hcategories.plain_own hbaseline
  · exact hcategories.plain_own hsummary
  · exact gateEntryLine_clean hcategories hindent (by decide) hdropped (by decide) entry
  · exact gateEntryLine_clean hcategories hindent (by decide) hdropped (by decide) entry
  · exact gateEntryLine_clean hcategories hindent (by decide) hkept (by decide) entry

theorem explanationLines_clean (indentation : Nat)
    (explanation : SearchExplanation F) :
    ∀ line ∈ explanationLines indentation explanation, line.Clean := by
  unfold explanationLines
  cases explanation.gate with
  | none =>
      intro line hline
      obtain rfl := List.mem_singleton.1 hline
      apply hcategories.plain_own
      rw [List.all_append, all_isOwn_spaces]
      decide
  | some gate => exact gateLines_clean hcategories (all_isOwn_spaces _) _ gate

theorem optionLines_clean (indentation : Nat)
    (explanation : Option (SearchExplanation F)) :
    ∀ line ∈ optionLines indentation explanation, line.Clean := by
  cases explanation with
  | none =>
      intro line hline
      exact absurd hline List.not_mem_nil
  | some explanation => exact explanationLines_clean hcategories _ explanation

omit [Binary64 F] in
theorem snippetLine_clean (options : TextOptions) (hit : SearchHit F) :
    (snippetLine options hit).Clean := by
  apply plain_around hcategories
  · rw [List.all_append, List.all_append, all_isOwn_spaces]
    cases hit.clippedStart <;> decide
  · split <;> decide

omit hcategories [Binary64 F] [Wiki.Unicode] in
/-- A line of a text ends in the only line feed it holds, or in none. -/
theorem exists_content_of_mem_splitInclusive {line : Text} :
    ∀ {text : Text}, line ∈ Wiki.splitInclusive text →
      ∃ content, '\n' ∉ content ∧ (∀ c ∈ content, c ∈ text) ∧
        (line = content ++ ['\n'] ∨ line = content)
  | [], h => absurd h List.not_mem_nil
  | c :: rest, h => by
      rw [Wiki.splitInclusive] at h
      split at h
      · rename_i hc
        subst hc
        rcases List.mem_cons.1 h with rfl | h
        · exact ⟨[], List.not_mem_nil, fun _ hmem => absurd hmem List.not_mem_nil,
            .inl rfl⟩
        · obtain ⟨content, hfeed, hsub, hline⟩ :=
            exists_content_of_mem_splitInclusive h
          exact ⟨content, hfeed, fun d hd => List.mem_cons_of_mem _ (hsub d hd), hline⟩
      · rename_i hc
        have hne : '\n' ≠ c := fun heq => hc heq.symm
        split at h
        · obtain rfl := List.mem_singleton.1 h
          refine ⟨[c], ?_, ?_, .inr rfl⟩
          · simpa using hne
          · intro d hd
            rw [List.mem_singleton.1 hd]
            exact List.mem_cons_self
        · rename_i first lines hrest
          rcases List.mem_cons.1 h with rfl | h
          · have hfirst : first ∈ Wiki.splitInclusive rest := by
              rw [hrest]
              exact List.mem_cons_self
            obtain ⟨content, hfeed, hsub, hline⟩ :=
              exists_content_of_mem_splitInclusive hfirst
            refine ⟨c :: content, ?_, ?_, ?_⟩
            · simpa using ⟨hne, hfeed⟩
            · intro d hd
              rcases List.mem_cons.1 hd with rfl | hd
              · exact List.mem_cons_self
              · exact List.mem_cons_of_mem _ (hsub d hd)
            · rcases hline with rfl | rfl
              · exact .inl rfl
              · exact .inr rfl
          · have hlater : line ∈ Wiki.splitInclusive rest := by
              rw [hrest]
              exact List.mem_cons_of_mem _ h
            obtain ⟨content, hfeed, hsub, hline⟩ :=
              exists_content_of_mem_splitInclusive hlater
            exact ⟨content, hfeed, fun d hd => List.mem_cons_of_mem _ (hsub d hd),
              hline⟩

omit hcategories in
theorem bodyTexts_clean (body : Text) :
    ∀ line ∈ bodyTexts (sanitizeTerminal .multiline body),
      ∀ c ∈ line, isUnsafeControl c = false ∨ c = '\t' := by
  intro line hline
  unfold bodyTexts at hline
  split at hline
  · obtain rfl := List.mem_singleton.1 hline
    intro c hc
    exact absurd hc List.not_mem_nil
  · obtain ⟨whole, hwhole, rfl⟩ := List.mem_map.1 hline
    obtain ⟨content, hfeed, hsub, hcontent⟩ :=
      exists_content_of_mem_splitInclusive hwhole
    have heq : withoutLineFeed whole = content := by
      unfold withoutLineFeed
      rcases hcontent with rfl | rfl
      · simp
      · rw [if_neg]
        intro hlast
        exact hfeed (List.mem_of_getLast? hlast)
    rw [heq]
    intro c hc
    rcases sanitizeTerminal_multiline body c (hsub c hc) with hsafe | htab | hnewline
    · exact .inl hsafe
    · exact .inr htab
    · rw [hnewline] at hc
      exact absurd hc hfeed

omit [Binary64 F] in
theorem bodyLines_clean (options : TextOptions) (hit : SearchHit F) :
    ∀ line ∈ bodyLines options hit, line.Clean := by
  intro line hline
  unfold bodyLines at hline
  split at hline
  · obtain ⟨text, htext, rfl⟩ := List.mem_map.1 hline
    exact bodyTexts_clean hit.text text htext
  · obtain rfl := List.mem_singleton.1 hline
    exact snippetLine_clean hcategories options hit

theorem signalLine_clean {indent : Text} (hindent : indent.all isOwn = true)
    (hit : SearchHit F) : (signalLine indent hit).Clean := by
  unfold signalLine
  cases hit.explanation with
  | none =>
      intro c hc
      exact absurd hc List.not_mem_nil
  | some explanation =>
      apply hcategories.plain_own
      simp only [List.all_append, hindent, all_isOwn_rankText]
      cases explanation.rrfScore with
      | none =>
          dsimp only
          decide
      | some score =>
          rw [all_isOwn_fixed]
          decide

omit hcategories in
theorem plain_join {separator : Text} (hseparator : Plain separator) :
    ∀ {labels : List Text}, (∀ label ∈ labels, Plain label) →
      Plain (Text.join separator labels)
  | [], _ => fun _ hc => absurd hc List.not_mem_nil
  | [label], h => h label List.mem_cons_self
  | label :: other :: labels, h => by
      rw [Text.join]
      · apply ((h label List.mem_cons_self).append hseparator).append
        apply plain_join hseparator
        intro later hlater
        exact h later (List.mem_cons_of_mem label hlater)
      · simp

omit [Binary64 F] in
theorem textLabels_plain (hit : SearchHit F) : Plain (textLabels hit) := by
  have hframe : ∀ labels : List Text, (∀ label ∈ labels, Plain label) →
      Plain (if labels.isEmpty then []
        else "  [".toList ++ Text.join ", ".toList labels ++ "]".toList) := by
    intro labels hlabels
    split
    · intro c hc
      exact absurd hc List.not_mem_nil
    · apply Plain.append
      · apply (hcategories.plain_own (by decide)).append
        exact plain_join (hcategories.plain_own (by decide)) hlabels
      · exact hcategories.plain_own (by decide)
  apply hframe
  intro label hlabel
  rcases List.mem_append.1 hlabel with hcorpus | hstatus
  · split at hcorpus
    · obtain rfl := List.mem_singleton.1 hcorpus
      exact hcategories.plain_own (all_isOwn_corpusName hit.corpus)
    · exact absurd hcorpus List.not_mem_nil
  · split at hstatus
    · exact absurd hstatus List.not_mem_nil
    · split at hstatus
      · obtain rfl := List.mem_singleton.1 hstatus
        exact sanitizeTerminal_inline _
      · exact absurd hstatus List.not_mem_nil

theorem titleLine_clean (options : TextOptions) (hit : SearchHit F) :
    (titleLine options hit).Clean := by
  apply And.intro (sanitizeTerminal_inline hit.name)
  apply Plain.append
  · apply hcategories.plain_own
    simp only [List.all_append, all_isOwn_fixed]
    decide
  · exact textLabels_plain hcategories hit

omit hcategories in
theorem plain_nil : Plain [] := fun _ hc => absurd hc List.not_mem_nil

theorem hitLines_clean (hits : List (SearchHit F)) (explained : Bool)
    (options : TextOptions) (hit : SearchHit F) :
    ∀ line ∈ hitLines hits explained options hit, line.Clean := by
  intro line hline
  unfold hitLines at hline
  simp only [List.mem_append] at hline
  rcases hline with hblank | htitle | hpath | hbody | hsignals
  · split at hblank
    · obtain rfl := List.mem_singleton.1 hblank
      exact plain_nil
    · exact absurd hblank List.not_mem_nil
  · obtain rfl := List.mem_singleton.1 htitle
    exact titleLine_clean hcategories options hit
  · split at hpath
    · obtain rfl := List.mem_singleton.1 hpath
      apply Plain.append
      · apply hcategories.plain_own
        rw [List.all_append, all_isOwn_spaces]
        decide
      · exact sanitizeTerminal_inline hit.path
    · exact absurd hpath List.not_mem_nil
  · exact bodyLines_clean hcategories options hit line hbody
  · split at hsignals
    · obtain rfl := List.mem_singleton.1 hsignals
      exact signalLine_clean hcategories (all_isOwn_spaces _) hit
    · exact absurd hsignals List.not_mem_nil

theorem responseLines_clean (hits : List (SearchHit F))
    (explanation : Option (SearchExplanation F)) (options : TextOptions) :
    ∀ line ∈ responseLines hits explanation options, line.Clean := by
  intro line hline
  unfold responseLines at hline
  split at hline
  · rcases List.mem_cons.1 hline with rfl | hline
    · apply hcategories.plain_own
      split <;> decide
    · exact optionLines_clean hcategories _ explanation line hline
  · simp only [List.mem_append] at hline
    rcases hline with hexplanation | hhits | hblank
    · exact optionLines_clean hcategories _ explanation line hexplanation
    · obtain ⟨hit, _, hhit⟩ := List.mem_flatMap.1 hhits
      exact hitLines_clean hcategories hits _ options hit line hhit
    · split at hblank
      · obtain rfl := List.mem_singleton.1 hblank
        exact plain_nil
      · exact absurd hblank List.not_mem_nil

theorem groupLines_clean (full : Bool) (styling : Styling)
    (group : ProjectSearchResponse F) :
    ∀ line ∈ groupLines full styling group, line.Clean := by
  intro line hline
  unfold groupLines at hline
  split at hline
  · exact absurd hline List.not_mem_nil
  · simp only [List.mem_append, List.mem_cons, List.not_mem_nil, or_false] at hline
    rcases hline with (rfl | rfl) | hresponse
    · exact plain_nil
    · exact sanitizeTerminal_inline group.project
    · exact responseLines_clean hcategories _ _ _ line hresponse

theorem allLines_clean (groups : List (ProjectSearchResponse F)) (full : Bool)
    (styling : Styling) : ∀ line ∈ allLines groups full styling, line.Clean := by
  intro line hline
  unfold allLines at hline
  split at hline
  · obtain rfl := List.mem_singleton.1 hline
    exact hcategories.plain_own (by decide)
  · rcases List.mem_append.1 hline with hgroups | hblank
    · obtain ⟨group, _, hgroup⟩ := List.mem_flatMap.1 hgroups
      exact groupLines_clean hcategories full styling group line hgroup
    · obtain rfl := List.mem_singleton.1 hblank
      exact plain_nil

end Safety

section Frames

variable [Wiki.Unicode] (hcategories : PlainCategories)

/-- The style sequences that the renderer uses. -/
def styleCodes : List String := ["[0m", "[1m", "[4m"]

omit [Wiki.Unicode] in
theorem all_isOwn_code {code : String} (h : code ∈ styleCodes) :
    code.toList.all isOwn = true := by
  simp only [styleCodes, List.mem_cons, List.not_mem_nil, or_false] at h
  rcases h with rfl | rfl | rfl <;> decide

include hcategories

/-- The parts that a line is made of: the renderer's words and filtered strings,
a body, and style sequences. -/
theorem Line.Clean.text_induction {line : Line} (h : line.Clean) (styling : Styling)
    {P : Text → Prop} (happend : ∀ {left right}, P left → P right → P (left ++ right))
    (hplain : ∀ {text}, Plain text → P text)
    (hbody : ∀ {text : Text},
      (∀ c ∈ text, isUnsafeControl c = false ∨ c = '\t') → P text)
    (hstyle : ∀ code ∈ styleCodes, P (sequence styling code)) :
    P (line.text styling) := by
  have hspaces : ∀ n, P (spaces n) := fun n =>
    hplain (hcategories.plain_own (all_isOwn_spaces n))
  have hreset := hstyle "[0m" (by decide)
  cases line with
  | heading project =>
      exact happend (happend (hstyle "[4m" (by decide)) (hplain h)) hreset
  | title indent shown rest =>
      have hbold := happend (hspaces indent) (hstyle "[1m" (by decide))
      exact happend (happend (happend hbold (hplain h.1)) hreset) (hplain h.2)
  | plain text => exact hplain h
  | body indent text =>
      have htwo : P "  ".toList := hplain (hcategories.plain_own (by decide))
      exact happend (happend (hspaces indent) htwo) (hbody h)

omit hcategories in
theorem framed_sequence (styling : Styling) {code : String} (h : code ∈ styleCodes) :
    Framed (sequence styling code) := by
  cases styling with
  | plain => exact .nil
  | ansi =>
      apply framed_of_mem
      exact List.mem_map.2 ⟨code, h, rfl⟩

theorem Line.Clean.framed {line : Line} (h : line.Clean) (styling : Styling) :
    Framed (line.text styling) := by
  apply h.text_induction hcategories styling Framed.append Plain.framed
  · intro text htext
    apply framed_of_forall
    intro c hc
    rcases htext c hc with hsafe | rfl
    · exact .inl hsafe
    · exact .inr rfl
  · intro code hcode
    exact framed_sequence styling hcode

/-- The only characters of a line that act on a terminal are the tabs of a body
and the escapes of the style sequences. -/
theorem Line.Clean.mem_text {line : Line} (h : line.Clean) (styling : Styling) :
    ∀ c ∈ line.text styling, isUnsafeControl c = false ∨ c = '\t' ∨
      (styling = .ansi ∧ c = escape) := by
  apply h.text_induction hcategories styling (P := fun text => ∀ c ∈ text,
    isUnsafeControl c = false ∨ c = '\t' ∨ (styling = .ansi ∧ c = escape))
  · intro left right hleft hright c hc
    exact (List.mem_append.1 hc).elim (hleft c) (hright c)
  · intro text htext c hc
    exact .inl (htext c hc)
  · intro text htext c hc
    exact (htext c hc).imp_right .inl
  · intro code hcode c hc
    cases styling with
    | plain => exact absurd hc List.not_mem_nil
    | ansi =>
        rcases List.mem_cons.1 hc with rfl | hc
        · exact .inr (.inr ⟨rfl, rfl⟩)
        · exact .inl (hcategories.plain_own (all_isOwn_code hcode) c hc)

theorem Line.Clean.newline_notMem {line : Line} (h : line.Clean) (styling : Styling) :
    '\n' ∉ line.text styling := by
  intro hmem
  rcases h.mem_text hcategories styling '\n' hmem with hsafe | htab | ⟨_, hescape⟩
  · rw [isUnsafeControl_newline] at hsafe
    cases hsafe
  · exact absurd htab (by decide)
  · exact absurd hescape (by decide)

theorem Line.Clean.escape_notMem {line : Line} (h : line.Clean) :
    escape ∉ line.text .plain := by
  intro hmem
  rcases h.mem_text hcategories .plain escape hmem with hsafe | htab | ⟨hansi, _⟩
  · rw [isUnsafeControl_escape] at hsafe
    cases hsafe
  · exact absurd htab (by decide)
  · cases hansi

variable {styling : Styling}

theorem framed_assemble {lines : List Line} (h : ∀ line ∈ lines, line.Clean) :
    Framed (assemble styling lines) := by
  induction lines with
  | nil => exact .nil
  | cons line lines ih =>
      rw [assemble_cons]
      apply ((h line List.mem_cons_self).framed hcategories styling).append
      apply Framed.char _ _ (.inr rfl)
      apply ih
      intro other hother
      exact h other (List.mem_cons_of_mem line hother)

theorem count_assemble {lines : List Line} (h : ∀ line ∈ lines, line.Clean) :
    (assemble styling lines).count '\n' = lines.length := by
  induction lines with
  | nil => rfl
  | cons line lines ih =>
      have hrest := ih fun other hother => h other (List.mem_cons_of_mem line hother)
      have hline := (h line List.mem_cons_self).newline_notMem hcategories styling
      rw [assemble_cons, List.count_append, List.count_cons_self, hrest,
        List.count_eq_zero_of_not_mem hline, Nat.zero_add, List.length_cons]

theorem escape_notMem_assemble {lines : List Line} (h : ∀ line ∈ lines, line.Clean) :
    escape ∉ assemble .plain lines := by
  intro hmem
  obtain ⟨line, hline, hmem⟩ := List.mem_flatMap.1 hmem
  rcases List.mem_append.1 hmem with hmem | hmem
  · exact (h line hline).escape_notMem hcategories hmem
  · exact absurd hmem (by decide)

/-- A text is made of clean lines: it is safe to write to a terminal. -/
structure TerminalSafe (styling : Styling) (text : Text) (lines : List Line) :
    Prop where
  text_eq : text = assemble styling lines
  clean : ∀ line ∈ lines, line.Clean
  unescaped : styling = .plain → escape ∉ text
  count_eq : text.count '\n' = lines.length

theorem terminalSafe_assemble {lines : List Line} (h : ∀ line ∈ lines, line.Clean) :
    TerminalSafe styling (assemble styling lines) lines := by
  refine ⟨rfl, h, ?_, count_assemble hcategories h⟩
  rintro rfl
  exact escape_notMem_assemble hcategories h

/-- The last filter removes nothing from clean lines. -/
theorem finishTextOutput_eq {output : BoundedBuffer} {lines : List Line}
    (h : ∀ line ∈ lines, line.Clean) (houtput : output.inner = assemble styling lines) :
    finishTextOutput output = output.inner := by
  unfold finishTextOutput
  rw [houtput]
  exact (framed_assemble hcategories h).sanitizeTerminal_eq

end Frames

section Counts

variable {F : Type} [Binary64 F] [Wiki.Unicode]

/-- What the number of lines of a hit takes from its strings: how many lines its
body has, and whether its title is shown more than once. -/
structure HitShape where
  bodyLines : Nat
  repeated : Bool

/-- A response without its strings and numbers; the explanation is that of a
search without a gate, or counts the pages that the gate names. -/
structure ResponseShape where
  hits : List HitShape
  explanation : Option (Option Nat)

omit [Binary64 F] in
def hitShape (hits : List (SearchHit F)) (hit : SearchHit F) : HitShape :=
  ⟨(bodyTexts (sanitizeTerminal .multiline hit.text)).length,
    1 < seen hits (sanitizeTerminal .inline hit.name)⟩

def gateSize (gate : GateVerdict F) : Nat :=
  gate.floorDropped.length + gate.gapDropped.length + gate.rescued.length

def responseShape (hits : List (SearchHit F))
    (explanation : Option (SearchExplanation F)) : ResponseShape :=
  ⟨hits.map (hitShape hits), explanation.map fun e => e.gate.map gateSize⟩

def hitCount (options : TextOptions) (explained : Bool) (shape : HitShape) : Nat :=
  (if options.indent = 0 then 1 else 0) + (1 +
    ((if options.showPath || shape.repeated then 1 else 0) +
    ((if options.full then shape.bodyLines else 1) + if explained then 1 else 0)))

def explanationCount : Option (Option Nat) → Nat
  | none => 0
  | some none => 1
  | some (some entries) => 2 + entries

/-- The number of lines of a response. -/
def lineCount (options : TextOptions) (shape : ResponseShape) : Nat :=
  if shape.hits.isEmpty then 1 + explanationCount shape.explanation
  else
    explanationCount shape.explanation +
      ((shape.hits.map (hitCount options shape.explanation.isSome)).sum +
      if options.indent = 0 then 1 else 0)

/-- The number of lines of the results of several projects, a project without
hits having none. -/
def allCount (full : Bool) (styling : Styling) (groups : List (List HitShape)) : Nat :=
  if groups.all List.isEmpty then 1
  else
    (groups.map fun hits =>
      if hits.isEmpty then 0
      else 2 + lineCount (.grouped full styling) ⟨hits, none⟩).sum + 1

theorem hitLines_length (hits : List (SearchHit F)) (explained : Bool)
    (options : TextOptions) (hit : SearchHit F) :
    (hitLines hits explained options hit).length =
      hitCount options explained (hitShape hits hit) := by
  unfold hitLines hitCount hitShape bodyLines
  simp only [List.length_append]
  congr 1
  · split <;> rfl
  · congr 1
    congr 1
    · split <;> rfl
    · congr 1
      · split
        · rw [List.length_map]
        · rfl
      · split <;> rfl

theorem explanationLines_length (indentation : Nat)
    (explanation : SearchExplanation F) :
    (explanationLines indentation explanation).length =
      explanationCount (some (explanation.gate.map gateSize)) := by
  unfold explanationLines
  cases explanation.gate with
  | none => rfl
  | some gate =>
      rw [Option.map_some]
      unfold explanationCount gateLines gateSize
      simp only [List.length_append, List.length_map, List.length_singleton]
      omega

theorem optionLines_length (indentation : Nat)
    (explanation : Option (SearchExplanation F)) :
    (optionLines indentation explanation).length =
      explanationCount (explanation.map fun e => e.gate.map gateSize) := by
  cases explanation with
  | none => rfl
  | some explanation => exact explanationLines_length indentation explanation

theorem responseLines_length (hits : List (SearchHit F))
    (explanation : Option (SearchExplanation F)) (options : TextOptions) :
    (responseLines hits explanation options).length =
      lineCount options (responseShape hits explanation) := by
  have hexplained : (explanation.map fun e : SearchExplanation F =>
      e.gate.map gateSize).isSome = explanation.isSome := Option.isSome_map
  unfold responseLines lineCount responseShape
  rw [List.isEmpty_map, hexplained]
  split
  · rw [List.length_cons, optionLines_length, Nat.add_comm]
  · rw [List.length_append, List.length_append, optionLines_length,
      List.length_flatMap, List.map_map]
    congr 1
    congr 1
    · congr 1
      apply List.map_congr_left
      intro hit _
      exact hitLines_length hits _ options hit
    · split <;> rfl

theorem groupLines_length (full : Bool) (styling : Styling)
    (group : ProjectSearchResponse F) :
    (groupLines full styling group).length =
      if (group.hits.map (hitShape group.hits)).isEmpty then 0
      else 2 + lineCount (.grouped full styling)
        ⟨group.hits.map (hitShape group.hits), none⟩ := by
  unfold groupLines
  rw [List.isEmpty_map]
  split
  · rfl
  · rw [List.length_append, responseLines_length]
    rfl

theorem allLines_length (groups : List (ProjectSearchResponse F)) (full : Bool)
    (styling : Styling) :
    (allLines groups full styling).length = allCount full styling
      (groups.map fun group => group.hits.map (hitShape group.hits)) := by
  unfold allLines allCount
  rw [List.all_map]
  have hempty : (List.isEmpty ∘ fun group : ProjectSearchResponse F =>
      group.hits.map (hitShape group.hits)) = fun group => group.hits.isEmpty := by
    funext group
    exact List.isEmpty_map
  rw [hempty]
  split
  · rfl
  · rw [List.length_append, List.length_flatMap, List.map_map]
    congr 1
    congr 1
    apply List.map_congr_left
    intro group _
    exact groupLines_length full styling group

omit [Binary64 F] [Wiki.Unicode] in
theorem infix_flatMap {α β : Type} (f : α → List β) {item : α} {items : List α}
    (h : item ∈ items) : f item <:+: items.flatMap f := by
  obtain ⟨before, after, rfl⟩ := List.append_of_mem h
  rw [List.flatMap_append, List.flatMap_cons, ← List.append_assoc]
  exact ⟨before.flatMap f, after.flatMap f, rfl⟩

/-- A hit's body is shown line by line, each line behind the indentation. -/
theorem body_infix (hits : List (SearchHit F))
    (explanation : Option (SearchExplanation F)) (options : TextOptions)
    (hfull : options.full = true) {hit : SearchHit F} (hmem : hit ∈ hits) :
    ((bodyTexts (sanitizeTerminal .multiline hit.text)).map (.body options.indent)) <:+:
      responseLines hits explanation options := by
  have hne : ¬ hits.isEmpty := by
    rw [List.isEmpty_iff]
    exact List.ne_nil_of_mem hmem
  have hbody : ((bodyTexts (sanitizeTerminal .multiline hit.text)).map
      (.body options.indent)) = bodyLines options hit := by
    unfold bodyLines
    rw [if_pos hfull]
  have hhit : bodyLines options hit <:+:
      hitLines hits explanation.isSome options hit := by
    unfold hitLines
    apply List.IsInfix.trans _ (List.suffix_append _ _).isInfix
    apply List.IsInfix.trans _ (List.suffix_append _ _).isInfix
    apply List.IsInfix.trans _ (List.suffix_append _ _).isInfix
    exact (List.prefix_append _ _).isInfix
  rw [hbody]
  apply hhit.trans
  apply (infix_flatMap (hitLines hits explanation.isSome options) hmem).trans
  unfold responseLines
  rw [if_neg hne]
  apply List.IsInfix.trans _ (List.suffix_append _ _).isInfix
  exact (List.prefix_append _ _).isInfix

end Counts

section Results

variable {F : Type} [Binary64 F] [Wiki.Unicode]

theorem renderText_eq_ok {response : SearchResponse F} {options : TextOptions}
    {text : Text} (h : renderText response options = .ok text) :
    ∃ output : BoundedBuffer, output.inner = assemble options.styling
        (responseLines response.hits response.explanation options) ∧
      text = finishTextOutput output := by
  unfold renderText at h
  obtain ⟨_, _, h⟩ := except_bind_eq_ok.1 h
  obtain ⟨output, houtput, h⟩ := except_bind_eq_ok.1 h
  have hinner := renderTextInner_appends response.hits response.explanation options
    output houtput
  exact ⟨output, hinner, (Except.ok.inj h).symm⟩

theorem groupLines_eq_nil {full : Bool} {styling : Styling}
    {group : ProjectSearchResponse F} :
    groupLines full styling group = [] ↔ group.hits.isEmpty = true := by
  unfold groupLines
  split
  · rename_i hempty
    simp [hempty]
  · rename_i hempty
    simp [hempty]

/-- The results of several projects, before the last filter. -/
theorem pushGroups_inner {groups : List (ProjectSearchResponse F)} {full : Bool}
    {styling : Styling} {output final : BoundedBuffer}
    (houtput : groups.foldlM (pushGroup full styling)
      (.new BoundedBuffer.directStreamCap) = .ok output)
    (hne : output.inner ≠ []) (hfinal : output.writeStr ['\n'] = .ok final) :
    final.inner = assemble styling (allLines groups full styling) := by
  have hinner : output.inner =
      assemble styling (groups.flatMap (groupLines full styling)) :=
    appends_loop (pushGroup full styling) (groupLines full styling) groups
      (fun group _ _ => pushGroup_appends full styling group) output houtput
  have hsome : ¬ (groups.all fun group => group.hits.isEmpty) = true := by
    intro hall
    apply hne
    rw [hinner, assemble_eq_nil, List.flatMap_eq_nil_iff]
    intro group hgroup
    rw [groupLines_eq_nil]
    exact List.all_eq_true.1 hall group hgroup
  rw [appends_writeStr output _ final hfinal, hinner]
  unfold allLines
  rw [if_neg hsome, assemble_append]
  rfl

theorem renderAllText_eq_ok {groups : List (ProjectSearchResponse F)} {full : Bool}
    {styling : Styling} {text : Text} (h : renderAllText groups full styling = .ok text) :
    text = assemble styling (allLines groups full styling) ∨
      ∃ output : BoundedBuffer,
        output.inner = assemble styling (allLines groups full styling) ∧
          text = finishTextOutput output := by
  unfold renderAllText at h
  obtain ⟨_, _, h⟩ := except_bind_eq_ok.1 h
  split at h
  · rename_i hempty
    rw [List.isEmpty_iff] at hempty
    subst hempty
    exact .inl (Except.ok.inj h).symm
  · obtain ⟨output, houtput, h⟩ := except_bind_eq_ok.1 h
    split at h
    · rename_i hempty
      rw [List.isEmpty_iff] at hempty
      have hinner : output.inner =
          assemble styling (groups.flatMap (groupLines full styling)) :=
        appends_loop (pushGroup full styling) (groupLines full styling) groups
          (fun group _ _ => pushGroup_appends full styling group) output houtput
      rw [hempty, eq_comm, assemble_eq_nil, List.flatMap_eq_nil_iff] at hinner
      have hall : (groups.all fun group => group.hits.isEmpty) = true := by
        rw [List.all_eq_true]
        intro group hgroup
        exact groupLines_eq_nil.1 (hinner group hgroup)
      obtain rfl := Except.ok.inj h
      left
      unfold allLines
      rw [if_pos hall]
      rfl
    · rename_i hempty
      rw [List.isEmpty_iff] at hempty
      obtain ⟨final, hfinal, h⟩ := except_bind_eq_ok.1 h
      exact .inr ⟨final, pushGroups_inner houtput hempty hfinal,
        (Except.ok.inj h).symm⟩

theorem terminalSafe_finish (hcategories : PlainCategories) {styling : Styling}
    {output : BoundedBuffer} {lines : List Line} (hclean : ∀ line ∈ lines, line.Clean)
    (houtput : output.inner = assemble styling lines) :
    TerminalSafe styling (finishTextOutput output) lines := by
  rw [finishTextOutput_eq hcategories hclean houtput, houtput]
  exact terminalSafe_assemble hcategories hclean

/-- Whatever the strings of a response are, its text is made of clean lines; how
many there are follows from the shape of the response; a body shown in full
stands behind its indentation line by line; and the last filter removes
nothing. -/
theorem renderText_safe (hcategories : PlainCategories) (response : SearchResponse F)
    (options : TextOptions) {text : Text} (h : renderText response options = .ok text) :
    TerminalSafe options.styling text
        (responseLines response.hits response.explanation options) ∧
      text.count '\n' =
        lineCount options (responseShape response.hits response.explanation) := by
  have hclean := responseLines_clean hcategories response.hits response.explanation
    options
  obtain ⟨output, houtput, rfl⟩ := renderText_eq_ok h
  have hsafe := terminalSafe_finish hcategories hclean houtput
  exact ⟨hsafe, hsafe.count_eq.trans (responseLines_length _ _ options)⟩

theorem renderAllText_safe (hcategories : PlainCategories)
    (groups : List (ProjectSearchResponse F)) (full : Bool) (styling : Styling)
    {text : Text} (h : renderAllText groups full styling = .ok text) :
    TerminalSafe styling text (allLines groups full styling) ∧
      text.count '\n' = allCount full styling
        (groups.map fun group => group.hits.map (hitShape group.hits)) := by
  have hclean := allLines_clean hcategories groups full styling
  have hsafe : TerminalSafe styling text (allLines groups full styling) := by
    rcases renderAllText_eq_ok h with rfl | ⟨output, houtput, rfl⟩
    · exact terminalSafe_assemble hcategories hclean
    · exact terminalSafe_finish hcategories hclean houtput
  exact ⟨hsafe, hsafe.count_eq.trans (allLines_length groups full styling)⟩

/-- Both text renderers are safe for a terminal. -/
theorem renderers_safe (hcategories : PlainCategories) :
    (∀ (response : SearchResponse F) (options : TextOptions) (text : Text),
      renderText response options = .ok text →
        TerminalSafe options.styling text
            (responseLines response.hits response.explanation options) ∧
          text.count '\n' =
            lineCount options (responseShape response.hits response.explanation)) ∧
    (∀ (groups : List (ProjectSearchResponse F)) (full : Bool) (styling : Styling)
      (text : Text), renderAllText groups full styling = .ok text →
        TerminalSafe styling text (allLines groups full styling) ∧
          text.count '\n' = allCount full styling
            (groups.map fun group => group.hits.map (hitShape group.hits))) ∧
    (∀ (hits : List (SearchHit F)) (explanation : Option (SearchExplanation F))
      (options : TextOptions), options.full = true → ∀ hit ∈ hits,
        (bodyTexts (sanitizeTerminal .multiline hit.text)).map
          (.body options.indent) <:+: responseLines hits explanation options) ∧
    (∀ (response : SearchResponse F) (options : TextOptions) (output : BoundedBuffer),
      renderTextInner (.new BoundedBuffer.directStreamCap) response.hits
        response.explanation options = .ok output →
        finishTextOutput output = output.inner) ∧
    (∀ (groups : List (ProjectSearchResponse F)) (full : Bool) (styling : Styling)
      (output final : BoundedBuffer),
      groups.foldlM (pushGroup full styling) (.new BoundedBuffer.directStreamCap) =
        .ok output → output.inner ≠ [] → output.writeStr ['\n'] = .ok final →
        finishTextOutput final = final.inner) := by
  refine ⟨?_, ?_, ?_, ?_, ?_⟩
  · intro response options text h
    exact renderText_safe hcategories response options h
  · intro groups full styling text h
    exact renderAllText_safe hcategories groups full styling h
  · intro hits explanation options hfull hit hmem
    exact body_infix hits explanation options hfull hmem
  · intro response options output h
    apply finishTextOutput_eq hcategories
      (responseLines_clean hcategories response.hits response.explanation options)
    exact renderTextInner_appends _ _ options output h
  · intro groups full styling output final houtput hne hfinal
    exact finishTextOutput_eq hcategories
      (allLines_clean hcategories groups full styling)
      (pushGroups_inner houtput hne hfinal)

end Results

namespace Sample

open Exact

local instance : Wiki.Unicode := Wiki.Unicode.ascii

theorem plainCategories : PlainCategories := by
  constructor
  · intro c _ _
    change (if _ then _ else _ : Wiki.GeneralCategory) ≠ _
    split_ifs <;> simp
  · decide

/-- A hit whose title holds a line feed and an escape. -/
def hit : SearchHit ℚ :=
  ⟨['a', '\n', escape], "p".toList, 1 / 2, "x\ty".toList, [], false, false, .shared,
    false, none, none⟩

def response : SearchResponse ℚ := ⟨[hit], none⟩

theorem renderText_response : renderText response (.single true .ansi) =
    .ok (assemble .ansi (responseLines response.hits none (.single true .ansi))) := by
  decide +kernel

theorem renderers_safe_response :
    let lines := responseLines response.hits none (.single true .ansi)
    TerminalSafe .ansi (assemble .ansi lines) lines ∧
      (assemble .ansi lines).count '\n' = lineCount (.single true .ansi)
        (responseShape response.hits none) :=
  (renderers_safe plainCategories).1 response (.single true .ansi) _ renderText_response

example : lineCount (.single true .ansi) (responseShape response.hits none) = 5 := by
  decide +kernel

end Sample

end Yams.Render
