/-
The filter between untrusted text and a terminal: it drops control and format
characters, except layout where it is allowed, and except the renderer's own
style sequences in a finished frame.
-/
import Yams.WikiPatterns

namespace Yams.Terminal

/-- Where a text is going to stand. -/
inductive TerminalText
  | inline | multiline | renderedFrame
  deriving DecidableEq

def escape : Char := Char.ofNat 0x1b

/-- The style sequences that a finished frame may hold. -/
def safeStyles : List Text :=
  ["[0m", "[1m", "[4m"].map fun style => escape :: style.toList

theorem safeStyles_eq : safeStyles =
    [[escape, '[', '0', 'm'], [escape, '[', '1', 'm'], [escape, '[', '4', 'm']] :=
  rfl

/-- The style sequence that a text starts with, where it may hold one. -/
def styleAt (context : TerminalText) (text : Text) : Option Text :=
  if context = .renderedFrame then
    safeStyles.find? fun style => style.isPrefixOf text
  else none

theorem styleAt_eq_some {context : TerminalText} {text style : Text}
    (h : styleAt context text = some style) :
    context = .renderedFrame ∧ style ∈ safeStyles ∧ style <+: text := by
  unfold styleAt at h
  split at h
  · rename_i hcontext
    exact ⟨hcontext, List.mem_of_find?_eq_some h,
      List.isPrefixOf_iff_prefix.1
        (List.find?_some (p := fun style : Text => style.isPrefixOf text) h)⟩
  · cases h

theorem length_of_mem_safeStyles {style : Text} (h : style ∈ safeStyles) :
    style.length = 4 := by
  rw [safeStyles_eq] at h
  simp only [List.mem_cons, List.not_mem_nil, or_false] at h
  rcases h with rfl | rfl | rfl <;> rfl

theorem styleAt_of_ne {context : TerminalText} (h : context ≠ .renderedFrame)
    (text : Text) : styleAt context text = none :=
  if_neg h

theorem styleAt_style {style : Text} (h : style ∈ safeStyles) (rest : Text) :
    styleAt .renderedFrame (style ++ rest) = some style := by
  rw [safeStyles_eq] at h
  simp only [List.mem_cons, List.not_mem_nil, or_false] at h
  rw [styleAt, if_pos rfl, safeStyles_eq]
  rcases h with rfl | rfl | rfl <;> simp [List.isPrefixOf]

theorem styleAt_cons_eq_none {c : Char} (h : c ≠ escape) (rest : Text) :
    styleAt .renderedFrame (c :: rest) = none := by
  rw [styleAt, if_pos rfl, safeStyles_eq]
  simp [List.isPrefixOf, h.symm]

section

variable [Wiki.Unicode]

def isUnsafeControl (c : Char) : Bool :=
  c.toNat ≤ 0x1f || (0x7f ≤ c.toNat && c.toNat ≤ 0x9f) ||
    Wiki.Unicode.generalCategory c = .format

def isLayout (c : Char) : Bool := c = '\t' || c = '\n'

def sanitizeTerminal (context : TerminalText) : Text → Text
  | [] => []
  | c :: rest =>
      match _hstyle : styleAt context (c :: rest) with
      | some style =>
          style ++ sanitizeTerminal context ((c :: rest).drop style.length)
      | none =>
          if isUnsafeControl c then
            if context ≠ .inline && isLayout c then
              c :: sanitizeTerminal context rest
            else sanitizeTerminal context rest
          else c :: sanitizeTerminal context rest
termination_by text => text.length
decreasing_by
  all_goals simp_wf
  have hlength := length_of_mem_safeStyles (styleAt_eq_some _hstyle).2.1
  simp only [hlength]
  omega

section Contexts

/-- Outside a finished frame the filter looks at one character at a time. -/
theorem sanitizeTerminal_eq_filter {context : TerminalText}
    (h : context ≠ .renderedFrame) (text : Text) :
    sanitizeTerminal context text = text.filter fun c =>
      !isUnsafeControl c || (context ≠ .inline && isLayout c) := by
  induction text with
  | nil => rw [sanitizeTerminal, List.filter_nil]
  | cons c rest ih =>
      rw [sanitizeTerminal]
      split
      · rename_i style hstyle
        rw [styleAt_of_ne h] at hstyle
        cases hstyle
      · rw [ih, List.filter_cons]
        cases isUnsafeControl c <;>
          cases decide (context ≠ .inline) && isLayout c <;> simp

/-- No character of the text acts on a terminal. -/
def Plain (text : Text) : Prop := ∀ c ∈ text, isUnsafeControl c = false

theorem Plain.append {left right : Text} (hleft : Plain left) (hright : Plain right) :
    Plain (left ++ right) := by
  intro c hc
  exact (List.mem_append.1 hc).elim (hleft c) (hright c)

theorem sanitizeTerminal_inline (text : Text) :
    Plain (sanitizeTerminal .inline text) := by
  intro c hc
  rw [sanitizeTerminal_eq_filter (by decide)] at hc
  simpa using (List.mem_filter.1 hc).2

theorem sanitizeTerminal_multiline (text : Text) :
    ∀ c ∈ sanitizeTerminal .multiline text,
      isUnsafeControl c = false ∨ c = '\t' ∨ c = '\n' := by
  intro c hc
  rw [sanitizeTerminal_eq_filter (by decide)] at hc
  simpa [isLayout] using (List.mem_filter.1 hc).2

theorem isUnsafeControl_escape : isUnsafeControl escape = true := rfl

theorem isUnsafeControl_newline : isUnsafeControl '\n' = true := rfl

theorem Plain.escape_notMem {text : Text} (h : Plain text) : escape ∉ text := by
  intro hmem
  have hsafe := h escape hmem
  rw [isUnsafeControl_escape] at hsafe
  cases hsafe

theorem Plain.newline_notMem {text : Text} (h : Plain text) : '\n' ∉ text := by
  intro hmem
  have hsafe := h '\n' hmem
  rw [isUnsafeControl_newline] at hsafe
  cases hsafe

end Contexts

section Frames

/-- A text of style sequences, layout and characters that do not act on a
terminal. -/
inductive Framed : Text → Prop
  | nil : Framed []
  | style (sequence rest : Text) (hstyle : sequence ∈ safeStyles)
      (hrest : Framed rest) : Framed (sequence ++ rest)
  | char (c : Char) (rest : Text)
      (hchar : isUnsafeControl c = false ∨ isLayout c = true)
      (hrest : Framed rest) : Framed (c :: rest)

theorem Framed.append {left right : Text} (hleft : Framed left)
    (hright : Framed right) : Framed (left ++ right) := by
  induction hleft with
  | nil => exact hright
  | style sequence rest hstyle _ ih =>
      rw [List.append_assoc]
      exact .style sequence _ hstyle ih
  | char c rest hchar _ ih => exact .char c _ hchar ih

theorem framed_of_mem {style : Text} (h : style ∈ safeStyles) : Framed style := by
  rw [← List.append_nil style]
  exact .style style [] h .nil

theorem framed_of_forall {text : Text}
    (h : ∀ c ∈ text, isUnsafeControl c = false ∨ isLayout c = true) :
    Framed text := by
  induction text with
  | nil => exact .nil
  | cons c rest ih =>
      apply Framed.char c rest (h c List.mem_cons_self)
      apply ih
      intro other hother
      exact h other (List.mem_cons_of_mem c hother)

theorem Plain.framed {text : Text} (h : Plain text) : Framed text :=
  framed_of_forall fun c hc => .inl (h c hc)

/-- The filter leaves such a text as it is: no character is dropped, so none
that is dropped can bring a style sequence together. -/
theorem Framed.sanitizeTerminal_eq {text : Text} (h : Framed text) :
    sanitizeTerminal .renderedFrame text = text := by
  induction h with
  | nil => rw [sanitizeTerminal]
  | style sequence rest hstyle _ ih =>
      obtain ⟨c, tail, rfl⟩ : ∃ c tail, sequence = c :: tail := by
        cases sequence with
        | nil => exact absurd (length_of_mem_safeStyles hstyle) (by decide)
        | cons c tail => exact ⟨c, tail, rfl⟩
      have hat := styleAt_style hstyle rest
      rw [List.cons_append] at hat ⊢
      rw [sanitizeTerminal]
      split
      · rename_i style hfound
        rw [hat] at hfound
        obtain rfl := Option.some.inj hfound
        rw [← List.cons_append, List.drop_left, ih]
      · rename_i hfound
        rw [hat] at hfound
        cases hfound
  | char c rest hchar _ ih =>
      have hne : c ≠ escape := by
        rintro rfl
        rcases hchar with hsafe | hlayout
        · rw [isUnsafeControl_escape] at hsafe
          cases hsafe
        · exact absurd hlayout (by decide)
      rw [sanitizeTerminal]
      split
      · rename_i style hfound
        rw [styleAt_cons_eq_none hne] at hfound
        cases hfound
      · rw [ih]
        rcases hchar with hsafe | hlayout
        · rw [if_neg (by rw [hsafe]; exact Bool.false_ne_true)]
        · rw [hlayout]
          simp

end Frames

end

end Yams.Terminal
