/-
The window that a snippet shows: it lies between word boundaries of the collapsed
text, every place that is read for it is in range, and a window away from the head
is one of the best.
-/
import Yams.Snippet

namespace Yams.Search

section Collapsed

/-- A text of words with one space between each two. -/
structure Spaced (text : Text) : Prop where
  head : text.head? ≠ some ' '
  last : text.getLast? ≠ some ' '
  single : ∀ i, text[i]? = some ' ' → text[i + 1]? ≠ some ' '

theorem spaced_nil : Spaced [] :=
  ⟨(fun h => nomatch h), (fun h => nomatch h), fun i h => (by simp at h)⟩

theorem not_whitespace_space {c : Char} (hc : isPythonWhitespace c = false) : c ≠ ' ' := by
  intro heq
  subst heq
  exact absurd hc (by decide)

theorem Spaced.append {text : Text} (h : Spaced text) {c : Char} (hc : c ≠ ' ') :
    Spaced (text ++ [c]) := by
  constructor
  · cases text with
    | nil => simpa using hc
    | cons d text => simpa using h.head
  · rw [List.getLast?_concat]
    exact fun heq => hc (Option.some.inj heq)
  · intro i hi
    by_cases hlt : i + 1 < text.length
    · rw [List.getElem?_append_left (by omega)] at hi
      rw [List.getElem?_append_left hlt]
      exact h.single i hi
    · intro hnext
      by_cases heq : i + 1 = text.length
      · rw [heq, List.getElem?_concat_length] at hnext
        exact hc (Option.some.inj hnext)
      · rw [List.getElem?_eq_none (by simp; omega)] at hnext
        cases hnext

theorem Spaced.append_space {text : Text} (h : Spaced text) (hne : text ≠ [])
    {c : Char} (hc : c ≠ ' ') : Spaced (text ++ [' ', c]) := by
  constructor
  · cases text with
    | nil => exact absurd rfl hne
    | cons d text => simpa using h.head
  · rw [show text ++ [' ', c] = (text ++ [' ']) ++ [c] by simp, List.getLast?_concat]
    exact fun heq => hc (Option.some.inj heq)
  · intro i hi hnext
    rcases Nat.lt_trichotomy (i + 1) text.length with hlt | heq | hgt
    · rw [List.getElem?_append_left (by omega)] at hi
      rw [List.getElem?_append_left hlt] at hnext
      exact h.single i hi hnext
    · apply h.last
      rw [List.getElem?_append_left (by omega)] at hi
      rw [List.getLast?_eq_getElem?, ← hi]
      congr 1
      omega
    · rw [List.getElem?_append_right (by omega)] at hnext
      have hone : i + 1 - text.length = 1 := by
        have hlt := (List.getElem?_eq_some_iff.1 hnext).1
        simp only [List.length_cons, List.length_nil] at hlt
        omega
      rw [hone] at hnext
      exact hc (Option.some.inj hnext)

/-- What is read of a text is spaced, and a space is due only after a word. -/
theorem collapse_spaced (text : Text) (state : Collapse) (h : Spaced state.collapsed)
    (hpending : state.pendingSpace = true → state.collapsed ≠ []) :
    Spaced (text.foldl Collapse.step state).collapsed := by
  induction text generalizing state with
  | nil => exact h
  | cons c text ih =>
      rw [List.foldl_cons]
      by_cases hc : isPythonWhitespace c = true
      · apply ih
        · rwa [Collapse.step, if_pos hc]
        · rw [Collapse.step, if_pos hc]
          simp
      · have hspace := not_whitespace_space (Bool.eq_false_iff.2 hc)
        by_cases hdue : state.pendingSpace = true
        · apply ih
          · rw [Collapse.step, if_neg hc, if_pos hdue]
            exact h.append_space (hpending hdue) hspace
          · rw [Collapse.step, if_neg hc, if_pos hdue]
            exact fun h => nomatch h
        · apply ih
          · rw [Collapse.step, if_neg hc, if_neg hdue]
            exact h.append hspace
          · rw [Collapse.step, if_neg hc, if_neg hdue]
            exact fun h => absurd h hdue

theorem spaced_collapsePythonWhitespace (text : Text) :
    Spaced (collapsePythonWhitespace text) :=
  collapse_spaced text ⟨[], false⟩ spaced_nil (fun h => nomatch h)

end Collapsed

section Windows

/-- The last place of a text where `p` holds. -/
theorem rposition_eq_some {p : Char → Bool} {text : Text} {i : Nat}
    (h : rposition p text = some i) :
    (∃ c, text[i]? = some c ∧ p c = true) ∧
      ∀ j c, i < j → text[j]? = some c → p c = false := by
  obtain ⟨k, hk, rfl⟩ := Option.map_eq_some_iff.1 h
  obtain ⟨hlt, hpk, hbefore⟩ := List.findIdx?_eq_some_iff_getElem.1 hk
  rw [List.length_reverse] at hlt
  constructor
  · refine ⟨text[text.length - 1 - k], List.getElem?_eq_getElem (by omega), ?_⟩
    rwa [List.getElem_reverse] at hpk
  · intro j c hj hc
    obtain ⟨hlength, rfl⟩ := List.getElem?_eq_some_iff.1 hc
    have hfalse := hbefore (text.length - 1 - j) (by omega)
    rw [List.getElem_reverse] at hfalse
    have heq : text.length - 1 - (text.length - 1 - j) = j := by omega
    simpa only [heq, Bool.not_eq_true] using hfalse

theorem rposition_eq_none {p : Char → Bool} {text : Text}
    (h : rposition p text = none) : ∀ c ∈ text, p c = false := by
  have hnone := List.findIdx?_eq_none_iff.1 (Option.map_eq_none_iff.1 h)
  exact fun c hc => hnone c (List.mem_reverse.2 hc)

/-- A window of a text: nonempty, no wider than the width, from the start of a word
to the end of one, unless one word is wider than the window. -/
structure Window (text : Text) (width start stop : Nat) : Prop where
  lt : start < stop
  le : stop ≤ text.length
  width_le : stop - start ≤ width
  start_boundary : start = 0 ∨ text[start - 1]? = some ' '
  stop_boundary : stop = text.length ∨ text[stop]? = some ' ' ∨
    (stop = start + width ∧ ∀ i, start ≤ i → i ≤ stop → text[i]? ≠ some ' ')
  start_word : text[start]? ≠ some ' '
  stop_word : text[stop - 1]? ≠ some ' '

theorem Spaced.getElem?_zero {text : Text} (h : Spaced text) : text[0]? ≠ some ' ' := by
  rw [← List.head?_eq_getElem?]
  exact h.head

theorem Spaced.getElem?_last {text : Text} (h : Spaced text) :
    text[text.length - 1]? ≠ some ' ' := by
  rw [← List.getLast?_eq_getElem?]
  exact h.last

/-- Where a window starts, that is at most where it was asked to. -/
def snapStart (text : Text) (start : Nat) : Nat :=
  if 0 < start then ((rposition (· = ' ') (text.take start)).map (· + 1)).getD 0
  else start

theorem snapStart_spec {text : Text} (h : Spaced text) (start : Nat) :
    snapStart text start ≤ start ∧
      (snapStart text start = 0 ∨ text[snapStart text start - 1]? = some ' ') ∧
      text[snapStart text start]? ≠ some ' ' := by
  unfold snapStart
  split
  · cases hspace : rposition (· = ' ') (text.take start) with
    | none => exact ⟨Nat.zero_le _, Or.inl rfl, h.getElem?_zero⟩
    | some space =>
        obtain ⟨⟨c, hc, heq⟩, -⟩ := rposition_eq_some hspace
        obtain rfl := of_decide_eq_true heq
        have hlt := (List.getElem?_eq_some_iff.1 hc).1
        rw [List.length_take] at hlt
        rw [List.getElem?_take_of_lt (by omega)] at hc
        exact ⟨by simp only [Option.map_some, Option.getD_some]; omega,
          Or.inr hc, h.single space hc⟩
  · rename_i hzero
    obtain rfl : start = 0 := by omega
    exact ⟨Nat.le_refl 0, Or.inl rfl, h.getElem?_zero⟩

theorem snap_eq (text : Text) (start width : Nat) :
    snap text start width =
      (if min text.length (snapStart text start + width) < text.length then
        match rposition (· = ' ') ((text.drop (snapStart text start)).take
          (min text.length (snapStart text start + width) + 1 - snapStart text start)) with
        | some space => if 0 < space then
            (snapStart text start, snapStart text start + space)
          else (snapStart text start, min text.length (snapStart text start + width))
        | none => (snapStart text start, min text.length (snapStart text start + width))
      else (snapStart text start, min text.length (snapStart text start + width))) :=
  rfl

/-- A window that is moved to the word boundaries. -/
theorem snap_window {text : Text} (h : Spaced text) {start width : Nat}
    (hstart : start < text.length) (hwidth : 0 < width) :
    Window text width (snap text start width).1 (snap text start width).2 := by
  obtain ⟨hle, hboundary, hword⟩ := snapStart_spec h start
  rw [snap_eq]
  generalize snapStart text start = first at hle hboundary hword
  split
  · rename_i hshort
    have hmin : min text.length (first + width) = first + width := by omega
    rw [hmin] at hshort ⊢
    have hget (i : Nat) (hi : i < first + width + 1 - first) :
        ((text.drop first).take (first + width + 1 - first))[i]? = text[first + i]? := by
      rw [List.getElem?_take_of_lt hi, List.getElem?_drop]
    split
    · rename_i space hspace
      obtain ⟨⟨c, hc, heq⟩, -⟩ := rposition_eq_some hspace
      obtain rfl := of_decide_eq_true heq
      have hlt := (List.getElem?_eq_some_iff.1 hc).1
      rw [List.length_take, List.length_drop] at hlt
      rw [hget space (by omega)] at hc
      by_cases hpos : 0 < space
      · rw [if_pos hpos]
        exact
          { lt := by simp only; omega
            le := by simp only; omega
            width_le := by simp only; omega
            start_boundary := hboundary
            stop_boundary := Or.inr (Or.inl hc)
            start_word := hword
            stop_word := by
              intro hbefore
              apply h.single _ hbefore
              rw [show first + space - 1 + 1 = first + space by omega]
              exact hc }
      · obtain rfl : space = 0 := by omega
        exact absurd hc hword
    · rename_i hnone
      have hfree : ∀ i, first ≤ i → i ≤ first + width → text[i]? ≠ some ' ' := by
        intro i hfirst hlast hi
        have hmem : ' ' ∈ (text.drop first).take (first + width + 1 - first) := by
          apply List.mem_of_getElem? (i := i - first)
          rw [hget _ (by omega), show first + (i - first) = i by omega]
          exact hi
        exact absurd (rposition_eq_none hnone ' ' hmem) (by decide)
      exact
        { lt := by simp only; omega
          le := by simp only; omega
          width_le := by simp only; omega
          start_boundary := hboundary
          stop_boundary := Or.inr (Or.inr ⟨rfl, hfree⟩)
          start_word := hword
          stop_word := hfree (first + width - 1) (by omega) (by omega) }
  · rename_i hlong
    have hmin : min text.length (first + width) = text.length := by omega
    rw [hmin]
    exact
      { lt := by omega
        le := Nat.le_refl _
        width_le := by omega
        start_boundary := hboundary
        stop_boundary := Or.inl rfl
        start_word := hword
        stop_word := h.getElem?_last }

end Windows

section Total

variable {α β σ : Type} {items : List α}

theorem mapM_some {f : α → Option β} {g : α → β} (h : ∀ a ∈ items, f a = some (g a)) :
    items.mapM f = some (items.map g) := by
  induction items with
  | nil => rfl
  | cons a items ih =>
      rw [List.mapM_cons, h a List.mem_cons_self,
        ih fun b hb => h b (List.mem_cons_of_mem _ hb)]
      rfl

theorem flatten_map_singleton (p : α → Bool) (f : α → β) (items : List α) :
    (items.map fun a => if p a then [f a] else []).flatten = (items.filter p).map f := by
  induction items with
  | nil => rfl
  | cons a items ih =>
      rw [List.map_cons, List.flatten_cons, ih]
      cases hp : p a <;> simp [hp]

theorem foldlM_some {f : σ → α → Option σ} {g : σ → α → σ}
    (h : ∀ a ∈ items, ∀ state, f state a = some (g state a)) (state : σ) :
    items.foldlM f state = some (items.foldl g state) := by
  induction items generalizing state with
  | nil => rfl
  | cons a items ih =>
      rw [List.foldlM_cons, h a List.mem_cons_self]
      exact ih (fun b hb => h b (List.mem_cons_of_mem _ hb)) _

end Total

section Checked

/-! The same computation with every index, slice and subtraction checked: `none`
is the panic of the source. -/

/-- `&text[start..stop]`. -/
def slice (text : Text) (start stop : Nat) : Option Text :=
  if start ≤ stop ∧ stop ≤ text.length then some ((text.drop start).take (stop - start))
  else none

/-- The subtraction of unsigned numbers. -/
def checkedSub (left right : Nat) : Option Nat :=
  if right ≤ left then some (left - right) else none

theorem slice_eq {text : Text} {start stop : Nat} (hle : start ≤ stop)
    (hstop : stop ≤ text.length) :
    slice text start stop = some ((text.drop start).take (stop - start)) :=
  if_pos ⟨hle, hstop⟩

theorem checkedSub_eq {left right : Nat} (h : right ≤ left) :
    checkedSub left right = some (left - right) :=
  if_pos h

def snapStartChecked (text : Text) (start : Nat) : Option Nat :=
  if 0 < start then do
    let before ← slice text 0 start
    return ((rposition (· = ' ') before).map (· + 1)).getD 0
  else some start

def snapChecked (text : Text) (start width : Nat) : Option (Nat × Nat) := do
  let start ← snapStartChecked text start
  let stop := min text.length (start + width)
  if stop < text.length then
    let window ← slice text start (stop + 1)
    match rposition (· = ' ') window with
    | some space => if 0 < space then some (start, start + space) else some (start, stop)
    | none => some (start, stop)
  else some (start, stop)

def makeSnippetChecked (text : Text) (start stop : Nat) : Option Snippet := do
  let window ← slice text start stop
  return ⟨window, 0 < start, stop < text.length⟩

theorem snapStartChecked_eq {text : Text} {start : Nat} (h : start ≤ text.length) :
    snapStartChecked text start = some (snapStart text start) := by
  unfold snapStartChecked snapStart
  split
  · rw [slice_eq (Nat.zero_le _) h]
    rfl
  · rfl

theorem snapChecked_eq {text : Text} (h : Spaced text) {start width : Nat}
    (hstart : start ≤ text.length) :
    snapChecked text start width = some (snap text start width) := by
  have hle := (snapStart_spec h start).1
  unfold snapChecked
  rw [snapStartChecked_eq hstart, snap_eq]
  generalize snapStart text start = first at hle
  change (if min text.length (first + width) < text.length then _ else _) = _
  by_cases hshort : min text.length (first + width) < text.length
  · rw [if_pos hshort, if_pos hshort, slice_eq (by omega) (by omega)]
    change (match rposition _ _ with | some space => _ | none => _) = _
    cases hspace : rposition (· = ' ') ((text.drop first).take
        (min text.length (first + width) + 1 - first)) with
    | none => rfl
    | some space =>
        by_cases hpos : 0 < space
        · simp only [hpos, if_true]
        · simp only [hpos, if_false]
  · rw [if_neg hshort, if_neg hshort]

theorem makeSnippetChecked_eq {text : Text} {width start stop : Nat}
    (h : Window text width start stop) :
    makeSnippetChecked text start stop = some (makeSnippet text start stop) := by
  unfold makeSnippetChecked
  rw [slice_eq (Nat.le_of_lt h.lt) h.le]
  rfl

variable {F : Type} [Binary64 F] [LetterTables]

open Binary64

def identifierBefore (text : Text) (start : Nat) : Option Bool :=
  if 0 < start then (checkedSub start 1).bind fun i => text[i]?.map isIdentifierChar
  else some false

def identifierFrom (text : Text) (stop : Nat) : Option Bool :=
  if stop < text.length then text[stop]?.map isIdentifierChar else some false

def termAtChecked (text needle : Text) (start : Nat) : Option Bool := do
  let inside ← identifierBefore text start
  if inside then some false
  else
    let continued ← identifierFrom text (start + needle.length)
    if continued then some false
    else
      let window ← slice text start (start + needle.length)
      return (window.zip needle).all fun (actual, expected) =>
        LetterTables.toLowercase actual = LetterTables.toLowercase expected

def termSpansChecked (text : Text) (terms : List (WeightedTerm F)) :
    Option (List Span) := do
  let spans ← terms.zipIdx.mapM fun (weighted, index) =>
    if lessEq weighted.weight (nearest 0) then some []
    else if text.length < weighted.term.length then some []
    else do
      let last ← checkedSub text.length weighted.term.length
      let found ← (List.range (last + 1)).mapM fun start =>
        (termAtChecked text weighted.term start).map fun found =>
          if found then [⟨start, start + weighted.term.length, index⟩] else []
      return found.flatten
  return spans.flatten

/-- The comparison of two spans reads both of their terms. -/
def sortSpansChecked (terms : List (WeightedTerm F)) (spans : List Span) :
    Option (List Span) :=
  if spans.all (·.term < terms.length) then some (sortBy (Span.order terms) spans)
  else none

def considerChecked (text : Text) (width : Nat) (bar : F)
    (terms : List (WeightedTerm F)) (spans : List Span) (chosen : Chosen F)
    (span : Span) : Option (Chosen F) := do
  let spanWidth ← checkedSub span.stop span.start
  let last ← checkedSub text.length width
  let centered := min (span.start - (width - spanWidth) / 2) last
  let (start, stop) ← snapChecked text centered width
  let score := windowScore start stop terms spans
  if less bar score && less chosen.score score then
    let window ← makeSnippetChecked text start stop
    return ⟨window, score⟩
  else return chosen

/-- The window for terms that passed their checks. -/
def windowChecked (collapsed : Text) (terms : List (WeightedTerm F)) (width : Nat)
    (gain : F) : Option Snippet := do
  if collapsed.length ≤ width then return ⟨collapsed, false, false⟩
  let spans ← (termSpansChecked collapsed terms).bind (sortSpansChecked terms)
  let (start, stop) ← snapChecked collapsed 0 width
  let head ← makeSnippetChecked collapsed start stop
  let headScore := windowScore start stop terms spans
  let chosen ← spans.foldlM
    (considerChecked collapsed width (add headScore gain) terms spans)
    ⟨head, headScore⟩
  return chosen.snippet

omit [Binary64 F] in
theorem identifierBefore_eq {text : Text} {start : Nat} (h : start ≤ text.length) :
    identifierBefore text start =
      some (0 < start && text[start - 1]?.any isIdentifierChar) := by
  unfold identifierBefore
  by_cases hpos : 0 < start
  · rw [if_pos hpos, checkedSub_eq hpos, Option.bind_some,
      List.getElem?_eq_getElem (by omega)]
    simp [hpos]
  · rw [if_neg hpos]
    simp [hpos]

omit [Binary64 F] in
theorem identifierFrom_eq (text : Text) (stop : Nat) :
    identifierFrom text stop = some (text[stop]?.any isIdentifierChar) := by
  unfold identifierFrom
  by_cases hshort : stop < text.length
  · rw [if_pos hshort, List.getElem?_eq_getElem hshort]
    rfl
  · rw [if_neg hshort, List.getElem?_eq_none (by omega)]
    rfl

omit [Binary64 F] in
theorem termAtChecked_eq {text needle : Text} {start : Nat}
    (h : start + needle.length ≤ text.length) :
    termAtChecked text needle start = some (termAt text needle start) := by
  unfold termAtChecked termAt
  rw [identifierBefore_eq (by omega), identifierFrom_eq]
  cases (0 < start && text[start - 1]?.any isIdentifierChar) with
  | true => rfl
  | false =>
      cases text[start + needle.length]?.any isIdentifierChar with
      | true => rfl
      | false =>
          rw [slice_eq (by omega) h, Nat.add_sub_cancel_left]
          rfl

theorem termSpansChecked_eq (text : Text) (terms : List (WeightedTerm F)) :
    termSpansChecked text terms = some (termSpans text terms) := by
  unfold termSpansChecked termSpans
  rw [List.flatMap_def, mapM_some]
  · rfl
  rintro ⟨weighted, index⟩ -
  dsimp only
  split
  · rfl
  split
  · rfl
  rename_i hlong
  rw [checkedSub_eq (by omega)]
  change Option.bind (List.mapM _ _) _ = _
  rw [mapM_some (g := fun start => if termAt text weighted.term start then
    [⟨start, start + weighted.term.length, index⟩] else [])]
  · exact congrArg some (flatten_map_singleton _ _ _)
  · intro start hstart
    have hlt := List.mem_range.1 hstart
    rw [termAtChecked_eq (by omega)]
    rfl

/-- Every span lies in the text and belongs to a term. -/
theorem termSpans_range {text : Text} {terms : List (WeightedTerm F)} {span : Span}
    (h : span ∈ termSpans text terms) :
    span.start ≤ span.stop ∧ span.stop ≤ text.length ∧ span.term < terms.length := by
  obtain ⟨⟨weighted, index⟩, hmem, hspan⟩ := List.mem_flatMap.1 h
  dsimp only at hspan
  split at hspan
  · exact absurd hspan List.not_mem_nil
  split at hspan
  · exact absurd hspan List.not_mem_nil
  obtain ⟨start, hstart, rfl⟩ := List.mem_map.1 hspan
  have hlt := List.mem_range.1 (List.mem_filter.1 hstart).1
  have hindex := List.snd_lt_of_mem_zipIdx hmem
  dsimp only
  refine ⟨by omega, by omega, by simpa using hindex⟩

/-- The window around a span. -/
def spanWindow (text : Text) (width : Nat) (span : Span) : Nat × Nat :=
  snap text (min (span.start - (width - (span.stop - span.start)) / 2)
    (text.length - width)) width

omit [LetterTables] in
theorem spanWindow_window {text : Text} (h : Spaced text) {width : Nat}
    (hwidth : 0 < width) (hlong : width < text.length) (span : Span) :
    Window text width (spanWindow text width span).1 (spanWindow text width span).2 := by
  unfold spanWindow
  exact snap_window h (by omega) hwidth

/-- What a window away from the head shows of the terms. -/
def spanScore (text : Text) (width : Nat) (terms : List (WeightedTerm F))
    (spans : List Span) (span : Span) : F :=
  windowScore (spanWindow text width span).1 (spanWindow text width span).2 terms spans

def spanSnippet (text : Text) (width : Nat) (span : Span) : Snippet :=
  makeSnippet text (spanWindow text width span).1 (spanWindow text width span).2

omit [LetterTables] in
theorem consider_eq (text : Text) (width : Nat) (bar : F) (terms : List (WeightedTerm F))
    (spans : List Span) (chosen : Chosen F) (span : Span) :
    Chosen.consider text width bar terms spans chosen span =
      if less bar (spanScore text width terms spans span) &&
          less chosen.score (spanScore text width terms spans span) then
        ⟨spanSnippet text width span, spanScore text width terms spans span⟩
      else chosen :=
  rfl

omit [LetterTables] in
theorem considerChecked_eq {text : Text} (h : Spaced text) {width : Nat}
    (hwidth : 0 < width) (hlong : width < text.length) (bar : F)
    (terms : List (WeightedTerm F)) (spans : List Span) (chosen : Chosen F) {span : Span}
    (hspan : span.start ≤ span.stop) :
    considerChecked text width bar terms spans chosen span =
      some (Chosen.consider text width bar terms spans chosen span) := by
  have hwindow := makeSnippetChecked_eq (spanWindow_window h hwidth hlong span)
  unfold considerChecked
  rw [checkedSub_eq hspan, checkedSub_eq (Nat.le_of_lt hlong), consider_eq]
  dsimp only [Option.bind_eq_bind, Option.bind_some]
  rw [snapChecked_eq h (by omega)]
  change (if less bar (spanScore text width terms spans span) &&
    less chosen.score (spanScore text width terms spans span) then
      (makeSnippetChecked text (spanWindow text width span).1
        (spanWindow text width span).2).bind fun window =>
          some (⟨window, spanScore text width terms spans span⟩ : Chosen F)
    else some chosen) = _
  rw [hwindow]
  split <;> rfl

/-- The window that is shown for terms that passed their checks. -/
def shownWindow (collapsed : Text) (terms : List (WeightedTerm F)) (width : Nat)
    (gain : F) : Snippet :=
  if collapsed.length ≤ width then ⟨collapsed, false, false⟩
  else
    let spans := sortBy (Span.order terms) (termSpans collapsed terms)
    let (start, stop) := snap collapsed 0 width
    let head := makeSnippet collapsed start stop
    let headScore := windowScore start stop terms spans
    (spans.foldl (Chosen.consider collapsed width (add headScore gain) terms spans)
      ⟨head, headScore⟩).snippet

theorem windowChecked_eq {text : Text} (h : Spaced text) (terms : List (WeightedTerm F))
    {width : Nat} (hwidth : 0 < width) (gain : F) :
    windowChecked text terms width gain = some (shownWindow text terms width gain) := by
  unfold windowChecked shownWindow
  by_cases hshort : text.length ≤ width
  · rw [if_pos hshort, if_pos hshort]
    rfl
  rw [if_neg hshort, if_neg hshort, termSpansChecked_eq, Option.bind_some]
  have hall : (termSpans text terms).all (·.term < terms.length) = true :=
    List.all_eq_true.2 fun span hspan => decide_eq_true (termSpans_range hspan).2.2
  have hsorted : sortSpansChecked terms (termSpans text terms) =
      some (sortBy (Span.order terms) (termSpans text terms)) := if_pos hall
  have hhead := makeSnippetChecked_eq
    (snap_window h (Nat.zero_lt_of_lt (Nat.lt_of_not_le hshort)) hwidth)
  have hspans : ∀ span ∈ sortBy (Span.order terms) (termSpans text terms),
      span.start ≤ span.stop :=
    fun span hspan => (termSpans_range (mem_sortBy.1 hspan)).1
  generalize sortBy (Span.order terms) (termSpans text terms) = spans at hsorted hspans
  have hfold (bar : F) (chosen : Chosen F) :
      spans.foldlM (considerChecked text width bar terms spans) chosen =
        some (spans.foldl (Chosen.consider text width bar terms spans) chosen) :=
    foldlM_some (fun span hspan state => considerChecked_eq h hwidth
      (Nat.lt_of_not_le hshort) bar terms spans state (hspans span hspan)) chosen
  rw [hsorted]
  dsimp only [Option.bind_eq_bind, Option.bind_some]
  rw [snapChecked_eq h (Nat.zero_le _)]
  dsimp only [Option.bind_some]
  rw [hhead]
  dsimp only [Option.bind_some]
  rw [hfold]
  rfl

end Checked

section Law

/-- What a snippet shows of the collapsed text: a part of at most the width, from
the start of a word to the end of one unless a single word is wider than that, and
flags for what stands around it. -/
structure Shown (collapsed : Text) (width : Nat) (result : Snippet)
    (before after : Text) : Prop where
  infix_eq : collapsed = before ++ result.text ++ after
  length_le : result.text.length ≤ width
  nonempty : collapsed ≠ [] → result.text ≠ []
  start_boundary : before = [] ∨ before.getLast? = some ' '
  stop_boundary : after = [] ∨ after.head? = some ' ' ∨
    (' ' ∉ result.text ∧ result.text.length = width ∧ ∃ c ∈ after.head?, c ≠ ' ')
  no_leading : result.text.head? ≠ some ' '
  no_trailing : result.text.getLast? ≠ some ' '
  clipped_start : result.clippedStart = true ↔ before ≠ []
  clipped_end : result.clippedEnd = true ↔ after ≠ []

theorem shown_whole {collapsed : Text} (h : Spaced collapsed) {width : Nat}
    (hshort : collapsed.length ≤ width) :
    Shown collapsed width ⟨collapsed, false, false⟩ [] [] where
  infix_eq := by simp
  length_le := hshort
  nonempty := id
  start_boundary := Or.inl rfl
  stop_boundary := Or.inl rfl
  no_leading := h.head
  no_trailing := h.last
  clipped_start := by simp
  clipped_end := by simp

/-- The text of a window, place by place. -/
theorem getElem?_window {text : Text} {start stop i : Nat} (hi : i < stop - start) :
    ((text.drop start).take (stop - start))[i]? = text[start + i]? := by
  rw [List.getElem?_take_of_lt hi, List.getElem?_drop]

theorem shown_window {collapsed : Text} {width start stop : Nat}
    (h : Window collapsed width start stop) :
    Shown collapsed width (makeSnippet collapsed start stop)
      (collapsed.take start) (collapsed.drop stop) := by
  have hlt := h.lt
  have hle := h.le
  have hlength : (makeSnippet collapsed start stop).text.length = stop - start := by
    simp only [makeSnippet, List.length_take, List.length_drop]
    omega
  constructor
  · have hstop : stop = start + (stop - start) := by omega
    change collapsed = collapsed.take start ++ (collapsed.drop start).take (stop - start) ++
      collapsed.drop stop
    conv_rhs => rw [hstop]
    rw [← List.drop_drop, List.append_assoc, Nat.add_sub_cancel_left,
      List.take_append_drop, List.take_append_drop]
  · rw [hlength]
    exact h.width_le
  · intro _ hnil
    rw [hnil, List.length_nil] at hlength
    omega
  · rcases h.start_boundary with rfl | hspace
    · exact Or.inl rfl
    by_cases hzero : start = 0
    · subst hzero
      exact Or.inl rfl
    right
    rw [List.getLast?_eq_getElem?, List.length_take, Nat.min_eq_left (by omega),
      List.getElem?_take_of_lt (by omega)]
    exact hspace
  · rcases h.stop_boundary with heq | hspace | ⟨hwide, hfree⟩
    · exact Or.inl (List.drop_eq_nil_of_le (Nat.le_of_eq heq.symm))
    · exact Or.inr (Or.inl (by rw [List.head?_drop]; exact hspace))
    by_cases hlast : stop = collapsed.length
    · exact Or.inl (List.drop_eq_nil_of_le (Nat.le_of_eq hlast.symm))
    right
    right
    refine ⟨?_, by omega, ?_⟩
    · intro hmem
      obtain ⟨i, hi⟩ := List.mem_iff_getElem?.1 hmem
      have hbound := (List.getElem?_eq_some_iff.1 hi).1
      rw [hlength] at hbound
      have hplace := (getElem?_window hbound).symm.trans hi
      exact hfree (start + i) (by omega) (by omega) hplace
    · have hget := List.getElem?_eq_getElem (Nat.lt_of_le_of_ne hle hlast)
      refine ⟨collapsed[stop], by rw [List.head?_drop]; exact hget, ?_⟩
      intro hspace
      exact hfree stop (by omega) (Nat.le_refl _) (hget.trans (congrArg some hspace))
  · rw [List.head?_eq_getElem?]
    change ((collapsed.drop start).take (stop - start))[0]? ≠ _
    rw [getElem?_window (by omega)]
    exact h.start_word
  · rw [List.getLast?_eq_getElem?, hlength]
    change ((collapsed.drop start).take (stop - start))[stop - start - 1]? ≠ _
    rw [getElem?_window (by omega), show start + (stop - start - 1) = stop - 1 by omega]
    exact h.stop_word
  · have hne : collapsed ≠ [] := fun hnil => by
      rw [hnil, List.length_nil] at hle
      omega
    simp only [makeSnippet, decide_eq_true_eq, ne_eq, List.take_eq_nil_iff, hne,
      or_false]
    omega
  · simp only [makeSnippet, decide_eq_true_eq, ne_eq, List.drop_eq_nil_iff]
    omega

variable [LetterTables]

/-- The terms' places in the order in which their windows are tried. -/
def shownSpans (collapsed : Text) (terms : List (WeightedTerm ℚ)) : List Span :=
  sortBy (Span.order terms) (termSpans collapsed terms)

/-- The window at the start of the text. -/
def headSnippet (collapsed : Text) (width : Nat) : Snippet :=
  if collapsed.length ≤ width then ⟨collapsed, false, false⟩
  else makeSnippet collapsed (snap collapsed 0 width).1 (snap collapsed 0 width).2

def headScore (collapsed : Text) (width : Nat) (terms : List (WeightedTerm ℚ)) : ℚ :=
  windowScore (snap collapsed 0 width).1 (snap collapsed 0 width).2 terms
    (shownSpans collapsed terms)

omit [LetterTables] in
/-- Trying one window after another keeps the first of the best ones that beat
the bar. -/
theorem consider_best (text : Text) (width : Nat) {bar : ℚ}
    (terms : List (WeightedTerm ℚ)) (spans : List Span) {start : Chosen ℚ}
    (hstart : start.score ≤ bar) (tried : List Span) :
    (tried.foldl (Chosen.consider text width bar terms spans) start = start ∧
      ∀ span ∈ tried, spanScore text width terms spans span ≤ bar) ∨
    ∃ best ∈ tried, tried.foldl (Chosen.consider text width bar terms spans) start =
        ⟨spanSnippet text width best, spanScore text width terms spans best⟩ ∧
      bar < spanScore text width terms spans best ∧
      ∀ other ∈ tried, spanScore text width terms spans other ≤
        spanScore text width terms spans best := by
  have hless (a b : ℚ) : Binary64.less a b = decide (a < b) := rfl
  induction tried using List.reverseRecOn with
  | nil => exact Or.inl ⟨rfl, fun _ h => absurd h List.not_mem_nil⟩
  | append_singleton tried span ih =>
      rw [List.foldl_append, List.foldl_cons, List.foldl_nil, consider_eq, hless, hless]
      rcases ih with ⟨heq, hall⟩ | ⟨best, hbest, heq, hbar, hall⟩
      · rw [heq]
        by_cases hbeats : bar < spanScore text width terms spans span
        · right
          rw [if_pos (by simp [hbeats, lt_of_le_of_lt hstart hbeats])]
          refine ⟨span, by simp, rfl, hbeats, ?_⟩
          intro other hother
          rcases List.mem_append.1 hother with hother | hother
          · exact (hall other hother).trans hbeats.le
          · rw [List.mem_singleton.1 hother]
        · left
          rw [if_neg (by simp [hbeats])]
          refine ⟨rfl, ?_⟩
          intro other hother
          rcases List.mem_append.1 hother with hother | hother
          · exact hall other hother
          · rw [List.mem_singleton.1 hother]
            exact not_lt.1 hbeats
      · rw [heq]
        right
        by_cases hbetter : spanScore text width terms spans best <
            spanScore text width terms spans span
        · rw [if_pos (by simp [hbetter, hbar.trans hbetter])]
          refine ⟨span, by simp, rfl, hbar.trans hbetter, ?_⟩
          intro other hother
          rcases List.mem_append.1 hother with hother | hother
          · exact (hall other hother).trans hbetter.le
          · rw [List.mem_singleton.1 hother]
        · rw [if_neg (by simp [hbetter])]
          refine ⟨best, by simp [hbest], rfl, hbar, ?_⟩
          intro other hother
          rcases List.mem_append.1 hother with hother | hother
          · exact hall other hother
          · rw [List.mem_singleton.1 hother]
            exact not_lt.1 hbetter

/-- A window that beats the head by more than the gain, and that no other window
beats. -/
def BestWindow (collapsed : Text) (width : Nat) (terms : List (WeightedTerm ℚ))
    (gain : ℚ) (result : Snippet) : Prop :=
  let spans := shownSpans collapsed terms
  ∃ best ∈ spans, result = spanSnippet collapsed width best ∧
    headScore collapsed width terms + gain <
      spanScore collapsed width terms spans best ∧
    ∀ other ∈ spans, spanScore collapsed width terms spans other ≤
      spanScore collapsed width terms spans best

theorem snippet_eq (text : Text) {terms canonical : List (WeightedTerm ℚ)}
    (hterms : canonicalTerms terms = .ok canonical) {width : Nat} (hwidth : 1 ≤ width)
    {gain : ℚ} (hlow : 0 ≤ gain) (hhigh : gain ≤ 1) :
    snippet text terms width gain =
      .ok (shownWindow (collapsePythonWhitespace text) canonical width gain) := by
  have hgain : ¬ (!Binary64.isFinite gain ||
      !Binary64.within (Binary64.nearest 0) (Binary64.nearest 1) gain) = true := by
    have hwithin : Binary64.within (Binary64.nearest 0) (Binary64.nearest 1) gain =
        (decide ((0 : ℚ) ≤ gain) && decide (gain ≤ 1)) := rfl
    have hfinite : Binary64.isFinite gain = true := rfl
    rw [hwithin, hfinite]
    simp [hlow, hhigh]
  unfold snippet
  rw [if_neg (by omega), if_neg hgain, hterms, except_ok_bind]
  unfold shownWindow
  dsimp only
  split
  · rfl
  · rfl

theorem shownWindow_shown {collapsed : Text} (h : Spaced collapsed)
    (terms : List (WeightedTerm ℚ)) {width : Nat} (hwidth : 1 ≤ width) {gain : ℚ}
    (hgain : 0 ≤ gain) :
    (∃ before after,
      Shown collapsed width (shownWindow collapsed terms width gain) before after) ∧
    (shownWindow collapsed terms width gain = headSnippet collapsed width ∨
      BestWindow collapsed width terms gain (shownWindow collapsed terms width gain)) := by
  by_cases hshort : collapsed.length ≤ width
  · have hwhole : shownWindow collapsed terms width gain = ⟨collapsed, false, false⟩ :=
      if_pos hshort
    rw [hwhole]
    exact ⟨⟨[], [], shown_whole h hshort⟩, Or.inl (if_pos hshort).symm⟩
  have hlong := Nat.lt_of_not_le hshort
  have hhead : headSnippet collapsed width = makeSnippet collapsed
      (snap collapsed 0 width).1 (snap collapsed 0 width).2 := if_neg hshort
  have hstart : (⟨headSnippet collapsed width, headScore collapsed width terms⟩ :
      Chosen ℚ).score ≤ headScore collapsed width terms + gain := by
    simpa using hgain
  have hbest := consider_best collapsed width terms (shownSpans collapsed terms) hstart
    (shownSpans collapsed terms)
  have hresult : shownWindow collapsed terms width gain =
      ((shownSpans collapsed terms).foldl (Chosen.consider collapsed width
        (headScore collapsed width terms + gain) terms (shownSpans collapsed terms))
        ⟨headSnippet collapsed width, headScore collapsed width terms⟩).snippet := by
    rw [hhead]
    exact if_neg hshort
  rcases hbest with ⟨heq, -⟩ | ⟨best, hmem, heq, hbar, hall⟩
  · rw [hresult, heq]
    refine ⟨?_, Or.inl rfl⟩
    dsimp only
    rw [hhead]
    exact ⟨_, _, shown_window (snap_window h (by omega) hwidth)⟩
  · rw [hresult, heq]
    refine ⟨⟨_, _, shown_window (spanWindow_window h hwidth hlong best)⟩, Or.inr ?_⟩
    exact ⟨best, hmem, rfl, hbar, hall⟩

/-- A snippet of validated terms: it is computed without leaving the text, it is a
part of the collapsed text between word boundaries, and it is the head unless
another window beats the head by more than the gain and is as good as any. -/
theorem snippet_law (text : Text) (terms canonical : List (WeightedTerm ℚ))
    (hterms : canonicalTerms terms = .ok canonical) (width : Nat) (hwidth : 1 ≤ width)
    (gain : ℚ) (hlow : 0 ≤ gain) (hhigh : gain ≤ 1) :
    ∃ result before after, snippet text terms width gain = .ok result ∧
      windowChecked (collapsePythonWhitespace text) canonical width gain = some result ∧
      Shown (collapsePythonWhitespace text) width result before after ∧
      (result = headSnippet (collapsePythonWhitespace text) width ∨
        BestWindow (collapsePythonWhitespace text) width canonical gain result) := by
  have hspaced := spaced_collapsePythonWhitespace text
  obtain ⟨⟨before, after, hshown⟩, hchosen⟩ :=
    shownWindow_shown hspaced canonical hwidth hlow
  exact ⟨_, before, after, snippet_eq text hterms hwidth hlow hhigh,
    windowChecked_eq hspaced canonical hwidth gain, hshown, hchosen⟩

end Law

namespace SnippetSample

local instance : LetterTables := LetterTables.ascii

def text : Text := "  alpha beta gamma\t\tdelta the needle epsilon ".toList

def terms : List (WeightedTerm ℚ) := [⟨"needle".toList, 1⟩, ⟨"Gamma".toList, 1 / 4⟩]

theorem snippet_law_sample :
    ∃ canonical result before after, canonicalTerms terms = .ok canonical ∧
      snippet text terms 12 (1 / 2) = .ok result ∧
      Shown (collapsePythonWhitespace text) 12 result before after := by
  have hvalid : (canonicalTerms terms).toBool = true := by decide +kernel
  cases hcanonical : canonicalTerms terms with
  | error error =>
      rw [hcanonical] at hvalid
      cases hvalid
  | ok canonical =>
      obtain ⟨result, before, after, hresult, -, hshown, -⟩ :=
        snippet_law text terms canonical hcanonical 12 (by decide) (1 / 2)
          (by norm_num) (by norm_num)
      exact ⟨canonical, result, before, after, rfl, hresult, hshown⟩

end SnippetSample

end Yams.Search
