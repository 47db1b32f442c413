/-
Words: the runs of kept elements of a list, and the list of words joined by a
separator.  Both directions are inverse to each other, and a joined list that
is cut before a separator is a joined list again.
-/
import Mathlib.Data.List.Basic

namespace Yams.Words

variable {α : Type} (keep : α → Bool)

/-- The maximal runs of kept elements. -/
def runs (text : List α) : List (List α) :=
  (text.splitOnP fun a => !keep a).filter fun run => !run.isEmpty

/-- A word has elements, and all of them are kept. -/
def IsWord (word : List α) : Prop := word ≠ [] ∧ ∀ a ∈ word, keep a = true

variable {keep}

theorem runs_nil : runs keep [] = [] := by
  rw [runs, List.splitOnP_nil]
  rfl

/-- An element that is not kept parts the words. -/
theorem runs_append_cons {separator : α} (hseparator : keep separator = false)
    (before after : List α) :
    runs keep (before ++ separator :: after) = runs keep before ++ runs keep after := by
  have hsplit : (!keep separator) = true := by rw [hseparator]; rfl
  rw [runs, List.splitOnP_append_cons before after hsplit, List.filter_append]
  rfl

theorem runs_cons_separator {separator : α} (hseparator : keep separator = false)
    (text : List α) : runs keep (separator :: text) = runs keep text :=
  runs_append_cons hseparator [] text

/-- However long a gap between words is, it parts them. -/
theorem runs_gap {gap : List α} (hgap : ∀ a ∈ gap, keep a = false) (hne : gap ≠ [])
    (before after : List α) :
    runs keep (before ++ gap ++ after) = runs keep before ++ runs keep after := by
  induction gap generalizing before with
  | nil => exact absurd rfl hne
  | cons a gap ih =>
      have ha := hgap a List.mem_cons_self
      rw [List.append_assoc, List.cons_append, runs_append_cons ha]
      cases gap with
      | nil => rfl
      | cons b gap =>
          have hrest := ih (fun c hc => hgap c (List.mem_cons_of_mem a hc))
            (List.cons_ne_nil b gap) []
          rw [List.nil_append, runs_nil, List.nil_append] at hrest
          rw [hrest]

theorem runs_word {word : List α} (hword : IsWord keep word) : runs keep word = [word] := by
  have hsingle : word.splitOnP (fun a => !keep a) = [word] :=
    List.splitOnP_eq_singleton fun a ha => by rw [hword.2 a ha]; rfl
  have hnonempty : word.isEmpty = false := List.isEmpty_eq_false_iff.2 hword.1
  rw [runs, hsingle, List.filter_cons, hnonempty]
  rfl

theorem isWord_of_mem_runs {text word : List α} (h : word ∈ runs keep text) :
    IsWord keep word := by
  obtain ⟨hmem, hnonempty⟩ := List.mem_filter.1 h
  refine ⟨List.isEmpty_eq_false_iff.1 (by simpa using hnonempty), ?_⟩
  have hparts : ∀ part ∈ text.splitOnP (fun a => !keep a), ∀ a ∈ part, keep a = true := by
    clear h hmem
    induction text with
    | nil => simp
    | cons c text ih =>
        rw [List.splitOnP_cons_eq_if_modifyHead]
        cases hc : keep c with
        | false => simpa using ih
        | true =>
            rw [if_neg (by simp)]
            cases hsplit : text.splitOnP (fun a => !keep a) with
            | nil => exact absurd hsplit (List.splitOnP_ne_nil _ _)
            | cons first rest =>
                rw [hsplit] at ih
                intro part hpart a ha
                rw [List.modifyHead_cons, List.mem_cons] at hpart
                rcases hpart with rfl | hpart
                · rcases List.mem_cons.1 ha with rfl | ha
                  · exact hc
                  · exact ih first List.mem_cons_self a ha
                · exact ih part (List.mem_cons_of_mem _ hpart) a ha
  exact hparts word hmem

/-! Words joined by a separator. -/

theorem joined_cons (separator : α) (word : List α) (words : List (List α)) :
    [separator].intercalate (word :: words) = word ++ words.flatMap (separator :: ·) := by
  induction words generalizing word with
  | nil => simp
  | cons next words ih =>
      rw [List.intercalate_cons_cons, ih, List.flatMap_cons]
      simp

/-- The words of joined words. -/
theorem runs_joined {separator : α} (hseparator : keep separator = false)
    {words : List (List α)} (hwords : ∀ word ∈ words, IsWord keep word) :
    runs keep ([separator].intercalate words) = words := by
  induction words with
  | nil => exact runs_nil
  | cons word words ih =>
      have hword := hwords word List.mem_cons_self
      have hrest := ih fun other h => hwords other (List.mem_cons_of_mem word h)
      cases words with
      | nil =>
          rw [List.intercalate_singleton]
          exact runs_word hword
      | cons next words =>
          rw [List.intercalate_cons_cons, List.append_assoc, List.singleton_append,
            runs_append_cons hseparator, hrest, runs_word hword]
          rfl

theorem not_mem_word {separator : α} (hseparator : keep separator = false) {word : List α}
    (hword : IsWord keep word) : separator ∉ word := by
  intro hmem
  rw [hword.2 separator hmem] at hseparator
  cases hseparator

theorem joined_ne_nil {separator : α} {words : List (List α)}
    (hwords : ∀ word ∈ words, IsWord keep word) (hne : words ≠ []) :
    [separator].intercalate words ≠ [] := by
  cases words with
  | nil => exact absurd rfl hne
  | cons word words =>
      rw [joined_cons]
      intro hnil
      exact (hwords word List.mem_cons_self).1 (List.append_eq_nil_iff.1 hnil).1

/-- Joined words have no other elements. -/
theorem mem_joined {separator a : α} {words : List (List α)}
    (hwords : ∀ word ∈ words, IsWord keep word) (ha : a ∈ [separator].intercalate words) :
    a = separator ∨ keep a = true := by
  cases words with
  | nil => cases ha
  | cons word words =>
      rw [joined_cons, List.mem_append, List.mem_flatMap] at ha
      rcases ha with ha | ⟨other, hother, ha⟩
      · exact .inr ((hwords word List.mem_cons_self).2 a ha)
      · rcases List.mem_cons.1 ha with rfl | ha
        · exact .inl rfl
        · exact .inr ((hwords other (List.mem_cons_of_mem word hother)).2 a ha)

section

variable [DecidableEq α] {separator : α} (hseparator : keep separator = false)
variable {words : List (List α)} (hwords : ∀ word ∈ words, IsWord keep word)

include hseparator hwords

/-- At a separator, joined words fall apart into joined words. -/
theorem joined_cut {before after : List α}
    (hcut : [separator].intercalate words = before ++ separator :: after) :
    ∃ first rest, words = first ++ rest ∧ first ≠ [] ∧ rest ≠ [] ∧
      before = [separator].intercalate first ∧ after = [separator].intercalate rest := by
  have hne : words ≠ [] := by
    rintro rfl
    cases before <;> cases hcut
  have hsplit := List.splitOn_intercalate separator
    (fun word hword => not_mem_word hseparator (hwords word hword)) hne
  rw [hcut, List.splitOn_append_cons_self] at hsplit
  exact ⟨_, _, hsplit.symm, List.splitOn_ne_nil _ _, List.splitOn_ne_nil _ _,
    (List.intercalate_splitOn separator).symm, (List.intercalate_splitOn separator).symm⟩

theorem joined_ne_separator_cons (after : List α) :
    [separator].intercalate words ≠ separator :: after := by
  intro hcut
  obtain ⟨first, rest, rfl, hfirst, -, hbefore, -⟩ :=
    joined_cut hseparator hwords (show _ = [] ++ separator :: after from hcut)
  exact joined_ne_nil (fun word h => hwords word (List.mem_append_left _ h)) hfirst hbefore.symm

theorem joined_ne_append_separator (before : List α) :
    [separator].intercalate words ≠ before ++ [separator] := by
  intro hcut
  obtain ⟨first, rest, rfl, -, hrest, -, hafter⟩ := joined_cut hseparator hwords hcut
  exact joined_ne_nil (fun word h => hwords word (List.mem_append_right _ h)) hrest hafter.symm

theorem joined_ne_doubled (before after : List α) :
    [separator].intercalate words ≠ before ++ separator :: separator :: after := by
  intro hcut
  obtain ⟨first, rest, rfl, -, -, -, hafter⟩ := joined_cut hseparator hwords hcut
  exact joined_ne_separator_cons hseparator
    (fun word h => hwords word (List.mem_append_right _ h)) after hafter.symm

end

end Yams.Words
