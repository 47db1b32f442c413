/-
A log that is only appended to: every write stores some first part of what it was
asked to store.  A line stands on its own as long as the last write before it
that stored anything stored all of it.
-/
import Mathlib.Data.List.Basic
import Mathlib.Data.List.Infix
import Mathlib.Data.List.Induction

namespace Yams.AppendLog

/-- One write, and how much of it was stored. -/
structure Write (α : Type) where
  asked : List α
  count : Nat
  within : count ≤ asked.length
  deriving DecidableEq

section

variable {α : Type}

def Write.stored (write : Write α) : List α := write.asked.take write.count

def Write.whole (asked : List α) : Write α := ⟨asked, asked.length, Nat.le_refl _⟩

/-- What a log holds after some writes. -/
def contents (old : List α) (writes : List (Write α)) : List α :=
  old ++ writes.flatMap Write.stored

/-- The last write that stored anything did not store all it was asked to. -/
def torn (writes : List (Write α)) : Bool :=
  writes.foldl (fun before write =>
    if write.count = 0 then before else decide (write.count < write.asked.length)) false

variable (newline : α)

/-- Nothing, or something that ends with its last line. -/
def Complete (content : List α) : Prop := content = [] ∨ content.getLast? = some newline

def IsLine (line : List α) : Prop := ∃ body, line = body ++ [newline] ∧ newline ∉ body

/-- The line is somewhere in the log, behind nothing but complete lines. -/
def OwnLine (line content : List α) : Prop :=
  ∃ before after, content = before ++ line ++ after ∧ Complete newline before

variable {newline} {old : List α} {writes : List (Write α)}

@[simp] theorem Write.stored_whole (asked : List α) :
    (Write.whole asked).stored = asked :=
  List.take_length

theorem contents_append (old : List α) (first rest : List (Write α)) :
    contents old (first ++ rest) = contents (contents old first) rest := by
  simp only [contents, List.flatMap_append, List.append_assoc]

theorem contents_concat (old : List α) (writes : List (Write α)) (write : Write α) :
    contents old (writes ++ [write]) = contents old writes ++ write.stored := by
  rw [contents_append]
  simp [contents]

theorem prefix_contents (old : List α) (writes : List (Write α)) :
    old <+: contents old writes := List.prefix_append old _

theorem torn_concat (writes : List (Write α)) (write : Write α) :
    torn (writes ++ [write]) =
      if write.count = 0 then torn writes else decide (write.count < write.asked.length) := by
  simp [torn]

/-- What is added later leaves every line where it is. -/
theorem OwnLine.append {line content : List α} (h : OwnLine newline line content)
    {content' : List α} (hcontent : content <+: content') :
    OwnLine newline line content' := by
  obtain ⟨before, after, rfl, hbefore⟩ := h
  obtain ⟨rest, rfl⟩ := hcontent
  exact ⟨before, after ++ rest, by simp only [List.append_assoc], hbefore⟩

/-- A first part of a line ends with the newline only if it is the line. -/
theorem complete_stored_iff {write : Write α} (hline : IsLine newline write.asked)
    (hcount : write.count ≠ 0) (before : List α) :
    Complete newline (before ++ write.stored) ↔ write.count = write.asked.length := by
  obtain ⟨body, hbody, hnotMem⟩ := hline
  have hwithin := write.within
  have hlen : write.asked.length = body.length + 1 := by simp [hbody]
  by_cases hall : write.count = write.asked.length
  · have hstored : write.stored = body ++ [newline] := by
      rw [Write.stored, hall, List.take_length, hbody]
    refine iff_of_true (.inr ?_) hall
    rw [hstored, ← List.append_assoc, List.getLast?_concat]
  · have hstored : write.stored = body.take write.count := by
      rw [Write.stored, hbody, List.take_append_of_le_length (by omega)]
    have hne : body.take write.count ≠ [] := by
      intro hnil
      have htake := congrArg List.length hnil
      rw [List.length_take, List.length_nil] at htake
      omega
    refine iff_of_false ?_ hall
    rw [hstored]
    rintro (hnil | hlast)
    · exact hne (List.append_eq_nil_iff.1 hnil).2
    · rw [List.getLast?_append_of_ne_nil _ hne] at hlast
      exact hnotMem (List.mem_of_mem_take (List.mem_of_getLast? hlast))

/-- A log of complete lines is one again exactly when it is not torn. -/
theorem complete_contents_iff (hold : Complete newline old)
    (hlines : ∀ write ∈ writes, IsLine newline write.asked) :
    Complete newline (contents old writes) ↔ torn writes = false := by
  induction writes using List.reverseRecOn with
  | nil =>
      rw [contents, List.flatMap_nil, List.append_nil]
      exact iff_of_true hold rfl
  | append_singleton writes write ih =>
      have ih := ih fun write' hwrite => hlines write' (List.mem_append_left _ hwrite)
      have hline := hlines write (List.mem_append_right _ List.mem_cons_self)
      rw [contents_concat, torn_concat]
      by_cases hcount : write.count = 0
      · have hstored : write.stored = [] := by rw [Write.stored, hcount, List.take_zero]
        rw [if_pos hcount, hstored, List.append_nil]
        exact ih
      · have hwithin := write.within
        rw [if_neg hcount, complete_stored_iff hline hcount, decide_eq_false_iff_not]
        omega

/-- A line that was stored whole where the log was complete stands on its own. -/
theorem ownLine_contents {line : List α} {before after : List (Write α)}
    (hcomplete : Complete newline (contents old before)) :
    OwnLine newline line (contents old (before ++ Write.whole line :: after)) := by
  refine ⟨contents old before, after.flatMap Write.stored, ?_, hcomplete⟩
  rw [contents_append]
  simp only [contents, List.flatMap_cons, Write.stored_whole, List.append_assoc]

end

end Yams.AppendLog
