/-
The rescue of an exact identifier: which queries name one page exactly, and what a
selection shows of that page.
-/
import Mathlib.Data.List.TakeWhile
import Yams.SearchOrder

namespace Yams.Search

open Binary64

namespace Identifier

section Tokens

variable {bytes token before after : Bytes}

end Tokens

end Identifier

section Match

open Identifier

end Match

section Rescue

variable {F : Type} [Binary64 F] {found : ExactMatch} {literal : List LiteralChunk}
  {ranked : List (RankedHit F)} {limit : Nat}

/-- The hits to show with a rescue, beside those without: the hit takes the place of
its page, or of the last hit if the page is outside the limit. -/
inductive Rescued (limit : Nat) (hit : SelectedHit F) (plain : List (SelectedHit F)) :
    List (SelectedHit F) → Prop
  | inside (hmem : hit.path ∈ plain.map SelectedHit.path) :
      Rescued limit hit plain
        (plain.map fun other => if other.path = hit.path then hit else other)
  | outside (hmem : hit.path ∉ plain.map SelectedHit.path)
      (hfull : plain.length = limit) :
      Rescued limit hit plain (plain.dropLast ++ [hit])

theorem Rescued.mem {hit : SelectedHit F} {plain shown : List (SelectedHit F)}
    (h : Rescued limit hit plain shown) : hit ∈ shown := by
  cases h with
  | inside hmem =>
      obtain ⟨other, hother, heq⟩ := List.mem_map.1 hmem
      exact List.mem_map.2 ⟨other, hother, if_pos heq⟩
  | outside _ _ => exact List.mem_append_right _ List.mem_cons_self

end Rescue

namespace RescueSample

def score (n : ℕ) (h : n ≤ 100) : NormalizedScore ℚ :=
  ⟨n / 100, rfl, by
    have hpos : (0 : ℚ) ≤ (n : ℚ) / 100 := by positivity
    exact le_trans (by norm_num) hpos, by
    have hle : (n : ℚ) ≤ 100 := by exact_mod_cast h
    exact (div_le_one (by norm_num)).2 hle⟩

def hit (path : Text) (rank : Nat) (score : NormalizedScore ℚ) : RankedHit ℚ :=
  ⟨path, path, ⟨0, path⟩, none, score, rank, ⟨some rank, none, none, []⟩,
    ⟨none, none, none⟩⟩

/-- Two pages within the limit, and a better one outside it. -/
def ranked : List (RankedHit ℚ) :=
  [hit "/a".toList 1 (score 80 (by decide)), hit "/b".toList 2 (score 79 (by decide)),
    hit "/x".toList 3 (score 90 (by decide))]

def literal : List LiteralChunk := [⟨"/x".toList, 4, "call parse_page".toList⟩]

def twoHits : SelectionConfig ℚ := { SelectionConfig.default with limit := 2 }

def selected (leader : Option Text) : Except SelectionError (SelectionOutcome ℚ) :=
  select "parse_page()".toList (some (score 90 (by decide))) ranked literal leader
    twoHits

def found : ExactMatch := ⟨"/x".toList, 4⟩

end RescueSample

end Yams.Search
