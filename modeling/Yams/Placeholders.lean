/-
The placeholders of `normalize_arguments`: each is a text that no argument of
the command line and no other placeholder is, and the numbers they are made of
stay below twice the number of arguments.
-/
import Mathlib.Data.List.Nodup
import Mathlib.Data.List.Perm.Subperm
import Mathlib.Data.List.Range
import Yams.CommandLine

namespace Yams

/-- Names that are all taken are at most as many as the taken ones. -/
theorem length_le_of_names_taken {α : Type} {name : Nat → α}
    (hname : Function.Injective name) {taken : List α} {start count : Nat}
    (htaken : ∀ n, start ≤ n → n < start + count → name n ∈ taken) :
    count ≤ taken.length := by
  have hnodup : ((List.range' start count).map name).Nodup :=
    List.Nodup.map hname List.nodup_range'
  have hsubset : (List.range' start count).map name ⊆ taken := by
    intro x hx
    obtain ⟨n, hn, rfl⟩ := List.mem_map.1 hx
    obtain ⟨hlow, hhigh⟩ := List.mem_range'_1.1 hn
    exact htaken n hlow hhigh
  have hlength := (List.subperm_of_subset hnodup hsubset).length_le
  rwa [List.length_map, List.length_range'] at hlength

theorem placeholder_injective : Function.Injective placeholder := by
  intro m n h
  have htexts : Text.ofNat m = Text.ofNat n :=
    List.append_cancel_left (List.append_cancel_right (List.cons.inj h).2)
  have hread := congrArg (fun digits => Nat.ofDigitChars 10 digits 0) htexts
  simpa [Text.ofNat] using hread

namespace NormalizedArguments

variable {raw : List OsString} {st : NormalizedArguments}

/-- What the search for a free number returns. -/
theorem freeDiscriminator_spec (reserved : List OsString) (fuel start : Nat) :
    start ≤ freeDiscriminator reserved fuel start ∧
      (∀ n, start ≤ n → n < freeDiscriminator reserved fuel start →
        OsString.utf8 (placeholder n) ∈ reserved) ∧
      (OsString.utf8 (placeholder (freeDiscriminator reserved fuel start)) ∈
          reserved →
        freeDiscriminator reserved fuel start = start + fuel) := by
  induction fuel generalizing start with
  | zero =>
      refine ⟨Nat.le_refl _, ?_, fun _ => rfl⟩
      intro n hlow hhigh
      exact absurd hlow (Nat.not_le.2 hhigh)
  | succ fuel ih =>
      rw [freeDiscriminator]
      split
      · rename_i htaken
        obtain ⟨hstart, hskipped, hlast⟩ := ih (start + 1)
        refine ⟨by omega, ?_, ?_⟩
        · intro n hlow hhigh
          rcases Nat.eq_or_lt_of_le hlow with rfl | hlow
          · exact htaken
          · exact hskipped n hlow hhigh
        · intro hmem
          rw [hlast hmem]
          omega
      · rename_i hfree
        refine ⟨Nat.le_refl _, ?_, fun hmem => absurd hmem hfree⟩
        intro n hlow hhigh
        exact absurd hlow (Nat.not_le.2 hhigh)

/-- One of `reserved.length + 1` numbers is free, so the search ends. -/
theorem freeDiscriminator_not_mem (reserved : List OsString) (start : Nat) :
    OsString.utf8 (placeholder
      (freeDiscriminator reserved reserved.length start)) ∉ reserved := by
  intro hmem
  obtain ⟨-, hskipped, hlast⟩ :=
    freeDiscriminator_spec reserved reserved.length start
  have hend := hlast hmem
  have hname : Function.Injective fun n => OsString.utf8 (placeholder n) :=
    fun _ _ h => placeholder_injective (OsString.utf8.inj h)
  have htoo : reserved.length + 1 ≤ reserved.length := by
    apply length_le_of_names_taken hname
    intro n hlow hhigh
    rcases Nat.lt_or_ge n (start + reserved.length) with hlt | hge
    · exact hskipped n hlow (hend ▸ hlt)
    · have hn : n = start + reserved.length := by omega
      rw [hn, ← hend]
      exact hmem
  omega

/-- The placeholders handed out so far. -/
def placeholders (st : NormalizedArguments) : List Text :=
  (st.positionalRewrites ++ st.unknownOptions).map Prod.fst

/-- What the loop keeps about its placeholders: they differ, none is an argument
of the command line, and every smaller number is taken. -/
structure Placed (raw : List OsString) (st : NormalizedArguments) : Prop where
  arguments : raw ⊆ st.reservedArguments
  nodup : st.placeholders.Nodup
  reserved : ∀ text ∈ st.placeholders, OsString.utf8 text ∈ st.reservedArguments
  fresh : ∀ text ∈ st.placeholders, OsString.utf8 text ∉ raw
  taken : ∀ n < st.placeholderDiscriminator,
    OsString.utf8 (placeholder n) ∈ st.reservedArguments

theorem freshPlaceholder_not_mem (st : NormalizedArguments) :
    OsString.utf8 st.freshPlaceholder.1 ∉ st.reservedArguments :=
  freeDiscriminator_not_mem st.reservedArguments st.placeholderDiscriminator

namespace Placed

theorem initial (raw : List OsString) :
    Placed raw ⟨[.utf8 "yams".toList], [], [], none, raw, 0⟩ where
  arguments := List.Subset.refl raw
  nodup := List.nodup_nil
  reserved _ htext := absurd htext List.not_mem_nil
  fresh _ htext := absurd htext List.not_mem_nil
  taken n hn := absurd hn (Nat.not_lt_zero n)

/-- Only the records of the placeholders matter. -/
theorem of_records (h : Placed raw st) {arguments : List OsString}
    {pendingError : Option Text} :
    Placed raw { st with arguments := arguments, pendingError := pendingError } :=
  ⟨h.arguments, h.nodup, h.reserved, h.fresh, h.taken⟩

/-- One more placeholder, in whichever of the two maps. -/
theorem add (h : Placed raw st) {st' : NormalizedArguments}
    (hperm : st'.placeholders.Perm (st.freshPlaceholder.1 :: st.placeholders))
    (hreserved : st'.reservedArguments =
      st.freshPlaceholder.2.reservedArguments)
    (hnumber : st'.placeholderDiscriminator =
      st.freshPlaceholder.2.placeholderDiscriminator) :
    Placed raw st' := by
  have hnew := st.freshPlaceholder_not_mem
  refine ⟨?_, ?_, ?_, ?_, ?_⟩
  · rw [hreserved]
    exact List.subset_cons_of_subset _ h.arguments
  · rw [hperm.nodup_iff, List.nodup_cons]
    exact ⟨fun hmem => hnew (h.reserved _ hmem), h.nodup⟩
  · intro text htext
    rw [hreserved]
    rcases List.mem_cons.1 (hperm.mem_iff.1 htext) with rfl | htext
    · exact List.mem_cons_self
    · exact List.mem_cons_of_mem _ (h.reserved text htext)
  · intro text htext
    rcases List.mem_cons.1 (hperm.mem_iff.1 htext) with rfl | htext
    · exact fun hmem => hnew (h.arguments hmem)
    · exact h.fresh text htext
  · intro n hn
    rw [hnumber] at hn
    rw [hreserved]
    obtain ⟨-, hskipped, -⟩ := freeDiscriminator_spec st.reservedArguments
      st.reservedArguments.length st.placeholderDiscriminator
    rcases Nat.lt_succ_iff_lt_or_eq.1 hn with hlt | rfl
    · refine List.mem_cons_of_mem _ ?_
      rcases Nat.lt_or_ge n st.placeholderDiscriminator with hlow | hhigh
      · exact h.taken n hlow
      · exact hskipped n hhigh hlt
    · exact List.mem_cons_self

theorem pushUnknown (h : Placed raw st) (text : Text) :
    Placed raw (st.pushUnknown text) := by
  refine h.add ?_ rfl rfl
  simp only [placeholders, NormalizedArguments.pushUnknown, pushText, push,
    freshPlaceholder, List.map_append, List.map_cons]
  exact List.perm_middle

theorem pushPositional (h : Placed raw st) (text : Text) :
    Placed raw (st.pushPositional text) :=
  h.add (List.Perm.refl _) rfl rfl

/-- The numbers in use are at most as many as the reserved texts. -/
theorem number_le (h : Placed raw st) :
    st.placeholderDiscriminator ≤ st.reservedArguments.length := by
  have hname : Function.Injective fun n => OsString.utf8 (placeholder n) :=
    fun _ _ h => placeholder_injective (OsString.utf8.inj h)
  refine length_le_of_names_taken hname fun n (_ : 0 ≤ n) hn => h.taken n ?_
  omega

end Placed

end NormalizedArguments

open NormalizedArguments

/-- What the loop does to the records of the placeholders while it reads at most
`n` arguments: it adds at most one placeholder for each. -/
inductive Stores :
    Nat → NormalizedArguments → NormalizedArguments → Prop
  | done (n : Nat) (st : NormalizedArguments) (arguments : List OsString)
      (pendingError : Option Text) :
      Stores n st { st with
        arguments := arguments, pendingError := pendingError }
  | argument {n m : Nat} {st st' : NormalizedArguments}
      {arguments : List OsString} (hle : n ≤ m)
      (h : Stores n { st with arguments := arguments } st') : Stores m st st'
  | unknown {n : Nat} {st st' : NormalizedArguments} {text : Text}
      (h : Stores n (st.pushUnknown text) st') : Stores (n + 1) st st'
  | positional {n : Nat} {st st' : NormalizedArguments} {text : Text}
      (h : Stores n (st.pushPositional text) st') : Stores (n + 1) st st'

theorem normalizeHelp_stores (isDecimalNumber : Char → Bool) (text : Text)
    (next : Option OsString) (st : NormalizedArguments) (n : Nat) :
    Stores n st (normalizeHelp isDecimalNumber text next st) := by
  rw [normalizeHelp]
  split
  · exact .done n st _ _
  · exact .done n st _ _
  · exact .done n st _ _
  · split
    · exact .done n st _ _
    · exact .done n st _ _

theorem normalizeFrom_stores (isDecimalNumber : Char → Bool)
    (rest : List OsString) (st : NormalizedArguments) :
    Stores rest.length st (normalizeFrom isDecimalNumber rest st) := by
  fun_induction normalizeFrom isDecimalNumber rest st with
  | case1 st => exact .done _ st _ _
  | case2 bytes rest st ih => exact .argument (Nat.le_succ _) ih
  | case3 rest st => exact .done _ st _ _
  | case4 text rest st => exact normalizeHelp_stores _ _ _ _ _
  | case5 text rest st _ _ _ ih => exact .unknown ih
  | case6 text rest st _ _ _ ih => exact .positional ih
  | case7 text rest st => exact .done _ st _ _
  | case8 text rest st => exact .done _ st _ _
  | case9 text rest st _ _ _ _ _ _ ih => exact .argument (Nat.le_succ _) ih
  | case10 text st => exact .done _ st _ _
  | case11 text st _ _ _ _ _ _ bytes rest ih =>
      exact .argument (Nat.le_add_right _ 2) ih
  | case12 text st _ _ _ _ _ _ value rest _ ih =>
      exact .argument (Nat.le_add_right _ 2) ih
  | case13 text st => exact .done _ st _ _
  | case14 text st _ _ _ _ _ _ value rest _ _ ih =>
      exact .argument (Nat.le_add_right _ 2) ih

namespace Stores

variable {raw : List OsString} {n : Nat} {st st' : NormalizedArguments}

theorem placed (h : Stores n st st') (hplaced : Placed raw st) :
    Placed raw st' := by
  induction h with
  | done => exact hplaced.of_records
  | argument _ _ ih => exact ih hplaced.of_records
  | unknown _ ih => exact ih (hplaced.pushUnknown _)
  | positional _ ih => exact ih (hplaced.pushPositional _)

theorem positionalRewrites_subset (h : Stores n st st') :
    st.positionalRewrites ⊆ st'.positionalRewrites := by
  induction h with
  | done => exact List.Subset.refl _
  | argument _ _ ih => exact ih
  | unknown _ ih => exact ih
  | positional _ ih => exact List.subset_of_cons_subset ih

theorem unknownOptions_subset (h : Stores n st st') :
    st.unknownOptions ⊆ st'.unknownOptions := by
  induction h with
  | done => exact List.Subset.refl _
  | argument _ _ ih => exact ih
  | unknown _ ih => exact List.subset_of_cons_subset ih
  | positional _ ih => exact ih

theorem reserved_length_le (h : Stores n st st') :
    st'.reservedArguments.length ≤ st.reservedArguments.length + n := by
  induction h with
  | done => exact Nat.le_add_right _ _
  | argument hle _ ih => exact ih.trans (Nat.add_le_add_left hle _)
  | @unknown n st st' text _ ih =>
      have hlength : (st.pushUnknown text).reservedArguments.length =
        st.reservedArguments.length + 1 := rfl
      omega
  | @positional n st st' text _ ih =>
      have hlength : (st.pushPositional text).reservedArguments.length =
        st.reservedArguments.length + 1 := rfl
      omega

end Stores

section

variable (isDecimalNumber : Char → Bool) (raw : List OsString)

theorem normalizeArguments_placed :
    Placed raw (normalizeArguments isDecimalNumber raw) :=
  (normalizeFrom_stores isDecimalNumber _ _).placed (Placed.initial raw)

/-- The counter of the placeholders stays far from the end of a `u64`. -/
theorem normalizeArguments_number_le :
    (normalizeArguments isDecimalNumber raw).placeholderDiscriminator ≤
      2 * raw.length := by
  have hnumber := (normalizeArguments_placed isDecimalNumber raw).number_le
  have hreserved : (normalizeArguments isDecimalNumber raw).reservedArguments.length ≤
      raw.length + (raw.drop 1).length :=
    (normalizeFrom_stores isDecimalNumber _ _).reserved_length_le
  rw [List.length_drop] at hreserved
  omega

end

end Yams
