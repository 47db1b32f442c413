/-
Occurrences of one list in another, as the searching functions of a string
library report them.  An element that a pattern lacks separates its
occurrences, and most facts below are about texts cut at such an element.
-/
import Mathlib.Data.List.Basic
import Mathlib.Data.List.Infix

namespace Yams

universe u

variable {α : Type u} [DecidableEq α]

/-- `str::contains`. -/
def contains (pattern text : List α) : Bool := decide (pattern <:+: text)

/-- `str::split_once` at a string. -/
def splitOnceAt (pattern : List α) : List α → Option (List α × List α)
  | [] => if pattern = [] then some ([], []) else none
  | c :: rest =>
      if pattern <+: c :: rest then
        some ([], (c :: rest).drop pattern.length)
      else
        (splitOnceAt pattern rest).map fun (before, after) =>
          (c :: before, after)

/-- The offsets that `str::match_indices` reports for a nonempty pattern, for a
text that starts at `offset` and whose first `skip` elements belong to the
previous match. -/
def matchIndices (pattern : List α) : Nat → Nat → List α → List Nat
  | _, _, [] => []
  | skip + 1, offset, _ :: rest => matchIndices pattern skip (offset + 1) rest
  | 0, offset, c :: rest =>
      if pattern <+: c :: rest then
        offset :: matchIndices pattern (pattern.length - 1) (offset + 1) rest
      else matchIndices pattern 0 (offset + 1) rest

/-- `str::split` at every character that satisfies a predicate. -/
def splitWhere (p : α → Bool) : List α → List (List α)
  | [] => [[]]
  | c :: rest =>
      if p c then [] :: splitWhere p rest
      else
        match splitWhere p rest with
        | [] => [[c]]
        | line :: lines => (c :: line) :: lines

section Infix

variable {pattern text before after : List α} {c : α}

theorem contains_iff : contains pattern text = true ↔ pattern <:+: text := by
  simp [contains]

omit [DecidableEq α] in
theorem prefix_append_cons_iff (hc : c ∉ pattern) :
    pattern <+: before ++ c :: after ↔ pattern <+: before := by
  induction before generalizing pattern with
  | nil =>
      cases pattern with
      | nil => simp
      | cons d pattern =>
          have hd : d ≠ c := fun heq => hc (heq ▸ List.mem_cons_self)
          simp [List.cons_prefix_cons, hd]
  | cons b before ih =>
      cases pattern with
      | nil => simp
      | cons d pattern =>
          rw [List.cons_append, List.cons_prefix_cons, List.cons_prefix_cons,
            ih fun hmem => hc (List.mem_cons_of_mem _ hmem)]

omit [DecidableEq α] in
theorem infix_append_cons_iff (hc : c ∉ pattern) :
    pattern <:+: before ++ c :: after ↔
      pattern <:+: before ∨ pattern <:+: after := by
  induction before with
  | nil =>
      have hprefix : pattern <+: [] ++ c :: after ↔ pattern <+: [] :=
        prefix_append_cons_iff hc
      rw [List.nil_append] at hprefix
      rw [List.nil_append, List.infix_cons_iff, hprefix]
      simp
  | cons b before ih =>
      rw [List.cons_append, List.infix_cons_iff, List.infix_cons_iff, ih,
        ← List.cons_append, prefix_append_cons_iff hc, or_assoc]

omit [DecidableEq α] in
theorem infix_cons_iff' (hc : c ∉ pattern) (hne : pattern ≠ []) :
    pattern <:+: c :: after ↔ pattern <:+: after := by
  have hsplit : pattern <:+: [] ++ c :: after ↔
      pattern <:+: [] ∨ pattern <:+: after := infix_append_cons_iff hc
  simpa [hne] using hsplit

omit [DecidableEq α] in
/-- A pattern that starts with an element which a text lacks occurs only after
that text. -/
theorem infix_append_of_not_mem {d : α} {tail : List α} (hd : d ∉ before) :
    d :: tail <:+: before ++ after ↔ d :: tail <:+: after := by
  constructor
  · intro h
    induction before with
    | nil => simpa using h
    | cons b before ih =>
        rw [List.cons_append, List.infix_cons_iff] at h
        rcases h with hprefix | hrest
        · obtain ⟨rest, hrest⟩ := hprefix
          obtain ⟨rfl, _⟩ := List.cons.inj hrest
          exact absurd List.mem_cons_self hd
        · exact ih (fun hmem => hd (List.mem_cons_of_mem _ hmem)) hrest
  · intro h
    exact h.trans ⟨before, [], by simp⟩

end Infix

section SplitOnce

variable {pattern text before after : List α}

attribute [local simp] splitOnceAt

theorem splitOnceAt_eq_some (h : splitOnceAt pattern text = some (before, after)) :
    text = before ++ pattern ++ after := by
  induction text generalizing before with
  | nil =>
      by_cases hpattern : pattern = []
      · simp [hpattern] at h
        simp [h, hpattern]
      · simp [hpattern] at h
  | cons c rest ih =>
      by_cases hprefix : pattern <+: c :: rest
      · simp only [splitOnceAt, hprefix, if_true, Option.some.injEq,
          Prod.mk.injEq] at h
        obtain ⟨rfl, rfl⟩ := h
        rw [List.nil_append]
        exact List.prefix_iff_eq_append.1 hprefix |>.symm
      · simp only [splitOnceAt, hprefix, if_false, Option.map_eq_some_iff] at h
        obtain ⟨⟨before', after'⟩, hrest, heq⟩ := h
        simp only [Prod.mk.injEq] at heq
        obtain ⟨rfl, rfl⟩ := heq
        rw [ih hrest]
        simp

theorem splitOnceAt_eq_none_iff :
    splitOnceAt pattern text = none ↔ ¬ pattern <:+: text := by
  induction text with
  | nil => simp
  | cons c rest ih =>
      rw [List.infix_cons_iff, not_or]
      by_cases hprefix : pattern <+: c :: rest
      · simp [ hprefix]
      · simp [ hprefix, ih]

/-- The split is at the given place when the pattern starts with an element
that the text before it lacks. -/
theorem splitOnceAt_append {d : α} {tail : List α} (hd : d ∉ before) :
    splitOnceAt (d :: tail) (before ++ d :: tail ++ after) =
      some (before, after) := by
  induction before with
  | nil => simp
  | cons b before ih =>
      have hb : ¬ d :: tail <+: b :: (before ++ d :: tail ++ after) := by
        rintro ⟨rest, hrest⟩
        obtain ⟨rfl, _⟩ := List.cons.inj hrest
        exact hd List.mem_cons_self
      have hrest := ih fun hmem => hd (List.mem_cons_of_mem _ hmem)
      simp only [List.cons_append, splitOnceAt, List.append_assoc] at hb hrest ⊢
      simp [hb, hrest]

/-- The split is also at the given place when the pattern ends with an element
that nothing before has. -/
theorem splitOnceAt_append_concat {d : α} {start : List α} (hd : d ∉ before)
    (hstart : d ∉ start) :
    splitOnceAt (start ++ [d]) (before ++ (start ++ [d]) ++ after) =
      some (before, after) := by
  induction before with
  | nil =>
      have hprefix : start ++ [d] <+: start ++ [d] ++ after := ⟨after, rfl⟩
      rw [List.nil_append]
      cases hcons : start ++ [d] ++ after with
      | nil => simp at hcons
      | cons c rest =>
          rw [hcons] at hprefix
          rw [splitOnceAt, if_pos hprefix, ← hcons, List.drop_left]
  | cons b before ih =>
      have hb : ¬ start ++ [d] <+: b :: (before ++ (start ++ [d]) ++ after) := by
        intro hprefix
        obtain ⟨rest, hrest⟩ := hprefix
        -- the last element of the pattern would stand before its place
        have hget := congrArg (fun list => list[start.length]?) hrest
        have hclean : d ∉ b :: before ++ start := by
          simp only [List.mem_append, not_or]
          exact ⟨hd, hstart⟩
        have hplace : (b :: (before ++ (start ++ [d]) ++ after))[start.length]? =
            (b :: before ++ start)[start.length]? := by
          have hsplit : b :: (before ++ (start ++ [d]) ++ after) =
              (b :: before ++ start) ++ ([d] ++ after) := by simp
          have hshort : start.length < (b :: before ++ start).length := by
            simp only [List.length_append, List.length_cons]
            omega
          rw [hsplit, List.getElem?_append_left hshort]
        have hfirst : (start ++ [d] ++ rest)[start.length]? = some d := by simp
        rw [hfirst, hplace] at hget
        exact hclean (List.mem_of_getElem? hget.symm)
      have hrest := ih fun hmem => hd (List.mem_cons_of_mem _ hmem)
      rw [List.cons_append, List.cons_append, splitOnceAt, if_neg hb, hrest]
      rfl

end SplitOnce

section Matches

variable {pattern text before after : List α} {c : α}

attribute [local simp] matchIndices

theorem matchIndices_offset (skip offset : Nat) :
    matchIndices pattern skip offset text =
      (matchIndices pattern skip 0 text).map (offset + ·) := by
  induction text generalizing skip offset with
  | nil => cases skip <;> rfl
  | cons c rest ih =>
      cases skip with
      | succ skip =>
          rw [matchIndices, matchIndices, ih, ih _ (0 + 1), List.map_map]
          congr 1
          funext n
          simp
          omega
      | zero =>
          have hshift (k : Nat) : matchIndices pattern k (offset + 1) rest =
              (matchIndices pattern k (0 + 1) rest).map (offset + ·) := by
            rw [ih, ih _ (0 + 1), List.map_map]
            congr 1
            funext n
            simp
            omega
          by_cases hprefix : pattern <+: c :: rest
          · simp only [matchIndices, hprefix, if_true, List.map_cons]
            rw [hshift]
            rfl
          · simp only [matchIndices, hprefix, if_false]
            exact hshift 0

/-- Matches do not reach across an element that the pattern lacks. -/
theorem matchIndices_append_cons (hc : c ∉ pattern) (hne : pattern ≠ [])
    {skip : Nat} (hskip : skip ≤ before.length) (offset : Nat) :
    matchIndices pattern skip offset (before ++ c :: after) =
      matchIndices pattern skip offset before ++
        matchIndices pattern 0 (offset + before.length + 1) after := by
  induction before generalizing skip offset with
  | nil =>
      have hzero : skip = 0 := Nat.le_zero.1 hskip
      have hprefix : ¬ pattern <+: c :: after := by
        rintro ⟨rest, hrest⟩
        cases pattern with
        | nil => exact hne rfl
        | cons d pattern =>
            obtain ⟨rfl, _⟩ := List.cons.inj hrest
            exact hc List.mem_cons_self
      subst hzero
      simp [ hprefix]
  | cons b before ih =>
      have hlength : offset + (b :: before).length + 1 =
          offset + 1 + before.length + 1 := by
        rw [List.length_cons]
        omega
      cases skip with
      | succ skip =>
          rw [List.cons_append, matchIndices, matchIndices,
            ih (Nat.le_of_succ_le_succ hskip), hlength]
      | zero =>
          have hiff : pattern <+: b :: (before ++ c :: after) ↔
              pattern <+: b :: before := by
            rw [← List.cons_append]
            exact prefix_append_cons_iff hc
          rw [List.cons_append, hlength]
          by_cases hprefix : pattern <+: b :: before
          · have hlen := hprefix.length_le
            have hpos : 0 < pattern.length := List.length_pos_iff.2 hne
            simp only [matchIndices, hiff.2 hprefix, hprefix, if_true,
              List.cons_append]
            rw [ih (by simp only [List.length_cons] at hlen; omega)]
          · have hnot : ¬ pattern <+: b :: (before ++ c :: after) :=
              fun h => hprefix (hiff.1 h)
            simp only [matchIndices, hnot, hprefix, if_false]
            rw [ih (Nat.zero_le _)]

theorem matchIndices_eq_nil_iff (hne : pattern ≠ []) (offset : Nat) :
    matchIndices pattern 0 offset text = [] ↔ ¬ pattern <:+: text := by
  induction text generalizing offset with
  | nil => simp [hne]
  | cons c rest ih =>
      rw [List.infix_cons_iff, not_or]
      by_cases hprefix : pattern <+: c :: rest
      · simp [ hprefix]
      · simp [ hprefix, ih]

theorem prefix_drop_of_mem_matchIndices {skip offset i : Nat}
    (h : i ∈ matchIndices pattern skip offset text) :
    offset ≤ i ∧ pattern <+: text.drop (i - offset) := by
  induction text generalizing skip offset with
  | nil => cases skip <;> simp at h
  | cons c rest ih =>
      have hrest {k : Nat} (hmem : i ∈ matchIndices pattern k (offset + 1) rest) :
          offset ≤ i ∧ pattern <+: (c :: rest).drop (i - offset) := by
        obtain ⟨hle, hprefix⟩ := ih hmem
        have hsub : i - offset = i - (offset + 1) + 1 := by omega
        rw [hsub, List.drop_succ_cons]
        exact ⟨by omega, hprefix⟩
      cases skip with
      | succ skip => exact hrest h
      | zero =>
          by_cases hprefix : pattern <+: c :: rest
          · simp only [matchIndices, hprefix, if_true, List.mem_cons] at h
            rcases h with rfl | h
            · simpa using hprefix
            · exact hrest h
          · simp only [matchIndices, hprefix, if_false] at h
            exact hrest h

omit [DecidableEq α] in
theorem exists_append_of_prefix_drop {i : Nat} (hne : pattern ≠ [])
    (h : pattern <+: text.drop i) :
    ∃ before after, text = before ++ pattern ++ after ∧ before.length = i := by
  obtain ⟨after, hafter⟩ := h
  refine ⟨text.take i, after, ?_, ?_⟩
  · rw [List.append_assoc, hafter, List.take_append_drop]
  · have hlen := congrArg List.length hafter
    have hpos := List.length_pos_iff.2 hne
    simp only [List.length_append, List.length_drop] at hlen
    rw [List.length_take]
    omega

/-- Two patterns found one after the other cut the text into five parts. -/
theorem exists_append_of_matches {second : List α} {start stop : Nat}
    (hne : pattern ≠ []) (hsecond : second ≠ [])
    (hstart : start ∈ matchIndices pattern 0 0 text)
    (hstop : stop ∈ matchIndices second 0 0 text)
    (horder : start + pattern.length ≤ stop) :
    ∃ before middle after,
      text = before ++ pattern ++ middle ++ (second ++ after) ∧
      before.length = start ∧ (before ++ pattern ++ middle).length = stop := by
  have hfirst := (prefix_drop_of_mem_matchIndices hstart).2
  have hlast := (prefix_drop_of_mem_matchIndices hstop).2
  rw [Nat.sub_zero] at hfirst hlast
  obtain ⟨before, rest, htext, hbefore⟩ :=
    exists_append_of_prefix_drop hne hfirst
  obtain ⟨upTo, after, htext', hupTo⟩ :=
    exists_append_of_prefix_drop hsecond hlast
  have heq : before ++ pattern ++ rest = upTo ++ (second ++ after) := by
    rw [← htext, htext', List.append_assoc]
  rcases List.append_eq_append_iff.1 heq with
    ⟨middle, hmiddle, _⟩ | ⟨middle, hmiddle, hrest⟩
  · refine ⟨before, middle, after, ?_, hbefore, ?_⟩
    · rw [htext', hmiddle, List.append_assoc _ second]
    · rw [← hmiddle, hupTo]
  · -- the second pattern starts where the first one ends
    have hlen := congrArg List.length hmiddle
    simp only [List.length_append] at hlen
    have hnil : middle = [] := List.length_eq_zero_iff.1 (by omega)
    subst hnil
    rw [List.append_nil] at hmiddle
    refine ⟨before, [], after, ?_, hbefore, ?_⟩
    · rw [List.append_nil, hmiddle, htext', List.append_assoc _ second]
    · rw [List.append_nil, hmiddle, hupTo]

end Matches

section Cut

variable {pattern before after : List α}

/-- The last element of a text, if it has one, is not in the pattern: no
occurrence of the pattern reaches across the end of the text. -/
def Cut (pattern text : List α) : Prop :=
  ∀ c, text.getLast? = some c → c ∉ pattern

omit [DecidableEq α] in
theorem cut_nil : Cut pattern [] := by
  intro c hc
  cases hc

omit [DecidableEq α] in
theorem cut_concat {c : α} (hc : c ∉ pattern) : Cut pattern (before ++ [c]) := by
  intro d hd
  rw [List.getLast?_concat, Option.some.injEq] at hd
  exact hd ▸ hc

omit [DecidableEq α] in
theorem infix_append_iff_of_cut (hcut : Cut pattern before)
    (hne : pattern ≠ []) :
    pattern <:+: before ++ after ↔ pattern <:+: before ∨ pattern <:+: after := by
  rcases List.eq_nil_or_concat before with rfl | ⟨rest, c, rfl⟩
  · simp [hne]
  · have hc : c ∉ pattern := hcut c (by simp)
    rw [List.concat_eq_append, List.append_assoc, List.singleton_append,
      infix_append_cons_iff hc, infix_append_cons_iff hc, List.infix_nil]
    simp [hne]

omit [DecidableEq α] in
theorem prefix_of_cut (hcut : Cut pattern before) (hbefore : before ≠ [])
    (hstarts : pattern <+: before ++ after) : pattern <+: before := by
  obtain ⟨rest, c, rfl⟩ := (List.eq_nil_or_concat before).resolve_left hbefore
  have hc : c ∉ pattern := hcut c (by simp)
  rw [List.concat_eq_append, List.append_assoc, List.singleton_append,
    prefix_append_cons_iff hc] at hstarts
  rw [List.concat_eq_append]
  exact hstarts.trans ⟨[c], rfl⟩

omit [DecidableEq α] in
theorem Cut.tail {c : α} (hcut : Cut pattern (c :: before)) :
    Cut pattern before := by
  intro d hd
  refine hcut d ?_
  rw [List.getLast?_cons, hd]
  rfl

/-- Nothing before a cut is split when the pattern is not there. -/
theorem splitOnceAt_append_of_cut (hcut : Cut pattern before)
    (hnot : ¬ pattern <:+: before) :
    splitOnceAt pattern (before ++ after) =
      (splitOnceAt pattern after).map fun found => (before ++ found.1, found.2) := by
  induction before with
  | nil => simp
  | cons c before ih =>
      have hprefix : ¬ pattern <+: c :: (before ++ after) := fun h =>
        hnot (prefix_of_cut hcut (by simp) h).isInfix
      have hrest := ih hcut.tail fun h => hnot (h.trans (List.suffix_cons _ _).isInfix)
      rw [List.cons_append, splitOnceAt, if_neg hprefix, hrest, Option.map_map]
      rfl

/-- A pattern that a text has is split there, whatever comes after it. -/
theorem splitOnceAt_append_of_some {start rest : List α}
    (h : splitOnceAt pattern before = some (start, rest)) :
    splitOnceAt pattern (before ++ after) = some (start, rest ++ after) := by
  induction before generalizing start with
  | nil =>
      by_cases hpattern : pattern = []
      · subst hpattern
        simp only [splitOnceAt, if_true, Option.some.injEq, Prod.mk.injEq] at h
        obtain ⟨rfl, rfl⟩ := h
        cases after <;> simp [splitOnceAt]
      · simp [splitOnceAt, hpattern] at h
  | cons c before ih =>
      have hlength : pattern.length ≤ (c :: before).length := by
        have hlen := congrArg List.length (splitOnceAt_eq_some h)
        simp only [List.length_append] at hlen
        omega
      by_cases hprefix : pattern <+: c :: before
      · have hlong : pattern <+: c :: (before ++ after) :=
          hprefix.trans ⟨after, rfl⟩
        simp only [splitOnceAt, hprefix, if_true, Option.some.injEq,
          Prod.mk.injEq] at h
        obtain ⟨rfl, rfl⟩ := h
        rw [List.cons_append, splitOnceAt, if_pos hlong, ← List.cons_append,
          List.drop_append_of_le_length hlength]
      · have hlong : ¬ pattern <+: c :: (before ++ after) := fun hmark =>
          hprefix (List.prefix_of_prefix_length_le hmark ⟨after, rfl⟩ hlength)
        simp only [splitOnceAt, hprefix, if_false, Option.map_eq_some_iff] at h
        obtain ⟨⟨start', rest'⟩, hrest, heq⟩ := h
        simp only [Prod.mk.injEq] at heq
        obtain ⟨rfl, rfl⟩ := heq
        rw [List.cons_append, splitOnceAt, if_neg hlong, ih hrest]
        rfl

theorem matchIndices_append_of_cut (hcut : Cut pattern before)
    (hne : pattern ≠ []) (offset : Nat) :
    matchIndices pattern 0 offset (before ++ after) =
      matchIndices pattern 0 offset before ++
        matchIndices pattern 0 (offset + before.length) after := by
  rcases List.eq_nil_or_concat before with rfl | ⟨rest, c, rfl⟩
  · simp [matchIndices]
  · have hc : c ∉ pattern := hcut c (by simp)
    rw [List.concat_eq_append, List.append_assoc, List.singleton_append,
      matchIndices_append_cons hc hne (Nat.zero_le _),
      matchIndices_append_cons hc hne (Nat.zero_le _), List.length_append,
      List.length_singleton]
    simp [matchIndices, Nat.add_assoc]

end Cut

section Lines

variable {p : α → Bool} {line text : List α} {c : α}

omit [DecidableEq α] in
theorem splitWhere_append_cons (hline : ∀ d ∈ line, p d = false)
    (hc : p c = true) :
    splitWhere p (line ++ c :: text) = line :: splitWhere p text := by
  induction line with
  | nil => simp [splitWhere, hc]
  | cons d line ih =>
      have hd : p d = false := hline d List.mem_cons_self
      have hrest := ih fun e he => hline e (List.mem_cons_of_mem _ he)
      simp [splitWhere, hd, hrest]

/-- The text of some lines, each with its terminator. -/
def unlines (terminator : α) (lines : List (List α)) : List α :=
  lines.flatMap fun line => line ++ [terminator]

omit [DecidableEq α] in
@[simp] theorem unlines_nil : unlines c ([] : List (List α)) = [] := rfl

omit [DecidableEq α] in
@[simp] theorem unlines_cons (lines : List (List α)) :
    unlines c (line :: lines) = line ++ c :: unlines c lines := by
  simp [unlines]

omit [DecidableEq α] in
@[simp] theorem unlines_append (lines more : List (List α)) :
    unlines c (lines ++ more) = unlines c lines ++ unlines c more := by
  simp [unlines]

omit [DecidableEq α] in
/-- Splitting terminated lines gives them back, and an empty last line. -/
theorem splitWhere_unlines {lines : List (List α)} (hc : p c = true)
    (hlines : ∀ line ∈ lines, ∀ d ∈ line, p d = false) :
    splitWhere p (unlines c lines) = lines ++ [[]] := by
  induction lines with
  | nil => rfl
  | cons line lines ih =>
      rw [unlines_cons,
        splitWhere_append_cons (hlines line List.mem_cons_self) hc,
        ih fun other hother => hlines other (List.mem_cons_of_mem _ hother)]
      rfl

omit [DecidableEq α] in
theorem infix_unlines_iff {pattern : List α} {lines : List (List α)}
    (hc : c ∉ pattern) (hne : pattern ≠ []) :
    pattern <:+: unlines c lines ↔ ∃ line ∈ lines, pattern <:+: line := by
  induction lines with
  | nil => simp [hne]
  | cons line lines ih =>
      rw [unlines_cons, infix_append_cons_iff hc, ih]
      simp

end Lines

end Yams
