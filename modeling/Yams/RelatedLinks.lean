/-
The links of the related line in the text of a page.  The scanner finds all of them
unless a link is left open in the text before, whose alias or heading then runs on
to the end of the first one.
-/
import Yams.ChunkPacking
import Yams.LineReferences
import Yams.WikiPageRoundtrip

namespace Yams.Wiki

section Openings

variable {text target rest tail : Text} {c : Char}

/-- A text that starts a link with an alias or a heading and never closes it. -/
inductive OpensAt : Text → Prop
  | intro (target : Text) (c : Char) (rest : Text) (hne : target ≠ [])
      (hslug : ∀ d ∈ target, isSlugChar d = true) (hc : c = '#' ∨ c = '|')
      (hrest : ']' ∉ rest) : OpensAt ("[[".toList ++ (target ++ c :: rest))

/-- A text that leaves such a link open. -/
def OpenLink (text : Text) : Prop := ∃ rest, rest <:+ text ∧ OpensAt rest

theorem openLink_cons : OpenLink (c :: text) ↔ OpensAt (c :: text) ∨ OpenLink text := by
  constructor
  · rintro ⟨rest, hsuffix, hopens⟩
    rcases List.suffix_cons_iff.1 hsuffix with rfl | hsuffix
    · exact Or.inl hopens
    · exact Or.inr ⟨rest, hsuffix, hopens⟩
  · rintro (hopens | ⟨rest, hsuffix, hopens⟩)
    · exact ⟨_, List.suffix_rfl, hopens⟩
    · exact ⟨rest, hsuffix.trans (List.suffix_cons c text), hopens⟩

theorem not_openLink_nil : ¬ OpenLink [] := by
  rintro ⟨rest, hsuffix, hopens⟩
  rw [List.suffix_nil.1 hsuffix] at hopens
  cases hopens

/-- The text of an opening has no bracket that closes. -/
theorem OpensAt.not_mem (h : OpensAt text) : ']' ∉ text := by
  cases h with
  | intro target c rest hne hslug hc hrest =>
      intro hmem
      rcases List.mem_append.1 hmem with hmem | hmem
      · exact absurd hmem (by decide)
      rcases List.mem_append.1 hmem with hmem | hmem
      · exact absurd (hslug _ hmem) (by decide)
      rcases List.mem_cons.1 hmem with rfl | hmem
      · rcases hc with hc | hc
        · exact absurd hc (by decide)
        · exact absurd hc (by decide)
      · exact hrest hmem

/-- Behind a closed link an open one is still to come. -/
theorem OpenLink.after {before : Text} (h : OpenLink (before ++ ']' :: text)) :
    OpenLink text := by
  obtain ⟨rest, hsuffix, hopens⟩ := h
  have hwhole : (']' :: text) <:+ before ++ ']' :: text := List.suffix_append _ _
  rcases List.suffix_or_suffix_of_suffix hsuffix hwhole with hshort | hlong
  · rcases List.suffix_cons_iff.1 hshort with rfl | hshort
    · exact absurd List.mem_cons_self hopens.not_mem
    · exact ⟨rest, hshort, hopens⟩
  · exact absurd (hlong.subset List.mem_cons_self) hopens.not_mem

end Openings

section Ends

variable {text rest after w : Text} {c : Char} {p : Char → Bool}

theorem takeWhile_append_stop (after : Text) (h : ∃ d ∈ text, p d = false) :
    (text ++ after).takeWhile p = text.takeWhile p ∧
      (text ++ after).dropWhile p = text.dropWhile p ++ after := by
  induction text with
  | nil =>
      obtain ⟨d, hd, -⟩ := h
      exact absurd hd List.not_mem_nil
  | cons c text ih =>
      by_cases hc : p c = true
      · have hrest : ∃ d ∈ text, p d = false := by
          obtain ⟨d, hd, hstop⟩ := h
          rcases List.mem_cons.1 hd with rfl | hd
          · rw [hc] at hstop
            cases hstop
          · exact ⟨d, hd, hstop⟩
        obtain ⟨htake, hdrop⟩ := ih hrest
        simp [hc, htake, hdrop]
      · simp [hc]

theorem takeWhile_append_cons (text after : Text) (hc : p c = false) :
    (text ++ c :: after).takeWhile p = text.takeWhile p ∧
      (text ++ c :: after).dropWhile p = text.dropWhile p ++ c :: after := by
  induction text with
  | nil => simp [hc]
  | cons d text ih =>
      by_cases hd : p d = true
      · simp [hd, ih.1, ih.2]
      · simp [hd]

theorem mem_dropWhile_of_neg (hmem : c ∈ text) (hc : p c = false) :
    c ∈ text.dropWhile p := by
  have hsplit : c ∈ text.takeWhile p ++ text.dropWhile p := by
    rw [List.takeWhile_append_dropWhile]
    exact hmem
  rcases List.mem_append.1 hsplit with htake | hdrop
  · have htrue : p c = true := List.mem_takeWhile_imp htake
    rw [hc] at htrue
    cases htrue
  · exact hdrop

/-- The end of a link behind its target: its fragment and the text after it. -/
def linkEnd (text : Text) : Option (Option Text × Text) :=
  (Text.stripPrefix "]]".toList (afterAlias (fragmentAt text).2)).map fun after =>
    ((fragmentAt text).1, after)

theorem wikilinkAt_eq (text : Text) :
    wikilinkAt text = (Text.stripPrefix "[[".toList text).bind fun rest =>
      if rest.takeWhile isSlugChar = [] then none
      else (linkEnd (rest.dropWhile isSlugChar)).map fun (fragment, after) =>
        (rest.takeWhile isSlugChar, fragment, after) := by
  unfold wikilinkAt linkEnd
  cases Text.stripPrefix "[[".toList text with
  | none => rfl
  | some rest =>
      dsimp only [Option.bind_some]
      split
      · rfl
      · rw [Option.map_map]
        rfl

/-- A fragment or an alias that nothing closes. -/
def Unclosed (text : Text) : Prop :=
  ∃ c rest, text = c :: rest ∧ (c = '#' ∨ c = '|') ∧ ']' ∉ rest

theorem fragmentAt_of_ne (h : text.head? ≠ some '#') : fragmentAt text = (none, text) := by
  unfold fragmentAt
  split
  · exact absurd rfl h
  · rfl

theorem afterAlias_of_ne (h : text.head? ≠ some '|') : afterAlias text = text := by
  unfold afterAlias
  split
  · exact absurd rfl h
  · rfl

theorem afterAlias_append (hne : text ≠ [])
    (h : text.head? = some '|' → ']' ∈ text) :
    afterAlias (text ++ after) = afterAlias text ++ after := by
  cases text with
  | nil => exact absurd rfl hne
  | cons c text =>
      by_cases hc : c = '|'
      · subst hc
        have hmem : ']' ∈ text := by
          rcases List.mem_cons.1 (h rfl) with heq | hmem
          · exact absurd heq (by decide)
          · exact hmem
        exact (takeWhile_append_stop after ⟨']', hmem, by decide⟩).2
      · rw [List.cons_append, afterAlias_of_ne (by simpa using hc),
          afterAlias_of_ne (by simpa using hc), List.cons_append]

/-- What closes before a line feed closes there whatever follows. -/
theorem linkEnd_append (h : ¬ Unclosed text) :
    linkEnd (text ++ '\n' :: after) = (linkEnd text).map fun (fragment, rest) =>
      (fragment, rest ++ '\n' :: after) := by
  have hmark : '\n' ∉ "]]".toList := by decide
  have hclose (fragment : Option Text) (found : Text) :
      ((Text.stripPrefix "]]".toList (found ++ '\n' :: after)).map fun rest =>
        (fragment, rest)) =
      ((Text.stripPrefix "]]".toList found).map fun rest => (fragment, rest)).map
        fun (fragment, rest) => (fragment, rest ++ '\n' :: after) := by
    rw [stripPrefix_append_cons hmark, Option.map_map, Option.map_map]
    rfl
  cases text with
  | nil => exact hclose none []
  | cons c text =>
      by_cases hsharp : c = '#'
      · subst hsharp
        have hmem : ']' ∈ text := by
          by_contra hnot
          exact h ⟨'#', text, rfl, Or.inl rfl, hnot⟩
        obtain ⟨htake, hdrop⟩ := takeWhile_append_stop (p := isFragmentChar)
          ('\n' :: after) ⟨']', hmem, by decide⟩
        have hleft : ']' ∈ text.dropWhile isFragmentChar :=
          mem_dropWhile_of_neg hmem (by decide)
        have hwhole : fragmentAt ('#' :: text ++ '\n' :: after) =
            (some (text.takeWhile isFragmentChar),
              text.dropWhile isFragmentChar ++ '\n' :: after) := by
          rw [← htake, ← hdrop]
          rfl
        have hpart : fragmentAt ('#' :: text) =
            (some (text.takeWhile isFragmentChar), text.dropWhile isFragmentChar) := rfl
        rw [linkEnd, linkEnd, hwhole, hpart, afterAlias_append
          (List.ne_nil_of_mem hleft) fun _ => hleft]
        exact hclose _ _
      · have hhead {rest : Text} : (c :: rest).head? ≠ some '#' := by simpa using hsharp
        rw [linkEnd, linkEnd, List.cons_append, fragmentAt_of_ne hhead,
          fragmentAt_of_ne hhead, ← List.cons_append, afterAlias_append
            (List.cons_ne_nil c text)]
        · exact hclose _ _
        · intro hbar
          by_contra hnot
          exact h ⟨c, text, rfl, Or.inr (Option.some.inj hbar), fun hmem =>
            hnot (List.mem_cons_of_mem _ hmem)⟩

theorem afterAlias_closing (text after : Text) (h : ']' ∉ text)
    (hhead : ∀ c ∈ text.head?, c = '|') :
    afterAlias (text ++ ']' :: after) = ']' :: after := by
  cases text with
  | nil => exact afterAlias_of_ne (by simp)
  | cons c text =>
      obtain rfl := hhead c rfl
      have hplain : text.dropWhile (fun c => c ≠ ']') = [] := by
        rw [List.dropWhile_eq_nil_iff]
        intro c hc
        apply decide_eq_true
        rintro rfl
        exact h (List.mem_cons_of_mem _ hc)
      have hdrop := (takeWhile_append_cons (p := fun c => c ≠ ']') (c := ']') text after
        (by decide)).2
      rw [hplain] at hdrop
      exact hdrop

/-- What is not closed runs on to the next brackets; that it is a reference to a
block shows already in its first characters. -/
theorem linkEnd_unclosed (h : Unclosed text) (hw : ']' ∉ w) (after : Text) :
    ∃ fragment, linkEnd (text ++ '\n' :: (w ++ ("]]".toList ++ after))) =
        some (fragment, after) ∧
      fragment.any (fun found => found.head? = some '^') =
        decide (text.take 2 = "#^".toList) := by
  obtain ⟨c, rest, rfl, hc, hrest⟩ := h
  have hopen : ']' ∉ rest ++ '\n' :: w := by
    intro hmem
    rcases List.mem_append.1 hmem with hmem | hmem
    · exact hrest hmem
    rcases List.mem_cons.1 hmem with heq | hmem
    · exact absurd heq (by decide)
    · exact hw hmem
  have htext : c :: rest ++ '\n' :: (w ++ ("]]".toList ++ after)) =
      c :: ((rest ++ '\n' :: w) ++ ']' :: (']' :: after)) := by
    simp
  have hstrip : Text.stripPrefix "]]".toList (']' :: (']' :: after)) = some after :=
    stripPrefix_append "]]".toList after
  rw [htext]
  rcases hc with rfl | rfl
  · obtain ⟨htake, hdrop⟩ := takeWhile_append_cons (p := isFragmentChar) (c := ']')
      (rest ++ '\n' :: w) (']' :: after) (by decide)
    have hfragment : fragmentAt ('#' :: ((rest ++ '\n' :: w) ++ ']' :: (']' :: after))) =
        (some ((rest ++ '\n' :: w).takeWhile isFragmentChar),
          (rest ++ '\n' :: w).dropWhile isFragmentChar ++ ']' :: (']' :: after)) := by
      rw [← htake, ← hdrop]
      rfl
    have hclosing := afterAlias_closing _ (']' :: after)
      (fun hmem => hopen ((List.dropWhile_suffix isFragmentChar).subset hmem))
      (by
        intro d hd
        have hstop := List.head?_dropWhile_not isFragmentChar (rest ++ '\n' :: w)
        rw [hd] at hstop
        have hmem := (List.dropWhile_suffix isFragmentChar).subset
          (List.mem_of_mem_head? hd)
        by_contra hbar
        have hclose : d ≠ ']' := fun heq => hopen (heq ▸ hmem)
        simp [isFragmentChar, hbar, hclose] at hstop)
    refine ⟨_, by rw [linkEnd, hfragment, hclosing, hstrip]; rfl, ?_⟩
    cases rest with
    | nil => rfl
    | cons d rest =>
        by_cases hd : d = '^'
        · subst hd
          rfl
        · have htakeTwo : ('#' :: d :: rest).take 2 = ['#', d] := rfl
          have hword : "#^".toList = ['#', '^'] := by decide
          rw [htakeTwo, hword, List.cons_append, List.takeWhile_cons]
          by_cases hplain : isFragmentChar d = true
          · simp [hplain, hd]
          · simp [hplain, hd]
  · have hfragment : fragmentAt ('|' :: ((rest ++ '\n' :: w) ++ ']' :: (']' :: after))) =
        (none, '|' :: (rest ++ '\n' :: w) ++ ']' :: (']' :: after)) := rfl
    have hclosing := afterAlias_closing ('|' :: (rest ++ '\n' :: w)) (']' :: after)
      (by
        intro hmem
        rcases List.mem_cons.1 hmem with heq | hmem
        · exact absurd heq (by decide)
        · exact hopen hmem)
      (by simp)
    refine ⟨none, by rw [linkEnd, hfragment, hclosing, hstrip]; rfl, ?_⟩
    have hword : "#^".toList = ['#', '^'] := by decide
    rw [hword]
    simp

end Ends

section Scans

variable {text target rest after w : Text} {fragment : Option Text} {embedded : Bool}
  {c : Char}

theorem wikilinkAt_of_brackets (text : Text) :
    wikilinkAt ("[[".toList ++ text) =
      if text.takeWhile isSlugChar = [] then none
      else (linkEnd (text.dropWhile isSlugChar)).map fun (fragment, after) =>
        (text.takeWhile isSlugChar, fragment, after) := by
  rw [wikilinkAt_eq, stripPrefix_append, Option.bind_some]

theorem opensAt_iff : OpensAt ("[[".toList ++ text) ↔
    text.takeWhile isSlugChar ≠ [] ∧ Unclosed (text.dropWhile isSlugChar) := by
  constructor
  · intro h
    generalize hwhole : "[[".toList ++ text = whole at h
    cases h with
    | intro target c rest hne hslug hc hrest =>
        obtain rfl := List.append_cancel_left hwhole
        have hstop : isSlugChar c = false := by
          rcases hc with rfl | rfl <;> decide
        obtain ⟨htake, hdrop⟩ := takeWhile_append_cons target rest hstop
        have hall : target.takeWhile isSlugChar = target :=
          List.takeWhile_eq_self_iff.2 hslug
        have hnone : target.dropWhile isSlugChar = [] :=
          List.dropWhile_eq_nil_iff.2 hslug
        rw [htake, hdrop, hall, hnone]
        exact ⟨hne, c, rest, rfl, hc, hrest⟩
  · rintro ⟨hne, c, rest, heq, hc, hrest⟩
    rw [← List.takeWhile_append_dropWhile (p := isSlugChar) (l := text), heq]
    exact .intro _ c rest hne (fun d hd => List.mem_takeWhile_imp hd) hc hrest

/-- Where no link is left open a line feed keeps links apart. -/
theorem wikilinkAt_append (h : ¬ OpensAt text) :
    wikilinkAt (text ++ '\n' :: after) = (wikilinkAt text).map
      fun (target, fragment, rest) => (target, fragment, rest ++ '\n' :: after) := by
  cases hbrackets : Text.stripPrefix "[[".toList text with
  | none =>
      rw [wikilinkAt_eq, wikilinkAt_eq, stripPrefix_append_cons (by decide), hbrackets]
      rfl
  | some found =>
      have htext := stripPrefix_eq_some hbrackets
      subst htext
      obtain ⟨htake, hdrop⟩ := takeWhile_append_cons (p := isSlugChar) (c := '\n')
        found after (by decide)
      rw [List.append_assoc, wikilinkAt_of_brackets, wikilinkAt_of_brackets, htake, hdrop]
      by_cases hne : found.takeWhile isSlugChar = []
      · rw [if_pos hne, if_pos hne]
        rfl
      · have hclosed : ¬ Unclosed (found.dropWhile isSlugChar) :=
          fun hunclosed => h (opensAt_iff.2 ⟨hne, hunclosed⟩)
        rw [if_neg hne, if_neg hne, linkEnd_append hclosed, Option.map_map,
          Option.map_map]
        rfl

/-- An opening takes the next brackets as its own, whatever stands before them. -/
theorem wikilinkAt_open (h : OpensAt text) :
    ∃ target block, ∀ w after, ']' ∉ w → ∃ fragment,
      wikilinkAt (text ++ '\n' :: (w ++ ("]]".toList ++ after))) =
        some (target, fragment, after) ∧
      fragment.any (fun found => found.head? = some '^') = block := by
  obtain ⟨found, rfl⟩ : ∃ found, text = "[[".toList ++ found := by
    cases h with
    | intro target c rest hne hslug hc hrest => exact ⟨_, rfl⟩
  obtain ⟨hne, hunclosed⟩ := opensAt_iff.1 h
  refine ⟨found.takeWhile isSlugChar,
    decide ((found.dropWhile isSlugChar).take 2 = "#^".toList), ?_⟩
  intro w after hw
  obtain ⟨fragment, hend, hblock⟩ := linkEnd_unclosed hunclosed hw after
  obtain ⟨htake, hdrop⟩ := takeWhile_append_cons (p := isSlugChar) (c := '\n') found
    (w ++ ("]]".toList ++ after)) (by decide)
  refine ⟨fragment, ?_, hblock⟩
  rw [List.append_assoc, wikilinkAt_of_brackets, htake, hdrop, if_neg hne, hend]
  rfl

theorem fragmentAt_suffix (text : Text) : (fragmentAt text).2 <:+ text := by
  unfold fragmentAt
  split
  · exact (List.dropWhile_suffix _).trans (List.suffix_cons _ _)
  · exact List.suffix_rfl

theorem afterAlias_suffix (text : Text) : afterAlias text <:+ text := by
  unfold afterAlias
  split
  · exact (List.dropWhile_suffix _).trans (List.suffix_cons _ _)
  · exact List.suffix_rfl

/-- A link ends with a bracket. -/
theorem wikilinkAt_suffix (h : wikilinkAt text = some (target, fragment, after)) :
    ∃ before, text = before ++ ']' :: after := by
  rw [wikilinkAt_eq] at h
  obtain ⟨found, hbrackets, h⟩ := Option.bind_eq_some_iff.1 h
  split at h
  · cases h
  obtain ⟨⟨last, rest⟩, hend, heq⟩ := Option.map_eq_some_iff.1 h
  obtain ⟨-, -, rfl⟩ := heq
  obtain ⟨closed, hclosed, heq⟩ := Option.map_eq_some_iff.1 hend
  obtain ⟨-, rfl⟩ := Prod.mk.inj heq
  have hwhole : "]]".toList ++ closed <:+ text := by
    rw [← stripPrefix_eq_some hclosed, stripPrefix_eq_some hbrackets]
    exact ((afterAlias_suffix _).trans (fragmentAt_suffix _)).trans
      ((List.dropWhile_suffix _).trans (List.suffix_append _ _))
  obtain ⟨before, hbefore⟩ := hwhole
  exact ⟨before ++ [']'], by rw [← hbefore, List.append_assoc]; rfl⟩

theorem wikilinkTargetsFrom_of_none (h : wikilinkAt (c :: rest) = none) :
    wikilinkTargetsFrom embedded (c :: rest) = wikilinkTargetsFrom (c = '!') rest := by
  rw [wikilinkTargetsFrom]
  split
  next hsome =>
    rw [h] at hsome
    cases hsome
  · rfl

theorem wikilinkTargetsFrom_of_some
    (h : wikilinkAt (c :: rest) = some (target, fragment, after)) :
    wikilinkTargetsFrom embedded (c :: rest) =
      (if embedded ∨ fragment.any (fun found => found.head? = some '^') then []
        else [target]) ++ wikilinkTargetsFrom false after := by
  rw [wikilinkTargetsFrom]
  split
  next hsome =>
    rw [h] at hsome
    obtain ⟨rfl, rfl, rfl⟩ := hsome
    split
    · rfl
    · rfl
  next hnone =>
    rw [h] at hnone
    cases hnone

theorem wikilinkTargetsFrom_plain (h : c ≠ '[') :
    wikilinkTargetsFrom embedded (c :: rest) = wikilinkTargetsFrom (c = '!') rest := by
  apply wikilinkTargetsFrom_of_none
  rw [wikilinkAt_eq, stripPrefix_of_not_prefix]
  · rfl
  · rintro ⟨more, hmore⟩
    exact h (List.cons.inj hmore).1.symm

theorem wikilinkTargetsFrom_append_of_none (hopens : ¬ OpensAt (c :: rest))
    (hlink : wikilinkAt (c :: rest) = none) :
    wikilinkTargetsFrom embedded (c :: rest ++ '\n' :: after) =
      wikilinkTargetsFrom (c = '!') (rest ++ '\n' :: after) := by
  have happend : wikilinkAt (c :: (rest ++ '\n' :: after)) = _ :=
    wikilinkAt_append hopens
  rw [hlink] at happend
  exact wikilinkTargetsFrom_of_none happend

theorem wikilinkTargetsFrom_append_of_some (hopens : ¬ OpensAt (c :: rest))
    {found : Text} (hlink : wikilinkAt (c :: rest) = some (target, fragment, found)) :
    wikilinkTargetsFrom embedded (c :: rest ++ '\n' :: after) =
      (if embedded ∨ fragment.any (fun found => found.head? = some '^') then []
        else [target]) ++ wikilinkTargetsFrom false (found ++ '\n' :: after) := by
  have happend : wikilinkAt (c :: (rest ++ '\n' :: after)) = _ :=
    wikilinkAt_append hopens
  rw [hlink] at happend
  exact wikilinkTargetsFrom_of_some happend

/-- Without an open link the links before a line feed and behind it are found
apart. -/
theorem wikilinkTargetsFrom_append {text : Text} (h : ¬ OpenLink text)
    (embedded : Bool) (after : Text) :
    wikilinkTargetsFrom embedded (text ++ '\n' :: after) =
      wikilinkTargetsFrom embedded text ++ wikilinkTargetsFrom false after := by
  induction hlength : text.length using Nat.strong_induction_on
    generalizing text embedded with
  | h length ih =>
      subst hlength
      cases text with
      | nil =>
          rw [List.nil_append, wikilinkTargetsFrom_plain (by decide),
            wikilinkTargetsFrom]
          rfl
      | cons c rest =>
          rw [openLink_cons, not_or] at h
          cases hlink : wikilinkAt (c :: rest) with
          | none =>
              rw [wikilinkTargetsFrom_append_of_none h.1 hlink,
                wikilinkTargetsFrom_of_none hlink]
              exact ih rest.length (Nat.lt_succ_self _) h.2 _ rfl
          | some found =>
              obtain ⟨target, fragment, found⟩ := found
              obtain ⟨before, hbefore⟩ := wikilinkAt_suffix hlink
              have hopen : ¬ OpenLink found := by
                rintro ⟨opening, hsuffix, hopens⟩
                have hwhole : opening <:+ c :: rest := by
                  rw [hbefore]
                  exact hsuffix.trans
                    ((List.suffix_cons _ _).trans (List.suffix_append _ _))
                exact (not_or.2 h) (openLink_cons.1 ⟨opening, hwhole, hopens⟩)
              rw [wikilinkTargetsFrom_append_of_some h.1 hlink,
                wikilinkTargetsFrom_of_some hlink, List.append_assoc]
              congr 1
              exact ih found.length (wikilinkAt_length hlink) hopen _ rfl

/-- An open link takes the next brackets; what is behind them is found apart. -/
theorem wikilinkTargetsFrom_openLink {text : Text} (h : OpenLink text)
    (embedded : Bool) (w after : Text) (hw : ']' ∉ w) :
    wikilinkTargetsFrom embedded (text ++ '\n' :: (w ++ ("]]".toList ++ after))) =
      wikilinkTargetsFrom embedded (text ++ '\n' :: "]]".toList) ++
        wikilinkTargetsFrom false after := by
  induction hlength : text.length using Nat.strong_induction_on
    generalizing text embedded with
  | h length ih =>
      subst hlength
      cases text with
      | nil => exact absurd h not_openLink_nil
      | cons c rest =>
          by_cases hopens : OpensAt (c :: rest)
          · obtain ⟨target, block, hclosed⟩ := wikilinkAt_open hopens
            obtain ⟨fragment, hlink, hblock⟩ := hclosed w after hw
            obtain ⟨other, hotherLink, hotherBlock⟩ := hclosed [] [] List.not_mem_nil
            have hend : wikilinkTargetsFrom false [] = [] := by rw [wikilinkTargetsFrom]
            rw [List.nil_append, List.append_nil] at hotherLink
            rw [List.cons_append] at hlink hotherLink
            rw [List.cons_append, wikilinkTargetsFrom_of_some hlink, hblock,
              List.cons_append, wikilinkTargetsFrom_of_some hotherLink,
              hotherBlock, hend, List.append_nil]
          · have hlater : OpenLink rest := (openLink_cons.1 h).resolve_left hopens
            cases hlink : wikilinkAt (c :: rest) with
            | none =>
                rw [wikilinkTargetsFrom_append_of_none hopens hlink,
                  wikilinkTargetsFrom_append_of_none hopens hlink]
                exact ih rest.length (Nat.lt_succ_self _) hlater _ rfl
            | some found =>
                obtain ⟨target, fragment, found⟩ := found
                obtain ⟨before, hbefore⟩ := wikilinkAt_suffix hlink
                have hopen : OpenLink found := by
                  rw [hbefore] at h
                  exact h.after
                rw [wikilinkTargetsFrom_append_of_some hopens hlink,
                  wikilinkTargetsFrom_append_of_some hopens hlink, List.append_assoc]
                congr 1
                exact ih found.length (wikilinkAt_length hlink) hopen _ rfl

end Scans

section Related

variable {slug : Text} {related : List Text}

/-- The links of the related pages as the scanner meets them. -/
def linkText (slug : Text) : Text := "[[".toList ++ slug ++ "]]".toList

theorem wikilinkTargetsFrom_linkText (h : validateSlug slug = .ok ()) (after : Text) :
    wikilinkTargetsFrom false (linkText slug ++ after) =
      slug :: wikilinkTargetsFrom false after := by
  obtain ⟨hne, hall⟩ := slugChars_of_validateSlug h
  have htake : (slug ++ ("]]".toList ++ after)).takeWhile isSlugChar = slug := by
    obtain ⟨htake, -⟩ := takeWhile_append_cons (p := isSlugChar) (c := ']') slug
      (']' :: after) (by decide)
    exact htake.trans (List.takeWhile_eq_self_iff.2 (List.all_eq_true.1 hall))
  have hdrop : (slug ++ ("]]".toList ++ after)).dropWhile isSlugChar =
      "]]".toList ++ after := by
    obtain ⟨-, hdrop⟩ := takeWhile_append_cons (p := isSlugChar) (c := ']') slug
      (']' :: after) (by decide)
    rw [List.dropWhile_eq_nil_iff.2 (List.all_eq_true.1 hall)] at hdrop
    exact hdrop
  have hend : linkEnd ("]]".toList ++ after) = some (none, after) := by
    have hfragment : fragmentAt ("]]".toList ++ after) = (none, "]]".toList ++ after) :=
      fragmentAt_of_ne (by simp)
    have halias : afterAlias ("]]".toList ++ after) = "]]".toList ++ after :=
      afterAlias_of_ne (by simp)
    rw [linkEnd, hfragment, halias, stripPrefix_append]
    rfl
  have hlink : wikilinkAt (linkText slug ++ after) = some (slug, none, after) := by
    rw [linkText, List.append_assoc, List.append_assoc, wikilinkAt_of_brackets, htake,
      hdrop, if_neg hne, hend]
    rfl
  exact (wikilinkTargetsFrom_of_some hlink).trans (by simp)

theorem wikilinkTargetsFrom_related
    (h : ∀ slug ∈ related, validateSlug slug = .ok ()) :
    wikilinkTargetsFrom false
      ((related.flatMap fun slug => ", ".toList ++ linkText slug) ++ "\n".toList) =
        related := by
  induction related with
  | nil =>
      rw [List.flatMap_nil, List.nil_append]
      rw [show "\n".toList = ['\n'] by decide, wikilinkTargetsFrom_plain (by decide),
        wikilinkTargetsFrom]
  | cons slug related ih =>
      have hrest := ih fun other hother => h other (List.mem_cons_of_mem _ hother)
      rw [List.flatMap_cons, List.append_assoc, List.append_assoc,
        show ", ".toList = [',', ' '] by decide, List.cons_append, List.cons_append,
        List.nil_append, wikilinkTargetsFrom_plain (by decide),
        wikilinkTargetsFrom_plain (by decide)]
      have hlink := wikilinkTargetsFrom_linkText (h slug List.mem_cons_self)
      rw [show decide (' ' = '!') = false by decide, hlink]
      congr 1

theorem wikilinkTargetsFrom_heading (after : Text) :
    wikilinkTargetsFrom false ("Related: ".toList ++ after) =
      wikilinkTargetsFrom false after := by
  rw [show "Related: ".toList = ['R', 'e', 'l', 'a', 't', 'e', 'd', ':', ' '] by decide]
  simp only [List.cons_append, List.nil_append]
  rw [wikilinkTargetsFrom_plain (by decide), wikilinkTargetsFrom_plain (by decide),
    wikilinkTargetsFrom_plain (by decide), wikilinkTargetsFrom_plain (by decide),
    wikilinkTargetsFrom_plain (by decide), wikilinkTargetsFrom_plain (by decide),
    wikilinkTargetsFrom_plain (by decide), wikilinkTargetsFrom_plain (by decide),
    wikilinkTargetsFrom_plain (by decide)]
  rfl

/-- The related line and the text its first link is behind. -/
theorem relatedLine_cons (slug : Text) (related : List Text) :
    ∃ more : List Text, (∀ other, other ∈ more ↔ other ∈ related ∧ other ≠ slug) ∧
      relatedLine (slug :: related) = '\n' :: ("Related: ".toList ++ (linkText slug ++
        ((more.flatMap fun other => ", ".toList ++ linkText other) ++ "\n".toList))) := by
  refine ⟨(related.filter fun other => !other == slug).eraseDups, ?_, ?_⟩
  · intro other
    simp
  · unfold relatedLine
    have hlinks : (slug :: related).eraseDups.map (fun slug =>
        "[[".toList ++ slug ++ "]]".toList) =
        linkText slug ::
          (related.filter fun other => !other == slug).eraseDups.map linkText := by
      rw [List.eraseDups_cons]
      rfl
    have hstart : "\nRelated: ".toList = '\n' :: "Related: ".toList := by decide
    rw [hlinks]
    dsimp only
    rw [if_neg (List.cons_ne_nil _ _), join_cons, List.flatMap_map, hstart]
    simp only [List.cons_append, List.append_assoc]

/-- What the scanner finds in a text with a related line behind it. -/
theorem related_mem_wikilinkTargets (text : Text)
    (h : ∀ slug ∈ related, validateSlug slug = .ok ()) :
    (∀ slug ∈ related,
      slug ∈ wikilinkTargets (text ++ '\n' :: relatedLine related)) ↔
      (OpenLink text → ∀ first ∈ related.head?,
        first ∈ wikilinkTargets (text ++ '\n' :: "]]".toList)) := by
  cases related with
  | nil => simp
  | cons first related =>
      obtain ⟨more, hmore, hline⟩ := relatedLine_cons first related
      have hfirst := h first List.mem_cons_self
      have hvalid : ∀ slug ∈ more, validateSlug slug = .ok () := fun slug hslug =>
        h slug (List.mem_cons_of_mem _ ((hmore slug).1 hslug).1)
      have hrelated : wikilinkTargetsFrom false (relatedLine (first :: related)) =
          first :: more := by
        rw [hline, wikilinkTargetsFrom_plain (by decide)]
        rw [show decide ('\n' = '!') = false by decide, wikilinkTargetsFrom_heading,
          wikilinkTargetsFrom_linkText hfirst, wikilinkTargetsFrom_related hvalid]
      by_cases hopen : OpenLink text
      · have htargets : wikilinkTargets (text ++ '\n' :: relatedLine (first :: related)) =
            wikilinkTargets (text ++ '\n' :: "]]".toList) ++ more := by
          have hw : ']' ∉ '\n' :: ("Related: ".toList ++ ("[[".toList ++ first)) := by
            intro hmem
            have hslug := not_mem_slug hfirst (show isSlugChar ']' = false by decide)
            simp [hslug] at hmem
          have hscan := wikilinkTargetsFrom_openLink hopen false _
            ((more.flatMap fun other => ", ".toList ++ linkText other) ++ "\n".toList) hw
          rw [wikilinkTargetsFrom_related hvalid] at hscan
          rw [wikilinkTargets, hline, wikilinkTargets, ← hscan, linkText]
          simp only [List.cons_append, List.append_assoc]
        rw [htargets]
        constructor
        · intro hall _ slug hslug
          obtain rfl := Option.some.inj hslug
          rcases List.mem_append.1 (hall first List.mem_cons_self) with hmem | hmem
          · exact hmem
          · exact absurd rfl ((hmore first).1 hmem).2
        · intro hlinked slug hslug
          by_cases heq : slug = first
          · subst heq
            exact List.mem_append_left _ (hlinked hopen slug rfl)
          · have hother : slug ∈ related := (List.mem_cons.1 hslug).resolve_left heq
            exact List.mem_append_right _ ((hmore slug).2 ⟨hother, heq⟩)
      · have htargets : wikilinkTargets (text ++ '\n' :: relatedLine (first :: related)) =
            wikilinkTargets text ++ (first :: more) := by
          rw [wikilinkTargets, wikilinkTargetsFrom_append hopen, hrelated]
          rfl
        rw [htargets]
        constructor
        · intro _ hopens
          exact absurd hopens hopen
        · intro _ slug hslug
          apply List.mem_append_right
          by_cases heq : slug = first
          · exact heq ▸ List.mem_cons_self
          · have hother : slug ∈ related := (List.mem_cons.1 hslug).resolve_left heq
            exact List.mem_cons_of_mem _ ((hmore slug).2 ⟨hother, heq⟩)

end Related

section Requests

variable [Unicode]

theorem validateRelated_eq_ok {slug : Text} {related : List Text}
    (h : validateRelated slug related = .ok ()) :
    ∀ other ∈ related, validateSlug other = .ok () := by
  induction related with
  | nil => exact fun other hother => absurd hother List.not_mem_nil
  | cons first related ih =>
      rw [validateRelated] at h
      split at h
      · cases h
      · cases h
      next hfirst =>
      split at h
      · cases h
      intro other hother
      rcases List.mem_cons.1 hother with rfl | hother
      · exact hfirst
      · exact ih h other hother

/-- The text of a page up to the last line feed before its related line. -/
def textBeforeRelated (request : CommonRequest) (slug : Text) (owner : Owner)
    (status : Status) (updated verified : Text) : Text :=
  "---\nslug: ".toList ++ slug ++ "\ntitle: ".toList ++ request.title ++
    "\ntype: ".toList ++ request.pageType.asStr ++
    "\nstatus: ".toList ++ status.asStr ++
    "\nowner: ".toList ++ owner.asStr ++
    "\nupdated: ".toList ++ updated ++
    "\nverified: ".toList ++ verified ++
    "\nsummary: ".toList ++ request.summary ++
    "\n---\n\n".toList ++ request.fact ++
    "\n\n**Why:** ".toList ++ request.why ++
    "\n\n**How to apply:** ".toList ++ request.howToApply ++
    "\n\n**Falsified by:** ".toList ++ request.falsifiedBy

omit [Unicode] in
theorem renderPage_related (request : CommonRequest) (slug : Text) (owner : Owner)
    (status : Status) (updated verified : Text) :
    renderPage request slug owner status updated verified =
      textBeforeRelated request slug owner status updated verified ++
        '\n' :: relatedLine request.related := by
  have hnewline : "\n".toList = ['\n'] := by decide
  unfold renderPage
  rw [hnewline, List.append_assoc]
  rfl

/-- No link is left open before the related line, or the first related page is one of
those that the text before it links to once the open link ends. -/
def RelatedReachable (request : CommonRequest) (slug : Text) (owner : Owner)
    (status : Status) (updated verified : Text) : Prop :=
  let text := textBeforeRelated request slug owner status updated verified
  OpenLink text → ∀ first ∈ request.related.head?,
    first ∈ wikilinkTargets (text ++ '\n' :: "]]".toList)

theorem Accepted.related_linked {request : CommonRequest} {slug : Text}
    (h : Accepted request slug) (owner : Owner) (status : Status)
    (updated verified : Text) :
    (∀ related ∈ request.related, related ∈ wikilinkTargets
      (renderPage request slug owner status updated verified)) ↔
      RelatedReachable request slug owner status updated verified := by
  rw [renderPage_related]
  exact related_mem_wikilinkTargets _ (validateRelated_eq_ok h.related)

/-- Of an accepted request, whatever its texts say, the page links to all related
pages exactly if no link that is left open in the text before hides the first. -/
theorem related_pages_linked :
    (∀ (request : CreateRequest) (slug : Text) (owner : Owner) (status : Status)
      (updated verified : Text), validateCreate request = .ok slug →
        ((∀ related ∈ request.related, related ∈ wikilinkTargets
          (renderPage (.create request) slug owner status updated verified)) ↔
          RelatedReachable (.create request) slug owner status updated verified)) ∧
    ∀ (request : UpdateRequest) (slug : Text) (owner : Owner) (status : Status)
      (updated verified : Text), validateUpdate request = .ok slug →
        ((∀ related ∈ request.related, related ∈ wikilinkTargets
          (renderPage (.update request) slug owner status updated verified)) ↔
          RelatedReachable (.update request) slug owner status updated verified) := by
  constructor
  · intro request slug owner status updated verified h
    exact (validateCommon_eq_ok h).related_linked owner status updated verified
  · intro request slug owner status updated verified h
    exact (validateUpdate_eq_ok h).1.related_linked owner status updated verified

end Requests

namespace RelatedSample

local instance : Unicode := Unicode.ascii

/-- A text that ends in a link with an alias that nothing closes. -/
def dangling : CreateRequest :=
  { RoundtripWitness.create with
    falsifiedBy := "A refresh, see [[store|".toList
    related := ["disk-layout".toList, "clock".toList] }

/-- A text with a whole link before the related line. -/
def linking : UpdateRequest :=
  { RoundtripWitness.update with
    fact := "The cache is fresh, see [[store|the store]].".toList
    related := ["disk-layout".toList] }

def today : Text := "2026-08-07".toList

theorem sample_links :
    (validateCreate dangling = .ok "cache-rules".toList ∧
      wikilinkTargets (renderPage (.create dangling) "cache-rules".toList .codex .current
        today today) = ["store".toList, "clock".toList]) ∧
    validateUpdate linking = .ok "cache-rules".toList ∧
      wikilinkTargets (renderPage (.update linking) "cache-rules".toList .codex .current
        today today) = ["store".toList, "disk-layout".toList] := by
  unfold renderPage dangling linking RoundtripWitness.create RoundtripWitness.update today
  repeat rw [String.toList_ofList]
  exact ⟨⟨by decide +kernel, by decide +kernel⟩, by decide +kernel, by decide +kernel⟩

/-- The link of the text takes the place of the first related one. -/
theorem related_page_hidden :
    validateCreate dangling = .ok "cache-rules".toList ∧
      renderCreate dangling today = .ok (renderPage (.create dangling)
        "cache-rules".toList .codex .current today today) ∧
      wikilinkTargets (renderPage (.create dangling) "cache-rules".toList .codex
        .current today today) = ["store".toList, "clock".toList] ∧
      "disk-layout".toList ∈ dangling.related ∧
      "disk-layout".toList ∉ wikilinkTargets (renderPage (.create dangling)
        "cache-rules".toList .codex .current today today) := by
  obtain ⟨⟨hvalid, hlinks⟩, -⟩ := sample_links
  refine ⟨hvalid, ?_, hlinks, by decide, ?_⟩
  · apply renderCreate_ok (by decide) hvalid
    unfold renderPage dangling RoundtripWitness.create today
    repeat rw [String.toList_ofList]
    decide
  · rw [hlinks]
    decide

theorem related_pages_linked_sample :
    ¬ RelatedReachable (.create dangling) "cache-rules".toList .codex .current today
        today ∧
      RelatedReachable (.update linking) "cache-rules".toList .codex .current today
        today := by
  obtain ⟨⟨hdangling, hhidden⟩, hlinking, hlinked⟩ := sample_links
  constructor
  · intro hreachable
    have hrelated := (related_pages_linked.1 dangling "cache-rules".toList .codex .current
      today today hdangling).2 hreachable "disk-layout".toList (by decide)
    rw [hhidden] at hrelated
    exact absurd hrelated (by decide)
  · apply (related_pages_linked.2 linking "cache-rules".toList .codex .current
      today today hlinking).1
    rw [hlinked]
    decide

end RelatedSample

end Yams.Wiki
