/-
Line references and what exempts them.  A text cites a line when six characters
stand in it; the writer and the checker remove URLs in different ways, and the
texts they leave cite the same lines.
-/
import Yams.WikiCheck
import Yams.WikiPageRoundtrip

namespace Yams.Wiki

section Windows

variable [Unicode]

/-- The end of a line reference: `c.py:d`. -/
def referenceWindow (c d : Char) : Text := c :: ".py:".toList ++ [d]

def Cites (text : Text) : Prop :=
  ∃ c d, isReferenceChar c = true ∧ isDecimalNumber d = true ∧
    referenceWindow c d <:+: text

theorem referenceAt_eq_some {text reference after : Text}
    (h : referenceAt text = some (reference, after)) : Cites text := by
  simp only [referenceAt] at h
  split at h
  case isFalse => cases h
  case isTrue hrun =>
  obtain ⟨hlength, stem, hstem⟩ := hrun
  split at h
  case h_2 => cases h
  case h_1 rest hrest =>
  split at h
  · cases h
  next hdigits =>
  have htext : text = text.takeWhile isReferenceChar ++ ':' :: rest := by
    rw [← hrest, List.takeWhile_append_dropWhile]
  have hne : stem ≠ [] := by
    rintro rfl
    rw [← hstem] at hlength
    revert hlength
    decide
  obtain ⟨start, c, hlast⟩ := (List.eq_nil_or_concat stem).resolve_left hne
  rw [List.concat_eq_append] at hlast
  have hc : isReferenceChar c = true := by
    have hmem : c ∈ text.takeWhile isReferenceChar := by
      rw [← hstem, hlast]
      simp
    exact List.mem_takeWhile_imp hmem
  obtain ⟨d, more, hmore⟩ := List.exists_cons_of_ne_nil hdigits
  have hd : isDecimalNumber d = true := by
    have hmem : d ∈ rest.takeWhile isDecimalNumber := by
      rw [hmore]
      exact List.mem_cons_self
    exact List.mem_takeWhile_imp hmem
  refine ⟨c, d, hc, hd, start, more ++ rest.dropWhile isDecimalNumber, ?_⟩
  have hsplit : rest = d :: more ++ rest.dropWhile isDecimalNumber := by
    rw [← hmore, List.takeWhile_append_dropWhile]
  calc start ++ referenceWindow c d ++ (more ++ rest.dropWhile isDecimalNumber)
      = (start ++ [c] ++ ".py".toList) ++
          ':' :: (d :: more ++ rest.dropWhile isDecimalNumber) := by
        simp [referenceWindow]
    _ = text := by rw [← hsplit, ← hlast, hstem, ← htext]

theorem referenceAt_window {c d : Char} (hc : isReferenceChar c = true)
    (hd : isDecimalNumber d = true) (after : Text) :
    (referenceAt (referenceWindow c d ++ after)).isSome := by
  have htext : referenceWindow c d ++ after =
      (c :: ".py".toList) ++ ':' :: d :: after := by
    simp [referenceWindow]
  have hrun : ∀ e ∈ c :: ".py".toList, isReferenceChar e = true := by
    intro e he
    rcases List.mem_cons.1 he with rfl | he
    · exact hc
    · have hall : ".py".toList.all isReferenceChar = true := by decide
      exact List.all_eq_true.1 hall e he
  have hcolon : isReferenceChar ':' = false := by decide
  have htake : ((c :: ".py".toList) ++ ':' :: d :: after).takeWhile
      isReferenceChar = c :: ".py".toList := by
    rw [List.takeWhile_append_of_pos hrun]
    simp [hcolon]
  have hdrop : ((c :: ".py".toList) ++ ':' :: d :: after).dropWhile
      isReferenceChar = ':' :: d :: after := by
    rw [List.dropWhile_append_of_pos hrun]
    simp [hcolon]
  have hsuffix : ".py".toList <:+ c :: ".py".toList := ⟨[c], rfl⟩
  have hlength : 3 < (c :: ".py".toList).length := by simp
  simp only [referenceAt, htext, htake, hdrop, hsuffix, hlength, and_self,
    if_true, List.takeWhile_cons, hd]
  simp

theorem findReference_eq_none_iff {text : Text} :
    findReference text = none ↔ ¬ Cites text := by
  constructor
  · rintro h ⟨c, d, hc, hd, before, after, rfl⟩
    have hsome := referenceAt_window hc hd after
    induction before with
    | nil =>
        rw [List.nil_append] at h
        obtain ⟨found, hfound⟩ := Option.isSome_iff_exists.1 hsome
        have hcons : referenceWindow c d ++ after =
            c :: (".py:".toList ++ [d] ++ after) := rfl
        rw [hcons] at h hfound
        rw [findReference, hfound] at h
        cases h
    | cons b before ih =>
        simp only [List.cons_append, findReference] at h
        split at h
        · cases h
        · exact ih h
  · intro h
    induction text with
    | nil => rfl
    | cons c rest ih =>
        rcases hat : referenceAt (c :: rest) with _ | ⟨reference, after⟩
        · simp only [findReference, hat]
          refine ih ?_
          rintro ⟨d, e, hd, he, hfound⟩
          exact h ⟨d, e, hd, he, hfound.trans (List.suffix_cons _ _).isInfix⟩
        · exact absurd (referenceAt_eq_some hat) h

theorem references_eq_nil_iff {text : Text} :
    references text = [] ↔ findReference text = none := by
  induction text with
  | nil => simp [references, findReference]
  | cons c rest ih =>
      rw [references, findReference]
      rcases referenceAt (c :: rest) with _ | ⟨reference, after⟩
      · exact ih
      · simp

end Windows

section Pieces

variable [Unicode] {before after : Text}

omit [Unicode] in
theorem isUrlChar_eq (c : Char) : isUrlChar c = !isPythonWhitespace c := by
  unfold isUrlChar Text.isWhitespace isPythonWhitespace
  rw [← Bool.decide_or]
  congr 1
  exact decide_eq_decide.2 (by omega)

omit [Unicode] in
theorem isReferenceChar_toNat {c : Char} (hc : isReferenceChar c = true) :
    0x2d ≤ c.toNat ∧ c.toNat < 0x80 := by
  have hcases := of_decide_eq_true hc
  rcases hcases with ⟨hlow, hhigh⟩ | ⟨hlow, hhigh⟩ | ⟨hlow, hhigh⟩ | rfl | rfl |
    rfl | rfl
  · have hl : 0x41 ≤ c.toNat := hlow
    have hh : c.toNat ≤ 0x5a := hhigh
    omega
  · have hl : 0x61 ≤ c.toNat := hlow
    have hh : c.toNat ≤ 0x7a := hhigh
    omega
  · have hl : 0x30 ≤ c.toNat := hlow
    have hh : c.toNat ≤ 0x39 := hhigh
    omega
  all_goals decide

theorem not_mem_referenceWindow {c d w : Char} (hc : isReferenceChar c = true)
    (hd : isDecimalNumber d = true) (hw : isPythonWhitespace w = true) :
    w ∉ referenceWindow c d := by
  have hspace := of_decide_eq_true hw
  have hfixed : ".py:".toList.all (fun c => !isPythonWhitespace c) = true := by
    decide
  intro hmem
  simp only [referenceWindow, List.cons_append, List.mem_cons, List.mem_append,
    List.not_mem_nil, or_false] at hmem
  rcases hmem with rfl | hmem | rfl
  · have hrange := isReferenceChar_toNat hc
    omega
  · have hplain := List.all_eq_true.1 hfixed w hmem
    rw [hw] at hplain
    cases hplain
  · -- a decimal number is no white space, and no control character
    have hvisible := of_decide_eq_false (isDecimalNumber_plain hd).1
    have hascii : w.toNat < 0x80 → 0x30 ≤ w.toNat := fun h =>
      (Unicode.decimalNumber_ascii w h (of_decide_eq_true hd)).1
    omega

/-- White space separates line references. -/
theorem cites_append_cons {w : Char} (hw : isPythonWhitespace w = true) :
    Cites (before ++ w :: after) ↔ Cites before ∨ Cites after := by
  constructor
  · rintro ⟨c, d, hc, hd, hfound⟩
    rw [infix_append_cons_iff (not_mem_referenceWindow hc hd hw)] at hfound
    rcases hfound with hbefore | hafter
    · exact Or.inl ⟨c, d, hc, hd, hbefore⟩
    · exact Or.inr ⟨c, d, hc, hd, hafter⟩
  · rintro (⟨c, d, hc, hd, hfound⟩ | ⟨c, d, hc, hd, hfound⟩)
    · exact ⟨c, d, hc, hd, hfound.trans ⟨[], w :: after, rfl⟩⟩
    · exact ⟨c, d, hc, hd, hfound.trans ⟨before ++ [w], [], by simp⟩⟩

/-- A reference ends in a digit, so it does not end in a text without one. -/
theorem cites_append_of_noDigit (hafter : ∀ c ∈ after, isDecimalNumber c = false) :
    Cites (before ++ after) ↔ Cites before := by
  constructor
  · rintro ⟨c, d, hc, hd, hfound⟩
    refine ⟨c, d, hc, hd, ?_⟩
    have hfresh : d ∉ after.reverse := by
      intro hmem
      have hno := hafter d (List.mem_reverse.1 hmem)
      rw [hd] at hno
      cases hno
    have hwindow : (referenceWindow c d).reverse =
        d :: (c :: ".py:".toList).reverse := by
      simp [referenceWindow]
    rw [← List.reverse_infix, List.reverse_append, hwindow,
      infix_append_of_not_mem hfresh, ← hwindow, List.reverse_infix] at hfound
    exact hfound
  · rintro ⟨c, d, hc, hd, hfound⟩
    exact ⟨c, d, hc, hd, hfound.trans ⟨[], after, rfl⟩⟩

end Pieces

section Urls

variable {text before after : Text} {w : Char}

attribute [local simp] withoutUrls withoutPythonUrls

/-- A character of a scheme after its `h`. -/
def isSchemeChar (c : Char) : Bool :=
  c ≠ 'h' ∧ isPythonWhitespace c = false ∧ c.toNat < 0x80 ∧
    ¬ ('0' ≤ c ∧ c ≤ '9')

theorem urlScheme_eq_some {c : Char} {rest : Text}
    (h : urlScheme (c :: rest) = some after) :
    ∃ scheme, c = 'h' ∧ rest = scheme ++ after ∧
      scheme.all isSchemeChar = true := by
  have hsecure : "https://".toList = 'h' :: "ttps://".toList := by decide
  have hplain : "http://".toList = 'h' :: "ttp://".toList := by decide
  rcases Option.or_eq_some_iff.1 h with hs | ⟨_, hs⟩
  · have heq := stripPrefix_eq_some hs
    rw [hsecure, List.cons_append] at heq
    obtain ⟨rfl, hrest⟩ := List.cons.inj heq
    exact ⟨_, rfl, hrest, by decide⟩
  · have heq := stripPrefix_eq_some hs
    rw [hplain, List.cons_append] at heq
    obtain ⟨rfl, hrest⟩ := List.cons.inj heq
    exact ⟨_, rfl, hrest, by decide⟩

theorem urlScheme_of_ne {c : Char} (hc : c ≠ 'h') (rest : Text) :
    urlScheme (c :: rest) = none := by
  rcases hscheme : urlScheme (c :: rest) with _ | after
  · rfl
  · obtain ⟨_, heq, _⟩ := urlScheme_eq_some hscheme
    exact absurd heq hc

theorem urlAt_of_urlScheme_none (h : urlScheme text = none) : urlAt text = none := by
  unfold urlAt
  rw [h]

theorem withoutUrls_of_none {c : Char} {rest : Text}
    (h : urlAt (c :: rest) = none) :
    withoutUrls (c :: rest) = c :: withoutUrls rest := by
  rw [withoutUrls, h]

theorem withoutUrls_of_some {c : Char} {rest : Text}
    (h : urlAt (c :: rest) = some after) :
    withoutUrls (c :: rest) = withoutUrls after := by
  rw [withoutUrls, h]

/-- Where no scheme starts, nothing is removed. -/
theorem withoutUrls_append_of_not_mem (hbefore : 'h' ∉ before) :
    withoutUrls (before ++ after) = before ++ withoutUrls after := by
  induction before with
  | nil => rfl
  | cons c before ih =>
      have hc : c ≠ 'h' := fun heq => hbefore (heq ▸ List.mem_cons_self)
      have hnone := urlAt_of_urlScheme_none (urlScheme_of_ne hc (before ++ after))
      have hrest := ih fun hmem => hbefore (List.mem_cons_of_mem _ hmem)
      rw [List.cons_append, withoutUrls_of_none hnone, hrest, List.cons_append]

theorem dropWhile_isUrlChar (text : Text) :
    text.dropWhile isUrlChar =
      text.dropWhile fun d => ¬ isPythonWhitespace d := by
  congr 1
  funext d
  rw [isUrlChar_eq]
  simp

theorem stripPrefix_append_cons {mark : Text} (hw : w ∉ mark) :
    Text.stripPrefix mark (before ++ w :: after) =
      (Text.stripPrefix mark before).map fun rest => rest ++ w :: after := by
  have hstarts : mark.isPrefixOf (before ++ w :: after) =
      mark.isPrefixOf before := by
    rw [Bool.eq_iff_iff, List.isPrefixOf_iff_prefix, List.isPrefixOf_iff_prefix]
    exact prefix_append_cons_iff hw
  unfold Text.stripPrefix
  rw [hstarts]
  split
  next hmark =>
      have hlen := (List.isPrefixOf_iff_prefix.1 hmark).length_le
      rw [Option.map_some, List.drop_append_of_le_length hlen]
  · rfl

theorem urlAt_append_cons (hw : isPythonWhitespace w = true) :
    urlAt (before ++ w :: after) =
      (urlAt before).map fun rest => rest ++ w :: after := by
  have hfixed : ("https://".toList ++ "http://".toList).all
      (fun c => !isPythonWhitespace c) = true := by decide
  have hsecure : w ∉ "https://".toList ∧ w ∉ "http://".toList := by
    rw [← not_or, ← List.mem_append]
    intro hmem
    have hplain := List.all_eq_true.1 hfixed w hmem
    rw [hw] at hplain
    cases hplain
  have hurl : isUrlChar w = false := by
    rw [isUrlChar_eq, hw]
    rfl
  have hscheme : urlScheme (before ++ w :: after) =
      (urlScheme before).map fun rest => rest ++ w :: after := by
    unfold urlScheme
    rw [stripPrefix_append_cons hsecure.1, stripPrefix_append_cons hsecure.2]
    cases Text.stripPrefix "https://".toList before <;> rfl
  unfold urlAt
  rw [hscheme]
  rcases urlScheme before with _ | _ | ⟨c, rest⟩
  · rfl
  · simp [hurl]
  · by_cases hc : isUrlChar c = true
    · simp only [Option.map_some, List.cons_append, hc, if_true]
      rw [List.dropWhile_append]
      split
      next hnil =>
          have hrest : rest.dropWhile isUrlChar = [] := by simpa using hnil
          rw [hrest, List.dropWhile_cons_of_neg (by simp [hurl])]
          rfl
      · rfl
    · simp [hc]

/-- White space ends a URL. -/
theorem withoutUrls_append_cons (hw : isPythonWhitespace w = true) :
    withoutUrls (before ++ w :: after) =
      withoutUrls before ++ w :: withoutUrls after := by
  induction hlength : before.length using Nat.strong_induction_on
    generalizing before with
  | h n ih =>
      subst hlength
      have hcut : urlAt (before ++ w :: after) =
          (urlAt before).map fun rest => rest ++ w :: after :=
        urlAt_append_cons hw
      cases before with
      | nil =>
          rw [List.nil_append] at hcut ⊢
          have hnone : urlAt [] = none := rfl
          have hnil : withoutUrls [] = [] := by rw [withoutUrls]
          rw [hnone] at hcut
          rw [withoutUrls_of_none hcut, hnil, List.nil_append]
      | cons c before =>
          rw [List.cons_append] at hcut ⊢
          rcases hurl : urlAt (c :: before) with _ | rest
          · rw [hurl] at hcut
            rw [withoutUrls_of_none hcut, withoutUrls_of_none hurl,
              ih before.length (by simp) rfl, List.cons_append]
          · have hlen := urlAt_length hurl
            rw [hurl] at hcut
            rw [withoutUrls_of_some hcut, withoutUrls_of_some hurl]
            exact ih rest.length hlen rfl

theorem urlAt_suffix {c : Char} {rest : Text}
    (h : urlAt (c :: rest) = some after) : after <:+ c :: rest := by
  unfold urlAt at h
  split at h
  case h_2 => cases h
  case h_1 d more hscheme =>
  obtain ⟨scheme, -, hrest, -⟩ := urlScheme_eq_some hscheme
  split at h
  · rw [← Option.some.inj h, hrest]
    exact (List.dropWhile_suffix _).trans ⟨c :: scheme ++ [d], by simp⟩
  · cases h

theorem withoutUrls_sublist (text : Text) : (withoutUrls text).Sublist text := by
  induction hlength : text.length using Nat.strong_induction_on
    generalizing text with
  | h n ih =>
      subst hlength
      cases text with
      | nil =>
          rw [withoutUrls]
      | cons c rest =>
          rcases hurl : urlAt (c :: rest) with _ | after
          · rw [withoutUrls_of_none hurl]
            exact (ih rest.length (by simp) rest rfl).cons_cons c
          · rw [withoutUrls_of_some hurl]
            exact (ih after.length (urlAt_length hurl) after rfl).trans
              (urlAt_suffix hurl).sublist

theorem withoutPythonUrls_of_none {c : Char} {rest : Text}
    (h : urlScheme (c :: rest) = none) :
    withoutPythonUrls (c :: rest) = c :: withoutPythonUrls rest := by
  rw [withoutPythonUrls, h]

theorem withoutPythonUrls_of_some {c : Char} {rest found : Text}
    (h : urlScheme (c :: rest) = some found) :
    withoutPythonUrls (c :: rest) =
      withoutPythonUrls (rest.dropWhile fun d => ¬ isPythonWhitespace d) := by
  rw [withoutPythonUrls, h]

end Urls

section Agreement

variable [Unicode]

/-- The checker also removes a scheme that no URL follows; no reference ends in
one, and white space or the end of the text comes after it. -/
theorem cites_withoutPythonUrls (before text : Text) :
    Cites (before ++ withoutPythonUrls text) ↔
      Cites (before ++ withoutUrls text) := by
  induction hlength : text.length using Nat.strong_induction_on
    generalizing before text with
  | h n ih =>
      subst hlength
      cases text with
      | nil => rw [withoutPythonUrls, withoutUrls]
      | cons c rest =>
      rcases hscheme : urlScheme (c :: rest) with _ | after
      · have hrest := ih rest.length (by simp) (before ++ [c]) rest rfl
        rw [withoutPythonUrls_of_none hscheme,
          withoutUrls_of_none (urlAt_of_urlScheme_none hscheme)]
        simpa using hrest
      · obtain ⟨scheme, rfl, rfl, hall⟩ := urlScheme_eq_some hscheme
        have hchars : ∀ d ∈ scheme, isSchemeChar d = true :=
          fun d hd => List.all_eq_true.1 hall d hd
        have hskip : (scheme ++ after).dropWhile
            (fun d => ¬ isPythonWhitespace d) =
              after.dropWhile fun d => ¬ isPythonWhitespace d :=
          List.dropWhile_append_of_pos fun d hd => by
            simp [(of_decide_eq_true (hchars d hd)).2.1]
        have hkept : 'h' ∉ scheme := fun hmem =>
          (of_decide_eq_true (hchars 'h' hmem)).1 rfl
        have hdigits : ∀ d ∈ 'h' :: scheme, isDecimalNumber d = false := by
          intro d hd
          refine decide_eq_false fun hdecimal => ?_
          rcases List.mem_cons.1 hd with rfl | hd
          · exact absurd (Unicode.decimalNumber_ascii 'h' (by decide) hdecimal)
              (by decide)
          · obtain ⟨-, -, hascii, hno⟩ := of_decide_eq_true (hchars d hd)
            exact hno (Unicode.decimalNumber_ascii d hascii hdecimal)
        rw [withoutPythonUrls_of_some hscheme, hskip]
        rcases after with _ | ⟨d, more⟩
        · have hurl : urlAt ('h' :: (scheme ++ [])) = none := by
            rw [urlAt, hscheme]
          rw [withoutUrls_of_none hurl, withoutUrls_append_of_not_mem hkept,
            List.dropWhile_nil, withoutPythonUrls, withoutUrls, List.append_nil,
            List.append_nil]
          exact (cites_append_of_noDigit hdigits).symm
        by_cases hd : isPythonWhitespace d = true
        · have hchar : isUrlChar d = false := by simp [isUrlChar_eq, hd]
          have hurl : urlAt ('h' :: (scheme ++ d :: more)) = none := by
            rw [urlAt, hscheme]
            simp [hchar]
          have hspace : d ≠ 'h' := by
            rintro rfl
            revert hd
            decide
          have hnone := urlScheme_of_ne hspace more
          have htext : before ++ 'h' :: (scheme ++ d :: withoutUrls more) =
              (before ++ 'h' :: scheme) ++ d :: withoutUrls more := by simp
          have hshort : more.length < ('h' :: (scheme ++ d :: more)).length := by
            simp only [List.length_append, List.length_cons]
            omega
          have hrest := ih more.length hshort [] more rfl
          rw [List.nil_append, List.nil_append] at hrest
          rw [withoutUrls_of_none hurl, withoutUrls_append_of_not_mem hkept,
            List.dropWhile_cons_of_neg (by simp [hd]),
            withoutPythonUrls_of_none hnone,
            withoutUrls_of_none (urlAt_of_urlScheme_none hnone), htext,
            cites_append_cons hd, cites_append_cons hd,
            cites_append_of_noDigit hdigits, hrest]
        · have hchar : isUrlChar d = true := by simp [isUrlChar_eq, hd]
          have hurl : urlAt ('h' :: (scheme ++ d :: more)) =
              some (more.dropWhile isUrlChar) := by
            rw [urlAt, hscheme]
            simp [hchar]
          have hlen := urlAt_length hurl
          rw [withoutUrls_of_some hurl,
            List.dropWhile_cons_of_pos (by simp [hd]), ← dropWhile_isUrlChar]
          exact ih _ hlen before _ rfl

/-- The writer's exemptions and the checker's agree on every text. -/
theorem references_stripLineRefExemptions (source : Text) :
    references (stripLineRefExemptions source) = [] ↔
      firstLineReference source = none := by
  have hagree := cites_withoutPythonUrls [] (withoutFences source)
  rw [List.nil_append, List.nil_append] at hagree
  rw [references_eq_nil_iff, findReference_eq_none_iff, stripLineRefExemptions,
    firstLineReference, findReference_eq_none_iff, hagree]

end Agreement

section Pages

/-- A text without the mark of a fence. -/
def Unfenced (text : Text) : Prop :=
  ¬ backtickFence <:+: text ∧ ¬ tildeFence <:+: text

theorem delimited_eq_none {mark text : Text} (h : ¬ mark <+: text) :
    delimited mark text = none := by
  rw [delimited, stripPrefix_of_not_prefix h]
  rfl

/-- No fence starts in a line without the mark of one. -/
theorem withoutFences_append_newline {line : Text} (hline : Unfenced line)
    (rest : Text) :
    withoutFences (line ++ '\n' :: rest) = line ++ '\n' :: withoutFences rest := by
  have hnewline : '\n' ∉ backtickFence ∧ '\n' ∉ tildeFence := by decide
  have hstep (c : Char) (more : Text) (hnone : fenceAt (c :: more) = none) :
      withoutFences (c :: more) = c :: withoutFences more := by
    rw [withoutFences, hnone]
  induction line with
  | nil =>
      have hback : ¬ backtickFence <+: '\n' :: rest := by
        rintro ⟨more, hmore⟩
        exact absurd (List.cons.inj hmore).1 (by decide)
      have htilde : ¬ tildeFence <+: '\n' :: rest := by
        rintro ⟨more, hmore⟩
        exact absurd (List.cons.inj hmore).1 (by decide)
      refine hstep '\n' rest ?_
      rw [fenceAt, delimited_eq_none hback, delimited_eq_none htilde]
      rfl
  | cons c line ih =>
      have hback : ¬ backtickFence <+: (c :: line) ++ '\n' :: rest := by
        rw [prefix_append_cons_iff hnewline.1]
        exact fun hmark => hline.1 hmark.isInfix
      have htilde : ¬ tildeFence <+: (c :: line) ++ '\n' :: rest := by
        rw [prefix_append_cons_iff hnewline.2]
        exact fun hmark => hline.2 hmark.isInfix
      have hrest := ih
        ⟨fun hmark => hline.1 (hmark.trans (List.suffix_cons _ _).isInfix),
          fun hmark => hline.2 (hmark.trans (List.suffix_cons _ _).isInfix)⟩
      rw [List.cons_append] at hback htilde ⊢
      rw [hstep c _ ?_, hrest, List.cons_append]
      rw [fenceAt, delimited_eq_none hback, delimited_eq_none htilde]
      rfl

variable [Unicode]

/-- The lines before a body cite by themselves. -/
theorem firstLineReference_unlines {lines : List Text}
    (hlines : ∀ line ∈ lines, Unfenced line) (body : Text) :
    firstLineReference (unlines '\n' lines ++ body) = none ↔
      (∀ line ∈ lines, ¬ Cites (withoutUrls line)) ∧
        firstLineReference body = none := by
  have hspace : isPythonWhitespace '\n' = true := by decide
  induction lines with
  | nil => simp
  | cons line lines ih =>
      have hrest := ih fun other hother =>
        hlines other (List.mem_cons_of_mem _ hother)
      rw [firstLineReference, findReference_eq_none_iff] at hrest
      rw [unlines_cons, List.append_assoc, List.cons_append, firstLineReference,
        findReference_eq_none_iff,
        withoutFences_append_newline (hlines line List.mem_cons_self),
        withoutUrls_append_cons hspace, cites_append_cons hspace, not_or]
      refine (and_congr_right fun _ => hrest).trans ?_
      simp [and_assoc]

theorem not_cites_withoutUrls {line : Text} (hline : '.' ∉ line) :
    ¬ Cites (withoutUrls line) := by
  rintro ⟨c, d, -, -, hfound⟩
  have hmem : '.' ∈ referenceWindow c d := by
    simp [referenceWindow]
  exact hline ((withoutUrls_sublist line).subset (hfound.subset hmem))

end Pages

section Rendered

/-- A character of no line reference and of no fence. -/
def quietChar (c : Char) : Prop := c ≠ '.' ∧ c ≠ '`' ∧ c ≠ '~'

theorem quiet_of_isSlugChar {text : Text} (h : text.all isSlugChar = true) :
    ∀ c ∈ text, quietChar c := by
  intro c hc
  have hchar := List.all_eq_true.1 h c hc
  refine ⟨?_, ?_, ?_⟩
  all_goals
    rintro rfl
    revert hchar
    decide

theorem unfenced_of_quiet {text : Text} (h : ∀ c ∈ text, quietChar c) :
    Unfenced text := by
  constructor
  · intro hfound
    exact (h '`' (hfound.subset (by decide))).2.1 rfl
  · intro hfound
    exact (h '~' (hfound.subset (by decide))).2.2 rfl

theorem quiet_fieldText {key value : Text} (hkey : ∀ c ∈ key, quietChar c)
    (hvalue : ∀ c ∈ value, quietChar c) :
    ∀ c ∈ fieldText (key, value), quietChar c := by
  intro c hc
  simp only [fieldText, List.mem_append] at hc
  rcases hc with (hc | hc) | hc
  · exact hkey c hc
  · have hcolon : c = ':' ∨ c = ' ' := by simpa using hc
    rcases hcolon with rfl | rfl
    · exact ⟨by decide, by decide, by decide⟩
    · exact ⟨by decide, by decide, by decide⟩
  · exact hvalue c hc

theorem quiet_key {key : Text} (hkey : key ∈ canonicalKeys) :
    ∀ c ∈ key, quietChar c := by
  have hall : canonicalKeys.all (fun key => key.all isSlugChar) = true := by
    decide
  exact quiet_of_isSlugChar (List.all_eq_true.1 hall key hkey)

theorem unfenced_fieldText {key value : Text} (hkey : key ∈ canonicalKeys)
    (hvalue : Unfenced value) : Unfenced (fieldText (key, value)) := by
  have hstart : ∀ c ∈ key ++ ": ".toList, quietChar c := by
    have hempty : ∀ c ∈ ([] : Text), quietChar c := by simp
    have hfield := quiet_fieldText (quiet_key hkey) hempty
    rwa [fieldText, List.append_nil] at hfield
  constructor
  · intro hfound
    have hmark : backtickFence = '`' :: "``".toList := by decide
    rw [hmark] at hfound
    exact hvalue.1 (hmark ▸ (infix_append_of_not_mem fun hmem =>
      (hstart '`' hmem).2.1 rfl).1 hfound)
  · intro hfound
    have hmark : tildeFence = '~' :: "~~".toList := by decide
    rw [hmark] at hfound
    exact hvalue.2 (hmark ▸ (infix_append_of_not_mem fun hmem =>
      (hstart '~' hmem).2.2 rfl).1 hfound)

theorem unfenced_scalar {field value : Text}
    (h : validateFrontmatterScalar field value = .ok ()) : Unfenced value := by
  unfold validateFrontmatterScalar at h
  split at h
  · cases h
  split at h
  · cases h
  split at h
  · cases h
  next hback =>
  split at h
  · cases h
  next htilde =>
  constructor
  · exact fun hfound => hback (contains_iff.2 hfound)
  · exact fun hfound => htilde (contains_iff.2 hfound)

variable [Unicode]

theorem quiet_isoDate {value : Text} (h : isIsoDate value = true) :
    ∀ c ∈ value, quietChar c := by
  obtain ⟨-, hall⟩ := of_decide_eq_true h
  intro c hc
  rw [← List.zipIdx_map_fst 0 value] at hc
  obtain ⟨⟨d, index⟩, hmem, rfl⟩ := List.mem_map.1 hc
  have hd := List.all_eq_true.1 hall _ hmem
  simp only at hd
  split at hd
  · have hdash : quietChar '-' := ⟨by decide, by decide, by decide⟩
    rw [of_decide_eq_true hd]
    exact hdash
  · have hascii := fun hlow => Unicode.decimalNumber_ascii d hlow
      (of_decide_eq_true hd)
    refine ⟨?_, ?_, ?_⟩
    all_goals
      rintro rfl
      exact absurd (hascii (by decide)) (by decide)

/-- The lines of the frontmatter of a rendered page. -/
def pageLines (request : CommonRequest) (slug : Text) (owner : Owner)
    (status : Status) (updated verified : Text) : List Text :=
  frontmatterMarker ::
    (pageEntries request slug owner status updated verified).map fieldText ++
      [frontmatterMarker]

/-- Only the title and the summary of a page are not made of plain names. -/
theorem pageLines_quiet {request : CommonRequest} {slug updated verified : Text}
    (haccepted : Accepted request slug) (hupdated : ∀ c ∈ updated, quietChar c)
    (hverified : ∀ c ∈ verified, quietChar c) {owner : Owner} {status : Status} :
    ∀ line ∈ pageLines request slug owner status updated verified,
      (line = fieldText ("title".toList, request.title) ∨
        line = fieldText ("summary".toList, request.summary)) ∨
      ∀ c ∈ line, quietChar c := by
  have hslug := quiet_of_isSlugChar
    (slugChars_of_validateSlug haccepted.slugOk).2
  have htype : request.pageType.asStr.all isSlugChar = true := by
    cases request.pageType <;> decide
  have hstatus : status.asStr.all isSlugChar = true := by
    cases status <;> decide
  have howner : owner.asStr.all isSlugChar = true := by
    cases owner <;> decide
  have hmarker : ∀ c ∈ frontmatterMarker, quietChar c :=
    quiet_of_isSlugChar (by decide)
  have hplain {key value : Text} (hkey : key ∈ canonicalKeys)
      (hvalue : ∀ c ∈ value, quietChar c) :
      ∀ c ∈ fieldText (key, value), quietChar c :=
    quiet_fieldText (quiet_key hkey) hvalue
  intro line hline
  simp only [pageLines, pageEntries, List.map_cons, List.map_nil,
    List.cons_append, List.nil_append, List.mem_cons, List.not_mem_nil,
    or_false] at hline
  rcases hline with rfl | rfl | rfl | rfl | rfl | rfl | rfl | rfl | rfl | rfl
  · exact Or.inr hmarker
  · exact Or.inr (hplain (by decide) hslug)
  · exact Or.inl (Or.inl rfl)
  · exact Or.inr (hplain (by decide) (quiet_of_isSlugChar htype))
  · exact Or.inr (hplain (by decide) (quiet_of_isSlugChar hstatus))
  · exact Or.inr (hplain (by decide) (quiet_of_isSlugChar howner))
  · exact Or.inr (hplain (by decide) hupdated)
  · exact Or.inr (hplain (by decide) hverified)
  · exact Or.inl (Or.inr rfl)
  · exact Or.inr hmarker

omit [Unicode] in
theorem mem_pageLines {request : CommonRequest} {slug updated verified : Text}
    {owner : Owner} {status : Status} {entry : Text × Text}
    (h : entry ∈ pageEntries request slug owner status updated verified) :
    fieldText entry ∈ pageLines request slug owner status updated verified :=
  List.mem_cons_of_mem _
    (List.mem_append_left _ (List.mem_map.2 ⟨entry, h, rfl⟩))

theorem Accepted.unfencedLines {request : CommonRequest}
    {slug updated verified : Text} (haccepted : Accepted request slug)
    (hupdated : ∀ c ∈ updated, quietChar c)
    (hverified : ∀ c ∈ verified, quietChar c) {owner : Owner} {status : Status} :
    ∀ line ∈ pageLines request slug owner status updated verified,
      Unfenced line := by
  intro line hline
  rcases pageLines_quiet haccepted hupdated hverified line hline with
    (rfl | rfl) | hquiet
  · exact unfenced_fieldText (by decide) (unfenced_scalar haccepted.titleScalar)
  · exact unfenced_fieldText (by decide)
      (unfenced_scalar haccepted.summaryScalar)
  · exact unfenced_of_quiet hquiet

/-- The probe of the common checks speaks for every page that is rendered. -/
theorem Accepted.noReferences {request : CommonRequest}
    {slug updated verified : Text} (haccepted : Accepted request slug)
    (hupdated : isIsoDate updated = true) (hverified : isIsoDate verified = true)
    (owner : Owner) (status : Status) :
    references (stripLineRefExemptions
      (renderPage request slug owner status updated verified)) = [] := by
  have hprobeDate : ∀ c ∈ "2026-01-01".toList, quietChar c :=
    quiet_of_isSlugChar (by decide)
  have hupdatedQuiet := quiet_isoDate hupdated
  have hverifiedQuiet := quiet_isoDate hverified
  have hprobe := haccepted.noReference
  rw [renderPage_eq] at hprobe
  obtain ⟨hprobeLines, hbody⟩ := (firstLineReference_unlines
    (haccepted.unfencedLines hprobeDate hprobeDate) _).1 hprobe
  rw [references_stripLineRefExemptions, renderPage_eq]
  refine (firstLineReference_unlines
    (haccepted.unfencedLines hupdatedQuiet hverifiedQuiet) _).2 ⟨?_, hbody⟩
  intro line hline
  rcases pageLines_quiet haccepted hupdatedQuiet hverifiedQuiet line hline with
    (rfl | rfl) | hquiet
  · exact hprobeLines _ (mem_pageLines (by simp [pageEntries]))
  · exact hprobeLines _ (mem_pageLines (by simp [pageEntries]))
  · exact not_cites_withoutUrls fun hmem => (hquiet '.' hmem).1 rfl

end Rendered

end Yams.Wiki
