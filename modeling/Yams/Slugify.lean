/-
The slug of a title: the words of the folded title, joined by hyphens and cut
at a hyphen.  It is a slug again, and a title with other letter cases, marks or
separators has the same one.
-/
import Yams.Snippet
import Yams.WikiPageRoundtrip
import Yams.Words

namespace Yams.Wiki

open Words

/-! The characters of a slug besides its hyphens. -/

def isSlugLetter (c : Char) : Bool := isAsciiLowercase c || isAsciiDigit c

theorem isSlugLetter_hyphen : isSlugLetter '-' = false := by decide

theorem isSlugLetter_iff {c : Char} :
    isSlugLetter c = true ↔ isAsciiLowercase c = true ∨ isAsciiDigit c = true := by
  rw [isSlugLetter, Bool.or_eq_true]

theorem isSlugChar_of_letter {c : Char} (hc : isSlugLetter c = true) :
    isSlugChar c = true := by
  rw [isSlugLetter_iff, isAsciiLowercase, isAsciiDigit, decide_eq_true_eq,
    decide_eq_true_eq] at hc
  exact decide_eq_true (hc.imp_right .inl)

/-- Slug characters are not capital. -/
theorem toLower_slugChar {c : Char} (hc : isSlugChar c = true) : c.toLower = c := by
  unfold Char.toLower
  rw [dif_neg]
  rintro ⟨hlow, hhigh⟩
  have hfirst : 65 ≤ c.toNat := hlow
  have hlast : c.toNat ≤ 90 := hhigh
  rcases of_decide_eq_true hc with ⟨hletter, -⟩ | ⟨-, hdigit⟩ | rfl
  · have hbound : 97 ≤ c.toNat := hletter
    omega
  · have hbound : c.toNat ≤ 57 := hdigit
    omega
  · exact absurd hfirst (by decide)

/-- A slug letter is no separator, whatever is pending. -/
theorem slugChars_letter {c : Char} (hc : isSlugLetter c = true) (slug text : Text)
    (pending : Bool) :
    slugChars slug pending (c :: text) =
      slugChars ((if pending ∧ slug ≠ [] then slug ++ ['-'] else slug) ++ [c]) false text := by
  rw [slugChars, if_pos (isSlugLetter_iff.1 hc)]

theorem slugChars_separator {c : Char} (hc : isSlugLetter c = false) (slug text : Text)
    (pending : Bool) : slugChars slug pending (c :: text) = slugChars slug true text := by
  have hnot : ¬ (isAsciiLowercase c = true ∨ isAsciiDigit c = true) := by
    rw [← isSlugLetter_iff, hc]
    exact Bool.false_ne_true
  rw [slugChars, if_neg hnot]

/-- The words of some parts, each behind its hyphen. -/
def behind (parts : List Text) : Text :=
  (parts.filter fun run => !run.isEmpty).flatMap ('-' :: ·)

/-- The rest of a folded title, behind a slug that has begun: its first part goes on with
the word of the slug, unless a separator is pending. -/
theorem slugChars_begun {text first : Text} {rest : List Text}
    (hsplit : (text.splitOnP fun c => !isSlugLetter c) = first :: rest) {slug : Text}
    (hslug : slug ≠ []) :
    slugChars slug false text = slug ++ first ++ behind rest ∧
      slugChars slug true text = slug ++ behind (first :: rest) := by
  induction text generalizing slug first rest with
  | nil =>
      obtain ⟨rfl, rfl⟩ : first = [] ∧ rest = [] := by simpa using hsplit.symm
      exact ⟨by simp [slugChars, behind], by simp [slugChars, behind]⟩
  | cons c text ih =>
      obtain ⟨next, later, hnext⟩ := List.exists_cons_of_ne_nil
        (List.splitOnP_ne_nil (fun c => !isSlugLetter c) text)
      rw [List.splitOnP_cons_eq_if_modifyHead, hnext] at hsplit
      cases hc : isSlugLetter c with
      | true =>
          rw [hc, Bool.not_true, if_neg Bool.false_ne_true, List.modifyHead_cons] at hsplit
          obtain ⟨rfl, rfl⟩ := List.cons.inj hsplit
          rw [slugChars_letter hc, slugChars_letter hc,
            (ih hnext (List.append_ne_nil_of_right_ne_nil _ (List.cons_ne_nil c []))).1,
            (ih hnext (List.append_ne_nil_of_right_ne_nil _ (List.cons_ne_nil c []))).1]
          exact ⟨by simp, by simp [hslug, behind]⟩
      | false =>
          rw [hc, Bool.not_false, if_pos rfl] at hsplit
          obtain ⟨rfl, rfl⟩ := List.cons.inj hsplit
          rw [slugChars_separator hc, slugChars_separator hc, (ih hnext hslug).2]
          exact ⟨by simp, by simp [behind]⟩

/-- The slug of a folded title, before it is cut. -/
theorem slugChars_eq (text : Text) (pending : Bool) :
    slugChars [] pending text = ['-'].intercalate (runs isSlugLetter text) := by
  induction text generalizing pending with
  | nil => rw [runs_nil]; rfl
  | cons c text ih =>
      cases hc : isSlugLetter c with
      | true =>
          obtain ⟨first, rest, hfirst⟩ := List.exists_cons_of_ne_nil
            (List.splitOnP_ne_nil (fun c => !isSlugLetter c) text)
          have hruns : runs isSlugLetter (c :: text) =
              (c :: first) :: rest.filter fun run => !run.isEmpty := by
            rw [runs, List.splitOnP_cons_eq_if_modifyHead, hc, hfirst]
            simp
          rw [slugChars_letter hc, hruns, joined_cons, if_neg (by simp), List.nil_append,
            (slugChars_begun hfirst (List.cons_ne_nil c [])).1]
          rfl
      | false =>
          rw [slugChars_separator hc, ih, runs_cons_separator hc]

/-! The cut at the longest slug. -/

/-- A slug is the whole text, or it ends at the last hyphen within the bound, or it is what
the bound lets through of the first word. -/
inductive Cut (full : Text) : Text → Prop
  | whole (hshort : full.length ≤ slugMaxBytes) : Cut full full
  | hyphen {slug word rest : Text} (hlong : slugMaxBytes < full.length)
      (hfull : full = slug ++ '-' :: (word ++ rest)) (hword : '-' ∉ word)
      (hbound : slug.length + 1 + word.length = slugMaxBytes) : Cut full slug
  | word (hlong : slugMaxBytes < full.length) (hword : '-' ∉ full.take slugMaxBytes) :
      Cut full (full.take slugMaxBytes)

theorem cut_at_last {before after : Text} (hafter : '-' ∉ after) :
    (((before ++ '-' :: after).reverse.dropWhile (· ≠ '-')).drop 1).reverse = before := by
  have hreverse : ∀ c ∈ after.reverse, decide (c ≠ '-') = true := by
    intro c hc
    apply decide_eq_true
    rintro rfl
    exact hafter (List.mem_reverse.1 hc)
  rw [List.reverse_append, List.reverse_cons, List.append_assoc, List.dropWhile_append_of_pos
    hreverse]
  simp

theorem truncateSlug_cut (full : Text) : Cut full (truncateSlug full) := by
  unfold truncateSlug
  by_cases hlong : full.length > slugMaxBytes
  · rw [if_pos hlong]
    by_cases hmem : '-' ∈ full.take slugMaxBytes
    · obtain ⟨after, before, hreverse, hafter⟩ :=
        List.eq_append_cons_of_mem (List.mem_reverse.2 hmem)
      have htake : full.take slugMaxBytes = before.reverse ++ '-' :: after.reverse := by
        rw [← List.reverse_reverse (full.take slugMaxBytes), hreverse]
        simp
      have hafter' : '-' ∉ after.reverse := fun h => hafter (List.mem_reverse.1 h)
      simp only
      rw [if_pos hmem, htake, cut_at_last hafter']
      have hfull : full = before.reverse ++ '-' :: (after.reverse ++ full.drop slugMaxBytes) := by
        rw [← List.cons_append, ← List.append_assoc, ← htake, List.take_append_drop]
      have hlength := congrArg List.length htake
      rw [List.length_take, Nat.min_eq_left (Nat.le_of_lt hlong), List.length_append,
        List.length_cons] at hlength
      exact .hyphen hlong hfull hafter' (by omega)
    · simp only
      rw [if_neg hmem]
      exact .word hlong hmem
  · rw [if_neg hlong]
    exact .whole (Nat.not_lt.1 hlong)

theorem Cut.length_le {full slug : Text} (h : Cut full slug) : slug.length ≤ slugMaxBytes := by
  cases h with
  | whole hshort => exact hshort
  | hyphen hlong hfull hword hbound => omega
  | word hlong hword => exact List.length_take_le slugMaxBytes full

/-- Slug words: there is one, and all of them are words. -/
structure SlugWords (words : List Text) : Prop where
  ne_nil : words ≠ []
  word : ∀ word ∈ words, IsWord isSlugLetter word

theorem slugWords_runs {text : Text} (hne : runs isSlugLetter text ≠ []) :
    SlugWords (runs isSlugLetter text) :=
  ⟨hne, fun _ => isWord_of_mem_runs⟩

/-- The cut leaves words joined by hyphens. -/
theorem Cut.words {words : List Text} (hwords : SlugWords words) {slug : Text}
    (h : Cut (['-'].intercalate words) slug) :
    ∃ kept, SlugWords kept ∧ slug = ['-'].intercalate kept := by
  generalize hfull : ['-'].intercalate words = full at h
  cases h with
  | whole hshort => exact ⟨words, hwords, hfull.symm⟩
  | hyphen hlong hcut hword hbound =>
      rw [hcut] at hfull
      obtain ⟨first, rest, rfl, hfirst, -, hslug, -⟩ :=
        joined_cut isSlugLetter_hyphen hwords.word hfull
      exact ⟨first, ⟨hfirst, fun w hw => hwords.word w (List.mem_append_left _ hw)⟩, hslug⟩
  | word hlong hword =>
      refine ⟨[full.take slugMaxBytes], ⟨List.cons_ne_nil _ _, ?_⟩,
        List.intercalate_singleton.symm⟩
      intro w hw
      rw [List.mem_singleton.1 hw]
      refine ⟨?_, ?_⟩
      · intro hnil
        have hlength := congrArg List.length hnil
        rw [List.length_take, Nat.min_eq_left (Nat.le_of_lt hlong)] at hlength
        cases hlength
      · intro c hc
        rw [← hfull] at hc hword
        rcases mem_joined hwords.word (List.mem_of_mem_take hc) with rfl | hletter
        · exact absurd hc hword
        · exact hletter

theorem SlugWords.slugChars {words : List Text} (hwords : SlugWords words) :
    (['-'].intercalate words).all isSlugChar = true := by
  rw [List.all_eq_true]
  intro c hc
  rcases mem_joined hwords.word hc with rfl | hletter
  · decide
  · exact isSlugChar_of_letter hletter

/-- The characters of a slug have one byte each. -/
theorem byteLength_slugChars {text : Text} (hall : text.all isSlugChar = true) :
    text.byteLength = text.length := by
  induction text with
  | nil => rfl
  | cons c text ih =>
      rw [List.all_cons, Bool.and_eq_true] at hall
      have hrange := isSlugChar_toNat hall.1
      have hsize : c.utf8Size = 1 := by
        rw [Char.utf8Size_eq_one_iff, UInt32.le_iff_toNat_le]
        change c.toNat ≤ 127
        omega
      rw [Text.byteLength_cons, hsize, ih hall.2, List.length_cons, Nat.add_comm]

/-- Words joined within the bound are a slug, and end with a letter. -/
theorem SlugWords.valid {words : List Text} (hwords : SlugWords words)
    (hshort : (['-'].intercalate words).length ≤ slugMaxBytes) :
    validateSlug (['-'].intercalate words) = .ok () := by
  rw [validateSlug, if_neg (joined_ne_nil hwords.word hwords.ne_nil),
    byteLength_slugChars hwords.slugChars, if_neg (Nat.not_lt.2 hshort),
    if_pos hwords.slugChars]

theorem SlugWords.trimmed {words : List Text} (hwords : SlugWords words) :
    ((['-'].intercalate words).reverse.dropWhile (· = '-')).reverse =
      ['-'].intercalate words := by
  have hlast := joined_ne_append_separator isSlugLetter_hyphen hwords.word
  generalize ['-'].intercalate words = slug at hlast
  rcases List.eq_nil_or_concat' slug with rfl | ⟨before, c, rfl⟩
  · rfl
  · have hc : decide (c = '-') ≠ true := fun h => hlast before (by rw [of_decide_eq_true h])
    rw [List.reverse_append, List.reverse_singleton, List.singleton_append,
      List.dropWhile_cons, if_neg hc, List.reverse_cons, List.reverse_reverse]

section Titles

variable [Unicode]

/-- The title that is read for its letters. -/
def foldedTitle (title : Text) : Text :=
  (Unicode.caseFold (Unicode.nfkd title)).filter fun c =>
    Unicode.canonicalCombiningClass c = 0

/-- The words of a title. -/
def titleWords (title : Text) : List Text := runs isSlugLetter (foldedTitle title)

/-- The slug of a title before it is cut. -/
def untruncated (title : Text) : Text := ['-'].intercalate (titleWords title)

theorem slugify_of_no_words {title : Text} (hwords : titleWords title = []) :
    slugify title = .error ⟨"title produces an empty slug".toList⟩ := by
  have huncut : slugChars [] false (foldedTitle title) = [] := by
    rw [slugChars_eq]
    exact congrArg (['-'].intercalate ·) hwords
  unfold foldedTitle at huncut
  unfold slugify
  simp only
  rw [huncut]
  rfl

/-- A title with words has a slug, which is cut from them and made of words. -/
theorem slugify_of_words {title : Text} (hne : titleWords title ≠ []) :
    ∃ words, SlugWords words ∧ slugify title = .ok (['-'].intercalate words) ∧
      (['-'].intercalate words).length ≤ slugMaxBytes ∧
      Cut (untruncated title) (['-'].intercalate words) := by
  have hcut := truncateSlug_cut (untruncated title)
  obtain ⟨words, hwords, htruncated⟩ := hcut.words (slugWords_runs hne)
  rw [htruncated] at hcut
  refine ⟨words, hwords, ?_, hcut.length_le, hcut⟩
  rw [untruncated, titleWords, ← slugChars_eq _ false, foldedTitle] at htruncated
  unfold slugify
  simp only
  rw [htruncated, hwords.trimmed, hwords.valid hcut.length_le]

/-! The tables of the Unicode standard. -/

/-- The second text is the first with neighbouring marks exchanged. -/
inductive Reordered (text : Text) : Text → Prop
  | refl : Reordered text text
  | swap {before after : Text} {mark other : Char}
      (hmark : Unicode.canonicalCombiningClass mark ≠ 0)
      (hother : Unicode.canonicalCombiningClass other ≠ 0)
      (h : Reordered text (before ++ mark :: other :: after)) :
      Reordered text (before ++ other :: mark :: after)

/-- What the standard says about normalisation and case folding: a text is normalised by
decomposing its characters and then ordering the marks, and folded character by character.
Neither changes an ASCII character but for its case, no mark folds to anything but the Greek
iota, and to fold a character first changes nothing about its folded decomposition. -/
structure UnicodeTables (decompose fold : Char → Text) : Prop where
  nfkd : ∀ text : Text, Reordered (text.flatMap decompose) (Unicode.nfkd text)
  caseFold : ∀ text : Text, Unicode.caseFold text = text.flatMap fold
  decompose_ascii : ∀ c : Char, c.toNat < 0x80 → decompose c = [c]
  fold_ascii : ∀ c : Char, c.toNat < 0x80 → fold c = [c.toLower]
  class_ascii : ∀ c : Char, c.toNat < 0x80 → Unicode.canonicalCombiningClass c = 0
  fold_mark : ∀ c : Char, Unicode.canonicalCombiningClass c ≠ 0 →
    fold c = [c] ∨ fold c = ['\u03b9']
  fold_decompose : ∀ c : Char,
    (fold c).flatMap (fun d => (decompose d).flatMap fold) = (decompose c).flatMap fold

/-- What is left of a folded text. -/
def starters (text : Text) : Text :=
  text.filter fun c => Unicode.canonicalCombiningClass c = 0

theorem starters_append (text other : Text) :
    starters (text ++ other) = starters text ++ starters other :=
  List.filter_append _ _

theorem starters_flatMap (text : Text) (f : Char → Text) :
    starters (text.flatMap f) = text.flatMap fun c => starters (f c) :=
  List.filter_flatMap

section Tables

variable {decompose fold : Char → Text} (tables : UnicodeTables decompose fold)

include tables

theorem starters_fold_mark {mark : Char} (hmark : Unicode.canonicalCombiningClass mark ≠ 0) :
    starters (fold mark) = [] ∨ starters (fold mark) = starters ['\u03b9'] := by
  rcases tables.fold_mark mark hmark with hfold | hfold
  · left
    rw [hfold]
    exact List.filter_cons_of_neg (by simpa using hmark)
  · right
    rw [hfold]

/-- The order of the marks does not show behind folding. -/
theorem starters_fold_reordered {text other : Text} (h : Reordered text other) :
    starters (other.flatMap fold) = starters (text.flatMap fold) := by
  induction h with
  | refl => rfl
  | swap hmark hother _ ih =>
      rw [← ih]
      simp only [List.flatMap_append, List.flatMap_cons, starters_append]
      rw [← List.append_assoc (starters (fold _)), ← List.append_assoc (starters (fold _))]
      rcases starters_fold_mark tables hmark with hfirst | hfirst <;>
        rcases starters_fold_mark tables hother with hsecond | hsecond <;>
        rw [hfirst, hsecond] <;> simp

/-- What one character of a title contributes to its slug. -/
def contribution (decompose fold : Char → Text) (c : Char) : Text :=
  starters ((decompose c).flatMap fold)

theorem foldedTitle_eq (title : Text) :
    foldedTitle title = title.flatMap (contribution decompose fold) := by
  have hfolded : foldedTitle title = starters ((Unicode.nfkd title).flatMap fold) := by
    rw [foldedTitle, tables.caseFold]
    rfl
  rw [hfolded, starters_fold_reordered tables (tables.nfkd title), List.flatMap_assoc,
    starters_flatMap]
  rfl

/-! What does not change a slug. -/

theorem foldedTitle_caseFold (title : Text) :
    foldedTitle (Unicode.caseFold title) = foldedTitle title := by
  have hfold (c : Char) : (fold c).flatMap (contribution decompose fold) =
      contribution decompose fold c := by
    have hclosed := congrArg starters (tables.fold_decompose c)
    rw [starters_flatMap] at hclosed
    exact hclosed
  rw [foldedTitle_eq tables, foldedTitle_eq tables, tables.caseFold, List.flatMap_assoc]
  simp only [hfold]

end Tables

/-- A mark that folding leaves as it is. -/
def IsMark (c : Char) : Prop :=
  Unicode.canonicalCombiningClass c ≠ 0 ∧ Unicode.caseFold [c] = [c]

instance (c : Char) : Decidable (IsMark c) := inferInstanceAs (Decidable (_ ∧ _))

def withoutMarks (text : Text) : Text := text.filter fun c => ¬ IsMark c

/-- A character that becomes no letter or digit of a slug, nor a mark alone. -/
def IsSeparator (c : Char) : Prop :=
  foldedTitle [c] ≠ [] ∧ ∀ d ∈ foldedTitle [c], isSlugLetter d = false

instance (c : Char) : Decidable (IsSeparator c) :=
  decidable_of_iff (foldedTitle [c] ≠ [] ∧ (foldedTitle [c]).all (fun d => !isSlugLetter d) = true)
    (by simp [IsSeparator])

/-- What parts two words of a title. -/
def IsGap (text : Text) : Prop := text ≠ [] ∧ ∀ c ∈ text, IsSeparator c

instance (text : Text) : Decidable (IsGap text) :=
  decidable_of_iff (text ≠ [] ∧ (text.all fun c => decide (IsSeparator c)) = true)
    (by simp [IsGap])

/-- Titles that differ in the case of their letters, in the marks of their normal forms, or
in what parts their words. -/
inductive Alike (title : Text) : Text → Prop
  | refl : Alike title title
  | case {other another : Text} (h : Alike title other)
      (hcase : Unicode.caseFold another = Unicode.caseFold other) : Alike title another
  | marks {other another : Text} (h : Alike title other)
      (hmarks : withoutMarks (Unicode.nfkd another) = withoutMarks (Unicode.nfkd other)) :
      Alike title another
  | separators {before gap other after : Text} (h : Alike title (before ++ gap ++ after))
      (hgap : IsGap gap) (hother : IsGap other) : Alike title (before ++ other ++ after)

section Tables

variable {decompose fold : Char → Text} (tables : UnicodeTables decompose fold)

include tables

theorem titleWords_gap {gap : Text} (hgap : IsGap gap) (before after : Text) :
    titleWords (before ++ gap ++ after) = titleWords before ++ titleWords after := by
  have happend (text other : Text) :
      foldedTitle (text ++ other) = foldedTitle text ++ foldedTitle other := by
    simp only [foldedTitle_eq tables, List.flatMap_append]
  have hparts : foldedTitle gap = gap.flatMap fun c => foldedTitle [c] := by
    simp only [foldedTitle_eq tables, List.flatMap_singleton]
  have hnone : ∀ d ∈ foldedTitle gap, isSlugLetter d = false := by
    intro d hd
    rw [hparts] at hd
    obtain ⟨c, hc, hd⟩ := List.mem_flatMap.1 hd
    exact (hgap.2 c hc).2 d hd
  have hne : foldedTitle gap ≠ [] := by
    intro hnil
    rw [hparts, List.flatMap_eq_nil_iff] at hnil
    obtain ⟨c, hc⟩ := List.exists_mem_of_ne_nil gap hgap.1
    exact (hgap.2 c hc).1 (hnil c hc)
  rw [titleWords, happend, happend, runs_gap hnone hne]
  rfl

theorem foldedTitle_marks (title : Text) :
    foldedTitle title = starters ((withoutMarks (Unicode.nfkd title)).flatMap fold) := by
  have hmark (c : Char) (hc : IsMark c) : starters (fold c) = [] := by
    have hfold := tables.caseFold [c]
    rw [hc.2, List.flatMap_singleton] at hfold
    rw [← hfold]
    exact List.filter_cons_of_neg (by simpa using hc.1)
  have hdrop (text : Text) : starters (text.flatMap fold) =
      starters ((withoutMarks text).flatMap fold) := by
    induction text with
    | nil => rfl
    | cons c text ih =>
        rw [List.flatMap_cons, starters_append, ih]
        by_cases hc : IsMark c
        · have hcons : withoutMarks (c :: text) = withoutMarks text :=
            List.filter_cons_of_neg (by simpa using hc)
          rw [hmark c hc, hcons]
          rfl
        · have hcons : withoutMarks (c :: text) = c :: withoutMarks text :=
            List.filter_cons_of_pos (by simpa using hc)
          rw [hcons, List.flatMap_cons, starters_append]
  rw [← hdrop, foldedTitle, tables.caseFold]
  rfl

theorem Alike.titleWords {title other : Text} (h : Alike title other) :
    titleWords other = titleWords title := by
  induction h with
  | refl => rfl
  | case _ hcase ih =>
      rw [← ih, Wiki.titleWords, ← foldedTitle_caseFold tables, hcase,
        foldedTitle_caseFold tables]
      rfl
  | marks _ hmarks ih =>
      rw [← ih, Wiki.titleWords, foldedTitle_marks tables, hmarks, ← foldedTitle_marks tables]
      rfl
  | separators _ hgap hother ih =>
      rw [← ih, titleWords_gap tables hgap, titleWords_gap tables hother]

end Tables

/-- Only the words of a title matter. -/
theorem slugify_congr {title other : Text} (hwords : titleWords other = titleWords title) :
    slugify other = slugify title := by
  have hslug : slugChars [] false (foldedTitle other) =
      slugChars [] false (foldedTitle title) := by
    rw [slugChars_eq, slugChars_eq]
    exact congrArg (['-'].intercalate ·) hwords
  unfold foldedTitle at hslug
  unfold slugify
  simp only
  rw [hslug]

/-- What a slug is. -/
structure Derived (title slug : Text) : Prop where
  valid : validateSlug slug = .ok ()
  short : slug.byteLength ≤ slugMaxBytes
  unled : ∀ rest, slug ≠ '-' :: rest
  untrailed : ∀ rest, slug ≠ rest ++ ['-']
  undoubled : ∀ before after, slug ≠ before ++ '-' :: '-' :: after
  fixed : slugify slug = .ok slug
  cut : Cut (untruncated title) slug

section Tables

variable {decompose fold : Char → Text} (tables : UnicodeTables decompose fold)

include tables

/-- A text of slug characters is read as it is. -/
theorem foldedTitle_slugChars {text : Text} (hall : text.all isSlugChar = true) :
    foldedTitle text = text := by
  rw [foldedTitle_eq tables]
  induction text with
  | nil => rfl
  | cons c text ih =>
      rw [List.all_cons, Bool.and_eq_true] at hall
      have hrange := isSlugChar_toNat hall.1
      have hascii : c.toNat < 0x80 := by omega
      have hc : contribution decompose fold c = [c] := by
        rw [contribution, tables.decompose_ascii c hascii, List.flatMap_singleton,
          tables.fold_ascii c hascii, toLower_slugChar hall.1]
        exact List.filter_cons_of_pos (by simpa using tables.class_ascii c hascii)
      rw [List.flatMap_cons, hc, ih hall.2]
      rfl

theorem slugify_joined {words : List Text} (hwords : SlugWords words)
    (hshort : (['-'].intercalate words).length ≤ slugMaxBytes) :
    slugify (['-'].intercalate words) = .ok (['-'].intercalate words) := by
  have hruns : titleWords (['-'].intercalate words) = words := by
    rw [titleWords, foldedTitle_slugChars tables hwords.slugChars]
    exact runs_joined isSlugLetter_hyphen hwords.word
  obtain ⟨kept, -, hslug, -, hcut⟩ := slugify_of_words (hruns ▸ hwords.ne_nil)
  rw [untruncated, hruns] at hcut
  generalize ['-'].intercalate kept = slug at hslug hcut
  cases hcut with
  | whole _ => exact hslug
  | hyphen hlong _ _ _ => exact absurd hshort (Nat.not_le.2 hlong)
  | word hlong _ => exact absurd hshort (Nat.not_le.2 hlong)

theorem slugify_derived {title slug : Text} (h : slugify title = .ok slug) :
    Derived title slug := by
  have hne : titleWords title ≠ [] := by
    intro hnil
    rw [slugify_of_no_words hnil] at h
    cases h
  obtain ⟨words, hwords, hslug, hshort, hcut⟩ := slugify_of_words hne
  rw [hslug] at h
  obtain rfl := Except.ok.inj h
  exact
    { valid := hwords.valid hshort
      short := by rwa [byteLength_slugChars hwords.slugChars]
      unled := joined_ne_separator_cons isSlugLetter_hyphen hwords.word
      untrailed := joined_ne_append_separator isSlugLetter_hyphen hwords.word
      undoubled := joined_ne_doubled isSlugLetter_hyphen hwords.word
      fixed := slugify_joined tables hwords hshort
      cut := hcut }

/-- A slug is short, well formed, its own slug, and the words of its title cut at a hyphen;
only a title without words has none; and titles that differ in letter case, in marks or in
separators have the same. -/
theorem slugify_derives :
    (∀ title slug, slugify title = .ok slug → Derived title slug) ∧
      (∀ title e, slugify title = .error e →
        titleWords title = [] ∧ e = ⟨"title produces an empty slug".toList⟩) ∧
      ∀ title other, Alike title other → slugify other = slugify title := by
  refine ⟨fun _ _ => slugify_derived tables, ?_, ?_⟩
  · intro title e h
    by_cases hwords : titleWords title = []
    · rw [slugify_of_no_words hwords] at h
      exact ⟨hwords, (Except.error.inj h).symm⟩
    · obtain ⟨_, _, hslug, _⟩ := slugify_of_words hwords
      rw [hslug] at h
      cases h
  · intro title other halike
    exact slugify_congr (halike.titleWords tables)

end Tables

end Titles

namespace SlugifySample

/-- A few characters of the tables: one with an accent, one that folds to two, two marks
with a class, and one without. -/
def decompose (c : Char) : Text := if c = 'é' then ['e', '\u0301'] else [c]

def fold (c : Char) : Text :=
  if c = 'ß' then ['s', 's'] else if c = '\u0345' then ['\u03b9'] else [c.toLower]

abbrev unicode : Unicode where
  nfkd text := text.flatMap decompose
  caseFold text := text.flatMap fold
  canonicalCombiningClass c := if c = '\u0301' then 230 else if c = '\u0345' then 240 else 0
  generalCategory c :=
    if c = '\u0301' ∨ c = '\u0345' then .nonspacingMark
    else if c = '\u0903' then .spacingMark
    else Unicode.ascii.generalCategory c
  isGraphemeExtended _ := false
  isPrintable := Unicode.ascii.isPrintable
  decimalNumber_ascii := by
    intro c hascii hc
    split_ifs at hc
    exact Unicode.ascii.decimalNumber_ascii c hascii hc
  decimalNumber_visible := by
    intro c hc
    split_ifs at hc
    exact Unicode.ascii.decimalNumber_visible c hc

local instance : Unicode := unicode

/-- A character is in small letters, or is an ASCII one and so is its small letter. -/
theorem toLower_cases (c : Char) :
    c.toLower = c ∨ (c.toNat < 0x80 ∧ c.toLower.toNat < 0x80) := by
  unfold Char.toLower
  split
  next hupper =>
    right
    simp only [ge_iff_le, UInt32.le_iff_toNat_le] at hupper
    refine ⟨Nat.lt_of_le_of_lt hupper.2 (by decide), ?_⟩
    change (c.val + 32).toNat < 0x80
    have hlast : c.val.toNat ≤ 90 := hupper.2
    have hstep : (32 : UInt32).toNat = 32 := rfl
    rw [UInt32.toNat_add, hstep, Nat.mod_eq_of_lt (by omega)]
    omega
  · exact .inl rfl

theorem decompose_ascii {c : Char} (hc : c.toNat < 0x80) : decompose c = [c] :=
  if_neg (by rintro rfl; revert hc; decide)

theorem fold_ascii {c : Char} (hc : c.toNat < 0x80) : fold c = [c.toLower] := by
  rw [fold, if_neg (by rintro rfl; revert hc; decide), if_neg (by rintro rfl; revert hc; decide)]

theorem unicode_tables : UnicodeTables decompose fold where
  nfkd text := .refl
  caseFold text := rfl
  decompose_ascii c := decompose_ascii
  fold_ascii c := fold_ascii
  class_ascii c hc := by
    change (if c = '\u0301' then 230 else if c = '\u0345' then 240 else 0) = 0
    rw [if_neg (by rintro rfl; revert hc; decide), if_neg (by rintro rfl; revert hc; decide)]
  fold_mark c hc := by
    change (if c = '\u0301' then 230 else if c = '\u0345' then 240 else 0) ≠ 0 at hc
    split_ifs at hc with hacute hiota
    · exact .inl (by rw [hacute]; decide)
    · exact .inr (by rw [hiota]; decide)
    · exact absurd rfl hc
  fold_decompose c := by
    by_cases hsharp : c = 'ß'
    · rw [hsharp]
      decide
    by_cases hiota : c = '\u0345'
    · rw [hiota]
      decide
    rw [show fold c = [c.toLower] by rw [fold, if_neg hsharp, if_neg hiota],
      List.flatMap_singleton]
    rcases toLower_cases c with hsame | ⟨hascii, hlower⟩
    · rw [hsame]
    · rw [decompose_ascii hascii, decompose_ascii hlower, List.flatMap_singleton,
        List.flatMap_singleton, fold_ascii hascii, fold_ascii hlower, Search.toLower_toLower]

/-- The general categories of combining marks. -/
def isCombiningMark (c : Char) : Bool :=
  Unicode.generalCategory c = .nonspacingMark ∨ Unicode.generalCategory c = .spacingMark ∨
    Unicode.generalCategory c = .enclosingMark

/-- A mark without a combining class parts words. -/
theorem spacing_mark_parts_words :
    UnicodeTables decompose fold ∧
      ¬ ∀ title other : Text, (title.filter fun c => !isCombiningMark c) =
        (other.filter fun c => !isCombiningMark c) → slugify title = slugify other := by
  refine ⟨unicode_tables, ?_⟩
  intro hclaim
  have hsame := hclaim ['a', '\u0903', 'b'] ['a', 'b'] (by decide)
  have hparted : slugify ['a', '\u0903', 'b'] = .ok ['a', '-', 'b'] := by decide
  have hplain : slugify ['a', 'b'] = .ok ['a', 'b'] := by decide
  rw [hparted, hplain] at hsame
  exact absurd hsame (by decide)

/-- One title in three spellings, and one without a word. -/
theorem slugify_derives_cafe :
    Derived "Café Straße".toList "cafe-strasse".toList ∧
      slugify ("CAFE\u0301".toList ++ " -- ".toList ++ "STRASSE".toList) =
        slugify "Café Straße".toList ∧
      titleWords "--".toList = [] := by
  have hlaws := slugify_derives unicode_tables
  refine ⟨hlaws.1 _ _ (by decide), hlaws.2.2 _ _ ?_, (hlaws.2.1 "--".toList
    ⟨"title produces an empty slug".toList⟩ (by decide)).1⟩
  have hplain : Alike "Café Straße".toList "Cafe Straße".toList :=
    .marks .refl (by decide)
  have hcase : Alike "Café Straße".toList "CAFE STRASSE".toList :=
    .case hplain (by decide)
  have hmarks : Alike "Café Straße".toList
      ("CAFE\u0301".toList ++ " ".toList ++ "STRASSE".toList) :=
    .marks hcase (by decide)
  exact .separators hmarks (by decide) (by decide)

end SlugifySample

end Yams.Wiki
