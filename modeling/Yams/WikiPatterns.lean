/-
The constant regular expressions of the wiki, each as the function that reads
its leftmost match, and the Unicode tables that the wiki takes from libraries.
-/
import Yams.Occurrence
import Yams.Text

namespace Yams.Wiki

/-- The general categories of the Unicode standard. -/
inductive GeneralCategory
  | uppercaseLetter
  | lowercaseLetter
  | titlecaseLetter
  | modifierLetter
  | otherLetter
  | nonspacingMark
  | spacingMark
  | enclosingMark
  | decimalNumber
  | letterNumber
  | otherNumber
  | connectorPunctuation
  | dashPunctuation
  | openPunctuation
  | closePunctuation
  | initialPunctuation
  | finalPunctuation
  | otherPunctuation
  | mathSymbol
  | currencySymbol
  | modifierSymbol
  | otherSymbol
  | spaceSeparator
  | lineSeparator
  | paragraphSeparator
  | control
  | format
  | surrogate
  | privateUse
  | unassigned
  deriving DecidableEq

/-- The character tables of the Unicode standard, with what the standard fixes
about decimal numbers: among the ASCII characters they are the ten digits, and
white space is none of them. -/
class Unicode where
  nfkd : Text → Text
  caseFold : Text → Text
  canonicalCombiningClass : Char → Nat
  generalCategory : Char → GeneralCategory
  isGraphemeExtended : Char → Bool
  isPrintable : Char → Bool
  decimalNumber_ascii : ∀ c : Char, c.toNat < 0x80 →
    generalCategory c = .decimalNumber → '0' ≤ c ∧ c ≤ '9'
  decimalNumber_visible : ∀ c : Char,
    generalCategory c = .decimalNumber → Text.isWhitespace c = false

/-- The tables on ASCII texts. -/
abbrev Unicode.ascii : Unicode where
  nfkd := id
  caseFold text := text.map Char.toLower
  canonicalCombiningClass _ := 0
  generalCategory c :=
    if '0' ≤ c ∧ c ≤ '9' then .decimalNumber
    else if 'a' ≤ c ∧ c ≤ 'z' then .lowercaseLetter
    else if 'A' ≤ c ∧ c ≤ 'Z' then .uppercaseLetter
    else if c = ' ' then .spaceSeparator
    else if c.toNat < 0x20 then .control
    else .otherPunctuation
  isGraphemeExtended _ := false
  isPrintable c := 0x20 ≤ c.toNat ∧ c.toNat < 0x7f
  decimalNumber_ascii := by
    intro c _ hc
    by_cases hdigit : '0' ≤ c ∧ c ≤ '9'
    · exact hdigit
    · rw [if_neg hdigit] at hc
      revert hc
      split_ifs <;> simp
  decimalNumber_visible := by
    intro c hc
    by_cases hdigit : '0' ≤ c ∧ c ≤ '9'
    · have hlow : 0x30 ≤ c.toNat := hdigit.1
      have hhigh : c.toNat ≤ 0x39 := hdigit.2
      exact decide_eq_false (by omega)
    · rw [if_neg hdigit] at hc
      revert hc
      split_ifs <;> simp

variable [Unicode]

omit [Unicode] in
theorem stripPrefix_append (mark rest : Text) :
    Text.stripPrefix mark (mark ++ rest) = some rest := by
  simp [Text.stripPrefix]

omit [Unicode] in
theorem stripPrefix_eq_some {mark text rest : Text}
    (h : Text.stripPrefix mark text = some rest) : text = mark ++ rest := by
  unfold Text.stripPrefix at h
  split at h
  · next hprefix =>
      rw [← Option.some.inj h]
      exact (List.prefix_iff_eq_append.1
        (List.isPrefixOf_iff_prefix.1 hprefix)).symm
  · cases h

omit [Unicode] in
theorem stripPrefix_of_not_prefix {mark text : Text} (h : ¬ mark <+: text) :
    Text.stripPrefix mark text = none := by
  unfold Text.stripPrefix
  rw [if_neg fun hmark => h (List.isPrefixOf_iff_prefix.1 hmark)]

def isDecimalNumber (c : Char) : Bool :=
  Unicode.generalCategory c = .decimalNumber

/-- The text after a block between two marks, at the start of the text. -/
def delimited (mark text : Text) : Option Text :=
  (Text.stripPrefix mark text).bind fun rest =>
    (splitOnceAt mark rest).map Prod.snd

def backtickFence : Text := "```".toList

def tildeFence : Text := "~~~".toList

/-- The text after a match of ``(?s)```.*?```|~~~.*?~~~`` at the start. -/
def fenceAt (text : Text) : Option Text :=
  (delimited backtickFence text).or (delimited tildeFence text)

omit [Unicode] in
theorem delimited_length {mark text after : Text} (hmark : mark ≠ [])
    (h : delimited mark text = some after) : after.length < text.length := by
  obtain ⟨rest, hrest, hafter⟩ := Option.bind_eq_some_iff.1 h
  obtain ⟨⟨before, last⟩, hsplit, hlast⟩ := Option.map_eq_some_iff.1 hafter
  change last = after at hlast
  subst hlast
  have htext := congrArg List.length (splitOnceAt_eq_some hsplit)
  have hpos := List.length_pos_iff.2 hmark
  unfold Text.stripPrefix at hrest
  split at hrest
  · have hdrop := congrArg List.length (Option.some.inj hrest)
    simp only [List.length_append] at htext
    rw [List.length_drop] at hdrop
    omega
  · cases hrest

omit [Unicode] in
theorem fenceAt_length {text after : Text} (h : fenceAt text = some after) :
    after.length < text.length := by
  rcases Option.or_eq_some_iff.1 h with hback | ⟨_, htilde⟩
  · exact delimited_length (by decide) hback
  · exact delimited_length (by decide) htilde

/-- `Regex::replace_all` of the fences by nothing. -/
def withoutFences : Text → Text
  | [] => []
  | c :: rest =>
      match _h : fenceAt (c :: rest) with
      | some after => withoutFences after
      | none => c :: withoutFences rest
termination_by text => text.length
decreasing_by
  · exact fenceAt_length ‹_›
  · simp

/-- A character of `[^\s\x1C-\x1F]`. -/
def isUrlChar (c : Char) : Bool :=
  !(Text.isWhitespace c || decide (0x1c ≤ c.toNat ∧ c.toNat ≤ 0x1f))

def urlScheme (text : Text) : Option Text :=
  (Text.stripPrefix "https://".toList text).or
    (Text.stripPrefix "http://".toList text)

/-- The text after a match of `https?://[^\s\x1C-\x1F]+` at the start. -/
def urlAt (text : Text) : Option Text :=
  match urlScheme text with
  | some (c :: rest) =>
      if isUrlChar c then some (rest.dropWhile isUrlChar) else none
  | _ => none

omit [Unicode] in
theorem stripPrefix_length {mark text rest : Text}
    (h : Text.stripPrefix mark text = some rest) :
    rest.length ≤ text.length := by
  unfold Text.stripPrefix at h
  split at h
  · rw [← Option.some.inj h, List.length_drop]
    omega
  · cases h

omit [Unicode] in
theorem urlScheme_length {text rest : Text} (h : urlScheme text = some rest) :
    rest.length ≤ text.length := by
  rcases Option.or_eq_some_iff.1 h with hs | ⟨_, hplain⟩
  · exact stripPrefix_length hs
  · exact stripPrefix_length hplain

omit [Unicode] in
theorem urlAt_length {text after : Text} (h : urlAt text = some after) :
    after.length < text.length := by
  unfold urlAt at h
  split at h
  case h_1 c rest hscheme =>
      have hlen := urlScheme_length hscheme
      have hdrop := (List.dropWhile_suffix (l := rest) isUrlChar).length_le
      split at h
      · rw [← Option.some.inj h]
        simp only [List.length_cons] at hlen
        omega
      · cases h
  case h_2 => cases h

/-- `Regex::replace_all` of the URLs by nothing. -/
def withoutUrls : Text → Text
  | [] => []
  | c :: rest =>
      match _h : urlAt (c :: rest) with
      | some after => withoutUrls after
      | none => c :: withoutUrls rest
termination_by text => text.length
decreasing_by
  · exact urlAt_length ‹_›
  · simp

/-- A letter, a digit, or one of `_`, `.`, `/` and `-`. -/
def isReferenceChar (c : Char) : Bool :=
  ('A' ≤ c ∧ c ≤ 'Z') ∨ ('a' ≤ c ∧ c ≤ 'z') ∨ ('0' ≤ c ∧ c ≤ '9') ∨ c = '_' ∨
    c = '.' ∨ c = '/' ∨ c = '-'

/-- A line reference at the start, and the text after it: reference characters,
`.py:` and `\d+`.  The class of reference characters lacks the colon, so its
run has to end with `.py` right before one. -/
def referenceAt (text : Text) : Option (Text × Text) :=
  let run := text.takeWhile isReferenceChar
  if 3 < run.length ∧ ".py".toList <:+ run then
    match text.dropWhile isReferenceChar with
    | ':' :: rest =>
        let digits := rest.takeWhile isDecimalNumber
        if digits = [] then none
        else some (run ++ ':' :: digits, rest.dropWhile isDecimalNumber)
    | _ => none
  else none

/-- `Regex::find` of a line reference. -/
def findReference : Text → Option Text
  | [] => none
  | c :: rest =>
      match referenceAt (c :: rest) with
      | some (reference, _) => some reference
      | none => findReference rest

theorem referenceAt_length {text reference after : Text}
    (h : referenceAt text = some (reference, after)) :
    after.length < text.length := by
  simp only [referenceAt] at h
  split at h
  case isTrue hrun =>
      split at h
      case h_1 rest hrest =>
          split at h
          · cases h
          · simp only [Option.some.injEq, Prod.mk.injEq] at h
            obtain ⟨-, rfl⟩ := h
            have hdrop :=
              (List.dropWhile_suffix (l := rest) isDecimalNumber).length_le
            have htext :=
              (List.dropWhile_suffix (l := text) isReferenceChar).length_le
            rw [hrest, List.length_cons] at htext
            omega
      case h_2 => cases h
  case isFalse => cases h

/-- `Regex::find_iter` of the line references. -/
def references : Text → List Text
  | [] => []
  | c :: rest =>
      match _h : referenceAt (c :: rest) with
      | some (reference, after) => reference :: references after
      | none => references rest
termination_by text => text.length
decreasing_by
  · exact referenceAt_length ‹_›
  · simp

def linkOpening : Text := "(pages/".toList

/-- The name in a match of `\(pages/([^)]+\.md)\)` at the start, and the text
after it.  The name lacks the parenthesis that closes the link. -/
def indexLinkAt (text : Text) : Option (Text × Text) :=
  match Text.stripPrefix linkOpening text with
  | none => none
  | some rest =>
      match Text.splitOnce ')' rest with
      | none => none
      | some (name, after) =>
          if 3 < name.length ∧ ".md".toList <:+ name then some (name, after)
          else none

omit [Unicode] in
theorem splitOnce_length {c : Char} {text before after : Text}
    (h : Text.splitOnce c text = some (before, after)) :
    after.length < text.length := by
  rw [(Text.splitOnce_eq_some h).1, List.length_append, List.length_cons]
  omega

omit [Unicode] in
theorem indexLinkAt_length {text name after : Text}
    (h : indexLinkAt text = some (name, after)) :
    after.length < text.length := by
  unfold indexLinkAt at h
  split at h
  · cases h
  · next rest hrest =>
      split at h
      · cases h
      · next hsplit =>
          split at h
          · simp only [Option.some.injEq, Prod.mk.injEq] at h
            obtain ⟨-, rfl⟩ := h
            have hlen := splitOnce_length hsplit
            have hstrip := stripPrefix_length hrest
            omega
          · cases h

/-- `Regex::captures_iter` of the index links, the name of each. -/
def indexLinks : Text → List Text
  | [] => []
  | c :: rest =>
      match _h : indexLinkAt (c :: rest) with
      | some (name, after) => name :: indexLinks after
      | none => indexLinks rest
termination_by text => text.length
decreasing_by
  · exact indexLinkAt_length ‹_›
  · simp

def isSlugChar (c : Char) : Bool :=
  ('a' ≤ c ∧ c ≤ 'z') ∨ ('0' ≤ c ∧ c ≤ '9') ∨ c = '-'

def isFragmentChar (c : Char) : Bool := c ≠ ']' ∧ c ≠ '|'

/-- The group `(?:#([^\]|]*))?` of a wiki link, and the text after it. -/
def fragmentAt : Text → Option Text × Text
  | '#' :: rest =>
      (some (rest.takeWhile isFragmentChar), rest.dropWhile isFragmentChar)
  | text => (none, text)

/-- The text after the group `(?:\|[^\]]*)?` of a wiki link. -/
def afterAlias : Text → Text
  | '|' :: rest => rest.dropWhile fun c => c ≠ ']'
  | text => text

/-- The target and the fragment of a wiki link at the start, and the text after
it. -/
def wikilinkAt (text : Text) : Option (Text × Option Text × Text) :=
  match Text.stripPrefix "[[".toList text with
  | none => none
  | some rest =>
      let target := rest.takeWhile isSlugChar
      let fragment := fragmentAt (rest.dropWhile isSlugChar)
      if target = [] then none
      else (Text.stripPrefix "]]".toList (afterAlias fragment.2)).map
        fun after => (target, fragment.1, after)

omit [Unicode] in
theorem fragmentAt_length (text : Text) :
    (fragmentAt text).2.length ≤ text.length := by
  unfold fragmentAt
  split
  · next rest =>
      have hdrop := (List.dropWhile_suffix (l := rest) isFragmentChar).length_le
      simp only [List.length_cons]
      omega
  · exact Nat.le_refl _

omit [Unicode] in
theorem afterAlias_length (text : Text) :
    (afterAlias text).length ≤ text.length := by
  unfold afterAlias
  split
  · next rest =>
      have hdrop := (List.dropWhile_suffix (l := rest) fun c => c ≠ ']').length_le
      simp only [List.length_cons]
      omega
  · exact Nat.le_refl _

omit [Unicode] in
theorem stripPrefix_length_lt {mark text rest : Text} (hmark : mark ≠ [])
    (h : Text.stripPrefix mark text = some rest) :
    rest.length < text.length := by
  have hpos := List.length_pos_iff.2 hmark
  unfold Text.stripPrefix at h
  split at h
  · next hprefix =>
      have hle := (List.isPrefixOf_iff_prefix.1 hprefix).length_le
      rw [← Option.some.inj h, List.length_drop]
      omega
  · cases h

omit [Unicode] in
theorem wikilinkAt_length {text target after : Text} {fragment : Option Text}
    (h : wikilinkAt text = some (target, fragment, after)) :
    after.length < text.length := by
  unfold wikilinkAt at h
  split at h
  · cases h
  · next rest hrest =>
      by_cases htarget : rest.takeWhile isSlugChar = []
      · simp [htarget] at h
      · simp only [htarget, if_false] at h
        obtain ⟨last, hlast, heq⟩ := Option.map_eq_some_iff.1 h
        simp only [Prod.mk.injEq] at heq
        obtain ⟨-, -, rfl⟩ := heq
        have hstart := stripPrefix_length_lt (by decide) hrest
        have htarget :=
          (List.dropWhile_suffix (l := rest) isSlugChar).length_le
        have hfragment := fragmentAt_length (rest.dropWhile isSlugChar)
        have halias :=
          afterAlias_length (fragmentAt (rest.dropWhile isSlugChar)).2
        have hclose := stripPrefix_length hlast
        omega

/-- The targets of the wiki links that are neither embedded nor references to
a block; the flag says that the character before is an exclamation mark. -/
def wikilinkTargetsFrom : Bool → Text → List Text
  | _, [] => []
  | embedded, c :: rest =>
      match _h : wikilinkAt (c :: rest) with
      | some (target, fragment, after) =>
          if embedded ∨ fragment.any (fun text => text.head? = some '^') then
            wikilinkTargetsFrom false after
          else target :: wikilinkTargetsFrom false after
      | none => wikilinkTargetsFrom (c = '!') rest
termination_by _ text => text.length
decreasing_by
  · exact wikilinkAt_length ‹_›
  · exact wikilinkAt_length ‹_›
  · simp

def wikilinkTargets (source : Text) : List Text :=
  wikilinkTargetsFrom false source

end Yams.Wiki
