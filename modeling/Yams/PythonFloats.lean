/-
Floating-point numbers as Python spells them.  The scanner of the command line
accepts exactly the spellings of `float`, and hands on an ASCII text of the same
decimal number.
-/
import Yams.PythonNumbers

namespace Yams

open Numerals

section FloatSpelling

variable (isDecimalNumber : Char → Bool) (digitValue : Char → Nat)

/-- What a floating-point spelling stands for; zeros have signs, too. -/
inductive FloatValue
  | nan (negative : Bool)
  | infinity (negative : Bool)
  | number (negative : Bool) (magnitude : ℚ)

inductive FloatSpelling : Text → FloatValue → Prop
  | nan {sign word : Text} {negative : Bool} (hsign : Sign sign negative)
      (hword : Text.toAsciiLowercase word = "nan".toList) :
      FloatSpelling (sign ++ word) (.nan negative)
  | infinity {sign word : Text} {negative : Bool} (hsign : Sign sign negative)
      (hword : Text.toAsciiLowercase word = "inf".toList ∨
        Text.toAsciiLowercase word = "infinity".toList) :
      FloatSpelling (sign ++ word) (.infinity negative)
  | number {text : Text} {negative : Bool} {magnitude : ℚ}
      (hnumber : Decimal (Digits isDecimalNumber digitValue) text negative magnitude) :
      FloatSpelling text (.number negative magnitude)

/-- The spellings that Python's `float` takes for a number. -/
def PythonFloat (text : Text) (value : FloatValue) : Prop :=
  ∃ core, Surrounded core text ∧ FloatSpelling isDecimalNumber digitValue core value

end FloatSpelling

section Normalizing

variable {isDecimalNumber : Char → Bool} {digitValue : Char → Nat}
  {text ascii rest : Text} {digits : List Nat} {c : Char} {previous : Option Char}

/-- The characters of a number besides its digits and underscores. -/
def IsSymbol (c : Char) : Prop := c = '+' ∨ c = '-' ∨ c = '.' ∨ c = 'e' ∨ c = 'E'

instance (c : Char) : Decidable (IsSymbol c) := inferInstanceAs (Decidable (_ ∨ _))

theorem symbol_ascii (h : IsSymbol c) :
    c.toNat < 0x80 ∧ c.isDigit = false ∧ c ≠ '_' ∧ isPythonWhitespace c = false := by
  rcases h with rfl | rfl | rfl | rfl | rfl <;> decide

attribute [local simp] normalizeFloat

theorem normalizeFloat_digit (htable : DecimalDigits isDecimalNumber digitValue)
    (hc : isDecimalNumber c = true) (previous : Option Char) (rest : Text) :
    normalizeFloat isDecimalNumber previous (c :: rest) =
      (normalizeFloat isDecimalNumber (some c) rest).map
        (Nat.digitChar (digitValue c) :: ·) := by
  rw [normalizeFloat, decimalDigit_eq htable, if_pos hc]

theorem normalizeFloat_symbol (htable : DecimalDigits isDecimalNumber digitValue)
    (hc : IsSymbol c) (previous : Option Char) (rest : Text) :
    normalizeFloat isDecimalNumber previous (c :: rest) =
      (normalizeFloat isDecimalNumber (some c) rest).map (c :: ·) := by
  rcases symbol_ascii hc with ⟨hascii, hdigit, hunderscore, _⟩
  rw [normalizeFloat, decimalDigit_eq htable, not_decimal htable hascii hdigit]
  dsimp only
  rw [if_neg Bool.false_ne_true]
  dsimp only
  rw [if_neg hunderscore]
  exact if_pos hc

/-- Only an underscore looks at the character before it. -/
theorem normalizeFloat_previous (hrest : rest.head? ≠ some '_')
    (previous : Option Char) :
    normalizeFloat isDecimalNumber previous rest =
      normalizeFloat isDecimalNumber none rest := by
  cases rest with
  | nil => rfl
  | cons c rest =>
      have hc : c ≠ '_' := fun heq => hrest (congrArg some heq)
      rw [normalizeFloat, normalizeFloat]
      cases decimalDigit isDecimalNumber c with
      | some digit => rfl
      | none =>
          dsimp only
          rw [if_neg hc, if_neg hc]

/-- An underscore needs a digit before it. -/
theorem normalizeFloat_nondigit (htable : DecimalDigits isDecimalNumber digitValue)
    (hprevious : ∀ p ∈ previous, isDecimalNumber p = false) (text : Text) :
    normalizeFloat isDecimalNumber previous text =
      normalizeFloat isDecimalNumber none text := by
  by_cases hhead : text.head? = some '_'
  · rcases List.head?_eq_some_iff.1 hhead with ⟨rest, rfl⟩
    have hnone : (previous.any fun p => (decimalDigit isDecimalNumber p).isSome) =
        false := by
      cases previous with
      | none => rfl
      | some p =>
          rw [Option.any_some, decimalDigit_eq htable, hprevious p rfl]
          rfl
    rw [normalizeFloat, normalizeFloat]
    cases decimalDigit isDecimalNumber '_' with
    | some digit => rfl
    | none =>
        dsimp only
        rw [hnone]
        rfl
  · exact normalizeFloat_previous hhead previous

/-- A part of a number and the ASCII text that it is normalized to. -/
def Normalizes (isDecimalNumber : Char → Bool) (text ascii : Text) : Prop :=
  text.head? ≠ some '_' ∧ ∀ (previous : Option Char) (rest : Text),
    rest.head? ≠ some '_' →
      normalizeFloat isDecimalNumber previous (text ++ rest) =
        (normalizeFloat isDecimalNumber none rest).map (ascii ++ ·)

theorem normalizes_nil : Normalizes isDecimalNumber [] [] := by
  constructor
  · exact fun h => nomatch h
  · intro previous rest hrest
    rw [List.nil_append, normalizeFloat_previous hrest]
    exact Option.map_id'.symm

theorem normalizes_append {second secondAscii : Text}
    (hfirst : Normalizes isDecimalNumber text ascii)
    (hsecond : Normalizes isDecimalNumber second secondAscii) :
    Normalizes isDecimalNumber (text ++ second) (ascii ++ secondAscii) := by
  constructor
  · cases text with
    | nil => exact hsecond.1
    | cons c rest => exact hfirst.1
  · intro previous rest hrest
    have hhead : (second ++ rest).head? ≠ some '_' := by
      cases second with
      | nil => exact hrest
      | cons c second => exact hsecond.1
    rw [List.append_assoc, hfirst.2 previous _ hhead, hsecond.2 none rest hrest,
      Option.map_map]
    congr 1
    funext more
    exact (List.append_assoc ascii secondAscii more).symm

theorem normalizes_symbol (htable : DecimalDigits isDecimalNumber digitValue)
    (hc : IsSymbol c) : Normalizes isDecimalNumber [c] [c] := by
  constructor
  · intro h
    exact (symbol_ascii hc).2.2.1 (Option.some.inj h)
  · intro previous rest hrest
    rw [List.singleton_append, normalizeFloat_symbol htable hc,
      normalizeFloat_previous hrest]
    rfl

theorem normalizes_digits (htable : DecimalDigits isDecimalNumber digitValue)
    (h : Digits isDecimalNumber digitValue text digits) :
    Normalizes isDecimalNumber text (digits.map Nat.digitChar) := by
  have hunderscore : isDecimalNumber '_' = false := not_decimal htable (by decide) rfl
  constructor
  · rcases digits_head h with ⟨c, rest, rfl, hc, _⟩
    intro heq
    rw [Option.some.inj heq, hunderscore] at hc
    exact Bool.false_ne_true hc
  · induction h with
    | last hc =>
        intro previous rest hrest
        rw [List.singleton_append, normalizeFloat_digit htable hc,
          normalizeFloat_previous hrest]
        rfl
    | next hc hdigits ih =>
        intro previous rest hrest
        rw [List.cons_append, normalizeFloat_digit htable hc, ih _ rest hrest,
          Option.map_map]
        rfl
    | @grouped c _ _ hc hdigits ih =>
        intro previous rest hrest
        rcases digits_head hdigits with ⟨d, more, rfl, hd, _⟩
        have hgroup := ih (some '_') rest hrest
        rw [List.cons_append, List.cons_append, normalizeFloat_digit htable hc,
          normalizeFloat, decimalDigit_eq htable, hunderscore]
        dsimp only
        rw [if_neg Bool.false_ne_true]
        dsimp only
        have hbefore : (some c).any (fun p => (decimalDigit isDecimalNumber p).isSome) =
            true := by
          rw [Option.any_some, decimalDigit_eq htable, if_pos hc]
          rfl
        have hafter : (d :: more ++ rest).head?.any
            (fun n => (decimalDigit isDecimalNumber n).isSome) = true := by
          change (decimalDigit isDecimalNumber d).isSome = true
          rw [decimalDigit_eq htable, if_pos hd]
          rfl
        rw [if_pos rfl, if_pos ⟨hbefore, hafter⟩, hgroup, Option.map_map]
        rfl

theorem normalizes_sign (htable : DecimalDigits isDecimalNumber digitValue)
    {sign : Text} {negative : Bool} (h : Sign sign negative) :
    Normalizes isDecimalNumber sign sign := by
  cases h with
  | absent => exact normalizes_nil
  | plus => exact normalizes_symbol htable (.inl rfl)
  | minus => exact normalizes_symbol htable (.inr (.inl rfl))

theorem plain_of_digits (htable : DecimalDigits isDecimalNumber digitValue)
    (h : Digits isDecimalNumber digitValue text digits) :
    Plain (digits.map Nat.digitChar) digits := by
  rcases digits_head h with ⟨_, _, _, _, hne⟩
  exact ⟨hne, digits_lt htable h, rfl⟩

theorem normalizes_part (htable : DecimalDigits isDecimalNumber digitValue)
    (h : Part (Digits isDecimalNumber digitValue) text digits) :
    ∃ ascii, Normalizes isDecimalNumber text ascii ∧ Part Plain ascii digits := by
  cases h with
  | missing => exact ⟨[], normalizes_nil, .missing⟩
  | digits hdigits =>
      exact ⟨_, normalizes_digits htable hdigits, .digits (plain_of_digits htable hdigits)⟩

theorem normalizes_mantissa (htable : DecimalDigits isDecimalNumber digitValue)
    {integer fraction : List Nat}
    (h : Mantissa (Digits isDecimalNumber digitValue) text integer fraction) :
    ∃ ascii, Normalizes isDecimalNumber text ascii ∧
      Mantissa Plain ascii integer fraction := by
  cases h with
  | whole hdigits =>
      exact ⟨_, normalizes_digits htable hdigits, .whole (plain_of_digits htable hdigits)⟩
  | point hinteger hfraction hsome =>
      rcases normalizes_part htable hinteger with ⟨before, hbefore, hbeforePlain⟩
      rcases normalizes_part htable hfraction with ⟨after, hafter, hafterPlain⟩
      have hpoint := normalizes_symbol (c := '.') htable (.inr (.inr (.inl rfl)))
      exact ⟨_, normalizes_append hbefore (normalizes_append hpoint hafter),
        .point hbeforePlain hafterPlain hsome⟩

theorem normalizes_exponent (htable : DecimalDigits isDecimalNumber digitValue)
    {exponent : Int} (h : Exponent (Digits isDecimalNumber digitValue) text exponent) :
    ∃ ascii, Normalizes isDecimalNumber text ascii ∧ Exponent Plain ascii exponent := by
  cases h with
  | absent => exact ⟨[], normalizes_nil, .absent⟩
  | @present letter sign spelled _ digits hletter hsign hdigits =>
      have hsymbol : Normalizes isDecimalNumber [letter] [letter] :=
        normalizes_symbol htable (.inr (.inr (.inr hletter)))
      have hrest : Normalizes isDecimalNumber (sign ++ spelled)
          (sign ++ digits.map Nat.digitChar) :=
        normalizes_append (normalizes_sign htable hsign)
          (normalizes_digits htable hdigits)
      exact ⟨letter :: (sign ++ digits.map Nat.digitChar),
        normalizes_append hsymbol hrest,
        .present hletter hsign (plain_of_digits htable hdigits)⟩

/-- A number is normalized to an ASCII spelling of the same number. -/
theorem normalizeFloat_of_decimal (htable : DecimalDigits isDecimalNumber digitValue)
    {negative : Bool} {value : ℚ}
    (h : Decimal (Digits isDecimalNumber digitValue) text negative value) :
    ∃ ascii, normalizeFloat isDecimalNumber none text = some ascii ∧
      Decimal Plain ascii negative value := by
  cases h with
  | mk hsign hmantissa hexponent =>
      rcases normalizes_mantissa htable hmantissa with ⟨mantissa, hread, hplain⟩
      rcases normalizes_exponent htable hexponent with ⟨power, hpower, hpowerPlain⟩
      have hall := normalizes_append (normalizes_sign htable hsign)
        (normalizes_append hread hpower)
      refine ⟨_, ?_, .mk hsign hplain hpowerPlain⟩
      have hwhole := hall.2 none [] (fun h => nomatch h)
      rw [List.append_nil] at hwhole
      rw [hwhole, normalizeFloat, Option.map_some, List.append_nil]

end Normalizing

section Shape

variable {text : Text} {negative : Bool} {value : ℚ}

theorem dropSign_eq (text : Text) : dropSign text = (readSign text).2 := by
  unfold dropSign readSign
  split
  · rfl
  · rfl
  · next hplus hminus =>
      split
      · next rest => exact absurd rfl (hminus rest)
      · next rest => exact absurd rfl (hplus rest)
      · rfl

/-- The shape check walks through a text as its number is read. -/
theorem validDecimalFloatShape_iff (text : Text) :
    validDecimalFloatShape text = true ↔
      ((dropSign text).takeWhile Char.isDigit).length +
          (afterPoint ((dropSign text).dropWhile Char.isDigit)).1.length ≠ 0 ∧
        validExponent (afterPoint ((dropSign text).dropWhile Char.isDigit)).2 =
          true := by
  unfold validDecimalFloatShape
  dsimp only
  generalize (dropSign text).dropWhile Char.isDigit = rest
  split
  · exact decide_eq_true_iff
  · next hpoint =>
      unfold afterPoint
      split
      · next after => exact absurd rfl (hpoint after)
      · exact decide_eq_true_iff

theorem validExponent_of_exponent {power : Text} {exponent : Int}
    (h : Exponent Plain power exponent) : validExponent power = true := by
  cases h with
  | absent => rfl
  | present hletter hsign hdigits =>
      have hread := read_digits hsign hdigits
      rcases hdigits with ⟨hne, hsmall, rfl⟩
      rw [validExponent, decide_eq_true_iff, dropSign_eq, hread]
      refine ⟨hletter, ?_, ?_⟩
      · intro hempty
        exact hne (List.map_eq_nil_iff.1 (List.isEmpty_iff.1 hempty))
      · exact List.all_eq_true.2 (isDigit_map_digitChar hsmall)

/-- Every ASCII spelling of a number has the right shape. -/
theorem validDecimalFloatShape_of_decimal (h : Decimal Plain text negative value) :
    validDecimalFloatShape text = true := by
  cases h with
  | mk hsign hmantissa hexponent =>
      rcases read_mantissa hmantissa hexponent with ⟨htake, hafter, _, _, hsome⟩
      rw [validDecimalFloatShape_iff, dropSign_eq, read_sign hsign hmantissa]
      dsimp only
      rw [htake, hafter]
      refine ⟨?_, validExponent_of_exponent hexponent⟩
      rw [List.length_map, List.length_map, ← List.length_append]
      intro hzero
      exact hsome (List.length_eq_zero_iff.1 hzero)

end Shape

section Scanning

variable {isDecimalNumber : Char → Bool} {digitValue : Char → Nat}
  {text ascii : Text} {c : Char}

/-- What is normalized begins with a digit, with a symbol, or with an underscore
between two digits. -/
theorem normalizeFloat_cases (htable : DecimalDigits isDecimalNumber digitValue)
    {rest : Text} {previous : Option Char}
    (h : normalizeFloat isDecimalNumber previous (c :: rest) = some ascii) :
    (isDecimalNumber c = true ∧ ∃ tail,
        ascii = Nat.digitChar (digitValue c) :: tail ∧
          normalizeFloat isDecimalNumber (some c) rest = some tail) ∨
      (IsSymbol c ∧ ∃ tail, ascii = c :: tail ∧
        normalizeFloat isDecimalNumber none rest = some tail) ∨
      c = '_' ∧ previous ≠ none ∧ ∃ d more, rest = d :: more ∧
        isDecimalNumber d = true ∧
          normalizeFloat isDecimalNumber (some c) rest = some ascii := by
  by_cases hc : isDecimalNumber c = true
  · rw [normalizeFloat_digit htable hc] at h
    rcases Option.map_eq_some_iff.1 h with ⟨tail, htail, rfl⟩
    exact .inl ⟨hc, tail, rfl, htail⟩
  · by_cases hsymbol : IsSymbol c
    · rw [normalizeFloat_symbol htable hsymbol] at h
      rcases Option.map_eq_some_iff.1 h with ⟨tail, htail, rfl⟩
      rw [normalizeFloat_nondigit htable] at htail
      · exact .inr (.inl ⟨hsymbol, tail, rfl, htail⟩)
      · intro p hp
        rw [← Option.some.inj hp]
        exact Bool.eq_false_iff.2 hc
    · rw [normalizeFloat, decimalDigit_eq htable, if_neg hc] at h
      dsimp only at h
      split at h
      · next hunderscore =>
          split at h
          · next hbetween =>
              refine .inr (.inr ⟨hunderscore, ?_, ?_⟩)
              · intro hnone
                rw [hnone] at hbetween
                exact absurd hbetween.1 Bool.false_ne_true
              · cases rest with
                | nil => exact absurd hbetween.2 Bool.false_ne_true
                | cons d more =>
                    have hd : (decimalDigit isDecimalNumber d).isSome = true := hbetween.2
                    rw [decimalDigit_eq htable] at hd
                    refine ⟨d, more, rfl, ?_, h⟩
                    by_contra hfalse
                    rw [if_neg hfalse] at hd
                    exact Bool.false_ne_true hd
          · exact nomatch h
      · change (if IsSymbol c then _ else none) = some ascii at h
        rw [if_neg hsymbol] at h
        exact nomatch h

/-- What is normalized from its start begins with a digit or with a symbol. -/
theorem normalizeFloat_cons (htable : DecimalDigits isDecimalNumber digitValue)
    {rest : Text} (h : normalizeFloat isDecimalNumber none (c :: rest) = some ascii) :
    (isDecimalNumber c = true ∧ ∃ tail,
        ascii = Nat.digitChar (digitValue c) :: tail ∧
          normalizeFloat isDecimalNumber (some c) rest = some tail) ∨
      IsSymbol c ∧ ∃ tail, ascii = c :: tail ∧
        normalizeFloat isDecimalNumber none rest = some tail := by
  rcases normalizeFloat_cases htable h with hdigit | hsymbol | ⟨_, hnone, _⟩
  · exact .inl hdigit
  · exact .inr hsymbol
  · exact absurd rfl hnone

theorem normalizeFloat_eq_nil (htable : DecimalDigits isDecimalNumber digitValue)
    (h : normalizeFloat isDecimalNumber none text = some []) : text = [] := by
  cases text with
  | nil => rfl
  | cons c rest =>
      rcases normalizeFloat_cons htable h with ⟨_, _, heq, _⟩ | ⟨_, _, heq, _⟩
      · exact nomatch heq
      · exact nomatch heq

/-- A symbol of the normalized text was in the text. -/
theorem normalizeFloat_head (htable : DecimalDigits isDecimalNumber digitValue)
    (h : normalizeFloat isDecimalNumber none text = some (c :: ascii))
    (hc : c.isDigit = false) :
    ∃ rest, text = c :: rest ∧ normalizeFloat isDecimalNumber none rest = some ascii := by
  cases text with
  | nil => exact nomatch h
  | cons first rest =>
      rcases normalizeFloat_cons htable h with
        ⟨hfirst, tail, heq, _⟩ | ⟨_, tail, heq, htail⟩
      · rw [(List.cons.inj heq).1, isDigit_digitChar (htable.value_lt _ hfirst)] at hc
        exact absurd hc.symm Bool.false_ne_true
      · rw [(List.cons.inj heq).1, (List.cons.inj heq).2]
        exact ⟨rest, rfl, htail⟩

/-- After a digit the text goes on with the digits that the normalized text goes
on with, and with underscores between them. -/
theorem normalizeFloat_run (htable : DecimalDigits isDecimalNumber digitValue)
    (hc : isDecimalNumber c = true)
    (h : normalizeFloat isDecimalNumber (some c) text = some ascii) :
    ∃ run rest digits, c :: text = run ++ rest ∧
      Digits isDecimalNumber digitValue run (digitValue c :: digits) ∧
      ascii.takeWhile Char.isDigit = digits.map Nat.digitChar ∧
      normalizeFloat isDecimalNumber none rest =
        some (ascii.dropWhile Char.isDigit) := by
  -- an underscore and the digit after it are read together
  induction hlength : text.length using Nat.strong_induction_on
    generalizing text c ascii with
  | _ length ih =>
      cases text with
      | nil =>
          rw [normalizeFloat] at h
          rw [← Option.some.inj h]
          exact ⟨[c], [], [], rfl, .last hc, rfl, rfl⟩
      | cons d rest =>
          rw [List.length_cons] at hlength
          rcases normalizeFloat_cases htable h with
            ⟨hd, tail, rfl, htail⟩ | ⟨hsymbol, tail, rfl, htail⟩ |
              ⟨rfl, _, e, more, rfl, he, hgroup⟩
          · rcases ih rest.length (by omega) hd htail rfl with
              ⟨run, more, digits, htext, hrun, htake, hdrop⟩
            have hdigit := isDigit_digitChar (htable.value_lt d hd)
            refine ⟨c :: run, more, digitValue d :: digits, ?_, .next hc hrun, ?_, ?_⟩
            · rw [htext, List.cons_append]
            · rw [List.takeWhile_cons_of_pos hdigit, htake, List.map_cons]
            · rw [List.dropWhile_cons_of_pos hdigit, hdrop]
          · have hdigit : ¬ d.isDigit = true := by
              rw [(symbol_ascii hsymbol).2.1]
              exact Bool.false_ne_true
            refine ⟨[c], d :: rest, [], rfl, .last hc, ?_, ?_⟩
            · rw [List.takeWhile_cons_of_neg hdigit]
              rfl
            · rw [List.dropWhile_cons_of_neg hdigit, normalizeFloat_symbol htable hsymbol,
                normalizeFloat_nondigit htable, htail, Option.map_some]
              intro p hp
              rw [← Option.some.inj hp]
              exact not_decimal htable (symbol_ascii hsymbol).1 (symbol_ascii hsymbol).2.1
          · rw [normalizeFloat_digit htable he] at hgroup
            rcases Option.map_eq_some_iff.1 hgroup with ⟨tail, htail, rfl⟩
            rw [List.length_cons] at hlength
            rcases ih more.length (by omega) he htail rfl with
              ⟨run, last, digits, htext, hrun, htake, hdrop⟩
            have hdigit := isDigit_digitChar (htable.value_lt e he)
            refine ⟨c :: '_' :: run, last, digitValue e :: digits, ?_,
              .grouped hc hrun, ?_, ?_⟩
            · rw [htext, List.cons_append, List.cons_append]
            · rw [List.takeWhile_cons_of_pos hdigit, htake, List.map_cons]
            · rw [List.dropWhile_cons_of_pos hdigit, hdrop]

/-- The digits that the normalized text begins with come from digits. -/
theorem scan_digits (htable : DecimalDigits isDecimalNumber digitValue)
    (h : normalizeFloat isDecimalNumber none text = some ascii) :
    ∃ run rest digits, text = run ++ rest ∧
      Part (Digits isDecimalNumber digitValue) run digits ∧
      ascii.takeWhile Char.isDigit = digits.map Nat.digitChar ∧
      normalizeFloat isDecimalNumber none rest =
        some (ascii.dropWhile Char.isDigit) := by
  cases text with
  | nil =>
      rw [normalizeFloat] at h
      rw [← Option.some.inj h]
      exact ⟨[], [], [], rfl, .missing, rfl, rfl⟩
  | cons c rest =>
      rcases normalizeFloat_cons htable h with
        ⟨hc, tail, rfl, htail⟩ | ⟨hsymbol, tail, rfl, htail⟩
      · rcases normalizeFloat_run htable hc htail with
          ⟨run, more, digits, htext, hrun, htake, hdrop⟩
        have hdigit := isDigit_digitChar (htable.value_lt c hc)
        refine ⟨run, more, _, htext, .digits hrun, ?_, ?_⟩
        · rw [List.takeWhile_cons_of_pos hdigit, htake, List.map_cons]
        · rw [List.dropWhile_cons_of_pos hdigit, hdrop]
      · have hdigit : ¬ c.isDigit = true := by
          rw [(symbol_ascii hsymbol).2.1]
          exact Bool.false_ne_true
        refine ⟨[], c :: rest, [], rfl, .missing, ?_, ?_⟩
        · rw [List.takeWhile_cons_of_neg hdigit]
          rfl
        · rw [List.dropWhile_cons_of_neg hdigit, h]

/-- A sign of the normalized text was in the text. -/
theorem scan_sign (htable : DecimalDigits isDecimalNumber digitValue)
    (h : normalizeFloat isDecimalNumber none text = some ascii) :
    ∃ sign rest negative, text = sign ++ rest ∧ Sign sign negative ∧
      normalizeFloat isDecimalNumber none rest = some (dropSign ascii) := by
  unfold dropSign
  split
  · rcases normalizeFloat_head htable h rfl with ⟨rest, rfl, hrest⟩
    exact ⟨_, rest, _, rfl, .plus, hrest⟩
  · rcases normalizeFloat_head htable h rfl with ⟨rest, rfl, hrest⟩
    exact ⟨_, rest, _, rfl, .minus, hrest⟩
  · exact ⟨_, text, _, rfl, .absent, h⟩

theorem scan_exponent (htable : DecimalDigits isDecimalNumber digitValue)
    (h : normalizeFloat isDecimalNumber none text = some ascii)
    (hvalid : validExponent ascii = true) :
    ∃ exponent, Exponent (Digits isDecimalNumber digitValue) text exponent := by
  cases ascii with
  | nil =>
      rw [normalizeFloat_eq_nil htable h]
      exact ⟨0, .absent⟩
  | cons letter power =>
      rw [validExponent, decide_eq_true_iff] at hvalid
      rcases hvalid with ⟨hletter, hsome, hall⟩
      have hdigit : letter.isDigit = false := by
        rcases hletter with rfl | rfl <;> rfl
      rcases normalizeFloat_head htable h hdigit with ⟨rest, rfl, hrest⟩
      rcases scan_sign htable hrest with ⟨sign, unsigned, negative, rfl, hsign, hunsigned⟩
      rcases scan_digits htable hunsigned with ⟨run, more, digits, rfl, hrun, htake, hdrop⟩
      rw [List.takeWhile_eq_self_iff.2 (List.all_eq_true.1 hall)] at htake
      rw [List.dropWhile_eq_nil_iff.2 (List.all_eq_true.1 hall)] at hdrop
      rw [normalizeFloat_eq_nil htable hdrop, List.append_nil]
      cases hrun with
      | missing =>
          rw [htake] at hsome
          exact absurd rfl hsome
      | digits hdigits => exact ⟨_, .present hletter hsign hdigits⟩

/-- A text whose normalized form has the right shape spells a number. -/
theorem decimal_of_valid (htable : DecimalDigits isDecimalNumber digitValue)
    (h : normalizeFloat isDecimalNumber none text = some ascii)
    (hvalid : validDecimalFloatShape ascii = true) :
    ∃ negative value,
      Decimal (Digits isDecimalNumber digitValue) text negative value := by
  rw [validDecimalFloatShape_iff] at hvalid
  rcases hvalid with ⟨hsome, hpower⟩
  rcases scan_sign htable h with ⟨sign, unsigned, negative, rfl, hsign, hunsigned⟩
  rcases scan_digits htable hunsigned with ⟨run, rest, integer, rfl, hrun, htake, hdrop⟩
  rw [htake, List.length_map] at hsome
  by_cases hpoint : ∃ after, (dropSign ascii).dropWhile Char.isDigit = '.' :: after
  · rcases hpoint with ⟨after, hafter⟩
    rw [hafter, afterPoint] at hsome hpower
    rw [hafter] at hdrop
    rcases normalizeFloat_head htable hdrop rfl with ⟨tail, rfl, htail⟩
    rcases scan_digits htable htail with
      ⟨decimals, power, fraction, rfl, hdecimals, htakeAfter, hdropAfter⟩
    rcases scan_exponent htable hdropAfter hpower with ⟨exponent, hexponent⟩
    rw [htakeAfter, List.length_map, ← List.length_append] at hsome
    have hmantissa := Mantissa.point hrun hdecimals
      fun hnil => hsome (congrArg List.length hnil)
    have hnumber := Decimal.mk hsign hmantissa hexponent
    rw [List.append_assoc] at hnumber
    exact ⟨_, _, hnumber⟩
  · have htail : afterPoint ((dropSign ascii).dropWhile Char.isDigit) =
        ([], (dropSign ascii).dropWhile Char.isDigit) := by
      unfold afterPoint
      split
      · next after hafter => exact absurd ⟨after, hafter⟩ hpoint
      · rfl
    rw [htail] at hsome hpower
    rcases scan_exponent htable hdrop hpower with ⟨exponent, hexponent⟩
    cases hrun with
    | missing => exact absurd rfl hsome
    | digits hdigits => exact ⟨_, _, .mk hsign (.whole hdigits) hexponent⟩

end Scanning

section Words

variable {isDecimalNumber : Char → Bool} {digitValue : Char → Nat}
  {text ascii word sign rest core : Text} {negative : Bool} {magnitude : ℚ}

/-- Nothing blank is normalized, and what comes out is ASCII. -/
theorem normalizeFloat_chars (htable : DecimalDigits isDecimalNumber digitValue)
    {previous : Option Char}
    (h : normalizeFloat isDecimalNumber previous text = some ascii) :
    (∀ c ∈ text, isPythonWhitespace c = false) ∧ ∀ c ∈ ascii, c.toNat < 0x80 := by
  induction text generalizing previous ascii with
  | nil =>
      rw [normalizeFloat] at h
      rw [← Option.some.inj h]
      exact ⟨fun _ h => absurd h List.not_mem_nil, fun _ h => absurd h List.not_mem_nil⟩
  | cons c text ih =>
      rcases normalizeFloat_cases htable h with
        ⟨hc, tail, rfl, htail⟩ | ⟨hsymbol, tail, rfl, htail⟩ |
          ⟨rfl, _, _, _, _, _, htail⟩
      · rcases ih htail with ⟨hblank, hascii⟩
        constructor
        · intro d hd
          rcases List.mem_cons.1 hd with rfl | hd
          · exact digits_nonblank htable (.last hc) d List.mem_cons_self
          · exact hblank d hd
        · intro d hd
          rcases List.mem_cons.1 hd with rfl | hd
          · have hlt := htable.value_lt c hc
            rw [Nat.toNat_digitChar_of_lt_ten hlt]
            omega
          · exact hascii d hd
      · rcases ih htail with ⟨hblank, hascii⟩
        constructor
        · intro d hd
          rcases List.mem_cons.1 hd with rfl | hd
          · exact (symbol_ascii hsymbol).2.2.2
          · exact hblank d hd
        · intro d hd
          rcases List.mem_cons.1 hd with rfl | hd
          · exact (symbol_ascii hsymbol).1
          · exact hascii d hd
      · rcases ih htail with ⟨hblank, hascii⟩
        refine ⟨?_, hascii⟩
        intro d hd
        rcases List.mem_cons.1 hd with rfl | hd
        · rfl
        · exact hblank d hd

theorem letter_of_toLower {c : Char} (h : c.toLower.isLower = true) :
    65 ≤ c.toNat ∧ c.toNat ≤ 122 := by
  unfold Char.toLower at h
  split at h
  · next hupper =>
      have hleast : 65 ≤ c.toNat := UInt32.le_iff_toNat_le.1 hupper.1
      have hmost : c.toNat ≤ 90 := UInt32.le_iff_toNat_le.1 hupper.2
      omega
  · change (decide (c.val ≥ 97) && decide (c.val ≤ 122)) = true at h
    rw [Bool.and_eq_true, decide_eq_true_eq, decide_eq_true_eq] at h
    have hleast : 97 ≤ c.toNat := UInt32.le_iff_toNat_le.1 h.1
    have hmost : c.toNat ≤ 122 := UInt32.le_iff_toNat_le.1 h.2
    omega

/-- The words for what is no number, in lower case. -/
def specialWords : List Text := ["nan".toList, "inf".toList, "infinity".toList]

/-- In any case, such a word has letters only. -/
theorem specialWords_letters (h : Text.toAsciiLowercase word ∈ specialWords) :
    word ≠ [] ∧ ∀ c ∈ word, 65 ≤ c.toNat ∧ c.toNat ≤ 122 := by
  have hlower : specialWords.all (fun special =>
      !special.isEmpty && special.all Char.isLower) = true := by decide
  have hspecial := List.all_eq_true.1 hlower _ h
  rcases Bool.and_eq_true_iff.1 hspecial with ⟨hne, hall⟩
  constructor
  · intro hnil
    rw [hnil] at hne
    cases hne
  · intro c hc
    exact letter_of_toLower (List.all_eq_true.1 hall _ (List.mem_map_of_mem hc))

theorem letter_nonblank {c : Char} (h : 65 ≤ c.toNat ∧ c.toNat ≤ 122) :
    isPythonWhitespace c = false := by
  unfold isPythonWhitespace
  rw [decide_eq_false_iff_not]
  omega

theorem head_ne_of_letters (h : ∀ c ∈ word, 65 ≤ c.toNat ∧ c.toNat ≤ 122) {d : Char}
    (hd : d.toNat < 65) : word.head? ≠ some d := by
  intro heq
  have hrange := h d (List.mem_of_mem_head? heq)
  omega

/-- A number behind its sign begins with a digit or a point. -/
theorem decimal_head
    (h : Decimal (Digits isDecimalNumber digitValue) core negative magnitude) :
    ∃ sign c rest, core = sign ++ c :: rest ∧ Sign sign negative ∧
      (isDecimalNumber c = true ∨ c = '.') := by
  cases h with
  | mk hsign hmantissa hexponent =>
      cases hmantissa with
      | whole hdigits =>
          rcases digits_head hdigits with ⟨c, rest, rfl, hc, _⟩
          exact ⟨_, c, _, rfl, hsign, .inl hc⟩
      | point hinteger hfraction hsome =>
          cases hinteger with
          | missing => exact ⟨_, '.', _, rfl, hsign, .inr rfl⟩
          | digits hdigits =>
              rcases digits_head hdigits with ⟨c, rest, rfl, hc, _⟩
              exact ⟨_, c, _, rfl, hsign, .inl hc⟩

variable {F : Type} (float : Float64 F)

/-- A spelling is told apart by what follows its sign. -/
theorem parsePythonFloat_split
    (htrim : Text.trimMatches isPythonWhitespace text = sign ++ rest)
    (hsign : Sign sign negative) (hne : rest ≠ []) (hplus : rest.head? ≠ some '+')
    (hminus : rest.head? ≠ some '-') :
    parsePythonFloat isDecimalNumber float text =
      if Text.toAsciiLowercase rest = "nan".toList then
        some (if negative then float.negNan else float.nan)
      else if Text.toAsciiLowercase rest = "inf".toList ∨
          Text.toAsciiLowercase rest = "infinity".toList then
        some (if negative then float.negInfinity else float.infinity)
      else match normalizeFloat isDecimalNumber none (sign ++ rest) with
        | none => none
        | some normalized =>
            if validDecimalFloatShape normalized then float.parse normalized
            else none := by
  have hempty : ¬ (sign ++ rest).isEmpty = true := by
    rw [List.isEmpty_iff]
    exact List.append_ne_nil_of_right_ne_nil sign hne
  unfold parsePythonFloat
  rw [htrim]
  dsimp only
  rw [if_neg hempty]
  generalize hsplit : splitSign (sign ++ rest) = split
  rw [splitSign_append hsign hplus hminus] at hsplit
  subst hsplit
  rfl

theorem trim_special (hsurrounded : Surrounded (sign ++ word) text)
    (hsign : Sign sign negative) (hword : Text.toAsciiLowercase word ∈ specialWords) :
    Text.trimMatches isPythonWhitespace text = sign ++ word := by
  apply trim_of_surrounded hsurrounded
  intro c hc
  rcases List.mem_append.1 hc with hc | hc
  · exact sign_nonblank hsign c hc
  · exact letter_nonblank ((specialWords_letters hword).2 c hc)

theorem parsePythonFloat_nan
    (h : PythonFloat isDecimalNumber digitValue text (.nan negative)) :
    parsePythonFloat isDecimalNumber float text =
      some (if negative then float.negNan else float.nan) := by
  rcases h with ⟨core, hsurrounded, hcore⟩
  cases hcore with
  | @nan _ word _ hsign hword =>
      have hspecial : Text.toAsciiLowercase word ∈ specialWords := by
        rw [hword]
        exact List.mem_cons_self
      rcases specialWords_letters hspecial with ⟨hne, hletters⟩
      rw [parsePythonFloat_split float (trim_special hsurrounded hsign hspecial) hsign hne
        (head_ne_of_letters hletters (by decide))
        (head_ne_of_letters hletters (by decide)), if_pos hword]

theorem parsePythonFloat_infinity
    (h : PythonFloat isDecimalNumber digitValue text (.infinity negative)) :
    parsePythonFloat isDecimalNumber float text =
      some (if negative then float.negInfinity else float.infinity) := by
  rcases h with ⟨core, hsurrounded, hcore⟩
  cases hcore with
  | @infinity _ word _ hsign hword =>
      have hspecial : Text.toAsciiLowercase word ∈ specialWords := by
        rcases hword with hword | hword <;> rw [hword] <;> decide
      rcases specialWords_letters hspecial with ⟨hne, hletters⟩
      have hnan : Text.toAsciiLowercase word ≠ "nan".toList := by
        rcases hword with hword | hword <;> rw [hword] <;> decide
      rw [parsePythonFloat_split float (trim_special hsurrounded hsign hspecial) hsign hne
        (head_ne_of_letters hletters (by decide))
        (head_ne_of_letters hletters (by decide)), if_neg hnan, if_pos hword]

/-- A number is handed on as its normalized text. -/
theorem parsePythonFloat_number (htable : DecimalDigits isDecimalNumber digitValue)
    (hsurrounded : Surrounded core text)
    (hnumber : Decimal (Digits isDecimalNumber digitValue) core negative magnitude) :
    Text.trimMatches isPythonWhitespace text = core ∧
      ∃ ascii, normalizeFloat isDecimalNumber none core = some ascii ∧
        Decimal Plain ascii negative magnitude ∧
        parsePythonFloat isDecimalNumber float text = float.parse ascii := by
  rcases normalizeFloat_of_decimal htable hnumber with ⟨ascii, hascii, hplain⟩
  have htrim := trim_of_surrounded hsurrounded (normalizeFloat_chars htable hascii).1
  refine ⟨htrim, ascii, hascii, hplain, ?_⟩
  rcases decimal_head hnumber with ⟨sign, c, rest, rfl, hsign, hc⟩
  have hrange : ¬ (65 ≤ c.toNat ∧ c.toNat ≤ 122) := by
    intro hletter
    rcases hc with hc | rfl
    · have hdigit := htable.ascii c (by omega)
      rw [hc] at hdigit
      have hsmall := (digitChar_of_isDigit hdigit.symm).1
      omega
    · exact absurd hletter.1 (by decide)
  have hspecial : Text.toAsciiLowercase (c :: rest) ∉ specialWords :=
    fun h => hrange ((specialWords_letters h).2 c List.mem_cons_self)
  have hhead {d : Char} (hd : IsSymbol d) (hpoint : d ≠ '.') :
      (c :: rest).head? ≠ some d := by
    intro heq
    rw [List.head?_cons, Option.some.injEq] at heq
    rcases hc with hc | hc
    · rw [heq, not_decimal htable (symbol_ascii hd).1 (symbol_ascii hd).2.1] at hc
      exact Bool.false_ne_true hc
    · exact hpoint (heq ▸ hc)
  have hnan : Text.toAsciiLowercase (c :: rest) ≠ "nan".toList :=
    fun h => hspecial (h ▸ List.mem_cons_self)
  have hinfinity : ¬ (Text.toAsciiLowercase (c :: rest) = "inf".toList ∨
      Text.toAsciiLowercase (c :: rest) = "infinity".toList) := by
    intro h
    apply hspecial
    rcases h with h | h <;> rw [h] <;> decide
  rw [parsePythonFloat_split float htrim hsign (List.cons_ne_nil _ _)
    (hhead (.inl rfl) (by decide)) (hhead (.inr (.inl rfl)) (by decide)),
    if_neg hnan, if_neg hinfinity, hascii]
  exact if_pos (validDecimalFloatShape_of_decimal hplain)

/-- Only spellings of Python's are accepted. -/
theorem pythonFloat_of_some (htable : DecimalDigits isDecimalNumber digitValue)
    (h : (parsePythonFloat isDecimalNumber float text).isSome) :
    ∃ value, PythonFloat isDecimalNumber digitValue text value := by
  rcases splitSign_sign (Text.trimMatches isPythonWhitespace text) with
    ⟨sign, hsign, hsplit⟩
  have hsurrounded := surrounded_trim text
  unfold parsePythonFloat at h
  dsimp only at h
  split at h
  · exact nomatch h
  · split at h
    · next hword =>
        rw [hsplit] at hsurrounded
        exact ⟨_, _, hsurrounded, .nan hsign hword⟩
    · split at h
      · next hword =>
          rw [hsplit] at hsurrounded
          exact ⟨_, _, hsurrounded, .infinity hsign hword⟩
      · split at h
        · exact nomatch h
        · next normalized hnormalized =>
            split at h
            · next hvalid =>
                rcases decimal_of_valid htable hnormalized hvalid with
                  ⟨negative, value, hnumber⟩
                exact ⟨_, _, hsurrounded, .number hnumber⟩
            · exact nomatch h

/-- The scanner of floating-point numbers agrees with Python's on a text: it
accepts what Python accepts, takes the words for what they say, and hands on an
ASCII text of the same number. -/
structure FloatAgreement (isDecimalNumber : Char → Bool) (digitValue : Char → Nat)
    (float : Float64 F) (text : Text) : Prop where
  accepted : (parsePythonFloat isDecimalNumber float text).isSome ↔
    ∃ value, PythonFloat isDecimalNumber digitValue text value
  nan : ∀ negative, PythonFloat isDecimalNumber digitValue text (.nan negative) →
    parsePythonFloat isDecimalNumber float text =
      some (if negative then float.negNan else float.nan)
  infinity : ∀ negative,
    PythonFloat isDecimalNumber digitValue text (.infinity negative) →
    parsePythonFloat isDecimalNumber float text =
      some (if negative then float.negInfinity else float.infinity)
  number : ∀ negative magnitude,
    PythonFloat isDecimalNumber digitValue text (.number negative magnitude) →
    ∃ ascii, (∀ c ∈ ascii, c.toNat < 0x80) ∧
      (∀ minus value,
        PythonFloat isDecimalNumber digitValue text (.number minus value) ↔
          Decimal Plain ascii minus value) ∧
      parsePythonFloat isDecimalNumber float text = float.parse ascii

/-- Both scanners of numbers agree with Python's on every text.  The platform's
parser accepts every ASCII spelling of a number. -/
theorem python_numbers (htable : DecimalDigits isDecimalNumber digitValue)
    (hparse : ∀ ascii minus value, Decimal Plain ascii minus value →
      (float.parse ascii).isSome) (text : Text) :
    IntAgreement isDecimalNumber digitValue text ∧
      FloatAgreement isDecimalNumber digitValue float text := by
  refine ⟨intAgreement htable text, ?_, ?_, ?_, ?_⟩
  · constructor
    · exact pythonFloat_of_some float htable
    · intro h
      rcases h with ⟨value, hvalue⟩
      cases value with
      | nan negative =>
          rw [parsePythonFloat_nan float hvalue]
          rfl
      | infinity negative =>
          rw [parsePythonFloat_infinity float hvalue]
          rfl
      | number negative magnitude =>
          rcases hvalue with ⟨core, hsurrounded, hcore⟩
          cases hcore with
          | number hnumber =>
              rcases parsePythonFloat_number float htable hsurrounded hnumber with
                ⟨_, ascii, _, hplain, hresult⟩
              rw [hresult]
              exact hparse ascii _ _ hplain
  · exact fun negative h => parsePythonFloat_nan float h
  · exact fun negative h => parsePythonFloat_infinity float h
  · intro negative magnitude h
    rcases h with ⟨core, hsurrounded, hcore⟩
    cases hcore with
    | number hnumber =>
        rcases parsePythonFloat_number float htable hsurrounded hnumber with
          ⟨htrim, ascii, hascii, hplain, hresult⟩
        refine ⟨ascii, (normalizeFloat_chars htable hascii).2, ?_, hresult⟩
        intro minus value
        constructor
        · intro hother
          rcases hother with ⟨core', hsurrounded', hcore'⟩
          cases hcore' with
          | number hnumber' =>
              rcases parsePythonFloat_number float htable hsurrounded' hnumber' with
                ⟨htrim', ascii', hascii', hplain', _⟩
              rw [← htrim', htrim, hascii, Option.some.injEq] at hascii'
              rw [hascii']
              exact hplain'
        · intro hother
          have hread := (readDecimal_eq hplain).symm.trans (readDecimal_eq hother)
          rw [← (Prod.mk.inj hread).1, ← (Prod.mk.inj hread).2]
          exact ⟨core, hsurrounded, .number hnumber⟩

end Words

namespace NumberSample

/-- The decimal digits of ASCII and the Arabic-Indic ones. -/
def isDecimal (c : Char) : Bool := c.isDigit || (0x660 ≤ c.toNat && c.toNat ≤ 0x669)

def value (c : Char) : Nat :=
  if c.toNat < 0x80 then c.toNat - 0x30 else c.toNat - 0x660

theorem isDecimal_cases {c : Char} (h : isDecimal c = true) :
    (0x30 ≤ c.toNat ∧ c.toNat ≤ 0x39) ∨ (0x660 ≤ c.toNat ∧ c.toNat ≤ 0x669) := by
  unfold isDecimal Char.isDigit at h
  simp only [Bool.or_eq_true, Bool.and_eq_true, decide_eq_true_eq] at h
  rcases h with ⟨hleast, hmost⟩ | h
  · exact .inl ⟨UInt32.le_iff_toNat_le.1 hleast, UInt32.le_iff_toNat_le.1 hmost⟩
  · exact .inr h

theorem table : DecimalDigits isDecimal value := by
  have hten : ∀ digit < 10,
      (isDecimal (Char.ofNat (0x30 + digit)) = true ∧
        value (Char.ofNat (0x30 + digit)) = digit ∧
        (Char.ofNat (0x30 + digit)).toNat = 0x30 + digit) ∧
      isDecimal (Char.ofNat (0x660 + digit)) = true ∧
        value (Char.ofNat (0x660 + digit)) = digit ∧
        (Char.ofNat (0x660 + digit)).toNat = 0x660 + digit := by
    decide
  constructor
  · intro c hc
    unfold value
    rcases isDecimal_cases hc with hrange | hrange
    · rw [if_pos (by omega)]
      omega
    · rw [if_neg (by omega)]
      omega
  · intro c hc digit hdigit
    rcases hten digit hdigit with ⟨⟨hascii, hasciiValue, hasciiPlace⟩,
      harabic, harabicValue, harabicPlace⟩
    rcases isDecimal_cases hc with hrange | hrange
    · refine ⟨_, hascii, hasciiValue, ?_⟩
      rw [value, if_pos (by omega)]
      omega
    · refine ⟨_, harabic, harabicValue, ?_⟩
      rw [value, if_neg (by omega)]
      omega
  · intro c hascii
    unfold isDecimal
    rw [decide_eq_false (by omega : ¬ 0x660 ≤ c.toNat), Bool.false_and, Bool.or_false]
  · intro c hblank
    rw [← Bool.not_eq_true]
    intro hc
    unfold isPythonWhitespace at hblank
    rw [decide_eq_true_iff] at hblank
    rcases isDecimal_cases hc with hrange | hrange <;> omega

/-- Numbers as their sign and magnitude. -/
def float : Float64 (Bool × ℚ) where
  parse text := if validDecimalFloatShape text then some (readDecimal text) else none
  display _ := []
  pythonRepr _ := []
  isFinite _ := true
  inCosineRange number := number.2 ≤ 1
  isNegative number := number.1 && 0 < number.2
  nan := (false, 0)
  negNan := (true, 0)
  infinity := (false, 0)
  negInfinity := (true, 0)

def spelling : Text := " -1_\u0662\u0085".toList

example : parsePythonInt isDecimal spelling = some ⟨0, "-12".toList, true⟩ := by decide

theorem python_numbers_spelling : IntAgreement isDecimal value spelling ∧
    FloatAgreement isDecimal value float spelling := by
  apply python_numbers float table
  intro ascii minus value hdecimal
  change (if validDecimalFloatShape ascii = true then some (readDecimal ascii)
    else none).isSome
  rw [if_pos (validDecimalFloatShape_of_decimal hdecimal)]
  rfl

end NumberSample

end Yams
