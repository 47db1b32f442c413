/-
Integers as Python spells them.  The scanner of the command line accepts exactly
the spellings of `int`, and its count is the integer that a spelling denotes.
-/
import Mathlib.Data.List.DropRight
import Yams.Arguments
import Yams.Numerals
import Yams.WikiPageReading

namespace Yams

open Numerals

/-- Decimal digits as Unicode has them: every one belongs to ten consecutive
characters with the values from zero to nine, the ASCII ones are the usual ten,
and none is white space. -/
structure DecimalDigits (isDecimalNumber : Char → Bool) (digitValue : Char → Nat) :
    Prop where
  value_lt : ∀ c, isDecimalNumber c = true → digitValue c < 10
  ten : ∀ c, isDecimalNumber c = true → ∀ value < 10, ∃ digit,
    isDecimalNumber digit = true ∧ digitValue digit = value ∧
      digit.toNat + digitValue c = c.toNat + value
  ascii : ∀ c, c.toNat < 0x80 → isDecimalNumber c = c.isDigit
  blank : ∀ c, isPythonWhitespace c = true → isDecimalNumber c = false

section Spelling

variable (isDecimalNumber : Char → Bool) (digitValue : Char → Nat)

/-- Decimal digits with single underscores between them. -/
inductive Digits : Text → List Nat → Prop
  | last {c : Char} (hc : isDecimalNumber c = true) : Digits [c] [digitValue c]
  | next {c : Char} {rest : Text} {digits : List Nat}
      (hc : isDecimalNumber c = true) (hrest : Digits rest digits) :
      Digits (c :: rest) (digitValue c :: digits)
  | grouped {c : Char} {rest : Text} {digits : List Nat}
      (hc : isDecimalNumber c = true) (hrest : Digits rest digits) :
      Digits (c :: '_' :: rest) (digitValue c :: digits)

/-- A spelling with white space around it. -/
def Surrounded (core text : Text) : Prop :=
  ∃ before after, (∀ c ∈ before, isPythonWhitespace c = true) ∧
    (∀ c ∈ after, isPythonWhitespace c = true) ∧ text = before ++ (core ++ after)

/-- The sign and the digits of an integer. -/
def IntDigits (text : Text) (negative : Bool) (digits : List Nat) : Prop :=
  ∃ sign spelled, Surrounded (sign ++ spelled) text ∧ Sign sign negative ∧
    Digits isDecimalNumber digitValue spelled digits ∧ digits.length ≤ 4300

/-- The spellings that Python's `int` takes for a number. -/
def PythonInt (text : Text) (value : Int) : Prop :=
  ∃ negative digits, IntDigits isDecimalNumber digitValue text negative digits ∧
    value = signed negative (digitsValue digits)

end Spelling

section DigitTable

variable {isDecimalNumber : Char → Bool} {digitValue : Char → Nat}

/-- The place of a digit in its block tells its value. -/
theorem blockStart_value (h : DecimalDigits isDecimalNumber digitValue) (n : Nat) :
    ∀ c : Char, c.toNat = n → isDecimalNumber c = true →
      blockStart isDecimalNumber n ≤ n ∧
        (n - blockStart isDecimalNumber n) % 10 = digitValue c := by
  induction n with
  | zero =>
      intro c hzero hc
      have hascii := h.ascii c (by omega)
      rw [hc, Char.toNat_inj.1 (hzero.trans (by rfl : 0 = (Char.ofNat 0).toNat))]
        at hascii
      exact absurd hascii (by decide)
  | succ n ih =>
      intro c hn hc
      have hlt := h.value_lt c hc
      rw [blockStart]
      split
      · next hprevious =>
          have hchar : (Char.ofNat n).toNat = n := by
            rw [Char.ofNat, dif_pos hprevious.1]
            rfl
          rcases ih (Char.ofNat n) hchar hprevious.2 with ⟨hle, hvalue⟩
          have hprevlt := h.value_lt _ hprevious.2
          have hstep : digitValue c = (digitValue (Char.ofNat n) + 1) % 10 := by
            by_cases hnine : digitValue (Char.ofNat n) = 9
            · by_contra hne
              -- the predecessor would be a digit of the same ten, one lower
              rcases h.ten c hc (digitValue c - 1) (by omega) with
                ⟨digit, hdigit, hdigitValue, hplace⟩
              have hsame : digit = Char.ofNat n := by
                apply Char.toNat_inj.1
                omega
              rw [hsame] at hdigitValue
              omega
            · rcases h.ten _ hprevious.2 (digitValue (Char.ofNat n) + 1)
                (by omega) with ⟨digit, hdigit, hdigitValue, hplace⟩
              have hsame : digit = c := by
                apply Char.toNat_inj.1
                omega
              rw [hsame] at hdigitValue
              omega
          exact ⟨by omega, by omega⟩
      · next hstart =>
          refine ⟨Nat.le_refl _, ?_⟩
          by_contra hne
          rcases h.ten c hc (digitValue c - 1) (by omega) with
            ⟨digit, hdigit, hdigitValue, hplace⟩
          have hplace' : digit.toNat = n := by omega
          apply hstart
          rw [← hplace', Char.ofNat_toNat]
          exact ⟨digit.valid, hdigit⟩

theorem decimalDigit_eq (h : DecimalDigits isDecimalNumber digitValue) (c : Char) :
    decimalDigit isDecimalNumber c =
      if isDecimalNumber c then some (digitValue c) else none := by
  unfold decimalDigit
  split
  · next hc => rw [(blockStart_value h c.toNat c rfl hc).2]
  · rfl

/-- The ASCII digits have their usual values. -/
theorem digitChar_value (h : DecimalDigits isDecimalNumber digitValue) :
    ∀ digit < 10, isDecimalNumber (Nat.digitChar digit) = true ∧
      digitValue (Nat.digitChar digit) = digit := by
  intro digit hdigit
  have hzero : isDecimalNumber '0' = true := h.ascii '0' (by decide)
  have hfirst : digitValue '0' = 0 := by
    by_contra hne
    have hlt := h.value_lt '0' hzero
    rcases h.ten '0' hzero (digitValue '0' - 1) (by omega) with
      ⟨before, hbefore, hvalue, hplace⟩
    have hcode : before.toNat = 47 := by
      change before.toNat + digitValue '0' = 48 + _ at hplace
      omega
    have hascii := h.ascii before (by omega)
    rw [hbefore, Char.toNat_inj.1 (hcode.trans (by rfl : 47 = '/'.toNat))] at hascii
    exact absurd hascii (by decide)
  rcases h.ten '0' hzero digit hdigit with ⟨found, hfound, hvalue, hplace⟩
  have hsame : found = Nat.digitChar digit := by
    apply Char.toNat_inj.1
    rw [Nat.toNat_digitChar_of_lt_ten hdigit]
    change found.toNat + digitValue '0' = 48 + digit at hplace
    omega
  rw [← hsame]
  exact ⟨hfound, hvalue⟩

/-- An ASCII character that is no digit is no decimal digit. -/
theorem not_decimal (h : DecimalDigits isDecimalNumber digitValue) {c : Char}
    (hascii : c.toNat < 0x80) (hc : c.isDigit = false) : isDecimalNumber c = false :=
  (h.ascii c hascii).trans hc

end DigitTable

section Blanks

variable {core text : Text}

theorem surrounded_trim (text : Text) :
    Surrounded (Text.trimMatches isPythonWhitespace text) text := by
  refine ⟨text.takeWhile isPythonWhitespace,
    ((text.dropWhile isPythonWhitespace).reverse.takeWhile isPythonWhitespace).reverse,
    fun _ hc => List.mem_takeWhile_imp hc,
    fun _ hc => List.mem_takeWhile_imp (List.mem_reverse.1 hc), ?_⟩
  rw [Text.trimMatches, ← List.reverse_append, List.takeWhile_append_dropWhile,
    List.reverse_reverse, List.takeWhile_append_dropWhile]

theorem trim_of_surrounded (h : Surrounded core text)
    (hcore : ∀ c ∈ core, isPythonWhitespace c = false) :
    Text.trimMatches isPythonWhitespace text = core := by
  rcases h with ⟨before, after, hbefore, hafter, rfl⟩
  have hleft : Text.trimMatches isPythonWhitespace (before ++ (core ++ after)) =
      Text.trimMatches isPythonWhitespace (core ++ after) := by
    unfold Text.trimMatches
    rw [List.dropWhile_append_of_pos hbefore]
  rw [hleft, Wiki.trimMatches_append_of_blank hafter]
  exact Wiki.trimMatches_eq_self hcore

end Blanks

theorem sign_nonblank {sign : Text} {negative : Bool} (hsign : Sign sign negative) :
    ∀ c ∈ sign, isPythonWhitespace c = false := by
  cases hsign with
  | absent => exact fun _ h => absurd h List.not_mem_nil
  | plus =>
      intro c hc
      rw [List.mem_singleton.1 hc]
      rfl
  | minus =>
      intro c hc
      rw [List.mem_singleton.1 hc]
      rfl

section DigitTexts

variable {isDecimalNumber : Char → Bool} {digitValue : Char → Nat}
  {text : Text} {digits : List Nat}

theorem digits_chars (h : Digits isDecimalNumber digitValue text digits) :
    ∀ c ∈ text, isDecimalNumber c = true ∨ c = '_' := by
  induction h with
  | last hc =>
      intro c hmem
      rw [List.mem_singleton.1 hmem]
      exact .inl hc
  | next hc hrest ih =>
      intro c hmem
      rcases List.mem_cons.1 hmem with rfl | hmem
      · exact .inl hc
      · exact ih c hmem
  | grouped hc hrest ih =>
      intro c hmem
      rcases List.mem_cons.1 hmem with rfl | hmem
      · exact .inl hc
      · rcases List.mem_cons.1 hmem with rfl | hmem
        · exact .inr rfl
        · exact ih c hmem

theorem digits_head (h : Digits isDecimalNumber digitValue text digits) :
    ∃ c rest, text = c :: rest ∧ isDecimalNumber c = true ∧ digits ≠ [] := by
  cases h with
  | last hc => exact ⟨_, _, rfl, hc, List.cons_ne_nil _ _⟩
  | next hc hrest => exact ⟨_, _, rfl, hc, List.cons_ne_nil _ _⟩
  | grouped hc hrest => exact ⟨_, _, rfl, hc, List.cons_ne_nil _ _⟩

theorem digits_lt (htable : DecimalDigits isDecimalNumber digitValue)
    (h : Digits isDecimalNumber digitValue text digits) : ∀ digit ∈ digits, digit < 10 := by
  induction h with
  | last hc =>
      intro digit hmem
      rw [List.mem_singleton.1 hmem]
      exact htable.value_lt _ hc
  | next hc hrest ih =>
      intro digit hmem
      rcases List.mem_cons.1 hmem with rfl | hmem
      · exact htable.value_lt _ hc
      · exact ih digit hmem
  | grouped hc hrest ih =>
      intro digit hmem
      rcases List.mem_cons.1 hmem with rfl | hmem
      · exact htable.value_lt _ hc
      · exact ih digit hmem

theorem digits_nonblank (htable : DecimalDigits isDecimalNumber digitValue)
    (h : Digits isDecimalNumber digitValue text digits) :
    ∀ c ∈ text, isPythonWhitespace c = false := by
  intro c hc
  rcases digits_chars h c hc with hdecimal | rfl
  · by_contra hblank
    rw [Bool.not_eq_false] at hblank
    rw [htable.blank c hblank] at hdecimal
    exact Bool.false_ne_true hdecimal
  · rfl

/-- The ASCII digits are digits of Python's. -/
theorem digits_plain (htable : DecimalDigits isDecimalNumber digitValue)
    (hne : digits ≠ []) (hsmall : ∀ digit ∈ digits, digit < 10) :
    Digits isDecimalNumber digitValue (digits.map Nat.digitChar) digits := by
  induction digits with
  | nil => exact absurd rfl hne
  | cons digit digits ih =>
      rcases digitChar_value htable digit (hsmall digit List.mem_cons_self) with
        ⟨hdecimal, hvalue⟩
      cases digits with
      | nil =>
          have h : Digits isDecimalNumber digitValue [Nat.digitChar digit]
              [digitValue (Nat.digitChar digit)] := .last hdecimal
          rwa [hvalue] at h
      | cons second digits =>
          have hrest := ih (List.cons_ne_nil _ _)
            fun d hd => hsmall d (List.mem_cons_of_mem _ hd)
          have h := Digits.next hdecimal hrest
          rwa [hvalue] at h

end DigitTexts

section Integers

variable {isDecimalNumber : Char → Bool} {digitValue : Char → Nat}
  {text : Text} {digits : List Nat}

/-- The scanner takes digits with single underscores between them, as long as
they are not too many. -/
theorem normalizeDigits_of_digits (htable : DecimalDigits isDecimalNumber digitValue)
    (h : Digits isDecimalNumber digitValue text digits) :
    ∀ (previousWasDigit : Bool) (found : List Nat),
      found.length + digits.length ≤ 4300 →
      normalizeDigits isDecimalNumber text previousWasDigit found =
        some (found ++ digits) := by
  have hunderscore : isDecimalNumber '_' = false := not_decimal htable (by decide) rfl
  have hne {c : Char} (hc : isDecimalNumber c = true) : c ≠ '_' := by
    intro heq
    rw [heq, hunderscore] at hc
    exact Bool.false_ne_true hc
  induction h with
  | last hc =>
      intro previousWasDigit found hlength
      rw [List.length_singleton] at hlength
      rw [normalizeDigits, if_neg (hne hc), decimalDigit_eq htable, if_pos hc]
      dsimp only
      rw [if_neg (by omega), normalizeDigits, if_pos rfl]
  | @next c _ digits hc hrest ih =>
      intro previousWasDigit found hlength
      rw [List.length_cons] at hlength
      have hnext : (found ++ [digitValue c]).length + digits.length ≤ 4300 := by
        rw [List.length_append, List.length_singleton]
        omega
      rw [normalizeDigits, if_neg (hne hc), decimalDigit_eq htable, if_pos hc]
      dsimp only
      rw [if_neg (by omega), ih _ _ hnext, List.append_assoc, List.singleton_append]
  | @grouped c _ digits hc hrest ih =>
      intro previousWasDigit found hlength
      rw [List.length_cons] at hlength
      have hnext : (found ++ [digitValue c]).length + digits.length ≤ 4300 := by
        rw [List.length_append, List.length_singleton]
        omega
      rw [normalizeDigits, if_neg (hne hc), decimalDigit_eq htable, if_pos hc]
      dsimp only
      rw [if_neg (by omega), normalizeDigits, if_pos rfl, if_pos rfl,
        ih _ _ hnext, List.append_assoc, List.singleton_append]

/-- Nothing else gets through the scanner: after a digit the text is at its end,
goes on with digits, or with an underscore and digits. -/
theorem digits_of_normalizeDigits (htable : DecimalDigits isDecimalNumber digitValue)
    {previousWasDigit : Bool} {found result : List Nat}
    (hfound : found.length ≤ 4300)
    (h : normalizeDigits isDecimalNumber text previousWasDigit found = some result) :
    result.length ≤ 4300 ∧ ∃ digits, result = found ++ digits ∧
      (Digits isDecimalNumber digitValue text digits ∨ previousWasDigit = true ∧
        (text = [] ∧ digits = [] ∨ ∃ rest, text = '_' :: rest ∧
          Digits isDecimalNumber digitValue rest digits)) := by
  induction text generalizing previousWasDigit found with
  | nil =>
      rw [normalizeDigits] at h
      split at h
      · next hprevious =>
          rw [← Option.some.inj h]
          exact ⟨hfound, [], (List.append_nil _).symm, .inr ⟨hprevious, .inl ⟨rfl, rfl⟩⟩⟩
      · exact nomatch h
  | cons c rest ih =>
      rw [normalizeDigits] at h
      split at h
      · next hunderscore =>
          split at h
          · next hprevious =>
              rcases ih hfound h with ⟨hlength, digits, hresult, hrest⟩
              refine ⟨hlength, digits, hresult, .inr ⟨hprevious, .inr ⟨rest, ?_, ?_⟩⟩⟩
              · rw [hunderscore]
              · rcases hrest with hrest | ⟨hfalse, _⟩
                · exact hrest
                · exact absurd hfalse Bool.false_ne_true
          · exact nomatch h
      · rw [decimalDigit_eq htable] at h
        by_cases hc : isDecimalNumber c = true
        · rw [if_pos hc] at h
          dsimp only at h
          split at h
          · exact nomatch h
          · have hnext : (found ++ [digitValue c]).length ≤ 4300 := by
              rw [List.length_append, List.length_singleton]
              omega
            rcases ih hnext h with ⟨hlength, digits, hresult, hrest⟩
            refine ⟨hlength, digitValue c :: digits, ?_, .inl ?_⟩
            · rw [hresult, List.append_assoc, List.singleton_append]
            · rcases hrest with hrest | ⟨_, ⟨rfl, rfl⟩ | ⟨more, rfl, hmore⟩⟩
              · exact .next hc hrest
              · exact .last hc
              · exact .grouped hc hmore
        · rw [if_neg hc] at h
          exact nomatch h

theorem splitSign_append {sign rest : Text} {negative : Bool}
    (hsign : Sign sign negative) (hplus : rest.head? ≠ some '+')
    (hminus : rest.head? ≠ some '-') :
    splitSign (sign ++ rest) = (negative, rest) := readSign_append hsign hplus hminus

/-- A sign that is split off was there. -/
theorem splitSign_sign (text : Text) : ∃ sign, Sign sign (splitSign text).1 ∧
    text = sign ++ (splitSign text).2 := by
  unfold splitSign
  split
  · exact ⟨_, .minus, rfl⟩
  · exact ⟨_, .plus, rfl⟩
  · exact ⟨_, .absent, rfl⟩

/-- The scanner finds the sign and the digits of an integer. -/
theorem intDigits_scan (htable : DecimalDigits isDecimalNumber digitValue)
    {negative : Bool} (h : IntDigits isDecimalNumber digitValue text negative digits) :
    ∃ spelled, splitSign (Text.trimMatches isPythonWhitespace text) =
        (negative, spelled) ∧ spelled ≠ [] ∧
      normalizeDigits isDecimalNumber spelled false [] = some digits := by
  rcases h with ⟨sign, spelled, hsurrounded, hsign, hdigits, hlength⟩
  have hnonblank : ∀ c ∈ sign ++ spelled, isPythonWhitespace c = false := by
    intro c hc
    rcases List.mem_append.1 hc with hc | hc
    · exact sign_nonblank hsign c hc
    · exact digits_nonblank htable hdigits c hc
  rcases digits_head hdigits with ⟨first, rest, hspelled, hfirst, _⟩
  have hhead {c : Char} (hc : isDecimalNumber c = false) : spelled.head? ≠ some c := by
    rw [hspelled]
    intro heq
    rw [← Option.some.inj heq, hfirst] at hc
    exact Bool.true_eq_false.mp hc
  have hplus := hhead (not_decimal htable (by decide : '+'.toNat < 0x80) rfl)
  have hminus := hhead (not_decimal htable (by decide : '-'.toNat < 0x80) rfl)
  refine ⟨spelled, ?_, ?_, ?_⟩
  · rw [trim_of_surrounded hsurrounded hnonblank, splitSign_append hsign hplus hminus]
  · rw [hspelled]
    exact List.cons_ne_nil _ _
  · have hnone : ([] : List Nat).length + digits.length ≤ 4300 := by
      rw [List.length_nil, Nat.zero_add]
      exact hlength
    rw [normalizeDigits_of_digits htable hdigits false [] hnone, List.nil_append]

/-- A text denotes one integer at most. -/
theorem pythonInt_unique (htable : DecimalDigits isDecimalNumber digitValue)
    {value other : Int} (hvalue : PythonInt isDecimalNumber digitValue text value)
    (hother : PythonInt isDecimalNumber digitValue text other) : value = other := by
  rcases hvalue with ⟨negative, digits, hdigits, rfl⟩
  rcases hother with ⟨negative', digits', hdigits', rfl⟩
  rcases intDigits_scan htable hdigits with ⟨spelled, hsplit, _, hscan⟩
  rcases intDigits_scan htable hdigits' with ⟨spelled', hsplit', _, hscan'⟩
  rw [hsplit', Prod.mk.injEq] at hsplit
  rw [← hsplit.2, hscan', Option.some.injEq] at hscan
  rw [hsplit.1, hscan]

/-- An integer is accepted by its sign and its digits. -/
theorem parsePythonInt_iff (htable : DecimalDigits isDecimalNumber digitValue)
    {count : CountArgument} :
    parsePythonInt isDecimalNumber text = some count ↔ ∃ negative digits,
      IntDigits isDecimalNumber digitValue text negative digits ∧
        count = countOf negative digits := by
  unfold parsePythonInt
  constructor
  · intro h
    rcases splitSign_sign (Text.trimMatches isPythonWhitespace text) with
      ⟨sign, hsign, hsplit⟩
    dsimp only at h
    split at h
    · exact nomatch h
    · rcases Option.map_eq_some_iff.1 h with ⟨result, hresult, hcount⟩
      rcases digits_of_normalizeDigits htable (Nat.zero_le _) hresult with
        ⟨hlength, digits, hsame, hdigits⟩
      rw [List.nil_append] at hsame
      rw [hsame] at hlength hcount
      refine ⟨_, digits, ⟨sign, (splitSign (Text.trimMatches isPythonWhitespace text)).2,
        ?_, hsign, ?_, hlength⟩, hcount.symm⟩
      · rw [← hsplit]
        exact surrounded_trim text
      · rcases hdigits with hdigits | ⟨hfalse, _⟩
        · exact hdigits
        · exact absurd hfalse Bool.false_ne_true
  · intro h
    rcases h with ⟨negative, digits, hdigits, rfl⟩
    rcases intDigits_scan htable hdigits with ⟨spelled, hsplit, hne, hscan⟩
    rw [hsplit]
    dsimp only
    rw [if_neg fun hempty => hne (List.isEmpty_iff.1 hempty), hscan]
    rfl

/-- A count stops at the largest `usize`, and goes on counting from there. -/
theorem foldl_saturate (digits : List Nat) (start : Nat) :
    digits.foldl (fun value digit =>
        if value * 10 + digit ≤ usizeMax then value * 10 + digit else usizeMax)
      (min start usizeMax) =
      min (digits.foldl (fun value digit => value * 10 + digit) start) usizeMax := by
  induction digits generalizing start with
  | nil => rfl
  | cons digit digits ih =>
      rw [List.foldl_cons, List.foldl_cons, ← ih]
      congr 1
      have hmax : usizeMax = 18446744073709551615 := rfl
      split <;> omega

theorem saturate_eq (digits : List Nat) :
    saturate digits = min (digitsValue digits) usizeMax := foldl_saturate digits 0

/-- The significant digits of a number that is not zero begin with one. -/
theorem significant_cases (digits : List Nat) :
    (digits.dropWhile fun digit => digit = 0) = [] ∧ digitsValue digits = 0 ∨
      ∃ first rest, (digits.dropWhile fun digit => digit = 0) = first :: rest ∧
        first ≠ 0 ∧ 0 < digitsValue digits := by
  have hvalue := digitsValue_dropWhile digits
  rcases hsignificant : digits.dropWhile fun digit => digit = 0 with _ | ⟨first, rest⟩
  · rw [hsignificant] at hvalue
    exact .inl ⟨hsignificant, hvalue.symm⟩
  · have hfirst : first ≠ 0 := by
      have hhead := List.head?_dropWhile_not (fun digit : Nat => decide (digit = 0)) digits
      rw [hsignificant] at hhead
      simpa using hhead
    rw [hsignificant] at hvalue
    exact .inr ⟨first, rest, hsignificant, hfirst, hvalue ▸ digitsValue_pos rest hfirst⟩

theorem countOf_of_zero {negative : Bool} (h : digitsValue digits = 0) :
    countOf negative digits = ⟨0, "0".toList, true⟩ := by
  rcases significant_cases digits with ⟨hnone, _⟩ | ⟨_, _, _, _, hpositive⟩
  · unfold countOf
    dsimp only
    rw [hnone]
    rfl
  · omega

theorem countOf_of_pos {negative : Bool} (h : 0 < digitsValue digits) :
    countOf negative digits =
      if negative then
        ⟨0, '-' :: (digits.dropWhile fun digit => digit = 0).map Nat.digitChar, true⟩
      else ⟨min (digitsValue digits) usizeMax,
        (digits.dropWhile fun digit => digit = 0).map Nat.digitChar, false⟩ := by
  rcases significant_cases digits with ⟨_, hzero⟩ | ⟨first, rest, hsome, _, _⟩
  · omega
  · unfold countOf
    dsimp only
    rw [if_neg (by rw [hsome]; exact Bool.false_ne_true), saturate_eq,
      digitsValue_dropWhile]

/-- A count is the number, brought into the range of `usize`. -/
theorem countOf_saturated (negative : Bool) (digits : List Nat) :
    ((countOf negative digits).saturated : Int) =
      min (max (signed negative (digitsValue digits)) 0) usizeMax := by
  rcases Nat.eq_zero_or_pos (digitsValue digits) with hzero | hpositive
  · rw [countOf_of_zero hzero, hzero]
    cases negative <;> rfl
  · rw [countOf_of_pos hpositive]
    have hmax : usizeMax = 18446744073709551615 := rfl
    cases negative with
    | true =>
        rw [if_pos rfl, signed, if_pos rfl]
        dsimp only
        omega
    | false =>
        rw [if_neg Bool.false_ne_true, signed, if_neg Bool.false_ne_true]
        dsimp only
        omega

theorem countOf_lessThanOne (negative : Bool) (digits : List Nat) :
    (countOf negative digits).lessThanOne = true ↔
      signed negative (digitsValue digits) < 1 := by
  rcases Nat.eq_zero_or_pos (digitsValue digits) with hzero | hpositive
  · rw [countOf_of_zero hzero, hzero]
    cases negative <;> decide
  · rw [countOf_of_pos hpositive]
    cases negative with
    | true =>
        rw [if_pos rfl, signed, if_pos rfl]
        exact ⟨fun _ => by omega, fun _ => rfl⟩
    | false =>
        rw [if_neg Bool.false_ne_true, signed, if_neg Bool.false_ne_true]
        exact ⟨fun h => absurd h Bool.false_ne_true, fun h => by omega⟩

theorem surrounded_self (core : Text) : Surrounded core core :=
  ⟨[], [], fun _ h => absurd h List.not_mem_nil, fun _ h => absurd h List.not_mem_nil,
    (List.append_nil core).symm⟩

/-- The canonical spelling denotes the same integer and gives the same count. -/
theorem canonical_digits (htable : DecimalDigits isDecimalNumber digitValue)
    (hlength : digits.length ≤ 4300) (hsmall : ∀ digit ∈ digits, digit < 10)
    (negative : Bool) :
    ∃ minus significant, IntDigits isDecimalNumber digitValue
        (countOf negative digits).canonical minus significant ∧
      signed minus (digitsValue significant) = signed negative (digitsValue digits) ∧
      countOf minus significant = countOf negative digits := by
  rcases significant_cases digits with ⟨_, hzero⟩ | ⟨first, rest, hsome, _, hpositive⟩
  · refine ⟨false, [0], ⟨[], "0".toList, ?_, .absent, ?_, by decide⟩, ?_, ?_⟩
    · rw [countOf_of_zero hzero]
      exact surrounded_self _
    · have hsmall' : ∀ digit ∈ [0], digit < 10 := by decide
      exact digits_plain htable (List.cons_ne_nil _ _) hsmall'
    · rw [hzero]
      cases negative <;> rfl
    · rw [countOf_of_zero hzero]
      rfl
  · have hvalue := digitsValue_dropWhile digits
    refine ⟨negative, digits.dropWhile fun digit => digit = 0,
      ⟨if negative then ['-'] else [],
        (digits.dropWhile fun digit => digit = 0).map Nat.digitChar, ?_, ?_, ?_, ?_⟩,
      ?_, ?_⟩
    · rw [countOf_of_pos hpositive]
      cases negative <;> exact surrounded_self _
    · cases negative
      · exact .absent
      · exact .minus
    · apply digits_plain htable
      · rw [hsome]
        exact List.cons_ne_nil _ _
      · exact fun digit hdigit => hsmall digit
          ((List.dropWhile_sublist _).subset hdigit)
    · exact ((List.dropWhile_sublist _).length_le).trans hlength
    · rw [hvalue]
    · rw [countOf_of_pos (by rw [hvalue]; exact hpositive), countOf_of_pos hpositive,
        hvalue, List.dropWhile_idempotent]

/-- The scanner of integers agrees with Python's on a text: it accepts the text
exactly when it denotes an integer, and the count is that integer in the range of
`usize`, with a canonical spelling of it. -/
structure IntAgreement (isDecimalNumber : Char → Bool) (digitValue : Char → Nat)
    (text : Text) : Prop where
  accepted : (parsePythonInt isDecimalNumber text).isSome ↔
    ∃ value, PythonInt isDecimalNumber digitValue text value
  unique : ∀ value other, PythonInt isDecimalNumber digitValue text value →
    PythonInt isDecimalNumber digitValue text other → value = other
  saturated : ∀ count value, parsePythonInt isDecimalNumber text = some count →
    PythonInt isDecimalNumber digitValue text value →
    (count.saturated : Int) = min (max value 0) usizeMax
  lessThanOne : ∀ count value, parsePythonInt isDecimalNumber text = some count →
    PythonInt isDecimalNumber digitValue text value →
    (count.lessThanOne = true ↔ value < 1)
  canonical : ∀ count value, parsePythonInt isDecimalNumber text = some count →
    PythonInt isDecimalNumber digitValue text value →
    PythonInt isDecimalNumber digitValue count.canonical value ∧
      ∃ again, parsePythonInt isDecimalNumber count.canonical = some again ∧
        again.canonical = count.canonical

theorem intAgreement (htable : DecimalDigits isDecimalNumber digitValue) (text : Text) :
    IntAgreement isDecimalNumber digitValue text := by
  have hunique (value other : Int)
      (hvalue : PythonInt isDecimalNumber digitValue text value)
      (hother : PythonInt isDecimalNumber digitValue text other) : value = other :=
    pythonInt_unique htable hvalue hother
  have hcount {count : CountArgument} {value : Int}
      (hparse : parsePythonInt isDecimalNumber text = some count)
      (hvalue : PythonInt isDecimalNumber digitValue text value) :
      ∃ negative digits, IntDigits isDecimalNumber digitValue text negative digits ∧
        count = countOf negative digits ∧
        value = signed negative (digitsValue digits) := by
    rcases (parsePythonInt_iff htable).1 hparse with ⟨negative, digits, hdigits, hcount⟩
    exact ⟨negative, digits, hdigits, hcount,
      hunique _ _ hvalue ⟨negative, digits, hdigits, rfl⟩⟩
  constructor
  · constructor
    · intro h
      rcases Option.isSome_iff_exists.1 h with ⟨count, hparse⟩
      rcases (parsePythonInt_iff htable).1 hparse with ⟨negative, digits, hdigits, _⟩
      exact ⟨_, negative, digits, hdigits, rfl⟩
    · intro h
      rcases h with ⟨value, negative, digits, hdigits, _⟩
      rw [(parsePythonInt_iff htable).2 ⟨negative, digits, hdigits, rfl⟩]
      rfl
  · exact hunique
  · intro count value hparse hvalue
    rcases hcount hparse hvalue with ⟨negative, digits, _, rfl, rfl⟩
    exact countOf_saturated negative digits
  · intro count value hparse hvalue
    rcases hcount hparse hvalue with ⟨negative, digits, _, rfl, rfl⟩
    exact countOf_lessThanOne negative digits
  · intro count value hparse hvalue
    rcases hcount hparse hvalue with ⟨negative, digits, hdigits, rfl, rfl⟩
    rcases hdigits with ⟨_, _, _, _, hspelled, hlength⟩
    rcases canonical_digits htable hlength (digits_lt htable hspelled) negative with
      ⟨minus, significant, hcanonical, hsame, hagain⟩
    constructor
    · exact ⟨minus, significant, hcanonical, hsame.symm⟩
    · refine ⟨_, (parsePythonInt_iff htable).2 ⟨minus, significant, hcanonical, rfl⟩, ?_⟩
      rw [hagain]

end Integers

end Yams
