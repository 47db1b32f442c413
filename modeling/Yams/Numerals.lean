/-
Decimal numbers over any way of spelling digits: an optional sign, a mantissa
with at least one digit and an optional exponent.  Spelled by the ten ASCII
digits, a text stands for one number only.
-/
import Mathlib.Algebra.Order.Field.Rat
import Mathlib.Data.List.Basic
import Mathlib.Data.List.TakeWhile

namespace Yams.Numerals

/-- The number that digits stand for, the first of them the largest. -/
def digitsValue (digits : List Nat) : Nat :=
  digits.foldl (fun value digit => value * 10 + digit) 0

inductive Sign : List Char → Bool → Prop
  | absent : Sign [] false
  | plus : Sign ['+'] false
  | minus : Sign ['-'] true

/-- The sign put before a number. -/
def signed (negative : Bool) (value : Nat) : Int :=
  if negative then -value else value

/-- The number with these digits before and after the point and this power of
ten. -/
def magnitude (integer fraction : List Nat) (exponent : Int) : ℚ :=
  digitsValue (integer ++ fraction) * 10 ^ (exponent - fraction.length)

section Grammar

-- Which texts spell which digits; none spells no digit.
variable (spells : List Char → List Nat → Prop)

/-- Digits that may be missing. -/
inductive Part : List Char → List Nat → Prop
  | missing : Part [] []
  | digits {text : List Char} {digits : List Nat} (hdigits : spells text digits) :
      Part text digits

/-- The digits before and after a point, which are not both missing. -/
inductive Mantissa : List Char → List Nat → List Nat → Prop
  | whole {text : List Char} {digits : List Nat} (hdigits : spells text digits) :
      Mantissa text digits []
  | point {before after : List Char} {integer fraction : List Nat}
      (hinteger : Part spells before integer) (hfraction : Part spells after fraction)
      (hsome : integer ++ fraction ≠ []) :
      Mantissa (before ++ '.' :: after) integer fraction

inductive Exponent : List Char → Int → Prop
  | absent : Exponent [] 0
  | present {letter : Char} {sign text : List Char} {negative : Bool}
      {digits : List Nat} (hletter : letter = 'e' ∨ letter = 'E')
      (hsign : Sign sign negative) (hdigits : spells text digits) :
      Exponent (letter :: (sign ++ text)) (signed negative (digitsValue digits))

/-- A text stands for a number of this sign and magnitude. -/
inductive Decimal : List Char → Bool → ℚ → Prop
  | mk {sign mantissa power : List Char} {negative : Bool}
      {integer fraction : List Nat} {exponent : Int} (hsign : Sign sign negative)
      (hmantissa : Mantissa spells mantissa integer fraction)
      (hexponent : Exponent spells power exponent) :
      Decimal (sign ++ (mantissa ++ power)) negative
        (magnitude integer fraction exponent)

end Grammar

/-- Digits spelled by the ten ASCII digits. -/
def Plain (text : List Char) (digits : List Nat) : Prop :=
  digits ≠ [] ∧ (∀ digit ∈ digits, digit < 10) ∧ text = digits.map Nat.digitChar

section Values

theorem foldl_digits (start : Nat) (digits : List Nat) :
    digits.foldl (fun value digit => value * 10 + digit) start =
      start * 10 ^ digits.length + digitsValue digits := by
  induction digits generalizing start with
  | nil => simp [digitsValue]
  | cons digit digits ih =>
      have hvalue : digitsValue (digit :: digits) =
          digit * 10 ^ digits.length + digitsValue digits := by
        rw [digitsValue, List.foldl_cons, ih, Nat.zero_mul, Nat.zero_add]
      rw [List.foldl_cons, ih, hvalue, List.length_cons, Nat.pow_succ, Nat.add_mul,
        Nat.mul_assoc, Nat.mul_comm 10, Nat.add_assoc]

theorem digitsValue_cons (digit : Nat) (digits : List Nat) :
    digitsValue (digit :: digits) =
      digit * 10 ^ digits.length + digitsValue digits := by
  rw [digitsValue, List.foldl_cons, foldl_digits, Nat.zero_mul, Nat.zero_add]

/-- Leading zeros do not count. -/
theorem digitsValue_dropWhile (digits : List Nat) :
    digitsValue (digits.dropWhile fun digit => digit = 0) = digitsValue digits := by
  induction digits with
  | nil => rfl
  | cons digit digits ih =>
      by_cases hzero : digit = 0
      · rw [List.dropWhile_cons_of_pos (by simpa using hzero), ih, digitsValue_cons,
          hzero, Nat.zero_mul, Nat.zero_add]
      · rw [List.dropWhile_cons_of_neg (by simpa using hzero)]

theorem digitsValue_pos {digit : Nat} (digits : List Nat) (hdigit : digit ≠ 0) :
    0 < digitsValue (digit :: digits) := by
  rw [digitsValue_cons]
  exact Nat.add_pos_left (Nat.mul_pos (Nat.pos_of_ne_zero hdigit)
    (Nat.pow_pos (by decide))) _

end Values

section PlainDigits

variable {digits : List Nat} {text rest : List Char}

theorem isDigit_digitChar {digit : Nat} (hdigit : digit < 10) :
    (Nat.digitChar digit).isDigit = true := by
  rw [Nat.isDigit_digitChar, decide_eq_true hdigit]

theorem isDigit_map_digitChar (hdigits : ∀ digit ∈ digits, digit < 10) :
    ∀ c ∈ digits.map Nat.digitChar, c.isDigit = true := by
  intro c hc
  rcases List.mem_map.1 hc with ⟨digit, hdigit, rfl⟩
  exact isDigit_digitChar (hdigits digit hdigit)

/-- What digits do not go on into. -/
def Stops (text : List Char) : Prop := ∀ c ∈ text.head?, c.isDigit = false

theorem takeWhile_digits (hdigits : ∀ digit ∈ digits, digit < 10)
    (hrest : Stops rest) :
    (digits.map Nat.digitChar ++ rest).takeWhile Char.isDigit =
      digits.map Nat.digitChar := by
  rw [List.takeWhile_append_of_pos (isDigit_map_digitChar hdigits)]
  cases rest with
  | nil => rw [List.takeWhile_nil, List.append_nil]
  | cons c rest =>
      have hc : ¬ c.isDigit = true := by rw [hrest c rfl]; exact Bool.false_ne_true
      rw [List.takeWhile_cons_of_neg hc, List.append_nil]

theorem dropWhile_digits (hdigits : ∀ digit ∈ digits, digit < 10)
    (hrest : Stops rest) :
    (digits.map Nat.digitChar ++ rest).dropWhile Char.isDigit = rest := by
  rw [List.dropWhile_append_of_pos (isDigit_map_digitChar hdigits)]
  cases rest with
  | nil => rfl
  | cons c rest =>
      have hc : ¬ c.isDigit = true := by rw [hrest c rfl]; exact Bool.false_ne_true
      rw [List.dropWhile_cons_of_neg hc]

/-- The digits that a text of ASCII digits spells. -/
def readDigits (text : List Char) : List Nat := text.map fun c => c.toNat - 48

theorem readDigits_map (hdigits : ∀ digit ∈ digits, digit < 10) :
    readDigits (digits.map Nat.digitChar) = digits := by
  unfold readDigits
  rw [List.map_map]
  conv_rhs => rw [← List.map_id digits]
  apply List.map_congr_left
  intro digit hdigit
  change (Nat.digitChar digit).toNat - 48 = digit
  rw [Nat.toNat_digitChar_of_lt_ten (hdigits digit hdigit)]
  omega

theorem digitChar_of_isDigit {c : Char} (hc : c.isDigit = true) :
    c.toNat - 48 < 10 ∧ Nat.digitChar (c.toNat - 48) = c := by
  have hrange : 48 ≤ c.toNat ∧ c.toNat ≤ 57 := by
    simp only [Char.isDigit, Bool.and_eq_true, decide_eq_true_eq] at hc
    exact ⟨UInt32.le_iff_toNat_le.1 hc.1, UInt32.le_iff_toNat_le.1 hc.2⟩
  have hsmall : c.toNat - 48 < 10 := by omega
  refine ⟨hsmall, ?_⟩
  apply Char.toNat_inj.1
  rw [Nat.toNat_digitChar_of_lt_ten hsmall]
  omega

/-- A text of ASCII digits spells the digits it is read as. -/
theorem plain_readDigits (hne : text ≠ []) (htext : ∀ c ∈ text, c.isDigit = true) :
    Plain text (readDigits text) := by
  refine ⟨?_, ?_, ?_⟩
  · intro hnil
    exact hne (List.map_eq_nil_iff.1 hnil)
  · intro digit hdigit
    rcases List.mem_map.1 hdigit with ⟨c, hc, rfl⟩
    exact (digitChar_of_isDigit (htext c hc)).1
  · unfold readDigits
    rw [List.map_map]
    conv_lhs => rw [← List.map_id text]
    apply List.map_congr_left
    intro c hc
    exact (digitChar_of_isDigit (htext c hc)).2.symm

theorem plain_part (h : Part Plain text digits) :
    (∀ digit ∈ digits, digit < 10) ∧ text = digits.map Nat.digitChar := by
  cases h with
  | missing => exact ⟨fun _ h => absurd h List.not_mem_nil, rfl⟩
  | digits hdigits => exact hdigits.2

end PlainDigits

section Reading

def readSign : List Char → Bool × List Char
  | '-' :: rest => (true, rest)
  | '+' :: rest => (false, rest)
  | rest => (false, rest)

/-- The digits after a point, and what follows them. -/
def afterPoint : List Char → List Char × List Char
  | '.' :: rest => (rest.takeWhile Char.isDigit, rest.dropWhile Char.isDigit)
  | rest => ([], rest)

def readExponent : List Char → Int
  | [] => 0
  | _ :: rest =>
      signed (readSign rest).1 (digitsValue (readDigits (readSign rest).2))

/-- The sign and the magnitude of the number that a text of ASCII digits stands
for, read from left to right. -/
def readDecimal (text : List Char) : Bool × ℚ :=
  let unsigned := (readSign text).2
  let tail := afterPoint (unsigned.dropWhile Char.isDigit)
  ((readSign text).1, magnitude (readDigits (unsigned.takeWhile Char.isDigit))
    (readDigits tail.1) (readExponent tail.2))

variable {text mantissa power sign rest : List Char} {negative : Bool}
  {integer fraction digits : List Nat} {exponent : Int} {value : ℚ}

theorem readSign_append (hsign : Sign sign negative)
    (hplus : rest.head? ≠ some '+') (hminus : rest.head? ≠ some '-') :
    readSign (sign ++ rest) = (negative, rest) := by
  cases hsign with
  | plus => rfl
  | minus => rfl
  | absent =>
      rw [List.nil_append]
      unfold readSign
      split
      · exact absurd rfl hminus
      · exact absurd rfl hplus
      · rfl

theorem plain_head (h : Plain text digits) : ∃ c ∈ text.head?, c.isDigit = true := by
  rcases h with ⟨hne, hsmall, rfl⟩
  cases digits with
  | nil => exact absurd rfl hne
  | cons digit digits =>
      exact ⟨_, rfl, isDigit_digitChar (hsmall digit List.mem_cons_self)⟩

/-- Exponents begin with their letter. -/
theorem exponent_head {spells : List Char → List Nat → Prop}
    (h : Exponent spells power exponent) : ∀ c ∈ power.head?, c = 'e' ∨ c = 'E' := by
  cases h with
  | absent => exact fun _ h => nomatch h
  | present hletter hsign hdigits =>
      intro c hc
      rw [← Option.some.inj hc]
      exact hletter

theorem exponent_stops {spells : List Char → List Nat → Prop}
    (h : Exponent spells power exponent) : Stops power := by
  intro c hc
  rcases exponent_head h c hc with rfl | rfl <;> rfl

/-- Of a mantissa and an exponent the digits before the point are read, then
those after it, and the exponent is left. -/
theorem read_mantissa (h : Mantissa Plain mantissa integer fraction)
    (hpower : Exponent Plain power exponent) :
    (mantissa ++ power).takeWhile Char.isDigit = integer.map Nat.digitChar ∧
      afterPoint ((mantissa ++ power).dropWhile Char.isDigit) =
        (fraction.map Nat.digitChar, power) ∧
      (∀ digit ∈ integer, digit < 10) ∧ (∀ digit ∈ fraction, digit < 10) ∧
      integer ++ fraction ≠ [] := by
  have hstops := exponent_stops hpower
  cases h with
  | whole hdigits =>
      rcases hdigits with ⟨hne, hsmall, rfl⟩
      rw [takeWhile_digits hsmall hstops, dropWhile_digits hsmall hstops]
      refine ⟨rfl, ?_, hsmall, fun _ h => absurd h List.not_mem_nil, ?_⟩
      · unfold afterPoint
        split
        · rcases exponent_head hpower '.' rfl with h | h <;> exact absurd h (by decide)
        · rfl
      · rw [List.append_nil]
        exact hne
  | point hinteger hfraction hsome =>
      rcases plain_part hinteger with ⟨hsmall, rfl⟩
      rcases plain_part hfraction with ⟨hsmall', rfl⟩
      have hpoint : ∀ rest, Stops ('.' :: rest) := by
        intro rest c hc
        rw [← Option.some.inj hc]
        rfl
      rw [List.append_assoc, List.cons_append, takeWhile_digits hsmall (hpoint _),
        dropWhile_digits hsmall (hpoint _)]
      refine ⟨rfl, ?_, hsmall, hsmall', hsome⟩
      rw [afterPoint, takeWhile_digits hsmall' hstops, dropWhile_digits hsmall' hstops]

theorem mantissa_head (h : Mantissa Plain mantissa integer fraction) :
    ∃ c ∈ mantissa.head?, c.isDigit = true ∨ c = '.' := by
  cases h with
  | whole hdigits =>
      rcases plain_head hdigits with ⟨c, hc, hdigit⟩
      exact ⟨c, hc, .inl hdigit⟩
  | point hinteger hfraction hsome =>
      cases hinteger with
      | missing => exact ⟨'.', rfl, .inr rfl⟩
      | digits hdigits =>
          rcases plain_head hdigits with ⟨c, hc, hdigit⟩
          refine ⟨c, ?_, .inl hdigit⟩
          rw [List.head?_append, Option.mem_def.1 hc]
          rfl

/-- The sign of a number is read off its mantissa. -/
theorem read_sign (hsign : Sign sign negative)
    (hmantissa : Mantissa Plain mantissa integer fraction) (power : List Char) :
    readSign (sign ++ (mantissa ++ power)) = (negative, mantissa ++ power) := by
  rcases mantissa_head hmantissa with ⟨c, hc, hcases⟩
  have hhead : (mantissa ++ power).head? = some c := by
    rw [List.head?_append, Option.mem_def.1 hc]
    rfl
  apply readSign_append hsign
  · rw [hhead]
    intro h
    rw [Option.some.inj h] at hcases
    exact absurd hcases (by decide)
  · rw [hhead]
    intro h
    rw [Option.some.inj h] at hcases
    exact absurd hcases (by decide)

/-- The sign of digits is read off them. -/
theorem read_digits (hsign : Sign sign negative) (hdigits : Plain text digits) :
    readSign (sign ++ text) = (negative, text) := by
  have h := read_sign hsign (.whole hdigits) []
  rwa [List.append_nil] at h

theorem read_exponent (h : Exponent Plain power exponent) :
    readExponent power = exponent := by
  cases h with
  | absent => rfl
  | present hletter hsign hdigits =>
      have hread := read_digits hsign hdigits
      rcases hdigits with ⟨_, hsmall, rfl⟩
      rw [readExponent, hread, readDigits_map hsmall]

/-- A text of ASCII digits stands for one number at most. -/
theorem readDecimal_eq (h : Decimal Plain text negative value) :
    readDecimal text = (negative, value) := by
  cases h with
  | mk hsign hmantissa hexponent =>
      rcases read_mantissa hmantissa hexponent with
        ⟨htake, hafter, hinteger, hfraction, _⟩
      unfold readDecimal
      rw [read_sign hsign hmantissa]
      dsimp only
      rw [htake, hafter, readDigits_map hinteger, readDigits_map hfraction,
        read_exponent hexponent]

end Reading

end Yams.Numerals
