/-
The floating-point numbers that the ranker computes with: each finite number is
an exact rational, each operation rounds the exact result, and `total_cmp` is a
linear order that agrees with the values.
-/
import Mathlib.Algebra.Order.Field.Rat
import Mathlib.Algebra.Order.Floor.Ring
import Mathlib.Data.Rat.Floor
import Mathlib.Order.Std
import Mathlib.Tactic.Linarith
import Mathlib.Tactic.Positivity

namespace Yams

/-- The nearest integer, a tie to the even one. -/
def roundHalfEven (q : ℚ) : ℤ :=
  if q - ⌊q⌋ < 1 / 2 then ⌊q⌋
  else if 1 / 2 < q - ⌊q⌋ then ⌊q⌋ + 1
  else if ⌊q⌋ % 2 = 0 then ⌊q⌋
  else ⌊q⌋ + 1

/-- The nearest number of four decimals. -/
def decimal4 (q : ℚ) : ℚ := (roundHalfEven (q * 10000) : ℚ) / 10000

/-- `f64`.  The order is `f64::total_cmp`, which tells the two zeros apart and
orders the numbers that are not finite too; `less`, `lessEq` and `numEq` are the
operators `<`, `<=` and `==`.  `nearest` is the number nearest to a rational, and
`InRange` says that rounding it does not overflow. -/
class Binary64 (F : Type) extends LinearOrder F where
  isFinite : F → Bool
  value : F → ℚ
  InRange : ℚ → Prop
  nearest : ℚ → F
  /-- The zero from which `Iterator::sum` starts. -/
  negZero : F
  /-- `f64::from` of the `f32` of some bits. -/
  ofSingle : UInt32 → F
  less : F → F → Bool
  lessEq : F → F → Bool
  numEq : F → F → Bool
  add : F → F → F
  sub : F → F → F
  mul : F → F → F
  div : F → F → F
  sqrt : F → F
  ln1p : F → F
  /-- The number that `format!("{:.4}")` spells, parsed again. -/
  roundDecimal4 : F → F
  value_le_of_le : ∀ {a b : F}, isFinite a → isFinite b → a ≤ b →
    value a ≤ value b
  inRange_of_abs_le : ∀ {a : F} {q : ℚ}, isFinite a → |q| ≤ |value a| + 1 →
    InRange q
  inRange_u64 : ∀ {q : ℚ}, |q| ≤ 2 ^ 64 → InRange q
  isFinite_nearest : ∀ {q : ℚ}, InRange q → isFinite (nearest q)
  value_nearest_le : ∀ {q r : ℚ}, InRange q → InRange r → q ≤ r →
    value (nearest q) ≤ value (nearest r)
  value_nearest_value : ∀ {a : F}, isFinite a → value (nearest (value a)) = value a
  value_nearest_int : ∀ {n : ℤ}, |n| ≤ 2 ^ 53 → value (nearest n) = n
  less_iff : ∀ {a b : F}, isFinite a → isFinite b →
    (less a b = true ↔ value a < value b)
  lessEq_iff : ∀ {a b : F}, isFinite a → isFinite b →
    (lessEq a b = true ↔ value a ≤ value b)
  add_spec : ∀ {a b : F}, isFinite a → isFinite b →
    InRange (value a + value b) → isFinite (add a b) ∧
      value (add a b) = value (nearest (value a + value b))
  sub_spec : ∀ {a b : F}, isFinite a → isFinite b →
    InRange (value a - value b) → isFinite (sub a b) ∧
      value (sub a b) = value (nearest (value a - value b))
  div_spec : ∀ {a b : F}, isFinite a → isFinite b → value b ≠ 0 →
    InRange (value a / value b) → isFinite (div a b) ∧
      value (div a b) = value (nearest (value a / value b))
  ln1p_finite : ∀ {a : F}, isFinite a → 0 ≤ value a →
    isFinite (ln1p a) ∧ 0 ≤ value (ln1p a)
  ln1p_le : ∀ {a b : F}, isFinite a → isFinite b → 0 ≤ value a →
    value a ≤ value b → value (ln1p a) ≤ value (ln1p b)
  ln1p_pos : ∀ {a : F}, isFinite a → 1 ≤ value a → 0 < value (ln1p a)
  roundDecimal4_spec : ∀ {a : F}, isFinite a → InRange (decimal4 (value a)) →
    isFinite (roundDecimal4 a) ∧
      value (roundDecimal4 a) = value (nearest (decimal4 (value a)))

namespace Binary64

variable {F : Type} [Binary64 F]

/-- `n as f64`. -/
def ofNat (n : Nat) : F := nearest (n : ℚ)

/-- `lower..=upper` contains a number. -/
def within (lower upper a : F) : Bool := lessEq lower a && lessEq a upper

/-- `f64::clamp`. -/
def clamp (a lower upper : F) : F :=
  if less a lower then lower else if less upper a then upper else a

theorem inRange_int {n : ℤ} (hn : |n| ≤ 2 ^ 53) : InRange F (n : ℚ) := by
  apply inRange_u64
  have hcast : |(n : ℚ)| ≤ 2 ^ 53 := by exact_mod_cast hn
  linarith [show (2 : ℚ) ^ 53 ≤ 2 ^ 64 by norm_num]

theorem isFinite_int {n : ℤ} (hn : |n| ≤ 2 ^ 53) :
    isFinite (nearest n : F) = true :=
  isFinite_nearest (inRange_int hn)

/-- Rounding stays on its side of a small integer. -/
theorem int_le_value_nearest {n : ℤ} {q : ℚ} (hn : |n| ≤ 2 ^ 53)
    (hq : InRange F q) (hle : (n : ℚ) ≤ q) : (n : ℚ) ≤ value (nearest q : F) := by
  rw [← value_nearest_int (F := F) hn]
  exact value_nearest_le (inRange_int hn) hq hle

theorem value_nearest_le_int {n : ℤ} {q : ℚ} (hn : |n| ≤ 2 ^ 53)
    (hq : InRange F q) (hle : q ≤ n) : value (nearest q : F) ≤ n := by
  rw [← value_nearest_int (F := F) hn]
  exact value_nearest_le hq (inRange_int hn) hle

theorem value_zero : value (nearest 0 : F) = 0 := by
  simpa using value_nearest_int (F := F) (n := 0) (by norm_num)

theorem value_one : value (nearest 1 : F) = 1 := by
  simpa using value_nearest_int (F := F) (n := 1) (by norm_num)

theorem isFinite_zero : isFinite (nearest 0 : F) = true := by
  simpa using isFinite_int (F := F) (n := 0) (by norm_num)

theorem isFinite_one : isFinite (nearest 1 : F) = true := by
  simpa using isFinite_int (F := F) (n := 1) (by norm_num)

end Binary64

section Decimal

theorem floor_le_roundHalfEven (q : ℚ) : ⌊q⌋ ≤ roundHalfEven q := by
  unfold roundHalfEven
  split_ifs <;> omega

theorem roundHalfEven_le (q : ℚ) : roundHalfEven q ≤ ⌊q⌋ + 1 := by
  unfold roundHalfEven
  split_ifs <;> omega

@[simp] theorem roundHalfEven_intCast (n : ℤ) : roundHalfEven (n : ℚ) = n := by
  simp [roundHalfEven]

/-- Rounding to an integer stays on its side of an integer. -/
theorem roundHalfEven_le_int {q : ℚ} {n : ℤ} (h : q ≤ n) :
    roundHalfEven q ≤ n := by
  rcases lt_or_eq_of_le h with hlt | rfl
  · have hfloor : ⌊q⌋ < n := Int.floor_lt.2 hlt
    have hround := roundHalfEven_le q
    omega
  · exact (roundHalfEven_intCast n).le

theorem int_le_roundHalfEven {q : ℚ} {n : ℤ} (h : (n : ℚ) ≤ q) :
    n ≤ roundHalfEven q :=
  (Int.le_floor.2 h).trans (floor_le_roundHalfEven q)

theorem decimal4_bounds {q : ℚ} (hlow : -1 ≤ q) (hhigh : q ≤ 1) :
    -1 ≤ decimal4 q ∧ decimal4 q ≤ 1 := by
  have hupper : roundHalfEven (q * 10000) ≤ 10000 :=
    roundHalfEven_le_int (by push_cast; linarith)
  have hlower : -10000 ≤ roundHalfEven (q * 10000) :=
    int_le_roundHalfEven (by push_cast; linarith)
  have hupper' : (roundHalfEven (q * 10000) : ℚ) ≤ 10000 := by
    exact_mod_cast hupper
  have hlower' : (-10000 : ℚ) ≤ roundHalfEven (q * 10000) := by
    exact_mod_cast hlower
  unfold decimal4
  constructor <;> linarith

end Decimal

namespace Exact

/-- The value of a finite `f32`. -/
def single (bits : UInt32) : ℚ :=
  let sign : ℚ := if bits.toNat / 2 ^ 31 = 1 then -1 else 1
  let exponent := bits.toNat / 2 ^ 23 % 2 ^ 8
  let fraction : Nat := bits.toNat % 2 ^ 23
  if exponent = 0 then sign * (fraction : Nat) / 2 ^ 149
  else sign * (2 ^ 23 + fraction : Nat) * 2 ^ exponent / 2 ^ 150

/-- The exact rationals, which round nothing. -/
instance : Binary64 ℚ where
  toLinearOrder := inferInstance
  isFinite _ := true
  value := id
  InRange _ := True
  nearest := id
  negZero := 0
  ofSingle := single
  less a b := decide (a < b)
  lessEq a b := decide (a ≤ b)
  numEq a b := decide (a = b)
  add a b := a + b
  sub a b := a - b
  mul a b := a * b
  div a b := a / b
  sqrt a := (a.num.toNat.sqrt : ℚ) / a.den.sqrt
  ln1p a := a
  roundDecimal4 := decimal4
  value_le_of_le := fun _ _ h => h
  inRange_of_abs_le := fun _ _ => by exact trivial
  inRange_u64 := fun _ => by exact trivial
  isFinite_nearest := fun _ => rfl
  value_nearest_le := fun _ _ h => h
  value_nearest_value := fun _ => rfl
  value_nearest_int := fun _ => rfl
  less_iff := fun _ _ => decide_eq_true_iff
  lessEq_iff := fun _ _ => decide_eq_true_iff
  add_spec := fun _ _ _ => ⟨rfl, rfl⟩
  sub_spec := fun _ _ _ => ⟨rfl, rfl⟩
  div_spec := fun _ _ _ _ => ⟨rfl, rfl⟩
  ln1p_finite := fun _ h => ⟨rfl, h⟩
  ln1p_le := fun _ _ _ h => h
  ln1p_pos := fun _ h => lt_of_lt_of_le one_pos h
  roundDecimal4_spec := fun _ _ => ⟨rfl, rfl⟩

end Exact

end Yams
