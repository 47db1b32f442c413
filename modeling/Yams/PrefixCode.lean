/-
Encodings that can be told from what follows them.  They are closed under
concatenation, under counted repetition and under repetition to the end, so a
sequence of fields determines every one of its fields.
-/
import Mathlib.Data.List.Basic
import Mathlib.Data.List.Forall2

namespace Yams

section

variable {α β γ δ : Type} {P : α → Prop} {R S : α → α → Prop} {f g : α → List β}

/-- On the values of `P`, an encoding ends in one place only, whatever follows it,
and tells the values apart up to `R`. -/
def Delimits (P : α → Prop) (R : α → α → Prop) (f : α → List β) : Prop :=
  ∀ x y, P x → P y → ∀ r s, f x ++ r = f y ++ s → R x y ∧ r = s

namespace Delimits

theorem mono {Q : α → Prop} (h : Delimits P R f) (hP : ∀ x, Q x → P x)
    (hR : ∀ x y, Q x → Q y → R x y → S x y) : Delimits Q S f := by
  intro x y hx hy r s heq
  obtain ⟨hxy, hrest⟩ := h x y (hP x hx) (hP y hy) r s heq
  exact ⟨hR x y hx hy hxy, hrest⟩

/-- The encoding of a part. -/
theorem comp (h : Delimits P R f) (k : γ → α) :
    Delimits (fun x => P (k x)) (fun x y => R (k x) (k y)) fun x => f (k x) :=
  fun x y => h (k x) (k y)

/-- What is always the same tells nothing apart. -/
theorem const (P : α → Prop) (c : List β) : Delimits P (fun _ _ => True) fun _ => c :=
  fun _ _ _ _ _ _ heq => ⟨trivial, List.append_cancel_left heq⟩

/-- Encodings of one length. -/
theorem fixed {n : Nat} (hlength : ∀ x, P x → (f x).length = n)
    (hinj : ∀ x y, P x → P y → f x = f y → R x y) : Delimits P R f := by
  intro x y hx hy r s heq
  have hsame : (f x).length = (f y).length := (hlength x hx).trans (hlength y hy).symm
  obtain ⟨hfront, hrest⟩ := List.append_inj heq hsame
  exact ⟨hinj x y hx hy hfront, hrest⟩

/-- A second encoding, which may lean on what the first one tells. -/
theorem append_of (hf : Delimits P R f)
    (hg : ∀ x y, P x → P y → R x y → ∀ r s, g x ++ r = g y ++ s → S x y ∧ r = s) :
    Delimits P (fun x y => R x y ∧ S x y) fun x => f x ++ g x := by
  intro x y hx hy r s heq
  rw [List.append_assoc, List.append_assoc] at heq
  obtain ⟨hfirst, hmore⟩ := hf x y hx hy _ _ heq
  obtain ⟨hsecond, hrest⟩ := hg x y hx hy hfirst r s hmore
  exact ⟨⟨hfirst, hsecond⟩, hrest⟩

theorem append (hf : Delimits P R f) (hg : Delimits P S g) :
    Delimits P (fun x y => R x y ∧ S x y) fun x => f x ++ g x :=
  hf.append_of fun x y hx hy _ => hg x y hx hy

/-- A list after its length. -/
theorem flatMap (h : Delimits P R f) {xs ys : List α} (hlength : xs.length = ys.length)
    (hxs : ∀ x ∈ xs, P x) (hys : ∀ y ∈ ys, P y) {r s : List β}
    (heq : xs.flatMap f ++ r = ys.flatMap f ++ s) : List.Forall₂ R xs ys ∧ r = s := by
  induction xs generalizing ys with
  | nil =>
      obtain rfl := List.length_eq_zero_iff.1 hlength.symm
      exact ⟨.nil, heq⟩
  | cons x xs ih =>
      obtain ⟨y, ys, rfl⟩ := List.exists_cons_of_length_eq_add_one hlength.symm
      rw [List.flatMap_cons, List.flatMap_cons, List.append_assoc, List.append_assoc] at heq
      obtain ⟨hxy, hmore⟩ :=
        h x y (hxs x List.mem_cons_self) (hys y List.mem_cons_self) _ _ heq
      obtain ⟨hall, hrest⟩ := ih (Nat.succ.inj hlength)
        (fun z hz => hxs z (List.mem_cons_of_mem _ hz))
        (fun z hz => hys z (List.mem_cons_of_mem _ hz)) hmore
      exact ⟨.cons hxy hall, hrest⟩

/-- A list to the end, when no element is encoded as nothing. -/
theorem flatMap_end (h : Delimits P R f) (hne : ∀ x, P x → f x ≠ []) {xs ys : List α}
    (hxs : ∀ x ∈ xs, P x) (hys : ∀ y ∈ ys, P y) (heq : xs.flatMap f = ys.flatMap f) :
    List.Forall₂ R xs ys := by
  induction xs generalizing ys with
  | nil =>
      cases ys with
      | nil => exact .nil
      | cons y ys =>
          rw [List.flatMap_nil, List.flatMap_cons] at heq
          exact absurd (List.append_eq_nil_iff.1 heq.symm).1
            (hne y (hys y List.mem_cons_self))
  | cons x xs ih =>
      cases ys with
      | nil =>
          rw [List.flatMap_nil, List.flatMap_cons] at heq
          exact absurd (List.append_eq_nil_iff.1 heq).1 (hne x (hxs x List.mem_cons_self))
      | cons y ys =>
          rw [List.flatMap_cons, List.flatMap_cons] at heq
          obtain ⟨hxy, hmore⟩ :=
            h x y (hxs x List.mem_cons_self) (hys y List.mem_cons_self) _ _ heq
          exact .cons hxy (ih (fun z hz => hxs z (List.mem_cons_of_mem _ hz))
            (fun z hz => hys z (List.mem_cons_of_mem _ hz)) hmore)

/-- Values that are encoded alike are alike. -/
theorem of_eq (h : Delimits P R f) {x y : α} (hx : P x) (hy : P y) (heq : f x = f y) :
    R x y :=
  (h x y hx hy [] [] (congrArg (· ++ []) heq)).1

end Delimits

end

end Yams
