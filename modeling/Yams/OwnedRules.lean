/-
Further rules for a thread that owns a part of the shared state: what is known
before, computed results that steer the program, and folds.
-/
import Yams.Owned

namespace Yams

section

variable {Tid Op S V α β ε : Type} {Ans : Op → Type} {sys : System Tid Op Ans S}
variable {D : Discipline sys} {t : Tid} {o : Owned D t V} {J P : V → Prop}
  {Q : α → V → Prop} {E : ε → V → Prop}

/-- One of several assertions holds before. -/
theorem triple_exists {ι : Sort*} {J : ι → V → Prop} {p : Fallible Op Ans ε α}
    (h : ∀ b, Triple o (J b) p Q E) : Triple o (fun v => ∃ b, J b v) p Q E :=
  fun s hinv ⟨b, hs⟩ => h b s hinv hs

/-- What does not depend on the owned part may be taken to be known. -/
theorem triple_given {c : Prop} {p : Fallible Op Ans ε α} (h : c → Triple o J p Q E) :
    Triple o (fun v => c ∧ J v) p Q E :=
  fun s hinv ⟨hc, hs⟩ => h hc s hinv hs

theorem triple_weaken {p : Fallible Op Ans ε α} (h : Triple o P p Q E)
    (hJ : ∀ v, J v → P v) : Triple o J p Q E :=
  fun s hinv hs => h s hinv (hJ _ hs)

theorem triple_return (a : α) (h : ∀ v, J v → Q a v) :
    Triple o J (pure a : Fallible Op Ans ε α) Q E :=
  triple_weaken (triple_pure a) h

theorem triple_fail (e : ε) (h : ∀ v, J v → E e v) :
    Triple o J (throw e : Fallible Op Ans ε α) Q E :=
  triple_weaken (triple_throw e) h

/-- A fold with an invariant of its accumulator. -/
theorem triple_foldlM {F : Type} {J : β → V → Prop} {f : β → F → Fallible Op Ans ε β}
    (items : List F) (hf : ∀ b item, Triple o (J b) (f b item) J E) (b : β) :
    Triple o (J b) (items.foldlM f b) J E := by
  induction items generalizing b with
  | nil => exact triple_pure b
  | cons item items ih =>
      rw [List.foldlM_cons]
      exact triple_bind (hf b item) fun b' => ih b'

/-- A computed result is known in what follows. -/
theorem triple_computed {r : Except ε β} {f : β → Fallible Op Ans ε α}
    (hE : ∀ e v, J v → E e v) (hf : ∀ b, r = .ok b → Triple o J (f b) Q E) :
    Triple o J (Fallible.ofExcept r >>= f) Q E := by
  cases r with
  | ok b =>
      have hresult : Triple o J (Fallible.ofExcept (.ok b) : Fallible Op Ans ε β)
          (fun a v => a = b ∧ J v) E :=
        triple_weaken (triple_ofExcept _) fun _ hv => ⟨rfl, hv⟩
      apply triple_bind hresult
      intro a
      apply triple_given
      rintro rfl
      exact hf a rfl
  | error e =>
      have hresult : Triple o J (Fallible.ofExcept (.error e) : Fallible Op Ans ε β)
          (fun _ _ => False) E := triple_weaken (triple_ofExcept _) (hE e)
      exact triple_bind hresult fun _ _ _ h => h.elim

/-- A program runs on only when a condition holds. -/
theorem triple_checked {c : Prop} [Decidable c] {e : ε} {f : Unit → Fallible Op Ans ε α}
    (hE : ∀ e v, J v → E e v) (hf : c → Triple o J (f ()) Q E) :
    Triple o J (Fallible.ofExcept (if c then .ok () else .error e) >>= f) Q E := by
  apply triple_computed hE
  intro _ hc
  split at hc
  next h => exact hf h
  · cases hc

/-- A program ends with a check. -/
theorem triple_check {c : Prop} [Decidable c] {e : ε} {Q : Unit → V → Prop}
    (hE : ∀ e v, J v → E e v) (hQ : c → ∀ v, J v → Q () v) :
    Triple o J (Fallible.ofExcept (if c then .ok () else .error e) :
      Fallible Op Ans ε Unit) Q E := by
  apply triple_weaken (triple_ofExcept _)
  intro v hv
  split
  next h => exact hQ h v hv
  · exact hE e v hv

/-- The outcome of a program, wrapped up at its end. -/
theorem triple_finish {p : Fallible Op Ans ε α} {f : Except ε α → β}
    {F : β → V → Prop} (h : Triple o P p Q E)
    (hf : ∀ r v, Exits Q E r v → F (f r) v) {s : S} (hinv : D.inv s)
    (hs : P (o.view s)) :
    Outline D t (p.run.bind fun r => .ret (f r)) (fun b s' => F b (o.view s')) s := by
  apply outline_bind p.run _ hinv
  apply outline_mono p.run (h s hinv hs)
  intro r s' _ hexits s'' hrely _
  rw [o.stable hrely]
  exact hf r _ hexits

end

end Yams
