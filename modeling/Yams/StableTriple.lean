/-
Triples of fallible programs in a discipline: what holds before, what holds of a
result and what holds after an error.  One rule for each way to build a program;
assertions between two steps have to survive what the others do.
-/
import Yams.Outline

namespace Yams

section

variable {Tid Op S α β σ τ ε ε' : Type} {Ans : Op → Type}
variable {sys : System Tid Op Ans S}

/-- The others keep an assertion. -/
def Stable (D : Discipline sys) (t : Tid) (P : S → Prop) : Prop :=
  ∀ a b, P a → D.rely t a b → P b

/-- What holds of the outcome of a fallible program. -/
def Outcomes (Q : α → S → Prop) (E : ε → S → Prop) : Except ε α → S → Prop
  | .ok a => Q a
  | .error e => E e

/-- From states of `P` a program ends in a result in states of `Q` or with an error
in states of `E`, and all its steps keep to the discipline. -/
def StableTriple (D : Discipline sys) (t : Tid) (P : S → Prop) (p : Fallible Op Ans ε α)
    (Q : α → S → Prop) (E : ε → S → Prop) : Prop :=
  ∀ s, D.inv s → P s → Outline D t p.run (Outcomes Q E) s

variable {D : Discipline sys} {t : Tid} {P P' R : S → Prop} {Q Q' : α → S → Prop}
  {E : ε → S → Prop}

namespace Stable

theorem const (p : Prop) : Stable D t fun _ => p := fun _ _ h _ => h

theorem and (hP : Stable D t P) (hR : Stable D t R) : Stable D t fun s => P s ∧ R s :=
  fun a b h hrely => ⟨hP a b h.1 hrely, hR a b h.2 hrely⟩

end Stable

namespace StableTriple

theorem mono {p : Fallible Op Ans ε α} (h : StableTriple D t P p Q E)
    (hP : ∀ s, P' s → P s) (hQ : ∀ a s, Q a s → Q' a s) : StableTriple D t P' p Q' E := by
  intro s hinv hs
  apply outline_mono p.run (h s hinv (hP s hs))
  rintro (e | a) s' - hpost
  · exact hpost
  · exact hQ a s' hpost

theorem errors {p : Fallible Op Ans ε α} {E' : ε → S → Prop}
    (h : StableTriple D t P p Q E) (hE : ∀ e s, E e s → E' e s) :
    StableTriple D t P p Q E' := by
  intro s hinv hs
  apply outline_mono p.run (h s hinv hs)
  intro r s' _ hpost
  cases r with
  | error e => exact hE e s' hpost
  | ok a => exact hpost

theorem pure (hQ : ∀ a, Stable D t (Q a)) {a : α} (h : ∀ s, P s → Q a s) :
    StableTriple D t P (Pure.pure a : Fallible Op Ans ε α) Q E := by
  intro s _ hs s₁ hrely _
  exact hQ a s s₁ (h s hs) hrely

theorem throw (hE : ∀ e, Stable D t (E e)) {e : ε} (h : ∀ s, P s → E e s) :
    StableTriple D t P (MonadExcept.throw e : Fallible Op Ans ε α) Q E := by
  intro s _ hs s₁ hrely _
  exact hE e s s₁ (h s hs) hrely

theorem bind {p : Fallible Op Ans ε β} {f : β → Fallible Op Ans ε α}
    {M : β → S → Prop} (hE : ∀ e, Stable D t (E e)) (hp : StableTriple D t P p M E)
    (hf : ∀ b, StableTriple D t (M b) (f b) Q E) : StableTriple D t P (p >>= f) Q E := by
  intro s hinv hs
  apply outline_follow p f hinv
  apply outline_mono p.run (hp s hinv hs)
  rintro (e | b) s' hinv' hpost
  · intro s₁ hrely _
    exact hE e s' s₁ hpost hrely
  · exact hf b s' hinv' hpost

/-- One operation; what it does may lean on its answer. -/
theorem perform {op : Op} {M : Ans op → S → Prop} (hP : Stable D t P)
    (hM : ∀ a, Stable D t (M a))
    (h : ∀ s a s', D.inv s → P s → sys.exec t s op a s' →
      D.inv s' ∧ D.guar t s s' ∧ M a s') :
    StableTriple D t P (Fallible.perform op) M E := by
  intro s _ hs s₁ hrely hinv answer s₂ hexec
  obtain ⟨hinv₂, hguar, hM₂⟩ := h s₁ answer s₂ hinv (hP s s₁ hs hrely) hexec
  refine ⟨hinv₂, hguar, ?_⟩
  intro s₃ hrely₃ _
  exact hM answer s₂ s₃ hM₂ hrely₃

theorem mapError {p : Fallible Op Ans ε α} {E' : ε' → S → Prop} {f : ε → ε'}
    (hQ : ∀ a, Stable D t (Q a)) (hE : ∀ e, Stable D t (E' e))
    (h : StableTriple D t P p Q fun e => E' (f e)) :
    StableTriple D t P (Fallible.mapError f p) Q E' := by
  intro s hinv hs
  rw [Fallible.run_mapError]
  apply outline_bind p.run _ hinv
  apply outline_mono p.run (h s hinv hs)
  rintro (e | a) s' _ hpost
  · intro s₁ hrely _
    exact hE (f e) s' s₁ hpost hrely
  · intro s₁ hrely _
    exact hQ a s' s₁ hpost hrely

theorem observe {p : Fallible Op Ans ε α} {M : Except ε α → S → Prop}
    {E' : ε' → S → Prop} (hM : ∀ r, Stable D t (M r))
    (h : StableTriple D t P p (fun a => M (.ok a)) fun e => M (.error e)) :
    StableTriple D t P (Fallible.observe p) M E' := by
  intro s hinv hs
  rw [Fallible.run_observe]
  apply outline_bind p.run _ hinv
  apply outline_mono p.run (h s hinv hs)
  rintro (e | a) s' _ hpost
  · intro s₁ hrely _
    exact hM (.error e) s' s₁ hpost hrely
  · intro s₁ hrely _
    exact hM (.ok a) s' s₁ hpost hrely

/-- A loop with an invariant of its states. -/
theorem iterate {body : σ → Fallible Op Ans ε (σ ⊕ α)} {J : σ → S → Prop} {state : σ}
    (hJ : ∀ st, Stable D t (J st)) (hQ : ∀ a, Stable D t (Q a))
    (hE : ∀ e, Stable D t (E e))
    (h : ∀ st, StableTriple D t (J st) (body st) (fun r => Sum.elim J Q r) E) :
    StableTriple D t (J state) (Fallible.iterate body state) Q E := by
  intro s _ hs
  have hpost : ∀ r : Except ε α, Stable D t (Outcomes Q E r) := by
    rintro (e | a)
    · exact hE e
    · exact hQ a
  apply outline_iterate J hs
  · intro st a b ha hrely _
    exact hJ st a b ha hrely
  · intro r a b ha hrely _
    exact hpost r a b ha hrely
  · intro st s' hinv' hst
    apply outline_bind (body st).run _ hinv'
    apply outline_mono (body st).run (h st s' hinv' hst)
    rintro (e | next | a) s₁ _ h₁ s₂ hrely _
    · exact hE e s₁ s₂ h₁ hrely
    · exact hJ next s₁ s₂ h₁ hrely
    · exact hQ a s₁ s₂ h₁ hrely

/-- By cases on a decidable condition. -/
theorem ite {c : Prop} [Decidable c] {p q : Fallible Op Ans ε α}
    (hp : c → StableTriple D t P p Q E) (hq : ¬ c → StableTriple D t P q Q E) :
    StableTriple D t P (if c then p else q) Q E := by
  split
  next h => exact hp h
  next h => exact hq h

end StableTriple

end

end Yams
