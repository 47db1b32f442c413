/-
Triples for a thread that owns a part of the shared state.  No other thread
changes that part, so every assertion about it is stable and the rules are
those of a sequential program.
-/
import Yams.Outline

namespace Yams

section

variable {Tid Op S V α β σ τ ε ε' : Type} {Ans : Op → Type}
variable {sys : System Tid Op Ans S}

/-- A part of the state that only thread `t` changes. -/
structure Owned (D : Discipline sys) (t : Tid) (V : Type) where
  view : S → V
  stable : ∀ {a b}, D.rely t a b → view b = view a

/-- The assertion at the exit of a fallible program. -/
def Exits (Q : α → V → Prop) (E : ε → V → Prop) : Except ε α → V → Prop
  | .ok a, v => Q a v
  | .error e, v => E e v

variable {D : Discipline sys} {t : Tid} {o : Owned D t V}

/-- From every state whose owned part meets `P` the program keeps to the
discipline, and it ends with an owned part that meets `Q`, or `E` after an
error. -/
def Triple (o : Owned D t V) (P : V → Prop) (p : Fallible Op Ans ε α)
    (Q : α → V → Prop) (E : ε → V → Prop) : Prop :=
  ∀ s, D.inv s → P (o.view s) →
    Outline D t p.run (fun r s' => Exits Q E r (o.view s')) s

theorem triple_pure {Q : α → V → Prop} {E : ε → V → Prop} (a : α) :
    Triple o (Q a) (pure a : Fallible Op Ans ε α) Q E := by
  intro s _ hQ s₁ hrely _
  change Q a (o.view s₁)
  rw [o.stable hrely]
  exact hQ

theorem triple_throw {Q : α → V → Prop} {E : ε → V → Prop} (e : ε) :
    Triple o (E e) (throw e : Fallible Op Ans ε α) Q E := by
  intro s _ hE s₁ hrely _
  change E e (o.view s₁)
  rw [o.stable hrely]
  exact hE

theorem triple_mono {P P' : V → Prop} {p : Fallible Op Ans ε α}
    {Q Q' : α → V → Prop} {E E' : ε → V → Prop} (h : Triple o P p Q E)
    (hP : ∀ v, P' v → P v) (hQ : ∀ a v, Q a v → Q' a v)
    (hE : ∀ e v, E e v → E' e v) : Triple o P' p Q' E' := by
  intro s hinv hP'
  apply outline_mono p.run (h s hinv (hP _ hP'))
  rintro (e | a) s' _ hexit
  · exact hE e _ hexit
  · exact hQ a _ hexit

/-- The owned part may be taken to be known. -/
theorem triple_known {P : V → Prop} {p : Fallible Op Ans ε α}
    {Q : α → V → Prop} {E : ε → V → Prop}
    (h : ∀ v, P v → Triple o (fun v' => v' = v) p Q E) : Triple o P p Q E :=
  fun s hinv hP => h (o.view s) hP s hinv rfl

theorem triple_bind {P : V → Prop} {p : Fallible Op Ans ε α}
    {f : α → Fallible Op Ans ε β} {R : α → V → Prop} {Q : β → V → Prop}
    {E : ε → V → Prop} (hp : Triple o P p R E)
    (hf : ∀ a, Triple o (R a) (f a) Q E) : Triple o P (p >>= f) Q E := by
  intro s hinv hP
  apply outline_follow p f hinv
  apply outline_mono p.run (hp s hinv hP)
  rintro (e | a) s' hinv' hexit
  · intro s'' hrely _
    change E e (o.view s'')
    rw [o.stable hrely]
    exact hexit
  · exact hf a s' hinv' hexit

/-- The rule for a call, from what it does in every state. -/
theorem triple_call {P : V → Prop} {op : Op} {Q : Ans op → V → Prop}
    {E : ε → V → Prop}
    (h : ∀ s a s', D.inv s → P (o.view s) → sys.exec t s op a s' →
      D.inv s' ∧ D.guar t s s' ∧ Q a (o.view s')) :
    Triple o P (Fallible.perform op) Q E := by
  intro s _ hP s₁ hrely hinv a s₂ hexec
  rw [← o.stable hrely] at hP
  obtain ⟨hinv₂, hguar, hQ⟩ := h s₁ a s₂ hinv hP hexec
  refine ⟨hinv₂, hguar, ?_⟩
  intro s₃ hrely₃ _
  change Q a (o.view s₃)
  rw [o.stable hrely₃]
  exact hQ

/-- The error of a program as a value. -/
theorem triple_observe {P : V → Prop} {p : Fallible Op Ans ε α}
    {Q : α → V → Prop} {E : ε → V → Prop} {E' : ε' → V → Prop}
    (h : Triple o P p Q E) :
    Triple o P (Fallible.observe p) (Exits Q E) E' := by
  intro s hinv hP
  rw [Fallible.run_observe]
  apply outline_bind p.run _ hinv
  apply outline_mono p.run (h s hinv hP)
  intro r s₁ _ hexit s₂ hrely _
  change Exits Q E r (o.view s₂)
  rw [o.stable hrely]
  exact hexit

theorem triple_ofExcept {Q : α → V → Prop} {E : ε → V → Prop}
    (r : Except ε α) :
    Triple o (Exits Q E r) (Fallible.ofExcept r : Fallible Op Ans ε α) Q E := by
  intro s _ hexit s₁ hrely _
  rw [o.stable hrely]
  exact hexit

/-- A program whose operations leave the owned part alone keeps every assertion
about it. -/
theorem triple_calls {quiet : Op → Prop} {p : Fallible Op Ans ε α}
    {R : V → Prop} (hp : p.run.Calls quiet)
    (hquiet : ∀ op s a s', quiet op → D.inv s → sys.exec t s op a s' →
      D.inv s' ∧ D.guar t s s' ∧ o.view s' = o.view s) :
    Triple o R p (fun _ => R) (fun _ => R) := by
  intro s _ hR
  have hexit : ∀ (r : Except ε α) (s' : S), R (o.view s') →
      Exits (fun _ => R) (fun _ => R) r (o.view s') := by
    rintro (e | a) s' h <;> exact h
  have hstable : ∀ a b, R (o.view a) → D.rely t a b → D.inv b →
      R (o.view b) := by
    intro a b ha hrely _
    rw [o.stable hrely]
    exact ha
  have hkeep : ∀ op s a s', quiet op → D.inv s → R (o.view s) →
      sys.exec t s op a s' → D.inv s' ∧ D.guar t s s' ∧ R (o.view s') := by
    intro op s₁ a s₂ hop hinv hR₁ hexec
    obtain ⟨hinv₂, hguar, hview⟩ := hquiet op s₁ a s₂ hop hinv hexec
    exact ⟨hinv₂, hguar, by rw [hview]; exact hR₁⟩
  have hall : Outline D t p.run (fun _ s' => R (o.view s')) s :=
    outline_calls (J := fun s' => R (o.view s')) hstable hkeep p.run hp hR
  exact outline_mono p.run hall fun r s' _ h => hexit r s' h

end

end Yams
