/-
Threads over one shared state, and rely-guarantee outlines for them.  A
discipline says which state changes a thread may see from the others and which
it may make; an outline assigns assertions to the points of one program, and
the outlines of all threads together hold along every interleaving.
-/
import Yams.Program
import Mathlib.Logic.Relation

namespace Yams

/-- What each operation may answer and how it may change the shared state, and
what the environment may do on its own. -/
structure System (Tid Op : Type) (Ans : Op → Type) (S : Type) where
  exec : Tid → S → (op : Op) → Ans op → S → Prop
  env : S → S → Prop

/-- The programs still to be run by every thread, and the shared state. -/
structure Pool (Tid Op : Type) (Ans : Op → Type) (S α : Type) where
  procs : Tid → Prog Op Ans α
  state : S

namespace System

variable {Tid Op S α : Type} {Ans : Op → Type} [DecidableEq Tid]

/-- One atomic step of one thread, or of the environment. -/
inductive Step (sys : System Tid Op Ans S) :
    Pool Tid Op Ans S α → Pool Tid Op Ans S α → Prop
  | call {procs : Tid → Prog Op Ans α} {s s' : S} (t : Tid) (op : Op)
      (next : Ans op → Prog Op Ans α) (answer : Ans op)
      (hproc : procs t = .call op next) (hexec : sys.exec t s op answer s') :
      Step sys ⟨procs, s⟩ ⟨Function.update procs t (next answer), s'⟩
  | unfold {procs : Tid → Prog Op Ans α} {s : S} (t : Tid) {σ τ : Type}
      (body : σ → Prog Op Ans (σ ⊕ τ)) (state : σ) (next : τ → Prog Op Ans α)
      (hproc : procs t = .loop body state next) :
      Step sys ⟨procs, s⟩
        ⟨Function.update procs t ((body state).bind (Prog.again body next)), s⟩
  | env {procs : Tid → Prog Op Ans α} {s s' : S} (henv : sys.env s s') :
      Step sys ⟨procs, s⟩ ⟨procs, s'⟩

/-- Any number of steps, of any threads in any order. -/
def Steps (sys : System Tid Op Ans S) :
    Pool Tid Op Ans S α → Pool Tid Op Ans S α → Prop :=
  Relation.ReflTransGen sys.Step

end System

/-- Which changes each thread makes and which it tolerates from the others.
`compat` is the side condition that makes the outlines of all threads fit. -/
structure Discipline {Tid Op S : Type} {Ans : Op → Type}
    (sys : System Tid Op Ans S) where
  inv : S → Prop
  rely : Tid → S → S → Prop
  guar : Tid → S → S → Prop
  rely_refl : ∀ t s, rely t s s
  rely_trans : ∀ {t a b c}, rely t a b → rely t b c → rely t a c
  compat : ∀ {t u a b}, t ≠ u → inv a → inv b → guar t a b → rely u a b
  env : ∀ {a b}, inv a → sys.env a b → inv b ∧ ∀ t, rely t a b

section

variable {Tid Op S α β σ τ ε ε' : Type} {Ans : Op → Type}
variable {sys : System Tid Op Ans S}

/-- What one pass of a loop establishes: the invariant again, or the exit. -/
def PassPost (J : σ → S → Prop) (P : τ → S → Prop) : σ ⊕ τ → S → Prop
  | .inl state => J state
  | .inr result => P result

/-- Every point of the program meets its assertion, whatever the other threads
do in between as long as they keep to the discipline. -/
def Outline (D : Discipline sys) (t : Tid) {α : Type} :
    Prog Op Ans α → (α → S → Prop) → S → Prop
  | .ret result, Q, s => ∀ s₁, D.rely t s s₁ → D.inv s₁ → Q result s₁
  | .call op next, Q, s => ∀ s₁, D.rely t s s₁ → D.inv s₁ →
      ∀ answer s₂, sys.exec t s₁ op answer s₂ →
        D.inv s₂ ∧ D.guar t s₁ s₂ ∧ Outline D t (next answer) Q s₂
  | .loop body state next, Q, s =>
      ∃ J : _ → S → Prop, J state s ∧
        ∀ st s₁ s₂, J st s₁ → D.rely t s₁ s₂ → D.inv s₂ →
          Outline D t (body st)
            (PassPost J fun result => Outline D t (next result) Q) s₂

variable {D : Discipline sys} {t : Tid}

/-- A weaker assertion at the exit; the invariant may be used to weaken it. -/
theorem outline_mono {α : Type} (p : Prog Op Ans α) :
    ∀ {Q Q' : α → S → Prop} {s : S}, Outline D t p Q s →
      (∀ a s', D.inv s' → Q a s' → Q' a s') → Outline D t p Q' s := by
  induction p with
  | ret result =>
      intro Q Q' s h hQ s₁ hrely hinv
      exact hQ result s₁ hinv (h s₁ hrely hinv)
  | call op next ih =>
      intro Q Q' s h hQ s₁ hrely hinv answer s₂ hexec
      obtain ⟨hinv₂, hguar, hnext⟩ := h s₁ hrely hinv answer s₂ hexec
      exact ⟨hinv₂, hguar, ih answer hnext hQ⟩
  | loop body state next ihbody ihnext =>
      rintro Q Q' s ⟨J, hJ, hbody⟩ hQ
      refine ⟨J, hJ, ?_⟩
      intro st s₁ s₂ hst hrely hinv
      refine ihbody st (hbody st s₁ s₂ hst hrely hinv) ?_
      rintro (st' | result) s' hinv' h'
      · exact h'
      · exact ihnext result h' hQ

/-- An outline is not disturbed by the other threads. -/
theorem outline_stable {α : Type} (p : Prog Op Ans α) {Q : α → S → Prop}
    {s s' : S} (h : Outline D t p Q s) (hrely : D.rely t s s') :
    Outline D t p Q s' := by
  cases p with
  | ret result =>
      intro s₁ hs₁ hinv
      exact h s₁ (D.rely_trans hrely hs₁) hinv
  | call op next =>
      intro s₁ hs₁ hinv
      exact h s₁ (D.rely_trans hrely hs₁) hinv
  | loop body state next =>
      obtain ⟨J, hJ, hbody⟩ := h
      refine ⟨fun st x => ∃ s₀, J st s₀ ∧ D.rely t s₀ x, ⟨s, hJ, hrely⟩, ?_⟩
      rintro st s₁ s₂ ⟨s₀, hst, h₀₁⟩ h₁₂ hinv
      refine outline_mono (body st)
        (hbody st s₀ s₂ hst (D.rely_trans h₀₁ h₁₂) hinv) ?_
      rintro (st' | result) s₃ _ h₃
      · exact ⟨s₃, h₃, D.rely_refl t s₃⟩
      · exact h₃

/-- Sequential composition of outlines. -/
theorem outline_bind {α : Type} (p : Prog Op Ans α) (f : α → Prog Op Ans β)
    {Q : β → S → Prop} : ∀ {s : S}, D.inv s →
      Outline D t p (fun a s' => Outline D t (f a) Q s') s →
        Outline D t (p.bind f) Q s := by
  induction p with
  | ret result =>
      intro s hinv h
      exact h s (D.rely_refl t s) hinv
  | call op next ih =>
      intro s _ h s₁ hrely hinv answer s₂ hexec
      obtain ⟨hinv₂, hguar, hnext⟩ := h s₁ hrely hinv answer s₂ hexec
      exact ⟨hinv₂, hguar, ih answer f hinv₂ hnext⟩
  | loop body state next _ ihnext =>
      rintro s _ ⟨J, hJ, hbody⟩
      refine ⟨J, hJ, ?_⟩
      intro st s₁ s₂ hst hrely hinv
      refine outline_mono (body st) (hbody st s₁ s₂ hst hrely hinv) ?_
      rintro (st' | result) s' hinv' h'
      · exact h'
      · exact ihnext result f hinv' h'

/-- The loop rule: an invariant of the loop states, kept by every pass. -/
theorem outline_iterate {body : σ → Prog Op Ans (σ ⊕ τ)} {state : σ}
    {Q : τ → S → Prop} {s : S} (J : σ → S → Prop) (hstart : J state s)
    (hstable : ∀ st a b, J st a → D.rely t a b → D.inv b → J st b)
    (hQ : ∀ r a b, Q r a → D.rely t a b → D.inv b → Q r b)
    (hpass : ∀ st s', D.inv s' → J st s' →
      Outline D t (body st) (PassPost J Q) s') :
    Outline D t (Prog.iterate body state) Q s := by
  refine ⟨J, hstart, ?_⟩
  intro st s₁ s₂ hst hrely hinv
  refine outline_mono (body st)
    (hpass st s₂ hinv (hstable st s₁ s₂ hst hrely hinv)) ?_
  rintro (st' | result) s' hinv' h'
  · exact h'
  · intro s'' hrely' hinv''
    exact hQ result s' s'' h' hrely' hinv''

/-- An assertion kept by every operation that a program calls is kept by the
program. -/
theorem outline_calls {P : Op → Prop} {J : S → Prop}
    (hstable : ∀ a b, J a → D.rely t a b → D.inv b → J b)
    (hkeep : ∀ op s a s', P op → D.inv s → J s → sys.exec t s op a s' →
      D.inv s' ∧ D.guar t s s' ∧ J s')
    {α : Type} (p : Prog Op Ans α) (hp : p.Calls P) :
    ∀ {s : S}, J s → Outline D t p (fun _ => J) s := by
  induction p with
  | ret result =>
      intro s hs s₁ hrely hinv
      exact hstable s s₁ hs hrely hinv
  | call op next ih =>
      intro s hs s₁ hrely hinv answer s₂ hexec
      obtain ⟨hinv₂, hguar, hs₂⟩ :=
        hkeep op s₁ answer s₂ hp.1 hinv (hstable s s₁ hs hrely hinv) hexec
      exact ⟨hinv₂, hguar, ih answer (hp.2 answer) hs₂⟩
  | loop body state next ihbody ihnext =>
      intro s hs
      refine ⟨fun _ => J, hs, ?_⟩
      intro st s₁ s₂ hst hrely hinv
      refine outline_mono (body st)
        (ihbody st (hp.1 st) (hstable s₁ s₂ hst hrely hinv)) ?_
      rintro (st' | result) s' _ hs'
      · exact hs'
      · exact ihnext result (hp.2 result) hs'

/-- Composition of fallible programs: an error skips the rest. -/
theorem outline_follow (p : Fallible Op Ans ε α) (f : α → Fallible Op Ans ε β)
    {Q : Except ε β → S → Prop} {s : S} (hinv : D.inv s)
    (h : Outline D t p.run
      (fun r s' => Outline D t (Fallible.follow f r) Q s') s) :
    Outline D t (p >>= f).run Q s := by
  rw [Fallible.run_bind]
  exact outline_bind p.run _ hinv h

/-- Every thread meets its own outline. -/
def Outlined (D : Discipline sys) (Q : Tid → α → S → Prop)
    (pool : Pool Tid Op Ans S α) : Prop :=
  D.inv pool.state ∧ ∀ t, Outline D t (pool.procs t) (Q t) pool.state

variable [DecidableEq Tid]

/-- One step of any thread, or of the environment, keeps every outline. -/
theorem outlined_step {Q : Tid → α → S → Prop} {pool pool' : Pool Tid Op Ans S α}
    (hstep : sys.Step pool pool') (h : Outlined D Q pool) : Outlined D Q pool' := by
  obtain ⟨hinv, hout⟩ := h
  cases hstep with
  | @call procs s s' t op next answer hproc hexec =>
      have hown : Outline D t (procs t) (Q t) s := hout t
      rw [hproc] at hown
      obtain ⟨hinv', hguar, hnext⟩ :=
        hown s (D.rely_refl t s) hinv answer s' hexec
      refine ⟨hinv', fun u => ?_⟩
      by_cases hu : u = t
      · subst hu
        simpa using hnext
      · have hrely : D.rely u s s' := D.compat (Ne.symm hu) hinv hinv' hguar
        simpa [Function.update_of_ne hu] using outline_stable _ (hout u) hrely
  | @unfold procs s t σ τ body state next hproc =>
      refine ⟨hinv, fun u => ?_⟩
      by_cases hu : u = t
      · subst hu
        have hown : Outline D u (procs u) (Q u) s := hout u
        rw [hproc] at hown
        obtain ⟨J, hJ, hbody⟩ := hown
        simp only [Function.update_self]
        refine outline_bind (body state) _ hinv ?_
        refine outline_mono (body state)
          (hbody state s s hJ (D.rely_refl u s) hinv) ?_
        rintro (st' | result) s' _ h'
        · exact ⟨J, h', hbody⟩
        · exact h'
      · simpa [Function.update_of_ne hu] using hout u
  | env henv =>
      obtain ⟨hinv', hrely⟩ := D.env hinv henv
      exact ⟨hinv', fun u => outline_stable _ (hout u) (hrely u)⟩

/-- The outlines of all threads hold along every interleaving. -/
theorem outlined_steps {Q : Tid → α → S → Prop} {pool pool' : Pool Tid Op Ans S α}
    (hsteps : sys.Steps pool pool') (h : Outlined D Q pool) :
    Outlined D Q pool' := by
  induction hsteps with
  | refl => exact h
  | tail _ hstep ih => exact outlined_step hstep ih

omit [DecidableEq Tid] in
/-- A finished thread has established its exit assertion. -/
theorem Outlined.finished {Q : Tid → α → S → Prop}
    {pool : Pool Tid Op Ans S α} (h : Outlined D Q pool) {t : Tid} {a : α}
    (hdone : pool.procs t = .ret a) : Q t a pool.state := by
  have hout := h.2 t
  rw [hdone] at hout
  exact hout pool.state (D.rely_refl t _) h.1

end

end Yams
