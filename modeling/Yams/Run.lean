/-
Sequential runs: a program taken from a state to a result and a final state,
with every operation answered as its environment allows.  A run can be computed
from the list of choices the environment makes.
-/
import Yams.StableTriple

namespace Yams

/-- The complete sequential runs of a program. -/
inductive Runs {Op S : Type} {Ans : Op → Type}
    (exec : S → (op : Op) → Ans op → S → Prop) :
    {α : Type} → Prog Op Ans α → S → α → S → Prop
  | ret {α : Type} (a : α) (s : S) : Runs exec (.ret a) s a s
  | call {α : Type} {op : Op} {next : Ans op → Prog Op Ans α} {answer : Ans op}
      {a : α} {s s₁ s₂ : S} (hexec : exec s op answer s₁)
      (hnext : Runs exec (next answer) s₁ a s₂) : Runs exec (.call op next) s a s₂
  | pass {α σ τ : Type} {body : σ → Prog Op Ans (σ ⊕ τ)} {st st' : σ}
      {next : τ → Prog Op Ans α} {a : α} {s s₁ s₂ : S}
      (hbody : Runs exec (body st) s (.inl st') s₁)
      (hnext : Runs exec (.loop body st' next) s₁ a s₂) :
      Runs exec (.loop body st next) s a s₂
  | exit {α σ τ : Type} {body : σ → Prog Op Ans (σ ⊕ τ)} {st : σ} {result : τ}
      {next : τ → Prog Op Ans α} {a : α} {s s₁ s₂ : S}
      (hbody : Runs exec (body st) s (.inr result) s₁)
      (hnext : Runs exec (next result) s₁ a s₂) :
      Runs exec (.loop body st next) s a s₂

section

variable {Op S α β σ τ ε ε' : Type} {Ans : Op → Type}
variable {exec : S → (op : Op) → Ans op → S → Prop}

/-- A single thread and no other activity. -/
def System.alone (exec : S → (op : Op) → Ans op → S → Prop) :
    System Unit Op Ans S where
  exec _ := exec
  env _ _ := False

/-- The discipline of a thread that runs alone. -/
def Discipline.alone (exec : S → (op : Op) → Ans op → S → Prop) :
    Discipline (System.alone exec) where
  inv _ := True
  rely _ a b := a = b
  guar _ _ _ := True
  rely_refl _ _ := rfl
  rely_trans := Eq.trans
  compat := fun hne => absurd rfl hne
  env := fun _ h => h.elim

/-- The assertions that every sequential run from a state must meet. -/
abbrev Alone (exec : S → (op : Op) → Ans op → S → Prop) {α : Type}
    (p : Prog Op Ans α) (Q : α → S → Prop) (s : S) : Prop :=
  Outline (Discipline.alone exec) () p Q s

/-- A run ends in a state that meets the exit assertion of an outline. -/
theorem Runs.outlined {α : Type} {p : Prog Op Ans α} {s s' : S} {a : α}
    (hrun : Runs exec p s a s') :
    ∀ {Q : α → S → Prop}, Alone exec p Q s → Q a s' := by
  induction hrun with
  | ret a s =>
      intro Q h
      exact h s rfl trivial
  | call hexec _ ih =>
      intro Q h
      exact ih (h _ rfl trivial _ _ hexec).2.2
  | pass _ _ ihbody ihnext =>
      rintro Q ⟨J, hJ, hbody⟩
      exact ihnext ⟨J, ihbody (hbody _ _ _ hJ rfl trivial), hbody⟩
  | exit _ _ ihbody ihnext =>
      rintro Q ⟨J, hJ, hbody⟩
      exact ihnext (ihbody (hbody _ _ _ hJ rfl trivial))

/-! Rules for the assertions of a sequential run. -/

theorem alone_ret {a : α} {Q : α → S → Prop} {s : S} (h : Q a s) :
    Alone exec (.ret a) Q s := by
  rintro s₁ rfl _
  exact h

theorem alone_call {op : Op} {next : Ans op → Prog Op Ans α} {Q : α → S → Prop}
    {s : S} (h : ∀ answer s', exec s op answer s' →
      Alone exec (next answer) Q s') : Alone exec (.call op next) Q s := by
  rintro s₁ rfl _ answer s₂ hexec
  exact ⟨trivial, trivial, h answer s₂ hexec⟩

theorem alone_mono {p : Prog Op Ans α} {Q Q' : α → S → Prop} {s : S}
    (h : Alone exec p Q s) (hQ : ∀ a s', Q a s' → Q' a s') :
    Alone exec p Q' s :=
  outline_mono p h fun a s' _ => hQ a s'

theorem alone_bind {p : Prog Op Ans α} {f : α → Prog Op Ans β}
    {Q : β → S → Prop} {s : S}
    (h : Alone exec p (fun a s' => Alone exec (f a) Q s') s) :
    Alone exec (p.bind f) Q s :=
  outline_bind p f trivial h

/-- The call of a function by its specification. -/
theorem alone_part {p : Prog Op Ans α} {f : α → Prog Op Ans β}
    {P : α → S → Prop} {Q : β → S → Prop} {s : S} (hp : Alone exec p P s)
    (hrest : ∀ a s', P a s' → Alone exec (f a) Q s') :
    Alone exec (p.bind f) Q s :=
  alone_bind (alone_mono hp hrest)

/-- The loop rule: an invariant of the loop states, kept by every pass. -/
theorem alone_iterate {body : σ → Prog Op Ans (σ ⊕ τ)} {state : σ}
    {Q : τ → S → Prop} {s : S} (J : σ → S → Prop) (hstart : J state s)
    (hpass : ∀ st s', J st s' → Alone exec (body st) (PassPost J Q) s') :
    Alone exec (Prog.iterate body state) Q s :=
  outline_iterate J hstart (fun _ _ _ hst hrely _ => hrely ▸ hst)
    (fun _ _ _ hr hrely _ => hrely ▸ hr) fun st s' _ hst => hpass st s' hst

/-- The loop rule of fallible programs. -/
theorem alone_loop {body : σ → Fallible Op Ans ε (σ ⊕ τ)} {state : σ}
    {Q : Except ε τ → S → Prop} {s : S} (J : σ → S → Prop) (hstart : J state s)
    (hpass : ∀ st s', J st s' → Alone exec (body st).run
      (fun r => PassPost J Q (Fallible.pass r)) s') :
    Alone exec (Fallible.iterate body state).run Q s :=
  alone_iterate J hstart fun st s' hst =>
    alone_part (hpass st s' hst) fun _ _ => alone_ret

theorem alone_op {op : Op} {f : Ans op → Prog Op Ans β} {Q : β → S → Prop}
    {s : S} (h : ∀ answer s', exec s op answer s' → Alone exec (f answer) Q s') :
    Alone exec (Prog.perform op >>= f) Q s :=
  alone_call h

theorem alone_perform {op : Op} {f : Ans op → Fallible Op Ans ε β}
    {Q : Except ε β → S → Prop} {s : S}
    (h : ∀ answer s', exec s op answer s' → Alone exec (f answer).run Q s') :
    Alone exec (Fallible.perform op >>= f).run Q s := by
  rw [Fallible.run_bind, Fallible.run_perform]
  exact alone_call h

/-- A computed result is followed by the rest or is the error of the whole. -/
theorem alone_ofExcept {r : Except ε α} {f : α → Fallible Op Ans ε β}
    {Q : Except ε β → S → Prop} {s : S}
    (hok : ∀ a, r = .ok a → Alone exec (f a).run Q s)
    (herror : ∀ e, r = .error e → Q (.error e) s) :
    Alone exec (Fallible.ofExcept r >>= f).run Q s := by
  rw [Fallible.run_bind, Fallible.run_ofExcept]
  cases r with
  | ok a => exact hok a rfl
  | error e => exact alone_ret (herror e rfl)

/-- Observing the error of a program. -/
theorem alone_observe {p : Fallible Op Ans ε α}
    {f : Except ε α → Fallible Op Ans ε' β} {P : Except ε α → S → Prop}
    {Q : Except ε' β → S → Prop} {s : S} (hp : Alone exec p.run P s)
    (hrest : ∀ r s', P r s' → Alone exec (f r).run Q s') :
    Alone exec (Fallible.observe p >>= f).run Q s := by
  rw [Fallible.run_bind, Fallible.run_observe, Prog.bind_assoc]
  exact alone_part hp hrest

/-- Composition of fallible programs, the first by its specification. -/
theorem alone_follow {p : Fallible Op Ans ε α} {f : α → Fallible Op Ans ε β}
    {P : Except ε α → S → Prop} {Q : Except ε β → S → Prop} {s : S}
    (hp : Alone exec p.run P s)
    (hok : ∀ a s', P (.ok a) s' → Alone exec (f a).run Q s')
    (herror : ∀ e s', P (.error e) s' → Q (.error e) s') :
    Alone exec (p >>= f).run Q s := by
  rw [Fallible.run_bind]
  refine alone_part hp ?_
  rintro (e | a) s' hP
  · exact alone_ret (herror e s' hP)
  · exact hok a s' hP

/-- A fold of a fallible program: an assertion about the items it has gone through,
kept by every item of the list. -/
theorem alone_foldlM {f : β → α → Fallible Op Ans ε β} {E : ε → S → Prop}
    {items : List α} (J : List α → β → S → Prop)
    (hstep : ∀ done a rest acc s', items = done ++ a :: rest → J done acc s' →
      Alone exec (f acc a).run (Outcomes (J (done ++ [a])) E) s')
    {acc : β} {s : S} (hstart : J [] acc s) :
    Alone exec (items.foldlM f acc).run (Outcomes (J items) E) s := by
  have hrest : ∀ rest done acc s', items = done ++ rest → J done acc s' →
      Alone exec (rest.foldlM f acc).run (Outcomes (J items) E) s' := by
    intro rest
    induction rest with
    | nil =>
        intro done acc s' heq hJ
        rw [List.append_nil] at heq
        exact alone_ret (heq ▸ hJ)
    | cons a rest ih =>
        intro done acc s' heq hJ
        rw [List.foldlM_cons]
        apply alone_follow (hstep done a rest acc s' heq hJ)
        · intro acc' s₁ hJ'
          exact ih (done ++ [a]) acc' s₁ (by rw [heq, List.append_cons]) hJ'
        · intro e s₁ hE
          exact hE
  exact hrest items [] acc s rfl hstart

/-- An assertion kept by every operation that a program calls is kept by the
program. -/
theorem alone_calls {P : Op → Prop} {J : S → Prop}
    (hkeep : ∀ op s a s', P op → J s → exec s op a s' → J s')
    (p : Prog Op Ans α) (hp : p.Calls P) {s : S} (hs : J s) :
    Alone exec p (fun _ => J) s :=
  outline_calls (fun _ _ ha hrely _ => hrely ▸ ha)
    (fun op s a s' hop _ hJ hexec =>
      ⟨trivial, trivial, hkeep op s a s' hop hJ hexec⟩) p hp hs

theorem Runs.bind {α : Type} {p : Prog Op Ans α} {s s₁ : S} {a : α}
    (hp : Runs exec p s a s₁) :
    ∀ {f : α → Prog Op Ans β} {b : β} {s₂ : S},
      Runs exec (f a) s₁ b s₂ → Runs exec (p.bind f) s b s₂ := by
  induction hp with
  | ret a s =>
      intro f b s₂ hf
      exact hf
  | call hexec _ ih =>
      intro f b s₂ hf
      exact .call hexec (ih hf)
  | pass hbody _ _ ihnext =>
      intro f b s₂ hf
      exact .pass hbody (ihnext hf)
  | exit hbody _ _ ihnext =>
      intro f b s₂ hf
      exact .exit hbody (ihnext hf)

/-- A run through a loop leaves it with some result. -/
theorem Runs.loop_inv {body : σ → Prog Op Ans (σ ⊕ τ)} {st : σ}
    {next : τ → Prog Op Ans α} {a : α} {s s₂ : S}
    (h : Runs exec (.loop body st next) s a s₂) :
    ∃ r s₁, Runs exec (Prog.iterate body st) s r s₁ ∧
      Runs exec (next r) s₁ a s₂ := by
  generalize hq : Prog.loop body st next = q at h
  induction h generalizing st with
  | ret a s => cases hq
  | call hexec hnext _ => cases hq
  | pass hbody _ _ ih =>
      cases hq
      obtain ⟨r, s₁, hloop, hnext⟩ := ih rfl
      exact ⟨r, s₁, .pass hbody hloop, hnext⟩
  | exit hbody hnext _ _ =>
      cases hq
      exact ⟨_, _, .exit hbody (.ret _ _), hnext⟩

/-- A run of a composition is a run of the first part followed by one of the
second. -/
theorem Runs.bind_inv {α : Type} (p : Prog Op Ans α) :
    ∀ {f : α → Prog Op Ans β} {b : β} {s s₂ : S},
      Runs exec (p.bind f) s b s₂ →
        ∃ a s₁, Runs exec p s a s₁ ∧ Runs exec (f a) s₁ b s₂ := by
  induction p with
  | ret result =>
      intro f b s s₂ h
      exact ⟨result, s, .ret result s, h⟩
  | call op next ih =>
      intro f b s s₂ h
      cases h with
      | call hexec hnext =>
          obtain ⟨a, s₁, hp, hf⟩ := ih _ hnext
          exact ⟨a, s₁, .call hexec hp, hf⟩
  | loop body state next _ ihnext =>
      intro f b s s₂ h
      obtain ⟨r, s₃, hloop, hrest⟩ := Runs.loop_inv h
      obtain ⟨a, s₁, hnext, hf⟩ := ihnext r hrest
      exact ⟨a, s₁, hloop.bind hnext, hf⟩

/-- Running one pass and then the rest of the loop is running the loop. -/
theorem Runs.loop {body : σ → Prog Op Ans (σ ⊕ τ)} {st : σ}
    {next : τ → Prog Op Ans α} {a : α} {s s' : S}
    (h : Runs exec ((body st).bind (Prog.again body next)) s a s') :
    Runs exec (.loop body st next) s a s' := by
  obtain ⟨r, s₁, hbody, hnext⟩ := Runs.bind_inv (body st) h
  cases r with
  | inl st' => exact .pass hbody hnext
  | inr result => exact .exit hbody hnext

end

section

variable {Op S C α : Type} {Ans : Op → Type}

/-- The runs in which every answer follows from a choice of the environment. -/
def Chosen (answer : C → S → (op : Op) → Option (Ans op × S)) :
    S → (op : Op) → Ans op → S → Prop :=
  fun s op a s' => ∃ c, answer c s op = some (a, s')

/-- Compute a run from the choices of the environment, one for each operation.
The fuel bounds the operations and loop passes together. -/
def runChoices (answer : C → S → (op : Op) → Option (Ans op × S)) :
    Nat → List C → Prog Op Ans α → S → Option (α × S)
  | _, _, .ret result, s => some (result, s)
  | fuel + 1, c :: choices, .call op next, s =>
      match answer c s op with
      | some (a, s') => runChoices answer fuel choices (next a) s'
      | none => none
  | fuel + 1, choices, .loop body st next, s =>
      runChoices answer fuel choices
        ((body st).bind (Prog.again body next)) s
  | _, _, _, _ => none

theorem runChoices_runs {answer : C → S → (op : Op) → Option (Ans op × S)}
    {fuel : Nat} {choices : List C} {p : Prog Op Ans α} {s s' : S} {a : α}
    (h : runChoices answer fuel choices p s = some (a, s')) :
    Runs (Chosen answer) p s a s' := by
  fun_induction runChoices answer fuel choices p s with
  | case1 =>
      cases h
      exact .ret _ _
  | case2 _ c _ _ _ _ _ _ hanswer ih => exact .call ⟨c, hanswer⟩ (ih h)
  | case3 => cases h
  | case4 _ _ _ _ _ _ _ _ ih => exact .loop (ih h)
  | case5 => cases h

end

end Yams
