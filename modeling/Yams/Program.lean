/-
Programs as trees of operations: a program returns, calls an operation of its
environment, or repeats a body until the body yields a result.  The operations
and their answers are parameters, so the same trees describe a sequential call
and one thread among many.
-/
import Mathlib.Logic.Function.Basic
import Mathlib.Data.List.Basic

namespace Yams

universe u

/-- A program over the operations `Op`, each answered by a value of `Ans op`. -/
inductive Prog (Op : Type) (Ans : Op → Type) : Type → Type 1
  | ret {α : Type} (result : α) : Prog Op Ans α
  | call {α : Type} (op : Op) (next : Ans op → Prog Op Ans α) : Prog Op Ans α
  | loop {α σ τ : Type} (body : σ → Prog Op Ans (σ ⊕ τ)) (state : σ)
      (next : τ → Prog Op Ans α) : Prog Op Ans α

namespace Prog

variable {Op : Type} {Ans : Op → Type} {α β γ σ τ ε : Type}

/-- Sequential composition. -/
def bind {α : Type} :
    Prog Op Ans α → (α → Prog Op Ans β) → Prog Op Ans β
  | ret result, f => f result
  | call op next, f => call op fun answer => (next answer).bind f
  | loop body state next, f => loop body state fun result => (next result).bind f

instance : Monad (Prog Op Ans) where
  pure := ret
  bind := bind

@[simp] theorem pure_eq_ret (a : α) :
    (pure a : Prog Op Ans α) = ret a := rfl

@[simp] theorem bind_eq_bind (p : Prog Op Ans α) (f : α → Prog Op Ans β) :
    p >>= f = p.bind f := rfl

theorem bind_ret {α : Type} (p : Prog Op Ans α) : p.bind ret = p := by
  induction p with
  | ret result => rfl
  | call op next ih =>
      simp only [bind]
      congr 1
      funext answer
      exact ih answer
  | loop body state next _ ih =>
      simp only [bind]
      congr 1
      funext result
      exact ih result

theorem bind_assoc {α : Type} (p : Prog Op Ans α) (f : α → Prog Op Ans β)
    (g : β → Prog Op Ans γ) :
    (p.bind f).bind g = p.bind fun a => (f a).bind g := by
  induction p with
  | ret result => rfl
  | call op next ih =>
      simp only [bind]
      congr 1
      funext answer
      exact ih answer f
  | loop body state next _ ih =>
      simp only [bind]
      congr 1
      funext result
      exact ih result f

/-- Call one operation and return its answer. -/
def perform (op : Op) : Prog Op Ans (Ans op) := call op ret

/-- Repeat `body` from `state` until it yields a result. -/
def iterate (body : σ → Prog Op Ans (σ ⊕ τ)) (state : σ) : Prog Op Ans τ :=
  loop body state ret

/-- One pass through a loop body followed by either the next pass or the exit. -/
def again (body : σ → Prog Op Ans (σ ⊕ τ)) (next : τ → Prog Op Ans α) :
    σ ⊕ τ → Prog Op Ans α
  | .inl state => loop body state next
  | .inr result => next result

/-- Every operation that the program can call meets `P`. -/
def Calls (P : Op → Prop) {α : Type} : Prog Op Ans α → Prop
  | ret _ => True
  | call op next => P op ∧ ∀ answer, Calls P (next answer)
  | loop body _ next =>
      (∀ state, Calls P (body state)) ∧ ∀ result, Calls P (next result)

theorem calls_bind {P : Op → Prop} {α : Type} (p : Prog Op Ans α)
    (f : α → Prog Op Ans β) (hp : p.Calls P) (hf : ∀ a, (f a).Calls P) :
    (p.bind f).Calls P := by
  induction p with
  | ret result => exact hf result
  | call op next ih => exact ⟨hp.1, fun answer => ih answer f (hp.2 answer) hf⟩
  | loop body state next _ ih =>
      exact ⟨hp.1, fun result => ih result f (hp.2 result) hf⟩

theorem calls_iterate {P : Op → Prop} {body : σ → Prog Op Ans (σ ⊕ τ)}
    (hbody : ∀ state, (body state).Calls P) (state : σ) :
    (iterate body state).Calls P := ⟨hbody, fun _ => trivial⟩

theorem again_bind (body : σ → Prog Op Ans (σ ⊕ τ)) (next : τ → Prog Op Ans α)
    (f : α → Prog Op Ans β) (r : σ ⊕ τ) :
    (again body next r).bind f = again body (fun t => (next t).bind f) r := by
  cases r <;> rfl

end Prog

/-- A program that may stop with an error. -/
abbrev Fallible (Op : Type) (Ans : Op → Type) (ε : Type) :=
  ExceptT ε (Prog Op Ans)

namespace Fallible

variable {Op : Type} {Ans : Op → Type} {α β σ τ ε ε' : Type}

/-- Call an operation that cannot itself stop the program. -/
def perform (op : Op) : Fallible Op Ans ε (Ans op) :=
  ExceptT.lift (Prog.perform op)

/-- The result of one pass of a fallible loop. -/
def pass : Except ε (σ ⊕ τ) → σ ⊕ Except ε τ
  | .ok (.inl state) => .inl state
  | .ok (.inr result) => .inr (.ok result)
  | .error e => .inr (.error e)

/-- Repeat a fallible body until it yields a result or stops with an error. -/
def iterate (body : σ → Fallible Op Ans ε (σ ⊕ τ)) (state : σ) :
    Fallible Op Ans ε τ :=
  ExceptT.mk (Prog.iterate (fun st => (body st).run.bind fun r => .ret (pass r)) state)

/-- Turn the error of a program into a value. -/
def observe (p : Fallible Op Ans ε α) : Fallible Op Ans ε' (Except ε α) :=
  ExceptT.lift p.run

/-- Replace the error of a program. -/
def mapError (f : ε → ε') (p : Fallible Op Ans ε α) : Fallible Op Ans ε' α :=
  ExceptT.mk (p.run.bind fun r => .ret (r.mapError f))

/-- Inject a computed result. -/
def ofExcept (r : Except ε α) : Fallible Op Ans ε α := ExceptT.mk (.ret r)

/-- How the rest of a program follows the result of its first part. -/
def follow (f : α → Fallible Op Ans ε β) :
    Except ε α → Prog Op Ans (Except ε β)
  | .ok a => (f a).run
  | .error e => .ret (.error e)

@[simp] theorem run_bind (p : Fallible Op Ans ε α) (f : α → Fallible Op Ans ε β) :
    (p >>= f).run = p.run.bind (follow f) := by
  change Prog.bind p.run _ = _
  congr 1
  funext r
  cases r <;> rfl

@[simp] theorem run_pure (a : α) :
    (pure a : Fallible Op Ans ε α).run = .ret (.ok a) := rfl

@[simp] theorem run_throw (e : ε) :
    (throw e : Fallible Op Ans ε α).run = .ret (.error e) := rfl

@[simp] theorem run_perform (op : Op) :
    (perform op : Fallible Op Ans ε (Ans op)).run
      = .call op fun answer => .ret (.ok answer) := rfl

@[simp] theorem run_ofExcept (r : Except ε α) :
    (ofExcept r : Fallible Op Ans ε α).run = .ret r := rfl

/-- The operations of a composition are those of its parts. -/
theorem calls_follow {P : Op → Prop} (p : Fallible Op Ans ε α)
    (f : α → Fallible Op Ans ε β) (hp : p.run.Calls P)
    (hf : ∀ a, (f a).run.Calls P) : (p >>= f).run.Calls P := by
  rw [run_bind]
  refine Prog.calls_bind p.run _ hp ?_
  rintro (e | a)
  · trivial
  · exact hf a

theorem calls_iterate {P : Op → Prop} {body : σ → Fallible Op Ans ε (σ ⊕ τ)}
    (hbody : ∀ state, (body state).run.Calls P) (state : σ) :
    (iterate body state).run.Calls P :=
  Prog.calls_iterate
    (fun st => Prog.calls_bind (body st).run (fun r => .ret (pass r))
      (hbody st) fun _ => trivial) state

@[simp] theorem run_mapError (f : ε → ε') (p : Fallible Op Ans ε α) :
    (mapError f p).run = p.run.bind fun r => .ret (r.mapError f) := rfl

@[simp] theorem run_observe (p : Fallible Op Ans ε α) :
    (observe p : Fallible Op Ans ε' (Except ε α)).run
      = p.run.bind fun r => .ret (.ok r) := rfl

end Fallible

section

variable {α β ε ε' : Type}

@[simp] theorem except_ok_bind (a : α) (f : α → Except ε β) :
    (Except.ok a >>= f) = f a := rfl

/-- A composition succeeds when both of its parts do. -/
theorem except_bind_eq_ok {r : Except ε α} {f : α → Except ε β} {b : β} :
    (r >>= f) = .ok b ↔ ∃ a, r = .ok a ∧ f a = .ok b := by
  cases r with
  | ok a =>
      constructor
      · intro h
        exact ⟨a, rfl, h⟩
      · rintro ⟨_, ⟨⟩, h⟩
        exact h
  | error e =>
      constructor
      · intro h
        cases h
      · rintro ⟨_, h, _⟩
        cases h

/-- A composition fails in its first part, or in its second. -/
theorem except_bind_eq_error {r : Except ε α} {f : α → Except ε β} {e : ε} :
    (r >>= f) = .error e ↔ r = .error e ∨ ∃ a, r = .ok a ∧ f a = .error e := by
  cases r with
  | ok a =>
      constructor
      · intro h
        exact .inr ⟨a, rfl, h⟩
      · rintro (⟨⟨⟩⟩ | ⟨_, ⟨⟩, h⟩)
        exact h
  | error other =>
      constructor
      · intro h
        exact .inl (congrArg Except.error (Except.error.inj h))
      · rintro (h | ⟨_, ⟨⟩, _⟩)
        exact congrArg Except.error (Except.error.inj h)

theorem except_mapError_eq_ok {r : Except ε α} {f : ε → ε'} {a : α} :
    r.mapError f = .ok a ↔ r = .ok a := by
  cases r <;> simp [Except.mapError]

end

end Yams
