/-
Systems given by functions: an interpreter answers each operation according to
a choice, and disturbs the state according to a choice.  A schedule of choices
computes an interleaving, and a traced system records every operation.
-/
import Yams.Run

namespace Yams

/-- A system whose nondeterminism is a choice handed to a function. -/
structure Interp (Tid Op : Type) (Ans : Op → Type) (S C : Type) where
  answer : Tid → C → S → (op : Op) → Option (Ans op × S)
  disturb : C → S → Option S

/-- One operation as it happened. -/
structure Event (Tid Op : Type) (Ans : Op → Type) (S : Type) where
  tid : Tid
  op : Op
  answer : Ans op
  before : S
  after : S

/-- A state together with the operations that led to it, the newest first. -/
structure Traced (Tid Op : Type) (Ans : Op → Type) (S : Type) where
  now : S
  past : List (Event Tid Op Ans S)

section

variable {Tid Op S C α : Type} {Ans : Op → Type}

namespace Interp

/-- The system of an interpreter. -/
def system (interp : Interp Tid Op Ans S C) : System Tid Op Ans S where
  exec t s op a s' := ∃ c, interp.answer t c s op = some (a, s')
  env s s' := ∃ c, interp.disturb c s = some s'

/-- The same interpreter over states that remember every operation. -/
def traced (interp : Interp Tid Op Ans S C) :
    Interp Tid Op Ans (Traced Tid Op Ans S) C where
  answer t c s op :=
    (interp.answer t c s.now op).map fun (a, s') =>
      (a, ⟨s', ⟨t, op, a, s.now, s'⟩ :: s.past⟩)
  disturb c s := (interp.disturb c s.now).map fun s' => ⟨s', s.past⟩

theorem exec_traced {interp : Interp Tid Op Ans S C} {t : Tid} {op : Op}
    {a : Ans op} {s s' : Traced Tid Op Ans S}
    (h : interp.traced.system.exec t s op a s') :
    interp.system.exec t s.now op a s'.now ∧
      s'.past = ⟨t, op, a, s.now, s'.now⟩ :: s.past := by
  obtain ⟨c, hc⟩ := h
  simp only [traced, Option.map_eq_some_iff, Prod.mk.injEq] at hc
  obtain ⟨⟨b, s₁⟩, hanswer, hb, hs⟩ := hc
  subst hb
  subst hs
  exact ⟨⟨c, hanswer⟩, rfl⟩

theorem env_traced {interp : Interp Tid Op Ans S C} {s s' : Traced Tid Op Ans S}
    (h : interp.traced.system.env s s') :
    interp.system.env s.now s'.now ∧ s'.past = s.past := by
  obtain ⟨c, hc⟩ := h
  simp only [traced, Option.map_eq_some_iff] at hc
  obtain ⟨s₁, hdisturb, hs⟩ := hc
  subst hs
  exact ⟨⟨c, hdisturb⟩, rfl⟩

end Interp

/-- The operations of one thread, the newest first. -/
def Traced.own [DecidableEq Tid] (s : Traced Tid Op Ans S) (t : Tid) :
    List (Event Tid Op Ans S) :=
  s.past.filter fun e => e.tid = t

/-- Whose turn it is, and with which choice. -/
inductive Turn (Tid C : Type)
  | thread (t : Tid) (c : C)
  | environment (c : C)

variable [DecidableEq Tid]

/-- Unfold loops at the head of a program; the fuel bounds the unfolding. -/
def Prog.head : Nat → Prog Op Ans α → Prog Op Ans α
  | fuel + 1, .loop body st next =>
      Prog.head fuel ((body st).bind (Prog.again body next))
  | _, p => p

/-- One turn of a schedule. -/
def Interp.turn (interp : Interp Tid Op Ans S C) (fuel : Nat) :
    Turn Tid C → Pool Tid Op Ans S α → Option (Pool Tid Op Ans S α)
  | .thread t c, ⟨procs, s⟩ =>
      match Prog.head fuel (procs t) with
      | .call op next =>
          match interp.answer t c s op with
          | some (a, s') => some ⟨Function.update procs t (next a), s'⟩
          | none => none
      | _ => none
  | .environment c, ⟨procs, s⟩ =>
      match interp.disturb c s with
      | some s' => some ⟨procs, s'⟩
      | none => none

/-- A whole schedule. -/
def Interp.schedule (interp : Interp Tid Op Ans S C) (fuel : Nat) :
    List (Turn Tid C) → Pool Tid Op Ans S α → Option (Pool Tid Op Ans S α)
  | [], pool => some pool
  | turn :: turns, pool =>
      match interp.turn fuel turn pool with
      | some pool' => interp.schedule fuel turns pool'
      | none => none

theorem steps_head (sys : System Tid Op Ans S) (fuel : Nat)
    (procs : Tid → Prog Op Ans α) (s : S) (t : Tid) :
    sys.Steps ⟨procs, s⟩
      ⟨Function.update procs t (Prog.head fuel (procs t)), s⟩ := by
  induction fuel generalizing procs with
  | zero =>
      have hsame : Prog.head 0 (procs t) = procs t := by
        cases procs t <;> rfl
      rw [hsame, Function.update_eq_self]
      exact .refl
  | succ fuel ih =>
      cases hproc : procs t with
      | ret result =>
          simp only [Prog.head]
          rw [← hproc, Function.update_eq_self]
          exact .refl
      | call op next =>
          simp only [Prog.head]
          rw [← hproc, Function.update_eq_self]
          exact .refl
      | loop body state next =>
          have hunfold : sys.Step ⟨procs, s⟩ ⟨Function.update procs t
              ((body state).bind (Prog.again body next)), s⟩ :=
            .unfold t body state next hproc
          have hrest := ih (Function.update procs t
            ((body state).bind (Prog.again body next)))
          simp only [Function.update_self, Function.update_idem] at hrest
          exact .head hunfold hrest

theorem turn_steps {interp : Interp Tid Op Ans S C} {fuel : Nat}
    {turn : Turn Tid C} {pool pool' : Pool Tid Op Ans S α}
    (h : interp.turn fuel turn pool = some pool') :
    interp.system.Steps pool pool' := by
  obtain ⟨procs, s⟩ := pool
  cases turn with
  | thread t c =>
      simp only [Interp.turn] at h
      split at h
      · rename_i op next hhead
        split at h
        · rename_i a s' hanswer
          cases h
          have hunfold := steps_head interp.system fuel procs s t
          have hready : Function.update procs t (Prog.head fuel (procs t)) t
              = .call op next := by
            rw [Function.update_self, hhead]
          have hexec : interp.system.exec t s op a s' := ⟨c, hanswer⟩
          have hcall := System.Step.call t op next a hready hexec
          rw [Function.update_idem] at hcall
          exact Relation.ReflTransGen.tail hunfold hcall
        · cases h
      · cases h
  | environment c =>
      simp only [Interp.turn] at h
      split at h
      · rename_i s' hdisturb
        cases h
        exact .single (.env ⟨c, hdisturb⟩)
      · cases h

/-- A computed schedule is an interleaving of the system. -/
theorem schedule_steps {interp : Interp Tid Op Ans S C} {fuel : Nat}
    {turns : List (Turn Tid C)} {pool pool' : Pool Tid Op Ans S α}
    (h : interp.schedule fuel turns pool = some pool') :
    interp.system.Steps pool pool' := by
  induction turns generalizing pool with
  | nil =>
      cases h
      exact .refl
  | cons turn turns ih =>
      simp only [Interp.schedule] at h
      split at h
      · rename_i pool₁ hturn
        exact Relation.ReflTransGen.trans (turn_steps hturn) (ih h)
      · cases h

/-- A run of one thread's program is an interleaving in which the others rest. -/
theorem Runs.follow {sys : System Tid Op Ans S} {t : Tid} {β : Type} {p : Prog Op Ans β}
    {s s' : S} {b : β} (hrun : Runs (sys.exec t) p s b s') :
    ∀ (procs : Tid → Prog Op Ans α) {f : β → Prog Op Ans α}, procs t = p.bind f →
      sys.Steps ⟨procs, s⟩ ⟨Function.update procs t (f b), s'⟩ := by
  induction hrun with
  | ret b s =>
      intro procs f hproc
      change procs t = f b at hproc
      rw [← hproc, Function.update_eq_self]
      exact .refl
  | @call _ op next answer b s s₁ s₂ hexec _ ih =>
      intro procs f hproc
      have hcall : sys.Step ⟨procs, s⟩
          ⟨Function.update procs t ((next answer).bind f), s₁⟩ :=
        .call t op (fun answer => (next answer).bind f) answer hproc hexec
      have hrest := ih (Function.update procs t ((next answer).bind f))
        (Function.update_self t _ procs)
      rw [Function.update_idem] at hrest
      exact .head hcall hrest
  | @pass _ _ _ body st st' next b s s₁ s₂ _ _ ihbody ihnext =>
      intro procs f hproc
      have hunfold : sys.Step ⟨procs, s⟩ ⟨Function.update procs t ((body st).bind
          (Prog.again body fun result => (next result).bind f)), s⟩ :=
        .unfold t body st (fun result => (next result).bind f) hproc
      have hpass := ihbody (Function.update procs t ((body st).bind
        (Prog.again body fun result => (next result).bind f)))
        (Function.update_self t _ procs)
      have hrest := ihnext (Function.update procs t
        (.loop body st' fun result => (next result).bind f))
        (Function.update_self t _ procs)
      rw [Function.update_idem] at hpass hrest
      exact .head hunfold (hpass.trans hrest)
  | @exit _ _ _ body st result next b s s₁ s₂ _ _ ihbody ihnext =>
      intro procs f hproc
      have hunfold : sys.Step ⟨procs, s⟩ ⟨Function.update procs t ((body st).bind
          (Prog.again body fun result => (next result).bind f)), s⟩ :=
        .unfold t body st (fun result => (next result).bind f) hproc
      have hexit := ihbody (Function.update procs t ((body st).bind
        (Prog.again body fun result => (next result).bind f)))
        (Function.update_self t _ procs)
      have hrest := ihnext (Function.update procs t ((next result).bind f))
        (Function.update_self t _ procs)
      rw [Function.update_idem] at hexit hrest
      exact .head hunfold (hexit.trans hrest)

theorem Runs.steps {sys : System Tid Op Ans S} {t : Tid} {p : Prog Op Ans α} {s s' : S}
    {a : α} (hrun : Runs (sys.exec t) p s a s') {procs : Tid → Prog Op Ans α}
    (hproc : procs t = p) :
    sys.Steps ⟨procs, s⟩ ⟨Function.update procs t (.ret a), s'⟩ := by
  apply hrun.follow procs
  rw [hproc, Prog.bind_ret]

end

end Yams
