/-
The outline of the service loop.  The service thread owns its variables and its
part of the books; workers own their completion message; the flag of the
shutdown token is changed by the holder of its mutex alone.
-/
import Yams.ServiceBooks
import Yams.Owned

namespace Yams.ServiceLoop

/-- The books balance, with at most two streams in hand. -/
def Admissible (l : Loop) : Prop :=
  ∃ hand taken lag, hand.length ≤ 2 ∧ Books hand taken lag l

/-- What every interleaving keeps. -/
structure ServiceInv (s : ServiceState) : Prop where
  books : Admissible s.loop
  received : s.loop.received ≤ s.released.length
  released : s.released.Nodup
  started : ∀ stream ∈ s.released, stream ∈ executed s.loop.fates
  opened : s.admissionClosed = false → s.returns = []
  sealed : ∀ taken ∈ s.returns, taken = s.loop.reserved

/-- What thread `t` may rely on. -/
structure ServiceRely (t : Tid) (a b : ServiceState) : Prop where
  loop : t = .service → b.loop = a.loop
  closed : a.admissionClosed = true → b.admissionClosed = true
  guarded : a.mutex = some t →
    b.mutex = some t ∧ b.admissionClosed = a.admissionClosed
  released : ∀ stream ∈ a.released, stream ∈ b.released
  own : ∀ stream, t = .worker stream → stream ∈ b.released →
    stream ∈ a.released
  executed : ∀ stream ∈ executed a.loop.fates, stream ∈ executed b.loop.fates

theorem ServiceRely.refl (t : Tid) (s : ServiceState) : ServiceRely t s s :=
  ⟨fun _ => rfl, id, fun h => ⟨h, rfl⟩, fun _ h => h, fun _ _ h => h,
    fun _ h => h⟩

theorem ServiceRely.trans {t : Tid} {a b c : ServiceState}
    (hab : ServiceRely t a b) (hbc : ServiceRely t b c) : ServiceRely t a c where
  loop ht := (hbc.loop ht).trans (hab.loop ht)
  closed h := hbc.closed (hab.closed h)
  guarded h := by
    obtain ⟨hb, hsame⟩ := hab.guarded h
    obtain ⟨hc, hsame'⟩ := hbc.guarded hb
    exact ⟨hc, hsame'.trans hsame⟩
  released stream h := hbc.released stream (hab.released stream h)
  own stream ht h := hab.own stream ht (hbc.own stream ht h)
  executed stream h := hbc.executed stream (hab.executed stream h)

theorem service_env {a b : ServiceState} (hinv : ServiceInv a)
    (henv : serviceInterp.system.env a b) :
    ServiceInv b ∧ ∀ t, ServiceRely t a b := by
  obtain ⟨choice, hchoice⟩ := henv
  cases choice with
  | number n =>
      cases hchoice
      exact ⟨⟨hinv.books, hinv.received, hinv.released, hinv.started,
        hinv.opened, hinv.sealed⟩, fun t => ⟨fun _ => rfl, id,
        fun h => ⟨h, rfl⟩, fun _ h => h, fun _ _ h => h, fun _ h => h⟩⟩
  | _ => cases hchoice

def serviceDiscipline : Discipline serviceInterp.system where
  inv := ServiceInv
  rely := ServiceRely
  guar t a b := ∀ u, u ≠ t → ServiceRely u a b
  rely_refl := ServiceRely.refl
  rely_trans := ServiceRely.trans
  compat := fun hne _ _ hguar => hguar _ (Ne.symm hne)
  env := service_env

/-- A call gives one of the answers on offer, and has its effect. -/
theorem exec_after {t : Tid} {s s' : ServiceState} {op : ServiceOp}
    {answer : ServiceAns op} (h : serviceInterp.system.exec t s op answer s') :
    (∃ choice, offer choice s op = some answer) ∧ s' = after t op answer s := by
  obtain ⟨choice, hchoice⟩ := h
  obtain ⟨answer', hoffer, heq⟩ := Option.map_eq_some_iff.mp hchoice
  cases heq
  exact ⟨⟨choice, hoffer⟩, rfl⟩

/-- The calls that change nothing. -/
def ServiceOp.Quiet : ServiceOp → Prop
  | lock | unlock | closeAdmission | reserve _ | requestReturned | update _
  | accept | drop _ _ | spawn _ _ | tryRecv | release _ => False
  | _ => True

/-- The calls whose effect is on the service thread's part alone. -/
def ServiceOp.Own : ServiceOp → Prop
  | update _ | accept | drop _ _ | spawn _ _ => True
  | _ => False

/-- A call of thread `t` that concerns the token alone. -/
structure TokenStep (t : Tid) (a b : ServiceState) : Prop where
  inv : ServiceInv b
  guar : ∀ u, u ≠ t → ServiceRely u a b
  loop : b.loop = a.loop
  released : b.released = a.released

section

variable {t : Tid} {s s' : ServiceState}

variable {V : Type} {o : Owned serviceDiscipline t V}
variable {P : V → Prop} {E : Exit → V → Prop}

/-- The owned part does not depend on the token. -/
def Untouched (o : Owned serviceDiscipline t V) : Prop :=
  ∀ {a b : ServiceState}, b.loop = a.loop → b.released = a.released →
    o.view b = o.view a

/-- An assertion about the owned part survives a call that concerns the token
alone, and what the others do before it. -/
theorem TokenStep.kept {a b c : ServiceState} (ho : Untouched o)
    (hP : P (o.view a)) (hrely : ServiceRely t a b) (hstep : TokenStep t b c) :
    P (o.view c) := by
  rw [ho hstep.loop hstep.released, o.stable hrely]
  exact hP

end

/-! The part of the service thread. -/

def serviceOwned : Owned serviceDiscipline .service Loop where
  view s := s.loop
  stable h := ServiceRely.loop h rfl

/-- What an error leaves behind: no stream is in hand, and a reservation without
a worker only where the thread is unwinding. -/
def Abandoned (e : Exit) (l : Loop) : Prop :=
  ∃ taken lag, Books [] taken lag l ∧ (e ≠ .unwound → taken = none)

/-- The program started where the service thread's part is `l`. -/
abbrev ServesTo {α : Type} (E : Exit → Loop → Prop) (l : Loop)
    (p : ServiceM α) (Q : α → Loop → Prop) : Prop :=
  Triple serviceOwned (fun l' => l' = l) p Q E

abbrev Serves {α : Type} (l : Loop) (p : ServiceM α) (Q : α → Loop → Prop) :
    Prop :=
  ServesTo Abandoned l p Q

section

variable {l : Loop} {α β : Type} {Q : α → Loop → Prop} {R : β → Loop → Prop}
variable {hand : List Conn} {taken : Option Conn} {lag : Lag}
variable {stream : Conn} {E : Exit → Loop → Prop}

theorem serves_mono {p : ServiceM α} {Q' : α → Loop → Prop} (h : ServesTo E l p Q)
    (hQ : ∀ a l', Q a l' → Q' a l') : ServesTo E l p Q' :=
  triple_mono h (fun _ h => h) hQ fun _ _ h => h

theorem serves_bind {p : ServiceM α} {f : α → ServiceM β} (hp : ServesTo E l p Q)
    (hf : ∀ a l', Q a l' → ServesTo E l' (f a) R) : ServesTo E l (p >>= f) R :=
  triple_bind hp fun a => triple_known fun l' h => hf a l' h

/-- What a call may answer where the service thread's part is `l`. -/
def Answers (op : ServiceOp) (answer : ServiceAns op) (l : Loop) : Prop :=
  ∃ choice s, s.loop = l ∧ offer choice s op = some answer

/-- A call whose effect is on the service thread's part alone. -/
theorem own_call {op : ServiceOp} (hop : op.Own) {answer : ServiceAns op}
    {s s' : ServiceState} (hinv : ServiceInv s)
    (hbooks : Admissible (advance op answer s.loop))
    (h : serviceInterp.system.exec .service s op answer s') :
    ServiceInv s' ∧ (∀ u, u ≠ .service → ServiceRely u s s') ∧
      s'.loop = advance op answer s.loop := by
  obtain ⟨_, rfl⟩ := exec_after h
  have hshare : share .service op s = s := by
    cases op <;> first | exact hop.elim | rfl
  have hreceived : (advance op answer s.loop).received = s.loop.received := by
    cases op with
    | accept => cases answer <;> rfl
    | update _ => rfl
    | drop _ _ => rfl
    | spawn _ _ => rfl
    | _ => exact hop.elim
  have hreserved : (advance op answer s.loop).reserved = s.loop.reserved := by
    cases op with
    | accept => cases answer <;> rfl
    | update _ => rfl
    | drop _ _ => rfl
    | spawn _ _ => rfl
    | _ => exact hop.elim
  have hmore : ∀ stream ∈ executed s.loop.fates,
      stream ∈ executed (advance op answer s.loop).fates := by
    intro stream hmem
    cases op with
    | accept => cases answer <;> exact hmem
    | update _ => exact hmem
    | drop _ _ =>
        change stream ∈ executed (s.loop.fates ++ [_])
        rw [executed_concat]
        exact List.mem_append_left _ hmem
    | spawn _ _ =>
        change stream ∈ executed (s.loop.fates ++ [_])
        rw [executed_concat]
        exact List.mem_append_left _ hmem
    | _ => exact hop.elim
  unfold after
  rw [hshare]
  refine ⟨⟨hbooks, ?_, hinv.released, ?_, hinv.opened, ?_⟩, ?_, rfl⟩
  · exact Nat.le_trans (Nat.le_of_eq hreceived) hinv.received
  · exact fun stream hmem => hmore stream (hinv.started stream hmem)
  · exact fun taken htaken => (hinv.sealed taken htaken).trans hreserved.symm
  · intro u hu
    exact ⟨fun ht => absurd ht hu, id, fun h => ⟨h, rfl⟩, fun _ h => h,
      fun _ _ h => h, hmore⟩

theorem own_serves {op : ServiceOp} (hop : op.Own)
    (hbooks : ∀ answer, Answers op answer l → Admissible (advance op answer l)) :
    ServesTo E l (sys op)
      (fun answer l' => Answers op answer l ∧ l' = advance op answer l) := by
  apply triple_call
  rintro s answer s' hinv rfl hexec
  obtain ⟨choice, hoffer⟩ := (exec_after hexec).1
  have hanswer : Answers op answer s.loop := ⟨choice, s, rfl, hoffer⟩
  obtain ⟨hinv', hguar, hloop⟩ :=
    own_call hop hinv (hbooks answer hanswer) hexec
  exact ⟨hinv', hguar, hanswer, hloop⟩

theorem update_serves {change : Locals → Locals}
    (hbooks : Books hand taken lag { l with locals := change l.locals })
    (hhand : hand.length ≤ 2) :
    ServesTo E l (update change)
      (fun _ l' => l' = { l with locals := change l.locals }) :=
  serves_mono
    (own_serves trivial fun _ _ => ⟨hand, taken, lag, hhand, hbooks⟩)
    fun _ _ h => h.2

theorem serves_update {change : Locals → Locals} {f : Unit → ServiceM β}
    (hbooks : Books hand taken lag { l with locals := change l.locals })
    (hhand : hand.length ≤ 2)
    (h : ServesTo E { l with locals := change l.locals } (f ()) R) :
    ServesTo E l (update change >>= f) R :=
  serves_bind (update_serves hbooks hhand) fun _ _ hl => hl ▸ h

end

end Yams.ServiceLoop
