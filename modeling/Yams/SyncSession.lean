/-
Triples of one thread among any number of others over one store: the thread knows
its own operations and its open transaction, and nobody else changes these.
-/
import Yams.OwnedRules
import Yams.SyncParts

namespace Yams.Store

section

variable {D : Type} [DecidableEq D] {home : StoreHome}

/-- Who may replace which index of a project by which, after what he has done. -/
abbrev Permission (D : Type) :=
  Tid → PathBuf → Index D → Index D → List (StoreEvent D) → Prop

/-- Every publication was permitted by what its thread had done before. -/
def Accounted (allowed : Permission D) : List (StoreEvent D) → Prop
  | [] => True
  | e :: past => Accounted allowed past ∧ ∀ project,
      published e.op e.answer = some project →
        allowed e.tid project (e.before.index project) (e.after.index project)
          (past.filter fun other => other.tid = e.tid)

omit [DecidableEq D] in
theorem accounted_split {allowed : Permission D}
    {past newer older : List (StoreEvent D)} {e : StoreEvent D}
    (h : Accounted allowed past) (hpast : past = newer ++ e :: older) {project : PathBuf}
    (hpublished : published e.op e.answer = some project) :
    allowed e.tid project (e.before.index project) (e.after.index project)
      (older.filter fun other => other.tid = e.tid) := by
  subst hpast
  induction newer with
  | nil => exact h.2 project hpublished
  | cons _ newer ih => exact ih h.1

/-- The threads leave each other's sessions alone. -/
def commitDiscipline (home : StoreHome) (allowed : Permission D) :
    Discipline (store (D := D) home).traced.system where
  inv s := Accounted allowed s.past
  rely t a b := session t b = session t a
  guar u a b := ∀ t, t ≠ u → session t b = session t a
  rely_refl _ _ := rfl
  rely_trans hab hbc := hbc.trans hab
  compat hne _ _ hguar := hguar _ (Ne.symm hne)
  env := by
    rintro a b _ ⟨c, hc⟩
    cases hc

variable {allowed : Permission D} {t : Tid}

def sessionOwned (home : StoreHome) (allowed : Permission D) (t : Tid) :
    Owned (commitDiscipline home allowed) t (Session D) where
  view := session t
  stable h := h

/-- The program, with what holds of the session of its thread. -/
abbrev Serves (home : StoreHome) (allowed : Permission D) (t : Tid) {ε α : Type} (P : Session D → Prop) (p : StoreProg D ε α)
    (Q : α → Session D → Prop) (E : ε → Session D → Prop) : Prop :=
  Triple (sessionOwned home allowed t) P p Q E

variable {s s' : StoreTrace D} {op : StoreOp D} {a : StoreAns op} {ε ε' α β : Type}
  {P J : Session D → Prop} {Q : α → Session D → Prop} {E : ε → Session D → Prop}

/-- A step of a thread, and that it leaves the sessions of the others alone. -/
theorem exec_session (h : (store home).traced.system.exec t s op a s') :
    settle home t s.now op a = some s'.now ∧
      s'.past = ⟨t, op, a, s.now, s'.now⟩ :: s.past ∧
      s'.own t = ⟨t, op, a, s.now, s'.now⟩ :: s.own t ∧
      ∀ u, u ≠ t → session u s' = session u s := by
  obtain ⟨hexec, hpast⟩ := Interp.exec_traced h
  have hsettle := (exec_store home).1 hexec
  refine ⟨hsettle, hpast, ?_, ?_⟩
  · rw [Traced.own, hpast, List.filter_cons_of_pos (by simp)]
    rfl
  · intro u hu
    have hown : s'.own u = s.own u := by
      rw [Traced.own, hpast, List.filter_cons_of_neg (by simpa using Ne.symm hu)]
      rfl
    have htransaction (project : PathBuf) :
        (session u s').transaction project = (session u s).transaction project := by
      obtain ⟨hworking, hindex⟩ := settle_others hu hsettle project
      change (s'.now.working u project).map _ = (s.now.working u project).map _
      rw [hworking]
      cases hopen : s.now.working u project with
      | none => rfl
      | some w =>
          rw [Option.map_some, Option.map_some, hindex (by rw [hopen]; rfl)]
    rw [session, session, hown, Session.mk.injEq]
    exact ⟨rfl, funext htransaction⟩

/-- A bystander only adds itself to the session. -/
theorem exec_bystander (hop : op.Bystander)
    (h : (store home).traced.system.exec t s op a s')
    (hinv : Accounted allowed s.past) :
    Accounted allowed s'.past ∧
      session t s' = (session t s).add ⟨t, op, a, s.now, s'.now⟩ := by
  obtain ⟨hsettle, hpast, hown, -⟩ := exec_session h
  obtain ⟨hwriters, hindex⟩ := settle_bystander hop hsettle
  constructor
  · rw [hpast]
    refine ⟨hinv, ?_⟩
    intro project hpublished
    cases op <;> first | exact hop.elim | cases hpublished
  · rw [session, session, hown, Session.add, Session.mk.injEq]
    refine ⟨rfl, ?_⟩
    funext project
    rw [StoreState.working, hwriters, hindex]
    rfl

/-! Rules. -/

/-- An operation that may fail, by what it does to the session. -/
theorem serves_tryOp {f : ε → ε'} {E : ε' → Session D → Prop}
    (h : StoreAns op = Except ε α)
    (hexec : ∀ (s s' : StoreTrace D) r, Accounted allowed s.past → P (session t s) →
      (store home).traced.system.exec t s op (cast h.symm r) s' →
        Accounted allowed s'.past ∧ Exits Q (fun e => E (f e)) r (session t s')) :
    Serves home allowed t P (tryOp f op h) Q E := by
  intro s hinv hP s₁ hrely hinv₁ answer s₂ hcall
  have hP₁ : P (session t s₁) := hrely.symm ▸ hP
  have hcast : answer = cast h.symm (cast h answer) := by simp
  have hothers := (exec_session hcall).2.2.2
  rw [hcast] at hcall
  obtain ⟨hinv₂, hexit⟩ := hexec s₁ s₂ (cast h answer) hinv₁ hP₁ hcall
  refine ⟨hinv₂, hothers, ?_⟩
  intro s₃ hrely₃ _
  change Exits Q E _ (session t s₃)
  rw [hrely₃]
  cases hr : cast h answer with
  | error e =>
      rw [hr] at hexit
      exact hexit
  | ok b =>
      rw [hr] at hexit
      exact hexit

/-- What a bystander adds to a session does not matter to an assertion. -/
def Persists (J : Session D → Prop) : Prop :=
  ∀ v e, StoreOp.Bystander e.op → J v → J (v.add e)

/-- A bystander whose answer is to be known. -/
theorem serves_reads {f : ε → ε'} {R : α → Session D → Prop} {E : ε' → Session D → Prop}
    (h : StoreAns op = Except ε α) (hop : op.Bystander)
    (hE : ∀ e v x, x.op = op → J v → E e (v.add x))
    (hR : ∀ (s s' : StoreTrace D) a, J (session t s) →
      settle home t s.now op (cast h.symm (.ok a)) = some s'.now →
        R a ((session t s).add ⟨t, op, cast h.symm (.ok a), s.now, s'.now⟩)) :
    Serves home allowed t J (tryOp f op h) R E := by
  apply serves_tryOp h
  intro s s' r hinv hs hexec
  obtain ⟨hinv', hview⟩ := exec_bystander hop hexec hinv
  refine ⟨hinv', ?_⟩
  rw [hview]
  cases r with
  | error e => exact hE (f e) _ _ rfl hs
  | ok a => exact hR s s' a hs (exec_session hexec).1

/-- A bystander that cannot fail. -/
theorem serves_perform (hJ : Persists J) (hop : op.Bystander) :
    Serves home allowed t J (Fallible.perform op : StoreProg D ε (StoreAns op))
      (fun _ => J) E := by
  apply triple_call
  intro s a s' hinv hs hexec
  obtain ⟨hinv', hview⟩ := exec_bystander hop hexec hinv
  refine ⟨hinv', (exec_session hexec).2.2.2, ?_⟩
  change J (session t s')
  rw [hview]
  exact hJ _ _ hop hs

omit [DecidableEq D] in
theorem Persists.event (hJ : Persists J) (hop : op.Bystander)
    (hE : ∀ e v, J v → E e v) : ∀ e v x, x.op = op → J v → E e (v.add x) :=
  fun e v x hx hv => hE e _ (hJ v x (hx ▸ hop) hv)

/-- A program of operations of one kind keeps what they keep. -/
theorem serves_calls {C : StoreOp D → Prop} (hC : ∀ op, C op → op.Bystander)
    (hJ : ∀ v e, C e.op → J v → J (v.add e)) {p : StoreProg D ε α}
    (hp : p.run.Calls C) :
    Serves home allowed t J p (fun _ => J) fun _ => J := by
  intro s _ hs
  have hcalls : Outline (commitDiscipline home allowed) t p.run
      (fun _ s' => J (session t s')) s := by
    apply outline_calls (J := fun s' => J (session t s')) _ _ p.run hp hs
    · intro x y hx hrely _
      rw [hrely]
      exact hx
    · intro op x answer y hop hinv hx hexec
      obtain ⟨hinv', hview⟩ := exec_bystander (hC op hop) hexec hinv
      refine ⟨hinv', (exec_session hexec).2.2.2, ?_⟩
      rw [hview]
      exact hJ _ _ hop hx
  apply outline_mono p.run hcalls
  rintro (e | b) s' _ h <;> exact h

theorem serves_bystanders (hJ : Persists J) {p : StoreProg D ε α}
    (hp : p.run.Calls StoreOp.Bystander) :
    Serves home allowed t J p (fun _ => J) fun _ => J :=
  serves_calls (fun _ h => h) hJ hp

/-- What follows a program that keeps an assertion. -/
theorem serves_follow {C : StoreOp D → Prop} {p : StoreProg D ε β}
    {f : β → StoreProg D ε α} (hC : ∀ op, C op → op.Bystander)
    (hJ : ∀ v e, C e.op → J v → J (v.add e)) (hp : p.run.Calls C)
    (hE : ∀ e v, J v → E e v) (hf : ∀ b, Serves home allowed t J (f b) Q E) :
    Serves home allowed t J (p >>= f) Q E := by
  apply triple_bind _ hf
  exact triple_mono (serves_calls hC hJ hp) (fun _ h => h) (fun _ _ h => h) hE

theorem serves_after {p : StoreProg D ε β} {f : β → StoreProg D ε α}
    (hJ : Persists J) (hp : p.run.Calls StoreOp.Bystander)
    (hE : ∀ e v, J v → E e v)
    (hf : ∀ b, Serves home allowed t J (f b) Q E) :
    Serves home allowed t J (p >>= f) Q E :=
  serves_follow (fun _ h => h) hJ hp hE hf

/-- The body runs with the lease, and its outcome is that of the whole. -/
theorem serves_withLease {f : VectorError D → ε} {body : StoreProg D ε α}
    (hJ : Persists J) (hQ : ∀ a, Persists (Q a)) (hE : ∀ e, Persists (E e))
    (hJE : ∀ e v, J v → E e v) (hbody : Serves home allowed t J body Q E) :
    Serves home allowed t J (withLease f body) Q E := by
  unfold withLease
  apply serves_after hJ
  · exact ⟨trivial, fun _ => trivial⟩
  · exact hJE
  intro _
  apply triple_bind (triple_observe hbody)
  intro r
  have hexits : Persists (Exits Q E r) := by
    cases r with
    | ok a => exact hQ a
    | error e => exact hE e
  exact triple_bind (serves_perform hexits trivial) fun _ => triple_ofExcept r

/-! The transaction. -/

/-- Nothing is open and nothing has been published; `K` is known of the past. -/
structure Resting (K : List (StoreEvent D) → Prop) (v : Session D) : Prop where
  idle : v.Idle
  silent : v.Silent
  kept : K v.own

/-- The transaction on one project is open, with the index `w` in place of `i`. -/
structure Opened (project : PathBuf) (K : List (StoreEvent D) → Prop) (i w : Index D)
    (v : Session D) : Prop where
  here : v.transaction project = some (i, w)
  nowhere : ∀ other, other ≠ project → v.transaction other = none
  silent : v.Silent
  kept : K v.own

/-- The open transaction may be published. -/
structure Ready (allowed : Permission D) (t : Tid) (project : PathBuf)
    (K : List (StoreEvent D) → Prop) (i w : Index D) (v : Session D) : Prop
    extends Opened project K i w v where
  allows : allowed t project i w v.own

/-- The thread has published an index of the project with the property `R`. -/
def HasPublished (project : PathBuf) (R : Index D → Prop) (own : List (StoreEvent D)) :
    Prop :=
  ∃ e ∈ own, published e.op e.answer = some project ∧ R (e.after.index project)

/-- What is known of a past is known of what follows it. -/
def Lasts (K : List (StoreEvent D) → Prop) : Prop := ∀ e past, K past → K (e :: past)

omit [DecidableEq D] in
theorem published_bystander {op : StoreOp D} (hop : op.Bystander) (a : StoreAns op) :
    published op a = none := by
  cases op <;> first | exact hop.elim | rfl

omit [DecidableEq D] in
theorem silent_add {v : Session D} {e : StoreEvent D} (h : v.Silent)
    (he : published e.op e.answer = none) : (v.add e).Silent := by
  intro other hother
  rcases List.mem_cons.1 hother with rfl | hmem
  · exact he
  · exact h other hmem

variable {K : List (StoreEvent D) → Prop} {project : PathBuf} {i w : Index D}

omit [DecidableEq D] in
theorem Resting.add {v : Session D} {e : StoreEvent D} (h : Resting K v) (hK : Lasts K)
    (he : published e.op e.answer = none) : Resting K (v.add e) :=
  ⟨h.idle, silent_add h.silent he, hK e v.own h.kept⟩

omit [DecidableEq D] in
theorem Opened.add {v : Session D} {e : StoreEvent D} (h : Opened project K i w v)
    (hK : Lasts K) (he : published e.op e.answer = none) :
    Opened project K i w (v.add e) :=
  ⟨h.here, h.nowhere, silent_add h.silent he, hK e v.own h.kept⟩

omit [DecidableEq D] in
theorem persists_resting (hK : Lasts K) : Persists (Resting K) :=
  fun _ e hop h => h.add hK (published_bystander hop e.answer)

omit [DecidableEq D] in
theorem persists_opened (hK : Lasts K) : Persists (Opened project K i w) :=
  fun _ e hop h => h.add hK (published_bystander hop e.answer)

/-- The session of a thread after an operation of its own. -/
theorem session_step (h : (store home).traced.system.exec t s op a s') :
    (session t s').own = ⟨t, op, a, s.now, s'.now⟩ :: (session t s).own :=
  (exec_session h).2.2.1

theorem accounted_step (h : (store home).traced.system.exec t s op a s')
    (hinv : Accounted allowed s.past) (hpublished : published op a = none) :
    Accounted allowed s'.past := by
  rw [(exec_session h).2.1]
  refine ⟨hinv, ?_⟩
  intro project hsome
  rw [hpublished] at hsome
  cases hsome

omit [DecidableEq D] in
theorem transaction_eq_none {project : PathBuf} :
    (session t s).transaction project = none ↔ s.now.working t project = none :=
  Option.map_eq_none_iff

omit [DecidableEq D] in
theorem transaction_eq_some {project : PathBuf} :
    (session t s).transaction project = some (i, w) ↔
      s.now.working t project = some w ∧ s.now.index project = i := by
  change Option.map _ (s.now.working t project) = _ ↔ _
  rw [Option.map_eq_some_iff]
  constructor
  · rintro ⟨working, hworking, heq⟩
    obtain ⟨rfl, rfl⟩ := Prod.mk.inj heq
    exact ⟨hworking, rfl⟩
  · rintro ⟨hworking, rfl⟩
    exact ⟨w, hworking, rfl⟩

omit [DecidableEq D] in
/-- What a thread reads is its open transaction, or the index as it is. -/
theorem view_of_some (h : (session t s).transaction project = some (i, w)) :
    s.now.view t project = w := by
  obtain ⟨writer, hwriter, hthread, rfl⟩ := working_eq_some (transaction_eq_some.1 h).1
  rw [StoreState.view, hwriter]
  exact if_pos hthread

omit [DecidableEq D] in
theorem view_of_none (h : (session t s).transaction project = none) :
    s.now.view t project = s.now.index project := by
  have hworking := transaction_eq_none.1 h
  unfold StoreState.working at hworking
  unfold StoreState.view
  split
  next writer hwriter =>
    rw [hwriter] at hworking
    dsimp only at hworking
    apply if_neg
    intro hthread
    rw [if_pos hthread] at hworking
    cases hworking
  · rfl

/-- A failed operation only adds itself to the session. -/
theorem exec_failed (h : (store home).traced.system.exec t s op a s')
    (hinv : Accounted allowed s.past) (hsame : some s.now = some s'.now)
    (hpublished : published op a = none) :
    Accounted allowed s'.past ∧
      session t s' = (session t s).add ⟨t, op, a, s.now, s'.now⟩ := by
  refine ⟨accounted_step h hinv hpublished, ?_⟩
  have hown : s'.own t = ⟨t, op, a, s.now, s'.now⟩ :: s.own t := session_step h
  rw [session, hown, ← Option.some.inj hsame]
  rfl

omit [DecidableEq D] in
theorem transaction_congr {other : PathBuf}
    (hwriters : s'.now.writers other = s.now.writers other)
    (hindex : s'.now.index other = s.now.index other) :
    (session t s').transaction other = (session t s).transaction other := by
  change Option.map _ (s'.now.working t other) = Option.map _ (s.now.working t other)
  unfold StoreState.working
  rw [hwriters, hindex]

omit [DecidableEq D] in
/-- The other projects have no part in what happens to the writer of one. -/
theorem transaction_ne {theirs : Option (Writer D)}
    (hwriters : s'.now.writers = Function.update s.now.writers project theirs)
    (hindex : ∀ other, other ≠ project → s'.now.index other = s.now.index other)
    (hnone : ∀ other, other ≠ project → (session t s).transaction other = none) :
    ∀ other, other ≠ project → (session t s').transaction other = none := by
  intro other hother
  rw [transaction_congr _ (hindex other hother)]
  · exact hnone other hother
  · rw [hwriters, Function.update_of_ne hother]

/-- A transaction starts from the index as it is. -/
theorem serves_begin (hK : Lasts K) (operation : Text) (path : PathBuf) :
    Serves home allowed t (Resting K)
      (sql operation path (.beginImmediate project) rfl)
      (fun _ v => ∃ i, Opened project K i i v) fun _ => Resting K := by
  apply serves_tryOp rfl
  intro s s' r hinv hs hexec
  have hstep := (exec_session hexec).1
  rcases r with e | ⟨⟩
  · obtain ⟨hinv', hview⟩ := exec_failed hexec hinv hstep rfl
    refine ⟨hinv', ?_⟩
    rw [hview]
    exact hs.add hK rfl
  · change s.now.begin t project = _ at hstep
    unfold StoreState.begin at hstep
    split at hstep
    · have hnow := Option.some.inj hstep
      have hindex : ∀ other, s'.now.index other = s.now.index other := by
        intro other
        rw [← hnow]
        rfl
      refine ⟨accounted_step hexec hinv rfl, s.now.index project, ?_, ?_, ?_, ?_⟩
      · rw [transaction_eq_some, ← hnow]
        exact ⟨by simp [StoreState.working], rfl⟩
      · exact transaction_ne (by rw [← hnow]) (fun other _ => hindex other)
          fun other _ => hs.idle other
      · rw [Session.Silent, session_step hexec]
        exact silent_add (v := session t s) hs.silent rfl
      · rw [session_step hexec]
        exact hK _ _ hs.kept
    · cases hstep

/-- The index that the open transaction of a thread is about to publish. -/
def Working (project : PathBuf) (K : List (StoreEvent D) → Prop) (i : Index D)
    (v : Session D) : Prop := ∃ w, Opened project K i w v

theorem serves_update (hK : Lasts K) (operation : Text) (path : PathBuf)
    (change : Update D) :
    Serves home allowed t (Opened project K i w)
      (sql operation path (.update project change) rfl)
      (fun _ => Opened project K i (change.apply w)) fun _ => Working project K i := by
  apply serves_tryOp rfl
  intro s s' r hinv hs hexec
  have hstep := (exec_session hexec).1
  obtain ⟨hworking, hbase⟩ := transaction_eq_some.1 hs.here
  obtain ⟨writer, hwriter, hthread, rfl⟩ := working_eq_some hworking
  rcases r with e | ⟨⟩
  · obtain ⟨hinv', hview⟩ := exec_failed hexec hinv hstep rfl
    refine ⟨hinv', writer.working, ?_⟩
    rw [hview]
    exact hs.add hK rfl
  · change s.now.write t project change = _ at hstep
    unfold StoreState.write at hstep
    rw [hwriter] at hstep
    dsimp only at hstep
    rw [if_pos hthread] at hstep
    have hnow := Option.some.inj hstep
    have hindex : ∀ other, s'.now.index other = s.now.index other := by
      intro other
      rw [← hnow]
      rfl
    refine ⟨accounted_step hexec hinv rfl, ?_, ?_, ?_, ?_⟩
    · rw [transaction_eq_some, hindex, ← hnow]
      exact ⟨by simp [StoreState.working], hbase⟩
    · exact transaction_ne (by rw [← hnow]) (fun other _ => hindex other) hs.nowhere
    · rw [Session.Silent, session_step hexec]
      exact silent_add (v := session t s) hs.silent rfl
    · rw [session_step hexec]
      exact hK _ _ hs.kept

theorem serves_commit (hK : Lasts K) (operation : Text) (path : PathBuf)
    {R : Index D → Prop} (hR : R w) :
    Serves home allowed t (Ready allowed t project K i w)
      (sql operation path (.commit project) rfl)
      (fun _ v => v.Idle ∧ HasPublished project R v.own) fun _ => Working project K i := by
  apply serves_tryOp rfl
  intro s s' r hinv hs hexec
  have hsteps := exec_session hexec
  have hstep := hsteps.1
  obtain ⟨hworking, hbase⟩ := transaction_eq_some.1 hs.here
  obtain ⟨writer, hwriter, hthread, rfl⟩ := working_eq_some hworking
  rcases r with e | ⟨⟩
  · obtain ⟨hinv', hview⟩ := exec_failed hexec hinv hstep rfl
    refine ⟨hinv', writer.working, ?_⟩
    rw [hview]
    exact hs.toOpened.add hK rfl
  · change s.now.publish t project = _ at hstep
    unfold StoreState.publish at hstep
    rw [hwriter] at hstep
    dsimp only at hstep
    rw [if_pos hthread] at hstep
    have hnow := Option.some.inj hstep
    have hindex : s'.now.index project = writer.working := by
      rw [← hnow]
      simp [StoreState.index, AList.lookup_insert]
    refine ⟨?_, ?_, ?_⟩
    · rw [hsteps.2.1]
      refine ⟨hinv, ?_⟩
      intro other hother
      obtain rfl := Option.some.inj hother
      change allowed t project (s.now.index project) (s'.now.index project) (s.own t)
      rw [hindex, hbase]
      exact hs.allows
    · intro other
      by_cases hother : other = project
      · subst hother
        rw [transaction_eq_none, ← hnow]
        simp [StoreState.working]
      · apply transaction_ne (by rw [← hnow]) _ hs.nowhere other hother
        intro another hanother
        rw [← hnow]
        exact index_insert_ne hanother _ _
    · rw [session_step hexec]
      refine ⟨_, List.mem_cons_self, rfl, ?_⟩
      rw [hindex]
      exact hR

theorem serves_rollback (hK : Lasts K) {E : SyncError D → Session D → Prop} :
    Serves home allowed t (Working project K i) (rollback project)
      (fun _ => Resting K) E := by
  apply triple_call
  rintro s a s' hinv ⟨w, hs⟩ hexec
  have hsteps := exec_session hexec
  have hnow : s.now.abandon t project = s'.now := Option.some.inj hsteps.1
  obtain ⟨hworking, -⟩ := transaction_eq_some.1 hs.here
  obtain ⟨writer, hwriter, hthread, rfl⟩ := working_eq_some hworking
  unfold StoreState.abandon at hnow
  rw [hwriter] at hnow
  dsimp only at hnow
  rw [if_pos hthread] at hnow
  have hrests : Resting K (session t s') := by
    refine ⟨?_, ?_, ?_⟩
    · intro other
      by_cases hother : other = project
      · subst hother
        rw [transaction_eq_none, ← hnow]
        simp [StoreState.working]
      · apply transaction_ne (by rw [← hnow]) _ hs.nowhere other hother
        intro another _
        rw [← hnow]
        rfl
    · rw [Session.Silent, session_step hexec]
      exact silent_add (v := session t s) hs.silent rfl
    · rw [session_step hexec]
      exact hK _ _ hs.kept
  exact ⟨accounted_step hexec hinv rfl, hsteps.2.2.2, hrests⟩

/-- The body ends ready to publish: then the transaction is published, or it is
rolled back. -/
theorem serves_withTransaction (hK : Lasts K) {path : PathBuf} {body : Sync D Unit}
    {R : Index D → Prop}
    (hbody : ∀ i, Serves home allowed t (Opened project K i i) body
      (fun _ v => ∃ w, R w ∧ Ready allowed t project K i w v) fun _ => Working project K i) :
    Serves home allowed t (Resting K) (withTransaction project path body)
      (fun _ v => v.Idle ∧ HasPublished project R v.own) fun _ => Resting K := by
  unfold withTransaction
  apply triple_bind (serves_begin hK _ _)
  intro _
  apply triple_exists
  intro i
  have hcommit : Serves home allowed t (Opened project K i i)
      (do body
          sql "commit project synchronization".toList path (.commit project) rfl)
      (fun _ v => v.Idle ∧ HasPublished project R v.own) fun _ => Working project K i := by
    apply triple_bind (hbody i)
    intro _
    exact triple_exists fun w => triple_given fun hR => serves_commit hK _ _ hR
  apply triple_bind (triple_observe hcommit)
  rintro (error | ⟨⟩)
  · apply triple_bind (serves_rollback hK)
    exact fun _ => triple_fail error fun _ h => h
  · exact triple_return () fun _ h => h

end

end Yams.Store
