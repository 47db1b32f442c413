/-
What is recorded of any number of synchronizations over one store: only a
publication changes the index of a project, and an open transaction keeps the
index under it.
-/
import Yams.SyncOthers

namespace Yams.Store

section

variable {D : Type}

/-- The project whose index an operation has replaced. -/
def published : (op : StoreOp D) → StoreAns op → Option PathBuf
  | .commit project, .ok () => some project
  | _, _ => none

/-- The generation of a project that an operation has read. -/
def generationRead : (op : StoreOp D) → StoreAns op → Option (PathBuf × Int64)
  | .readGeneration project, .ok generation => some (project, generation)
  | _, _ => none

/-- Operations that leave every index and every transaction as they are. -/
def StoreOp.Bystander : StoreOp D → Prop
  | .beginImmediate _ | .update _ _ | .commit _ | .rollback _ => False
  | _ => True

/-- Operations that leave the vectors and the lease alone too. -/
def StoreOp.Calm : StoreOp D → Prop
  | .insertVectors _ | .acquireLease | .releaseLease | .quarantineVectors
  | .sweepVectors _ _ => False
  | op => op.Bystander

theorem StoreOp.Calm.bystander {op : StoreOp D} (h : op.Calm) : op.Bystander := by
  cases op <;> first | exact trivial | exact h.elim

/-- What a thread alone decides: its operations, the newest first, and its open
transactions, each with the index that it began from. -/
structure Session (D : Type) where
  own : List (StoreEvent D)
  transaction : PathBuf → Option (Index D × Index D)

namespace Session

/-- One more operation of the thread. -/
def add (v : Session D) (e : StoreEvent D) : Session D := { v with own := e :: v.own }

/-- The thread has no open transaction. -/
def Idle (v : Session D) : Prop := ∀ project, v.transaction project = none

/-- The thread has published nothing. -/
def Silent (v : Session D) : Prop :=
  ∀ e ∈ v.own, published e.op e.answer = none

end Session

/-- The part of the store that belongs to a thread. -/
def session (t : Tid) (s : StoreTrace D) : Session D where
  own := s.own t
  transaction project :=
    (s.now.working t project).map fun working => (s.now.index project, working)

end

section

variable {D : Type} [DecidableEq D] {home : StoreHome} {t u : Tid}
  {s s' : StoreState D} {op : StoreOp D} {a : StoreAns op}

theorem settle_bystander (hop : op.Bystander) (h : settle home t s op a = some s') :
    s'.writers = s.writers ∧ ∀ project, s'.index project = s.index project := by
  unfold settle at h
  split at h
  case h_3 =>
    split at h
    · obtain rfl := Option.some.inj h
      exact ⟨rfl, fun _ => index_create s _⟩
    · cases h
  case h_14 =>
    split at h
    · obtain rfl := Option.some.inj h
      exact ⟨rfl, fun _ => rfl⟩
    · cases h
  case h_16 =>
    obtain rfl := Option.some.inj h
    rw [StoreState.release]
    split <;> exact ⟨rfl, fun _ => rfl⟩
  case h_19 =>
    dsimp only at h
    split at h
    · obtain rfl := Option.some.inj h
      exact ⟨rfl, fun _ => rfl⟩
    · cases h
  all_goals
    first
      | exact hop.elim
      | (split at h <;> first
          | (obtain rfl := Option.some.inj h; exact ⟨rfl, fun _ => rfl⟩)
          | cases h)
      | (obtain rfl := Option.some.inj h; exact ⟨rfl, fun _ => rfl⟩)

/-- A writer of one thread only. -/
def WrittenBy (t : Tid) (writer : Option (Writer D)) : Prop :=
  ∀ other, writer = some other → other.thread = t

omit [DecidableEq D] in
theorem writtenBy_none : WrittenBy (D := D) t none := by
  intro other hother
  cases hother

/-- What one step does to the indexes and the transactions: it publishes the own
transaction of its thread, or it leaves every index alone. -/
theorem settle_cases (h : settle home t s op a = some s') :
    (published op a = none ∧ (∀ project, s'.index project = s.index project) ∧
      (s'.writers = s.writers ∨ ∃ project theirs, WrittenBy t (s.writers project) ∧
        WrittenBy t theirs ∧
        s'.writers = Function.update s.writers project theirs)) ∨
    ∃ project w, published op a = some project ∧ s.working t project = some w ∧
      WrittenBy t (s.writers project) ∧ s'.index project = w ∧
      (∀ other, other ≠ project → s'.index other = s.index other) ∧
      s'.writers = Function.update s.writers project none := by
  by_cases hop : op.Bystander
  · obtain ⟨hwriters, hindex⟩ := settle_bystander hop h
    refine .inl ⟨?_, hindex, .inl hwriters⟩
    cases op <;> first | exact hop.elim | rfl
  have hfails : some s = some s' → (∀ project, s'.index project = s.index project) ∧
      s'.writers = s.writers := by
    intro hsame
    obtain rfl := Option.some.inj hsame
    exact ⟨fun _ => rfl, rfl⟩
  cases op with
  | beginImmediate project =>
      refine .inl ⟨rfl, ?_⟩
      rcases a with e | ⟨⟩
      · exact ⟨(hfails h).1, .inl (hfails h).2⟩
      · change s.begin t project = _ at h
        unfold StoreState.begin at h
        split at h
        next hnone =>
          obtain rfl := Option.some.inj h
          refine ⟨fun _ => rfl, .inr ⟨project, _, ?_, ?_, rfl⟩⟩
          · intro other hother
            rw [hnone] at hother
            cases hother
          · intro other hother
            obtain rfl := Option.some.inj hother
            rfl
        · cases h
  | update project change =>
      refine .inl ⟨rfl, ?_⟩
      rcases a with e | ⟨⟩
      · exact ⟨(hfails h).1, .inl (hfails h).2⟩
      · change s.write t project change = _ at h
        unfold StoreState.write at h
        split at h
        next writer hwriter =>
          split at h
          next hthread =>
            obtain rfl := Option.some.inj h
            refine ⟨fun _ => rfl, .inr ⟨project, _, ?_, ?_, rfl⟩⟩
            · intro other hother
              rw [hwriter] at hother
              obtain rfl := Option.some.inj hother
              exact hthread
            · intro other hother
              obtain rfl := Option.some.inj hother
              rfl
          · cases h
        · cases h
  | commit project =>
      rcases a with e | ⟨⟩
      · exact .inl ⟨rfl, (hfails h).1, .inl (hfails h).2⟩
      · change s.publish t project = _ at h
        unfold StoreState.publish at h
        split at h
        next writer hwriter =>
          split at h
          next hthread =>
            obtain rfl := Option.some.inj h
            refine .inr ⟨project, writer.working, rfl, ?_, ?_, ?_, ?_, rfl⟩
            · unfold StoreState.working
              rw [hwriter]
              exact if_pos hthread
            · intro other hother
              rw [hwriter] at hother
              obtain rfl := Option.some.inj hother
              exact hthread
            · simp [StoreState.index, AList.lookup_insert]
            · intro other hother
              exact index_insert_ne hother _ _
          · cases h
        · cases h
  | rollback project =>
      refine .inl ⟨rfl, ?_⟩
      obtain rfl := Option.some.inj h
      change (∀ other, (s.abandon t project).index other = _) ∧ _
      unfold StoreState.abandon
      split
      next writer hwriter =>
        split
        next hthread =>
          refine ⟨fun _ => rfl, .inr ⟨project, none, ?_, writtenBy_none, rfl⟩⟩
          intro other hother
          rw [hwriter] at hother
          obtain rfl := Option.some.inj hother
          exact hthread
        · exact ⟨fun _ => rfl, .inl rfl⟩
      · exact ⟨fun _ => rfl, .inl rfl⟩
  | _ => exact absurd (by exact trivial) hop

/-- What is not published stays. -/
theorem settle_index {project : PathBuf} (h : settle home t s op a = some s')
    (hpublished : published op a ≠ some project) : s'.index project = s.index project := by
  rcases settle_cases h with ⟨-, hindex, -⟩ | ⟨other, w, hother, -, -, -, hindex, -⟩
  · exact hindex project
  · apply hindex
    rintro rfl
    exact hpublished hother

/-- The transactions of the other threads stay open, over the same indexes. -/
theorem settle_others (hu : u ≠ t) (h : settle home t s op a = some s')
    (project : PathBuf) :
    s'.working u project = s.working u project ∧
      ((s.working u project).isSome → s'.index project = s.index project) := by
  rcases settle_cases h with ⟨-, hindex, hwriters⟩ |
    ⟨other, w, -, -, hold, -, hindex, hwriters⟩
  · refine ⟨?_, fun _ => hindex project⟩
    rcases hwriters with hsame | ⟨other, theirs, hold, hnew, hwriters⟩
    · rw [StoreState.working, hsame]
      rfl
    · exact working_of_other (Ne.symm hu) hold hwriters hnew
  · refine ⟨working_of_other (Ne.symm hu) hold hwriters writtenBy_none, ?_⟩
    intro hopen
    apply hindex
    rintro rfl
    rw [working_eq_none] at hopen
    · cases hopen
    · intro writer hwriter
      rw [hold writer hwriter]
      exact Ne.symm hu

end

/-! The trace. -/

section

variable {D : Type} [DecidableEq D] {home : StoreHome}

/-- The operations lead from one state of the store to another, each from where
the one before it ended. -/
def Linked (home : StoreHome) (start : StoreState D) :
    StoreState D → List (StoreEvent D) → Prop
  | now, [] => now = start
  | now, e :: past => e.after = now ∧
      settle home e.tid e.before e.op e.answer = some e.after ∧
      Linked home start e.before past

theorem linked_append {start now : StoreState D} {newer older : List (StoreEvent D)}
    (h : Linked home start now (newer ++ older)) :
    ∃ middle, Linked home middle now newer ∧ Linked home start middle older := by
  induction newer generalizing now with
  | nil => exact ⟨now, rfl, h⟩
  | cons e newer ih =>
      obtain ⟨hafter, hsettle, hrest⟩ := h
      obtain ⟨middle, hnewer, holder⟩ := ih hrest
      exact ⟨middle, ⟨hafter, hsettle, hnewer⟩, holder⟩

theorem linked_mem {start now : StoreState D} {past : List (StoreEvent D)}
    (h : Linked home start now past) {e : StoreEvent D} (he : e ∈ past) :
    settle home e.tid e.before e.op e.answer = some e.after := by
  induction past generalizing now with
  | nil => cases he
  | cons other past ih =>
      obtain ⟨-, hsettle, hrest⟩ := h
      rcases List.mem_cons.1 he with rfl | hmem
      · exact hsettle
      · exact ih hrest hmem

/-- Every interleaving records what led to its state. -/
theorem steps_linked {α : Type} {start : StoreState D}
    {pool pool' : Pool Tid (StoreOp D) StoreAns (StoreTrace D) α}
    (hsteps : (store home).traced.system.Steps pool pool')
    (h : Linked home start pool.state.now pool.state.past) :
    Linked home start pool'.state.now pool'.state.past := by
  induction hsteps with
  | refl => exact h
  | tail _ hstep ih =>
      cases hstep with
      | call t op next answer hproc hexec =>
          obtain ⟨hsettle, hpast⟩ := Interp.exec_traced hexec
          rw [hpast]
          exact ⟨rfl, (exec_store home).1 hsettle, ih⟩
      | unfold t body state next hproc => exact ih
      | env henv =>
          obtain ⟨c, hc⟩ := henv
          cases hc

/-- The publication of a project advances its generation by one. -/
def Advances (project : PathBuf) (e : StoreEvent D) : Prop :=
  (e.after.index project).generation.toInt = (e.before.index project).generation.toInt + 1

/-- The generation counts the publications; between two moments of the same
generation there is none, and the index is the same. -/
theorem linked_generation {start now : StoreState D} {past : List (StoreEvent D)}
    {project : PathBuf} (h : Linked home start now past)
    (hadvances : ∀ e ∈ past, published e.op e.answer = some project → Advances project e) :
    (start.index project).generation.toInt ≤ (now.index project).generation.toInt ∧
    ((now.index project).generation = (start.index project).generation →
      ∀ e ∈ past, published e.op e.answer ≠ some project ∧
        e.before.index project = now.index project) ∧
    ((now.index project).generation = (start.index project).generation →
      now.index project = start.index project) := by
  induction past generalizing now with
  | nil =>
      obtain rfl : now = start := h
      exact ⟨Int.le_refl _, fun _ e he => absurd he List.not_mem_nil, fun _ => rfl⟩
  | cons e past ih =>
      obtain ⟨rfl, hsettle, hrest⟩ := h
      obtain ⟨hle, hnone, hsame⟩ := ih hrest fun other hother =>
        hadvances other (List.mem_cons_of_mem _ hother)
      by_cases hpublished : published e.op e.answer = some project
      · have hnext := hadvances e List.mem_cons_self hpublished
        unfold Advances at hnext
        have habsurd : (e.after.index project).generation ≠
            (start.index project).generation := by
          intro heq
          rw [heq] at hnext
          omega
        exact ⟨by omega, fun heq => absurd heq habsurd, fun heq => absurd heq habsurd⟩
      · have hindex := settle_index hsettle hpublished
        rw [hindex]
        refine ⟨hle, ?_, hsame⟩
        intro heq other hother
        rcases List.mem_cons.1 hother with rfl | hmem
        · exact ⟨hpublished, rfl⟩
        · exact hnone heq other hmem

end

end Yams.Store
