/-
The other threads of the store as the environment of one synchronization: what
their steps leave alone, and the runs of the store seen from one thread.
-/
import Yams.SyncRun

namespace Yams.Store

section

variable {D : Type} [DecidableEq D] {home : StoreHome} {t : Tid} {project : PathBuf}

omit [DecidableEq D] in
theorem working_eq_none {s : StoreState D}
    (h : ∀ writer, s.writers project = some writer → writer.thread ≠ t) :
    s.working t project = none := by
  unfold StoreState.working
  split
  next writer hwriter => exact if_neg (h writer hwriter)
  · rfl

omit [DecidableEq D] in
/-- The transaction of a thread is its own: no other thread writes to it. -/
theorem working_of_other {s s' : StoreState D} {u : Tid} (hu : u ≠ t) {path : PathBuf}
    {theirs : Option (Writer D)}
    (hold : ∀ writer, s.writers path = some writer → writer.thread = u)
    (hnew : s'.writers = Function.update s.writers path theirs)
    (htheirs : ∀ writer, theirs = some writer → writer.thread = u) :
    s'.working t project = s.working t project := by
  by_cases hpath : project = path
  · subst hpath
    rw [working_eq_none, working_eq_none]
    · intro writer hwriter
      rw [hold writer hwriter]
      exact hu
    · intro writer hwriter
      rw [hnew, Function.update_self] at hwriter
      rw [htheirs writer hwriter]
      exact hu
  · unfold StoreState.working
    rw [hnew, Function.update_of_ne hpath]

/-- What another thread may do to count as an environment of a synchronization:
it removes no vector, and an index that it publishes is later, keeps its foreign
key, and refers to nothing new that is not cached. -/
def Considerate (u : Tid) (project : PathBuf) (s : StoreState D) : StoreOp D → Prop
  | .quarantineVectors | .sweepVectors _ _ => False
  | .commit path => path = project → ∀ w, s.working u project = some w →
      (s.index project).Later w ∧ w.Coherent ∧ ∀ key ∈ w.vectorKeys,
        key ∈ (s.index project).vectorKeys ∨ key ∈ keysOf s.vectors
  | _ => True

/-- How a state may differ after a step of another thread. -/
structure Unharmed (t : Tid) (project : PathBuf) (added : List (VectorKey D))
    (s s' : StoreState D) : Prop where
  later : (s.index project).Later (s'.index project)
  coherent : (s.index project).Coherent → (s'.index project).Coherent
  referred : ∀ key ∈ (s'.index project).vectorKeys,
    key ∈ (s.index project).vectorKeys ∨ key ∈ keysOf s'.vectors
  working : s'.working t project = s.working t project
  vectors : ∀ key, key ∈ keysOf s'.vectors ↔ key ∈ keysOf s.vectors ∨ key ∈ added

omit [DecidableEq D] in
theorem unharmed_same {s s' : StoreState D} (hindex : s'.index project = s.index project)
    (hworking : s'.working t project = s.working t project)
    (hvectors : s'.vectors = s.vectors) : Unharmed t project [] s s' := by
  refine ⟨.inl hindex, ?_, ?_, hworking, ?_⟩
  · rw [hindex]
    exact fun h => h
  · rw [hindex]
    exact fun _ hkey => .inl hkey
  · intro key
    rw [hvectors]
    simp

omit [DecidableEq D] in
theorem unharmed_writers {u : Tid} (hu : u ≠ t) {s : StoreState D} {path : PathBuf}
    {theirs : Option (Writer D)}
    (hold : ∀ writer, s.writers path = some writer → writer.thread = u)
    (htheirs : ∀ writer, theirs = some writer → writer.thread = u) :
    Unharmed t project [] s
      { s with writers := Function.update s.writers path theirs } :=
  unharmed_same rfl (working_of_other hu hold rfl htheirs) rfl

omit [DecidableEq D] in
theorem index_insert_ne {s : StoreState D} {path : PathBuf} (hpath : project ≠ path)
    (i : Index D) (writers : PathBuf → Option (Writer D)) :
    ({ s with indexes := s.indexes.insert path i, writers := writers } :
      StoreState D).index project = s.index project := by
  simp [StoreState.index, AList.lookup_insert_ne hpath]

omit [DecidableEq D] in
/-- A publication by another thread. -/
theorem unharmed_publish {u : Tid} (hu : u ≠ t) {s s' : StoreState D} {path : PathBuf}
    (h : s.publish u path = some s') (hop : Considerate u project s (.commit path)) :
    Unharmed t project [] s s' := by
  unfold StoreState.publish at h
  split at h
  next writer hwriter =>
    split at h
    next hthread =>
      obtain rfl := Option.some.inj h
      have hworking : ({ s with
          indexes := s.indexes.insert path writer.working
          writers := Function.update s.writers path none } :
            StoreState D).working t project = s.working t project := by
        apply working_of_other hu _ rfl
        · intro other hother
          cases hother
        · intro other hother
          rw [hwriter] at hother
          obtain rfl := Option.some.inj hother
          exact hthread
      by_cases hpath : path = project
      · subst hpath
        have hown : s.working u path = some writer.working := by
          unfold StoreState.working
          rw [hwriter]
          exact if_pos hthread
        obtain ⟨hlater, hcoherent, hreferred⟩ := hop rfl _ hown
        have hindex : ({ s with
            indexes := s.indexes.insert path writer.working
            writers := Function.update s.writers path none } :
              StoreState D).index path = writer.working := by
          simp [StoreState.index, AList.lookup_insert]
        refine ⟨?_, ?_, ?_, hworking, by simp⟩
        · rw [hindex]
          exact hlater
        · rw [hindex]
          exact fun _ => hcoherent
        · rw [hindex]
          exact hreferred
      · exact unharmed_same (index_insert_ne (Ne.symm hpath) _ _) hworking rfl
    · cases h
  · cases h

theorem settle_other {u : Tid} (hu : u ≠ t) {s s' : StoreState D} {op : StoreOp D}
    {a : StoreAns op} (h : settle home u s op a = some s')
    (hop : Considerate u project s op) :
    Unharmed t project (addedKeys op a) s s' := by
  by_cases hmild : op.Mild
  · obtain ⟨hindex, hwriters, hvectors⟩ : s'.index project = s.index project ∧ _ :=
      settle_mild hmild h
    rw [(mild_nothing hmild a).2.1]
    refine unharmed_same hindex ?_ hvectors
    rw [StoreState.working, hwriters]
    rfl
  have hfails : some s = some s' → Unharmed t project [] s s' := by
    intro hsame
    obtain rfl := Option.some.inj hsame
    exact unharmed_same rfl rfl rfl
  cases op with
  | beginImmediate path =>
      rcases a with e | ⟨⟩
      · exact hfails h
      · change s.begin u path = _ at h
        unfold StoreState.begin at h
        split at h
        next hnone =>
          obtain rfl := Option.some.inj h
          apply unharmed_writers hu
          · intro writer hwriter
            rw [hnone] at hwriter
            cases hwriter
          · intro writer hwriter
            obtain rfl := Option.some.inj hwriter
            rfl
        · cases h
  | update path change =>
      rcases a with e | ⟨⟩
      · exact hfails h
      · change s.write u path change = _ at h
        unfold StoreState.write at h
        split at h
        next writer hwriter =>
          split at h
          next hthread =>
            obtain rfl := Option.some.inj h
            apply unharmed_writers hu
            · intro other hother
              rw [hwriter] at hother
              obtain rfl := Option.some.inj hother
              exact hthread
            · intro other hother
              obtain rfl := Option.some.inj hother
              rfl
          · cases h
        · cases h
  | commit path =>
      rcases a with e | ⟨⟩
      · exact hfails h
      · exact unharmed_publish hu h hop
  | rollback path =>
      obtain rfl := Option.some.inj h
      change Unharmed t project [] s (s.abandon u path)
      unfold StoreState.abandon
      split
      next writer hwriter =>
        split
        next hthread =>
          apply unharmed_writers hu
          · intro other hother
            rw [hwriter] at hother
            obtain rfl := Option.some.inj hother
            exact hthread
          · intro other hother
            cases hother
        · exact unharmed_same rfl rfl rfl
      · exact unharmed_same rfl rfl rfl
  | selectKeys batch =>
      rcases a with e | keys
      · exact hfails h
      · change (if keys = _ then some s else none) = _ at h
        split at h
        · exact hfails h
        · cases h
  | selectVectors batch =>
      rcases a with e | rows
      · exact hfails h
      · change (if rows = _ then some s else none) = _ at h
        split at h
        · exact hfails h
        · cases h
  | insertVectors prepared =>
      rcases a with e | ⟨⟩
      · exact hfails h
      · obtain ⟨vectors, hinsert, rfl⟩ := settle_insertVectors h
        exact ⟨.inl rfl, fun hcoherent => hcoherent, fun _ hkey => .inl hkey, rfl,
          mem_keysOf_insertPrepared hinsert⟩
  | embedPassages texts =>
      rcases a with e | embeddings <;> exact hfails h
  | quarantineVectors => exact hop.elim
  | sweepVectors initial referenced => exact hop.elim
  | _ => exact absurd (by exact trivial) hmild

/-- A considerate step of another thread is one of the environment. -/
theorem meanwhile_other {u : Tid} (hu : u ≠ t) {s s' : StoreTrace D} {op : StoreOp D}
    {a : StoreAns op} (h : (store home).traced.system.exec u s op a s')
    (hop : Considerate u project s.now op) :
    Meanwhile t project (fun key => key ∈ addedKeys op a) s s' := by
  obtain ⟨hexec, hpast⟩ := Interp.exec_traced h
  have hstep := settle_other hu ((exec_store home).1 hexec) hop
  refine ⟨hstep.later, hstep.coherent, hstep.referred, hstep.working, ?_, ?_, ?_⟩
  · intro key hkey
    exact (hstep.vectors key).2 (.inl hkey)
  · intro key hkey
    exact (hstep.vectors key).1 hkey
  · rw [Traced.own, hpast, List.filter_cons_of_neg (by simpa using hu)]
    rfl

/-! Runs of the store. -/

/-- What one thread runs; the steps of all others belong to its environment. -/
def focus {α : Type} (t : Tid) (idle : α) (s : StoreTrace D)
    (p : Prog (StoreOp D) StoreAns α) : Pool Tid (StoreOp D) StoreAns (StoreTrace D) α where
  procs u := if u = t then p else .ret idle
  state := s

omit [DecidableEq D] in
theorem update_focus {α : Type} (idle : α) (p p' : Prog (StoreOp D) StoreAns α) :
    Function.update (fun u => if u = t then p else .ret idle) t p' =
      fun u => if u = t then p' else .ret idle := by
  funext u
  by_cases hu : u = t
  · subst hu
    rw [Function.update_self, if_pos rfl]
  · rw [Function.update_of_ne hu, if_neg hu, if_neg hu]

/-- A run of the store in which the other threads are considerate is a run of one
thread in its environment. -/
theorem steps_focus {α : Type} (idle : α) {foreign : VectorKey D → Prop}
    {pool pool' : Pool Tid (StoreOp D) StoreAns (StoreTrace D) α}
    (hsteps : (store home).traced.system.Steps pool pool')
    (hothers : ∀ e ∈ pool'.state.past, e.tid ≠ t →
      Considerate e.tid project e.before e.op ∧
        ∀ key ∈ addedKeys e.op e.answer, foreign key) :
    (syncSystem home t project foreign).Steps
      (focus t idle pool.state (pool.procs t)) (focus t idle pool'.state (pool'.procs t)) := by
  induction hsteps with
  | refl => exact .refl
  | @tail middle last _ hstep ih =>
      cases hstep with
      | @call procs s s' u op next answer hproc hexec =>
          have hpast := (Interp.exec_traced hexec).2
          have hfirst := ih fun e he => hothers e (by rw [hpast]; exact .tail _ he)
          apply hfirst.tail
          by_cases hu : u = t
          · subst hu
            have hcall : (syncSystem home u project foreign).Step
                (focus u idle s (.call op next)) ⟨Function.update
                  (focus u idle s (.call op next)).procs u (next answer), s'⟩ :=
              .call u op next answer (if_pos rfl) hexec
            simp only [Function.update_self]
            rw [hproc]
            simpa only [focus, update_focus] using hcall
          · obtain ⟨hconsiderate, hadded⟩ :=
              hothers ⟨u, op, answer, s.now, s'.now⟩ (by rw [hpast]; exact .head _) hu
            simp only [focus, Function.update_of_ne (Ne.symm hu)]
            have hmeanwhile : Meanwhile t project (fun key => key ∈ addedKeys op answer)
                s s' := meanwhile_other hu hexec hconsiderate
            exact .env { hmeanwhile with
              added := fun key hkey => (hmeanwhile.added key hkey).imp_right (hadded key) }
      | @unfold procs s u σ τ body state next hproc =>
          have hfirst := ih hothers
          by_cases hu : u = t
          · subst hu
            apply hfirst.tail
            have hunfold : (syncSystem home u project foreign).Step
                (focus u idle s (.loop body state next)) ⟨Function.update
                  (focus u idle s (.loop body state next)).procs u
                    ((body state).bind (Prog.again body next)), s⟩ :=
              .unfold u body state next (if_pos rfl)
            simp only [Function.update_self]
            rw [hproc]
            simpa only [focus, update_focus] using hunfold
          · simpa only [focus, Function.update_of_ne (Ne.symm hu)] using hfirst
      | env henv =>
          obtain ⟨c, hc⟩ := henv
          cases hc

end

end Yams.Store
