/-
The threads over one store: plans, executions, synchronizations and collections.
Every publication replaces the index that its plan was made from, so that no
update is lost, and what does not succeed publishes nothing.
-/
import Yams.SyncExecution
import Yams.SyncHealing

namespace Yams.Store

/-- What a thread is there to do. -/
inductive Job (D : Type) [Sha256 D]
  | planSync (root : PathBuf) (scan : ScanReport D) (embedder : Embedder) (mode : SyncMode)
  | executePlan (root : PathBuf) (plan : SyncPlan D) (embedder : Embedder)
  | planAndExecute (root : PathBuf) (scan : ScanReport D) (embedder : Embedder)
      (mode : SyncMode)
  | collect

/-- What a thread has come to. -/
inductive Outcome (D : Type) [Sha256 D]
  | planned (result : Except (SyncError D) (SyncPlan D))
  | synchronized (result : Except (SyncError D) SyncReport)
  | collected (result : Except (ManagementError D) SweepReport)

section

variable {D : Type} [DecidableEq D] [Sha256 D]

def Job.program : Job D → Prog (StoreOp D) StoreAns (Outcome D)
  | .planSync root scan embedder mode =>
      (planSynchronization root scan embedder mode).run.bind fun r => .ret (.planned r)
  | .executePlan root plan embedder =>
      (executeSyncPlan root plan embedder).run.bind fun r => .ret (.synchronized r)
  | .planAndExecute root scan embedder mode =>
      (synchronize root scan embedder mode).run.bind fun r => .ret (.synchronized r)
  | .collect => gc.run.bind fun r => .ret (.collected r)

omit [DecidableEq D] in
/-- An execution has succeeded. -/
def Outcome.executed : Outcome D → Bool
  | .synchronized (.ok _) => true
  | _ => false

/-- The index `i` of a project is replaced by `w` as the job says, after what its
thread has done. -/
def Job.Replaces (home : StoreHome) :
    Job D → PathBuf → Index D → Index D → List (StoreEvent D) → Prop
  | .executePlan root plan embedder, project, i, w, _ =>
      home.projectPath root = project ∧ Publishes plan embedder i w
  | .planAndExecute root scan embedder mode, project, i, w, own =>
      home.projectPath root = project ∧ ∃ plan,
        PlannedIn scan embedder mode project plan own ∧ Publishes plan embedder i w
  | .planSync .., _, _, _, _ | .collect, _, _, _, _ => False

theorem Job.Replaces.advances {home : StoreHome} {job : Job D} {project : PathBuf}
    {i w : Index D} {own : List (StoreEvent D)} (h : job.Replaces home project i w own) :
    w.generation.toInt = i.generation.toInt + 1 := by
  cases job with
  | planSync => exact h.elim
  | executePlan root plan embedder => exact h.2.advances
  | planAndExecute root scan embedder mode =>
      obtain ⟨-, plan, -, hpublishes⟩ := h
      exact hpublishes.advances
  | collect => exact h.elim

omit [DecidableEq D] in
/-- How a thread ends: with no transaction open, and it has published nothing
unless its execution has succeeded. -/
def Outcome.Ends (outcome : Outcome D) (v : Session D) : Prop :=
  v.Idle ∧ (outcome.executed = false → v.Silent)

/-- What a job that has succeeded with a report has come to, by what its thread has
done. -/
def Job.Concludes (home : StoreHome) (report : SyncReport) (own : List (StoreEvent D)) :
    Job D → Prop
  | .executePlan root plan embedder =>
      Concluded (home.projectPath root) plan embedder (fun _ => True) report own
  | .planAndExecute root scan embedder mode => ∃ plan,
      Concluded (home.projectPath root) plan embedder
        (PlannedIn scan embedder mode (home.projectPath root) plan) report own
  | .planSync .. | .collect => False

/-- How the thread of a job ends. -/
structure Job.Ended (home : StoreHome) (job : Job D) (outcome : Outcome D)
    (v : Session D) : Prop where
  ends : outcome.Ends v
  concludes : ∀ report, outcome = .synchronized (.ok report) →
    job.Concludes home report v.own

variable {home : StoreHome} {allowed : Permission D} {t : Tid}

/-- A job replaces only what it may. -/
theorem outline_job (job : Job D) {s : StoreTrace D} (hinv : Accounted allowed s.past)
    (hs : Resting (fun _ => True) (session t s))
    (hallowed : ∀ project i w own, job.Replaces home project i w own →
      allowed t project i w own) :
    Outline (commitDiscipline home allowed) t job.program
      (fun outcome s' => job.Ended home outcome (session t s')) s := by
  have hrested : ∀ {K : List (StoreEvent D) → Prop} (outcome : Outcome D) v,
      Resting K v → outcome.executed = false → job.Ended home outcome v := by
    intro K outcome v h hnot
    refine ⟨⟨h.idle, fun _ => h.silent⟩, ?_⟩
    rintro report rfl
    cases hnot
  have hreported : ∀ report (v : Session D), v.Idle → job.Concludes home report v.own →
      job.Ended home (.synchronized (.ok report)) v := by
    intro report v hidle hconcludes
    refine ⟨⟨hidle, fun hnot => ?_⟩, ?_⟩
    · cases hnot
    intro other heq
    obtain rfl := Except.ok.inj (Outcome.synchronized.inj heq)
    exact hconcludes
  cases job with
  | planSync root scan embedder mode =>
      apply triple_finish (F := Job.Ended home (.planSync root scan embedder mode))
        (serves_planSynchronization root scan embedder mode) _ hinv hs
      rintro (e | plan) v hv
      · exact hrested _ v hv rfl
      · exact hrested _ v hv rfl
  | executePlan root plan embedder =>
      have hexecute : Serves home allowed t (Resting fun _ => True)
          (executeSyncPlan root plan embedder)
          (fun report v => v.Idle ∧
            Concluded (home.projectPath root) plan embedder (fun _ => True) report v.own)
          fun _ => Resting fun _ => True :=
        serves_executeSyncPlan (fun _ _ _ => trivial)
          fun i w own _ hpublishes => hallowed _ i w own ⟨rfl, hpublishes⟩
      apply triple_finish hexecute _ hinv hs
      rintro (e | report) v hv
      · exact hrested _ v hv rfl
      · exact hreported report v hv.1 hv.2
  | planAndExecute root scan embedder mode =>
      have hsynchronize : Serves home allowed t (Resting fun _ => True)
          (synchronize root scan embedder mode)
          (fun report v => v.Idle ∧ ∃ plan,
            Concluded (home.projectPath root) plan embedder
              (PlannedIn scan embedder mode (home.projectPath root) plan) report v.own)
          fun _ => Resting fun _ => True := by
        unfold synchronize
        apply triple_bind (serves_planSynchronization root scan embedder mode)
        intro plan
        apply triple_mono (serves_executeSyncPlan lasts_plannedIn
          fun i w own hplanned hpublishes =>
            hallowed _ i w own ⟨rfl, plan, hplanned, hpublishes⟩)
        · exact fun _ h => h
        · exact fun _ _ h => ⟨h.1, plan, h.2⟩
        · exact fun _ v h => ⟨h.idle, h.silent, trivial⟩
      apply triple_finish hsynchronize _ hinv hs
      rintro (e | report) v hv
      · exact hrested _ v hv rfl
      · exact hreported report v hv.1 hv.2
  | collect =>
      have hcollect : Serves home allowed t (Resting fun _ => True) (gc (D := D))
          (fun _ => Resting fun _ => True) fun _ => Resting fun _ => True :=
        serves_bystanders (persists_resting fun _ _ _ => trivial) bystands_gc
      apply triple_finish hcollect _ hinv hs
      rintro (e | report) v hv
      · exact hrested _ v hv rfl
      · exact hrested _ v hv rfl

/-- The threads at work, and the operations there have been. -/
abbrev StorePool (D : Type) [Sha256 D] :=
  Pool Tid (StoreOp D) StoreAns (StoreTrace D) (Outcome D)

/-- Every thread sets out to do its job. -/
def atWork (jobs : Tid → Job D) (start : StoreState D) : StorePool D :=
  ⟨fun t => (jobs t).program, start, []⟩

/-- No thread has a transaction open. -/
def StoreState.Idle (s : StoreState D) : Prop := ∀ t project, s.working t project = none

/-- Every interleaving replaces only what the jobs may replace. -/
theorem jobs_accounted {jobs : Tid → Job D} {start : StoreState D} {pool : StorePool D}
    (hidle : start.Idle)
    (hsteps : (store home).traced.system.Steps (atWork jobs start) pool) :
    Accounted (fun t => (jobs t).Replaces home) pool.state.past ∧
      ∀ t outcome, pool.procs t = .ret outcome →
        (jobs t).Ended home outcome (session t pool.state) := by
  have hrests : ∀ t, Resting (fun _ => True) (session t (atWork jobs start).state) := by
    intro t
    refine ⟨?_, fun e he => absurd he List.not_mem_nil, trivial⟩
    intro project
    exact transaction_eq_none.2 (hidle t project)
  have houtlined : Outlined (commitDiscipline home fun t => (jobs t).Replaces home)
      (fun t outcome s => (jobs t).Ended home outcome (session t s)) (atWork jobs start) :=
    ⟨trivial, fun t => outline_job (jobs t) trivial (hrests t) fun _ _ _ _ h => h⟩
  have hfinal := outlined_steps hsteps houtlined
  exact ⟨hfinal.1, fun t outcome hdone => hfinal.finished hdone⟩

/-! What lies between two moments of the same generation. -/

/-- Since the event `x` nothing has been published of the project. -/
def StillCurrent (project : PathBuf) (i : Index D) (since : List (StoreEvent D)) : Prop :=
  ∀ x ∈ since, published x.op x.answer ≠ some project ∧ x.before.index project = i

theorem accounted_advances {jobs : Tid → Job D} {past : List (StoreEvent D)}
    {project : PathBuf} (h : Accounted (fun t => (jobs t).Replaces home) past) :
    ∀ e ∈ past, published e.op e.answer = some project → Advances project e := by
  intro e he hpublished
  obtain ⟨newer, older, hpast⟩ := List.append_of_mem he
  exact (accounted_split h hpast hpublished).advances

/-- From a moment at which the index had the same generation on, nothing has been
published. -/
theorem still_current {start now : StoreState D} {between earlier : List (StoreEvent D)}
    {x : StoreEvent D} {project : PathBuf} {jobs : Tid → Job D}
    (hlinked : Linked home start now (between ++ x :: earlier))
    (h : Accounted (fun t => (jobs t).Replaces home) (between ++ x :: earlier))
    (hgeneration : (x.before.index project).generation = (now.index project).generation) :
    StillCurrent project (now.index project) (between ++ [x]) := by
  have hsplit : between ++ x :: earlier = (between ++ [x]) ++ earlier := by simp
  rw [hsplit] at hlinked
  obtain ⟨middle, hnewer, hearlier⟩ := linked_append hlinked
  have hfirst : x.before.index project = middle.index project := by
    obtain ⟨last, hbetween, hlast⟩ := linked_append hnewer
    obtain ⟨-, -, hbefore⟩ := hlast
    rw [show x.before = middle from hbefore]
  have hadvances : ∀ e ∈ between ++ [x], published e.op e.answer = some project →
      Advances project e := by
    intro e he
    apply accounted_advances h e
    rw [hsplit]
    exact List.mem_append_left _ he
  rw [hfirst] at hgeneration
  exact (linked_generation hnewer hadvances).2.1 hgeneration.symm

/-! The plan of a publication. -/

/-- The plan was made, by the thread that publishes, from the very index that the
publication replaces: nothing has been published since the thread began to read. -/
structure PlannedAgainst (scan : ScanReport D) (embedder : Embedder) (mode : SyncMode)
    (project : PathBuf) (e : StoreEvent D) (older : List (StoreEvent D))
    (plan : SyncPlan D) : Prop where
  made : PlanOf scan embedder mode (e.before.index project).scheme
    (e.before.index project).docs (e.before.index project) plan
  read : ∃ between r earlier, older = between ++ r :: earlier ∧ r.tid = e.tid ∧
    generationRead r.op r.answer = some (project, plan.generation) ∧
    StillCurrent project (e.before.index project) (between ++ [r])

theorem planned_against {start now : StoreState D} {older : List (StoreEvent D)}
    {e : StoreEvent D} {project : PathBuf} {jobs : Tid → Job D} {scan : ScanReport D}
    {embedder : Embedder} {mode : SyncMode} {plan : SyncPlan D}
    (hlinked : Linked home start now (e :: older))
    (haccounted : Accounted (fun t => (jobs t).Replaces home) older)
    (hplanned : PlannedIn scan embedder mode project plan
      (older.filter fun other => other.tid = e.tid))
    (hgeneration : (e.before.index project).generation = plan.generation) :
    PlannedAgainst scan embedder mode project e older plan := by
  obtain ⟨i₁, i₂, i₃, ⟨newer, r, earlier, hown, hread, hfirst, hseen⟩, hplan⟩ := hplanned
  obtain ⟨l₁, l₂, hsplit, hnewer, hrest⟩ := List.filter_eq_append_iff.1 hown
  obtain ⟨l₃, l₄, hrest, -, hmine, -⟩ := List.filter_eq_cons_iff.1 hrest
  have holder : older = (l₁ ++ l₃) ++ r :: l₄ := by
    rw [hsplit, hrest, List.append_assoc]
  obtain ⟨-, -, hbefore⟩ := hlinked
  rw [holder] at hbefore haccounted
  have hcurrent := still_current hbefore haccounted (hfirst.trans hgeneration.symm)
  have hsame : ∀ i ∈ [i₁, i₂, i₃], i = e.before.index project := by
    intro i hi
    obtain ⟨x, hx, rfl⟩ := hseen i hi
    rw [← hnewer] at hx
    apply (hcurrent x _).2
    simp [List.mem_of_mem_filter hx]
  obtain rfl := hsame i₁ (by simp)
  obtain rfl := hsame i₂ (by simp)
  obtain rfl := hsame i₃ (by simp)
  exact ⟨hplan, l₁ ++ l₃, r, l₄, holder, by simpa using hmine, hread, hcurrent⟩

/-- What a publication of a job has replaced. -/
def Job.Replaced (home : StoreHome) (project : PathBuf) (e : StoreEvent D)
    (older : List (StoreEvent D)) : Job D → Prop
  | .executePlan root plan embedder =>
      home.projectPath root = project ∧
        Publishes plan embedder (e.before.index project) (e.after.index project)
  | .planAndExecute root scan embedder mode =>
      home.projectPath root = project ∧ ∃ plan,
        PlannedAgainst scan embedder mode project e older plan ∧
        Publishes plan embedder (e.before.index project) (e.after.index project)
  | .planSync .. | .collect => False

omit [DecidableEq D] [Sha256 D] in
theorem accounted_older {allowed : Permission D} {newer older : List (StoreEvent D)}
    {e : StoreEvent D} (h : Accounted allowed (newer ++ e :: older)) :
    Accounted allowed older := by
  induction newer with
  | nil => exact h.1
  | cons _ newer ih => exact ih h.1

theorem publication_replaced {jobs : Tid → Job D} {start now : StoreState D}
    {past newer older : List (StoreEvent D)} {e : StoreEvent D} {project : PathBuf}
    (hlinked : Linked home start now past)
    (haccounted : Accounted (fun t => (jobs t).Replaces home) past)
    (hpast : past = newer ++ e :: older)
    (hpublished : published e.op e.answer = some project) :
    Advances project e ∧ (jobs e.tid).Replaced home project e older ∧
      ∀ between x earlier, older = between ++ x :: earlier →
        (x.before.index project).generation = (e.before.index project).generation →
          StillCurrent project (e.before.index project) (between ++ [x]) := by
  have hreplaces := accounted_split haccounted hpast hpublished
  rw [hpast] at hlinked haccounted
  obtain ⟨middle, -, hrest⟩ := linked_append hlinked
  have hold := accounted_older haccounted
  refine ⟨hreplaces.advances, ?_, ?_⟩
  · cases hjob : jobs e.tid with
    | planSync =>
        rw [hjob] at hreplaces
        exact hreplaces
    | executePlan root plan embedder =>
        rw [hjob] at hreplaces
        exact hreplaces
    | planAndExecute root scan embedder mode =>
        rw [hjob] at hreplaces
        obtain ⟨hroot, plan, hplanned, hpublishes⟩ := hreplaces
        obtain ⟨_, _, -, -, -, -, hmade⟩ := hpublishes.made
        exact ⟨hroot, plan, planned_against hrest hold hplanned hmade.planned, hpublishes⟩
    | collect =>
        rw [hjob] at hreplaces
        exact hreplaces
  · intro between x earlier hsplit hgeneration
    obtain ⟨-, -, hbefore⟩ := hrest
    rw [hsplit] at hbefore hold
    exact still_current hbefore hold hgeneration

/-- Any number of plans, executions, synchronizations and collections over one
store, in any order of their steps: every publication of an index advances its
generation by one, and it replaces exactly the index that its plan was made from;
nothing else changes an index; and a thread that has not executed a plan to its end
has published nothing and has left no transaction behind. -/
theorem publications_current (home : StoreHome) (jobs : Tid → Job D)
    (start : StoreState D) (pool : StorePool D) (hidle : start.Idle)
    (hsteps : (store home).traced.system.Steps (atWork jobs start) pool) :
    (∀ newer e older project, pool.state.past = newer ++ e :: older →
      published e.op e.answer = some project →
        Advances project e ∧ (jobs e.tid).Replaced home project e older ∧
        ∀ between x earlier, older = between ++ x :: earlier →
          (x.before.index project).generation = (e.before.index project).generation →
            StillCurrent project (e.before.index project) (between ++ [x])) ∧
    (∀ e ∈ pool.state.past, ∀ project, published e.op e.answer ≠ some project →
      e.after.index project = e.before.index project) ∧
    ∀ t outcome, pool.procs t = .ret outcome → outcome.executed = false →
      (∀ e ∈ pool.state.past, e.tid = t → published e.op e.answer = none) ∧
      ∀ project, pool.state.now.working t project = none := by
  obtain ⟨haccounted, hends⟩ := jobs_accounted hidle hsteps
  have hlinked : Linked home start pool.state.now pool.state.past :=
    steps_linked hsteps rfl
  refine ⟨?_, ?_, ?_⟩
  · intro newer e older project hpast hpublished
    exact publication_replaced hlinked haccounted hpast hpublished
  · intro e he project hpublished
    exact settle_index (linked_mem hlinked he) hpublished
  · intro t outcome hdone hexecuted
    obtain ⟨hidle', hsilent⟩ := (hends t outcome hdone).ends
    refine ⟨?_, fun project => transaction_eq_none.1 (hidle' project)⟩
    intro e he hmine
    apply hsilent hexecuted e
    exact List.mem_filter.2 ⟨he, by simpa using hmine⟩

end

namespace SyncGenerationsWitness

open SyncHealingWitness

attribute [local instance] SyncHealingWitness.instSha256Bytes

/-- Two synchronizations of the project and a collection. -/
def jobs (t : Tid) : Job Bytes :=
  if t ≤ 1 then .planAndExecute root scan embedder .incremental else .collect

/-- The second thread has planned before the first one publishes. -/
def turns : List (Turn Tid (Choice Bytes)) :=
  List.replicate 14 (.thread 1 none) ++ List.replicate 49 (.thread 0 none) ++
    [.thread 1 none] ++ List.replicate 15 (.thread 2 none)

def outcome : Option (StorePool Bytes) :=
  (store home).traced.schedule 4 turns (atWork jobs start)

/-- The generations that a thread has found to differ. -/
def outdated (p : Prog (StoreOp Bytes) StoreAns (Outcome Bytes)) :
    Option (Int64 × Int64) :=
  match p with
  | .ret (.synchronized (.error (.projectChanged expected actual))) =>
      some (expected, actual)
  | _ => none

theorem outdated_eq_some {p : Prog (StoreOp Bytes) StoreAns (Outcome Bytes)}
    {expected actual : Int64} (h : outdated p = some (expected, actual)) :
    p = .ret (.synchronized (.error (.projectChanged expected actual))) := by
  unfold outdated at h
  split at h
  · obtain ⟨rfl, rfl⟩ := Prod.mk.inj (Option.some.inj h)
    rfl
  · cases h

theorem start_idle : start.Idle := fun _ _ => rfl

/-- The thread that planned before the other one published publishes nothing. -/
theorem publications_current_outdated : ∃ pool, outcome = some pool ∧
    (pool.state.past.filterMap fun e => published e.op e.answer) = [root] ∧
    pool.procs 1 = .ret (.synchronized (.error (.projectChanged 4 5))) ∧
    ∀ e ∈ pool.state.past, e.tid = 1 → published e.op e.answer = none := by
  have hfacts : outcome.map (fun pool =>
      (pool.state.past.filterMap fun e => published e.op e.answer,
        outdated (pool.procs 1))) = some ([root], some (4, 5)) := by
    unfold outcome atWork Job.program synchronize planSynchronization executeSyncPlan
      admitPlan start index scheme embeddingSchemeFor
    repeat rw [String.toList_ofList]
    decide +kernel
  obtain ⟨pool, hpool, hpair⟩ := Option.map_eq_some_iff.1 hfacts
  obtain ⟨hpublished, houtdated⟩ := Prod.mk.inj hpair
  have hdone := outdated_eq_some houtdated
  refine ⟨pool, hpool, hpublished, hdone, ?_⟩
  obtain ⟨-, -, hends⟩ := publications_current home jobs start pool start_idle
    (schedule_steps hpool)
  exact (hends 1 _ hdone rfl).1

end SyncGenerationsWitness

end Yams.Store
