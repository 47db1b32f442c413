/-
Mutual exclusion of the project lock.  Two guards whose pinned names lead to
one inode would hold conflicting locks on it, so of two guards of one corpus at
most one passes revalidation, however names have been replaced in between.
-/
import Yams.WikiLockOutline

namespace Yams.WikiLock

/-! Revalidation of a guard in a state that stands still. -/

/-- `revalidate_before_commit` of thread `t` succeeds if nobody else moves. -/
def Passes (s : LockState) (t : Tid) (guard : LockGuard) : Prop :=
  ∃ s', Runs (lockInterp.system.exec t) (revalidateBeforeCommit guard).run
    s (.ok ()) s'

/-- Nothing but temporary descriptors of thread `t` has come and gone. -/
structure Still (t : Tid) (files : List OpenFile) (s s' : LockState) : Prop where
  names : s'.names = s.names
  own : s'.own t = files
  apart : s'.files.Pairwise Apart

section

variable {t : Tid} {files : List OpenFile} {s a : LockState}
variable {α β ε : Type}

/-- The rule for a call when nobody else moves. -/
theorem still_sys {op : LockOp} {next : LockAns op → Fallible LockOp LockAns ε α}
    {Q : Except ε α → LockState → Prop} (hstill : Still t files s a)
    (hop : ∀ fd flags, op ≠ .openLock fd flags)
    (hnext : ∀ answer b files', lockInterp.system.exec t a op answer b →
      Effect t files op answer files' → Still t files' s b →
        Alone (lockInterp.system.exec t) (next answer).run Q b) :
    Alone (lockInterp.system.exec t) (sys op >>= next).run Q a := by
  intro a' hrely _ answer b hexec
  cases hrely
  obtain ⟨heffect, hframe⟩ := exec_effect hexec
  rw [hstill.own] at heffect
  exact ⟨trivial, trivial, hnext answer b _ hexec heffect
    ⟨(hframe.names hop).trans hstill.names, rfl, hframe.apart hstill.apart⟩⟩

theorem still_done {r : α} {Q : α → LockState → Prop} (hQ : Q r a) :
    Alone (lockInterp.system.exec t) (.ret r) Q a := by
  intro a' hrely _
  cases hrely
  exact hQ

theorem exec_canonicalize {b : LockState} {path resolved : Path}
    (hexec : lockInterp.system.exec t a (.canonicalize path) (.ok resolved) b) :
    a.canonical path = some resolved := by
  obtain ⟨c, hc⟩ := hexec
  change answerLock t c a (.canonicalize path) = some (.ok resolved, b) at hc
  cases c with
  | ok =>
      obtain ⟨resolved', hresolved, heq⟩ := Option.map_eq_some_iff.mp hc
      cases heq
      exact hresolved
  | fail e => cases hc
  | _ => cases hc

theorem exec_openDirectory {b : LockState} {path : Path} {fd : Fd}
    (hexec : lockInterp.system.exec t a (.openDirectory path) (.ok fd) b) :
    ∃ i, a.directory path = some i ∧
      b.own t = ⟨t, fd, i, none⟩ :: a.own t := by
  obtain ⟨c, hc⟩ := hexec
  change answerLock t c a (.openDirectory path) = some (.ok fd, b) at hc
  cases c with
  | opened fd' =>
      simp only [answerLock, Option.bind_eq_bind, Option.bind_eq_some_iff] at hc
      obtain ⟨i, hi, s₁, hopen, heq⟩ := hc
      cases heq
      exact ⟨i, hi, (effect_openAs hopen).2⟩
  | fail e => cases hc
  | _ => cases hc

/-- Sequential composition when nobody else moves. -/
theorem still_part {p : Fallible LockOp LockAns ε α}
    {next : α → Fallible LockOp LockAns ε β}
    {P : Except ε α → LockState → Prop} {Q : Except ε β → LockState → Prop}
    (hp : Alone (lockInterp.system.exec t) p.run P a)
    (hnext : ∀ r b, P r b →
      Alone (lockInterp.system.exec t) (Fallible.follow next r) Q b) :
    Alone (lockInterp.system.exec t) (p >>= next).run Q a :=
  outline_follow p next trivial
    (outline_mono p.run hp fun r b _ h => hnext r b h)

theorem still_closing {fd : Fd} (i : Identity)
    {body : Fallible LockOp LockAns ε α} {P : Except ε α → Prop}
    (hfresh : ∀ f ∈ files, f.fd ≠ fd)
    (hbody : Alone (lockInterp.system.exec t) body.run (fun r b =>
      Still t (⟨t, fd, i, none⟩ :: files) s b ∧ P r) a) :
    Alone (lockInterp.system.exec t) (closing fd body).run
      (fun r b => Still t files s b ∧ P r) a := by
  refine outline_follow _ _ trivial ?_
  rw [Fallible.run_observe]
  refine outline_bind _ _ trivial (outline_mono _ hbody ?_)
  rintro r b _ ⟨hstill, hr⟩
  refine still_done ?_
  refine still_sys hstill nofun ?_
  intro _ c files' _ heffect hstill'
  change files' = _ at heffect
  rw [heffect, filter_opened hfresh] at hstill'
  exact still_done ⟨hstill', hr⟩

/-- A current corpus is the one its requested name leads to. -/
theorem revalidateCorpus_still {requestedPath corpusPath : Path}
    {corpusFd : Fd} {identity : Identity} (hstill : Still t files s a) :
    Alone (lockInterp.system.exec t)
      (revalidateCorpus requestedPath corpusPath corpusFd identity).run
      (fun r b => Still t files s b ∧ (r = .ok .current →
        s.canonical requestedPath = some corpusPath ∧
        s.directory corpusPath = some identity)) a := by
  refine still_sys hstill nofun ?_
  intro resolved b₁ files₁ hexec heffect hstill₁
  rcases resolved with e | resolved
  · cases heffect
    exact still_done ⟨hstill₁, nofun⟩
  cases heffect
  have hcanonical : s.canonical requestedPath = some resolved := by
    rw [← exec_canonicalize hexec]
    exact (congrFun (congrArg (fun n => n.1) hstill.names) requestedPath).symm
  change Alone _ (ExceptT.run (if _ then _ else _)) _ b₁
  split
  · exact still_done ⟨hstill₁, nofun⟩
  rename_i hresolved
  rw [not_not.mp hresolved] at hcanonical
  refine still_sys hstill₁ nofun ?_
  intro pinned b₂ files₂ _ heffect hstill₂
  rcases pinned with e | pinned
  · cases heffect
    exact still_done ⟨hstill₂, nofun⟩
  obtain ⟨rfl, _⟩ := heffect
  change Alone _ (ExceptT.run (if _ then _ else _)) _ b₂
  split
  · exact still_done ⟨hstill₂, nofun⟩
  refine still_sys hstill₂ nofun ?_
  intro named b₃ files₃ hexec heffect hstill₃
  rcases named with e | named
  · cases heffect
    exact still_done ⟨hstill₃, nofun⟩
  obtain ⟨i, hdirectory, hown⟩ := exec_openDirectory hexec
  rw [hstill₂.own] at hown
  rw [hstill₃.own] at hown
  obtain ⟨_, hfresh, _⟩ := heffect
  rw [hown] at hstill₃
  refine still_closing i hfresh ?_
  refine still_sys hstill₃ nofun ?_
  intro namedStat b₄ files₄ _ heffect hstill₄
  rcases namedStat with e | namedStat
  · cases heffect
    exact still_done ⟨hstill₄, nofun⟩
  obtain ⟨rfl, f, hf, hfd, hidentity⟩ := heffect
  have hnamed : namedStat.identity = i := by
    rcases List.mem_cons.mp hf with rfl | hf
    · exact hidentity
    · exact absurd hfd (hfresh f hf)
  have hdirectory' : s.directory corpusPath = some i := by
    rw [← hdirectory]
    exact (congrFun (congrArg (fun n => n.2.1) hstill₂.names) corpusPath).symm
  change Alone _ (ExceptT.run (if _ then _ else _)) _ b₄
  split
  · exact still_done ⟨hstill₄, nofun⟩
  · rename_i hsame
    refine still_done ⟨hstill₄, fun _ => ⟨hcanonical, ?_⟩⟩
    rw [hdirectory', ← hnamed, not_not.mp hsame]

theorem validateLockDescriptor_still {fd : Fd} {path : Path}
    (hstill : Still t files s a) :
    Alone (lockInterp.system.exec t) (validateLockDescriptor fd path).run
      (fun _ b => Still t files s b) a := by
  refine still_sys hstill nofun ?_
  intro stat b₁ files₁ _ heffect hstill₁
  rcases stat with e | stat
  · cases heffect
    exact still_done hstill₁
  obtain ⟨rfl, _⟩ := heffect
  change Alone _ (ExceptT.run (if _ then _ else _)) _ b₁
  split
  · exact still_done hstill₁
  refine still_sys hstill₁ nofun ?_
  intro realUid b₂ files₂ _ heffect hstill₂
  cases heffect
  split
  · exact still_done hstill₂
  split <;> exact still_done hstill₂

/-- A guard that passes is bound to what its names lead to. -/
theorem revalidateTarget_still {guard : LockGuard}
    (hstill : Still t (guardFiles t guard) s a) :
    Alone (lockInterp.system.exec t) (revalidateTarget guard.target).run
      (fun r _ => r = .ok .current →
        s.canonical guard.target.requestedPath = some guard.target.corpusPath ∧
        s.directory guard.target.corpusPath
          = some guard.target.corpusIdentity ∧
        s.lockEntry guard.target.corpusIdentity
          = some guard.target.lockIdentity) a := by
  refine still_part (revalidateCorpus_still hstill) ?_
  rintro (e | _ | _) b₁ ⟨hstill₁, hcorpus⟩
  · exact still_done nofun
  · obtain ⟨hcanonical, hdirectory⟩ := hcorpus rfl
    refine still_part (validateLockDescriptor_still hstill₁) ?_
    rintro (e | stat) b₂ hstill₂
    · exact still_done nofun
    change Alone _ (ExceptT.run (if _ then _ else _)) _ b₂
    split
    · exact still_done nofun
    refine still_sys hstill₂ nofun ?_
    intro named b₃ files₃ hexec heffect hstill₃
    rcases named with e | named
    · cases e <;> exact still_done nofun
    change Alone _ (ExceptT.run (if _ then _ else _)) _ b₃
    split
    · exact still_done nofun
    rename_i hidentity
    refine still_done fun _ => ⟨hcanonical, hdirectory, ?_⟩
    obtain ⟨dir, hdir, hfd, hentry⟩ := exec_statLock hexec
    have hcorpusFile : ⟨t, guard.target.corpusFd, guard.target.corpusIdentity,
        none⟩ ∈ b₂.own t := by
      rw [hstill₂.own]
      simp [guardFiles, pinnedFiles]
    have hsame := eq_of_apart (hstill₂.apart.filter _) hdir hcorpusFile
      (LockState.mem_own.mp hdir).2 hfd
    rw [hsame, not_not.mp hidentity] at hentry
    rw [← hentry]
    exact (congrFun (congrArg (fun n => n.2.2) hstill₂.names) _).symm
  · exact still_done nofun

theorem Passes.names {guard : LockGuard} (hpasses : Passes s t guard)
    (hown : s.own t = guardFiles t guard) (hapart : s.files.Pairwise Apart) :
    s.canonical guard.target.requestedPath = some guard.target.corpusPath ∧
      s.directory guard.target.corpusPath
        = some guard.target.corpusIdentity ∧
      s.lockEntry guard.target.corpusIdentity
        = some guard.target.lockIdentity := by
  obtain ⟨s', hrun⟩ := hpasses
  have hstill : Still t (guardFiles t guard) s s := ⟨rfl, hown, hapart⟩
  have hout : Alone (lockInterp.system.exec t) (revalidateBeforeCommit guard).run
      (fun r _ => r = .ok () →
        s.canonical guard.target.requestedPath = some guard.target.corpusPath ∧
        s.directory guard.target.corpusPath
          = some guard.target.corpusIdentity ∧
        s.lockEntry guard.target.corpusIdentity
          = some guard.target.lockIdentity) s := by
    refine still_part (revalidateTarget_still hstill) ?_
    rintro (e | _ | _) b hnames
    · exact still_done nofun
    · exact still_done fun _ => hnames rfl
    · exact still_done nofun
  exact hrun.outlined hout rfl

end

/-! The lock as a whole. -/

/-- Nothing is open and nobody has a result in hand. -/
structure LockState.Initial (s : LockState) : Prop where
  files : s.files = []
  held : ∀ t, s.held t = none

/-- Callers of either mode, from an initial state. -/
def callers (requests : Tid → Nat → Request) (s : LockState) :
    Pool Tid LockOp LockAns LockTrace Empty :=
  ⟨fun t => client (requests t), ⟨s, []⟩⟩

/-- What holds of the lock in every state that is reached. -/
structure LockSafe (s : LockTrace) : Prop where
  /-- Of two guards of one corpus, one of them exclusive, at most one passes. -/
  exclusive : ∀ t u request request' g h, t ≠ u →
    s.now.held t = some (request, .ok (.isolated g)) →
    s.now.held u = some (request', .ok (.isolated h)) →
    g.mode = .exclusive ∨ h.mode = .exclusive →
    g.target.requestedPath = h.target.requestedPath ∨
      g.target.corpusIdentity = h.target.corpusIdentity →
    ¬ (Passes s.now t g ∧ Passes s.now u h)
  /-- A failed acquisition has nothing open, and so holds no lock. -/
  failed : ∀ t request e, s.now.held t = some (request, .error e) →
    s.now.own t = []
  /-- A lock is waited for, opened or tried only by a thread without one. -/
  lockless : ∀ e ∈ s.past, e.op.Attempts → Lockless (e.before.own e.tid)
  /-- A guard that was returned had been confirmed before the deadline. -/
  confirmed : ∀ later e earlier request guard,
    s.past = later ++ e :: earlier →
    e.op = .returned request (.ok (.isolated guard)) →
    guard.mode = request.mode ∧
      Confirmed e.tid request guard (earlier.filter fun e' => e'.tid = e.tid)

theorem Chronicle.eventOk {later earlier : List LockEvent} {e : LockEvent}
    (h : Chronicle (later ++ e :: earlier)) :
    EventOk e (earlier.filter fun e' => e'.tid = e.tid) := by
  induction later with
  | nil => exact h.1
  | cons _ later ih => exact ih h.2

theorem lockless_of_eventOk {e : LockEvent} {earlier : List LockEvent}
    (h : EventOk e earlier) (hattempts : e.op.Attempts) :
    Lockless (e.before.own e.tid) := by
  unfold EventOk at h
  cases hop : e.op with
  | backoff _ => simpa only [hop] using h
  | openLock _ _ => simpa only [hop] using h
  | flock _ operation =>
      cases operation with
      | nonBlockingLock _ => simpa only [hop] using h
      | unlock =>
          rw [hop] at hattempts
          exact hattempts.elim
  | _ =>
      rw [hop] at hattempts
      exact hattempts.elim

theorem lockFile_mem {s : LockState} {t : Tid} {guard : LockGuard}
    (hown : s.own t = guardFiles t guard) :
    ⟨t, guard.target.lockFd, guard.target.lockIdentity, some guard.mode⟩ ∈
      s.files := by
  have hmem : ⟨t, guard.target.lockFd, guard.target.lockIdentity,
      some guard.mode⟩ ∈ s.own t := by
    rw [hown]
    exact List.mem_cons_self
  exact (LockState.mem_own.mp hmem).1

/-- Two guards whose pinned names lead to one inode do not conflict. -/
theorem LockInv.exclusive {s : LockTrace} (hinv : LockInv s) {t u : Tid}
    {request request' : Request} {g h : LockGuard} (hne : t ≠ u)
    (hg : s.now.held t = some (request, .ok (.isolated g)))
    (hh : s.now.held u = some (request', .ok (.isolated h)))
    (hmode : g.mode = .exclusive ∨ h.mode = .exclusive)
    (hcorpus : g.target.requestedPath = h.target.requestedPath ∨
      g.target.corpusIdentity = h.target.corpusIdentity) :
    ¬ (Passes s.now t g ∧ Passes s.now u h) := by
  rintro ⟨hpassg, hpassh⟩
  have howng := hinv.held t request _ hg
  have hownh := hinv.held u request' _ hh
  obtain ⟨hcanong, hdirg, hentryg⟩ := hpassg.names howng hinv.apart
  obtain ⟨hcanonh, hdirh, hentryh⟩ := hpassh.names hownh hinv.apart
  have hdirectory : g.target.corpusIdentity = h.target.corpusIdentity := by
    rcases hcorpus with hpath | hidentity
    · rw [hpath, hcanonh] at hcanong
      rw [← Option.some.inj hcanong, hdirh] at hdirg
      exact (Option.some.inj hdirg).symm
    · exact hidentity
  have hinode : g.target.lockIdentity = h.target.lockIdentity := by
    rw [hdirectory, hentryh] at hentryg
    exact (Option.some.inj hentryg).symm
  have hfileg := lockFile_mem howng
  have hfileh := lockFile_mem hownh
  have hapart := apart_of_ne hinv.apart hfileg hfileh
    (fun heq => hne (congrArg OpenFile.owner heq))
  have hcompatible := hapart.2 hinode
  rcases hmode with hmode | hmode
  · rw [hmode] at hcompatible
    cases hm : h.mode <;> rw [hm] at hcompatible <;> cases hcompatible
  · rw [hmode] at hcompatible
    cases hm : g.mode <;> rw [hm] at hcompatible <;> cases hcompatible

theorem LockInv.safe {s : LockTrace} (hinv : LockInv s) : LockSafe s where
  exclusive _ _ _ _ _ _ hne hg hh hmode hcorpus :=
    hinv.exclusive hne hg hh hmode hcorpus
  failed t request e hheld := hinv.held t request (.error e) hheld
  lockless e he hattempts := by
    obtain ⟨later, earlier, hpast⟩ := List.append_of_mem he
    have hchronicle := hinv.chronicle
    rw [hpast] at hchronicle
    exact lockless_of_eventOk hchronicle.eventOk hattempts
  confirmed later e earlier request guard hpast hop := by
    have hchronicle := hinv.chronicle
    rw [hpast] at hchronicle
    have hevent := hchronicle.eventOk
    unfold EventOk at hevent
    simpa only [hop] using hevent

theorem lock_mutual_exclusion (requests : Tid → Nat → Request) (s : LockState)
    (hinitial : s.Initial) (pool : Pool Tid LockOp LockAns LockTrace Empty)
    (hsteps : lockInterp.traced.system.Steps (callers requests s) pool) :
    LockSafe pool.state := by
  have hown : ∀ t, s.own t = [] := by
    intro t
    simp [LockState.own, hinitial.files]
  have hinv : LockInv ⟨s, []⟩ := by
    refine ⟨?_, ?_, trivial⟩
    · rw [hinitial.files]
      exact .nil
    · intro t request result hheld
      rw [hinitial.held t] at hheld
      cases hheld
  have houtlined : Outlined lockDiscipline (fun _ _ _ => True)
      (callers requests s) := by
    refine ⟨hinv, fun t => ?_⟩
    exact client_outline ⟨hown t, hinitial.held t, rfl, hinv⟩
  exact (outlined_steps hsteps houtlined).1.safe

namespace LockWitness

def corpus : Path := ⟨true, []⟩

def corpusIdentity : Identity := ⟨1, 1⟩

/-- One corpus directory without a lock file. -/
def start : LockState where
  clock := 0
  realUid := 7
  canonical path := if path = corpus then some corpus else none
  directory path := if path = corpus then some corpusIdentity else none
  lockEntry _ := none
  inode i :=
    { identity := i
      kind := if i = corpusIdentity then .directory else .regular
      mode := 0o600, uid := 7, nlink := 1, size := 0
      modifiedNs := 0, changedNs := 0 }
  files := []
  held _ := none

/-- An undisturbed acquisition through a new lock file. -/
def acquisition (lock : Identity) : List LockChoice :=
  [.ok, .ok, .ok, .opened 1, .ok,
    .ok, .ok, .opened 2, .ok, .ok,
    .created 2 lock, .ok, .ok, .ok, .ok,
    .ok, .ok,
    .ok, .ok, .opened 3, .ok, .ok, .ok, .ok, .ok,
    .ok, .ok]

/-- The adversary unlinks the lock file. -/
def unlink : LockChoice :=
  .rebind start.canonical start.directory (fun _ => none) start.inode 5

/-- Thread 0 takes the lock, its file is unlinked, and thread 1 takes a lock
through a file of its own. -/
def outcome : Option (Pool Tid LockOp LockAns LockTrace Empty) :=
  lockInterp.traced.schedule 4
    ((acquisition ⟨1, 2⟩).map (.thread 0) ++ [.environment unlink] ++
      (acquisition ⟨1, 3⟩).map (.thread 1))
    (callers (fun _ _ => ⟨corpus, .exclusive, 100⟩) start)

/-- The mode and lock inode of the guard in a thread's hands. -/
def guardInHand (s : LockState) (t : Tid) : Option (LockMode × Identity) :=
  match s.held t with
  | some (_, .ok (.isolated guard)) =>
      some (guard.mode, guard.target.lockIdentity)
  | _ => none

theorem lock_mutual_exclusion_unlinked : ∃ pool, outcome = some pool ∧
    guardInHand pool.state.now 0 = some (.exclusive, ⟨1, 2⟩) ∧
    guardInHand pool.state.now 1 = some (.exclusive, ⟨1, 3⟩) ∧
    LockSafe pool.state := by
  have hsome : outcome.isSome := by decide
  obtain ⟨pool, hpool⟩ := Option.isSome_iff_exists.mp hsome
  have hguards : outcome.map (fun pool =>
      (guardInHand pool.state.now 0, guardInHand pool.state.now 1))
      = some (some (.exclusive, ⟨1, 2⟩), some (.exclusive, ⟨1, 3⟩)) := by
    decide
  rw [hpool] at hguards
  have hpair := Option.some.inj hguards
  exact ⟨pool, hpool, congrArg Prod.fst hpair, congrArg Prod.snd hpair,
    lock_mutual_exclusion _ start ⟨rfl, fun _ => rfl⟩ pool
      (schedule_steps hpool)⟩

end LockWitness

end Yams.WikiLock
