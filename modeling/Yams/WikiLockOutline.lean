/-
The outline of the lock.  Every thread knows its own open files and history
exactly, whatever the others and the adversary do; the assertions follow the
two nested retry loops of the acquisition and every exit from them.
-/
import Yams.WikiLockFiles

namespace Yams.WikiLock

/-- The pinned descriptors of a target, with or without a lock on the lock
file. -/
def pinnedFiles (t : Tid) (target : PinnedTarget) (lock : Option LockMode) :
    List OpenFile :=
  [⟨t, target.lockFd, target.lockIdentity, lock⟩,
    ⟨t, target.corpusFd, target.corpusIdentity, none⟩]

/-- The pinned descriptors of a guard, which holds its lock. -/
def guardFiles (t : Tid) (guard : LockGuard) : List OpenFile :=
  pinnedFiles t guard.target (some guard.mode)

/-- The files a thread has open while the result of an acquisition is in its
hands: none after an error, and the pinned descriptors otherwise. -/
def heldFiles (t : Tid) : Except LockError LockLease → List OpenFile
  | .error _ => []
  | .ok (.unisolated evidence) =>
      [⟨t, evidence.corpusFd, evidence.corpusIdentity, none⟩]
  | .ok (.isolated guard) => guardFiles t guard

/-- The lock name still named the pinned inode, read while the lock was held
and before the deadline. -/
def NamedWhileHeld (t : Tid) (guard : LockGuard) (deadline : Duration)
    (e : LockEvent) : Prop :=
  ∃ stat before after,
    e = ⟨t, .statLock guard.target.corpusFd, .ok stat, before, after⟩ ∧
    before.own t = guardFiles t guard ∧
    before.lockEntry guard.target.corpusIdentity
      = some guard.target.lockIdentity ∧
    before.clock < deadline

def LockEvent.IsEnter (e : LockEvent) : Prop := ∃ request, e.op = .enter request

/-- The operations of the acquisition that hands out a guard, the newest first:
it read the clock when it was entered, and saw the name while it held the lock
before the deadline that follows from this reading. -/
def Confirmed (t : Tid) (request : Request) (guard : LockGuard)
    (events : List LockEvent) : Prop :=
  ∃ recent started b₀ a₀ b₁ a₁ older,
    events = recent ++ ⟨t, .now, started, b₀, a₀⟩ ::
      ⟨t, .enter request, (), b₁, a₁⟩ :: older ∧
    (∀ e ∈ recent, ¬ LockEvent.IsEnter e) ∧
    ∃ e ∈ recent,
      NamedWhileHeld t guard (deadlineOf started request.timeout) e

/-- What is claimed of one event and the earlier events of its thread: nobody
waits for, opens or tries a lock while holding one, and a guard is confirmed. -/
def EventOk (e : LockEvent) (earlier : List LockEvent) : Prop :=
  match e.op with
  | .backoff _ | .openLock _ _ | .flock _ (.nonBlockingLock _) =>
      Lockless (e.before.own e.tid)
  | .returned request (.ok (.isolated guard)) =>
      guard.mode = request.mode ∧ Confirmed e.tid request guard earlier
  | _ => True

/-- Every event of a history is as claimed. -/
def Chronicle : List LockEvent → Prop
  | [] => True
  | e :: earlier =>
      EventOk e (earlier.filter fun e' => e'.tid = e.tid) ∧ Chronicle earlier

/-- The open files of a thread are those of the result in its hands. -/
def HeldOk (s : LockState) (t : Tid) : Prop :=
  ∀ request result, s.held t = some (request, result) →
    s.own t = heldFiles t result

/-- What every interleaving keeps. -/
structure LockInv (s : LockTrace) : Prop where
  apart : s.now.files.Pairwise Apart
  held : ∀ t, HeldOk s.now t
  chronicle : Chronicle s.past

/-- What thread `t` may rely on: its own files, result and history are its own,
and the clock does not go back. -/
structure LockRely (t : Tid) (a b : LockTrace) : Prop where
  own : b.now.own t = a.now.own t
  held : b.now.held t = a.now.held t
  events : b.own t = a.own t
  clock : a.now.clock ≤ b.now.clock

theorem lock_env {a b : LockTrace} (hinv : LockInv a)
    (henv : lockInterp.traced.system.env a b) :
    LockInv b ∧ ∀ t, LockRely t a b := by
  obtain ⟨now, past⟩ := b
  obtain ⟨⟨c, hc⟩, hpast⟩ := Interp.env_traced henv
  change disturbLock c a.now = some now at hc
  change past = a.past at hpast
  unfold disturbLock at hc
  split at hc
  · cases hc
    subst hpast
    exact ⟨⟨hinv.apart, hinv.held, hinv.chronicle⟩,
      fun t => ⟨rfl, rfl, rfl, Nat.le_add_right _ _⟩⟩
  · cases hc

def lockDiscipline : Discipline lockInterp.traced.system where
  inv := LockInv
  rely := LockRely
  guar t a b := ∀ u, u ≠ t → LockRely u a b
  rely_refl _ _ := ⟨rfl, rfl, rfl, Nat.le_refl _⟩
  rely_trans := fun hab hbc =>
    ⟨hbc.own.trans hab.own, hbc.held.trans hab.held,
      hbc.events.trans hab.events, Nat.le_trans hab.clock hbc.clock⟩
  compat := fun hne _ _ hguar => hguar _ (Ne.symm hne)
  env := lock_env

/-- What a thread knows of itself between two of its calls. -/
structure View (t : Tid) (files : List OpenFile) (events : List LockEvent)
    (s : LockTrace) : Prop where
  own : s.now.own t = files
  held : s.now.held t = none
  events : s.own t = events
  inv : LockInv s

theorem View.stable {t : Tid} {files : List OpenFile} {events : List LockEvent}
    {a b : LockTrace} (hview : View t files events a) (hrely : LockRely t a b)
    (hinv : LockInv b) : View t files events b :=
  ⟨hrely.own.trans hview.own, hrely.held.trans hview.held,
    hrely.events.trans hview.events, hinv⟩

theorem own_cons (e : LockEvent) (s : LockState) (past : List LockEvent)
    (t : Tid) : (⟨s, e :: past⟩ : LockTrace).own t =
      if e.tid = t then e :: (⟨s, past⟩ : LockTrace).own t
      else (⟨s, past⟩ : LockTrace).own t := by
  simp [Traced.own, List.filter_cons]

/-- The state after one call of thread `t`, in the terms of the discipline. -/
theorem call_disciplined {t : Tid} {a b : LockTrace} {op : LockOp}
    {answer : LockAns op} (hinv : LockInv a)
    (hexec : lockInterp.traced.system.exec t a op answer b)
    (hheld : HeldOk b.now t)
    (hevent : EventOk ⟨t, op, answer, a.now, b.now⟩ (a.own t)) :
    LockInv b ∧ (∀ u, u ≠ t → LockRely u a b) ∧
      b.own t = ⟨t, op, answer, a.now, b.now⟩ :: a.own t ∧
      Effect t (a.now.own t) op answer (b.now.own t) ∧
      Framed t op a.now b.now := by
  obtain ⟨now, past⟩ := b
  obtain ⟨hnow, hpast⟩ := Interp.exec_traced hexec
  change past = ⟨t, op, answer, a.now, now⟩ :: a.past at hpast
  subst hpast
  obtain ⟨heffect, hframe⟩ := exec_effect hnow
  have hevents : (⟨now, ⟨t, op, answer, a.now, now⟩ :: a.past⟩ : LockTrace).own t
      = ⟨t, op, answer, a.now, now⟩ :: a.own t := by
    rw [own_cons, if_pos rfl]
    rfl
  refine ⟨⟨hframe.apart hinv.apart, ?_, hevent, hinv.chronicle⟩, ?_, hevents,
    heffect, hframe⟩
  · intro u
    by_cases hu : u = t
    · rw [hu]
      exact hheld
    · intro request result hresult
      change now.own u = _
      rw [hframe.own u hu]
      exact hinv.held u request result
        (by rw [← hframe.held u (.inl hu)]; exact hresult)
  · intro u hu
    refine ⟨hframe.own u hu, hframe.held u (.inl hu), ?_,
      Nat.le_of_eq hframe.clock.symm⟩
    rw [own_cons, if_neg (Ne.symm hu)]
    rfl

/-- Since the events `events`, thread `t` has made internal calls only. -/
def After (t : Tid) (files : List OpenFile) (events : List LockEvent)
    (s : LockTrace) : Prop :=
  ∃ recent, (∀ e ∈ recent, ¬ LockEvent.IsEnter e) ∧
    View t files (recent ++ events) s

theorem After.stable {t : Tid} {files : List OpenFile} {events : List LockEvent}
    {a b : LockTrace} (h : After t files events a) (hrely : LockRely t a b)
    (hinv : LockInv b) : After t files events b := by
  obtain ⟨recent, hrecent, hview⟩ := h
  exact ⟨recent, hrecent, hview.stable hrely hinv⟩

theorem After.inv {t : Tid} {files : List OpenFile} {events : List LockEvent}
    {s : LockTrace} (h : After t files events s) : LockInv s := by
  obtain ⟨_, _, hview⟩ := h
  exact hview.inv

theorem eventOk_internal {t : Tid} {op : LockOp} {answer : LockAns op}
    {before after : LockState} {earlier : List LockEvent}
    (hinternal : op.Internal) (hfree : op.Attempts → Lockless (before.own t)) :
    EventOk ⟨t, op, answer, before, after⟩ earlier := by
  cases op with
  | backoff _ => exact hfree trivial
  | openLock _ _ => exact hfree trivial
  | flock _ operation =>
      cases operation with
      | nonBlockingLock _ => exact hfree trivial
      | unlock => trivial
  | enter _ => exact hinternal.elim
  | returned _ _ => exact hinternal.elim
  | resume => exact hinternal.elim
  | _ => trivial

section

variable {t : Tid} {files : List OpenFile} {events : List LockEvent}
variable {s : LockTrace} {α β : Type} {ε : Type}

/-- One internal call, with everything that is known after it. -/
theorem call_internal {a b : LockTrace} {op : LockOp} {answer : LockAns op}
    (hinternal : op.Internal) (hview : View t files events a)
    (hfree : op.Attempts → Lockless files)
    (hexec : lockInterp.traced.system.exec t a op answer b) :
    LockInv b ∧ (∀ u, u ≠ t → LockRely u a b) ∧
      ∃ files', Effect t files op answer files' ∧
        View t files' (⟨t, op, answer, a.now, b.now⟩ :: events) b ∧
        a.now.clock = b.now.clock := by
  have hframe := (exec_effect (Interp.exec_traced hexec).1).2
  have hheld : b.now.held t = none :=
    (hframe.held t (.inr hinternal)).trans hview.held
  have hheldOk : HeldOk b.now t := by
    intro request result hresult
    rw [hheld] at hresult
    cases hresult
  have hevent : EventOk ⟨t, op, answer, a.now, b.now⟩ (a.own t) := by
    apply eventOk_internal hinternal
    rw [hview.own]
    exact hfree
  obtain ⟨hinv', hguar, hevents, heffect, _⟩ :=
    call_disciplined hview.inv hexec hheldOk hevent
  rw [hview.own] at heffect
  rw [hview.events] at hevents
  exact ⟨hinv', hguar, _, heffect, ⟨rfl, hheld, hevents, hinv'⟩, hframe.clock.symm⟩

/-- The rule for an internal call, with the states around it. -/
theorem outline_call_exact {op : LockOp}
    {next : LockAns op → Prog LockOp LockAns α}
    {Q : α → LockTrace → Prop} (hinternal : op.Internal)
    (hafter : After t files events s) (hfree : op.Attempts → Lockless files)
    (hnext : ∀ answer a b files' recent,
      lockInterp.system.exec t a.now op answer b.now →
      (∀ e ∈ recent, ¬ LockEvent.IsEnter e) →
      View t files (recent ++ events) a → Effect t files op answer files' →
      View t files' (⟨t, op, answer, a.now, b.now⟩ :: recent ++ events) b →
      a.now.clock = b.now.clock → LockRely t s a →
        Outline lockDiscipline t (next answer) Q b) :
    Outline lockDiscipline t (.call op next) Q s := by
  intro a hrely hinv answer b hexec
  obtain ⟨recent, hrecent, hview⟩ := hafter.stable hrely hinv
  obtain ⟨hinv', hguar, files', heffect, hview', hclock⟩ :=
    call_internal hinternal hview hfree hexec
  exact ⟨hinv', hguar, hnext answer a b files' recent
    (Interp.exec_traced hexec).1 hrecent hview heffect hview' hclock hrely⟩

theorem not_isEnter_cons {op : LockOp} {answer : LockAns op} {a b : LockState}
    {recent : List LockEvent} (hinternal : op.Internal)
    (hrecent : ∀ e ∈ recent, ¬ LockEvent.IsEnter e) :
    ∀ e ∈ (⟨t, op, answer, a, b⟩ : LockEvent) :: recent,
      ¬ LockEvent.IsEnter e := by
  intro e he
  rcases List.mem_cons.mp he with rfl | he
  · rintro ⟨request, rfl⟩
    exact hinternal.elim
  · exact hrecent e he

/-- The rule for an internal call of which only the effect matters. -/
theorem outline_internal {op : LockOp}
    {next : LockAns op → Prog LockOp LockAns α}
    {Q : α → LockTrace → Prop} (hinternal : op.Internal)
    (hafter : After t files events s) (hfree : op.Attempts → Lockless files)
    (hnext : ∀ answer files' s', Effect t files op answer files' →
      After t files' events s' →
        Outline lockDiscipline t (next answer) Q s') :
    Outline lockDiscipline t (.call op next) Q s := by
  refine outline_call_exact hinternal hafter hfree ?_
  intro answer a b files' recent _ hrecent _ heffect hview' _ _
  exact hnext answer files' b heffect
    ⟨_, not_isEnter_cons hinternal hrecent, hview'⟩

/-- The rule for an internal call at the head of a fallible program. -/
theorem outline_sys {op : LockOp}
    {next : LockAns op → Fallible LockOp LockAns ε α}
    {Q : Except ε α → LockTrace → Prop} (hinternal : op.Internal)
    (hafter : After t files events s) (hfree : op.Attempts → Lockless files)
    (hnext : ∀ answer files' s', Effect t files op answer files' →
      After t files' events s' →
        Outline lockDiscipline t (next answer).run Q s') :
    Outline lockDiscipline t (sys op >>= next).run Q s :=
  outline_internal hinternal hafter hfree hnext

/-- The end of a program whose exit assertion is about the thread itself. -/
theorem outline_done {r : α} {Q : α → LockTrace → Prop}
    (hafter : After t files events s)
    (hQ : ∀ s', After t files events s' → Q r s') :
    Outline lockDiscipline t (.ret r) Q s :=
  fun s' hrely hinv => hQ s' (hafter.stable hrely hinv)

/-- The rule for a part whose exit assertion is about the thread itself. -/
theorem outline_part {p : Fallible LockOp LockAns ε α}
    {next : α → Fallible LockOp LockAns ε β} {P : Except ε α → LockTrace → Prop}
    {Q : Except ε β → LockTrace → Prop} (hafter : After t files events s)
    (hp : Outline lockDiscipline t p.run P s)
    (hnext : ∀ r s', P r s' →
      Outline lockDiscipline t (Fallible.follow next r) Q s') :
    Outline lockDiscipline t (p >>= next).run Q s :=
  outline_follow p next hafter.inv
    (outline_mono p.run hp fun r s' _ h => hnext r s' h)

theorem filter_opened {fd : Fd} {i : Identity}
    (hfresh : ∀ f ∈ files, f.fd ≠ fd) :
    ((⟨t, fd, i, none⟩ : OpenFile) :: files).filter (fun f => f.fd ≠ fd)
      = files := by
  simpa using hfresh

/-- A body that runs with one more descriptor, which is closed at its end. -/
theorem outline_closing {fd : Fd} {i : Identity}
    {body : Fallible LockOp LockAns ε α} {Q : Except ε α → LockTrace → Prop}
    (hafter : After t (⟨t, fd, i, none⟩ :: files) events s)
    (hfresh : ∀ f ∈ files, f.fd ≠ fd)
    (hbody : Outline lockDiscipline t body.run
      (fun _ => After t (⟨t, fd, i, none⟩ :: files) events) s)
    (hQ : ∀ r s', After t files events s' → Q r s') :
    Outline lockDiscipline t (closing fd body).run Q s := by
  refine outline_follow _ _ hafter.inv ?_
  rw [Fallible.run_observe]
  refine outline_bind _ _ hafter.inv (outline_mono _ hbody ?_)
  intro r s₁ _ hafter₁
  refine outline_done hafter₁ ?_
  intro s₂ hafter₂
  refine outline_sys trivial hafter₂ False.elim ?_
  intro _ files' s₃ heffect hafter₃
  change files' = _ at heffect
  rw [heffect, filter_opened hfresh] at hafter₃
  exact outline_done hafter₃ (hQ r)

/-- A program may end wherever the files are as they should be. -/
theorem outline_kept {r : α} (hafter : After t files events s) :
    Outline lockDiscipline t (.ret r) (fun _ => After t files events) s :=
  outline_done hafter fun _ h => h

theorem revalidateCorpus_outline {requestedPath corpusPath : Path}
    {corpusFd : Fd} {identity : Identity} (hafter : After t files events s) :
    Outline lockDiscipline t
      (revalidateCorpus requestedPath corpusPath corpusFd identity).run
      (fun _ => After t files events) s := by
  refine outline_sys trivial hafter False.elim ?_
  intro resolved files₁ s₁ heffect hafter₁
  cases resolved with
  | error e =>
      cases heffect
      exact outline_kept hafter₁
  | ok resolved =>
      cases heffect
      dsimp only
      split
      · exact outline_kept hafter₁
      refine outline_sys trivial hafter₁ False.elim ?_
      intro pinned files₂ s₂ heffect hafter₂
      cases pinned with
      | error e =>
          cases heffect
          exact outline_kept hafter₂
      | ok pinned =>
          obtain ⟨rfl, _⟩ := heffect
          dsimp only
          split
          · exact outline_kept hafter₂
          refine outline_sys trivial hafter₂ False.elim ?_
          intro named files₃ s₃ heffect hafter₃
          cases named with
          | error e =>
              cases heffect
              exact outline_kept hafter₃
          | ok named =>
              obtain ⟨i, hfresh, rfl⟩ := heffect
              refine outline_closing hafter₃ hfresh ?_ fun _ _ h => h
              refine outline_sys trivial hafter₃ False.elim ?_
              intro namedStat files₄ s₄ heffect hafter₄
              cases namedStat with
              | error e =>
                  cases heffect
                  exact outline_kept hafter₄
              | ok namedStat =>
                  obtain ⟨rfl, _⟩ := heffect
                  dsimp only
                  split <;> exact outline_kept hafter₄

theorem validateLockDescriptor_outline {fd : Fd} {path : Path}
    (hafter : After t files events s) :
    Outline lockDiscipline t (validateLockDescriptor fd path).run
      (fun r s' => After t files events s' ∧ ∀ stat, r = .ok stat →
        ∃ f ∈ files, f.fd = fd ∧ stat.identity = f.identity) s := by
  refine outline_sys trivial hafter False.elim ?_
  intro stat files₁ s₁ heffect hafter₁
  cases stat with
  | error e =>
      cases heffect
      exact outline_done hafter₁ fun _ h => ⟨h, by simp⟩
  | ok stat =>
      obtain ⟨rfl, hfile⟩ := heffect
      dsimp only
      split
      · exact outline_done hafter₁ fun _ h => ⟨h, by simp⟩
      refine outline_sys trivial hafter₁ False.elim ?_
      intro realUid files₂ s₂ heffect hafter₂
      cases heffect
      split
      · exact outline_done hafter₂ fun _ h => ⟨h, by simp⟩
      split
      · exact outline_done hafter₂ fun _ h => ⟨h, by simp⟩
      · refine outline_done hafter₂ fun _ h => ⟨h, ?_⟩
        intro stat' heq
        cases heq
        exact hfile

theorem waitToRetry_outline {deadline timeout : Duration} {lockPath : Path}
    {mode : LockMode} (hafter : After t files events s)
    (hfree : Lockless files) :
    Outline lockDiscipline t (waitToRetry deadline lockPath mode timeout).run
      (fun _ => After t files events) s := by
  refine outline_sys trivial hafter False.elim ?_
  intro now files₁ s₁ heffect hafter₁
  cases heffect
  split
  · exact outline_kept hafter₁
  refine outline_sys trivial hafter₁ (fun _ => hfree) ?_
  intro _ files₂ s₂ heffect hafter₂
  cases heffect
  refine outline_sys trivial hafter₂ False.elim ?_
  intro now' files₃ s₃ heffect hafter₃
  cases heffect
  split <;> exact outline_kept hafter₃

theorem exec_statLock {a b : LockState} {fd : Fd} {stat : Stat}
    (hexec : lockInterp.system.exec t a (.statLock fd) (.ok stat) b) :
    ∃ dir ∈ a.own t, dir.fd = fd ∧
      a.lockEntry dir.identity = some stat.identity := by
  obtain ⟨c, hc⟩ := hexec
  change answerLock t c a (.statLock fd) = some (.ok stat, b) at hc
  cases c with
  | ok =>
      simp only [answerLock, Option.bind_eq_bind, Option.bind_eq_some_iff] at hc
      obtain ⟨dir, hdir, i, hi, heq⟩ := hc
      cases heq
      obtain ⟨hmem, hfd⟩ := LockState.mem_of_lookup hdir
      exact ⟨dir, hmem, hfd, hi⟩
  | fail e => cases hc
  | _ => cases hc

theorem exec_now {a b : LockState} {reading : Duration}
    (hexec : lockInterp.system.exec t a .now reading b) :
    reading = a.clock := by
  obtain ⟨c, hc⟩ := hexec
  change answerLock t c a .now = some (reading, b) at hc
  cases c with
  | ok =>
      cases hc
      rfl
  | _ => cases hc

/-- The lock is held, and the name was seen since then and before a time. -/
def Granted (t : Tid) (guard : LockGuard) (deadline : Duration)
    (events : List LockEvent) (s : LockTrace) : Prop :=
  ∃ recent, (∀ e ∈ recent, ¬ LockEvent.IsEnter e) ∧
    View t (guardFiles t guard) (recent ++ events) s ∧
    ∃ e ∈ recent, NamedWhileHeld t guard deadline e

/-- The name has been seen while the lock was held, at some time so far. -/
def Seen (t : Tid) (guard : LockGuard) (events : List LockEvent)
    (s : LockTrace) : Prop :=
  Granted t guard (s.now.clock + 1) events s

theorem NamedWhileHeld.later {guard : LockGuard} {d d' : Duration}
    {e : LockEvent} (h : NamedWhileHeld t guard d e) (hd : d ≤ d') :
    NamedWhileHeld t guard d' e := by
  obtain ⟨stat, before, after, he, hown, hentry, hclock⟩ := h
  exact ⟨stat, before, after, he, hown, hentry, Nat.lt_of_lt_of_le hclock hd⟩

theorem Seen.stable {guard : LockGuard} {a b : LockTrace}
    (h : Seen t guard events a) (hrely : LockRely t a b) (hinv : LockInv b) :
    Seen t guard events b := by
  obtain ⟨recent, hrecent, hview, e, he, hnamed⟩ := h
  exact ⟨recent, hrecent, hview.stable hrely hinv, e, he,
    hnamed.later (Nat.succ_le_succ hrely.clock)⟩

theorem Granted.stable {guard : LockGuard} {deadline : Duration}
    {a b : LockTrace} (h : Granted t guard deadline events a)
    (hrely : LockRely t a b) (hinv : LockInv b) :
    Granted t guard deadline events b := by
  obtain ⟨recent, hrecent, hview, hnamed⟩ := h
  exact ⟨recent, hrecent, hview.stable hrely hinv, hnamed⟩

theorem Granted.later {guard : LockGuard} {d d' : Duration}
    (h : Granted t guard d events s) (hd : d ≤ d') :
    Granted t guard d' events s := by
  obtain ⟨recent, hrecent, hview, e, he, hnamed⟩ := h
  exact ⟨recent, hrecent, hview, e, he, hnamed.later hd⟩

theorem Granted.after {guard : LockGuard} {deadline : Duration}
    (h : Granted t guard deadline events s) :
    After t (guardFiles t guard) events s := by
  obtain ⟨recent, hrecent, hview, _⟩ := h
  exact ⟨recent, hrecent, hview⟩

theorem verifyNamedLock_outline {corpusFd : Fd} {path : Path}
    {identity : Identity} (hafter : After t files events s) :
    Outline lockDiscipline t (verifyNamedLock corpusFd path identity).run
      (fun _ => After t files events) s := by
  refine outline_sys trivial hafter False.elim ?_
  intro named files₁ s₁ heffect hafter₁
  cases named with
  | error e =>
      cases heffect
      cases e <;> exact outline_kept hafter₁
  | ok named =>
      cases heffect
      dsimp only
      split <;> exact outline_kept hafter₁

/-- Verifying the name while the lock is held is seeing it. -/
theorem verifyNamedLock_held {guard : LockGuard}
    (hafter : After t (guardFiles t guard) events s) :
    Outline lockDiscipline t
      (verifyNamedLock guard.target.corpusFd guard.target.lockPath
        guard.target.lockIdentity).run
      (fun r s' => After t (guardFiles t guard) events s' ∧
        (r = .ok .current → Seen t guard events s')) s := by
  refine outline_call_exact trivial hafter False.elim ?_
  intro named a b files' recent hexec hrecent hview heffect hview' hclock _
  have hrecent' : ∀ e ∈ (⟨t, .statLock guard.target.corpusFd, named, a.now,
      b.now⟩ : LockEvent) :: recent, ¬ LockEvent.IsEnter e :=
    not_isEnter_cons trivial hrecent
  have hfiles : files' = guardFiles t guard := by
    cases named <;> exact heffect
  rw [hfiles] at hview'
  have hafter' : After t (guardFiles t guard) events b :=
    ⟨_, hrecent', hview'⟩
  cases named with
  | error e =>
      cases e <;> exact outline_done hafter' fun _ h => ⟨h, by simp⟩
  | ok named =>
      change Outline lockDiscipline t (ExceptT.run (if _ then _ else _)) _ b
      split
      · exact outline_done hafter' fun _ h => ⟨h, by simp⟩
      rename_i hidentity
      have hnamed : named.identity = guard.target.lockIdentity :=
        not_not.mp hidentity
      obtain ⟨dir, hdir, hfd, hentry⟩ := exec_statLock hexec
      have hcorpus : ⟨t, guard.target.corpusFd, guard.target.corpusIdentity,
          none⟩ ∈ a.now.own t := by
        rw [hview.own]
        simp [guardFiles, pinnedFiles]
      have hsame := eq_of_apart (hview.inv.apart.filter _) hdir hcorpus
        (LockState.mem_own.mp hdir).2 hfd
      rw [hsame, hnamed] at hentry
      have hseen : Seen t guard events b :=
        ⟨_, hrecent', hview', _, List.mem_cons_self, named, a.now, b.now, rfl,
          hview.own, hentry, Nat.lt_succ_of_le (Nat.le_of_eq hclock)⟩
      intro s' hrely hinv
      exact ⟨hafter'.stable hrely hinv, fun _ => hseen.stable hrely hinv⟩

/-- Revalidating every name while the lock is held includes seeing the name. -/
theorem revalidateTarget_held {guard : LockGuard}
    (hafter : After t (guardFiles t guard) events s) :
    Outline lockDiscipline t (revalidateTarget guard.target).run
      (fun r s' => After t (guardFiles t guard) events s' ∧
        (r = .ok .current → Seen t guard events s')) s := by
  refine outline_part hafter (revalidateCorpus_outline hafter) ?_
  intro binding s₁ hafter₁
  rcases binding with e | (_ | _)
  · exact outline_done hafter₁ fun _ h => ⟨h, by simp⟩
  · refine outline_part hafter₁ (validateLockDescriptor_outline hafter₁) ?_
    rintro (e | stat) s₂ ⟨hafter₂, _⟩
    · exact outline_done hafter₂ fun _ h => ⟨h, by simp⟩
    · change Outline lockDiscipline t (ExceptT.run (if _ then _ else _)) _ s₂
      split
      · exact outline_done hafter₂ fun _ h => ⟨h, by simp⟩
      · exact verifyNamedLock_held hafter₂
  · exact outline_done hafter₁ fun _ h => ⟨h, by simp⟩

theorem revalidateTarget_outline {target : PinnedTarget}
    (hafter : After t files events s) :
    Outline lockDiscipline t (revalidateTarget target).run
      (fun _ => After t files events) s := by
  refine outline_part hafter (revalidateCorpus_outline hafter) ?_
  intro binding s₁ hafter₁
  rcases binding with e | (_ | _)
  · exact outline_kept hafter₁
  · refine outline_part hafter₁ (validateLockDescriptor_outline hafter₁) ?_
    rintro (e | stat) s₂ ⟨hafter₂, _⟩
    · exact outline_kept hafter₂
    · change Outline lockDiscipline t (ExceptT.run (if _ then _ else _)) _ s₂
      split
      · exact outline_kept hafter₂
      · exact verifyNamedLock_outline hafter₂
  · exact outline_kept hafter₁

/-- A clock reading dates everything seen before it. -/
theorem granted_of_reading {guard : LockGuard} {a b : LockTrace}
    {reading : Duration} (hseen : Seen t guard events a)
    (hexec : lockInterp.traced.system.exec t a .now reading b) :
    LockInv b ∧ (∀ u, u ≠ t → LockRely u a b) ∧
      Granted t guard (reading + 1) events b := by
  obtain ⟨recent, hrecent, hview, e, he, hnamed⟩ := hseen
  have hclock : reading = a.now.clock := exec_now (Interp.exec_traced hexec).1
  have hinternal : LockOp.now.Internal := trivial
  obtain ⟨hinv', hguar, files', heffect, hview', _⟩ :=
    call_internal hinternal hview False.elim hexec
  change files' = _ at heffect
  rw [heffect] at hview'
  rw [hclock]
  exact ⟨hinv', hguar, _ :: recent, not_isEnter_cons hinternal hrecent, hview',
    e, List.mem_cons_of_mem _ he, hnamed⟩

theorem lock_ne_corpus {target : PinnedTarget} {lock : Option LockMode}
    (hafter : After t (pinnedFiles t target lock) events s) :
    target.lockFd ≠ target.corpusFd := by
  obtain ⟨recent, _, hview⟩ := hafter
  have hapart : (s.now.own t).Pairwise Apart := hview.inv.apart.filter _
  rw [hview.own] at hapart
  have hpair := List.rel_of_pairwise_cons hapart List.mem_cons_self
  exact hpair.1 rfl

theorem setLock_pinned {target : PinnedTarget} {lock : Option LockMode}
    (hne : target.lockFd ≠ target.corpusFd) (lock' : Option LockMode) :
    setLock target.lockFd lock' (pinnedFiles t target lock)
      = pinnedFiles t target lock' := by
  simp [setLock, pinnedFiles, hne.symm]

theorem unlock_outline {target : PinnedTarget} {lock : Option LockMode}
    (hafter : After t (pinnedFiles t target lock) events s) :
    Outline lockDiscipline t (unlock target).run
      (fun r s' => match r with
        | .ok _ => After t (pinnedFiles t target none) events s'
        | .error _ => After t (pinnedFiles t target lock) events s') s := by
  have hne := lock_ne_corpus hafter
  refine outline_sys trivial hafter False.elim ?_
  intro answer files' s₁ heffect hafter₁
  cases answer with
  | error e =>
      cases heffect
      exact outline_done hafter₁ fun _ h => h
  | ok _ =>
      change files' = _ at heffect
      rw [heffect, setLock_pinned hne] at hafter₁
      exact outline_done hafter₁ fun _ h => h

theorem dropTarget_outline {target : PinnedTarget} {lock : Option LockMode}
    (hafter : After t (pinnedFiles t target lock) events s) :
    Outline lockDiscipline t
      (dropTarget target : Fallible LockOp LockAns ε Unit).run
      (fun r s' => r = .ok () ∧ After t [] events s') s := by
  have hne := lock_ne_corpus hafter
  refine outline_sys trivial hafter False.elim ?_
  intro _ files₁ s₁ heffect hafter₁
  change files₁ = _ at heffect
  have hlock : files₁ = [⟨t, target.lockFd, target.lockIdentity, lock⟩] := by
    rw [heffect]
    simp [pinnedFiles, hne]
  rw [hlock] at hafter₁
  refine outline_internal trivial hafter₁ False.elim ?_
  intro _ files₂ s₂ heffect hafter₂
  change files₂ = _ at heffect
  have hnone : files₂ = [] := by
    rw [heffect]
    simp
  rw [hnone] at hafter₂
  exact outline_done hafter₂ fun _ h => ⟨rfl, h⟩

/-- What an attempt to take the lock leaves: the lock confirmed, or no lock. -/
def AttemptPost (t : Tid) (target : PinnedTarget) (mode : LockMode)
    (deadline : Duration) (events : List LockEvent) :
    Except LockError Attempt → LockTrace → Prop
  | .ok .granted, s => Granted t ⟨target, mode⟩ deadline events s
  | .ok _, s => After t (pinnedFiles t target none) events s
  | .error _, s => ∃ lock, After t (pinnedFiles t target lock) events s

/-- Giving the lock back before going on without it. -/
theorem unlock_then_outline {target : PinnedTarget} {mode : LockMode}
    {deadline : Duration} {lock : Option LockMode} {rest : Unit → LockM Attempt}
    (hafter : After t (pinnedFiles t target lock) events s)
    (hrest : ∀ s', After t (pinnedFiles t target none) events s' →
      Outline lockDiscipline t (rest ()).run
        (AttemptPost t target mode deadline events) s') :
    Outline lockDiscipline t (unlock target >>= rest).run
      (AttemptPost t target mode deadline events) s := by
  refine outline_part hafter (unlock_outline hafter) ?_
  rintro (e | _) s₁ hafter₁
  · exact outline_done hafter₁ fun _ h => ⟨lock, h⟩
  · exact hrest s₁ hafter₁

theorem confirmFlock_outline {target : PinnedTarget} {mode : LockMode}
    {timeout deadline : Duration}
    (hafter : After t (pinnedFiles t target (some mode)) events s) :
    Outline lockDiscipline t (confirmFlock target mode timeout deadline).run
      (AttemptPost t target mode deadline events) s := by
  refine outline_sys trivial hafter False.elim ?_
  intro now files₁ s₁ heffect hafter₁
  cases heffect
  split
  · refine unlock_then_outline hafter₁ fun s₂ hafter₂ => ?_
    exact outline_done hafter₂ fun _ h => ⟨none, h⟩
  have hguard : After t (guardFiles t ⟨target, mode⟩) events s₁ := hafter₁
  refine outline_part hafter₁ (revalidateTarget_held hguard) ?_
  rintro (e | _ | _) s₂ ⟨hafter₂, hseen⟩
  · exact outline_done hafter₂ fun _ h => ⟨_, h⟩
  · intro a hrely hinv reading b hexec
    obtain ⟨hinv', hguar, hgranted⟩ :=
      granted_of_reading ((hseen rfl).stable hrely hinv) hexec
    refine ⟨hinv', hguar, ?_⟩
    change Outline lockDiscipline t (ExceptT.run (if _ then _ else _)) _ b
    split
    · refine unlock_then_outline hgranted.after fun s₃ hafter₃ => ?_
      exact outline_done hafter₃ fun _ h => ⟨none, h⟩
    · rename_i htime
      intro s₃ hrely₃ hinv₃
      exact (hgranted.stable hrely₃ hinv₃).later (Nat.lt_of_not_le htime)
  · exact unlock_then_outline hafter₂ fun s₃ hafter₃ =>
      outline_done hafter₃ fun _ h => h

theorem lockless_pinned (target : PinnedTarget) :
    Lockless (pinnedFiles t target none) := by
  simp [Lockless, pinnedFiles]

theorem flockAttempt_outline {target : PinnedTarget} {mode : LockMode}
    {timeout deadline : Duration}
    (hafter : After t (pinnedFiles t target none) events s) :
    Outline lockDiscipline t (flockAttempt target mode timeout deadline).run
      (AttemptPost t target mode deadline events) s := by
  have hne := lock_ne_corpus hafter
  have hfailed : ∀ {e : LockError} {s'},
      After t (pinnedFiles t target none) events s' →
        Outline lockDiscipline t (.ret (.error e))
          (AttemptPost t target mode deadline events) s' :=
    fun hafter' => outline_done hafter' fun _ h => ⟨none, h⟩
  have hgoes : ∀ {attempt : Attempt} {s'}, attempt ≠ .granted →
      After t (pinnedFiles t target none) events s' →
        Outline lockDiscipline t (.ret (.ok attempt))
          (AttemptPost t target mode deadline events) s' := by
    intro attempt s' hattempt hafter'
    cases attempt with
    | granted => exact absurd rfl hattempt
    | again => exact outline_done hafter' fun _ h => h
    | released => exact outline_done hafter' fun _ h => h
    | stale => exact outline_done hafter' fun _ h => h
  refine outline_sys trivial hafter (fun _ => lockless_pinned target) ?_
  intro answer files₁ s₁ heffect hafter₁
  rcases answer with e | _
  · cases heffect
    cases e with
    | wouldblock =>
        refine outline_part hafter₁
          (waitToRetry_outline hafter₁ (lockless_pinned target)) ?_
        rintro (e | _) s₂ hafter₂
        · exact hfailed hafter₂
        refine outline_part hafter₂ (revalidateTarget_outline hafter₂) ?_
        rintro (e | _ | _) s₃ hafter₃
        · exact hfailed hafter₃
        · refine outline_sys trivial hafter₃ False.elim ?_
          intro now files₄ s₄ heffect hafter₄
          cases heffect
          split
          · exact hfailed hafter₄
          · exact hgoes nofun hafter₄
        · exact hgoes nofun hafter₃
    | intr =>
        refine outline_sys trivial hafter₁ False.elim ?_
        intro now files₂ s₂ heffect hafter₂
        cases heffect
        split
        · exact hfailed hafter₂
        · exact hgoes nofun hafter₂
    | _ => exact hfailed hafter₁
  · change files₁ = _ at heffect
    rw [heffect, setLock_pinned hne] at hafter₁
    exact confirmFlock_outline hafter₁

/-- A body whose error drops what it owns. -/
theorem outline_owning {cleanup : Fallible LockOp LockAns ε Unit}
    {body : Fallible LockOp LockAns ε α} {P Q : Except ε α → LockTrace → Prop}
    (hinv : LockInv s) (hbody : Outline lockDiscipline t body.run P s)
    (hok : ∀ a s', P (.ok a) s' → Outline lockDiscipline t (.ret (.ok a)) Q s')
    (herror : ∀ e s', P (.error e) s' →
      Outline lockDiscipline t (cleanup >>= fun _ => throw e).run Q s') :
    Outline lockDiscipline t (owning cleanup body).run Q s := by
  refine outline_follow _ _ hinv ?_
  rw [Fallible.run_observe]
  refine outline_bind _ _ hinv (outline_mono _ hbody ?_)
  intro r s₁ _ hP s₂ hrely _
  cases r with
  | ok a => exact outline_stable _ (hok a s₁ hP) hrely
  | error e => exact outline_stable _ (herror e s₁ hP) hrely

/-- What one pass of a retry loop leaves: the files of the loop again, or the
exit assertion. -/
def RetryPost {σ τ : Type} (t : Tid) (files : List OpenFile)
    (events : List LockEvent) (Q : Except ε τ → LockTrace → Prop) :
    Except ε (σ ⊕ τ) → LockTrace → Prop
  | .ok (.inl _), s => After t files events s
  | .ok (.inr result), s => Q (.ok result) s
  | .error e, s => Q (.error e) s

/-- An exit assertion about the thread itself. -/
def Stable (t : Tid) (Q : α → LockTrace → Prop) : Prop :=
  ∀ r a b, Q r a → LockRely t a b → LockInv b → Q r b

theorem outline_retry {σ τ : Type} {body : σ → Fallible LockOp LockAns ε (σ ⊕ τ)}
    {state : σ} {Q : Except ε τ → LockTrace → Prop} (hstable : Stable t Q)
    (hafter : After t files events s)
    (hbody : ∀ st s', After t files events s' →
      Outline lockDiscipline t (body st).run (RetryPost t files events Q) s') :
    Outline lockDiscipline t (Fallible.iterate body state).run Q s := by
  refine outline_iterate (fun _ => After t files events) hafter
    (fun _ _ _ h hrely hinv => h.stable hrely hinv) hstable ?_
  intro st s' hinv hafter'
  refine outline_bind _ _ hinv (outline_mono _ (hbody st s' hafter') ?_)
  rintro (e | st' | result) s₁ hinv₁ hpost s₂ hrely hinv₂
  · exact hstable _ _ _ hpost hrely hinv₂
  · exact After.stable hpost hrely hinv₂
  · exact hstable _ _ _ hpost hrely hinv₂

theorem RetryPost.stable {σ τ : Type} {Q : Except ε τ → LockTrace → Prop}
    (hstable : Stable t Q) :
    Stable t (RetryPost t files events Q : Except ε (σ ⊕ τ) → LockTrace → Prop)
      := by
  rintro (e | st | result) a b hpost hrely hinv
  · exact hstable _ _ _ hpost hrely hinv
  · exact After.stable hpost hrely hinv
  · exact hstable _ _ _ hpost hrely hinv

/-- What an acquisition leaves: a confirmed guard, a pinned directory, or
nothing open at all. -/
def LeasePost (t : Tid) (mode : LockMode) (deadline : Duration)
    (events : List LockEvent) : Except LockError LockLease → LockTrace → Prop
  | .ok (.isolated guard), s =>
      guard.mode = mode ∧ Granted t guard deadline events s
  | .ok (.unisolated evidence), s =>
      After t (heldFiles t (.ok (.unisolated evidence))) events s
  | .error _, s => After t [] events s

theorem LeasePost.stable {mode : LockMode} {deadline : Duration} :
    Stable t (LeasePost t mode deadline events) := by
  rintro (e | guard | evidence) a b hpost hrely hinv
  · exact After.stable hpost hrely hinv
  · exact ⟨hpost.1, hpost.2.stable hrely hinv⟩
  · exact After.stable hpost hrely hinv

/-- An attempt whose error has dropped the target. -/
def OwnedPost (t : Tid) (target : PinnedTarget) (mode : LockMode)
    (deadline : Duration) (events : List LockEvent) :
    Except LockError Attempt → LockTrace → Prop
  | .ok attempt, s => AttemptPost t target mode deadline events (.ok attempt) s
  | .error _, s => After t [] events s

theorem AttemptPost.stable {target : PinnedTarget} {mode : LockMode}
    {deadline : Duration} :
    Stable t (AttemptPost t target mode deadline events) := by
  rintro (e | attempt) a b hpost hrely hinv
  · obtain ⟨lock, hafter⟩ := hpost
    exact ⟨lock, hafter.stable hrely hinv⟩
  cases attempt with
  | granted => exact Granted.stable hpost hrely hinv
  | again => exact After.stable hpost hrely hinv
  | released => exact After.stable hpost hrely hinv
  | stale => exact After.stable hpost hrely hinv

theorem ownedAttempt_outline {target : PinnedTarget} {mode : LockMode}
    {timeout deadline : Duration}
    (hafter : After t (pinnedFiles t target none) events s) :
    Outline lockDiscipline t
      (owning (dropTarget target)
        (flockAttempt target mode timeout deadline)).run
      (OwnedPost t target mode deadline events) s := by
  refine outline_owning hafter.inv (flockAttempt_outline hafter) ?_ ?_
  · intro attempt s₁ hpost s₂ hrely hinv
    exact AttemptPost.stable _ _ _ hpost hrely hinv
  · rintro e s₁ ⟨lock, hafter₁⟩
    refine outline_part hafter₁ (dropTarget_outline hafter₁) ?_
    rintro r s₂ ⟨rfl, hafter₂⟩
    exact outline_done hafter₂ fun _ h => h

/-- Dropping the target before going on without it. -/
theorem dropTarget_then_outline {target : PinnedTarget} {lock : Option LockMode}
    {rest : Unit → Fallible LockOp LockAns ε α} {Q : Except ε α → LockTrace → Prop}
    (hafter : After t (pinnedFiles t target lock) events s)
    (hrest : ∀ s', After t [] events s' →
      Outline lockDiscipline t (rest ()).run Q s') :
    Outline lockDiscipline t (dropTarget target >>= rest).run Q s := by
  refine outline_part hafter (dropTarget_outline hafter) ?_
  rintro r s₁ ⟨rfl, hafter₁⟩
  exact hrest s₁ hafter₁

theorem flockPass_outline {target : PinnedTarget} {mode : LockMode}
    {timeout deadline : Duration}
    (hafter : After t (pinnedFiles t target none) events s) :
    Outline lockDiscipline t (flockPass target mode timeout deadline).run
      (RetryPost t (pinnedFiles t target none) events
        (RetryPost t [] events (LeasePost t mode deadline events))) s := by
  refine outline_part hafter (ownedAttempt_outline hafter) ?_
  rintro (e | attempt) s₁ hpost
  · exact outline_done hpost fun _ h => h
  cases attempt with
  | granted =>
      intro s₂ hrely hinv
      exact ⟨rfl, Granted.stable hpost hrely hinv⟩
  | again => exact outline_done hpost fun _ h => h
  | released =>
      refine dropTarget_then_outline hpost fun s₂ hafter₂ => ?_
      refine outline_part hafter₂ (waitToRetry_outline hafter₂ nofun) ?_
      rintro (e | _) s₃ hafter₃ <;> exact outline_done hafter₃ fun _ h => h
  | stale =>
      refine dropTarget_then_outline hpost fun s₂ hafter₂ => ?_
      refine outline_sys trivial hafter₂ False.elim ?_
      intro now files₃ s₃ heffect hafter₃
      cases heffect
      split <;> exact outline_done hafter₃ fun _ h => h

/-! The opening of the directory and of the lock file. -/

/-- What opening the lock file leaves. -/
def OpenPost (t : Tid) (files : List OpenFile) (events : List LockEvent) :
    Except OpenLockError (Fd × Bool) → LockTrace → Prop
  | .ok (fd, _), s => ∃ i, (∀ f ∈ files, f.fd ≠ fd) ∧
      After t (⟨t, fd, i, none⟩ :: files) events s
  | .error _, s => After t files events s

theorem corpusTakesNoWrites_outline {corpusFd : Fd}
    (hafter : After t files events s) :
    Outline lockDiscipline t
      (corpusTakesNoWrites corpusFd : Fallible LockOp LockAns ε Bool).run
      (fun r s' => (∃ b, r = .ok b) ∧ After t files events s') s := by
  refine outline_sys trivial hafter False.elim ?_
  intro named files₁ s₁ heffect hafter₁
  have hfiles : files₁ = files := by
    cases named <;> exact heffect
  rw [hfiles] at hafter₁
  rcases named with e | named
  · cases e with
    | noent =>
        refine outline_sys trivial hafter₁ False.elim ?_
        intro answer files₂ s₂ heffect hafter₂
        cases answer <;> cases heffect <;>
          exact outline_done hafter₂ fun _ h => ⟨⟨_, rfl⟩, h⟩
    | _ => exact outline_done hafter₁ fun _ h => ⟨⟨_, rfl⟩, h⟩
  · exact outline_done hafter₁ fun _ h => ⟨⟨_, rfl⟩, h⟩

theorem classifyLockOpenError_outline {corpusFd : Fd} {error : Errno}
    (hafter : After t files events s) :
    Outline lockDiscipline t
      (classifyLockOpenError corpusFd error :
        Fallible LockOp LockAns OpenLockError (Fd × Bool)).run
      (OpenPost t files events) s := by
  have hcheck : ∀ {e e' : OpenLockError},
      Outline lockDiscipline t
        (corpusTakesNoWrites corpusFd >>= fun refuses =>
          if refuses = true then throw e
          else (throw e' : Fallible LockOp LockAns _ (Fd × Bool))).run
        (OpenPost t files events) s := by
    intro e e'
    refine outline_part hafter (corpusTakesNoWrites_outline hafter) ?_
    rintro r s₁ ⟨⟨refuses, rfl⟩, hafter₁⟩
    cases refuses <;> exact outline_done hafter₁ fun _ h => h
  cases error with
  | rofs => exact hcheck
  | access => exact hcheck
  | perm => exact hcheck
  | _ => exact outline_done hafter fun _ h => h

theorem openLockFile_outline {corpusFd : Fd} (hafter : After t files events s)
    (hfree : Lockless files) :
    Outline lockDiscipline t (openLockFile corpusFd).run
      (OpenPost t files events) s := by
  refine outline_sys trivial hafter (fun _ => hfree) ?_
  intro answer files₁ s₁ heffect hafter₁
  rcases answer with e | fd
  · cases heffect
    cases e with
    | exist =>
        refine outline_sys trivial hafter₁ (fun _ => hfree) ?_
        intro answer files₂ s₂ heffect hafter₂
        rcases answer with e | fd
        · cases heffect
          cases e with
          | noent => exact outline_done hafter₂ fun _ h => h
          | _ => exact classifyLockOpenError_outline hafter₂
        · obtain ⟨i, hfresh, rfl⟩ := heffect
          exact outline_done hafter₂ fun _ h => ⟨i, hfresh, h⟩
    | _ => exact classifyLockOpenError_outline hafter₁
  · obtain ⟨i, hfresh, rfl⟩ := heffect
    exact outline_done hafter₁ fun _ h => ⟨i, hfresh, h⟩

/-- What opening the target leaves, when the directory is open already. -/
def PinPost (t : Tid) (corpusFd : Fd) (corpusIdentity : Identity)
    (events : List LockEvent) : Except LockError OpenTarget → LockTrace → Prop
  | .ok (.isolated target), s => After t (pinnedFiles t target none) events s
  | .ok (.unisolated evidence), s =>
      After t (heldFiles t (.ok (.unisolated evidence))) events s
  | .ok (.rebound _), s => After t [⟨t, corpusFd, corpusIdentity, none⟩] events s
  | .error _, s => After t [⟨t, corpusFd, corpusIdentity, none⟩] events s

theorem restrictNewLock_outline {lockFd : Fd} {lockPath : Path}
    {created : Bool} (hafter : After t files events s) :
    Outline lockDiscipline t (restrictNewLock lockFd lockPath created).run
      (fun _ => After t files events) s := by
  unfold restrictNewLock
  split
  · refine outline_sys trivial hafter False.elim ?_
    intro answer files₁ s₁ heffect hafter₁
    cases answer <;> cases heffect <;> exact outline_kept hafter₁
  · exact outline_kept hafter

theorem pinLock_outline {requestedPath corpusPath lockPath : Path}
    {corpusFd lockFd : Fd} {corpusIdentity i : Identity} {created : Bool}
    (hne : corpusFd ≠ lockFd)
    (hafter : After t
      [⟨t, lockFd, i, none⟩, ⟨t, corpusFd, corpusIdentity, none⟩] events s) :
    Outline lockDiscipline t
      (pinLock requestedPath corpusPath corpusFd corpusIdentity lockPath lockFd
        created).run
      (fun r s' => match r with
        | .ok _ => PinPost t corpusFd corpusIdentity events r s'
        | .error _ => After t
            [⟨t, lockFd, i, none⟩, ⟨t, corpusFd, corpusIdentity, none⟩]
            events s') s := by
  refine outline_part hafter (restrictNewLock_outline hafter) ?_
  rintro (e | _) s₁ hafter₁
  · exact outline_done hafter₁ fun _ h => h
  refine outline_part hafter₁ (validateLockDescriptor_outline hafter₁) ?_
  rintro (e | lockStat) s₂ ⟨hafter₂, hstat⟩
  · exact outline_done hafter₂ fun _ h => h
  obtain ⟨f, hf, hfd, hidentity⟩ := hstat lockStat rfl
  have hlock : lockStat.identity = i := by
    rcases List.mem_cons.mp hf with rfl | hf
    · exact hidentity
    · rw [List.mem_singleton.mp hf] at hfd
      exact absurd hfd hne
  change Outline lockDiscipline t (ExceptT.run (if _ then _ else _)) _ s₂
  split
  · exact outline_done hafter₂ fun _ h => h
  refine outline_part hafter₂ (verifyNamedLock_outline hafter₂) ?_
  rintro (e | _ | _) s₃ hafter₃
  · exact outline_done hafter₃ fun _ h => h
  · refine outline_done hafter₃ fun s₄ hafter₄ => ?_
    change After t [⟨t, lockFd, lockStat.identity, none⟩, _] events s₄
    rw [hlock]
    exact hafter₄
  · refine outline_sys trivial hafter₃ False.elim ?_
    intro _ files₄ s₄ heffect hafter₄
    change files₄ = _ at heffect
    have hfresh : ∀ f ∈ [(⟨t, corpusFd, corpusIdentity, none⟩ : OpenFile)],
        f.fd ≠ lockFd := by
      simpa using hne
    rw [heffect, filter_opened hfresh] at hafter₄
    exact outline_done hafter₄ fun _ h => h

theorem pinCorpus_outline {requestedPath corpusPath : Path} {corpusFd : Fd}
    {corpusIdentity : Identity}
    (hafter : After t [⟨t, corpusFd, corpusIdentity, none⟩] events s) :
    Outline lockDiscipline t
      (pinCorpus requestedPath corpusPath corpusFd corpusIdentity).run
      (PinPost t corpusFd corpusIdentity events) s := by
  have hfree : Lockless [⟨t, corpusFd, corpusIdentity, none⟩] := by
    simp [Lockless]
  refine outline_part hafter (revalidateCorpus_outline hafter) ?_
  rintro (e | _ | _) s₁ hafter₁
  · exact outline_done hafter₁ fun _ h => h
  · refine outline_follow _ _ hafter₁.inv ?_
    rw [Fallible.run_observe]
    refine outline_bind _ _ hafter₁.inv
      (outline_mono _ (openLockFile_outline hafter₁ hfree) ?_)
    rintro (e | ⟨lockFd, created⟩) s₂ _ hpost s₃ hrely₃ hinv₃
    · have hafter₃ : After t [⟨t, corpusFd, corpusIdentity, none⟩] events s₃ :=
        After.stable hpost hrely₃ hinv₃
      cases e with
      | unisolated reason =>
          refine outline_part hafter₃ (revalidateCorpus_outline hafter₃) ?_
          rintro (e | _ | _) s₄ hafter₄ <;>
            exact outline_done hafter₄ fun _ h => h
      | unsafeLock reason => exact outline_done hafter₃ fun _ h => h
      | rebound => exact outline_done hafter₃ fun _ h => h
    · obtain ⟨i, hfresh, hafter₂⟩ := hpost
      have hafter₃ := hafter₂.stable hrely₃ hinv₃
      have hne : corpusFd ≠ lockFd := hfresh _ List.mem_cons_self
      refine outline_owning hinv₃ (pinLock_outline hne hafter₃) ?_ ?_
      · intro target s₄ hpost s₅ hrely₅ hinv₅
        cases target <;> exact After.stable hpost hrely₅ hinv₅
      · intro e s₄ hafter₄
        refine outline_sys trivial hafter₄ False.elim ?_
        intro _ files₅ s₅ heffect hafter₅
        change files₅ = _ at heffect
        rw [heffect, filter_opened hfresh] at hafter₅
        exact outline_done hafter₅ fun _ h => h
  · exact outline_done hafter₁ fun _ h => h

/-- What opening the target leaves. -/
def TargetPost (t : Tid) (events : List LockEvent) :
    Except LockError OpenTarget → LockTrace → Prop
  | .ok (.isolated target), s => After t (pinnedFiles t target none) events s
  | .ok (.unisolated evidence), s =>
      After t (heldFiles t (.ok (.unisolated evidence))) events s
  | .ok (.rebound _), s => After t [] events s
  | .error _, s => After t [] events s

theorem absolutePath_outline {path : Path} (hafter : After t files events s) :
    Outline lockDiscipline t (absolutePath path).run
      (fun _ => After t files events) s := by
  unfold absolutePath
  split
  · exact outline_kept hafter
  · refine outline_sys trivial hafter False.elim ?_
    intro cwd files₁ s₁ heffect hafter₁
    cases cwd <;> cases heffect <;> exact outline_kept hafter₁

theorem inspectCorpus_outline {corpus requestedPath corpusPath : Path}
    {corpusFd : Fd} {i : Identity}
    (hafter : After t [⟨t, corpusFd, i, none⟩] events s) :
    Outline lockDiscipline t
      (inspectCorpus corpus requestedPath corpusPath corpusFd).run
      (PinPost t corpusFd i events) s := by
  refine outline_sys trivial hafter False.elim ?_
  intro corpusStat files₁ s₁ heffect hafter₁
  rcases corpusStat with e | corpusStat
  · cases heffect
    exact outline_done hafter₁ fun _ h => h
  obtain ⟨rfl, f, hf, _, hidentity⟩ := heffect
  rw [List.mem_singleton.mp hf] at hidentity
  change Outline lockDiscipline t (ExceptT.run (if _ then _ else _)) _ s₁
  split
  · exact outline_done hafter₁ fun _ h => h
  · rw [hidentity]
    exact pinCorpus_outline hafter₁

/-- A target whose error has closed the directory. -/
def OwnedTargetPost (t : Tid) (corpusFd : Fd) (corpusIdentity : Identity)
    (events : List LockEvent) : Except LockError OpenTarget → LockTrace → Prop
  | .ok target, s => PinPost t corpusFd corpusIdentity events (.ok target) s
  | .error _, s => After t [] events s

/-- Closing the only descriptor that is left. -/
theorem close_last_outline {fd : Fd} {i : Identity}
    {rest : Unit → Fallible LockOp LockAns ε α} {Q : Except ε α → LockTrace → Prop}
    (hafter : After t [⟨t, fd, i, none⟩] events s)
    (hrest : ∀ s', After t [] events s' →
      Outline lockDiscipline t (rest ()).run Q s') :
    Outline lockDiscipline t (sys (.close fd) >>= rest).run Q s := by
  refine outline_sys trivial hafter False.elim ?_
  intro _ files₁ s₁ heffect hafter₁
  change files₁ = _ at heffect
  rw [heffect, filter_opened (by simp)] at hafter₁
  exact hrest s₁ hafter₁

theorem openTarget_outline {corpus : Path} (hafter : After t [] events s) :
    Outline lockDiscipline t (openTarget corpus).run
      (TargetPost t events) s := by
  refine outline_part hafter (absolutePath_outline hafter) ?_
  rintro (e | requestedPath) s₁ hafter₁
  · exact outline_done hafter₁ fun _ h => h
  refine outline_sys trivial hafter₁ False.elim ?_
  intro resolved files₂ s₂ heffect hafter₂
  rcases resolved with e | corpusPath
  · cases heffect
    exact outline_done hafter₂ fun _ h => h
  cases heffect
  refine outline_sys trivial hafter₂ False.elim ?_
  intro opened files₃ s₃ heffect hafter₃
  rcases opened with e | corpusFd
  · cases heffect
    exact outline_done hafter₃ fun _ h => h
  obtain ⟨i, _, rfl⟩ := heffect
  have howned : Outline lockDiscipline t
      (owning (sys (.close corpusFd))
        (inspectCorpus corpus requestedPath corpusPath corpusFd)).run
      (OwnedTargetPost t corpusFd i events) s₃ := by
    refine outline_owning hafter₃.inv (inspectCorpus_outline hafter₃) ?_ ?_
    · intro target s₄ hpost s₅ hrely hinv
      cases target <;> exact After.stable hpost hrely hinv
    · intro e s₄ hafter₄
      exact close_last_outline hafter₄ fun _ hafter₅ =>
        outline_done hafter₅ fun _ h => h
  refine outline_part hafter₃ howned ?_
  rintro (e | target) s₄ hpost
  · exact outline_done hpost fun _ h => h
  cases target with
  | isolated target => exact outline_done hpost fun _ h => h
  | unisolated evidence => exact outline_done hpost fun _ h => h
  | rebound lockPath =>
      exact close_last_outline hpost fun _ hafter₅ =>
        outline_done hafter₅ fun _ h => h

theorem acquirePass_outline {request : Request} {deadline : Duration}
    (hafter : After t [] events s) :
    Outline lockDiscipline t (acquirePass request deadline).run
      (RetryPost t [] events
        (LeasePost t request.mode deadline events)) s := by
  refine outline_part hafter (openTarget_outline hafter) ?_
  rintro (e | target) s₁ hpost
  · exact outline_done hpost fun _ h => h
  cases target with
  | isolated target =>
      exact outline_retry (RetryPost.stable LeasePost.stable) hpost
        fun _ _ hafter₂ => flockPass_outline hafter₂
  | unisolated evidence => exact outline_done hpost fun _ h => h
  | rebound lockPath =>
      refine outline_part hpost (waitToRetry_outline hpost nofun) ?_
      rintro (e | _) s₂ hafter₂ <;> exact outline_done hafter₂ fun _ h => h

/-- An acquisition is ready to return a result. -/
def ReturnReady (t : Tid) (request : Request)
    (result : Except LockError LockLease) (s : LockTrace) : Prop :=
  ∃ events, View t (heldFiles t result) events s ∧
    ∀ guard, result = .ok (.isolated guard) →
      guard.mode = request.mode ∧ Confirmed t request guard events

theorem ReturnReady.stable {request : Request} :
    Stable t (ReturnReady t request) := by
  rintro result a b ⟨events, hview, hguard⟩ hrely hinv
  exact ⟨events, hview.stable hrely hinv, hguard⟩

theorem acquireWithRuntime_outline {request : Request} {b₁ a₁ : LockState}
    {older : List LockEvent}
    (hview : View t [] (⟨t, .enter request, (), b₁, a₁⟩ :: older) s) :
    Outline lockDiscipline t (acquireWithRuntime request).run
      (ReturnReady t request) s := by
  intro a hrely hinv started b hexec
  have hinternal : LockOp.now.Internal := trivial
  obtain ⟨hinv', hguar, files', heffect, hview', _⟩ :=
    call_internal hinternal (hview.stable hrely hinv) False.elim hexec
  refine ⟨hinv', hguar, ?_⟩
  change files' = _ at heffect
  rw [heffect] at hview'
  have hafter : After t [] (⟨t, .now, started, a.now, b.now⟩ ::
      ⟨t, .enter request, (), b₁, a₁⟩ :: older) b :=
    ⟨[], by simp, hview'⟩
  refine outline_mono _ (outline_retry LeasePost.stable hafter
    fun _ _ hafter' => acquirePass_outline hafter') ?_
  rintro (e | guard | evidence) s' _ hpost
  · obtain ⟨recent, _, hview₁⟩ := hpost
    exact ⟨_, hview₁, nofun⟩
  · obtain ⟨hmode, recent, hrecent, hview₁, hnamed⟩ := hpost
    refine ⟨_, hview₁, ?_⟩
    rintro guard' heq
    cases heq
    exact ⟨hmode, recent, started, _, _, _, _, _, rfl, hrecent, hnamed⟩
  · obtain ⟨recent, _, hview₁⟩ := hpost
    exact ⟨_, hview₁, nofun⟩

/-- The result of an acquisition is in the hands of thread `t`. -/
structure InHand (t : Tid) (request : Request)
    (result : Except LockError LockLease) (s : LockTrace) : Prop where
  held : s.now.held t = some (request, result)
  inv : LockInv s

theorem InHand.stable {request : Request} {result : Except LockError LockLease}
    {a b : LockTrace} (h : InHand t request result a) (hrely : LockRely t a b)
    (hinv : LockInv b) : InHand t request result b :=
  ⟨hrely.held.trans h.held, hinv⟩

theorem exec_held {a b : LockState} {op : LockOp} {answer : LockAns op}
    (hexec : lockInterp.system.exec t a op answer b) :
    match op with
    | .enter _ => b.held t = a.held t
    | .returned request result => b.held t = some (request, result)
    | .resume => b.held t = none
    | _ => True := by
  obtain ⟨c, hc⟩ := hexec
  change answerLock t c a op = some (answer, b) at hc
  cases op with
  | enter request =>
      cases c <;> cases hc
      rfl
  | returned request result =>
      cases c <;> cases hc
      exact Function.update_self _ _ _
  | resume =>
      cases c <;> cases hc
      exact Function.update_self _ _ _
  | _ => trivial

/-- The caller receives a result that is ready. -/
theorem outline_returned {request : Request}
    {result : Except LockError LockLease} {next : Unit → Prog LockOp LockAns α}
    {Q : α → LockTrace → Prop} (hready : ReturnReady t request result s)
    (hnext : ∀ s', InHand t request result s' →
      Outline lockDiscipline t (next ()) Q s') :
    Outline lockDiscipline t (.call (.returned request result) next) Q s := by
  intro a hrely hinv answer b hexec
  obtain ⟨events, hview, hguard⟩ := ReturnReady.stable _ _ _ hready hrely hinv
  have hnow := (Interp.exec_traced hexec).1
  have heffect := (exec_effect hnow).1
  have hheld : b.now.held t = some (request, result) := exec_held hnow
  have hheldOk : HeldOk b.now t := by
    intro request' result' hresult
    rw [hheld] at hresult
    cases hresult
    exact heffect.trans hview.own
  have hevent : EventOk ⟨t, .returned request result, answer, a.now, b.now⟩
      (a.own t) := by
    rw [hview.events]
    rcases result with e | guard | evidence
    · trivial
    · exact hguard guard rfl
    · trivial
  obtain ⟨hinv', hguar, _⟩ := call_disciplined hinv hexec hheldOk hevent
  exact ⟨hinv', hguar, hnext b ⟨hheld, hinv'⟩⟩

/-- The caller goes on to drop the result. -/
theorem outline_resume {request : Request}
    {result : Except LockError LockLease} {next : Unit → Prog LockOp LockAns α}
    {Q : α → LockTrace → Prop} (hhand : InHand t request result s)
    (hnext : ∀ s', (∃ events, View t (heldFiles t result) events s') →
      Outline lockDiscipline t (next ()) Q s') :
    Outline lockDiscipline t (.call .resume next) Q s := by
  intro a hrely hinv answer b hexec
  have hhand' := hhand.stable hrely hinv
  have hnow := (Interp.exec_traced hexec).1
  have heffect := (exec_effect hnow).1
  have hheld : b.now.held t = none := exec_held hnow
  have hheldOk : HeldOk b.now t := by
    intro request' result' hresult
    rw [hheld] at hresult
    cases hresult
  obtain ⟨hinv', hguar, hevents, _⟩ :=
    call_disciplined hinv hexec hheldOk trivial
  have hown := heffect.trans (hinv.held t request result hhand'.held)
  exact ⟨hinv', hguar, hnext b ⟨_, hown, hheld, hevents, hinv'⟩⟩

/-- The caller enters an acquisition with nothing open. -/
theorem outline_enter {request : Request} {events : List LockEvent}
    {next : Unit → Prog LockOp LockAns α} {Q : α → LockTrace → Prop}
    (hview : View t [] events s)
    (hnext : ∀ b₁ a₁ s',
      View t [] (⟨t, .enter request, (), b₁, a₁⟩ :: events) s' →
        Outline lockDiscipline t (next ()) Q s') :
    Outline lockDiscipline t (.call (.enter request) next) Q s := by
  intro a hrely hinv answer b hexec
  have hview' := hview.stable hrely hinv
  have hnow := (Interp.exec_traced hexec).1
  have heffect := (exec_effect hnow).1
  have hheld : b.now.held t = none :=
    Eq.trans (exec_held hnow) hview'.held
  have hheldOk : HeldOk b.now t := by
    intro request' result' hresult
    rw [hheld] at hresult
    cases hresult
  obtain ⟨hinv', hguar, hevents, _⟩ :=
    call_disciplined hinv hexec hheldOk trivial
  refine ⟨hinv', hguar, hnext a.now b.now b ⟨?_, hheld, ?_, hinv'⟩⟩
  · exact Eq.trans heffect hview'.own
  · rw [hevents, hview'.events]

theorem dropGuard_outline {guard : LockGuard}
    (hafter : After t (guardFiles t guard) events s) :
    Outline lockDiscipline t
      (dropGuard guard : Fallible LockOp LockAns ε Unit).run
      (fun _ => After t [] events) s := by
  have hne := lock_ne_corpus hafter
  refine outline_sys trivial hafter False.elim ?_
  intro answer files₁ s₁ heffect hafter₁
  have hpinned : ∃ lock, files₁ = pinnedFiles t guard.target lock := by
    rcases answer with e | _
    · exact ⟨_, heffect⟩
    · exact ⟨none, Eq.trans heffect (setLock_pinned hne none)⟩
  obtain ⟨lock, rfl⟩ := hpinned
  exact outline_mono _ (dropTarget_outline hafter₁) fun _ _ _ h => h.2

/-- A caller keeps to the discipline for the rest of its life. -/
theorem client_outline {requests : Nat → Request}
    {Q : Empty → LockTrace → Prop} (hview : View t [] events s) :
    Outline lockDiscipline t (client requests) Q s := by
  refine outline_iterate (fun _ s' => ∃ events', View t [] events' s')
    ⟨events, hview⟩ ?_ nofun ?_
  · rintro _ a b ⟨events', hview'⟩ hrely hinv
    exact ⟨events', hview'.stable hrely hinv⟩
  rintro turn s₀ hinv₀ ⟨events₀, hview₀⟩
  refine outline_enter hview₀ fun b₁ a₁ s₁ hview₁ => ?_
  refine outline_bind (acquireWithRuntime (requests turn)).run _ hview₁.inv
    (outline_mono _ (acquireWithRuntime_outline hview₁) ?_)
  intro result s₂ _ hready
  refine outline_returned hready fun s₃ hhand => ?_
  refine outline_resume hhand fun s₄ hheld => ?_
  obtain ⟨events₄, hview₄⟩ := hheld
  have hafter₄ : After t (heldFiles t result) events₄ s₄ :=
    ⟨[], by simp, hview₄⟩
  have hagain : ∀ {s'}, After t [] events₄ s' → Outline lockDiscipline t
      (.ret (.inl (turn + 1)) : Prog LockOp LockAns (Nat ⊕ Empty))
      (PassPost (fun _ s' => ∃ events', View t [] events' s') Q) s' := by
    intro s' hafter'
    refine outline_done hafter' fun s'' hafter'' => ?_
    obtain ⟨recent, _, hview''⟩ := hafter''
    exact ⟨_, hview''⟩
  rcases result with e | guard | evidence
  · exact hagain hafter₄
  · exact outline_bind (dropGuard guard : LockM Unit).run _ hafter₄.inv
      (outline_mono _ (dropGuard_outline hafter₄) fun _ _ _ h => hagain h)
  · refine outline_internal trivial hafter₄ False.elim ?_
    intro _ files₅ s₅ heffect hafter₅
    change files₅ = _ at heffect
    rw [heffect] at hafter₅
    exact hagain (by simpa [heldFiles] using hafter₅)

end

end Yams.WikiLock
