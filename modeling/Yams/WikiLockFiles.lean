/-
The open files of the lock's callers.  One lemma says what any single call does
to the files of its own thread and what it leaves alone; open files stay apart
and never hold conflicting locks.
-/
import Yams.WikiLock

namespace Yams.WikiLock

abbrev LockEvent := Event Tid LockOp LockAns LockState

abbrev LockTrace := Traced Tid LockOp LockAns LockState

/-- No file in the list holds a lock. -/
def Lockless (files : List OpenFile) : Prop := ∀ f ∈ files, f.flock = none

/-- The lock of one descriptor replaced, in the files of one thread. -/
def setLock (fd : Fd) (lock : Option LockMode) (files : List OpenFile) :
    List OpenFile :=
  files.map fun f => if f.fd = fd then { f with flock := lock } else f

/-- Two descriptions of one inode do not hold conflicting locks. -/
def Agree (f g : OpenFile) : Prop :=
  f.identity = g.identity → LockMode.compatible f.flock g.flock = true

theorem compatible_symm (a b : Option LockMode) :
    LockMode.compatible a b = LockMode.compatible b a := by
  rcases a with _ | (_ | _) <;> rcases b with _ | (_ | _) <;> rfl

theorem Agree.symm {f g : OpenFile} (h : Agree f g) : Agree g f := by
  intro heq
  rw [compatible_symm]
  exact h heq.symm

theorem agree_of_lockless {f : OpenFile} (hf : f.flock = none) (g : OpenFile) :
    Agree f g := by
  intro _
  rw [hf]
  rfl

namespace LockState

variable {s : LockState} {t u : Tid} {fd : Fd}

theorem mem_own {f : OpenFile} : f ∈ s.own t ↔ f ∈ s.files ∧ f.owner = t := by
  simp [own]

theorem own_setFlock_self (lock : Option LockMode) :
    (s.setFlock t fd lock).own t = setLock fd lock (s.own t) := by
  unfold own setFlock setLock
  induction s.files with
  | nil => rfl
  | cons f files ih =>
      by_cases howner : f.owner = t <;> by_cases hfd : f.fd = fd <;>
        simp_all

theorem own_setFlock_of_ne (lock : Option LockMode) (hne : u ≠ t) :
    (s.setFlock t fd lock).own u = s.own u := by
  unfold own setFlock
  induction s.files with
  | nil => rfl
  | cons f files ih =>
      by_cases hmine : f.owner = t ∧ f.fd = fd
      · have hother : f.owner ≠ u := by
          rw [hmine.1]
          exact hne.symm
        simp_all
      · simp only [List.map_cons, if_neg hmine, List.filter_cons]
        split
        · rw [ih]
        · exact ih

theorem own_closeFd_self :
    (s.closeFd t fd).own t = (s.own t).filter fun f => f.fd ≠ fd := by
  unfold own closeFd
  simp only [List.filter_filter]
  apply List.filter_congr
  intro f _
  by_cases howner : f.owner = t <;> simp [howner]

theorem own_closeFd_of_ne (hne : u ≠ t) : (s.closeFd t fd).own u = s.own u := by
  unfold own closeFd
  simp only [List.filter_filter]
  apply List.filter_congr
  intro f _
  by_cases howner : f.owner = u
  · have hother : f.owner ≠ t := by
      rw [howner]
      exact hne
    simp [howner, hne]
  · simp [howner]

theorem openAs_eq_some {i : Identity} {s' : LockState}
    (h : s.openAs t fd i = some s') :
    (∀ f ∈ s.own t, f.fd ≠ fd) ∧
      s' = { s with files := ⟨t, fd, i, none⟩ :: s.files } := by
  unfold openAs at h
  split at h
  · rename_i hfresh
    cases h
    exact ⟨by simpa using hfresh, rfl⟩
  · cases h

theorem mem_of_lookup {f : OpenFile} (h : s.lookup t fd = some f) :
    f ∈ s.own t ∧ f.fd = fd := by
  unfold lookup at h
  exact ⟨List.mem_of_find?_eq_some h, by simpa using List.find?_some h⟩

end LockState

/-- Two open files differ in owner or number, and agree on their locks. -/
def Apart (f g : OpenFile) : Prop :=
  (f.owner = g.owner → f.fd ≠ g.fd) ∧ Agree f g

theorem Apart.symm {f g : OpenFile} (h : Apart f g) : Apart g f :=
  ⟨fun howner hfd => h.1 howner.symm hfd.symm, h.2.symm⟩

/-- Owner and number determine an open file. -/
theorem eq_of_apart {files : List OpenFile} (hapart : files.Pairwise Apart)
    {f g : OpenFile} (hf : f ∈ files) (hg : g ∈ files)
    (howner : f.owner = g.owner) (hfd : f.fd = g.fd) : f = g := by
  have hkeyed : files.Pairwise fun f g =>
      f.owner = g.owner → f.fd = g.fd → f = g :=
    hapart.imp fun h howner hfd => absurd hfd (h.1 howner)
  have hflipped : files.Pairwise (flip fun f g =>
      f.owner = g.owner → f.fd = g.fd → f = g) :=
    hapart.imp fun h howner hfd => absurd hfd.symm (h.1 howner.symm)
  exact List.Pairwise.forall_of_forall_of_flip (fun _ _ _ _ => rfl)
    hkeyed hflipped hf hg howner hfd

/-- Different open files are apart, in either order. -/
theorem apart_of_ne {files : List OpenFile} (hapart : files.Pairwise Apart)
    {f g : OpenFile} (hf : f ∈ files) (hg : g ∈ files) (hne : f ≠ g) :
    Apart f g := by
  have hkeyed : files.Pairwise fun f g => f ≠ g → Apart f g :=
    hapart.imp (S := fun f g => f ≠ g → Apart f g) fun h _ => h
  have hflipped : files.Pairwise (flip fun f g => f ≠ g → Apart f g) :=
    hapart.imp (S := flip fun f g => f ≠ g → Apart f g) fun h _ => h.symm
  exact List.Pairwise.forall_of_forall_of_flip
    (fun _ _ h => absurd rfl h) hkeyed hflipped hf hg hne

/-- Setting the lock of one description keeps the files apart when the new lock
is compatible with every other description of the inode. -/
theorem apart_setFlock {s : LockState} {t : Tid} {fd : Fd}
    {lock : Option LockMode} (hapart : s.files.Pairwise Apart)
    (hgrant : ∀ file ∈ s.files, file.owner = t → file.fd = fd →
      ∀ f ∈ s.files, f.owner = t ∧ f.fd = fd ∨
        f.identity ≠ file.identity ∨ LockMode.compatible f.flock lock = true) :
    (s.setFlock t fd lock).files.Pairwise Apart := by
  have hagree : ∀ file ∈ s.files, file.owner = t → file.fd = fd →
      ∀ f ∈ s.files, ¬ (f.owner = t ∧ f.fd = fd) →
        Agree { file with flock := lock } f := by
    intro file hfile howner hfd f hf hother hidentity
    rcases hgrant file hfile howner hfd f hf with hmine | hne | hcompatible
    · exact absurd hmine hother
    · exact absurd hidentity.symm hne
    · rw [compatible_symm]
      exact hcompatible
  unfold LockState.setFlock
  rw [List.pairwise_map]
  refine hapart.imp_of_mem ?_
  intro f g hf hg hfg
  by_cases hfmine : f.owner = t ∧ f.fd = fd <;>
    by_cases hgmine : g.owner = t ∧ g.fd = fd
  · exact absurd (hfmine.2.trans hgmine.2.symm)
      (hfg.1 (hfmine.1.trans hgmine.1.symm))
  · rw [if_pos hfmine, if_neg hgmine]
    exact ⟨hfg.1, hagree f hf hfmine.1 hfmine.2 g hg hgmine⟩
  · rw [if_neg hfmine, if_pos hgmine]
    exact ⟨hfg.1, (hagree g hg hgmine.1 hgmine.2 f hf hfmine).symm⟩
  · rw [if_neg hfmine, if_neg hgmine]
    exact hfg

theorem apart_closeFd {s : LockState} (t : Tid) (fd : Fd)
    (hapart : s.files.Pairwise Apart) :
    (s.closeFd t fd).files.Pairwise Apart :=
  hapart.filter _

theorem apart_openAs {s s' : LockState} {t : Tid} {fd : Fd} {i : Identity}
    (h : s.openAs t fd i = some s') (hapart : s.files.Pairwise Apart) :
    s'.files.Pairwise Apart := by
  obtain ⟨hfresh, rfl⟩ := LockState.openAs_eq_some h
  refine List.pairwise_cons.mpr ⟨?_, hapart⟩
  intro f hf
  refine ⟨?_, agree_of_lockless rfl f⟩
  intro howner hfd
  exact hfresh f (LockState.mem_own.mpr ⟨hf, howner.symm⟩) hfd.symm

/-- The operations of an acquisition, as opposed to those of its caller. -/
def LockOp.Internal : LockOp → Prop
  | .enter _ | .returned _ _ | .resume => False
  | _ => True

/-- The operations that wait for, open or try a lock. -/
def LockOp.Attempts : LockOp → Prop
  | .backoff _ | .openLock _ _ | .flock _ (.nonBlockingLock _) => True
  | _ => False

/-- What a call does to the open files of its own thread. -/
def Effect (t : Tid) (files : List OpenFile) :
    (op : LockOp) → LockAns op → List OpenFile → Prop
  | .openDirectory _, .ok fd, files' =>
      ∃ i, (∀ f ∈ files, f.fd ≠ fd) ∧ files' = ⟨t, fd, i, none⟩ :: files
  | .openLock _ _, .ok fd, files' =>
      ∃ i, (∀ f ∈ files, f.fd ≠ fd) ∧ files' = ⟨t, fd, i, none⟩ :: files
  | .fstat fd, .ok stat, files' =>
      files' = files ∧ ∃ f ∈ files, f.fd = fd ∧ stat.identity = f.identity
  | .flock fd (.nonBlockingLock mode), .ok _, files' =>
      files' = setLock fd (some mode) files
  | .flock fd .unlock, .ok _, files' => files' = setLock fd none files
  | .close fd, _, files' => files' = files.filter fun f => f.fd ≠ fd
  | _, _, files' => files' = files

/-- The names that the adversary controls. -/
def LockState.names (s : LockState) :
    (Path → Option Path) × (Path → Option Identity) ×
      (Identity → Option Identity) :=
  (s.canonical, s.directory, s.lockEntry)

/-- What a call leaves alone. -/
structure Framed (t : Tid) (op : LockOp) (s s' : LockState) : Prop where
  own : ∀ u, u ≠ t → s'.own u = s.own u
  held : ∀ u, u ≠ t ∨ op.Internal → s'.held u = s.held u
  names : (∀ fd flags, op ≠ .openLock fd flags) → s'.names = s.names
  clock : s'.clock = s.clock
  apart : s.files.Pairwise Apart → s'.files.Pairwise Apart

theorem Framed.refl (t : Tid) (op : LockOp) (s : LockState) :
    Framed t op s s :=
  ⟨fun _ _ => rfl, fun _ _ => rfl, fun _ => rfl, rfl, id⟩

theorem framed_openAs {s s' : LockState} {t : Tid} {fd : Fd} {i : Identity}
    (op : LockOp) (h : s.openAs t fd i = some s') : Framed t op s s' := by
  have hapart := fun hfiles => apart_openAs h hfiles
  obtain ⟨_, rfl⟩ := LockState.openAs_eq_some h
  refine ⟨?_, fun _ _ => rfl, fun _ => rfl, rfl, hapart⟩
  intro u hu
  simp [LockState.own, Ne.symm hu]

theorem effect_openAs {s s' : LockState} {t : Tid} {fd : Fd} {i : Identity}
    (h : s.openAs t fd i = some s') :
    (∀ f ∈ s.own t, f.fd ≠ fd) ∧ s'.own t = ⟨t, fd, i, none⟩ :: s.own t := by
  obtain ⟨hfresh, rfl⟩ := LockState.openAs_eq_some h
  refine ⟨hfresh, ?_⟩
  simp [LockState.own]

theorem framed_setFlock {s : LockState} {t : Tid} {fd : Fd}
    {lock : Option LockMode} {op : LockOp}
    (h : s.files.Pairwise Apart →
      (s.setFlock t fd lock).files.Pairwise Apart) :
    Framed t op s (s.setFlock t fd lock) :=
  ⟨fun _ hu => LockState.own_setFlock_of_ne lock hu, fun _ _ => rfl,
    fun _ => rfl, rfl, h⟩

/-- One lemma about all calls: their effect on the caller's own files, and what
they leave alone. -/
theorem exec_effect {t : Tid} {s s' : LockState} {op : LockOp}
    {answer : LockAns op}
    (hexec : lockInterp.system.exec t s op answer s') :
    Effect t (s.own t) op answer (s'.own t) ∧ Framed t op s s' := by
  obtain ⟨c, hc⟩ := hexec
  change answerLock t c s op = some (answer, s') at hc
  unfold answerLock at hc
  split at hc
  case h_6 =>
      obtain ⟨_, _, heq⟩ := Option.map_eq_some_iff.mp hc
      cases heq
      exact ⟨rfl, Framed.refl t _ s⟩
  case h_8 =>
      simp only [Option.bind_eq_bind, Option.bind_eq_some_iff] at hc
      obtain ⟨i, _, s₁, hopen, heq⟩ := hc
      cases heq
      exact ⟨⟨i, effect_openAs hopen⟩, framed_openAs _ hopen⟩
  case h_10 =>
      obtain ⟨file, hfile, heq⟩ := Option.map_eq_some_iff.mp hc
      cases heq
      obtain ⟨hmem, hfd⟩ := LockState.mem_of_lookup hfile
      exact ⟨⟨rfl, file, hmem, hfd, rfl⟩, Framed.refl t _ s⟩
  case h_12 =>
      simp only [Option.bind_eq_bind, Option.bind_eq_some_iff] at hc
      obtain ⟨dir, _, hc⟩ := hc
      split at hc
      · simp only [Option.bind_eq_some_iff] at hc
        obtain ⟨s₁, hopen, heq⟩ := hc
        cases heq
        have heffect := effect_openAs hopen
        have hframe := fun op => framed_openAs op hopen
        exact ⟨⟨_, heffect⟩, (hframe .now).own, (hframe _).held,
          fun hop => absurd rfl (hop _ _), (hframe .now).clock,
          (hframe .now).apart⟩
      · cases hc
  case h_13 =>
      simp only [Option.bind_eq_bind, Option.bind_eq_some_iff] at hc
      obtain ⟨dir, _, i, _, s₁, hopen, heq⟩ := hc
      cases heq
      exact ⟨⟨i, effect_openAs hopen⟩, framed_openAs _ hopen⟩
  case h_15 =>
      obtain ⟨file, _, heq⟩ := Option.map_eq_some_iff.mp hc
      cases heq
      exact ⟨rfl, fun _ _ => rfl, fun _ _ => rfl, fun _ => rfl, rfl, id⟩
  case h_17 =>
      simp only [Option.bind_eq_bind, Option.bind_eq_some_iff] at hc
      obtain ⟨dir, _, i, _, heq⟩ := hc
      cases heq
      exact ⟨rfl, Framed.refl t _ s⟩
  case h_21 mode =>
      simp only [Option.bind_eq_bind, Option.bind_eq_some_iff] at hc
      obtain ⟨file, hfile, hc⟩ := hc
      split at hc
      · rename_i hgrant
        cases hc
        refine ⟨LockState.own_setFlock_self _, framed_setFlock fun hfiles => ?_⟩
        refine apart_setFlock hfiles ?_
        intro g hg howner hfd f hf
        obtain ⟨hmem, hfilefd⟩ := LockState.mem_of_lookup hfile
        obtain ⟨hfilemem, hfileowner⟩ := LockState.mem_own.mp hmem
        have hsame : g = file := eq_of_apart hfiles hg hfilemem
          (howner.trans hfileowner.symm) (hfd.trans hfilefd.symm)
        have hallowed := List.all_eq_true.mp hgrant f hf
        subst hsame
        rw [← hfd]
        simpa [or_assoc] using hallowed
      · cases hc
  case h_22 =>
      cases hc
      refine ⟨LockState.own_setFlock_self _, framed_setFlock fun hfiles => ?_⟩
      refine apart_setFlock hfiles ?_
      intro g _ _ _ f _
      right
      right
      cases f.flock <;> rfl
  case h_23 operation =>
      cases hc
      cases operation <;> exact ⟨rfl, Framed.refl t _ s⟩
  case h_24 fd =>
      cases hc
      exact ⟨LockState.own_closeFd_self,
        fun _ hu => LockState.own_closeFd_of_ne hu, fun _ _ => rfl,
        fun _ => rfl, rfl, apart_closeFd t fd⟩
  case h_26 =>
      cases hc
      refine ⟨rfl, fun _ _ => rfl, ?_, fun _ => rfl, rfl, id⟩
      intro u hu
      exact Function.update_of_ne (hu.resolve_right id) _ _
  case h_27 =>
      cases hc
      refine ⟨rfl, fun _ _ => rfl, ?_, fun _ => rfl, rfl, id⟩
      intro u hu
      exact Function.update_of_ne (hu.resolve_right id) _ _
  case h_28 => cases hc
  all_goals
    cases hc
    exact ⟨rfl, Framed.refl t _ s⟩

end Yams.WikiLock
