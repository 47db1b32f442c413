/-
What the holder of the mutation lease has to itself: the vectors and the committed
indexes.  Whoever publishes, inserts or sweeps holds the lease, so that what the
holder knows of them stays true.
-/
import Yams.OwnedRules
import Yams.SyncParts

namespace Yams.Store

section

variable {D : Type}

/-- What only the holder of the lease may change. -/
structure Holding (D : Type) where
  vectors : List (CachedVector D)
  index : PathBuf → Index D

/-- What belongs to a thread: its open transactions, and all that the lease guards
while it has the lease. -/
structure Custody (D : Type) where
  held : Option (Holding D)
  working : PathBuf → Option (Index D)

def custody (t : Tid) (s : StoreState D) : Custody D where
  held := if s.lease = some t then some ⟨s.vectors, s.index⟩ else none
  working := s.working t

/-- Every vector that a committed index refers to is cached. -/
def StoreState.Resolved (s : StoreState D) : Prop :=
  ∀ project, ∀ key ∈ (s.index project).vectorKeys, key ∈ keysOf s.vectors

/-- Operations for the holder of the lease only. -/
def StoreOp.Guarded : StoreOp D → Prop
  | .commit _ | .insertVectors _ | .sweepVectors _ _ => True
  | _ => False

/-- Operations that leave the vectors and the lease as they are. -/
def StoreOp.Sparing : StoreOp D → Prop
  | .insertVectors _ | .acquireLease | .releaseLease | .quarantineVectors
  | .sweepVectors _ _ => False
  | _ => True

theorem StoreOp.Calm.sparing {op : StoreOp D} (h : op.Calm) : op.Sparing := by
  cases op <;> first | exact trivial | exact h.elim

theorem StoreOp.Calm.unguarded {op : StoreOp D} (h : op.Calm) : ¬ op.Guarded := by
  cases op <;> first | exact fun hguarded => hguarded.elim | exact h.elim

theorem unguarded_acquire : ¬ (.acquireLease : StoreOp D).Guarded := fun h => h

theorem unguarded_release : ¬ (.releaseLease : StoreOp D).Guarded := fun h => h

theorem custody_held {t : Tid} {s : StoreState D} {h : Holding D}
    (hheld : (custody t s).held = some h) :
    s.lease = some t ∧ s.vectors = h.vectors ∧ s.index = h.index := by
  change (if s.lease = some t then some (⟨s.vectors, s.index⟩ : Holding D) else none) = _
    at hheld
  split at hheld
  next hlease =>
    obtain rfl := Option.some.inj hheld
    exact ⟨hlease, rfl, rfl⟩
  · cases hheld

theorem custody_of_lease {t : Tid} {s : StoreState D} (hlease : s.lease = some t) :
    (custody t s).held = some ⟨s.vectors, s.index⟩ := if_pos hlease

theorem custody_none {t : Tid} {s : StoreState D} (hlease : s.lease ≠ some t) :
    (custody t s).held = none := if_neg hlease

theorem custody_congr {t : Tid} {s s' : StoreState D} (hvectors : s'.vectors = s.vectors)
    (hlease : s'.lease = s.lease) (hindex : ∀ project, s'.index project = s.index project)
    (hworking : ∀ project, s'.working t project = s.working t project) :
    custody t s' = custody t s := by
  unfold custody
  rw [hlease, hvectors, funext hindex, funext hworking]

/-- Without the lease only the transactions of a thread are its own. -/
theorem custody_other {t : Tid} {s s' : StoreState D} (hbefore : s.lease ≠ some t)
    (hafter : s'.lease ≠ some t)
    (hworking : ∀ project, s'.working t project = s.working t project) :
    custody t s' = custody t s := by
  unfold custody
  rw [if_neg hbefore, if_neg hafter, funext hworking]

end

section

variable {D : Type} [DecidableEq D] {home : StoreHome} {t u : Tid} {s s' : StoreState D}
  {op : StoreOp D} {a : StoreAns op}

theorem settle_sparing (hop : op.Sparing) (h : settle home t s op a = some s') :
    s'.vectors = s.vectors ∧ s'.lease = s.lease := by
  unfold settle at h
  split at h
  case h_8 =>
    unfold StoreState.begin at h
    split at h
    · obtain rfl := Option.some.inj h
      exact ⟨rfl, rfl⟩
    · cases h
  case h_9 =>
    unfold StoreState.write at h
    split at h
    · split at h
      · obtain rfl := Option.some.inj h
        exact ⟨rfl, rfl⟩
      · cases h
    · cases h
  case h_10 =>
    unfold StoreState.publish at h
    split at h
    · split at h
      · obtain rfl := Option.some.inj h
        exact ⟨rfl, rfl⟩
      · cases h
    · cases h
  case h_11 =>
    obtain rfl := Option.some.inj h
    unfold StoreState.abandon
    split
    · split <;> exact ⟨rfl, rfl⟩
    · exact ⟨rfl, rfl⟩
  all_goals
    first
      | exact hop.elim
      | (split at h <;> first
          | (obtain rfl := Option.some.inj h; exact ⟨rfl, rfl⟩)
          | cases h)
      | (obtain rfl := Option.some.inj h; exact ⟨rfl, rfl⟩)

theorem settle_release {a : Unit} (h : settle home t s .releaseLease a = some s') :
    s' = s.release t := (Option.some.inj h).symm

theorem settle_acquire (hexclusive : home.exclusive = true)
    (h : settle home t s .acquireLease (.ok ()) = some s') :
    s.lease = none ∧ s' = { s with lease := some t } := by
  change (if s.lease = none ∨ home.exclusive = false then
    some { s with lease := some t } else none) = _ at h
  split at h
  next hfree =>
    rw [hexclusive] at hfree
    simp only [Bool.true_eq_false, or_false] at hfree
    exact ⟨hfree, (Option.some.inj h).symm⟩
  · cases h

theorem settle_quarantine (hcorruptible : home.corruptible = false)
    {r : Except (ManagementError D) Unit}
    (h : settle home t s .quarantineVectors r = some s') : s' = s := by
  rcases r with e | ⟨⟩
  · exact (Option.some.inj h).symm
  · change (if home.corruptible then some { s with vectors := [] } else none) = _ at h
    rw [hcorruptible] at h
    cases h

theorem settle_sweep {initial referenced : List (VectorKey D)} {report : SweepReport}
    (h : settle home t s (.sweepVectors initial referenced) (.ok report) = some s') :
    s' = { s with vectors := (sweepStored initial referenced s.vectors).1 } := by
  unfold settle at h
  dsimp only at h
  split at h
  · exact (Option.some.inj h).symm
  · cases h

/-- A step of another thread leaves a thread what it has to itself. -/
theorem settle_custody (hexclusive : home.exclusive = true)
    (hcorruptible : home.corruptible = false) (hu : u ≠ t)
    (hguarded : op.Guarded → s.lease = some t) (h : settle home t s op a = some s') :
    custody u s' = custody u s := by
  have hworking : ∀ project, s'.working u project = s.working u project :=
    fun project => (settle_others hu h project).1
  have hnot : s.lease = some t → s.lease ≠ some u := by
    rintro heq hother
    rw [heq] at hother
    exact hu (Option.some.inj hother).symm
  have hsame : s' = s → custody u s' = custody u s := by
    rintro rfl
    rfl
  by_cases hsparing : op.Sparing
  · obtain ⟨hvectors, hlease⟩ := settle_sparing hsparing h
    by_cases hpublished : published op a = none
    · apply custody_congr hvectors hlease _ hworking
      intro project
      apply settle_index h
      rw [hpublished]
      nofun
    · have hmine : s.lease = some t := by
        apply hguarded
        cases op <;> first | exact trivial | exact absurd rfl hpublished
      apply custody_other (hnot hmine) _ hworking
      rw [hlease]
      exact hnot hmine
  cases op with
  | insertVectors prepared =>
      have hmine := hguarded trivial
      rcases a with e | ⟨⟩
      · exact hsame (Option.some.inj h).symm
      · obtain ⟨vectors, -, rfl⟩ := settle_insertVectors h
        exact custody_other (hnot hmine) (hnot hmine) hworking
  | acquireLease =>
      rcases a with e | ⟨⟩
      · exact hsame (Option.some.inj h).symm
      · obtain ⟨hfree, rfl⟩ := settle_acquire hexclusive h
        apply custody_other _ _ hworking
        · rw [hfree]
          nofun
        · exact fun heq => hu (Option.some.inj heq).symm
  | releaseLease =>
      obtain rfl := settle_release h
      unfold StoreState.release at hworking ⊢
      split
      next hmine =>
        rw [if_pos hmine] at hworking
        exact custody_other (hnot hmine) nofun hworking
      · rfl
  | quarantineVectors => exact hsame (settle_quarantine hcorruptible h)
  | sweepVectors initial referenced =>
      have hmine := hguarded trivial
      rcases a with e | report
      · exact hsame (Option.some.inj h).symm
      · obtain rfl := settle_sweep h
        exact custody_other (hnot hmine) (hnot hmine) hworking
  | _ => exact absurd trivial hsparing

/-- Calm operations leave everything as it is. -/
theorem settle_calm (hop : op.Calm) (h : settle home t s op a = some s') :
    (s.Resolved → s'.Resolved) ∧ ∀ u, custody u s' = custody u s := by
  obtain ⟨hvectors, hlease⟩ := settle_sparing hop.sparing h
  obtain ⟨hwriters, hindex⟩ := settle_bystander hop.bystander h
  constructor
  · intro hresolved project key hkey
    rw [hindex] at hkey
    rw [hvectors]
    exact hresolved project key hkey
  · intro u
    apply custody_congr hvectors hlease hindex
    intro project
    unfold StoreState.working
    rw [hwriters]

/-! Rules. -/

/-- A home whose lease keeps other threads out and whose cache is not set aside. -/
structure StoreHome.Guards (home : StoreHome) : Prop where
  exclusive : home.exclusive = true
  sound : home.corruptible = false

/-- Every committed index is resolved, and the threads leave each other what they
have to themselves. -/
def custodyDiscipline (home : StoreHome) :
    Discipline (store (D := D) home).traced.system where
  inv s := s.now.Resolved
  rely t a b := custody t b.now = custody t a.now
  guar u a b := ∀ t, t ≠ u → custody t b.now = custody t a.now
  rely_refl _ _ := rfl
  rely_trans hab hbc := hbc.trans hab
  compat hne _ _ hguar := hguar _ (Ne.symm hne)
  env := by
    rintro a b _ ⟨c, hc⟩
    cases hc

def custodyOwned (home : StoreHome) (t : Tid) :
    Owned (custodyDiscipline (D := D) home) t (Custody D) where
  view s := custody t s.now
  stable h := h

/-- The program, with what holds of all that its thread has to itself. -/
abbrev Keeps (home : StoreHome) (t : Tid) {ε α : Type} (P : Custody D → Prop)
    (p : StoreProg D ε α) (Q : α → Custody D → Prop) (E : ε → Custody D → Prop) : Prop :=
  Triple (custodyOwned home t) P p Q E

variable {ε ε' α β : Type} {P J : Custody D → Prop} {Q : α → Custody D → Prop}
  {E : ε → Custody D → Prop}

omit [DecidableEq D] in
theorem settle_of_exec [DecidableEq D] {s s' : StoreTrace D} {op : StoreOp D}
    {a : StoreAns op} (h : (store home).traced.system.exec t s op a s') :
    settle home t s.now op a = some s'.now :=
  (exec_store home).1 (Interp.exec_traced h).1

/-- An operation that may fail, by what it does to the store. -/
theorem keeps_tryOp (hhome : home.Guards) {f : ε → ε'} {E : ε' → Custody D → Prop}
    (h : StoreAns op = Except ε α)
    (hguarded : op.Guarded → ∀ v, P v → v.held.isSome)
    (hsettle : ∀ s s' r, s.Resolved → P (custody t s) →
      settle home t s op (cast h.symm r) = some s' →
        s'.Resolved ∧ Exits Q (fun e => E (f e)) r (custody t s')) :
    Keeps home t P (tryOp f op h) Q E := by
  intro s hinv hP s₁ hrely hinv₁ answer s₂ hcall
  have hP₁ : P (custody t s₁.now) := hrely.symm ▸ hP
  have hcast : answer = cast h.symm (cast h answer) := by simp
  have hstep := settle_of_exec hcall
  have hlease : op.Guarded → s₁.now.lease = some t := by
    intro hop
    obtain ⟨held, hheld⟩ := Option.isSome_iff_exists.1 (hguarded hop _ hP₁)
    exact (custody_held hheld).1
  have hothers : ∀ u, u ≠ t → custody u s₂.now = custody u s₁.now :=
    fun u hu => settle_custody hhome.exclusive hhome.sound hu hlease hstep
  rw [hcast] at hstep
  obtain ⟨hinv₂, hexit⟩ := hsettle s₁.now s₂.now (cast h answer) hinv₁ hP₁ hstep
  refine ⟨hinv₂, hothers, ?_⟩
  intro s₃ hrely₃ _
  change Exits Q E _ (custody t s₃.now)
  rw [hrely₃]
  cases hr : cast h answer with
  | error e =>
      rw [hr] at hexit
      exact hexit
  | ok b =>
      rw [hr] at hexit
      exact hexit

/-- A program of calm operations keeps every assertion. -/
theorem keeps_calm {p : StoreProg D ε α} (hp : p.run.Calls StoreOp.Calm) :
    Keeps home t J p (fun _ => J) fun _ => J := by
  apply triple_calls hp
  intro op s a s' hop hinv hexec
  obtain ⟨hresolved, hcustody⟩ := settle_calm hop (settle_of_exec hexec)
  exact ⟨hresolved hinv, fun u _ => hcustody u, hcustody t⟩

theorem keeps_after {p : StoreProg D ε β} {f : β → StoreProg D ε α}
    (hp : p.run.Calls StoreOp.Calm) (hE : ∀ e v, J v → E e v)
    (hf : ∀ b, Keeps home t J (f b) Q E) : Keeps home t J (p >>= f) Q E := by
  apply triple_bind _ hf
  exact triple_mono (keeps_calm hp) (fun _ h => h) (fun _ _ h => h) hE

/-- A calm operation whose answer is to be known. -/
theorem keeps_reads (hhome : home.Guards) {f : ε → ε'} {R : α → Custody D → Prop}
    {E : ε' → Custody D → Prop} (h : StoreAns op = Except ε α) (hop : op.Calm)
    (hE : ∀ e v, J v → E e v)
    (hR : ∀ s s' a, J (custody t s) → settle home t s op (cast h.symm (.ok a)) = some s' →
      R a (custody t s)) :
    Keeps home t J (tryOp f op h) R E := by
  apply keeps_tryOp hhome h (fun hguarded => absurd hguarded hop.unguarded)
  intro s s' r hinv hs hsettle
  obtain ⟨hresolved, hcustody⟩ := settle_calm hop hsettle
  refine ⟨hresolved hinv, ?_⟩
  rw [hcustody t]
  cases r with
  | error e => exact hE (f e) _ hs
  | ok a => exact hR s s' a hs hsettle

/-! The lease. -/

/-- The thread has neither the lease nor a transaction. -/
structure Free (v : Custody D) : Prop where
  held : v.held = none
  idle : ∀ project, v.working project = none

/-- The thread has the lease, over these vectors and indexes, and no transaction. -/
structure Holds (h : Holding D) (v : Custody D) : Prop where
  held : v.held = some h
  idle : ∀ project, v.working project = none

/-- The thread has the lease. -/
def HasLease (v : Custody D) : Prop := ∃ h, Holds h v

omit [DecidableEq D] in
theorem custody_working {t : Tid} (project : PathBuf) :
    (custody t s).working project = s.working t project := rfl

omit [DecidableEq D] in
theorem working_lease (lease : Option Tid) (project : PathBuf) :
    ({ s with lease := lease } : StoreState D).working t project = s.working t project := rfl

/-- The body runs with the lease. -/
theorem keeps_withLease (hhome : home.Guards) {f : VectorError D → ε}
    {body : StoreProg D ε α}
    (hbody : Keeps home t HasLease body (fun _ => HasLease) fun _ => HasLease) :
    Keeps home t Free (withLease f body) (fun _ => Free) fun _ => Free := by
  unfold withLease
  apply triple_bind (R := fun _ => HasLease)
  · apply keeps_tryOp hhome rfl fun hguarded => absurd hguarded unguarded_acquire
    intro s s' r hinv hs hsettle
    rcases r with e | ⟨⟩
    · obtain rfl := Option.some.inj hsettle
      exact ⟨hinv, hs⟩
    · obtain ⟨-, rfl⟩ := settle_acquire hhome.exclusive hsettle
      exact ⟨hinv, _, custody_of_lease rfl, hs.idle⟩
  intro _
  apply triple_bind (triple_observe hbody)
  intro r
  apply triple_bind (R := fun _ => Free)
  · apply triple_call
    intro s a s' hinv hs hexec
    have hstep := settle_of_exec hexec
    have hothers : ∀ u, u ≠ t → custody u s'.now = custody u s.now := fun u hu =>
      settle_custody hhome.exclusive hhome.sound hu
        (fun hguarded => absurd hguarded unguarded_release) hstep
    have hlast : HasLease (custody t s.now) := by
      cases r with
      | ok a => exact hs
      | error e => exact hs
    obtain ⟨h, hheld, hidle⟩ := hlast
    have hnow := settle_release hstep
    rw [StoreState.release, if_pos (custody_held hheld).1] at hnow
    have hfree : Free (custody t s'.now) ∧ s'.now.Resolved := by
      rw [hnow]
      exact ⟨⟨custody_none (Option.some_ne_none t).symm, hidle⟩, hinv⟩
    exact ⟨hfree.2, hothers, hfree.1⟩
  · intro _
    apply triple_weaken (triple_ofExcept r)
    intro v hv
    cases r with
    | ok a => exact hv
    | error e => exact hv

end

end Yams.Store
