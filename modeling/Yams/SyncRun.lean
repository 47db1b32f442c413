/-
One synchronization among other threads: what the others may do meanwhile, the
part of the store that is the synchronization's own, and a rule for every kind
of operation it calls.
-/
import Yams.IndexCoherence
import Yams.Owned
import Yams.Sync

namespace Yams.Store

/-! Rules from a known part of the state. -/

section

variable {Tid Op S V α β ε : Type} {Ans : Op → Type}
variable {sys : System Tid Op Ans S} {D : Discipline sys} {t : Tid}

/-- A program that starts where the owned part is `v` and, when it succeeds,
ends as `Q` says. -/
def Leads (o : Owned D t V) (v : V) (p : Fallible Op Ans ε α) (Q : α → V → Prop) :
    Prop :=
  Triple o (fun v' => v' = v) p Q (fun _ _ => True)

variable {o : Owned D t V} {v : V} {Q : α → V → Prop} {R : β → V → Prop}

theorem leads_pure {a : α} (h : Q a v) :
    Leads o v (pure a : Fallible Op Ans ε α) Q := by
  have hpure : Triple o (Q a) (pure a : Fallible Op Ans ε α) Q fun _ _ => True :=
    triple_pure a
  exact triple_mono hpure (fun _ hv => hv ▸ h) (fun _ _ h => h) fun _ _ h => h

theorem leads_throw {e : ε} : Leads o v (throw e : Fallible Op Ans ε α) Q := by
  have hthrow : Triple o (fun _ => True) (throw e : Fallible Op Ans ε α) Q
      fun _ _ => True := triple_throw (E := fun _ _ => True) e
  exact triple_mono hthrow (fun _ _ => trivial) (fun _ _ h => h) fun _ _ h => h

theorem leads_mono {p : Fallible Op Ans ε α} {Q' : α → V → Prop}
    (h : Leads o v p Q) (hQ : ∀ a v', Q a v' → Q' a v') : Leads o v p Q' :=
  triple_mono h (fun _ h => h) hQ fun _ _ h => h

theorem leads_bind {p : Fallible Op Ans ε α} {f : α → Fallible Op Ans ε β}
    (hp : Leads o v p Q) (hf : ∀ a v', Q a v' → Leads o v' (f a) R) :
    Leads o v (p >>= f) R :=
  triple_bind hp fun a => triple_known fun v' h => hf a v' h

theorem leads_ofExcept {r : Except ε α} (h : ∀ a, r = .ok a → Q a v) :
    Leads o v (Fallible.ofExcept r : Fallible Op Ans ε α) Q := by
  have hresult : Triple o (Exits Q (fun _ _ => True) r)
      (Fallible.ofExcept r : Fallible Op Ans ε α) Q fun _ _ => True :=
    triple_ofExcept r
  apply triple_mono hresult
  · rintro _ rfl
    cases r with
    | ok a => exact h a rfl
    | error e => exact trivial
  · intro _ _ h
    exact h
  · intro _ _ h
    exact h

theorem leads_foldlM {E : Type} {f : β → E → Fallible Op Ans ε β} {items : List E}
    (J : List E → β → V → Prop)
    (hstep : ∀ item rest b v', J (item :: rest) b v' →
      Leads o v' (f b item) fun b' v'' => J rest b' v'')
    {b : β} (h : J items b v) :
    Leads o v (items.foldlM f b) fun b' v' => J [] b' v' := by
  induction items generalizing b v with
  | nil => exact leads_pure h
  | cons item items ih =>
      rw [List.foldlM_cons]
      exact leads_bind (hstep item items b v h) fun b' v' hJ => ih hJ

/-- The error of a program as a value. -/
theorem leads_observe {ε' : Type} {p : Fallible Op Ans ε α} (h : Leads o v p Q) :
    Leads o v (Fallible.observe p : Fallible Op Ans ε' (Except ε α))
      fun r v' => ∀ a, r = .ok a → Q a v' := by
  apply triple_mono (triple_observe h)
  · intro _ hv
    exact hv
  · rintro (e | a) v' hexit b hb
    · cases hb
    · cases hb
      exact hexit
  · intro _ _ h
    exact h

end

/-! The part of the store that belongs to a synchronization. -/

section

variable {D : Type} [DecidableEq D]

abbrev StoreEvent (D : Type) :=
  Event Tid (StoreOp D) StoreAns (StoreState D)

abbrev StoreTrace (D : Type) :=
  Traced Tid (StoreOp D) StoreAns (StoreState D)

/-- The keys that an operation has shown to be cached. -/
def shownKeys : (op : StoreOp D) → StoreAns op → List (VectorKey D)
  | .selectKeys _, .ok keys => keys
  | .selectVectors _, .ok rows => keysOf rows
  | .insertVectors prepared, .ok () => keysOf prepared
  | _, _ => []

/-- The keys that an operation has added to the cache. -/
def addedKeys : (op : StoreOp D) → StoreAns op → List (VectorKey D)
  | .insertVectors prepared, .ok () => keysOf prepared
  | _, _ => []

/-- The texts that an operation has sent to the model. -/
def sentTexts : StoreOp D → List Text
  | .embedPassages texts => texts
  | _ => []

/-- The open transaction of a thread on a project. -/
def StoreState.working (s : StoreState D) (t : Tid) (project : PathBuf) :
    Option (Index D) :=
  match s.writers project with
  | some writer => if writer.thread = t then some writer.working else none
  | none => none

/-- The inventories of pages that an operation has read. -/
def readInventories : (op : StoreOp D) → StoreAns op → List (List (DocRow D))
  | .readDocs _, .ok rows => [rows]
  | _, _ => []

/-- The indexes of a project that a thread has seen, the newest first, after an
operation that leaves the index as it is: a publication starts them anew. -/
def StoreOp.seeing (op : StoreOp D) (i : Index D) (seen : List (Index D)) :
    List (Index D) :=
  match op with
  | .readGeneration _ | .readEmbeddingScheme _ | .readDocs _ | .readChunkKeys _ =>
      i :: seen
  | .beginImmediate _ => i :: seen
  | .commit _ => [i]
  | _ => seen

omit [DecidableEq D] in
theorem StoreOp.mem_seeing {op : StoreOp D} {i j : Index D} {seen : List (Index D)}
    (h : j ∈ op.seeing i seen) : j = i ∨ j ∈ seen := by
  cases op
  case commit => exact .inl (List.mem_singleton.1 h)
  all_goals first
    | exact List.mem_cons.1 h
    | exact .inr h

/-- The indexes of a project that a thread has seen since it last published. -/
def seenIndexes (t : Tid) (project : PathBuf) (s : StoreTrace D) : List (Index D) :=
  (s.own t).foldr (fun e seen => e.op.seeing (e.after.index project) seen) []

/-- Every inventory of pages that a thread has read. -/
def inventories (t : Tid) (s : StoreTrace D) : List (List (DocRow D)) :=
  (s.own t).flatMap fun e => readInventories e.op e.answer

/-- The texts that a thread has sent to the model during a run. -/
def embeddedTexts (t : Tid) (s : StoreTrace D) : List Text :=
  (s.own t).flatMap fun e => sentTexts e.op

/-- What the operations of a synchronization have shown, added, sent and read. -/
structure Tally (D : Type) where
  shown : List (VectorKey D)
  added : List (VectorKey D)
  sent : List Text
  inventories : List (List (DocRow D))

/-- What belongs to the synchronization: the indexes it has seen, its own
transaction, and the tally of its operations. -/
structure SyncView (D : Type) extends Tally D where
  seen : List (Index D)
  working : Option (Index D)

def syncView (t : Tid) (project : PathBuf) (s : StoreTrace D) : SyncView D where
  seen := seenIndexes t project s
  working := s.now.working t project
  shown := (s.own t).flatMap fun e => shownKeys e.op e.answer
  added := (s.own t).flatMap fun e => addedKeys e.op e.answer
  sent := embeddedTexts t s
  inventories := inventories t s

/-- What everything else may do during a synchronization: its transaction is
left alone, no vector is removed from the cache, the keys that are added are
among some `foreign` ones, and the index of its project is replaced only by a
later one, whose chunks belong to its pages and refer to nothing new that is not
cached. -/
structure Meanwhile (t : Tid) (project : PathBuf) (foreign : VectorKey D → Prop)
    (a b : StoreTrace D) : Prop where
  later : (a.now.index project).Later (b.now.index project)
  coherent : (a.now.index project).Coherent → (b.now.index project).Coherent
  referred : ∀ key ∈ (b.now.index project).vectorKeys,
    key ∈ (a.now.index project).vectorKeys ∨ key ∈ keysOf b.now.vectors
  working : b.now.working t project = a.now.working t project
  kept : ∀ key ∈ keysOf a.now.vectors, key ∈ keysOf b.now.vectors
  added : ∀ key ∈ keysOf b.now.vectors,
    key ∈ keysOf a.now.vectors ∨ foreign key
  own : b.own t = a.own t

variable (home : StoreHome)

/-- A synchronization in thread `t`, with everything else between its steps. -/
def syncSystem (t : Tid) (project : PathBuf) (foreign : VectorKey D → Prop) :
    System Tid (StoreOp D) StoreAns (StoreTrace D) where
  exec := (store home).traced.system.exec
  env := Meanwhile t project foreign

/-- What is cached: everything that was there at first and that was shown, and
nothing but what was there, what others add and what was added. -/
structure Cached (t : Tid) (project : PathBuf) (initial : List (VectorKey D))
    (foreign : VectorKey D → Prop) (s : StoreTrace D) : Prop where
  first : ∀ key ∈ initial, key ∈ keysOf s.now.vectors
  shown : ∀ key ∈ (syncView t project s).shown, key ∈ keysOf s.now.vectors
  accounted : ∀ key ∈ keysOf s.now.vectors,
    key ∈ initial ∨ foreign key ∨ key ∈ (syncView t project s).added

/-- How the index of the project relates to the ones seen before. -/
structure Followed (t : Tid) (project : PathBuf) (s : StoreTrace D) : Prop where
  coherent : (s.now.index project).Coherent
  working : ∀ w, s.now.working t project = some w → w.Coherent
  later : ∀ i ∈ seenIndexes t project s, i.Later (s.now.index project)
  referred : ∀ i ∈ seenIndexes t project s, ∀ key ∈ (s.now.index project).vectorKeys,
    key ∈ i.vectorKeys ∨ key ∈ keysOf s.now.vectors

variable (t : Tid) (project : PathBuf) (initial : List (VectorKey D))
  (foreign : VectorKey D → Prop)

omit [DecidableEq D] in
theorem Meanwhile.view_eq {a b : StoreTrace D} (h : Meanwhile t project foreign a b) :
    syncView t project b = syncView t project a := by
  simp only [syncView, seenIndexes, embeddedTexts, inventories, h.working, h.own]

def syncDiscipline : Discipline (syncSystem home t project foreign) where
  inv s := Cached t project initial foreign s ∧ Followed t project s
  rely u a b := u = t → syncView t project b = syncView t project a
  guar u _ _ := u = t
  rely_refl := by
    intro u s _
    rfl
  rely_trans := by
    intro u a b c hab hbc hu
    rw [hbc hu, hab hu]
  compat := by
    rintro u w a b hne _ _ rfl hw
    exact absurd hw (Ne.symm hne)
  env := by
    rintro a b ⟨hcached, hfollowed⟩ henv
    have hview := henv.view_eq
    have hseen : seenIndexes t project b = seenIndexes t project a :=
      congrArg SyncView.seen hview
    refine ⟨⟨⟨?_, ?_, ?_⟩, ⟨?_, ?_, ?_, ?_⟩⟩, fun _ _ => hview⟩
    · intro key hkey
      exact henv.kept key (hcached.first key hkey)
    · intro key hkey
      rw [hview] at hkey
      exact henv.kept key (hcached.shown key hkey)
    · intro key hkey
      rw [hview]
      rcases henv.added key hkey with hold | hforeign
      · exact hcached.accounted key hold
      · exact .inr (.inl hforeign)
    · exact henv.coherent hfollowed.coherent
    · intro w hw
      rw [henv.working] at hw
      exact hfollowed.working w hw
    · intro i hi
      rw [hseen] at hi
      exact (hfollowed.later i hi).trans henv.later
    · intro i hi key hkey
      rw [hseen] at hi
      rcases henv.referred key hkey with hold | hnew
      · exact (hfollowed.referred i hi key hold).imp_right (henv.kept key)
      · exact .inr hnew

def syncOwned : Owned (syncDiscipline home t project initial foreign) t (SyncView D) where
  view := syncView t project
  stable h := h rfl

/-! The operations. -/

variable {home t project initial foreign}

/-- A step of the synchronization in terms of the store. -/
theorem exec_own {s s' : StoreTrace D} {op : StoreOp D} {a : StoreAns op}
    (h : (syncSystem home t project foreign).exec t s op a s') :
    settle home t s.now op a = some s'.now ∧
      syncView t project s' =
        { seen := op.seeing (s'.now.index project) (seenIndexes t project s)
          working := s'.now.working t project
          shown := shownKeys op a ++ (syncView t project s).shown
          added := addedKeys op a ++ (syncView t project s).added
          sent := sentTexts op ++ (syncView t project s).sent
          inventories := readInventories op a ++ (syncView t project s).inventories } := by
  obtain ⟨hexec, hpast⟩ := Interp.exec_traced h
  refine ⟨(exec_store home).1 hexec, ?_⟩
  have hown : s'.own t = ⟨t, op, a, s.now, s'.now⟩ :: s.own t := by
    rw [Traced.own, hpast, List.filter_cons_of_pos (by simp)]
    rfl
  simp only [syncView, embeddedTexts, inventories, seenIndexes, hown, List.flatMap_cons,
    List.foldr_cons]

/-- The cache stays accounted for when an operation removes nothing. -/
theorem Cached.step {s s' : StoreTrace D} {op : StoreOp D} {a : StoreAns op}
    (hinv : Cached t project initial foreign s)
    (hexec : (syncSystem home t project foreign).exec t s op a s')
    (hkept : ∀ key ∈ keysOf s.now.vectors, key ∈ keysOf s'.now.vectors)
    (hadded : ∀ key ∈ keysOf s'.now.vectors,
      key ∈ keysOf s.now.vectors ∨ key ∈ addedKeys op a)
    (hshown : ∀ key ∈ shownKeys op a, key ∈ keysOf s'.now.vectors) :
    Cached t project initial foreign s' := by
  obtain ⟨_, hview⟩ := exec_own hexec
  refine ⟨?_, ?_, ?_⟩
  · intro key hkey
    exact hkept key (hinv.first key hkey)
  · intro key hkey
    rw [hview] at hkey
    rcases List.mem_append.1 hkey with hnew | hold
    · exact hshown key hnew
    · exact hkept key (hinv.shown key hold)
  · intro key hkey
    rw [hview]
    rcases hadded key hkey with hold | hnew
    · rcases hinv.accounted key hold with hfirst | hforeign | hmem
      · exact .inl hfirst
      · exact .inr (.inl hforeign)
      · exact .inr (.inr (List.mem_append_right _ hmem))
    · exact .inr (.inr (List.mem_append_left _ hnew))

/-- An operation leaves the index alone, or publishes it. -/
theorem Followed.step {s s' : StoreTrace D} {op : StoreOp D} {a : StoreAns op}
    (hinv : Followed t project s)
    (hexec : (syncSystem home t project foreign).exec t s op a s')
    (hkept : ∀ key ∈ keysOf s.now.vectors, key ∈ keysOf s'.now.vectors)
    (hindex : s'.now.index project = s.now.index project ∨
      ∀ i seen, op.seeing i seen = [i])
    (hcoherent : (s'.now.index project).Coherent)
    (hworking : ∀ w, s'.now.working t project = some w → w.Coherent) :
    Followed t project s' := by
  have hseen : seenIndexes t project s' =
      op.seeing (s'.now.index project) (seenIndexes t project s) :=
    congrArg SyncView.seen (exec_own hexec).2
  have hmem : ∀ i ∈ seenIndexes t project s', i = s'.now.index project ∨
      i ∈ seenIndexes t project s ∧ s'.now.index project = s.now.index project := by
    intro i hi
    rw [hseen] at hi
    rcases hindex with hsame | hpublished
    · exact (StoreOp.mem_seeing hi).imp_right fun hold => ⟨hold, hsame⟩
    · rw [hpublished] at hi
      exact .inl (List.mem_singleton.1 hi)
  refine ⟨hcoherent, hworking, ?_, ?_⟩
  · intro i hi
    rcases hmem i hi with rfl | ⟨hold, hsame⟩
    · exact Index.Later.refl _
    · rw [hsame]
      exact hinv.later i hold
  · intro i hi key hkey
    rcases hmem i hi with rfl | ⟨hold, hsame⟩
    · exact .inl hkey
    · rw [hsame] at hkey
      exact (hinv.referred i hold key hkey).imp_right (hkept key)

/-- An operation that changes neither the index nor the transaction. -/
theorem exec_still {s s' : StoreTrace D} {op : StoreOp D} {a : StoreAns op}
    (hinv : (syncDiscipline home t project initial foreign).inv s)
    (hexec : (syncSystem home t project foreign).exec t s op a s')
    (hindex : s'.now.index project = s.now.index project)
    (hworking : s'.now.working t project = s.now.working t project)
    (hkept : ∀ key ∈ keysOf s.now.vectors, key ∈ keysOf s'.now.vectors)
    (hadded : ∀ key ∈ keysOf s'.now.vectors,
      key ∈ keysOf s.now.vectors ∨ key ∈ addedKeys op a)
    (hshown : ∀ key ∈ shownKeys op a, key ∈ keysOf s'.now.vectors) :
    (syncDiscipline home t project initial foreign).inv s' := by
  obtain ⟨hcached, hfollowed⟩ := hinv
  refine ⟨hcached.step hexec hkept hadded hshown, ?_⟩
  apply hfollowed.step hexec hkept (.inl hindex)
  · rw [hindex]
    exact hfollowed.coherent
  · rw [hworking]
    exact hfollowed.working

/-- Operations that touch neither the cache nor a transaction. -/
def StoreOp.Mild : StoreOp D → Prop
  | .beginImmediate _ | .update _ _ | .commit _ | .rollback _ => False
  | .selectKeys _ | .selectVectors _ | .insertVectors _ => False
  | .embedPassages _ | .quarantineVectors | .sweepVectors _ _ => False
  | _ => True

/-- Operations that do not even look at an index. -/
def StoreOp.Quiet (op : StoreOp D) : Prop :=
  op.Mild ∧ ∀ i seen, op.seeing i seen = seen

omit [DecidableEq D] in
theorem index_create (s : StoreState D) (path : PathBuf) :
    (s.create path).index project = s.index project := by
  by_cases hpath : path = project
  · subst hpath
    simp [StoreState.index, StoreState.create, AList.lookup_insert]
  · simp [StoreState.index, StoreState.create, AList.lookup_insert_ne (Ne.symm hpath)]

theorem settle_mild {s s' : StoreState D} {op : StoreOp D} {a : StoreAns op}
    (hop : op.Mild) (h : settle home t s op a = some s') :
    s'.index project = s.index project ∧ s'.writers = s.writers ∧
      s'.vectors = s.vectors := by
  unfold settle at h
  split at h
  case h_3 =>
    split at h
    · obtain rfl := Option.some.inj h
      exact ⟨index_create s _, rfl, rfl⟩
    · cases h
  case h_16 =>
    obtain rfl := Option.some.inj h
    rw [StoreState.release]
    split <;> exact ⟨rfl, rfl, rfl⟩
  all_goals
    first
      | exact hop.elim
      | (split at h <;> first
          | (obtain rfl := Option.some.inj h; exact ⟨rfl, rfl, rfl⟩)
          | cases h)
      | (obtain rfl := Option.some.inj h; exact ⟨rfl, rfl, rfl⟩)

omit [DecidableEq D] in
theorem mild_nothing {op : StoreOp D} (hop : op.Mild) (a : StoreAns op) :
    shownKeys op a = [] ∧ addedKeys op a = [] ∧ sentTexts op = [] := by
  cases op <;> first | exact hop.elim | exact ⟨rfl, rfl, rfl⟩

omit [DecidableEq D] in
theorem quiet_inventories {op : StoreOp D} (hop : op.Quiet) (a : StoreAns op) :
    readInventories op a = [] := by
  cases op
  case readDocs =>
    have hsees := hop.2 .initial []
    cases hsees
  all_goals rfl

/-- A mild operation may see the index, and changes nothing else. -/
theorem exec_mild {s s' : StoreTrace D} {op : StoreOp D} {a : StoreAns op}
    (hop : op.Mild) (hinv : (syncDiscipline home t project initial foreign).inv s)
    (hexec : (syncSystem home t project foreign).exec t s op a s') :
    (syncDiscipline home t project initial foreign).inv s' ∧
      syncView t project s' =
        { syncView t project s with
          seen := op.seeing (s.now.index project) (seenIndexes t project s)
          inventories := readInventories op a ++
            (syncView t project s).inventories } := by
  obtain ⟨hsettle, hview⟩ := exec_own hexec
  obtain ⟨hindex, hwriters, hvectors⟩ :
      s'.now.index project = s.now.index project ∧ _ := settle_mild hop hsettle
  have hworking : s'.now.working t project = s.now.working t project := by
    rw [StoreState.working, hwriters]
    rfl
  obtain ⟨hshown, hadded, hsent⟩ := mild_nothing hop a
  refine ⟨exec_still hinv hexec hindex hworking ?_ ?_ ?_, ?_⟩
  · rw [hvectors]
    exact fun _ h => h
  · rw [hvectors]
    exact fun _ h => .inl h
  · rw [hshown]
    exact fun _ h => absurd h List.not_mem_nil
  · rw [hview, hindex, hworking, hshown, hadded, hsent]
    rfl

/-- A quiet operation leaves the own part alone. -/
theorem exec_quiet {s s' : StoreTrace D} {op : StoreOp D} {a : StoreAns op}
    (hop : op.Quiet) (hinv : (syncDiscipline home t project initial foreign).inv s)
    (hexec : (syncSystem home t project foreign).exec t s op a s') :
    (syncDiscipline home t project initial foreign).inv s' ∧
      syncView t project s' = syncView t project s := by
  obtain ⟨hinv', hview⟩ := exec_mild hop.1 hinv hexec
  refine ⟨hinv', ?_⟩
  rw [hview, quiet_inventories hop, hop.2]
  rfl

/-- The program, started where the synchronization's part is `v`. -/
abbrev Syncs (home : StoreHome) (t : Tid) (project : PathBuf)
    (initial : List (VectorKey D)) (foreign : VectorKey D → Prop) {ε α : Type}
    (v : SyncView D) (p : StoreProg D ε α) (Q : α → SyncView D → Prop) : Prop :=
  Leads (syncOwned home t project initial foreign) v p Q

section

variable {v : SyncView D} {ε ε' α β : Type} {Q : α → SyncView D → Prop}

/-- A program of quiet operations only. -/
theorem syncs_quiet {p : StoreProg D ε α} (hp : p.run.Calls StoreOp.Quiet)
    (h : ∀ a, Q a v) : Syncs home t project initial foreign v p Q := by
  have hcalls : Triple (syncOwned home t project initial foreign) (fun v' => v' = v) p
      (fun _ v' => v' = v) fun _ v' => v' = v := by
    apply triple_calls hp
    intro op s a s' hop hinv hexec
    obtain ⟨hinv', hview⟩ := exec_quiet hop hinv hexec
    exact ⟨hinv', rfl, hview⟩
  apply triple_mono hcalls
  · exact fun _ h => h
  · rintro a _ rfl
    exact h a
  · exact fun _ _ _ => trivial

/-- An operation that may fail, by what it does when it succeeds. -/
theorem syncs_tryOp {f : ε → ε'} {op : StoreOp D} (h : StoreAns op = Except ε α)
    (hexec : ∀ s s' r, (syncDiscipline home t project initial foreign).inv s →
      syncView t project s = v →
      (syncSystem home t project foreign).exec t s op (cast h.symm r) s' →
        (syncDiscipline home t project initial foreign).inv s' ∧
        ∀ a, r = .ok a → Q a (syncView t project s')) :
    Syncs home t project initial foreign v (tryOp f op h) Q := by
  intro s hinv hv s₁ hrely hinv₁ answer s₂ hcall
  have hview : syncView t project s₁ = v := (hrely rfl).trans hv
  have hcast : answer = cast h.symm (cast h answer) := by simp
  rw [hcast] at hcall
  obtain ⟨hinv₂, hok⟩ := hexec s₁ s₂ (cast h answer) hinv₁ hview hcall
  refine ⟨hinv₂, rfl, ?_⟩
  intro s₃ hrely₃ _
  change Exits Q _ _ (syncView t project s₃)
  rw [hrely₃ rfl]
  cases hr : cast h answer with
  | error e => exact trivial
  | ok a => exact hok a hr

/-- The index that is seen now may follow the ones that were seen. -/
def SyncView.Before (v : SyncView D) (i : Index D) : Prop := ∀ j ∈ v.seen, j.Later i

omit [DecidableEq D] in
theorem view_seen (s : StoreTrace D) :
    s.now.view t project = (s.now.working t project).getD (s.now.index project) := by
  unfold StoreState.view StoreState.working
  cases s.now.writers project with
  | none => rfl
  | some writer => by_cases h : writer.thread = t <;> simp [h]

/-- An operation that looks at the index: it sees the own transaction, or an
index that is at least as late as the one last seen. -/
theorem syncs_sees {f : ε → ε'} {op : StoreOp D} (h : StoreAns op = Except ε α)
    (hop : op.Mild) (hsees : ∀ i seen, op.seeing i seen = i :: seen)
    (read : Index D → α)
    (hsettle : ∀ s s' : StoreState D, ∀ a : α,
      settle home t s op (cast h.symm (.ok a)) = some s' →
        a = read (s.view t project)) :
    Syncs home t project initial foreign v (tryOp f op h) fun a v' =>
      ∃ i, v.Before i ∧ i.Coherent ∧ a = read (v.working.getD i) ∧
        v' = { v with
          seen := i :: v.seen
          inventories := readInventories op (cast h.symm (.ok a)) ++
            v.inventories } := by
  apply syncs_tryOp h
  intro s s' r hinv hv hexec
  obtain ⟨hinv', hview⟩ := exec_mild hop hinv hexec
  refine ⟨hinv', ?_⟩
  rintro a rfl
  refine ⟨s.now.index project, ?_, hinv.2.coherent, ?_, ?_⟩
  · intro j hj
    rw [← hv] at hj
    exact hinv.2.later j hj
  · have hread := hsettle s.now s'.now a (exec_own hexec).1
    rw [view_seen] at hread
    rw [hread, ← hv]
    rfl
  · rw [hview, hsees, ← hv]
    rfl

theorem syncs_generation (operation : Text) (path : PathBuf) :
    Syncs home t project initial foreign v
      (sql operation path (.readGeneration project) rfl) fun a v' =>
        ∃ i, v.Before i ∧ i.Coherent ∧ a = (v.working.getD i).generation ∧
          v' = { v with seen := i :: v.seen } := by
  apply syncs_sees rfl (by exact trivial) (fun _ _ => rfl) Index.generation
  intro s s' a hsettle
  change (if a = (s.view t project).generation then some s else none) = _ at hsettle
  split at hsettle
  next heq => exact heq
  · cases hsettle

theorem syncs_scheme (operation : Text) (path : PathBuf) :
    Syncs home t project initial foreign v
      (sql operation path (.readEmbeddingScheme project) rfl) fun a v' =>
        ∃ i, v.Before i ∧ i.Coherent ∧ a = (v.working.getD i).scheme ∧
          v' = { v with seen := i :: v.seen } := by
  apply syncs_sees rfl (by exact trivial) (fun _ _ => rfl) Index.scheme
  intro s s' a hsettle
  change (if a = (s.view t project).scheme then some s else none) = _ at hsettle
  split at hsettle
  next heq => exact heq
  · cases hsettle

theorem syncs_docs (operation : Text) (path : PathBuf) :
    Syncs home t project initial foreign v
      (sql operation path (.readDocs project) rfl) fun a v' =>
        ∃ i, v.Before i ∧ i.Coherent ∧ a = (v.working.getD i).docs ∧
          v' = { v with seen := i :: v.seen, inventories := a :: v.inventories } := by
  apply syncs_sees rfl (by exact trivial) (fun _ _ => rfl) Index.docs
  intro s s' a hsettle
  change (if a = (s.view t project).docs then some s else none) = _ at hsettle
  split at hsettle
  next heq => exact heq
  · cases hsettle

theorem syncs_chunkKeys (operation : Text) (path : PathBuf) :
    Syncs home t project initial foreign v
      (sql operation path (.readChunkKeys project) rfl) fun a v' =>
        ∃ i, v.Before i ∧ i.Coherent ∧
          a = (v.working.getD i).chunks.map (fun row => (row.path, row.vectorHash)) ∧
          v' = { v with seen := i :: v.seen } := by
  apply syncs_sees rfl (by exact trivial) (fun _ _ => rfl)
    fun i => i.chunks.map fun row => (row.path, row.vectorHash)
  intro s s' a hsettle
  change (if a = (s.view t project).chunks.map fun row =>
    (row.path, row.vectorHash) then some s else none) = _ at hsettle
  split at hsettle
  next heq => exact heq
  · cases hsettle

/-- Opening the project gives the path of its index. -/
theorem syncs_openProject {root : PathBuf} (hroot : home.projectPath root = project) :
    Syncs home t project initial foreign v (openProject root)
      fun a v' => v' = v ∧ a = project := by
  apply syncs_tryOp rfl
  intro s s' r hinv hv hexec
  obtain ⟨hinv', hview⟩ := exec_quiet ⟨by exact trivial, fun _ _ => rfl⟩ hinv hexec
  refine ⟨hinv', ?_⟩
  rintro a rfl
  refine ⟨hview.trans hv, ?_⟩
  have hsettle := (exec_own hexec).1
  change (if a = home.projectPath root then some (s.now.create a) else none) = _
    at hsettle
  split at hsettle
  next heq => exact heq.trans hroot
  · cases hsettle

/-! Lookups. -/

/-- Only lookups lie between two views. -/
structure Looks (initial : List (VectorKey D)) (foreign : VectorKey D → Prop)
    (v v' : SyncView D) : Prop where
  seen : v'.seen = v.seen
  working : v'.working = v.working
  added : v'.added = v.added
  sent : v'.sent = v.sent
  inventories : v'.inventories = v.inventories
  kept : ∀ key ∈ v.shown, key ∈ v'.shown
  shown : ∀ key ∈ v'.shown, key ∈ v.shown ∨ key ∈ initial ∨ foreign key ∨
    key ∈ v.added

omit [DecidableEq D] in
theorem Looks.refl (v : SyncView D) : Looks initial foreign v v :=
  ⟨rfl, rfl, rfl, rfl, rfl, fun _ h => h, fun _ h => .inl h⟩

omit [DecidableEq D] in
theorem Looks.trans {v v' v'' : SyncView D} (h : Looks initial foreign v v')
    (h' : Looks initial foreign v' v'') : Looks initial foreign v v'' := by
  refine ⟨h'.seen.trans h.seen, h'.working.trans h.working,
    h'.added.trans h.added, h'.sent.trans h.sent,
    h'.inventories.trans h.inventories, ?_, ?_⟩
  · intro key hkey
    exact h'.kept key (h.kept key hkey)
  · intro key hkey
    rcases h'.shown key hkey with hold | hrest
    · exact h.shown key hold
    · rw [h.added] at hrest
      exact .inr hrest

/-- An operation that looks keys up: what it shows is cached, and it shows
everything of its batch that was cached at first or has been shown. -/
theorem syncs_lookup {f : ε → ε'} {op : StoreOp D} (h : StoreAns op = Except ε α)
    {batch : List (VectorKey D)} (keys : α → List (VectorKey D))
    (hsees : ∀ i seen, op.seeing i seen = seen)
    (hread : ∀ a, readInventories op a = [])
    (hadded : ∀ a, addedKeys op a = []) (hsent : sentTexts op = [])
    (herror : ∀ e, shownKeys op (cast h.symm (.error e)) = [])
    (hshown : ∀ a, shownKeys op (cast h.symm (.ok a)) = keys a)
    (hsame : ∀ s s' : StoreState D, ∀ r, settle home t s op r = some s' → s' = s)
    (hsettle : ∀ s s' : StoreState D, ∀ a : α,
      settle home t s op (cast h.symm (.ok a)) = some s' →
        ∀ key, key ∈ keys a ↔ key ∈ keysOf s.vectors ∧ key ∈ batch) :
    Syncs home t project initial foreign v (tryOp f op h) fun a v' =>
      Looks initial foreign v v' ∧ (∀ key ∈ keys a, key ∈ v'.shown) ∧
        ∀ key ∈ batch, key ∈ v.shown ∨ key ∈ initial → key ∈ keys a := by
  apply syncs_tryOp h
  intro s s' r hinv hv hexec
  obtain ⟨hstep, hview⟩ := exec_own hexec
  have hnow := hsame _ _ _ hstep
  rw [hadded, hsent, hnow, hsees, hread] at hview
  have hfound : ∀ key ∈ shownKeys op (cast h.symm r), key ∈ keysOf s.now.vectors := by
    intro key hkey
    cases r with
    | error e =>
        rw [herror] at hkey
        cases hkey
    | ok a =>
        rw [hshown] at hkey
        exact ((hsettle _ _ a hstep key).1 hkey).1
  refine ⟨exec_still hinv hexec (by rw [hnow]) (by rw [hnow]) ?_ ?_ ?_, ?_⟩
  · rw [hnow]
    exact fun _ h => h
  · rw [hnow]
    exact fun _ h => .inl h
  · rw [hnow]
    exact hfound
  · rintro a rfl
    rw [hshown] at hfound hview
    have hv' : syncView t project s' = { v with shown := keys a ++ v.shown } := by
      rw [hview, ← hv]
      rfl
    rw [hv']
    refine ⟨⟨rfl, rfl, rfl, rfl, rfl, ?_, ?_⟩, ?_, ?_⟩
    · intro key hkey
      exact List.mem_append_right _ hkey
    · intro key hkey
      rcases List.mem_append.1 hkey with hnew | hold
      · have haccounted := hinv.1.accounted key (hfound key hnew)
        rw [hv] at haccounted
        exact .inr haccounted
      · exact .inl hold
    · intro key hkey
      exact List.mem_append_left _ hkey
    · intro key hbatch hknown
      refine (hsettle _ _ a hstep key).2 ⟨?_, hbatch⟩
      rcases hknown with hshown' | hfirst
      · rw [← hv] at hshown'
        exact hinv.1.shown key hshown'
      · exact hinv.1.first key hfirst

theorem syncs_selectKeys {f : VectorError D → ε'} (batch : List (VectorKey D)) :
    Syncs home t project initial foreign v (tryOp f (.selectKeys batch) rfl)
      fun keys v' => Looks initial foreign v v' ∧ (∀ key ∈ keys, key ∈ v'.shown) ∧
        ∀ key ∈ batch, key ∈ v.shown ∨ key ∈ initial → key ∈ keys := by
  refine syncs_lookup rfl id (fun _ _ => rfl) (fun _ => rfl) (fun _ => rfl) rfl (fun _ => rfl)
    (fun _ => rfl) ?_ ?_
  · rintro s s' (e | keys) hsettle
    · exact (Option.some.inj hsettle).symm
    · change (if keys = _ then some s else none) = _ at hsettle
      split at hsettle
      · exact (Option.some.inj hsettle).symm
      · cases hsettle
  · intro s s' keys hsettle key
    change (if keys = (keysOf s.vectors).filter fun key => key ∈ batch then some s
      else none) = _ at hsettle
    split at hsettle
    next heq =>
      rw [heq]
      simp only [id, List.mem_filter, decide_eq_true_eq]
    · cases hsettle

theorem syncs_selectVectors {f : VectorError D → ε'} (batch : List (VectorKey D)) :
    Syncs home t project initial foreign v (tryOp f (.selectVectors batch) rfl)
      fun rows v' => Looks initial foreign v v' ∧
        (∀ key ∈ keysOf rows, key ∈ v'.shown) ∧
        ∀ key ∈ batch, key ∈ v.shown ∨ key ∈ initial → key ∈ keysOf rows := by
  refine syncs_lookup rfl keysOf (fun _ _ => rfl) (fun _ => rfl) (fun _ => rfl) rfl (fun _ => rfl)
    (fun _ => rfl) ?_ ?_
  · rintro s s' (e | rows) hsettle
    · exact (Option.some.inj hsettle).symm
    · change (if rows = _ then some s else none) = _ at hsettle
      split at hsettle
      · exact (Option.some.inj hsettle).symm
      · cases hsettle
  · intro s s' rows hsettle key
    change (if rows = s.vectors.filter fun cached => cached.key ∈ batch then some s
      else none) = _ at hsettle
    split at hsettle
    next heq =>
      rw [heq]
      simp only [keysOf, List.mem_map, List.mem_filter, decide_eq_true_eq]
      constructor
      · rintro ⟨cached, ⟨hmem, hbatch⟩, rfl⟩
        exact ⟨⟨cached, hmem, rfl⟩, hbatch⟩
      · rintro ⟨⟨cached, hmem, rfl⟩, hbatch⟩
        exact ⟨cached, ⟨hmem, hbatch⟩, rfl⟩
    · cases hsettle

/-! The model, the cache and the transaction. -/

/-- An operation that fails, or that does nothing to the store. -/
theorem exec_nothing {s s' : StoreTrace D} {op : StoreOp D} {a : StoreAns op}
    (hinv : (syncDiscipline home t project initial foreign).inv s)
    (hexec : (syncSystem home t project foreign).exec t s op a s')
    (hnow : s'.now = s.now) (hshown : shownKeys op a = []) :
    (syncDiscipline home t project initial foreign).inv s' := by
  apply exec_still hinv hexec
  · rw [hnow]
  · rw [hnow]
  · rw [hnow]
    exact fun _ h => h
  · rw [hnow]
    exact fun _ h => .inl h
  · rw [hshown]
    exact fun _ h => absurd h List.not_mem_nil

/-- An operation of the transaction: the cache is left alone. -/
theorem exec_writing {s s' : StoreTrace D} {op : StoreOp D} {a : StoreAns op}
    (hinv : (syncDiscipline home t project initial foreign).inv s)
    (hexec : (syncSystem home t project foreign).exec t s op a s')
    (hvectors : s'.now.vectors = s.now.vectors) (hshown : shownKeys op a = [])
    (hindex : s'.now.index project = s.now.index project ∨
      ∀ i seen, op.seeing i seen = [i])
    (hcoherent : (s'.now.index project).Coherent)
    (hworking : ∀ w, s'.now.working t project = some w → w.Coherent) :
    (syncDiscipline home t project initial foreign).inv s' := by
  obtain ⟨hcached, hfollowed⟩ := hinv
  have hkept : ∀ key ∈ keysOf s.now.vectors, key ∈ keysOf s'.now.vectors := by
    rw [hvectors]
    exact fun _ h => h
  refine ⟨hcached.step hexec hkept ?_ ?_,
    hfollowed.step hexec hkept hindex hcoherent hworking⟩
  · rw [hvectors]
    exact fun _ h => .inl h
  · rw [hshown]
    exact fun _ h => absurd h List.not_mem_nil

theorem syncs_embedPassages {f : EmbeddingError → ε'} (texts : List Text) :
    Syncs home t project initial foreign v (tryOp f (.embedPassages texts) rfl)
      fun _ v' => v' = { v with sent := texts ++ v.sent } := by
  apply syncs_tryOp rfl
  intro s s' r hinv hv hexec
  obtain ⟨hstep, hview⟩ := exec_own hexec
  have hnow : s'.now = s.now := by
    rcases r with e | embeddings <;> exact (Option.some.inj hstep).symm
  refine ⟨exec_nothing hinv hexec hnow rfl, ?_⟩
  intro a _
  rw [hview, hnow, ← hv]
  rfl

theorem mem_keysOf_addVector {stored result : List (CachedVector D)}
    {item : CachedVector D} (h : addVector stored item = .ok result) :
    ∀ key, key ∈ keysOf result ↔ key ∈ keysOf stored ∨ key = item.key := by
  intro key
  unfold addVector at h
  split at h
  next existing hfind =>
    split at h
    · obtain rfl := Except.ok.inj h
      refine ⟨.inl, fun hkey => hkey.elim id ?_⟩
      rintro rfl
      have hkey : existing.key = item.key := by simpa using List.find?_some hfind
      rw [← hkey]
      exact List.mem_map_of_mem (List.mem_of_find?_eq_some hfind)
    · cases h
  · obtain rfl := Except.ok.inj h
    simp [keysOf]

/-- An insertion adds exactly the keys of the prepared batch. -/
theorem mem_keysOf_insertPrepared {stored result prepared : List (CachedVector D)}
    (h : insertPrepared stored prepared = .ok result) :
    ∀ key, key ∈ keysOf result ↔ key ∈ keysOf stored ∨ key ∈ keysOf prepared := by
  induction prepared generalizing stored with
  | nil =>
      intro key
      cases h
      simp [keysOf]
  | cons item prepared ih =>
      intro key
      unfold insertPrepared at h
      rw [List.foldlM_cons] at h
      obtain ⟨middle, hitem, hrest⟩ := except_bind_eq_ok.1 h
      rw [ih hrest, mem_keysOf_addVector hitem, or_assoc]
      simp [keysOf]

/-- Inserted vectors are merged with the stored ones. -/
theorem settle_insertVectors {u : Tid} {s s' : StoreState D}
    {prepared : List (CachedVector D)}
    (h : settle home u s (.insertVectors prepared) (.ok ()) = some s') :
    ∃ vectors, insertPrepared s.vectors prepared = .ok vectors ∧
      s' = { s with vectors := vectors } := by
  unfold settle at h
  dsimp only at h
  split at h
  next vectors hinsert => exact ⟨vectors, hinsert, (Option.some.inj h).symm⟩
  · cases h

theorem syncs_insertVectors {f : VectorError D → ε'}
    (prepared : List (CachedVector D)) :
    Syncs home t project initial foreign v (tryOp f (.insertVectors prepared) rfl)
      fun _ v' => v' = { v with
        shown := keysOf prepared ++ v.shown
        added := keysOf prepared ++ v.added } := by
  apply syncs_tryOp rfl
  intro s s' r hinv hv hexec
  obtain ⟨hstep, hview⟩ := exec_own hexec
  rcases r with e | ⟨⟩
  · refine ⟨exec_nothing hinv hexec (Option.some.inj hstep).symm rfl, ?_⟩
    intro a ha
    cases ha
  · obtain ⟨vectors, hinsert, hnow⟩ := settle_insertVectors hstep
    have hmem := mem_keysOf_insertPrepared hinsert
    have hvectors : s'.now.vectors = vectors := by rw [hnow]
    refine ⟨exec_still hinv hexec (by rw [hnow]; rfl) (by rw [hnow]; rfl) ?_ ?_ ?_, ?_⟩
    · intro key hkey
      rw [hvectors]
      exact (hmem key).2 (.inl hkey)
    · intro key hkey
      rw [hvectors] at hkey
      exact (hmem key).1 hkey
    · intro key hkey
      rw [hvectors]
      exact (hmem key).2 (.inr hkey)
    · intro a _
      rw [hview, hnow, ← hv]
      rfl

/-- A transaction starts from the index as it is, at least as late as the one
last seen. -/
theorem syncs_begin (operation : Text) (path : PathBuf) :
    Syncs home t project initial foreign v
      (sql operation path (.beginImmediate project) rfl) fun _ v' =>
        ∃ i, v.Before i ∧ i.Coherent ∧
          v' = { v with seen := i :: v.seen, working := some i } := by
  apply syncs_tryOp rfl
  intro s s' r hinv hv hexec
  obtain ⟨hstep, hview⟩ := exec_own hexec
  rcases r with e | ⟨⟩
  · refine ⟨exec_nothing hinv hexec (Option.some.inj hstep).symm rfl, ?_⟩
    intro a ha
    cases ha
  · change s.now.begin t project = _ at hstep
    unfold StoreState.begin at hstep
    split at hstep
    · have hnow := Option.some.inj hstep
      have hindex : s'.now.index project = s.now.index project := by
        rw [← hnow]
        rfl
      have hworking : s'.now.working t project = some (s.now.index project) := by
        rw [← hnow]
        simp [StoreState.working]
      have hcoherent := hinv.2.coherent
      refine ⟨exec_writing hinv hexec (by rw [← hnow]) rfl (.inl hindex) ?_ ?_, ?_⟩
      · rw [hindex]
        exact hcoherent
      · intro w hw
        rw [hworking] at hw
        obtain rfl := Option.some.inj hw
        exact hcoherent
      · intro a _
        refine ⟨s.now.index project, ?_, hcoherent, ?_⟩
        · intro j hj
          rw [← hv] at hj
          exact hinv.2.later j hj
        · rw [hview, hindex, hworking, ← hv]
          rfl
    · cases hstep

omit [DecidableEq D] in
theorem working_eq_some {s : StoreState D} {w : Index D}
    (h : s.working t project = some w) :
    ∃ writer, s.writers project = some writer ∧ writer.thread = t ∧
      writer.working = w := by
  unfold StoreState.working at h
  split at h
  next writer hwriter =>
    split at h
    next hthread => exact ⟨writer, hwriter, hthread, Option.some.inj h⟩
    · cases h
  · cases h

omit [DecidableEq D] in
theorem Update.apply_coherent (change : Update D) {i : Index D} (h : i.Coherent) :
    (change.apply i).Coherent := by
  cases change with
  | clearProject =>
      intro row hrow
      change row ∈ i.clearProject.chunks at hrow
      rw [h.clearProject_chunks] at hrow
      cases hrow
  | deletePage path => exact h.deletePage path
  | upsertPage row chunks => exact h.upsertPage row chunks
  | updatePageMetadata row => exact h.updateDoc row
  | writeEmbeddingScheme scheme => exact h
  | setGeneration generation => exact h

theorem syncs_update (operation : Text) (path : PathBuf) {w : Index D}
    (hw : v.working = some w) (change : Update D) :
    Syncs home t project initial foreign v
      (sql operation path (.update project change) rfl)
      fun _ v' => v' = { v with working := some (change.apply w) } := by
  apply syncs_tryOp rfl
  intro s s' r hinv hv hexec
  obtain ⟨hstep, hview⟩ := exec_own hexec
  have hown : s.now.working t project = some w := by
    rw [← hw, ← hv]
    rfl
  obtain ⟨writer, hwriter, hthread, hworking⟩ := working_eq_some hown
  rcases r with e | ⟨⟩
  · refine ⟨exec_nothing hinv hexec (Option.some.inj hstep).symm rfl, ?_⟩
    intro a ha
    cases ha
  · change s.now.write t project change = _ at hstep
    unfold StoreState.write at hstep
    rw [hwriter] at hstep
    dsimp only at hstep
    rw [if_pos hthread] at hstep
    have hnow := Option.some.inj hstep
    have hindex : s'.now.index project = s.now.index project := by
      rw [← hnow]
      rfl
    have hnext : s'.now.working t project = some (change.apply w) := by
      rw [← hnow, ← hworking]
      simp [StoreState.working]
    refine ⟨exec_writing hinv hexec (by rw [← hnow]) rfl (.inl hindex) ?_ ?_, ?_⟩
    · rw [hindex]
      exact hinv.2.coherent
    · intro w' hw'
      rw [hnext] at hw'
      obtain rfl := Option.some.inj hw'
      exact change.apply_coherent (hinv.2.working w hown)
    · intro a _
      rw [hview, hnext, ← hv]
      rfl

theorem syncs_commit (operation : Text) (path : PathBuf) {w : Index D}
    (hw : v.working = some w) :
    Syncs home t project initial foreign v
      (sql operation path (.commit project) rfl)
      fun _ v' => v' = { v with seen := [w], working := none } := by
  apply syncs_tryOp rfl
  intro s s' r hinv hv hexec
  obtain ⟨hstep, hview⟩ := exec_own hexec
  have hown : s.now.working t project = some w := by
    rw [← hw, ← hv]
    rfl
  obtain ⟨writer, hwriter, hthread, hworking⟩ := working_eq_some hown
  rcases r with e | ⟨⟩
  · refine ⟨exec_nothing hinv hexec (Option.some.inj hstep).symm rfl, ?_⟩
    intro a ha
    cases ha
  · change s.now.publish t project = _ at hstep
    unfold StoreState.publish at hstep
    rw [hwriter] at hstep
    dsimp only at hstep
    rw [if_pos hthread] at hstep
    have hnow := Option.some.inj hstep
    have hindex : s'.now.index project = w := by
      rw [← hnow, ← hworking]
      simp [StoreState.index, AList.lookup_insert]
    have hnext : s'.now.working t project = none := by
      rw [← hnow]
      simp [StoreState.working]
    refine ⟨exec_writing hinv hexec (by rw [← hnow]) rfl (.inr fun _ _ => rfl) ?_ ?_, ?_⟩
    · rw [hindex]
      exact hinv.2.working w hown
    · intro w' hw'
      rw [hnext] at hw'
      cases hw'
    · intro a _
      rw [hview, hindex, hnext, ← hv]
      rfl

theorem syncs_rollback : Syncs home t project initial foreign v
    (rollback project) fun _ _ => True := by
  intro s hinv hv s₁ hrely hinv₁ answer s₂ hexec
  have hstep := (exec_own hexec).1
  have hnow : s₁.now.abandon t project = s₂.now := Option.some.inj hstep
  have hindex : s₂.now.index project = s₁.now.index project := by
    rw [← hnow, StoreState.abandon]
    split
    · split <;> rfl
    · rfl
  have hvectors : s₂.now.vectors = s₁.now.vectors := by
    rw [← hnow, StoreState.abandon]
    split
    · split <;> rfl
    · rfl
  have hworking : ∀ w, s₂.now.working t project = some w → w.Coherent := by
    intro w hw
    apply hinv₁.2.working w
    rw [← hnow, StoreState.abandon] at hw
    split at hw
    next writer hwriter =>
      split at hw
      · simp [StoreState.working] at hw
      · exact hw
    · exact hw
  refine ⟨exec_writing hinv₁ hexec hvectors rfl (.inl hindex) ?_ hworking, rfl, ?_⟩
  · rw [hindex]
    exact hinv₁.2.coherent
  · intro s₃ _ _
    exact trivial

end

end

end Yams.Store
