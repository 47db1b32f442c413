/-
What each part of a synchronization does: one specification for every function
from the lookups to the transaction.
-/
import Yams.ListOrder
import Yams.SyncRun

namespace Yams.Store

section

variable {D : Type} [DecidableEq D] {home : StoreHome} {t : Tid} {project : PathBuf}
  {initial : List (VectorKey D)} {foreign : VectorKey D → Prop}
variable {v : SyncView D} {ε ε' α β : Type} {Q : α → SyncView D → Prop}

/-! Quiet parts. -/

/-- The part leaves everything that is the synchronization's own alone. -/
abbrev Idles (home : StoreHome) (t : Tid) (project : PathBuf)
    (initial : List (VectorKey D)) (foreign : VectorKey D → Prop) {ε α : Type}
    (p : StoreProg D ε α) : Prop :=
  ∀ v, Syncs home t project initial foreign v p fun _ v' => v' = v

theorem idles_tryOp {f : ε → ε'} {op : StoreOp D} (h : StoreAns op = Except ε α)
    (hop : op.Quiet) : Idles home t project initial foreign (tryOp f op h) := by
  intro v
  apply syncs_tryOp h
  intro s s' r hinv hv hexec
  obtain ⟨hinv', hview⟩ := exec_quiet hop hinv hexec
  refine ⟨hinv', fun a _ => ?_⟩
  rw [hview, hv]

theorem idles_perform {op : StoreOp D} (hop : op.Quiet) :
    Idles home t project initial foreign
      (Fallible.perform op : StoreProg D ε (StoreAns op)) := by
  intro v
  apply syncs_quiet
  · exact ⟨hop, fun _ => trivial⟩
  · intro _
    rfl

theorem idles_ofExcept (r : Except ε α) :
    Idles home t project initial foreign (Fallible.ofExcept r : StoreProg D ε α) :=
  fun _ => leads_ofExcept fun _ _ => rfl

theorem idles_pure (a : α) :
    Idles home t project initial foreign (pure a : StoreProg D ε α) :=
  fun _ => leads_pure rfl

theorem idles_bind {p : StoreProg D ε α} {f : α → StoreProg D ε β}
    (hp : Idles home t project initial foreign p)
    (hf : ∀ a, Idles home t project initial foreign (f a)) :
    Idles home t project initial foreign (p >>= f) := by
  intro v
  apply leads_bind (hp v)
  rintro a _ rfl
  exact hf a _

theorem idles_foldlM {E : Type} {f : β → E → StoreProg D ε β} (items : List E)
    (hf : ∀ b item, Idles home t project initial foreign (f b item)) (b : β) :
    Idles home t project initial foreign (items.foldlM f b) := by
  induction items generalizing b with
  | nil => exact idles_pure b
  | cons item items ih =>
      rw [List.foldlM_cons]
      exact idles_bind (hf b item) fun b' => ih b'

/-- What follows a quiet part starts from the same view. -/
theorem syncs_after {p : StoreProg D ε β} {f : β → StoreProg D ε α}
    (hp : Idles home t project initial foreign p)
    (hf : ∀ b, Syncs home t project initial foreign v (f b) Q) :
    Syncs home t project initial foreign v (p >>= f) Q := by
  apply leads_bind (hp v)
  rintro b _ rfl
  exact hf b

/-- A computed result is followed by the rest. -/
theorem syncs_ofExcept {r : Except ε β} {f : β → StoreProg D ε α}
    (hf : ∀ b, r = .ok b → Syncs home t project initial foreign v (f b) Q) :
    Syncs home t project initial foreign v (Fallible.ofExcept r >>= f) Q := by
  have hresult : Syncs home t project initial foreign v
      (Fallible.ofExcept r : StoreProg D ε β) fun b v' => v' = v ∧ r = .ok b :=
    leads_ofExcept fun b hb => ⟨rfl, hb⟩
  apply leads_bind hresult
  rintro b _ ⟨rfl, hb⟩
  exact hf b hb

theorem syncs_ensure {p : Prop} [Decidable p] {e : ε} {f : Unit → StoreProg D ε α}
    (hf : p → Syncs home t project initial foreign v (f ()) Q) :
    Syncs home t project initial foreign v (ensure p e >>= f) Q := by
  apply syncs_ofExcept
  intro _ hp
  split at hp
  next h => exact hf h
  · cases hp

theorem idles_ensure {p : Prop} [Decidable p] {e : ε} :
    Idles home t project initial foreign (ensure p e : StoreProg D ε Unit) :=
  idles_ofExcept _

theorem idles_verifyProjectRoot (binding : ProjectRootBinding) :
    Idles home t project initial foreign (verifyProjectRoot (D := D) binding) :=
  idles_bind (idles_perform ⟨by exact trivial, fun _ _ => rfl⟩) fun _ => idles_ensure

theorem idles_openVectorCache :
    Idles home t project initial foreign (openVectorCache (D := D)) :=
  idles_tryOp rfl ⟨by exact trivial, fun _ _ => rfl⟩

theorem idles_revalidateLease :
    Idles home t project initial foreign (revalidateLease (D := D)) :=
  idles_tryOp rfl ⟨by exact trivial, fun _ _ => rfl⟩

section

variable [Sha256 D]

theorem idles_revalidatePage (page : ScannedPage D) :
    Idles home t project initial foreign (revalidatePage page) :=
  idles_bind (idles_ofExcept _) fun _ => idles_tryOp rfl ⟨by exact trivial, fun _ _ => rfl⟩

theorem idles_revalidateUpserts (pages : List (PageUpsert D)) :
    Idles home t project initial foreign (revalidateUpserts pages) :=
  idles_foldlM pages (fun _ page => idles_revalidatePage page.source) ()

theorem idles_revalidateDeletionNamespaces (mode : SyncMode)
    (deletions : List PathBuf) (scan : ScanReport D) :
    Idles home t project initial foreign
      (revalidateDeletionNamespaces mode deletions scan) := by
  unfold revalidateDeletionNamespaces
  split
  · exact idles_bind (idles_ofExcept _) fun _ => idles_tryOp rfl ⟨by exact trivial, fun _ _ => rfl⟩
  · exact idles_pure ()

end

/-- The body runs, and the lease is released. -/
theorem syncs_withLease {f : VectorError D → ε} {body : StoreProg D ε α}
    (hbody : Syncs home t project initial foreign v body Q) :
    Syncs home t project initial foreign v (withLease f body) Q := by
  unfold withLease
  apply syncs_after (idles_tryOp rfl ⟨by exact trivial, fun _ _ => rfl⟩)
  intro _
  apply leads_bind (leads_observe hbody)
  intro r v' hr
  apply syncs_after (idles_perform ⟨by exact trivial, fun _ _ => rfl⟩)
  intro _
  exact leads_ofExcept hr

/-! Lookups. -/

theorem flatten_toChunks_go {E : Type} (n : Nat) (items : List E) (batch : Array E)
    (batches : Array (List E)) :
    (List.toChunks.go n items batch batches).flatten =
      batches.toList.flatten ++ (batch.toList ++ items) := by
  induction items generalizing batch batches with
  | nil => simp [List.toChunks.go]
  | cons item items ih =>
      rw [List.toChunks.go]
      split
      · rw [ih]
        simp
      · rw [ih]
        simp

/-- The batches of a list are the list. -/
theorem flatten_toChunks {E : Type} (n : Nat) (items : List E) :
    (items.toChunks n).flatten = items := by
  cases items with
  | nil => cases n <;> rfl
  | cons item items =>
      cases n with
      | zero => simp [List.toChunks]
      | succ n =>
          rw [List.toChunks, flatten_toChunks_go]
          · rfl
          · exact Nat.succ_ne_zero n

theorem mem_toChunks {E : Type} (n : Nat) (items : List E) {item : E} :
    item ∈ items ↔ ∃ batch ∈ items.toChunks n, item ∈ batch := by
  rw [← List.mem_flatten, flatten_toChunks]

theorem foldlM_filter_strike {missing stored result : List (VectorKey D)}
    (h : strikeStored missing stored = .ok result) :
    ∀ key, key ∈ result ↔ key ∈ missing ∧ key ∉ stored := by
  induction stored generalizing missing with
  | nil =>
      intro key
      cases h
      simp
  | cons head stored ih =>
      intro key
      unfold strikeStored at h
      rw [List.foldlM_cons] at h
      obtain ⟨middle, hhead, hrest⟩ := except_bind_eq_ok.1 h
      split at hhead
      · obtain rfl := Except.ok.inj hhead
        rw [ih hrest, List.mem_filter]
        simp only [decide_eq_true_eq, List.mem_cons, not_or, ne_eq, and_assoc]
      · cases hhead

/-- What is not missing has been shown. -/
theorem syncs_missingVectors (requested : List (VectorKey D)) :
    Syncs home t project initial foreign v (missingVectors requested)
      fun missing v' => Looks initial foreign v v' ∧
        ∀ key ∈ requested, key ∉ missing → key ∈ v'.shown := by
  refine leads_foldlM (fun rest missing v' => Looks initial foreign v v' ∧
    ∀ key ∈ requested, key ∉ missing → key ∈ v'.shown) ?_ ?_
  · rintro batch rest missing v' ⟨hlooks, hshown⟩
    apply leads_bind (syncs_selectKeys batch)
    rintro stored v'' ⟨hlooks', hstored, _⟩
    apply leads_ofExcept
    intro result hresult
    refine ⟨hlooks.trans hlooks', ?_⟩
    intro key hkey hnot
    by_cases hmem : key ∈ missing
    · apply hstored
      by_contra hnew
      exact hnot ((foldlM_filter_strike hresult key).2 ⟨hmem, hnew⟩)
    · exact hlooks'.kept key (hshown key hkey hmem)
  · exact ⟨Looks.refl v, fun key hkey hnot => absurd hkey hnot⟩

/-- What a lookup has collected. -/
theorem collectFound_keys {requested : List (VectorKey D)}
    {found rows result : List (CachedVector D)}
    (h : collectFound requested found rows = .ok result) :
    ∀ key, key ∈ keysOf result ↔ key ∈ keysOf found ∨ key ∈ keysOf rows := by
  induction rows generalizing found with
  | nil =>
      intro key
      cases h
      simp [keysOf]
  | cons row rows ih =>
      intro key
      unfold collectFound at h
      rw [List.foldlM_cons] at h
      obtain ⟨middle, hrow, hrest⟩ := except_bind_eq_ok.1 h
      split at hrow
      · cases hrow
      split at hrow
      · cases hrow
      obtain rfl := Except.ok.inj hrow
      rw [ih hrest]
      simp [keysOf, or_assoc]

/-- What a lookup finds is cached, and it finds all that was cached before. -/
theorem syncs_getMany (requested : List (VectorKey D)) :
    Syncs home t project initial foreign v (getMany requested)
      fun found v' => Looks initial foreign v v' ∧
        (∀ key ∈ keysOf found, key ∈ v'.shown) ∧
        ∀ key ∈ requested, key ∈ v.shown ∨ key ∈ initial → key ∈ keysOf found := by
  refine leads_mono (leads_foldlM (fun rest found v' => Looks initial foreign v v' ∧
    (∀ key ∈ keysOf found, key ∈ v'.shown) ∧
    ∀ key ∈ requested, key ∈ v.shown ∨ key ∈ initial →
      key ∈ keysOf found ∨ ∃ batch ∈ rest, key ∈ batch) ?_ ?_) ?_
  rotate_left 2
  · rintro found v' ⟨hlooks, hfound, hall⟩
    refine ⟨hlooks, hfound, ?_⟩
    intro key hkey hknown
    rcases hall key hkey hknown with hmem | ⟨_, hnil, _⟩
    · exact hmem
    · cases hnil
  · rintro batch rest found v' ⟨hlooks, hfound, hall⟩
    apply leads_bind (syncs_selectVectors batch)
    rintro rows v'' ⟨hlooks', hrows, hcached⟩
    apply leads_ofExcept
    intro result hresult
    have hkeys := collectFound_keys hresult
    refine ⟨hlooks.trans hlooks', ?_, ?_⟩
    · intro key hkey
      rcases (hkeys key).1 hkey with hold | hnew
      · exact hlooks'.kept key (hfound key hold)
      · exact hrows key hnew
    · intro key hkey hknown
      rcases hall key hkey hknown with hmem | ⟨other, hother, hin⟩
      · exact .inl ((hkeys key).2 (.inl hmem))
      · rcases List.mem_cons.1 hother with rfl | hlater
        · have hknown' : key ∈ v'.shown ∨ key ∈ initial :=
            hknown.imp_left (hlooks.kept key)
          exact .inl ((hkeys key).2 (.inr (hcached key hin hknown')))
        · exact .inr ⟨other, hlater, hin⟩
  · refine ⟨Looks.refl v, ?_, ?_⟩
    · intro key hkey
      cases hkey
    · intro key hkey _
      exact .inr ((mem_toChunks 128 requested).1 hkey)

/-! The model. -/

theorem findEmbedded_cons {entry : Embedded D} {embedded : List (Embedded D)}
    {key : VectorKey D} (h : entry.key = key ∨ (findEmbedded embedded key).isSome) :
    (findEmbedded (entry :: embedded.filter fun other => other.key ≠ entry.key)
      key).isSome := by
  unfold findEmbedded at h ⊢
  by_cases hkey : entry.key = key
  · simp [hkey]
  · rcases h with heq | hsome
    · exact absurd heq hkey
    · rw [List.find?_cons_of_neg (by simpa using hkey), List.find?_isSome]
      obtain ⟨other, hmem, hother⟩ := List.find?_isSome.1 hsome
      have heq : other.key = key := by simpa using hother
      refine ⟨other, List.mem_filter.2 ⟨hmem, ?_⟩, hother⟩
      rw [decide_eq_true_eq, heq]
      exact Ne.symm hkey

/-- Every accepted vector is found, and what was found before still is. -/
theorem acceptBatch_found {dimensions : Nat} {inputs : List (VectorKey D × Text)}
    {embeddings : List Embedding} {embedded result : List (Embedded D)}
    (h : acceptBatch dimensions inputs embeddings embedded = .ok result)
    (hlength : embeddings.length = inputs.length) (key : VectorKey D)
    (hkey : (findEmbedded embedded key).isSome ∨ key ∈ inputs.map Prod.fst) :
    (findEmbedded result key).isSome := by
  induction inputs generalizing embeddings embedded with
  | nil =>
      rcases hkey with hsome | hmem
      · cases embeddings with
        | nil =>
            cases h
            exact hsome
        | cons => cases hlength
      · cases hmem
  | cons input inputs ih =>
      cases embeddings with
      | nil => cases hlength
      | cons embedding embeddings =>
          obtain ⟨inputKey, text⟩ := input
          unfold acceptBatch at h
          split at h
          · cases h
          · apply ih h (Nat.succ.inj hlength)
            rcases hkey with hsome | hmem
            · exact .inl (findEmbedded_cons (.inr hsome))
            · rcases List.mem_cons.1 hmem with heq | hlater
              · exact .inl (findEmbedded_cons (.inl heq.symm))
              · exact .inr hlater

/-- Only texts for some keys are sent to the model between two views. -/
structure Sends (texts : List (VectorKey D × Text)) (keys : List (VectorKey D))
    (v v' : SyncView D) : Prop where
  seen : v'.seen = v.seen
  working : v'.working = v.working
  shown : v'.shown = v.shown
  added : v'.added = v.added
  inventories : v'.inventories = v.inventories
  sent : ∀ text, text ∈ v'.sent ↔
    text ∈ v.sent ∨ ∃ key ∈ keys, lookupText texts key = .ok text
  texts : ∀ key ∈ keys, ∃ text, lookupText texts key = .ok text

theorem Sends.refl (texts : List (VectorKey D × Text)) (v : SyncView D) :
    Sends texts [] v v := by
  refine ⟨rfl, rfl, rfl, rfl, rfl, ?_, ?_⟩
  · intro text
    constructor
    · exact .inl
    · rintro (hold | ⟨_, hnil, _⟩)
      · exact hold
      · cases hnil
  · intro key hkey
    cases hkey

theorem Sends.trans {texts : List (VectorKey D × Text)} {keys keys' : List (VectorKey D)}
    {v v' v'' : SyncView D} (h : Sends texts keys v v') (h' : Sends texts keys' v' v'') :
    Sends texts (keys ++ keys') v v'' := by
  refine ⟨h'.seen.trans h.seen, h'.working.trans h.working, h'.shown.trans h.shown,
    h'.added.trans h.added, h'.inventories.trans h.inventories, ?_, ?_⟩
  · intro text
    rw [h'.sent, h.sent, or_assoc]
    apply or_congr_right
    constructor
    · rintro (⟨key, hkey, hlookup⟩ | ⟨key, hkey, hlookup⟩)
      · exact ⟨key, List.mem_append_left _ hkey, hlookup⟩
      · exact ⟨key, List.mem_append_right _ hkey, hlookup⟩
    · rintro ⟨key, hkey, hlookup⟩
      rcases List.mem_append.1 hkey with hfirst | hsecond
      · exact .inl ⟨key, hfirst, hlookup⟩
      · exact .inr ⟨key, hsecond, hlookup⟩
  · intro key hkey
    rcases List.mem_append.1 hkey with hfirst | hsecond
    · exact h.texts key hfirst
    · exact h'.texts key hsecond

theorem syncs_embedBatch (texts : List (VectorKey D × Text)) (dimensions : Nat)
    (embedded : List (Embedded D)) (batch : List (VectorKey D)) :
    Syncs home t project initial foreign v (embedBatch texts dimensions embedded batch)
      fun result v' => Sends texts batch v v' ∧
        ∀ key, (findEmbedded embedded key).isSome ∨ key ∈ batch →
          (findEmbedded result key).isSome := by
  unfold embedBatch
  apply syncs_ofExcept
  intro batchText hbatch
  obtain ⟨hlength, hsound, hcomplete⟩ := mapM_mem hbatch
  apply leads_bind (syncs_embedPassages batchText)
  rintro embeddings _ rfl
  apply syncs_ensure
  intro hcount
  apply leads_ofExcept
  intro result hresult
  refine ⟨⟨rfl, rfl, rfl, rfl, rfl, ?_, ?_⟩, ?_⟩
  · intro text
    rw [List.mem_append, or_comm]
    apply or_congr_right
    constructor
    · exact hsound text
    · rintro ⟨key, hkey, hlookup⟩
      obtain ⟨found, hfound, heq⟩ := hcomplete key hkey
      rw [hlookup] at heq
      cases heq
      exact hfound
  · intro key hkey
    obtain ⟨text, _, heq⟩ := hcomplete key hkey
    exact ⟨text, heq⟩
  · intro key hkey
    have hkeys : (batch.zip batchText).map Prod.fst = batch :=
      List.map_fst_zip hlength.ge
    apply acceptBatch_found hresult _ key
    · rw [hkeys]
      exact hkey
    · rw [List.length_zip, hlength, Nat.min_self, hcount]

theorem syncs_embedKeys (keys : List (VectorKey D)) (texts : List (VectorKey D × Text))
    (dimensions : Nat) (embedded : List (Embedded D)) :
    Syncs home t project initial foreign v (embedKeys keys texts dimensions embedded)
      fun result v' => Sends texts keys v v' ∧
        ∀ key, (findEmbedded embedded key).isSome ∨ key ∈ keys →
          (findEmbedded result key).isSome := by
  apply leads_mono (leads_foldlM (fun rest result v' => ∃ done,
    done ++ rest.flatten = keys ∧ Sends texts done v v' ∧
      ∀ key, (findEmbedded embedded key).isSome ∨ key ∈ done →
        (findEmbedded result key).isSome) ?_ ?_)
  · rintro result v' ⟨done, hdone, hsends, hfound⟩
    rw [List.flatten_nil, List.append_nil] at hdone
    rw [← hdone]
    exact ⟨hsends, hfound⟩
  · rintro batch rest result v' ⟨done, hdone, hsends, hfound⟩
    apply leads_mono (syncs_embedBatch texts dimensions result batch)
    rintro result' v'' ⟨hsends', hfound'⟩
    refine ⟨done ++ batch, ?_, hsends.trans hsends', ?_⟩
    · rw [List.append_assoc, ← List.flatten_cons]
      exact hdone
    · rintro key (hold | hmem)
      · exact hfound' key (.inl (hfound key (.inl hold)))
      · rcases List.mem_append.1 hmem with hfirst | hsecond
        · exact hfound' key (.inl (hfound key (.inr hfirst)))
        · exact hfound' key (.inr hsecond)
  · refine ⟨[], flatten_toChunks 32 keys, Sends.refl texts v, ?_⟩
    rintro key (hold | hnil)
    · exact hold
    · cases hnil

theorem mem_notFound {requested : List (VectorKey D)} {cached : List (CachedVector D)}
    {key : VectorKey D} :
    key ∈ notFound requested cached ↔ key ∈ requested ∧ key ∉ keysOf cached := by
  unfold notFound
  simp only [List.mem_filter, decide_eq_true_eq]

section

variable [Sha256 D]

/-- The first look at the cache: a staged vector is shown to be there, or its
text is sent to the model, and then it was not there at first. -/
theorem syncs_embedInitially (staged : List (StagedPage D)) (embedder : Embedder) :
    Syncs home t project initial foreign v (embedInitially staged embedder)
      fun embedded v' => ∃ missing v₁, Looks initial foreign v v₁ ∧
        Sends (stagedTexts staged) missing v₁ v' ∧
        (∀ key ∈ missing, key ∈ stagedKeys staged ∧ key ∉ initial) ∧
        ∀ key ∈ stagedKeys staged, key ∈ v'.shown ∨
          key ∈ missing ∧ (findEmbedded embedded key).isSome := by
  unfold embedInitially
  dsimp only
  split
  next hnone =>
    apply leads_pure
    refine ⟨[], v, Looks.refl v, Sends.refl _ v, ?_, ?_⟩
    · intro key hkey
      cases hkey
    · rw [hnone]
      intro key hkey
      cases hkey
  · apply syncs_after idles_openVectorCache
    intro _
    apply leads_bind (syncs_getMany (stagedKeys staged))
    rintro cached v₁ ⟨hlooks, hfound, hall⟩
    apply syncs_after (idles_ofExcept _)
    intro _
    apply leads_mono (syncs_embedKeys _ _ _ _)
    rintro embedded v' ⟨hsends, hembedded⟩
    refine ⟨_, v₁, hlooks, hsends, ?_, ?_⟩
    · intro key hkey
      obtain ⟨hstaged, hnew⟩ := mem_notFound.1 hkey
      exact ⟨hstaged, fun hinitial => hnew (hall key hstaged (.inr hinitial))⟩
    · intro key hkey
      by_cases hcached : key ∈ keysOf cached
      · rw [hsends.shown]
        exact .inl (hfound key hcached)
      · have hmissing := mem_notFound.2 ⟨hkey, hcached⟩
        exact .inr ⟨hmissing, hembedded key (.inr hmissing)⟩

theorem validate_key {input : VectorInsert D} {cached : CachedVector D}
    (h : input.validate = .ok cached) : cached.key = input.key := by
  unfold VectorInsert.validate at h
  obtain ⟨expected, _, h⟩ := except_bind_eq_ok.1 h
  split at h
  · cases h
  split at h
  · cases h
  · cases h
    rfl

/-- A prepared batch holds vectors of the input only. -/
theorem prepareBatch_keys {input : List (VectorInsert D)} {prepared : List (CachedVector D)}
    (h : prepareBatch input = .ok prepared) :
    ∀ key ∈ keysOf prepared, key ∈ input.map VectorInsert.key := by
  have hfold : ∀ start : List (CachedVector D),
      input.foldlM (fun prepared item => do addVector prepared (← item.validate)) start =
        .ok prepared →
      ∀ key ∈ keysOf prepared, key ∈ keysOf start ∨ key ∈ input.map VectorInsert.key := by
    clear h
    induction input with
    | nil =>
        intro start hstart key hkey
        cases hstart
        exact .inl hkey
    | cons item input ih =>
        intro start hstart key hkey
        rw [List.foldlM_cons] at hstart
        obtain ⟨next, hnext, hrest⟩ := except_bind_eq_ok.1 hstart
        obtain ⟨cached, hvalid, hadd⟩ := except_bind_eq_ok.1 hnext
        rcases ih next hrest key hkey with hold | hlater
        · rcases (mem_keysOf_addVector hadd key).1 hold with hstart' | rfl
          · exact .inl hstart'
          · rw [validate_key hvalid]
            exact .inr List.mem_cons_self
        · exact .inr (List.mem_cons_of_mem _ hlater)
  intro key hkey
  rcases hfold [] h key hkey with hnil | hinput
  · cases hnil
  · exact hinput

/-- What vectors that are stored add to a tally: lookups, and the insertion of
some fresh vectors. -/
structure Stores (fresh : VectorKey D → Prop) (v v' : Tally D) : Prop where
  inventories : v'.inventories = v.inventories
  sent : ∀ text, text ∈ v'.sent ↔ text ∈ v.sent
  kept : ∀ key ∈ v.shown, key ∈ v'.shown
  added : ∀ key ∈ v'.added, key ∈ v.added ∨ fresh key

omit [DecidableEq D] [Sha256 D] in
theorem Looks.stores {v v' : SyncView D} (h : Looks initial foreign v v')
    (fresh : VectorKey D → Prop) : Stores fresh v.toTally v'.toTally := by
  refine ⟨h.inventories, ?_, h.kept, ?_⟩
  · intro text
    rw [h.sent]
  · intro key hkey
    rw [h.added] at hkey
    exact .inl hkey

omit [DecidableEq D] [Sha256 D] in
theorem Stores.trans {fresh : VectorKey D → Prop} {v v' v'' : Tally D}
    (h : Stores fresh v v') (h' : Stores fresh v' v'') : Stores fresh v v'' := by
  refine ⟨h'.inventories.trans h.inventories, ?_, ?_, ?_⟩
  · intro text
    rw [h'.sent, h.sent]
  · intro key hkey
    exact h'.kept key (h.kept key hkey)
  · intro key hkey
    rcases h'.added key hkey with hold | hfresh
    · exact h.added key hold
    · exact .inr hfresh

theorem syncs_insertBatch {fresh : VectorKey D → Prop} (input : List (VectorInsert D))
    (hinput : ∀ key ∈ input.map VectorInsert.key, fresh key) :
    Syncs home t project initial foreign v (insertBatch input)
      fun _ v' => v'.seen = v.seen ∧ Stores fresh v.toTally v'.toTally := by
  unfold insertBatch
  apply syncs_ofExcept
  intro prepared hprepared
  have hkeys := prepareBatch_keys (except_mapError_eq_ok.1 hprepared)
  split
  · apply leads_pure
    have hsame : Looks initial foreign v v := Looks.refl v
    exact ⟨rfl, hsame.stores fresh⟩
  · apply leads_mono (syncs_insertVectors prepared)
    rintro _ _ rfl
    refine ⟨rfl, rfl, fun _ => Iff.rfl, ?_, ?_⟩
    · intro key hkey
      exact List.mem_append_right _ hkey
    · intro key hkey
      rcases List.mem_append.1 hkey with hnew | hold
      · exact .inr (hinput key (hkeys key hnew))
      · exact .inl hold

omit [Sha256 D] in
theorem vectorInsert_key {modelSignature : Text} {embedded : List (Embedded D)}
    {key : VectorKey D} {insert : VectorInsert D}
    (h : vectorInsert modelSignature embedded key = .ok insert) : insert.key = key := by
  unfold vectorInsert at h
  split at h
  · cases h
    rfl
  · cases h

omit [Sha256 D] in
theorem embedKeys_nil (texts : List (VectorKey D × Text)) (dimensions : Nat)
    (embedded : List (Embedded D)) :
    embedKeys [] texts dimensions embedded = pure embedded := rfl

/-- Under the lease nothing more is sent to the model, and in the end every
staged vector has been shown to be in the cache. -/
theorem syncs_storeVectors {staged : List (StagedPage D)} {embedder : Embedder}
    {embedded : List (Embedded D)}
    (hready : ∀ key ∈ stagedKeys staged,
      key ∈ v.shown ∨ (findEmbedded embedded key).isSome) :
    Syncs home t project initial foreign v (storeVectors staged embedder embedded)
      fun _ v' => v'.seen = v.seen ∧
        Stores (fun key => key ∈ stagedKeys staged ∧ key ∉ v.shown)
          v.toTally v'.toTally ∧
        ∀ key ∈ stagedKeys staged, key ∈ v'.shown := by
  unfold storeVectors
  dsimp only
  split
  next hnone =>
    apply leads_pure
    have hsame : Looks initial foreign v v := Looks.refl v
    refine ⟨rfl, hsame.stores _, ?_⟩
    rw [hnone]
    intro key hkey
    cases hkey
  · apply syncs_after idles_openVectorCache
    intro _
    apply leads_bind (syncs_getMany (stagedKeys staged))
    rintro cached v₁ ⟨hlooks, hfound, hall⟩
    apply syncs_after (idles_ofExcept _)
    intro _
    apply syncs_after (idles_ofExcept _)
    intro _
    have hnothing : (notFound (stagedKeys staged) cached).filter
        (fun key => (findEmbedded embedded key).isNone) = [] := by
      apply List.filter_eq_nil_iff.2
      intro key hkey
      obtain ⟨hstaged, hnew⟩ := mem_notFound.1 hkey
      rcases hready key hstaged with hshown | hsome
      · exact absurd (hall key hstaged (.inl hshown)) hnew
      · rw [Option.isNone_iff_eq_none, ← ne_eq, Option.ne_none_iff_isSome]
        exact hsome
    rw [hnothing, embedKeys_nil]
    apply syncs_after (idles_pure _)
    intro result
    apply syncs_ofExcept
    intro inserts hinserts
    have hkeys : ∀ key ∈ inserts.map VectorInsert.key,
        key ∈ stagedKeys staged ∧ key ∉ v.shown := by
      intro key hkey
      obtain ⟨insert, hinsert, rfl⟩ := List.mem_map.1 hkey
      obtain ⟨other, hother, heq⟩ := (mapM_mem hinserts).2.1 insert hinsert
      rw [vectorInsert_key heq]
      obtain ⟨hstaged, hnew⟩ := mem_notFound.1 hother
      exact ⟨hstaged, fun hshown => hnew (hall other hstaged (.inl hshown))⟩
    apply leads_bind (syncs_insertBatch inserts hkeys)
    rintro _ v₂ ⟨hseen, hstores⟩
    apply leads_bind (syncs_getMany (stagedKeys staged))
    rintro committed v₃ ⟨hlooks', hfound', _⟩
    apply syncs_after (idles_ofExcept _)
    intro _
    apply syncs_ofExcept
    intro _ hall'
    apply leads_pure
    refine ⟨hlooks'.seen.trans (hseen.trans hlooks.seen),
      ((hlooks.stores _).trans hstores).trans (hlooks'.stores _), ?_⟩
    intro key hkey
    apply hfound'
    by_contra hnew
    unfold firstMissing at hall'
    split at hall'
    next hempty =>
      have hmissing := mem_notFound.2 ⟨hkey, hnew⟩
      rw [hempty] at hmissing
      cases hmissing
    · cases hall'

end

end

end Yams.Store
