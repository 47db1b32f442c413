/-
The laws of the vector cache: a lookup and a load divide the requested keys, and
the insertion of a batch adds its keys or changes nothing.
-/
import Yams.VectorCache

namespace Yams.VectorCache

section

variable {mayFail : Prop} {s : CacheState}

theorem mem_selected {table : Table} {hashes : List Text} {row : Row} :
    row ∈ selected table hashes ↔ row ∈ table.rows ∧ row.hash ∈ hashes := by
  unfold selected
  rw [List.mem_insertionSort, List.mem_filter, decide_eq_true_eq]

theorem nodup_selected (table : Table) (hashes : List Text) :
    ((selected table hashes).map Row.hash).Nodup := by
  have hperm : (selected table hashes).Perm
      (table.rows.filter fun row => row.hash ∈ hashes) := List.perm_insertionSort _ _
  rw [(hperm.map Row.hash).nodup_iff]
  exact table.unique.sublist (List.filter_sublist.map Row.hash)

theorem mem_selected_hashes {table : Table} {hashes : List Text} {hash : Text} :
    hash ∈ (selected table hashes).map Row.hash ↔ hash ∈ table.hashes ∧ hash ∈ hashes := by
  simp only [List.mem_map, mem_selected, Table.hashes]
  constructor
  · rintro ⟨row, ⟨hrow, hmem⟩, rfl⟩
    exact ⟨⟨row, hrow, rfl⟩, hmem⟩
  · rintro ⟨⟨row, hrow, rfl⟩, hmem⟩
    exact ⟨row, ⟨hrow, hmem⟩, rfl⟩

theorem Table.eq_of_hash (table : Table) {row other : Row} (hrow : row ∈ table.rows)
    (hother : other ∈ table.rows) (hhash : row.hash = other.hash) : row = other :=
  List.inj_on_of_nodup_map table.unique hrow hother hhash

/-- The rows that a reading went through are among those of the statement. -/
theorem Reads.initial {α : Type} {rows : List α} {reading : Reading α}
    (h : Reads mayFail rows reading) : reading.rows <+: rows := by
  unfold Reads at h
  split at h
  · exact h ▸ List.prefix_refl _
  · exact h.2

theorem Reading.finish_eq {α β : Type} {rows : List α} {reading : Reading α}
    (h : Reads mayFail rows reading) (operation : Stage → Text) (result : β) :
    (reading.rows = rows ∧ reading.finish operation result = .ok result) ∨
      (mayFail ∧ ∃ e, reading.finish operation result = .error e) := by
  unfold Reads at h
  unfold Reading.finish
  split at h
  next hnone =>
    rw [hnone]
    exact .inl ⟨h, rfl⟩
  next stopped hsome =>
    rw [hsome]
    exact .inr ⟨h.1, _, rfl⟩

/-! The requested keys and the texts of their batches. -/

theorem KeySet.nodup (requested : KeySet) : (requested.keys.map Key.toText).Nodup := by
  apply List.Nodup.map (fun _ _ => toText_injective)
  apply requested.sorted.imp
  rintro left right hlt rfl
  exact List.lt_irrefl _ hlt

/-- A batch has texts of requested keys, none of them in an earlier batch. -/
theorem encodedKeyBatches_split {requested : KeySet} {done rest : List (List Text)}
    {encoded : List Text} (h : encodedKeyBatches requested.keys = done ++ encoded :: rest) :
    (∀ text ∈ encoded, ∃ key ∈ requested.keys, key.toText = text) ∧
      encoded.Nodup ∧ ∀ text ∈ encoded, text ∉ done.flatten := by
  have hflatten := flatten_encodedKeyBatches requested.keys
  rw [h, List.flatten_append, List.flatten_cons] at hflatten
  have hnodup := requested.nodup
  rw [← hflatten] at hnodup
  refine ⟨?_, ?_, ?_⟩
  · intro text htext
    have hmem : text ∈ requested.keys.map Key.toText := by
      rw [← hflatten]
      exact List.mem_append_right _ (List.mem_append_left _ htext)
    exact List.mem_map.1 hmem
  · exact (hnodup.sublist (List.sublist_append_right _ _)).sublist
      (List.sublist_append_left _ _)
  · intro text htext hdone
    exact (List.nodup_append'.1 hnodup).2.2 hdone (List.mem_append_left _ htext)

/-! `missing`. -/

theorem foldlM_removeStored {texts : List Text} (hnodup : texts.Nodup) {keys : List Key}
    (hkeys : ∀ text ∈ texts, ∃ key ∈ keys, key.toText = text) :
    texts.foldlM removeStored keys = .ok (keys.filter fun key => key.toText ∉ texts) := by
  induction texts generalizing keys with
  | nil =>
      rw [List.filter_eq_self.2 fun key _ => decide_eq_true List.not_mem_nil]
      rfl
  | cons text texts ih =>
      obtain ⟨hfresh, hrest⟩ := List.nodup_cons.1 hnodup
      obtain ⟨key, hkey, rfl⟩ := hkeys text List.mem_cons_self
      have hremove : removeStored keys key.toText =
          .ok (keys.filter fun other => other ≠ key) := by
        unfold removeStored
        rw [parse_toText]
        exact if_pos hkey
      rw [List.foldlM_cons, hremove, except_ok_bind, ih hrest, List.filter_filter]
      · congr 1
        apply List.filter_congr
        intro other _
        simp only [List.mem_cons, not_or, decide_not, Bool.decide_and]
        rw [Bool.and_comm]
        congr 2
        exact decide_eq_decide.2 ⟨congrArg Key.toText, toText_injective⟩
      · intro other hother
        obtain ⟨otherKey, hmem, rfl⟩ := hkeys other (List.mem_cons_of_mem _ hother)
        refine ⟨otherKey, List.mem_filter.2 ⟨hmem, decide_eq_true ?_⟩, rfl⟩
        rintro rfl
        exact hfresh hother

/-- The requested keys that some batches have left over. -/
def leftOver (requested : KeySet) (table : Table) (done : List (List Text)) : List Key :=
  requested.keys.filter fun key => ¬ (key.toText ∈ table.hashes ∧ key.toText ∈ done.flatten)

theorem missingBatch_spec {requested : KeySet} {done rest : List (List Text)}
    {encoded : List Text} (hbatch : encodedKeyBatches requested.keys = done ++ encoded :: rest) :
    Alone (Exec mayFail) (missingBatch (leftOver requested s.view done) encoded).run
      (Outcomes (fun absent s' => s' = s ∧ absent = leftOver requested s.view (done ++ [encoded]))
        fun _ s' => s' = s ∧ mayFail) s := by
  obtain ⟨htexts, -, hfresh⟩ := encodedKeyBatches_split hbatch
  apply alone_perform
  rintro reading s' ⟨rfl, hreads⟩
  have hinitial := hreads.initial
  have hnodup : reading.rows.Nodup := (nodup_selected _ _).sublist hinitial.sublist
  have hkeys : ∀ text ∈ reading.rows,
      ∃ key ∈ leftOver requested s'.view done, key.toText = text := by
    intro text htext
    obtain ⟨-, hencoded⟩ := mem_selected_hashes.1 (hinitial.subset htext)
    obtain ⟨key, hkey, rfl⟩ := htexts text hencoded
    refine ⟨key, List.mem_filter.2 ⟨hkey, decide_eq_true ?_⟩, rfl⟩
    exact fun hdone => hfresh _ hencoded hdone.2
  have hremoved := foldlM_removeStored hnodup hkeys
  apply alone_ofExcept
  · intro absent habsent
    obtain rfl := Except.ok.inj (hremoved.symm.trans habsent)
    rcases Reading.finish_eq hreads lookupOperation (List.filter
      (fun key => key.toText ∉ reading.rows) (leftOver requested s'.view done)) with
      ⟨hrows, hfinish⟩ | ⟨hfail, e, hfinish⟩
    · rw [hfinish]
      apply alone_ret
      refine ⟨rfl, ?_⟩
      unfold leftOver
      rw [List.filter_filter]
      apply List.filter_congr
      intro key _
      rw [Bool.eq_iff_iff, hrows]
      simp only [Bool.and_eq_true, decide_eq_true_eq, mem_selected_hashes,
        List.flatten_append, List.flatten_singleton, List.mem_append]
      tauto
    · rw [hfinish]
      exact alone_ret ⟨rfl, hfail⟩
  · intro e herror
    cases hremoved.symm.trans herror

/-- The requested keys whose text is no hash of the table. -/
def absentKeys (requested : KeySet) (table : Table) : List Key :=
  requested.keys.filter fun key => key.toText ∉ table.hashes

theorem missing_spec (requested : KeySet) :
    Alone (Exec mayFail) (missing requested).run
      (Outcomes (fun absent s' => s' = s ∧ absent = absentKeys requested s.view)
        fun _ s' => s' = s ∧ mayFail) s := by
  have hfold : Alone (Exec mayFail) (missing requested).run
      (Outcomes (fun absent s' => s' = s ∧
        absent = leftOver requested s.view (encodedKeyBatches requested.keys))
        fun _ s' => s' = s ∧ mayFail) s := by
    apply alone_foldlM fun done absent s' => s' = s ∧ absent = leftOver requested s.view done
    · rintro done encoded rest absent s' hbatch ⟨rfl, rfl⟩
      exact missingBatch_spec hbatch
    · refine ⟨rfl, (List.filter_eq_self.2 fun key _ => decide_eq_true ?_).symm⟩
      exact fun hdone => List.not_mem_nil hdone.2
  apply alone_mono hfold
  rintro (e | absent) s' hpost
  · exact hpost
  · obtain ⟨hsame, rfl⟩ := hpost
    refine ⟨hsame, List.filter_congr fun key hkey => ?_⟩
    have htext : key.toText ∈ (encodedKeyBatches requested.keys).flatten := by
      rw [flatten_encodedKeyBatches]
      exact List.mem_map_of_mem hkey
    rw [decide_eq_decide]
    exact not_congr (and_iff_left htext)

/-! `get_many`. -/

variable {checkNorm : List UInt32 → Except DecodeError Unit}

/-- The row is that of a valid vector. -/
structure Loads (checkNorm : List UInt32 → Except DecodeError Unit) (row : Row)
    (cached : CachedVector Key) : Prop where
  hash : row.hash = cached.key.toText
  signature : row.modelSignature = cached.modelSignature
  named : row.modelSignature.isEmpty = false
  positive : 0 < row.dimensions
  decodes : fromLeBytes checkNorm row.bytes row.dimensions.toNat = .ok cached.embedding

theorem checkedStoredDimensions_eq {key : Key} {dimensions : Int} (h : 0 < dimensions) :
    checkedStoredDimensions key dimensions = .ok dimensions.toNat :=
  if_neg (Int.not_le.2 h)

variable (checkNorm) in
/-- A row of a requested key is loaded if it is that of a valid vector. -/
theorem loadStored_cases {requested : KeySet} {found : List (CachedVector Key)} {row : Row}
    {key : Key} (hkey : key ∈ requested.keys) (hhash : row.hash = key.toText)
    (hfresh : key ∉ keysOf found) :
    (∃ cached, Loads checkNorm row cached ∧
        loadStored checkNorm requested found row = .ok (found ++ [cached])) ∨
      ((¬ ∃ cached, Loads checkNorm row cached) ∧
        ∃ e, loadStored checkNorm requested found row = .error e) := by
  unfold loadStored
  rw [hhash, parse_toText]
  change (∃ cached, _ ∧ (if key ∉ requested.keys then _ else _) = _) ∨
    (_ ∧ ∃ e, (if key ∉ requested.keys then _ else _) = _)
  rw [if_neg (not_not.2 hkey)]
  by_cases hnamed : row.modelSignature.isEmpty = true
  · rw [if_pos hnamed]
    refine .inr ⟨?_, _, rfl⟩
    rintro ⟨cached, hloads⟩
    rw [hloads.named] at hnamed
    cases hnamed
  rw [if_neg hnamed]
  by_cases hpositive : 0 < row.dimensions
  · rw [checkedStoredDimensions_eq hpositive, except_ok_bind]
    cases hdecode : fromLeBytes checkNorm row.bytes row.dimensions.toNat with
    | error source =>
        refine .inr ⟨?_, _, rfl⟩
        rintro ⟨cached, hloads⟩
        cases hloads.decodes.symm.trans hdecode
    | ok embedding =>
        change (∃ cached, _ ∧ (if key ∈ keysOf found then _ else _) = _) ∨ _
        rw [if_neg hfresh]
        exact .inl ⟨⟨key, row.modelSignature, embedding⟩,
          ⟨hhash, rfl, by simpa using hnamed, hpositive, hdecode⟩, rfl⟩
  · refine .inr ⟨fun ⟨cached, hloads⟩ => hpositive hloads.positive, ?_⟩
    rw [checkedStoredDimensions, if_pos (Int.not_lt.1 hpositive)]
    exact ⟨_, rfl⟩

variable (checkNorm) in
/-- A batch of rows is loaded, each under its own key, or one of them is invalid. -/
theorem foldlM_loadStored {requested : KeySet} {rows : List Row}
    (hnodup : (rows.map Row.hash).Nodup)
    (hkeys : ∀ row ∈ rows, ∃ key ∈ requested.keys, row.hash = key.toText)
    {found : List (CachedVector Key)}
    (hfresh : ∀ row ∈ rows, ∀ key ∈ keysOf found, row.hash ≠ key.toText) :
    (∃ loaded, List.Forall₂ (Loads checkNorm) rows loaded ∧
        rows.foldlM (loadStored checkNorm requested) found = .ok (found ++ loaded)) ∨
      (∃ row ∈ rows, ¬ ∃ cached, Loads checkNorm row cached) ∧
        ∃ e, rows.foldlM (loadStored checkNorm requested) found = .error e := by
  induction rows generalizing found with
  | nil => exact .inl ⟨[], .nil, by rw [List.append_nil]; rfl⟩
  | cons row rows ih =>
      obtain ⟨hnew, hrest⟩ := List.nodup_cons.1 hnodup
      obtain ⟨key, hkey, hhash⟩ := hkeys row List.mem_cons_self
      have hnotFound : key ∉ keysOf found :=
        fun hmem => hfresh row List.mem_cons_self key hmem hhash
      rw [List.foldlM_cons]
      rcases loadStored_cases checkNorm hkey hhash hnotFound with
        ⟨cached, hloads, hok⟩ | ⟨hinvalid, e, herror⟩
      · rw [hok, except_ok_bind]
        have hrestFresh : ∀ other ∈ rows, ∀ key ∈ keysOf (found ++ [cached]),
            other.hash ≠ key.toText := by
          intro other hother key hmem
          rw [keysOf, List.map_append, List.mem_append] at hmem
          rcases hmem with hold | hlast
          · exact hfresh other (List.mem_cons_of_mem _ hother) key hold
          · obtain rfl := List.mem_singleton.1 hlast
            rw [← hloads.hash]
            exact fun heq => hnew (heq ▸ List.mem_map_of_mem hother)
        rcases ih hrest (fun other hother => hkeys other (List.mem_cons_of_mem _ hother))
          hrestFresh with ⟨loaded, hall, hfold⟩ | ⟨⟨other, hother, hinvalid⟩, hfold⟩
        · refine .inl ⟨cached :: loaded, .cons hloads hall, ?_⟩
          rw [hfold, List.append_assoc, List.singleton_append]
        · exact .inr ⟨⟨other, List.mem_cons_of_mem _ hother, hinvalid⟩, hfold⟩
      · exact .inr ⟨⟨row, List.mem_cons_self, hinvalid⟩, e, by rw [herror]; rfl⟩

theorem exists_row_of_loaded {rows : List Row} {loaded : List (CachedVector Key)}
    (h : List.Forall₂ (Loads checkNorm) rows loaded) {cached : CachedVector Key}
    (hcached : cached ∈ loaded) : ∃ row ∈ rows, Loads checkNorm row cached := by
  induction h with
  | nil => cases hcached
  | @cons row first rows loaded hloads _ ih =>
      rcases List.mem_cons.1 hcached with rfl | hmem
      · exact ⟨row, List.mem_cons_self, hloads⟩
      · obtain ⟨other, hother, hrow⟩ := ih hmem
        exact ⟨other, List.mem_cons_of_mem _ hother, hrow⟩

theorem mem_keysOf_loaded {rows : List Row} {loaded : List (CachedVector Key)}
    (h : List.Forall₂ (Loads checkNorm) rows loaded) {key : Key} :
    key ∈ keysOf loaded ↔ key.toText ∈ rows.map Row.hash := by
  induction h with
  | nil => exact ⟨fun h => (List.not_mem_nil h).elim, fun h => (List.not_mem_nil h).elim⟩
  | @cons row cached rows loaded hloads _ ih =>
      rw [keysOf, List.map_cons, List.mem_cons, List.map_cons, List.mem_cons, hloads.hash]
      exact or_congr ⟨congrArg Key.toText, toText_injective⟩ ih

/-- Some requested key has a row that is not that of a valid vector. -/
def Unloadable (checkNorm : List UInt32 → Except DecodeError Unit) (requested : KeySet)
    (table : Table) : Prop :=
  ∃ row ∈ table.rows, (∃ key ∈ requested.keys, row.hash = key.toText) ∧
    ¬ ∃ cached, Loads checkNorm row cached

/-- The vectors that the batches so far have found. -/
structure Found (checkNorm : List UInt32 → Except DecodeError Unit) (requested : KeySet)
    (table : Table) (texts : List Text) (found : List (CachedVector Key)) : Prop where
  loads : ∀ cached ∈ found, ∃ row ∈ table.rows, Loads checkNorm row cached
  keys : ∀ key, key ∈ keysOf found ↔
    key ∈ requested.keys ∧ key.toText ∈ table.hashes ∧ key.toText ∈ texts

theorem getBatch_spec {requested : KeySet} {done rest : List (List Text)}
    {encoded : List Text} (hbatch : encodedKeyBatches requested.keys = done ++ encoded :: rest)
    {found : List (CachedVector Key)}
    (hfound : Found checkNorm requested s.view done.flatten found) :
    Alone (Exec mayFail) (getBatch checkNorm requested found encoded).run
      (Outcomes (fun found' s' => s' = s ∧
          Found checkNorm requested s.view (done ++ [encoded]).flatten found')
        fun _ s' => s' = s ∧ (mayFail ∨ Unloadable checkNorm requested s.view)) s := by
  obtain ⟨htexts, -, hfresh⟩ := encodedKeyBatches_split hbatch
  apply alone_perform
  rintro reading s' ⟨rfl, hreads⟩
  have hinitial := hreads.initial
  have hselected : ∀ row ∈ reading.rows, row ∈ s'.view.rows ∧ row.hash ∈ encoded :=
    fun row hrow => mem_selected.1 (hinitial.subset hrow)
  have hnodup : (reading.rows.map Row.hash).Nodup :=
    (nodup_selected _ _).sublist (hinitial.sublist.map Row.hash)
  have hkeys : ∀ row ∈ reading.rows, ∃ key ∈ requested.keys, row.hash = key.toText := by
    intro row hrow
    obtain ⟨key, hkey, htext⟩ := htexts _ (hselected row hrow).2
    exact ⟨key, hkey, htext.symm⟩
  have hnew : ∀ row ∈ reading.rows, ∀ key ∈ keysOf found, row.hash ≠ key.toText := by
    intro row hrow key hkey heq
    exact hfresh _ (hselected row hrow).2 (heq ▸ ((hfound.keys key).1 hkey).2.2)
  have hfold := foldlM_loadStored checkNorm hnodup hkeys hnew
  apply alone_ofExcept
  · intro found' hok
    rcases hfold with ⟨loaded, hloads, hloaded⟩ | ⟨-, e, herror⟩
    · obtain rfl := Except.ok.inj (hloaded.symm.trans hok)
      rcases Reading.finish_eq hreads loadOperation (found ++ loaded) with
        ⟨hrows, hfinish⟩ | ⟨hfail, e, hfinish⟩
      · rw [hfinish]
        apply alone_ret
        refine ⟨rfl, ?_, ?_⟩
        · intro cached hcached
          rcases List.mem_append.1 hcached with hold | hlast
          · exact hfound.loads cached hold
          · obtain ⟨row, hrow, hone⟩ := exists_row_of_loaded hloads hlast
            exact ⟨row, (hselected row hrow).1, hone⟩
        · intro key
          have hkeyOf : key.toText ∈ encoded → key ∈ requested.keys := by
            intro hmem
            obtain ⟨other, hother, htext⟩ := htexts _ hmem
            exact toText_injective htext ▸ hother
          rw [keysOf, List.map_append, List.mem_append]
          change key ∈ keysOf found ∨ key ∈ keysOf loaded ↔ _
          rw [hfound.keys, mem_keysOf_loaded hloads, hrows, mem_selected_hashes,
            List.flatten_append, List.flatten_singleton, List.mem_append]
          tauto
      · rw [hfinish]
        exact alone_ret ⟨rfl, .inl hfail⟩
    · cases herror.symm.trans hok
  · intro e herror
    rcases hfold with ⟨loaded, -, hloaded⟩ | ⟨⟨row, hrow, hinvalid⟩, -⟩
    · cases hloaded.symm.trans herror
    · exact ⟨rfl, .inr ⟨row, (hselected row hrow).1, hkeys row hrow, hinvalid⟩⟩

theorem getMany_spec (requested : KeySet) :
    Alone (Exec mayFail) (getMany checkNorm requested).run
      (Outcomes (fun found s' => s' = s ∧
          Found checkNorm requested s.view (requested.keys.map Key.toText) found)
        fun _ s' => s' = s ∧ (mayFail ∨ Unloadable checkNorm requested s.view)) s := by
  rw [← flatten_encodedKeyBatches]
  apply alone_foldlM fun done found s' => s' = s ∧
    Found checkNorm requested s.view done.flatten found
  · rintro done encoded rest found s' hbatch ⟨rfl, hfound⟩
    exact getBatch_spec hbatch hfound
  · refine ⟨rfl, fun _ h => (List.not_mem_nil h).elim, fun key => ?_⟩
    exact ⟨fun h => (List.not_mem_nil h).elim, fun h => (List.not_mem_nil h.2.2).elim⟩

/-! `insert_batch`. -/

theorem storedVector_row {item : PreparedVector} (hnamed : item.modelSignature.isEmpty = false)
    (hpositive : 0 < item.dimensions) : storedVector item.key item.row = .ok item := by
  have hdimensions : checkedStoredDimensions item.key item.row.dimensions =
      .ok item.dimensions := checkedStoredDimensions_eq (Int.natCast_pos.2 hpositive)
  unfold storedVector
  change ((Key.parse item.key.toText).mapError _ >>= fun stored =>
    if stored ≠ item.key then _ else if item.modelSignature.isEmpty then _ else _) = _
  rw [parse_toText]
  change (if item.key ≠ item.key then _ else if item.modelSignature.isEmpty then _ else _) = _
  rw [if_neg (not_not.2 rfl), if_neg (by simp [hnamed]), hdimensions]
  rfl

/-- Only the row of an item is read as the item. -/
theorem row_of_storedVector {key : Key} {row : Row} {item : PreparedVector}
    (h : storedVector key row = .ok item) : row = item.row := by
  unfold storedVector at h
  obtain ⟨stored, hstored, h⟩ := except_bind_eq_ok.1 h
  rw [except_mapError_eq_ok] at hstored
  split at h
  · cases h
  next hsame =>
    rw [not_not] at hsame
    subst hsame
    split at h
    · cases h
    obtain ⟨dimensions, hdimensions, hitem⟩ := except_bind_eq_ok.1 h
    obtain rfl := Except.ok.inj hitem
    unfold checkedStoredDimensions at hdimensions
    split at hdimensions
    · cases hdimensions
    next hpositive =>
      obtain rfl := Except.ok.inj hdimensions
      obtain ⟨hash, modelSignature, dimensions, bytes⟩ := row
      rw [Int.not_le] at hpositive
      have hcast : (dimensions.toNat : Int) = dimensions := Int.toNat_of_nonneg hpositive.le
      change _ = Row.mk _ _ _ _
      rw [hcast, toText_of_parse hstored]

/-- A different row has the key of the item, or there is none and the row of the item
breaks a constraint. -/
def Clashes (table : Table) (item : PreparedVector) : Prop :=
  (∃ row ∈ table.rows, row.hash = item.key.toText ∧ row ≠ item.row) ∨
    (item.key.toText ∉ table.hashes ∧ ¬ item.row.Allowed)

/-- What one item does to the working table. -/
def Inserts (table : Table) (item : PreparedVector) (table' : Table) : Prop :=
  (item.row ∈ table.rows ∧ table' = table) ∨
    (item.key.toText ∉ table.hashes ∧ item.row.Allowed ∧
      table'.rows = table.rows ++ [item.row])

theorem rawVector_spec {item : PreparedVector} (hnamed : item.modelSignature.isEmpty = false)
    (hpositive : 0 < item.dimensions) :
    Alone (Exec mayFail) (rawVector item.key).run
      (Outcomes (fun existing s' => s' = s ∧
          match existing with
          | some stored => ∃ row ∈ s.view.rows, row.hash = item.key.toText ∧ row = stored.row
          | none => item.key.toText ∉ s.view.hashes)
        fun _ s' => s' = s ∧ (mayFail ∨ Clashes s.view item)) s := by
  apply alone_perform
  intro answer s' hexec
  cases answer with
  | error source => exact alone_ret ⟨hexec.1, .inl hexec.2⟩
  | ok found =>
      obtain ⟨rfl, hfound⟩ := hexec
      cases found with
      | none =>
          apply alone_ret
          refine ⟨rfl, ?_⟩
          intro hmem
          obtain ⟨row, hrow, hhash⟩ := List.mem_map.1 hmem
          have hnone := List.find?_eq_none.1 hfound.symm row hrow
          rw [decide_eq_true_eq] at hnone
          exact hnone hhash
      | some row =>
          have hrow := List.mem_of_find?_eq_some hfound.symm
          have hhash : row.hash = item.key.toText := by
            simpa using List.find?_some hfound.symm
          apply alone_ofExcept
          · intro stored hstored
            exact alone_ret ⟨rfl, row, hrow, hhash, row_of_storedVector hstored⟩
          · intro e herror
            refine ⟨rfl, .inr (.inl ⟨row, hrow, hhash, ?_⟩)⟩
            rintro rfl
            cases (storedVector_row hnamed hpositive).symm.trans herror

theorem insertItem_spec {committed table : Table} {item : PreparedVector}
    (hnamed : item.modelSignature.isEmpty = false) (hpositive : 0 < item.dimensions) :
    Alone (Exec mayFail) (insertItem () item).run
      (Outcomes (fun _ s' => ∃ table', s' = ⟨committed, some table'⟩ ∧
          Inserts table item table')
        fun _ s' => s' = ⟨committed, some table⟩ ∧ (mayFail ∨ Clashes table item))
      ⟨committed, some table⟩ := by
  apply alone_follow (rawVector_spec hnamed hpositive)
  · rintro (_ | stored) s' ⟨rfl, hstored⟩
    · apply alone_perform
      intro answer s' hexec
      cases answer with
      | ok _ =>
          obtain ⟨hallowed, working, hworking, hfresh, rfl⟩ := hexec
          obtain rfl := Option.some.inj hworking
          exact alone_ret ⟨_, rfl, .inr ⟨hfresh, hallowed, rfl⟩⟩
      | error source =>
          obtain ⟨rfl, hfail | hinvalid | hmem | hnone⟩ := hexec
          · exact alone_ret ⟨rfl, .inl hfail⟩
          · exact alone_ret ⟨rfl, .inr (.inr ⟨hstored, hinvalid⟩)⟩
          · exact absurd hmem hstored
          · cases hnone
    · obtain ⟨row, hrow, hhash, rfl⟩ := hstored
      by_cases hsame : stored = item
      · subst hsame
        change Alone (Exec mayFail) (if stored ≠ stored then
          throw (.vector (.vectorCollision stored.key)) else pure () : CacheM Unit).run _ _
        rw [if_neg (not_not.2 rfl)]
        exact alone_ret ⟨table, rfl, .inl ⟨hrow, rfl⟩⟩
      · change Alone (Exec mayFail) (if stored ≠ item then
          throw (.vector (.vectorCollision item.key)) else pure () : CacheM Unit).run _ _
        rw [if_pos hsame]
        refine alone_ret ⟨rfl, .inr (.inl ⟨stored.row, hrow, hhash, ?_⟩)⟩
        intro heq
        have hkey : stored.key = item.key := toText_injective hhash
        apply hsame
        obtain ⟨key, signature, dimensions, bytes⟩ := stored
        obtain ⟨key', signature', dimensions', bytes'⟩ := item
        simp only [PreparedVector.row, Row.mk.injEq, Int.natCast_inj] at heq hkey
        rw [hkey, heq.2.1, heq.2.2.1, heq.2.2.2]
  · exact fun e s' h => h

/-- The items fit the table: none of them clashes with it. -/
def FitsAll (committed : Table) (prepared : List PreparedVector) : Prop :=
  ∀ item ∈ prepared, ¬ Clashes committed item

/-- The table behind the items so far: what was committed, and the rows of the items
whose keys were not there. -/
structure Partial (committed : Table) (done : List PreparedVector) (table : Table) :
    Prop where
  rows : table.rows = committed.rows ++
    (done.filter fun item => item.key.toText ∉ committed.hashes).map PreparedVector.row
  fits : FitsAll committed done

theorem Partial.mem_rows {committed table : Table} {done : List PreparedVector}
    (h : Partial committed done table) {row : Row} (hrow : row ∈ table.rows) :
    row ∈ committed.rows ∨ ∃ item ∈ done, item.row = row := by
  rw [h.rows, List.mem_append] at hrow
  refine hrow.imp_right fun hadded => ?_
  obtain ⟨item, hitem, heq⟩ := List.mem_map.1 hadded
  exact ⟨item, (List.mem_filter.1 hitem).1, heq⟩

theorem Partial.notMem_hashes {committed table : Table} {done : List PreparedVector}
    (h : Partial committed done table) {hash : Text} (hfresh : hash ∉ table.hashes) :
    hash ∉ committed.hashes := by
  intro hmem
  apply hfresh
  rw [Table.hashes, h.rows, List.map_append]
  exact List.mem_append_left _ hmem

theorem not_clashes_of_mem {table : Table} {item : PreparedVector}
    (h : item.row ∈ table.rows) : ¬ Clashes table item := by
  rintro (⟨row, hrow, hhash, hne⟩ | ⟨hfresh, -⟩)
  · exact hne (table.eq_of_hash hrow h hhash)
  · exact hfresh (List.mem_map_of_mem (f := Row.hash) h)

theorem not_clashes_of_fresh {table : Table} {item : PreparedVector}
    (hfresh : item.key.toText ∉ table.hashes) (hallowed : item.row.Allowed) :
    ¬ Clashes table item := by
  rintro (⟨row, hrow, hhash, -⟩ | ⟨-, hnot⟩)
  · exact hfresh (hhash ▸ List.mem_map_of_mem hrow)
  · exact hnot hallowed

/-- An item whose key was not among the others keeps the invariant. -/
theorem Partial.insert {committed table table' : Table} {done : List PreparedVector}
    {item : PreparedVector} (h : Partial committed done table)
    (hnew : ∀ other ∈ done, other.key ≠ item.key) (hinserts : Inserts table item table') :
    Partial committed (done ++ [item]) table' := by
  have hfits : ¬ Clashes committed item → FitsAll committed (done ++ [item]) := by
    intro hitem other hother
    rcases List.mem_append.1 hother with hold | hlast
    · exact h.fits other hold
    · exact List.mem_singleton.1 hlast ▸ hitem
  rcases hinserts with ⟨hrow, rfl⟩ | ⟨hfresh, hallowed, hrows⟩
  · have hcommitted : item.row ∈ committed.rows := by
      rcases h.mem_rows hrow with hold | ⟨other, hother, heq⟩
      · exact hold
      · exact absurd (toText_injective (congrArg Row.hash heq)) (hnew other hother)
    have hhash : item.key.toText ∈ committed.hashes :=
      List.mem_map_of_mem (f := Row.hash) hcommitted
    refine ⟨?_, hfits (not_clashes_of_mem hcommitted)⟩
    rw [h.rows, List.filter_append, List.filter_cons_of_neg, List.filter_nil,
      List.append_nil]
    simpa using hhash
  · have hfreshOld := h.notMem_hashes hfresh
    refine ⟨?_, hfits (not_clashes_of_fresh hfreshOld hallowed)⟩
    rw [hrows, h.rows, List.filter_append, List.filter_cons_of_pos, List.filter_nil,
      List.map_append, List.append_assoc]
    · rfl
    · simpa using hfreshOld

theorem Partial.clashes {committed table : Table} {done : List PreparedVector}
    {item : PreparedVector} (h : Partial committed done table)
    (hnew : ∀ other ∈ done, other.key ≠ item.key) (hclashes : Clashes table item) :
    Clashes committed item := by
  rcases hclashes with ⟨row, hrow, hhash, hne⟩ | ⟨hfresh, hinvalid⟩
  · rcases h.mem_rows hrow with hold | ⟨other, hother, rfl⟩
    · exact .inl ⟨row, hold, hhash, hne⟩
    · exact absurd (toText_injective hhash) (hnew other hother)
  · exact .inr ⟨h.notMem_hashes hfresh, hinvalid⟩

theorem insertItems_spec {committed : Table} {prepared : List PreparedVector}
    (hdistinct : Distinct prepared)
    (hvalid : ∀ item ∈ prepared, item.modelSignature.isEmpty = false ∧ 0 < item.dimensions) :
    Alone (Exec mayFail) (prepared.foldlM insertItem ()).run
      (Outcomes (fun _ s' => ∃ table, s' = ⟨committed, some table⟩ ∧
          Partial committed prepared table)
        fun _ s' => s'.committed = committed ∧ (mayFail ∨ ¬ FitsAll committed prepared))
      ⟨committed, some committed⟩ := by
  apply alone_foldlM fun done _ (s' : CacheState) => ∃ table,
    s' = ⟨committed, some table⟩ ∧ Partial committed done table
  · rintro done item rest ⟨⟩ s' heq ⟨table, rfl, hprogress⟩
    have hitem : item ∈ prepared := by
      rw [heq]
      exact List.mem_append_right _ List.mem_cons_self
    have hnew : ∀ other ∈ done, other.key ≠ item.key := by
      rw [heq] at hdistinct
      exact fun other hother =>
        (List.pairwise_append.1 hdistinct).2.2 other hother item List.mem_cons_self
    obtain ⟨hnamed, hpositive⟩ := hvalid item hitem
    apply alone_mono (insertItem_spec hnamed hpositive)
    rintro (e | _) s₁ hpost
    · obtain ⟨rfl, hfail | hclashes⟩ := hpost
      · exact ⟨rfl, .inl hfail⟩
      · exact ⟨rfl, .inr fun hfits => hfits item hitem (hprogress.clashes hnew hclashes)⟩
    · obtain ⟨table', rfl, hinserts⟩ := hpost
      exact ⟨table', rfl, hprogress.insert hnew hinserts⟩
  · exact ⟨committed, rfl, (List.append_nil _).symm, fun _ h => (List.not_mem_nil h).elim⟩

theorem insertAll_spec {committed : Table} {prepared : List PreparedVector}
    (hdistinct : Distinct prepared)
    (hvalid : ∀ item ∈ prepared, item.modelSignature.isEmpty = false ∧ 0 < item.dimensions) :
    Alone (Exec mayFail) (insertAll prepared).run
      (Outcomes (fun _ s' => s'.working = none ∧ Partial committed prepared s'.committed)
        fun _ s' => s'.committed = committed ∧ (mayFail ∨ ¬ FitsAll committed prepared))
      ⟨committed, some committed⟩ := by
  apply alone_follow (insertItems_spec hdistinct hvalid)
  · rintro _ s' ⟨table, rfl, hprogress⟩
    apply alone_perform
    intro answer s' hexec
    cases answer with
    | ok _ =>
        obtain ⟨working, hworking, rfl⟩ := hexec
        obtain rfl := Option.some.inj hworking
        exact alone_ret ⟨rfl, hprogress⟩
    | error source =>
        obtain ⟨rfl, hfail | hnone⟩ := hexec
        · exact alone_ret ⟨rfl, .inl hfail⟩
        · cases hnone
  · exact fun e s' h => h

theorem Prepared.loads {each : VectorInsert Key} {item : PreparedVector}
    (h : Prepared checkNorm each item) :
    Loads checkNorm item.row ⟨each.key, each.modelSignature, each.embedding⟩ where
  hash := by rw [PreparedVector.row, h.key]
  signature := h.signature
  named := h.named
  positive := Int.natCast_pos.2 h.positive
  decodes := h.decodes

theorem Partial.mem_row {committed table : Table} {done : List PreparedVector}
    (h : Partial committed done table) {item : PreparedVector} (hitem : item ∈ done) :
    item.row ∈ table.rows := by
  rw [h.rows, List.mem_append]
  by_cases hmem : item.key.toText ∈ committed.hashes
  · obtain ⟨row, hrow, hhash⟩ := List.mem_map.1 hmem
    have hsame : row = item.row := by
      by_contra hne
      exact h.fits item hitem (.inl ⟨row, hrow, hhash, hne⟩)
    exact .inl (hsame ▸ hrow)
  · exact .inr (List.mem_map_of_mem (List.mem_filter.2 ⟨hitem, decide_eq_true hmem⟩))

theorem CacheState.ext_idle {s s' : CacheState} (hs : s.working = none)
    (hs' : s'.working = none) (h : s'.committed = s.committed) : s' = s := by
  obtain ⟨committed, working⟩ := s
  obtain ⟨committed', working'⟩ := s'
  change working = none at hs
  change working' = none at hs'
  change committed' = committed at h
  rw [hs, hs', h]

variable [Sha256 Key]

/-- Every item is valid, no key stands for different items, none is bound to another
row, and those that are not bound have rows that the schema allows. -/
def Fits (checkNorm : List UInt32 → Except DecodeError Unit) (input : List (VectorInsert Key))
    (table : Table) : Prop :=
  Consistent checkNorm input ∧
    ∀ each ∈ input, ∀ item, validate checkNorm each = .ok item → ¬ Clashes table item

theorem Batch.fits_iff {input : List (VectorInsert Key)} {prepared : List PreparedVector}
    (h : Batch checkNorm input prepared) {table : Table} :
    Fits checkNorm input table ↔ FitsAll table prepared := by
  constructor
  · intro hfits item hitem
    obtain ⟨each, heach, hvalid⟩ := h.covered item hitem
    exact hfits.2 each heach item hvalid
  · intro hfits
    refine ⟨h.consistent, ?_⟩
    intro each heach item hvalid
    obtain ⟨other, hother, hotherValid⟩ := h.valid each heach
    obtain rfl := Except.ok.inj (hotherValid.symm.trans hvalid)
    exact hfits other hother

/-- The keys of the input have become resolvable, and nothing else has changed. -/
structure Inserted (checkNorm : List UInt32 → Except DecodeError Unit)
    (input : List (VectorInsert Key)) (old new : Table) : Prop where
  kept : old.rows <+: new.rows
  exactly : ∀ hash, hash ∈ new.hashes ↔
    hash ∈ old.hashes ∨ ∃ each ∈ input, each.key.toText = hash
  resolves : ∀ each ∈ input, ∃ row ∈ new.rows,
    Loads checkNorm row ⟨each.key, each.modelSignature, each.embedding⟩

theorem Partial.inserted {input : List (VectorInsert Key)} {prepared : List PreparedVector}
    {old new : Table} (hbatch : Batch checkNorm input prepared)
    (h : Partial old prepared new) : Inserted checkNorm input old new := by
  refine ⟨h.rows ▸ List.prefix_append _ _, ?_, ?_⟩
  · intro hash
    constructor
    · intro hmem
      obtain ⟨row, hrow, rfl⟩ := List.mem_map.1 hmem
      rcases h.mem_rows hrow with hold | ⟨item, hitem, rfl⟩
      · exact .inl (List.mem_map_of_mem hold)
      · obtain ⟨each, heach, hvalid⟩ := hbatch.covered item hitem
        refine .inr ⟨each, heach, ?_⟩
        rw [PreparedVector.row, (validate_eq_ok hvalid).key]
    · rintro (hold | ⟨each, heach, rfl⟩)
      · obtain ⟨row, hrow, rfl⟩ := List.mem_map.1 hold
        rw [Table.hashes, h.rows]
        exact List.mem_map_of_mem (List.mem_append_left _ hrow)
      · obtain ⟨item, hitem, hvalid⟩ := hbatch.valid each heach
        have hrow := List.mem_map_of_mem (f := Row.hash) (h.mem_row hitem)
        rwa [PreparedVector.row, (validate_eq_ok hvalid).key] at hrow
  · intro each heach
    obtain ⟨item, hitem, hvalid⟩ := hbatch.valid each heach
    exact ⟨item.row, h.mem_row hitem, (validate_eq_ok hvalid).loads⟩

theorem insertBatch_spec (input : List (VectorInsert Key)) (hidle : s.working = none) :
    Alone (Exec mayFail) (insertBatch checkNorm input).run
      (Outcomes (fun _ s' => s'.working = none ∧ Fits checkNorm input s.committed ∧
          ∃ prepared, Batch checkNorm input prepared ∧
            Partial s.committed prepared s'.committed)
        fun _ s' => s' = s ∧ (mayFail ∨ ¬ Fits checkNorm input s.committed)) s := by
  apply alone_ofExcept
  · intro prepared hprepared
    have hbatch := prepare_eq_ok hprepared
    by_cases hempty : prepared.isEmpty = true
    · rw [if_pos hempty]
      rw [List.isEmpty_iff] at hempty
      subst hempty
      have hprogress : Partial s.committed [] s.committed :=
        ⟨(List.append_nil _).symm, fun _ h => (List.not_mem_nil h).elim⟩
      exact alone_ret ⟨hidle, hbatch.fits_iff.2 hprogress.fits, [], hbatch, hprogress⟩
    rw [if_neg hempty]
    have hvalid : ∀ item ∈ prepared,
        item.modelSignature.isEmpty = false ∧ 0 < item.dimensions := by
      intro item hitem
      obtain ⟨each, -, heach⟩ := hbatch.covered item hitem
      exact ⟨(validate_eq_ok heach).named, (validate_eq_ok heach).positive⟩
    have hbegin : Alone (Exec mayFail) beginBatch.run
        (Outcomes (fun _ s' => s' = ⟨s.committed, some s.committed⟩)
          fun _ s' => s' = s ∧ mayFail) s := by
      apply alone_perform
      intro answer s' hexec
      cases answer with
      | ok _ => exact alone_ret hexec.2
      | error source =>
          obtain ⟨rfl, hfail | hbusy⟩ := hexec
          · exact alone_ret ⟨rfl, hfail⟩
          · exact absurd hidle hbusy
    apply alone_follow hbegin
    · rintro _ s' rfl
      apply alone_observe (insertAll_spec hbatch.distinct hvalid)
      intro result s' hresult
      apply alone_perform
      rintro ⟨⟩ s'' rfl
      cases result with
      | ok _ =>
          obtain ⟨-, hprogress⟩ := hresult
          exact alone_ret ⟨rfl, hbatch.fits_iff.2 hprogress.fits, prepared, hbatch, hprogress⟩
      | error e =>
          obtain ⟨hsame, hcause⟩ := hresult
          have hback : (⟨s'.committed, none⟩ : CacheState) = s :=
            CacheState.ext_idle hidle rfl hsame
          exact alone_ret ⟨hback, hcause.imp_right fun h hfits => h (hbatch.fits_iff.1 hfits)⟩
    · rintro e s' ⟨rfl, hfail⟩
      exact ⟨rfl, .inl hfail⟩
  · intro e herror
    refine ⟨rfl, .inr fun hfits => ?_⟩
    obtain ⟨prepared, hok⟩ := prepare_ok_of_consistent hfits.1
    cases hok.symm.trans herror

omit [Sha256 Key] in
/-- The keys of an inserted batch are loaded as they were given. -/
theorem Inserted.found {input : List (VectorInsert Key)} {old new : Table}
    (h : Inserted checkNorm input old new) {requested : KeySet}
    {found : List (CachedVector Key)}
    (hfound : Found checkNorm requested new (requested.keys.map Key.toText) found)
    {each : VectorInsert Key} (heach : each ∈ input) (hkey : each.key ∈ requested.keys) :
    ⟨each.key, each.modelSignature, each.embedding⟩ ∈ found := by
  obtain ⟨row, hrow, hloads⟩ := h.resolves each heach
  have hhash : each.key.toText ∈ new.hashes := hloads.hash ▸ List.mem_map_of_mem hrow
  have hmem := (hfound.keys each.key).2 ⟨hkey, hhash, List.mem_map_of_mem hkey⟩
  obtain ⟨cached, hcached, hkeyEq⟩ := List.mem_map.1 hmem
  obtain ⟨other, hother, hotherLoads⟩ := hfound.loads cached hcached
  have hsame : other = row := by
    apply new.eq_of_hash hother hrow
    rw [hotherLoads.hash, hloads.hash, hkeyEq]
  subst hsame
  obtain ⟨key, signature, embedding⟩ := cached
  have hembedding := Except.ok.inj (hloads.decodes.symm.trans hotherLoads.decodes)
  have hsignature := hloads.signature.symm.trans hotherLoads.signature
  change key = each.key at hkeyEq
  change each.embedding = embedding at hembedding
  change each.modelSignature = signature at hsignature
  rwa [hkeyEq, ← hsignature, ← hembedding] at hcached

omit [Sha256 Key] in
theorem Inserted.loadable {input : List (VectorInsert Key)} {old new : Table}
    (h : Inserted checkNorm input old new) {requested : KeySet}
    (hkeys : ∀ key ∈ requested.keys, ∃ each ∈ input, each.key = key) :
    ¬ Unloadable checkNorm requested new := by
  rintro ⟨row, hrow, ⟨key, hkey, hhash⟩, hinvalid⟩
  obtain ⟨each, heach, rfl⟩ := hkeys key hkey
  obtain ⟨other, hother, hloads⟩ := h.resolves each heach
  have hsame : row = other := new.eq_of_hash hrow hother (by rw [hhash, hloads.hash])
  exact hinvalid ⟨_, hsame ▸ hloads⟩

/-- What is inserted again is there already. -/
theorem Inserted.again {input : List (VectorInsert Key)} {prepared : List PreparedVector}
    {old new after : Table} (h : Inserted checkNorm input old new)
    (hbatch : Batch checkNorm input prepared) (hprogress : Partial new prepared after) :
    after = new := by
  have hnone : prepared.filter (fun item => item.key.toText ∉ new.hashes) = [] := by
    rw [List.filter_eq_nil_iff]
    intro item hitem
    obtain ⟨each, heach, hvalid⟩ := hbatch.covered item hitem
    have hmem := (h.exactly each.key.toText).2 (.inr ⟨each, heach, rfl⟩)
    rw [← (validate_eq_ok hvalid).key] at hmem
    simpa using hmem
  have hrows := hprogress.rows
  rw [hnone, List.map_nil, List.append_nil] at hrows
  obtain ⟨rows, unique⟩ := after
  change rows = new.rows at hrows
  subst hrows
  rfl

/-- After an inserted batch its keys are loaded, and inserting it again changes
nothing; neither fails unless the database does. -/
structure Settled (mayFail : Prop) (checkNorm : List UInt32 → Except DecodeError Unit)
    (input : List (VectorInsert Key)) (s : CacheState) : Prop where
  loads : ∀ requested r s', Runs (Exec mayFail) (getMany checkNorm requested).run s r s' →
    (∀ key ∈ requested.keys, ∃ each ∈ input, each.key = key) → s' = s ∧
      (∀ e, r = .error e → mayFail) ∧ ∀ found, r = .ok found →
        ∀ each ∈ input, each.key ∈ requested.keys →
          ⟨each.key, each.modelSignature, each.embedding⟩ ∈ found
  again : ∀ r s', Runs (Exec mayFail) (insertBatch checkNorm input).run s r s' →
    s' = s ∧ ∀ e, r = .error e → mayFail

theorem Partial.fits_again {input : List (VectorInsert Key)}
    {prepared : List PreparedVector} {old new : Table}
    (hbatch : Batch checkNorm input prepared) (h : Partial old prepared new) :
    Fits checkNorm input new :=
  hbatch.fits_iff.2 fun _ hitem => not_clashes_of_mem (h.mem_row hitem)

theorem settled_of_partial {input : List (VectorInsert Key)}
    {prepared : List PreparedVector} {old : Table} (hidle : s.working = none)
    (hbatch : Batch checkNorm input prepared) (h : Partial old prepared s.committed) :
    Settled mayFail checkNorm input s := by
  have hinserted := h.inserted hbatch
  have hview : s.view = s.committed := by rw [CacheState.view, hidle]; rfl
  refine ⟨?_, ?_⟩
  · intro requested r s' hrun hkeys
    have hpost := hrun.outlined (getMany_spec requested)
    rw [hview] at hpost
    cases r with
    | error e =>
        obtain ⟨rfl, hcause⟩ := hpost
        have hfail := hcause.resolve_right (hinserted.loadable hkeys)
        exact ⟨rfl, fun _ _ => hfail, fun _ hok => by cases hok⟩
    | ok found =>
        obtain ⟨rfl, hfound⟩ := hpost
        refine ⟨rfl, fun _ herror => (by cases herror), ?_⟩
        intro found' hok each heach hkey
        obtain rfl := Except.ok.inj hok
        exact hinserted.found hfound heach hkey
  · intro r s' hrun
    have hpost := hrun.outlined (insertBatch_spec input hidle)
    cases r with
    | error e =>
        obtain ⟨rfl, hcause⟩ := hpost
        exact ⟨rfl, fun _ _ => hcause.resolve_right (not_not.2 (h.fits_again hbatch))⟩
    | ok _ =>
        obtain ⟨hidle', -, prepared', hbatch', hprogress⟩ := hpost
        have hsame := hinserted.again hbatch' hprogress
        exact ⟨CacheState.ext_idle hidle hidle' hsame, fun _ herror => by cases herror⟩

/-- The laws of the cache.  A lookup and a load of the same keys divide them.  The
insertion of a batch changes nothing and fails, which without a failure of the
database means that the input does not fit the table; or the input fits, its keys
have been added and nothing else has changed, and doing it again changes nothing. -/
theorem vectorCache_laws (mayFail : Prop)
    (checkNorm : List UInt32 → Except DecodeError Unit) :
    (∀ requested s absent found s₁ s₂,
      Runs (Exec mayFail) (missing requested).run s (.ok absent) s₁ →
      Runs (Exec mayFail) (getMany checkNorm requested).run s₁ (.ok found) s₂ →
        s₁ = s ∧ s₂ = s ∧
          (∀ key, key ∈ requested.keys ↔ key ∈ absent ∨ key ∈ keysOf found) ∧
          ∀ key ∈ absent, key ∉ keysOf found) ∧
    ∀ input s r s', s.working = none →
      Runs (Exec mayFail) (insertBatch checkNorm input).run s r s' →
        (∀ e, r = .error e →
          s' = s ∧ (mayFail ∨ ¬ Fits checkNorm input s.committed)) ∧
        (r = .ok () → s'.working = none ∧ Fits checkNorm input s.committed ∧
          Inserted checkNorm input s.committed s'.committed ∧
          Settled mayFail checkNorm input s') := by
  refine ⟨?_, ?_⟩
  · intro requested s absent found s₁ s₂ hmissing hget
    obtain ⟨rfl, rfl⟩ := hmissing.outlined (missing_spec requested)
    obtain ⟨rfl, hfound⟩ := hget.outlined (getMany_spec requested)
    have habsent : ∀ key, key ∈ absentKeys requested s₂.view ↔
        key ∈ requested.keys ∧ key.toText ∉ s₂.view.hashes := by
      intro key
      rw [absentKeys, List.mem_filter, decide_eq_true_eq]
    refine ⟨rfl, rfl, ?_, ?_⟩
    · intro key
      have htext : key ∈ requested.keys → key.toText ∈ requested.keys.map Key.toText :=
        fun hkey => List.mem_map_of_mem hkey
      rw [habsent, hfound.keys]
      tauto
    · intro key hkey hmem
      exact ((habsent key).1 hkey).2 ((hfound.keys key).1 hmem).2.1
  · intro input s r s' hidle hrun
    have hpost := hrun.outlined (insertBatch_spec input hidle)
    cases r with
    | error e => exact ⟨fun _ _ => hpost, fun hok => by cases hok⟩
    | ok _ =>
        obtain ⟨hidle', hfits, prepared, hbatch, hprogress⟩ := hpost
        exact ⟨fun _ herror => (by cases herror), fun _ =>
          ⟨hidle', hfits, hprogress.inserted hbatch, settled_of_partial hidle' hbatch hprogress⟩⟩

end

namespace VectorCacheSample

def key : Key := ⟨List.replicate 32 0x2a, rfl⟩

/-- The digest of the one input there is. -/
local instance : Sha256 Key where
  digest _ := key
  hex := Key.toText

def checkNorm (_ : List UInt32) : Except DecodeError Unit := .ok ()

/-- The vector of one component, one. -/
def input : List (VectorInsert Key) :=
  [⟨key, "model".toList, .passage, "text".toList, ⟨[0x3f800000]⟩⟩]

def item : PreparedVector := ⟨key, "model".toList, 1, [0x00, 0x00, 0x80, 0x3f]⟩

def empty : CacheState := ⟨⟨[], .nil⟩, none⟩

def filled : Table := ⟨[item.row], List.nodup_singleton _⟩

def requested : KeySet := ⟨[key], List.pairwise_singleton _ _⟩

theorem prepare_input : prepare checkNorm input = .ok [item] := by decide

theorem runs_insertBatch : Runs (Exec False) (insertBatch checkNorm input).run empty
    (.ok ()) ⟨filled, none⟩ := by
  have hbegin : Exec False empty .beginImmediate (.ok ()) ⟨empty.committed, empty.committed⟩ :=
    ⟨rfl, rfl⟩
  have hselect : Exec False ⟨empty.committed, empty.committed⟩ (.selectOne item.key.toText)
      (.ok none) ⟨empty.committed, empty.committed⟩ := ⟨rfl, rfl⟩
  have hinsert : Exec False ⟨empty.committed, empty.committed⟩ (.insert item.row) (.ok ())
      ⟨empty.committed, filled⟩ := by
    refine ⟨⟨?_, ?_, ?_⟩, empty.committed, rfl, List.not_mem_nil, rfl⟩
    · decide
    · decide
    · rfl
  have hcommit : Exec False ⟨empty.committed, filled⟩ .commit (.ok ()) ⟨filled, none⟩ :=
    ⟨filled, rfl, rfl⟩
  have hrollback : Exec False ⟨filled, none⟩ .rollback () ⟨filled, none⟩ := rfl
  unfold insertBatch
  rw [prepare_input]
  exact .call hbegin (.call hselect (.call hinsert (.call hcommit
    (.call hrollback (.ret _ _)))))

theorem encodedKeyBatches_requested :
    encodedKeyBatches requested.keys = [[key.toText]] := by
  decide

theorem selected_filled : selected filled [key.toText] = [item.row] := by decide

theorem runs_missing : Runs (Exec False) (missing requested).run ⟨filled, none⟩ (.ok [])
    ⟨filled, none⟩ := by
  have hread : Exec False ⟨filled, none⟩ (.selectHashes [key.toText]) ⟨[key.toText], none⟩
      ⟨filled, none⟩ :=
    ⟨rfl, (congrArg (List.map Row.hash) selected_filled).symm⟩
  have hremove : [key.toText].foldlM removeStored [key] = .ok [] := by decide
  unfold missing
  rw [encodedKeyBatches_requested]
  refine .call hread ?_
  change Runs _ (Prog.bind (Prog.bind (.ret ([key.toText].foldlM removeStored [key])) _) _) _ _ _
  rw [hremove]
  exact .ret _ _

def cached : CachedVector Key := ⟨key, "model".toList, ⟨[0x3f800000]⟩⟩

theorem runs_getMany : Runs (Exec False) (getMany checkNorm requested).run ⟨filled, none⟩
    (.ok [cached]) ⟨filled, none⟩ := by
  have hread : Exec False ⟨filled, none⟩ (.selectRows [key.toText]) ⟨[item.row], none⟩
      ⟨filled, none⟩ := ⟨rfl, selected_filled.symm⟩
  have hload : [item.row].foldlM (loadStored checkNorm requested) [] = .ok [cached] := by
    decide
  unfold getMany
  rw [encodedKeyBatches_requested]
  refine .call hread ?_
  change Runs _ (Prog.bind (Prog.bind
    (.ret ([item.row].foldlM (loadStored checkNorm requested) [])) _) _) _ _ _
  rw [hload]
  exact .ret _ _

/-- The key is missing no longer, and its vector is loaded. -/
theorem vectorCache_laws_one :
    (∀ other, other ∈ requested.keys ↔ other ∈ ([] : List Key) ∨ other ∈ keysOf [cached]) ∧
      Inserted checkNorm input empty.committed filled ∧
      Settled False checkNorm input ⟨filled, none⟩ := by
  have hlaws := vectorCache_laws False checkNorm
  have hdivide := hlaws.1 _ _ _ _ _ _ runs_missing runs_getMany
  have hinsert := (hlaws.2 _ _ _ _ rfl runs_insertBatch).2 rfl
  exact ⟨hdivide.2.2.1, hinsert.2.2.1, hinsert.2.2.2⟩

end VectorCacheSample

end Yams.VectorCache
