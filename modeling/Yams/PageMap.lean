/-
An index page by page: the row and the chunks of a path, and what every update of
the tables makes of them.  Row identifiers only tie the chunks to their full text.
-/
import Yams.IndexCoherence
import Yams.Store

namespace Yams

/-- A stored chunk without its row identifier. -/
structure Passage (D : Type) where
  ordinal : Nat
  text : Text
  embedText : Text
  vectorHash : VectorKey D
  deriving DecidableEq

/-- What an index holds of a page. -/
structure PageEntry (D : Type) where
  doc : DocRow D
  passages : List (Passage D)
  deriving DecidableEq

/-- The entry without the generation in which its row was written. -/
def PageEntry.undated {D : Type} (entry : PageEntry D) : PageEntry D :=
  { entry with doc := { entry.doc with generation := 0 } }

section

variable {D : Type}

def ChunkRow.passage (row : ChunkRow D) : Passage D :=
  ⟨row.ordinal, row.text, row.embedText, row.vectorHash⟩

def StagedChunk.passage (chunk : StagedChunk D) : Passage D :=
  ⟨chunk.ordinal.toNat, chunk.text, chunk.embedText, chunk.vectorKey⟩

/-- The row of a chunk in the full-text table. -/
def ChunkRow.fullText (row : ChunkRow D) : FtsRow := ⟨row.id, row.text⟩

namespace Index

variable {i : Index D} {path : Text}

def docOf (i : Index D) (path : Text) : Option (DocRow D) :=
  i.docs.find? fun row => row.path = path

def passagesOf (i : Index D) (path : Text) : List (Passage D) :=
  (i.chunks.filter fun row => row.path = path).map ChunkRow.passage

/-- The texts under which the chunks of a page are found. -/
def fullTextOf (i : Index D) (path : Text) : List Text :=
  (i.chunksFts.filter fun row => row.rowid ∈ i.chunkIds path).map FtsRow.text

def entry (i : Index D) (path : Text) : Option (PageEntry D) :=
  (i.docOf path).map fun doc => ⟨doc, i.passagesOf path⟩

theorem mem_paths_iff : path ∈ i.paths ↔ (i.entry path).isSome = true := by
  unfold entry docOf paths
  rw [Option.isSome_map, List.find?_isSome, List.mem_map]
  simp

theorem entry_eq_none : i.entry path = none ↔ path ∉ i.paths := by
  rw [mem_paths_iff]
  simp

theorem entry_doc {entry : PageEntry D} (h : i.entry path = some entry) :
    entry.doc ∈ i.docs ∧ entry.doc.path = path := by
  obtain ⟨doc, hdoc, rfl⟩ := Option.map_eq_some_iff.1 h
  exact ⟨List.mem_of_find?_eq_some hdoc, by simpa using List.find?_some hdoc⟩

theorem entry_passages {entry : PageEntry D} (h : i.entry path = some entry) :
    entry.passages = i.passagesOf path := by
  obtain ⟨doc, -, rfl⟩ := Option.map_eq_some_iff.1 h
  rfl

/-- Where each page has one row, the row decides its entry. -/
theorem entry_of_mem (hpaths : i.paths.Nodup) {row : DocRow D} (hrow : row ∈ i.docs) :
    i.entry row.path = some ⟨row, i.passagesOf row.path⟩ := by
  have hsome : (i.docs.find? fun other => other.path = row.path).isSome := by
    rw [List.find?_isSome]
    exact ⟨row, hrow, by simp⟩
  obtain ⟨found, hfound⟩ := Option.isSome_iff_exists.1 hsome
  have hsame : found = row := List.inj_on_of_nodup_map hpaths
    (List.mem_of_find?_eq_some hfound) hrow (by simpa using List.find?_some hfound)
  unfold entry docOf
  rw [hfound, hsame]
  rfl

/-! The updates of one page. -/

theorem passagesOf_filter (chunks : List (ChunkRow D)) {other : Text}
    (hother : path ≠ other) :
    (chunks.filter fun row => row.path ≠ other).filter (fun row => row.path = path) =
      chunks.filter fun row => row.path = path := by
  rw [List.filter_filter]
  apply List.filter_congr
  intro row _
  by_cases hpath : row.path = path
  · simp [hpath, hother]
  · simp [hpath]

theorem entry_deletePage (i : Index D) (deleted path : Text) :
    (i.deletePage deleted).entry path = if deleted = path then none else i.entry path := by
  split
  next heq =>
    subst heq
    rw [entry_eq_none]
    intro hmem
    obtain ⟨doc, hdoc, hpath⟩ := List.mem_map.1 hmem
    have hne := (List.mem_filter.1 hdoc).2
    simp [hpath] at hne
  next hne =>
    unfold entry docOf passagesOf
    congr 1
    · funext doc
      exact congrArg (fun chunks => PageEntry.mk doc (List.map ChunkRow.passage chunks))
        (passagesOf_filter i.chunks (Ne.symm hne))
    · change List.find? _ (i.docs.filter fun row => row.path ≠ deleted) = _
      rw [List.find?_filter]
      congr 1
      funext row
      by_cases hpath : row.path = path
      · simp [hpath, Ne.symm hne]
      · simp [hpath]

theorem entry_clearProject (i : Index D) (path : Text) :
    i.clearProject.entry path = none := rfl

theorem find?_replace (docs : List (DocRow D)) (row : DocRow D) (path : Text) :
    (docs.map fun doc => if doc.path = row.path then row else doc).find?
        (fun doc => doc.path = path) =
      if row.path = path then (docs.find? fun doc => doc.path = path).map fun _ => row
      else docs.find? fun doc => doc.path = path := by
  induction docs with
  | nil => simp
  | cons doc docs ih =>
      rw [List.map_cons, List.find?_cons, ih, List.find?_cons]
      by_cases hrow : row.path = path
      · by_cases hdoc : doc.path = path
        · simp [hrow, hdoc]
        · simp [hrow, hdoc]
      · by_cases hdoc : doc.path = row.path
        · simp [hdoc, hrow]
        · simp [hdoc, hrow]

theorem entry_updateDoc (i : Index D) (row : DocRow D) (path : Text) :
    (i.updateDoc row).entry path =
      if row.path = path then (i.entry path).map fun entry => { entry with doc := row }
      else i.entry path := by
  unfold entry docOf updateDoc
  dsimp only
  rw [find?_replace]
  split
  · rw [Option.map_map, Option.map_map]
    rfl
  · rfl

theorem docOf_upsertDoc (i : Index D) (row : DocRow D) (path : Text) :
    (i.upsertDoc row).docOf path = if row.path = path then some row else i.docOf path := by
  unfold upsertDoc docOf
  split
  next hany =>
    dsimp only
    rw [find?_replace]
    split
    next hpath =>
      obtain ⟨doc, hdoc, hsame⟩ := List.any_eq_true.1 hany
      have hfound : (i.docs.find? fun doc => doc.path = path).isSome := by
        rw [List.find?_isSome]
        exact ⟨doc, hdoc, by simpa [hpath] using hsame⟩
      obtain ⟨found, hfound⟩ := Option.isSome_iff_exists.1 hfound
      rw [hfound]
      rfl
    · rfl
  next hnone =>
    dsimp only
    rw [List.find?_append]
    split
    next hpath =>
      have hmissing : (i.docs.find? fun doc => doc.path = path) = none := by
        rw [List.find?_eq_none]
        intro doc hdoc heq
        apply hnone
        exact List.any_eq_true.2 ⟨doc, hdoc, by simpa [hpath] using heq⟩
      rw [hmissing]
      simp [hpath]
    next hpath => simp [hpath]

theorem passagesOf_insertChunks (i : Index D) (chunks : List (StagedChunk D))
    (into path : Text) :
    (chunks.foldl (insertChunk into) i).passagesOf path =
      if into = path then i.passagesOf path ++ chunks.map StagedChunk.passage
      else i.passagesOf path := by
  induction chunks generalizing i with
  | nil => simp
  | cons chunk chunks ih =>
      rw [List.foldl_cons, ih]
      have hone : (insertChunk into i chunk).passagesOf path =
          if into = path then i.passagesOf path ++ [chunk.passage]
          else i.passagesOf path := by
        unfold passagesOf insertChunk
        dsimp only
        rw [List.filter_append, List.map_append]
        by_cases hpath : into = path
        · simp [hpath, ChunkRow.passage, StagedChunk.passage]
        · simp [hpath]
      rw [hone]
      split
      · rw [List.append_assoc]
        rfl
      · rfl

/-- A replaced page has its new row and exactly its new chunks. -/
theorem entry_upsertPage (i : Index D) (row : DocRow D) (chunks : List (StagedChunk D))
    (path : Text) :
    (i.upsertPage row chunks).entry path =
      if row.path = path then some ⟨row, chunks.map StagedChunk.passage⟩
      else i.entry path := by
  have hdocs : (i.upsertPage row chunks).docOf path =
      if row.path = path then some row else i.docOf path := by
    unfold docOf upsertPage
    rw [docs_insertChunks]
    exact docOf_upsertDoc _ row path
  have hpassages : (i.upsertPage row chunks).passagesOf path =
      if row.path = path then chunks.map StagedChunk.passage else i.passagesOf path := by
    unfold upsertPage
    rw [passagesOf_insertChunks]
    unfold passagesOf
    rw [chunks_upsertDoc]
    change (if row.path = path then
        ((i.chunks.filter fun chunk => chunk.path ≠ row.path).filter
          fun chunk => chunk.path = path).map ChunkRow.passage ++ _
      else ((i.chunks.filter fun chunk => chunk.path ≠ row.path).filter
          fun chunk => chunk.path = path).map ChunkRow.passage) = _
    split
    next hpath =>
      have hnone : (i.chunks.filter fun chunk => chunk.path ≠ row.path).filter
          (fun chunk => chunk.path = path) = [] := by
        rw [List.filter_filter, List.filter_eq_nil_iff]
        intro chunk _
        simp only [hpath, ne_eq, decide_not, Bool.and_eq_true, decide_eq_true_eq,
          Bool.not_eq_true', decide_eq_false_iff_not, not_and, not_not, imp_self]
      rw [hnone]
      rfl
    next hpath => rw [passagesOf_filter _ (Ne.symm hpath)]
  unfold entry
  rw [hdocs, hpassages]
  split
  · rfl
  · rfl

/-- What an update makes of the entry of a page. -/
def entryAfter (path : Text) (entry : Option (PageEntry D)) :
    Store.Update D → Option (PageEntry D)
  | .clearProject => none
  | .deletePage deleted => if deleted = path then none else entry
  | .upsertPage row chunks =>
      if row.path = path then some ⟨row, chunks.map StagedChunk.passage⟩ else entry
  | .updatePageMetadata row =>
      if row.path = path then entry.map fun entry => { entry with doc := row } else entry
  | .writeEmbeddingScheme _ | .setGeneration _ => entry

/-- The tables change page by page. -/
theorem entry_apply (change : Store.Update D) (i : Index D) (path : Text) :
    (change.apply i).entry path = entryAfter path (i.entry path) change := by
  cases change with
  | clearProject => exact entry_clearProject i path
  | deletePage deleted => exact entry_deletePage i deleted path
  | upsertPage row chunks => exact entry_upsertPage i row chunks path
  | updatePageMetadata row => exact entry_updateDoc i row path
  | writeEmbeddingScheme scheme => rfl
  | setGeneration generation => rfl

/-! The tables fit together. -/

/-- Each page has one row, each chunk one identifier, one place in its page and its
text in the full-text table, and no chunk is without its page. -/
structure WellFormed (i : Index D) : Prop where
  paths : i.paths.Nodup
  ids : (i.chunks.map ChunkRow.id).Nodup
  ordinals : (i.chunks.map fun row => (row.path, row.ordinal)).Nodup
  coherent : i.Coherent
  fullText : i.chunksFts = i.chunks.map ChunkRow.fullText

theorem wellFormed_initial : (initial : Index D).WellFormed where
  paths := List.nodup_nil
  ids := List.nodup_nil
  ordinals := List.nodup_nil
  coherent := coherent_initial
  fullText := rfl

/-- An identifier belongs to one page. -/
theorem WellFormed.mem_chunkIds (h : i.WellFormed) {row : ChunkRow D}
    (hrow : row ∈ i.chunks) (path : Text) : row.id ∈ i.chunkIds path ↔ row.path = path := by
  unfold chunkIds
  constructor
  · intro hmem
    obtain ⟨other, hother, heq⟩ := List.mem_map.1 hmem
    obtain ⟨hin, hpath⟩ := List.mem_filter.1 hother
    obtain rfl := List.inj_on_of_nodup_map h.ids hin hrow heq
    simpa using hpath
  · intro hpath
    exact List.mem_map_of_mem (List.mem_filter.2 ⟨hrow, by simpa using hpath⟩)

/-- The full-text rows of a page go with its chunks. -/
theorem WellFormed.deleteFullText (h : i.WellFormed) (path : Text) :
    (i.deleteFullText path).chunksFts =
      (i.chunks.filter fun row => row.path ≠ path).map ChunkRow.fullText := by
  change i.chunksFts.filter (fun row => row.rowid ∉ i.chunkIds path) = _
  rw [h.fullText, List.filter_map]
  congr 1
  apply List.filter_congr
  intro row hrow
  have hiff := h.mem_chunkIds hrow path
  simp only [Function.comp_apply, ChunkRow.fullText, hiff, ne_eq]

/-- The full text of a page is that of its chunks, in their order. -/
theorem WellFormed.fullTextOf (h : i.WellFormed) (path : Text) :
    i.fullTextOf path = (i.passagesOf path).map Passage.text := by
  unfold Index.fullTextOf passagesOf
  rw [h.fullText, List.filter_map, List.map_map, List.map_map]
  have hfilter : i.chunks.filter ((fun row : FtsRow => decide (row.rowid ∈ i.chunkIds path)) ∘
      ChunkRow.fullText) = i.chunks.filter fun row => row.path = path := by
    apply List.filter_congr
    intro row hrow
    have hiff := h.mem_chunkIds hrow path
    simp only [Function.comp_apply, ChunkRow.fullText, hiff]
  rw [hfilter]
  rfl

theorem WellFormed.passagesOf_eq_nil (h : i.WellFormed) (hpath : path ∉ i.paths) :
    i.passagesOf path = [] := by
  unfold Index.passagesOf
  rw [List.map_eq_nil_iff, List.filter_eq_nil_iff]
  intro row hrow heq
  obtain ⟨doc, hdoc, hsame⟩ := h.coherent row hrow
  apply hpath
  rw [← show row.path = path by simpa using heq, ← hsame]
  exact List.mem_map_of_mem hdoc

theorem WellFormed.deletePage (h : i.WellFormed) (path : Text) :
    (i.deletePage path).WellFormed where
  paths := (List.filter_sublist.map _).nodup h.paths
  ids := (List.filter_sublist.map _).nodup h.ids
  ordinals := (List.filter_sublist.map _).nodup h.ordinals
  coherent := h.coherent.deletePage path
  fullText := h.deleteFullText path

theorem WellFormed.clearProject (h : i.WellFormed) : i.clearProject.WellFormed := by
  have hnone := h.coherent.clearProject_chunks
  refine ⟨List.nodup_nil, ?_, ?_, ?_, ?_⟩
  · rw [hnone]
    exact List.nodup_nil
  · rw [hnone]
    exact List.nodup_nil
  · intro row hrow
    rw [hnone] at hrow
    cases hrow
  · rw [hnone]
    rfl

theorem paths_replace (docs : List (DocRow D)) (row : DocRow D) :
    (docs.map fun doc => if doc.path = row.path then row else doc).map DocRow.path =
      docs.map DocRow.path := by
  rw [List.map_map]
  apply List.map_congr_left
  intro doc _
  change (if doc.path = row.path then row else doc).path = doc.path
  split
  next heq => exact heq.symm
  · rfl

theorem WellFormed.updateDoc (h : i.WellFormed) (row : DocRow D) :
    (i.updateDoc row).WellFormed where
  paths := by
    unfold Index.paths Index.updateDoc
    dsimp only
    rw [paths_replace]
    exact h.paths
  ids := h.ids
  ordinals := h.ordinals
  coherent := h.coherent.updateDoc row
  fullText := h.fullText

theorem lt_nextId {row : ChunkRow D} (hrow : row ∈ i.chunks) : row.id < i.nextId := by
  have hle : ∀ {ids : List Nat} {id : Nat}, id ∈ ids → id ≤ ids.foldr max 0 := by
    intro ids id hid
    induction ids with
    | nil => cases hid
    | cons head ids ih =>
        rw [List.foldr_cons]
        rcases List.mem_cons.1 hid with rfl | hlater
        · exact Nat.le_max_left _ _
        · exact Nat.le_trans (ih hlater) (Nat.le_max_right _ _)
  exact Nat.lt_succ_of_le (hle (List.mem_map_of_mem hrow))

/-- A chunk goes into a page of the index, at a place that is free. -/
theorem WellFormed.insertChunk (h : i.WellFormed) {chunk : StagedChunk D}
    (hpage : ∃ doc ∈ i.docs, doc.path = path)
    (hfree : ∀ row ∈ i.chunks, row.path = path → row.ordinal ≠ chunk.ordinal.toNat) :
    (insertChunk path i chunk).WellFormed := by
  refine ⟨h.paths, ?_, ?_, ?_, ?_⟩
  · change (List.map ChunkRow.id (i.chunks ++ [_])).Nodup
    rw [List.map_append, List.nodup_append]
    refine ⟨h.ids, List.nodup_singleton _, ?_⟩
    intro id hid other hother heq
    obtain rfl := List.mem_singleton.1 hother
    obtain ⟨row, hrow, rfl⟩ := List.mem_map.1 hid
    exact absurd heq (Nat.ne_of_lt (lt_nextId hrow))
  · change (List.map (fun row => (row.path, row.ordinal)) (i.chunks ++ [_])).Nodup
    rw [List.map_append, List.nodup_append]
    refine ⟨h.ordinals, List.nodup_singleton _, ?_⟩
    intro place hplace other hother heq
    obtain rfl := List.mem_singleton.1 hother
    obtain ⟨row, hrow, rfl⟩ := List.mem_map.1 hplace
    obtain ⟨hpath, hordinal⟩ := Prod.mk.inj heq
    exact hfree row hrow hpath hordinal
  · intro row hrow
    rcases List.mem_append.1 hrow with hold | hnew
    · exact h.coherent row hold
    · obtain rfl := List.mem_singleton.1 hnew
      exact hpage
  · change i.chunksFts ++ [_] = List.map ChunkRow.fullText (i.chunks ++ [_])
    rw [List.map_append, h.fullText]
    rfl

theorem WellFormed.insertChunks (h : i.WellFormed) {chunks : List (StagedChunk D)}
    (hpage : ∃ doc ∈ i.docs, doc.path = path)
    (hfree : ∀ row ∈ i.chunks, row.path = path →
      ∀ chunk ∈ chunks, row.ordinal ≠ chunk.ordinal.toNat)
    (hnodup : (chunks.map StagedChunk.ordinal).Nodup) :
    (chunks.foldl (Index.insertChunk path) i).WellFormed := by
  induction chunks generalizing i with
  | nil => exact h
  | cons chunk chunks ih =>
      rw [List.foldl_cons]
      obtain ⟨hfirst, hnodup⟩ := List.nodup_cons.1 hnodup
      apply ih
      · exact h.insertChunk hpage fun row hrow hpath =>
          hfree row hrow hpath chunk List.mem_cons_self
      · exact hpage
      · intro row hrow hpath other hother
        rcases List.mem_append.1 hrow with hold | hnew
        · exact hfree row hold hpath other (List.mem_cons_of_mem _ hother)
        · obtain rfl := List.mem_singleton.1 hnew
          intro heq
          apply hfirst
          rw [UInt32.toNat_inj.1 heq]
          exact List.mem_map_of_mem hother
      · exact hnodup

theorem WellFormed.upsertDoc (h : i.WellFormed) (row : DocRow D) :
    (i.upsertDoc row).WellFormed := by
  have hpaths : (i.upsertDoc row).paths.Nodup := by
    unfold Index.paths Index.upsertDoc
    split
    · dsimp only
      rw [paths_replace]
      exact h.paths
    next hnone =>
      dsimp only
      rw [List.map_append, List.nodup_append]
      refine ⟨h.paths, List.nodup_singleton _, ?_⟩
      intro path hpath other hother heq
      obtain rfl := List.mem_singleton.1 hother
      obtain ⟨doc, hdoc, rfl⟩ := List.mem_map.1 hpath
      exact hnone (List.any_eq_true.2 ⟨doc, hdoc, by simpa using heq⟩)
  have hchunks := chunks_upsertDoc i row
  have hfullText : (i.upsertDoc row).chunksFts = i.chunksFts := by
    unfold Index.upsertDoc
    split <;> rfl
  refine ⟨hpaths, ?_, ?_, ?_, ?_⟩
  · rw [hchunks]
    exact h.ids
  · rw [hchunks]
    exact h.ordinals
  · intro chunk hchunk
    rw [hchunks] at hchunk
    obtain ⟨doc, hdoc, hpath⟩ := h.coherent chunk hchunk
    obtain ⟨doc', hdoc', hsame⟩ := (docs_upsertDoc i row).2 doc hdoc
    exact ⟨doc', hdoc', hsame.trans hpath⟩
  · rw [hchunks, hfullText]
    exact h.fullText

theorem WellFormed.upsertPage (h : i.WellFormed) (row : DocRow D)
    {chunks : List (StagedChunk D)} (hnodup : (chunks.map StagedChunk.ordinal).Nodup) :
    (i.upsertPage row chunks).WellFormed := by
  have hremoved : ((i.deleteFullText row.path).deleteChunks row.path).WellFormed :=
    { paths := h.paths
      ids := (List.filter_sublist.map _).nodup h.ids
      ordinals := (List.filter_sublist.map _).nodup h.ordinals
      coherent := fun chunk hchunk => h.coherent chunk (List.mem_of_mem_filter hchunk)
      fullText := h.deleteFullText row.path }
  apply (hremoved.upsertDoc row).insertChunks
  · exact (docs_upsertDoc _ row).1
  · intro chunk hchunk hpath
    exact absurd hpath (mem_replaced.1 hchunk).2
  · exact hnodup

end Index

/-- The chunks of an update have different places in their page. -/
def Store.Update.Ordered : Store.Update D → Prop
  | .upsertPage _ chunks => (chunks.map StagedChunk.ordinal).Nodup
  | _ => True

/-- Every update keeps the tables together. -/
theorem Index.WellFormed.apply {i : Index D} (h : i.WellFormed) {change : Store.Update D}
    (hchange : change.Ordered) : (change.apply i).WellFormed := by
  cases change with
  | clearProject => exact h.clearProject
  | deletePage path => exact h.deletePage path
  | upsertPage row chunks => exact h.upsertPage row hchange
  | updatePageMetadata row => exact h.updateDoc row
  | writeEmbeddingScheme scheme => exact ⟨h.paths, h.ids, h.ordinals, h.coherent, h.fullText⟩
  | setGeneration generation => exact ⟨h.paths, h.ids, h.ordinals, h.coherent, h.fullText⟩

end

end Yams
