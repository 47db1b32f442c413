/-
What the statements of a synchronization do to the chunks of an index, the
foreign key that they keep, and the order of published indexes.
-/
import Yams.Index

namespace Yams.Index

variable {D : Type}

/-- An index that is published later has a later generation. -/
def Later (i i' : Index D) : Prop :=
  i' = i ∨ i.generation.toInt < i'.generation.toInt

theorem Later.refl (i : Index D) : i.Later i := .inl rfl

theorem Later.trans {a b c : Index D} (hab : a.Later b) (hbc : b.Later c) :
    a.Later c := by
  rcases hab with rfl | hab
  · exact hbc
  · rcases hbc with rfl | hbc
    · exact .inr hab
    · exact .inr (Int.lt_trans hab hbc)

/-- Under an unchanged generation nothing has been published. -/
theorem Later.eq_of_generation {i i' : Index D} (h : i.Later i')
    (hgeneration : i'.generation = i.generation) : i' = i := by
  rcases h with heq | hlt
  · exact heq
  · rw [hgeneration] at hlt
    exact absurd hlt (Int.lt_irrefl _)

theorem Later.antisymm {i i' : Index D} (h : i.Later i') (h' : i'.Later i) : i' = i := by
  rcases h with heq | hlt
  · exact heq
  · rcases h' with heq | hlt'
    · exact heq.symm
    · exact absurd (Int.lt_trans hlt hlt') (Int.lt_irrefl _)

/-- Every chunk belongs to a page of the index: a foreign key of its tables. -/
def Coherent (i : Index D) : Prop :=
  ∀ row ∈ i.chunks, ∃ doc ∈ i.docs, doc.path = row.path

theorem coherent_initial : (initial : Index D).Coherent := by
  intro row hrow
  cases hrow

theorem Coherent.deletePage {i : Index D} (h : i.Coherent) (path : Text) :
    (i.deletePage path).Coherent := by
  intro row hrow
  obtain ⟨hmem, hpath⟩ := List.mem_filter.1 hrow
  obtain ⟨doc, hdoc, heq⟩ := h row hmem
  refine ⟨doc, List.mem_filter.2 ⟨hdoc, ?_⟩, heq⟩
  rw [heq]
  exact hpath

/-- Clearing removes every chunk. -/
theorem Coherent.clearProject_chunks {i : Index D} (h : i.Coherent) :
    i.clearProject.chunks = [] := by
  apply List.filter_eq_nil_iff.2
  intro row hrow
  obtain ⟨doc, hdoc, heq⟩ := h row hrow
  have hany : (i.docs.any fun doc => doc.path = row.path) = true :=
    List.any_eq_true.2 ⟨doc, hdoc, by simpa using heq⟩
  simp [hany]

/-- The pages after a replacement of the row of a page. -/
theorem mem_map_replace {docs : List (DocRow D)} (row : DocRow D) {doc : DocRow D}
    (hdoc : doc ∈ docs) :
    ∃ doc' ∈ docs.map (fun doc => if doc.path = row.path then row else doc),
      doc'.path = doc.path := by
  refine ⟨_, List.mem_map_of_mem hdoc, ?_⟩
  split
  next heq => exact heq.symm
  · rfl

theorem Coherent.updateDoc {i : Index D} (h : i.Coherent) (row : DocRow D) :
    (i.updateDoc row).Coherent := by
  intro chunk hchunk
  obtain ⟨doc, hdoc, heq⟩ := h chunk hchunk
  obtain ⟨doc', hdoc', hpath⟩ := mem_map_replace row hdoc
  exact ⟨doc', hdoc', hpath.trans heq⟩

theorem docs_upsertDoc (i : Index D) (row : DocRow D) :
    (∃ doc ∈ (i.upsertDoc row).docs, doc.path = row.path) ∧
      ∀ doc ∈ i.docs, ∃ doc' ∈ (i.upsertDoc row).docs, doc'.path = doc.path := by
  unfold upsertDoc
  split
  next hany =>
    obtain ⟨doc, hdoc, hpath⟩ := List.any_eq_true.1 hany
    obtain ⟨doc', hdoc', heq⟩ := mem_map_replace row hdoc
    refine ⟨⟨doc', hdoc', heq.trans (by simpa using hpath)⟩, ?_⟩
    intro other hother
    exact mem_map_replace row hother
  · refine ⟨⟨row, List.mem_append_right _ List.mem_cons_self, rfl⟩, ?_⟩
    intro other hother
    exact ⟨other, List.mem_append_left _ hother, rfl⟩

theorem docs_insertChunks (path : Text) (i : Index D) (chunks : List (StagedChunk D)) :
    (chunks.foldl (insertChunk path) i).docs = i.docs := by
  induction chunks generalizing i with
  | nil => rfl
  | cons chunk chunks ih =>
      rw [List.foldl_cons, ih]
      rfl

/-- The chunks after some are inserted under a path, up to their identifiers. -/
theorem mem_insertChunks (path : Text) (i : Index D) (chunks : List (StagedChunk D)) :
    (∀ row ∈ (chunks.foldl (insertChunk path) i).chunks,
      row ∈ i.chunks ∨ row.path = path ∧ row.vectorHash ∈
        chunks.map StagedChunk.vectorKey) ∧
    (∀ row ∈ i.chunks, row ∈ (chunks.foldl (insertChunk path) i).chunks) ∧
    ∀ chunk ∈ chunks, ∃ row ∈ (chunks.foldl (insertChunk path) i).chunks,
      row.path = path ∧ row.vectorHash = chunk.vectorKey := by
  induction chunks generalizing i with
  | nil =>
      exact ⟨fun row hrow => .inl hrow, fun row hrow => hrow,
        fun chunk hchunk => absurd hchunk List.not_mem_nil⟩
  | cons chunk chunks ih =>
      rw [List.foldl_cons]
      obtain ⟨hsound, hkept, hnew⟩ := ih (insertChunk path i chunk)
      refine ⟨?_, ?_, ?_⟩
      · intro row hrow
        rcases hsound row hrow with hold | ⟨hpath, hkey⟩
        · rcases List.mem_append.1 hold with hfirst | hlast
          · exact .inl hfirst
          · obtain rfl := List.mem_singleton.1 hlast
            exact .inr ⟨rfl, List.mem_cons_self⟩
        · exact .inr ⟨hpath, List.mem_cons_of_mem _ hkey⟩
      · intro row hrow
        exact hkept row (List.mem_append_left _ hrow)
      · intro other hother
        rcases List.mem_cons.1 hother with rfl | hlater
        · exact ⟨_, hkept _ (List.mem_append_right _ List.mem_cons_self), rfl, rfl⟩
        · exact hnew other hlater

theorem chunks_upsertDoc (i : Index D) (row : DocRow D) :
    (i.upsertDoc row).chunks = i.chunks := by
  unfold upsertDoc
  split <;> rfl

/-- The chunks that a replaced page starts with: those of the other pages. -/
theorem mem_replaced {i : Index D} {row : DocRow D} {chunk : ChunkRow D} :
    chunk ∈ (((i.deleteFullText row.path).deleteChunks row.path).upsertDoc row).chunks ↔
      chunk ∈ i.chunks ∧ chunk.path ≠ row.path := by
  rw [chunks_upsertDoc]
  change chunk ∈ List.filter _ i.chunks ↔ _
  simp

theorem Coherent.upsertPage {i : Index D} (h : i.Coherent) (row : DocRow D)
    (chunks : List (StagedChunk D)) : (i.upsertPage row chunks).Coherent := by
  have hdocs := docs_upsertDoc ((i.deleteFullText row.path).deleteChunks row.path) row
  unfold Index.upsertPage Coherent
  rw [docs_insertChunks]
  intro chunk hchunk
  rcases (mem_insertChunks row.path _ chunks).1 chunk hchunk with hold | ⟨hpath, _⟩
  · obtain ⟨doc, hdoc, heq⟩ := h chunk (mem_replaced.1 hold).1
    obtain ⟨doc', hdoc', hsame⟩ := hdocs.2 doc hdoc
    exact ⟨doc', hdoc', hsame.trans heq⟩
  · rw [hpath]
    exact hdocs.1

end Yams.Index
