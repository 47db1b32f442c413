/-
Retrieval chunks of a page: trimmed paragraphs, wrapped hard at the largest
chunk size and gathered until a chunk is large enough, with the text each one is
embedded by.
-/
import Yams.Frontmatter

namespace Yams

def minChunk : Nat := 400

def maxChunk : Nat := 1200

structure Chunk where
  ordinal : UInt32
  text : Text
  embedText : Text
  deriving DecidableEq

inductive ChunkError
  | tooManyChunks
  deriving DecidableEq

inductive Boundary
  | none
  | line
  | paragraph
  deriving DecidableEq

def Boundary.text : Boundary → Text
  | .none => []
  | .line => "\n".toList
  | .paragraph => "\n\n".toList

/-- Lines ended by `\n`, `\r` or `\r\n`; the last one may lack its end.  The
first argument holds the characters of the current line in reverse. -/
def logicalLines : Text → Text → List Text
  | [], [] => []
  | current, [] => [current.reverse]
  | current, '\r' :: '\n' :: rest => current.reverse :: logicalLines [] rest
  | current, c :: rest =>
      if c = '\n' ∨ c = '\r' then current.reverse :: logicalLines [] rest
      else logicalLines (c :: current) rest

def pushParagraph (lines : List Text) : List Text :=
  if lines.isEmpty then []
  else
    let trimmed := Text.trim (Text.join "\n".toList lines)
    if trimmed.isEmpty then [] else [trimmed]

/-- The first argument holds the lines of the current paragraph in reverse. -/
def paragraphsFrom : List Text → List Text → List Text
  | lines, [] => pushParagraph lines.reverse
  | lines, line :: rest =>
      if (Text.trim line).isEmpty then
        pushParagraph lines.reverse ++ paragraphsFrom [] rest
      else paragraphsFrom (line :: lines) rest

def paragraphs (text : Text) : List Text :=
  paragraphsFrom [] (logicalLines [] text)

/-- The parts of a line that are visited in turn: the whole line, or its pieces
of the largest chunk size. -/
def hardWrap (line : Text) : List Text :=
  if line.length ≤ maxChunk then [line]
  else line.take maxChunk :: hardWrap (line.drop maxChunk)
termination_by line.length
decreasing_by
  rename_i hlong
  rw [List.length_drop]
  have hpositive : 0 < maxChunk := by decide
  omega

/-- Finished chunks, and the text that is still being gathered. -/
structure Gathering where
  chunks : List Text
  pending : Text

theorem boundary_text_length_le (boundary : Boundary) :
    boundary.text.length ≤ 2 := by
  cases boundary <;> decide

/-- `append_piece`, with the boundary that is still to be written before the
remaining text: a boundary that does not fit ends the pending chunk, and a chunk
that is large enough is finished. -/
def appendPiece (st : Gathering) (boundary : Boundary) (remaining : Text) :
    Gathering :=
  if remaining = [] then st
  else
    let available := maxChunk - st.pending.length
    if available < boundary.text.length then
      appendPiece ⟨st.chunks ++ [st.pending], []⟩ boundary remaining
    else
      let taken := available - boundary.text.length
      let pending := st.pending ++ boundary.text ++ remaining.take taken
      if minChunk ≤ pending.length then
        appendPiece ⟨st.chunks ++ [pending], []⟩ .none (remaining.drop taken)
      else appendPiece ⟨st.chunks, pending⟩ .none (remaining.drop taken)
termination_by 3 * remaining.length + boundary.text.length +
  min st.pending.length 1
decreasing_by
  all_goals
    have hboundary := boundary_text_length_le boundary
    have hmax : maxChunk = 1200 := rfl
    have hmin : minChunk = 400 := rfl
    have hnone : Boundary.none.text.length = 0 := rfl
    have hremaining : 0 < remaining.length :=
      List.length_pos_iff.mpr ‹remaining ≠ []›
    simp +zetaDelta only [List.length_append, List.length_take,
      List.length_drop, List.length_nil] at *
    omega

/-- The boundary before a part of a line, by the places of the part, the line
and the paragraph. -/
def boundaryBefore (part line paragraph : Nat) : Boundary :=
  if part = 0 ∧ line > 0 then .line
  else if part = 0 ∧ paragraph > 0 then .paragraph
  else .none

def appendLine (paragraph : Nat) (st : Gathering) (line : Text × Nat) :
    Gathering :=
  (hardWrap line.1).zipIdx.foldl (fun st (part, index) =>
    appendPiece st (boundaryBefore index line.2 paragraph) part) st

def appendParagraph (st : Gathering) (paragraph : Text × Nat) : Gathering :=
  (paragraph.1.splitOn '\n').zipIdx.foldl (appendLine paragraph.2) st

/-- Split text into bounded paragraphs. -/
def chunk (text : Text) : List Text :=
  let st := (paragraphs text).zipIdx.foldl appendParagraph ⟨[], []⟩
  if st.pending = [] then st.chunks else st.chunks ++ [st.pending]

/-- The input of the embedding model for a display chunk. -/
def embedTextFor (path : PathBuf) (chunkText : Text) (title : Option Text) :
    Text :=
  let head :=
    match title.filter fun value => value ≠ [] with
    | some title => title
    | none => filenameTitle path
  truncateChars head maxTitleChars ++ "\n\n".toList ++ chunkText

/-- Ordinals count from zero and fit 32 bits. -/
def chunkAt (path : PathBuf) (title text : Text) (ordinal : Nat) :
    Except ChunkError Chunk :=
  if ordinal < 2 ^ 32 then
    .ok ⟨UInt32.ofNat ordinal, text, embedTextFor path text (some title)⟩
  else .error .tooManyChunks

def chunksForPage (path : PathBuf) (source : Text) :
    Except ChunkError (List Chunk) :=
  let page := parseFrontmatter source
  let title := titleFor path page.fields
  (chunk page.body).zipIdx.mapM fun (text, ordinal) =>
    chunkAt path title text ordinal

end Yams
