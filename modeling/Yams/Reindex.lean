/-
The computing part of a reindex: the captured pages parsed in order, and what
the catalog of them says about the bytes of `INDEX.md`.
-/
import Yams.WikiCheck

namespace Yams.Wiki

inductive DurableError
  | index (error : IndexError)
  | invalidIndexUtf8
  | invalidPageUtf8 (page : Text)
  | invalidPageName (page : Text)
  deriving DecidableEq

/-- A page that a reindex captured, under its exact name. -/
structure CapturedFile where
  name : Bytes
  bytes : Bytes
  deriving DecidableEq

def parseCapturedPage (page : CapturedFile) : Except DurableError IndexPage :=
  match Text.fromUtf8 page.name with
  | none => .error (.invalidPageName (diagnosticName page.name))
  | some name =>
      match Text.fromUtf8 page.bytes with
      | none => .error (.invalidPageUtf8 name)
      | some source =>
          match parseIndexPage name source with
          | .ok parsed => .ok parsed
          | .error error => .error (.index error)

def parseCapturedPages : List CapturedFile → Except DurableError (List IndexPage)
  | [] => .ok []
  | page :: rest => do
      let parsed ← parseCapturedPage page
      let more ← parseCapturedPages rest
      return parsed :: more

/-- What `reindex_from_fd` finds without `adopt`: whether `INDEX.md` would
change, and the difference. -/
def reindexChange (index : Bytes) (files : List CapturedFile) :
    Except DurableError (Bool × Option Text) :=
  match Text.fromUtf8 index with
  | none => .error .invalidIndexUtf8
  | some before => do
      let pages ← parseCapturedPages files
      match rebuildIndex before pages, checkIndex before pages with
      | .ok canonical, .ok comparison =>
          .ok (decide (canonical.toBytes ≠ index), comparison.diff)
      | .error error, _ => .error (.index error)
      | _, .error error => .error (.index error)

/-- The verdict of `canonical_digest_from_fd`: a digest for exactly the bytes
proved canonical. -/
def canonicalDigest (D : Type) [Sha256 D] (index : Bytes)
    (files : List CapturedFile) : Option D :=
  match Text.fromUtf8 index, parseCapturedPages files with
  | some before, .ok pages =>
      match checkIndex before pages with
      | .ok check => if check.canonical then some (Sha256.digest index) else none
      | .error _ => none
  | _, _ => none

/-- What a reindex captures of one entry of the directory that a check
captured: only `.md` entries, and each has to be a readable regular file. -/
def captureEntry (page : CapturedPage) : Option CapturedFile :=
  match page.outcome with
  | .present bytes => some ⟨page.name, bytes⟩
  | _ => none

def isMarkdownEntry (page : CapturedPage) : Bool :=
  Text.toBytes markdownSuffix <:+ page.name

/-- The inputs of a reindex over the directory of a snapshot. -/
def captureInputs (snapshot : WikiSnapshot) : Option (List CapturedFile) :=
  (snapshot.pages.filter isMarkdownEntry).mapM captureEntry

end Yams.Wiki
