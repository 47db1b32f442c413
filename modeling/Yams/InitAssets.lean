/-
The texts that the program carries for a repository's memory: the policy that
stands in `AGENTS.md`, and two of the files it installs.
-/
import Yams.Occurrence
import Yams.Text

namespace Yams.Init

/-- The lines of the policy below its heading. -/
def policyLines : List Text :=
  [[],
    "- Search early with `yams --json -k 5 \"<focused ".toList ++
      "question>\"` when project history, conventions, decisions, ".toList ++
      "or prior failures may matter.".toList,
    "- Treat hits as leads and verify consequential claims ".toList ++
      "against current code, tests, documentation, or Git history.".toList,
    "- Interpret exit status 1 as an empty result from a ".toList ++
      "searched store. Retry exit status 3, below the confidence ".toList ++
      "gate, once with `--no-gate` for possible leads. Treat exit ".toList ++
      "status 4 as an operational failure whose JSON names the ".toList ++
      "fault — when the JSON `code` is `store_missing`, run `yams ".toList ++
      "--index` from the project — and never as missing memory.".toList,
    "- Never initialize a missing corpus unless the user ".toList ++
      "explicitly asks.".toList,
    "- Before changing `.agents/memory/`, inspect `git status ".toList ++
      "--short .agents/memory/` and do not stack changes on ".toList ++
      "another writer's uncommitted work.".toList,
    "- Before any memory write, read `.agents/memory/SCHEMA.md` ".toList ++
      "completely and follow it. `yams-wiki write` regenerates the ".toList ++
      "catalog automatically; after direct page edits or recovery, ".toList ++
      "run `yams-wiki catalog .agents/memory`. Never hand-edit the ".toList ++
      "generated index region.".toList,
    "- Preserve only verified, durable, reusable knowledge; ".toList ++
      "never preserve secrets, transcripts, speculation, or ".toList ++
      "temporary task progress.".toList]

def agentPolicy : Text := unlines '\n' ("## Project memory".toList :: policyLines)

def memoryGitignore : Text :=
  ("# Recreated by yams-wiki write and catalog. Do not commit.\n" ++
    ".write.lock\n").toList

def schema : Text :=
  ("# Shared Agent Memory — Schema\n" ++
    "\n" ++
    "This is the canonical authoring and layout contract for " ++
    "version-controlled repository memory. Read it completely before writing " ++
    "or changing a memory page.\n" ++
    "\n" ++
    "`yams-wiki write` enforces canonical create and update requests, writes " ++
    "the page transactionally, and transactionally regenerates the index. " ++
    "`yams-wiki check` validates repository structure, required metadata " ++
    "values, links, and the generated index. `yams-wiki compat` applies the " ++
    "strict frontmatter parser and checks the supported Obsidian profile. " ++
    "Neither `check` nor `compat` silently rewrites pages.\n" ++
    "\n" ++
    "## Pages and frontmatter\n" ++
    "\n" ++
    "Store one durable fact per Markdown file directly under `pages/`. The " ++
    "filename must be `<slug>.md`, and the filename stem must equal the page's " ++
    "`slug`.\n" ++
    "\n" ++
    "Every canonical page begins with a frontmatter block containing exactly " ++
    "these eight scalar keys, once each. Unknown, missing, and duplicate keys " ++
    "are outside the canonical authoring contract.\n" ++
    "\n" ++
    "```yaml\n" ++
    "---\n" ++
    "slug: example-slug\n" ++
    "title: A concise title\n" ++
    "type: pattern\n" ++
    "status: current\n" ++
    "owner: shared\n" ++
    "updated: 2026-01-01\n" ++
    "verified: 2026-01-01\n" ++
    "summary: A nonempty one-line summary of the fact.\n" ++
    "---\n" ++
    "```\n" ++
    "\n" ++
    "A slug is nonempty, at most 64 bytes, and contains only lowercase ASCII " ++
    "letters, ASCII digits, or `-`. Leading, trailing, and consecutive hyphens " ++
    "are allowed. For new pages, the writer normalizes and case-folds the " ++
    "title into ASCII lowercase letters, digits, and hyphens, then bounds or " ++
    "truncates the result to the slug limit. Callers must inspect the slug " ++
    "returned by `yams-wiki write` rather than assume an exact Unicode " ++
    "transliteration.\n" ++
    "\n" ++
    "The allowed `type` alternatives are exactly `gotcha | pattern | " ++
    "project-state | feature | workflow | decision`. The allowed `status` " ++
    "alternatives are exactly `current | historical | in-progress`. The owner " ++
    "must be exactly `claude | codex | shared`.\n" ++
    "\n" ++
    "Canonical stored dates use ASCII digits in exact `YYYY-MM-DD` form, and " ++
    "`verified` must not be earlier than `updated`. For compatibility with " ++
    "existing material, the parser retains Python-compatible acceptance of " ++
    "Unicode decimal digits in the digit positions and compares stored date " ++
    "strings without digit-script normalization. Do not use non-ASCII digit " ++
    "scripts or mix digit scripts in canonical repository memory. Change " ++
    "`updated` only when substantive page content changes, and change " ++
    "`verified` whenever the fact is checked.\n" ++
    "\n" ++
    "`title` and `summary` must be nonempty scalar text. They must not contain " ++
    "logical line boundaries, C0 or C1 control characters, HTML comment " ++
    "delimiters, index-link-shaped text such as `(pages/example.md)`, or the " ++
    "code-fence markers `` ``` `` and `~~~`. After surrounding whitespace and " ++
    "one matching pair of outer quotes are interpreted by the frontmatter " ++
    "parser, the value must still be nonempty. The summary is inserted into " ++
    "generated Markdown as authored after these safety checks; prefer plain " ++
    "prose unless intentional Markdown is desired.\n" ++
    "\n" ++
    "## Body\n" ++
    "\n" ++
    "`yams-wiki write` emits a canonical body containing the plain fact " ++
    "followed by these required labeled paragraphs:\n" ++
    "\n" ++
    "```markdown\n" ++
    "The durable fact stated plainly.\n" ++
    "\n" ++
    "**Why:** Evidence supporting the fact.\n" ++
    "\n" ++
    "**How to apply:** The reusable action or implication.\n" ++
    "\n" ++
    "**Falsified by:** Evidence that would show the fact is no longer true.\n" ++
    "```\n" ++
    "\n" ++
    "When related pages exist, one optional final line follows after a blank " ++
    "line:\n" ++
    "\n" ++
    "```markdown\n" ++
    "Related: [[another-slug]], [[second-slug]]\n" ++
    "```\n" ++
    "\n" ++
    "Related targets follow the same slug rule. The writer refuses self-links " ++
    "and keeps each related target only once.\n" ++
    "\n" ++
    "This body shape is the prescriptive canonical authoring format emitted by " ++
    "`write`. The structural `check` command validates metadata, index " ++
    "membership, links, and drifting line-number references, but it does not " ++
    "enforce the exact body paragraph layout. Use `compat` separately for " ++
    "strict frontmatter parsing and supported Obsidian-profile checks.\n" ++
    "\n" ++
    "## Writing pages\n" ++
    "\n" ++
    "A create request contains the title, page type, owner, four body values, " ++
    "summary, and related slugs:\n" ++
    "\n" ++
    "```json\n" ++
    "\x7b\n  \"title\": \"A fictional console requires blue mode\",\n  " ++
    "\"type\": \"gotcha\",\n  \"owner\": \"shared\",\n  \"fact\": \"The " ++
    "fictional console rejects jobs unless blue mode is enabled.\",\n  " ++
    "\"why\": \"A synthetic test observes successful jobs only in blue " ++
    "mode.\",\n  \"how_to_apply\": \"Enable blue mode before submitting a " ++
    "fictional job.\",\n  \"falsified_by\": \"A fictional job succeeding while " ++
    "blue mode is disabled.\",\n  \"summary\": \"fictional console jobs " ++
    "require blue mode\",\n  \"related\": []\n" ++
    "\x7d\n" ++
    "```\n" ++
    "\n" ++
    "Write it with:\n" ++
    "\n" ++
    "```sh\n" ++
    "yams-wiki write .agents/memory < request.json\n" ++
    "```\n" ++
    "\n" ++
    "An update keeps the stored owner and status, requires `update: true`, " ++
    "identifies the existing slug with `target`, and supplies the complete " ++
    "canonical body and related list:\n" ++
    "\n" ++
    "```json\n" ++
    "\x7b\n  \"title\": \"A fictional console requires blue mode\",\n  " ++
    "\"type\": \"gotcha\",\n  \"fact\": \"The fictional console rejects jobs " ++
    "unless blue mode is enabled.\",\n  \"why\": \"Two synthetic tests observe " ++
    "successful jobs only in blue mode.\",\n  \"how_to_apply\": \"Enable blue " ++
    "mode before submitting a fictional job.\",\n  \"falsified_by\": \"A " ++
    "fictional job succeeding while blue mode is disabled.\",\n  \"summary\": " ++
    "\"fictional console jobs require blue mode\",\n  \"related\": [],\n  " ++
    "\"update\": true,\n  \"target\": " ++
    "\"a-fictional-console-requires-blue-mode\",\n  \"expected_sha256\": " ++
    "\"0123456789abcdef0123456789abcdef0123456789abcdef0123456789abcdef\"\n" ++
    "\x7d\n" ++
    "```\n" ++
    "\n" ++
    "Run the same write command for an update. `expected_sha256` is optional; " ++
    "when present, replace the example value with the lowercase SHA-256 digest " ++
    "of the exact current page bytes. It provides compare-and-swap protection " ++
    "against updating a page that changed after it was read.\n" ++
    "\n" ++
    "## Evidence and lifecycle\n" ++
    "\n" ++
    "Record only knowledge that is verified, durable, and reusable. Verify " ++
    "consequential claims against current code, tests, documentation, or Git " ++
    "history. Never store secrets, transcripts, speculation, or temporary task " ++
    "progress.\n" ++
    "\n" ++
    "Update an existing page instead of creating a duplicate. When a fact is " ++
    "superseded, mark it `historical` and add a forward link to the " ++
    "replacement rather than deleting it.\n" ++
    "\n" ++
    "Do not cite source line numbers outside fenced code or URLs because they " ++
    "drift. Name the durable symbol, command, test, document, or commit " ++
    "instead.\n" ++
    "\n" ++
    "## Generated index\n" ++
    "\n" ++
    "`INDEX.md` contains exactly one generated region delimited by these " ++
    "complete-line markers, in this order:\n" ++
    "\n" ++
    "```text\n" ++
    "<!-- BEGIN GENERATED INDEX — edited by yams-wiki catalog, not by hand " ++
    "-->\n" ++
    "<!-- END GENERATED INDEX -->\n" ++
    "```\n" ++
    "\n" ++
    "Do not hand-edit the generated region. Bytes outside the markers are " ++
    "preserved. Within the region, nonempty type groups appear only when " ++
    "needed and in this order: `Gotchas`, `Patterns`, `Decisions`, `Workflow`, " ++
    "`Project state`, `Features — architecture pointers`. Entries are sorted " ++
    "by slug and rendered exactly as `- [slug](pages/slug.md) — summary`.\n" ++
    "\n" ++
    "The bundled `index-template.md` is an initialization seed, not the fixed " ++
    "point of an initialized wiki. After the initializer installs " ++
    "`pages/project-context.md`, it must run `yams-wiki catalog " ++
    ".agents/memory` before validation. A normal `yams-wiki write` regenerates " ++
    "the catalog automatically and transactionally. Run manual `yams-wiki " ++
    "catalog .agents/memory` after direct page edits or recovery, then run " ++
    "`yams-wiki check .agents/memory`.\n" ++
    "\n" ++
    "## Write discipline\n" ++
    "\n" ++
    "Before changing repository memory, inspect `git status --short " ++
    ".agents/memory/`. Do not stack changes on another writer's uncommitted " ++
    "work. Show the proposed durable fact or edit before writing it. Do not " ++
    "commit, push, or open a pull request without separate authorization.\n").toList

end Yams.Init
