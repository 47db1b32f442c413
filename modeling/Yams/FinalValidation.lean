/-
The last step of an apply: the repository is looked at twice and compared with the
approved candidate.  When that succeeds, the owned nodes are the approved ones.
-/
import Yams.ApprovalDigest
import Yams.LayoutContract

namespace Yams.Init

section FinalValidation

inductive ApplyExitClass
  | usage | operational
  deriving DecidableEq

structure ApplyFailure where
  exitClass : ApplyExitClass
  message : Text
  deriving DecidableEq

/-- A node as it was captured; `identity` stands for all of its metadata. -/
structure Captured where
  prestate : NodePrestate
  bytes : Option Bytes
  identity : Option Stat
  deriving DecidableEq

/-- What one pass over the repository finds: the root at its place, temporaries that
were left behind, the node at a path and the names in the pages directory. -/
structure View where
  verifyRoot : Except ApplyFailure Unit
  residues : Except ApplyFailure (List Text)
  capture : Text → Except ApplyFailure Captured
  pageNames : Except ApplyFailure (List Bytes)

def usageFailure {α : Type} (message : Text) : Except ApplyFailure α :=
  .error ⟨.usage, message⟩

def refuseUnless (condition : Prop) [Decidable condition] (message : Text) :
    Except ApplyFailure Unit :=
  if condition then .ok () else usageFailure message

def candidateOwnedPath (path : Text) (mode : InitMode) : Bool :=
  [agentsPath, ".agents".toList, memoryPath, gitignorePath].contains path ||
    (mode = .minimal && path = flatPagePath) ||
    (mode = .full && ([schemaPath, indexPath, pagesPath].contains path || isOwnedPage path))

def orRefuse {α : Type} (value : Option α) (message : Text) : Except ApplyFailure α :=
  match value with
  | some a => .ok a
  | none => usageFailure message

/-- The desired node that a captured one is; the texts are for a directory without a
mode, a file without a mode, a file without bytes and any other node. -/
def capturedNode (captured : Captured) (noDirectory noMode noBytes unsafeNode : Text) :
    Except ApplyFailure DesiredNode :=
  match captured.prestate.kind with
  | .directory => do return .directory (← orRefuse captured.prestate.mode noDirectory)
  | .file => do
      let mode ← orRefuse captured.prestate.mode noMode
      let bytes ← orRefuse captured.bytes noBytes
      return .file mode bytes
  | .missing | .symlink | .other => usageFailure unsafeNode

/-- One approved node: it lies in the layout and is what the repository has. -/
def approvedNode (view : View) (mode : InitMode) (entry : Text × DesiredNode) :
    Except ApplyFailure DesiredNode := do
  refuseUnless (candidateOwnedPath entry.1 mode = true)
    ("approved candidate contains an out-of-layout path: ".toList ++ entry.1)
  let captured ← view.capture entry.1
  let node ← capturedNode captured ("final directory has no mode: ".toList ++ entry.1)
    ("final file has no mode: ".toList ++ entry.1)
    ("final file has no bytes: ".toList ++ entry.1)
    ("unsafe final owned node at ".toList ++ entry.1)
  refuseUnless (node = entry.2)
    ("final owned node differs from the approved candidate at ".toList ++ entry.1)
  return node

/-- `insert_recovered_node`. -/
def recoveredNode (view : View) (entry : Text × DesiredNode) :
    Except ApplyFailure DesiredNode := do
  let captured ← view.capture entry.1
  capturedNode captured ("directory has no mode: ".toList ++ entry.1)
    ("file has no mode: ".toList ++ entry.1) ("file has no bytes: ".toList ++ entry.1)
    ("owned node is incomplete or unsafe: ".toList ++ entry.1)

/-- The nodes found at the paths of the approved ones. -/
def captureNodes (node : Text × DesiredNode → Except ApplyFailure DesiredNode)
    (entries : List (Text × DesiredNode)) (found : DesiredMap) :
    Except ApplyFailure DesiredMap :=
  entries.foldlM (fun found entry => do return found.insert entry.1 (← node entry)) found

def checkMissing (view : View) (path message : Text) : Except ApplyFailure Unit := do
  let captured ← view.capture path
  refuseUnless (captured.prestate.kind = .missing) message

def fragmentPaths : List Text := [schemaPath, indexPath, pagesPath]

/-- The names of the approved pages. -/
def approvedPageNames (approved : DesiredMap) : List Bytes :=
  (approved.keys.filterMap pageName).map Text.toBytes

def sameNames (names expected : List Bytes) : Bool :=
  names.all expected.contains && expected.all names.contains

/-- What the layout of a mode must not have, and the pages it has. -/
def checkLayout (view : View) (mode : InitMode) (approved : DesiredMap)
    (fragment flat membership : Text) : Except ApplyFailure Unit :=
  match mode with
  | .minimal => fragmentPaths.forM fun path => checkMissing view path (fragment ++ path)
  | .full => do
      checkMissing view flatPagePath flat
      let names ← view.pageNames
      refuseUnless (sameNames names (approvedPageNames approved) = true) membership

def checkResidues (view : View) (message : Text) : Except ApplyFailure Unit := do
  refuseUnless ((← view.residues) = []) message

variable [Wiki.Unicode] (D : Type) [Sha256 D]

/-- The repository is looked at twice. -/
def finalizeAndValidate (manifest : InitManifest) (approved : DesiredMap)
    (runtimeLock : Captured) (first second : View) : Except ApplyFailure Unit := do
  first.verifyRoot
  checkResidues first "a Yams directory temporary exists during final validation".toList
  let actual ← captureNodes (approvedNode first manifest.mode) approved.toList ∅
  checkLayout first manifest.mode approved
    "structured layout fragment exists after minimal initialization: ".toList
    "the flat project page remains after full initialization".toList
    "final pages directory membership differs from approval".toList
  let lock ← first.capture lockPath
  refuseUnless (lock = runtimeLock) "runtime lock changed during manifest apply".toList
  (validateOwnedCandidate actual manifest.mode).mapError fun error =>
    ⟨.usage, candidateMessage error⟩
  refuseUnless (ownedCandidateSha256 D actual = manifest.candidateSha256)
    "final owned candidate digest differs from the approved manifest".toList
  let revalidated ← captureNodes (recoveredNode second) approved.toList ∅
  refuseUnless (revalidated.toList = actual.toList)
    "final owned bindings changed during validation".toList
  checkLayout second manifest.mode approved
    "structured layout fragment appeared during minimal validation: ".toList
    "the flat project page appeared during full validation".toList
    "final pages directory membership changed during validation".toList
  let lock ← second.capture lockPath
  refuseUnless (lock = runtimeLock) "runtime lock changed during final revalidation".toList
  checkResidues second "a Yams directory temporary appeared during validation".toList
  second.verifyRoot

/-- An apply, whatever its operations and others did to the repository before the last
views of it: `operated` is the lock file after the operations, or how they failed. -/
def applyManifest (manifest : InitManifest) (initial : RepositorySnapshot)
    (operated : Except ApplyFailure Captured) (first second : View) :
    Except ApplyFailure Unit := do
  let approved ← (reconstructCandidate D initial manifest).mapError (⟨.usage, ·⟩)
  let runtimeLock ← operated
  finalizeAndValidate D manifest approved runtimeLock first second

end FinalValidation

section Tree

/-- A node of the repository; links and special files are unsafe. -/
inductive TreeNode
  | owned (node : DesiredNode)
  | unsafeNode
  deriving DecidableEq

/-- The repository by path: what is under the pages directory is there only with it. -/
structure RepositoryTree where
  node : Text → Option TreeNode
  pages_above : ∀ name, (node (pagePathOf name)).isSome = true →
    ∃ mode, node pagesPath = some (.owned (.directory mode))

/-- What a capture says of a node. -/
def Captured.Shows (captured : Captured) (node : Option TreeNode) : Prop :=
  match captured.prestate.kind with
  | .missing => node = none
  | .directory => ∀ mode ∈ captured.prestate.mode, node = some (.owned (.directory mode))
  | .file => ∀ mode ∈ captured.prestate.mode, ∀ bytes ∈ captured.bytes,
      node = some (.owned (.file mode bytes))
  | .symlink | .other => node = some .unsafeNode

/-- A view of a repository: captures show its nodes and the names are those of the
pages directory. -/
structure View.Of (view : View) (tree : RepositoryTree) : Prop where
  captures : ∀ path captured, view.capture path = .ok captured →
    captured.Shows (tree.node path)
  names : ∀ names, view.pageNames = .ok names → ∀ name : Text, name ≠ [] → '/' ∉ name →
    (name.toBytes ∈ names ↔ (tree.node (pagePathOf name)).isSome = true)

theorem refuseUnless_eq_ok {condition : Prop} [Decidable condition] {message : Text} :
    refuseUnless condition message = .ok () ↔ condition := by
  unfold refuseUnless
  split
  next h => exact ⟨fun _ => h, fun _ => rfl⟩
  next hnot => exact ⟨(fun h => nomatch h), fun h => absurd h hnot⟩

theorem orRefuse_eq_ok {α : Type} {value : Option α} {message : Text} {a : α} :
    orRefuse value message = .ok a ↔ value = some a := by
  cases value with
  | none => exact ⟨(fun h => nomatch h), fun h => nomatch h⟩
  | some b => exact ⟨fun h => congrArg some (Except.ok.inj h), fun h => by rw [h]; rfl⟩

theorem tree_of_capturedNode {captured : Captured} {noDirectory noMode noBytes unsafeNode : Text}
    {node : DesiredNode} {found : Option TreeNode}
    (h : capturedNode captured noDirectory noMode noBytes unsafeNode = .ok node)
    (hshows : captured.Shows found) : found = some (.owned node) := by
  unfold capturedNode at h
  unfold Captured.Shows at hshows
  split at h
  next hkind =>
    simp only [hkind] at hshows
    obtain ⟨mode, hmode, h⟩ := except_bind_eq_ok.1 h
    obtain rfl := Except.ok.inj h
    exact hshows mode (orRefuse_eq_ok.1 hmode)
  next hkind =>
    simp only [hkind] at hshows
    obtain ⟨mode, hmode, h⟩ := except_bind_eq_ok.1 h
    obtain ⟨bytes, hbytes, h⟩ := except_bind_eq_ok.1 h
    obtain rfl := Except.ok.inj h
    exact hshows mode (orRefuse_eq_ok.1 hmode) bytes (orRefuse_eq_ok.1 hbytes)
  all_goals cases h

/-- Every entry has been captured, and keeps its place in the map. -/
theorem captureNodes_found {node : Text × DesiredNode → Except ApplyFailure DesiredNode}
    {entries : List (Text × DesiredNode)} {found final : DesiredMap}
    (h : captureNodes node entries found = .ok final) (hnodup : (entries.map Prod.fst).Nodup) :
    (∀ path, path ∉ entries.map Prod.fst → final[path]? = found[path]?) ∧
      ∀ entry ∈ entries, ∃ captured, node entry = .ok captured ∧
        final[entry.1]? = some captured := by
  induction entries generalizing found with
  | nil =>
      obtain rfl := Except.ok.inj h
      exact ⟨fun _ _ => rfl, fun entry hentry => absurd hentry List.not_mem_nil⟩
  | cons first rest ih =>
      rw [List.map_cons, List.nodup_cons] at hnodup
      rw [captureNodes, List.foldlM_cons] at h
      obtain ⟨next, hnext, hrest⟩ := except_bind_eq_ok.1 h
      obtain ⟨captured, hcaptured, hinsert⟩ := except_bind_eq_ok.1 hnext
      obtain rfl := Except.ok.inj hinsert
      obtain ⟨hframe, hfound⟩ := ih hrest hnodup.2
      constructor
      · intro path hpath
        rw [List.map_cons, List.mem_cons, not_or] at hpath
        rw [hframe path hpath.2, Std.ExtTreeMap.getElem?_insert,
          if_neg fun heq => hpath.1 (Std.LawfulEqCmp.eq_of_compare heq).symm]
      · intro entry hentry
        rcases List.mem_cons.1 hentry with rfl | hmem
        · refine ⟨captured, hcaptured, ?_⟩
          rw [hframe _ hnodup.1, Std.ExtTreeMap.getElem?_insert,
            if_pos Std.ReflCmp.compare_self]
        · exact hfound entry hmem

theorem forM_eq_ok {α ε : Type} {f : α → Except ε Unit} {list : List α}
    (h : list.forM f = .ok ()) : ∀ a ∈ list, f a = .ok () := by
  induction list with
  | nil => exact fun a ha => absurd ha List.not_mem_nil
  | cons first rest ih =>
      obtain ⟨_, hfirst, hrest⟩ := except_bind_eq_ok.1 h
      intro a ha
      rcases List.mem_cons.1 ha with rfl | hmem
      · exact hfirst
      · exact ih hrest a hmem

variable {view : View} {tree : RepositoryTree} {approved : DesiredMap} {path : Text}

theorem missing_of_checkMissing {message : Text} (hview : view.Of tree)
    (h : checkMissing view path message = .ok ()) : tree.node path = none := by
  obtain ⟨captured, hcaptured, h⟩ := except_bind_eq_ok.1 h
  have hkind := refuseUnless_eq_ok.1 h
  have hshows := hview.captures path captured hcaptured
  rw [Captured.Shows, hkind] at hshows
  exact hshows

theorem mem_approvedPageNames {name : Text} (h : name.toBytes ∈ approvedPageNames approved) :
    pagePathOf name ∈ approved := by
  obtain ⟨found, hfound, hbytes⟩ := List.mem_map.1 h
  obtain ⟨key, hkey, hname⟩ := List.mem_filterMap.1 hfound
  obtain rfl := Text.toBytes_injective hbytes
  rw [← pageName_eq_some hname]
  exact Std.ExtTreeMap.mem_keys.1 hkey

theorem page_of_isOwnedPage (h : isOwnedPage path = true) :
    ∃ name, path = pagePathOf name ∧ name ≠ [] ∧ '/' ∉ name := by
  obtain ⟨name, hname, hok⟩ := (Option.any_eq_true _ _).1 h
  obtain ⟨hne, hslash, -⟩ := of_decide_eq_true hok
  exact ⟨name, pageName_eq_some hname, hne, hslash⟩

/-- An owned path is one of the fixed ones or that of a page. -/
theorem owned_path_cases (h : isInitializationOwnedPath path = true) :
    path ∈ ownedPaths ∨ isOwnedPage path = true := by
  rcases Bool.or_eq_true_iff.1 h with hfixed | hpage
  · exact .inl (List.contains_iff_mem.1 hfixed)
  · exact .inr hpage

/-- Without the pages directory there is nothing under it. -/
theorem pages_missing {name : Text} (h : tree.node pagesPath = none) :
    tree.node (pagePathOf name) = none := by
  cases hnode : tree.node (pagePathOf name) with
  | none => rfl
  | some node =>
      obtain ⟨mode, hpages⟩ := tree.pages_above name (by rw [hnode]; rfl)
      rw [h] at hpages
      cases hpages

theorem minimal_missing {fragment flat membership : Text} (hview : view.Of tree)
    (hset : validSet approved .minimal = true)
    (h : checkLayout view .minimal approved fragment flat membership = .ok ())
    (howned : isInitializationOwnedPath path = true) (hpath : path ∉ approved) :
    tree.node path = none := by
  have hmissing : ∀ found ∈ fragmentPaths, tree.node found = none := fun found hfound =>
    missing_of_checkMissing hview (forM_eq_ok h found hfound)
  have hfixed : ∀ found ∈ ownedPaths, found ∉ expectedBase .minimal →
      found ∈ fragmentPaths := by decide
  rcases owned_path_cases howned with hmem | hpage
  · exact hmissing path (hfixed path hmem fun hbase => hpath (base_of_validSet hset hbase))
  · obtain ⟨name, rfl, -, -⟩ := page_of_isOwnedPage hpage
    exact pages_missing (hmissing pagesPath (by decide))

theorem full_missing {fragment flat membership : Text} (hview : view.Of tree)
    (hset : validSet approved .full = true)
    (h : checkLayout view .full approved fragment flat membership = .ok ())
    (howned : isInitializationOwnedPath path = true) (hpath : path ∉ approved) :
    tree.node path = none := by
  obtain ⟨_, hflat, hrest⟩ := except_bind_eq_ok.1 h
  obtain ⟨names, hnames, hmembership⟩ := except_bind_eq_ok.1 hrest
  have hsame := refuseUnless_eq_ok.1 hmembership
  have hfixed : ∀ found ∈ ownedPaths, found ∉ expectedBase .full →
      found = flatPagePath := by decide
  rcases owned_path_cases howned with hmem | hpage
  · have hbase : path ∉ expectedBase .full := fun hbase =>
      hpath (base_of_validSet hset hbase)
    rw [hfixed path hmem hbase]
    exact missing_of_checkMissing hview hflat
  · obtain ⟨name, rfl, hne, hslash⟩ := page_of_isOwnedPage hpage
    by_contra hthere
    have hlisted := (hview.names names hnames name hne hslash).2
      (Option.isSome_iff_ne_none.2 hthere)
    have happroved := List.all_eq_true.1 (Bool.and_eq_true_iff.1 hsame).1 _ hlisted
    exact hpath (mem_approvedPageNames (List.contains_iff_mem.1 happroved))

/-- What the candidate does not have of the owned paths is not in the repository. -/
theorem layout_missing {mode : InitMode} {fragment flat membership : Text}
    (hview : view.Of tree) (hset : validSet approved mode = true)
    (h : checkLayout view mode approved fragment flat membership = .ok ())
    (howned : isInitializationOwnedPath path = true) (hpath : path ∉ approved) :
    tree.node path = none := by
  cases mode with
  | minimal => exact minimal_missing hview hset h howned hpath
  | full => exact full_missing hview hset h howned hpath

end Tree

section Fitting

/-- The paths, the contents of the files and the approved contents fit in memory. -/
structure InputsFit (initial : RepositorySnapshot) (manifest : InitManifest) : Prop where
  prestates : ∀ prestate ∈ initial.prestates, Store.Fits prestate.path.toBytes
  contents : ∀ (path : Text) bytes, initial.contents[path]? = some bytes → Store.Fits bytes
  operations : ∀ operation ∈ manifest.operations, Store.Fits operation.path.toBytes ∧
    ∀ content ∈ operation.content, Store.Fits content.toBytes

theorem mapFits_insert {desired : DesiredMap} {path : Text} {node : DesiredNode}
    (h : MapFits desired) (hentry : EntryFits (path, node)) :
    MapFits (desired.insert path node) := by
  rintro ⟨key, value⟩ hmem
  rw [Std.ExtTreeMap.mem_toList_iff_getElem?_eq_some, Std.ExtTreeMap.getElem?_insert] at hmem
  split at hmem
  next heq =>
    obtain rfl := Std.LawfulEqCmp.eq_of_compare heq
    obtain rfl := Option.some.inj hmem
    exact hentry
  next => exact h _ (Std.ExtTreeMap.mem_toList_iff_getElem?_eq_some.2 hmem)

theorem mapFits_erase {desired : DesiredMap} {path : Text} (h : MapFits desired) :
    MapFits (desired.erase path) := by
  rintro ⟨key, value⟩ hmem
  rw [Std.ExtTreeMap.mem_toList_iff_getElem?_eq_some, Std.ExtTreeMap.getElem?_erase] at hmem
  split at hmem
  next => cases hmem
  next => exact h _ (Std.ExtTreeMap.mem_toList_iff_getElem?_eq_some.2 hmem)

theorem orMissing_eq_ok {α : Type} {value : Option α} {what path : Text} {a : α}
    (h : orMissing value what path = .ok a) : value = some a := by
  cases value with
  | none => cases h
  | some b => exact congrArg some (Except.ok.inj h)

theorem retainNode_fits {contents : Std.ExtTreeMap Text Bytes} {desired next : DesiredMap}
    {prestate : NodePrestate} (h : retainNode contents desired prestate = .ok next)
    (hcontents : ∀ (path : Text) bytes, contents[path]? = some bytes → Store.Fits bytes)
    (hpath : Store.Fits prestate.path.toBytes) (hdesired : MapFits desired) :
    MapFits next := by
  unfold retainNode at h
  split at h
  next =>
    obtain rfl := Except.ok.inj h
    exact hdesired
  next =>
    split at h
    next =>
      obtain ⟨mode, -, hnext⟩ := except_bind_eq_ok.1 h
      obtain rfl := Except.ok.inj hnext
      exact mapFits_insert hdesired ⟨hpath, trivial⟩
    next =>
      obtain ⟨mode, -, hrest⟩ := except_bind_eq_ok.1 h
      obtain ⟨bytes, hbytes, hnext⟩ := except_bind_eq_ok.1 hrest
      obtain rfl := Except.ok.inj hnext
      exact mapFits_insert hdesired ⟨hpath, hcontents _ _ (orMissing_eq_ok hbytes)⟩
    all_goals cases h

theorem desireOperation_fits {desired next : DesiredMap} {operation : InitOperation}
    (h : desireOperation desired operation = .ok next)
    (hoperation : Store.Fits operation.path.toBytes ∧
      ∀ content ∈ operation.content, Store.Fits content.toBytes)
    (hdesired : MapFits desired) : MapFits next := by
  have hfile {what how : Text} (h : (do
      let mode ← orMissing operation.mode what operation.path
      let content ← orMissing operation.content how operation.path
      return desired.insert operation.path (.file mode content.toBytes)) = .ok next) :
      MapFits next := by
    obtain ⟨mode, -, hrest⟩ := except_bind_eq_ok.1 h
    obtain ⟨content, hcontent, hnext⟩ := except_bind_eq_ok.1 hrest
    obtain rfl := Except.ok.inj hnext
    exact mapFits_insert hdesired ⟨hoperation.1, hoperation.2 _ (orMissing_eq_ok hcontent)⟩
  unfold desireOperation at h
  cases hkind : operation.kind with
  | createDirectory =>
      rw [hkind] at h
      obtain ⟨mode, -, hnext⟩ := except_bind_eq_ok.1 h
      obtain rfl := Except.ok.inj hnext
      exact mapFits_insert hdesired ⟨hoperation.1, trivial⟩
  | createFile =>
      rw [hkind] at h
      exact hfile h
  | replaceFile =>
      rw [hkind] at h
      exact hfile h
  | removeFile =>
      rw [hkind] at h
      obtain rfl := Except.ok.inj h
      exact mapFits_erase hdesired

/-- What every step of a fold keeps, the fold keeps. -/
theorem foldlM_keeps {α β ε : Type} {step : β → α → Except ε β} (keeps : β → Prop)
    {list : List α} {start final : β}
    (hstep : ∀ a ∈ list, ∀ b next, step b a = .ok next → keeps b → keeps next)
    (h : list.foldlM step start = .ok final) (hstart : keeps start) : keeps final := by
  induction list generalizing start with
  | nil =>
      obtain rfl := Except.ok.inj h
      exact hstart
  | cons first rest ih =>
      rw [List.foldlM_cons] at h
      obtain ⟨next, hnext, hrest⟩ := except_bind_eq_ok.1 h
      exact ih (fun a ha => hstep a (List.mem_cons_of_mem _ ha)) hrest
        (hstep first List.mem_cons_self start next hnext hstart)

theorem buildCandidate_fits {initial : RepositorySnapshot} {manifest : InitManifest}
    {candidate : DesiredMap} (hfit : InputsFit initial manifest)
    (h : buildCandidate initial manifest = .ok candidate) : MapFits candidate := by
  obtain ⟨retained, hretained, hoperations⟩ := except_bind_eq_ok.1 h
  have hempty : MapFits ∅ := by
    intro entry hentry
    rw [show (∅ : DesiredMap).toList = [] from rfl] at hentry
    cases hentry
  have hkept := foldlM_keeps MapFits (fun prestate hmem _ _ hstep =>
    retainNode_fits hstep hfit.contents (hfit.prestates prestate hmem)) hretained hempty
  exact foldlM_keeps MapFits (fun operation hmem _ _ hstep =>
    desireOperation_fits hstep (hfit.operations operation hmem)) hoperations hkept

end Fitting

section Binding

theorem approvedNode_eq_ok {view : View} {mode : InitMode} {entry : Text × DesiredNode}
    {node : DesiredNode} (h : approvedNode view mode entry = .ok node) : node = entry.2 := by
  obtain ⟨_, -, hcapture⟩ := except_bind_eq_ok.1 h
  obtain ⟨captured, -, hnode⟩ := except_bind_eq_ok.1 hcapture
  obtain ⟨found, -, hrest⟩ := except_bind_eq_ok.1 hnode
  obtain ⟨_, hsame, hfound⟩ := except_bind_eq_ok.1 hrest
  rw [← Except.ok.inj hfound]
  exact refuseUnless_eq_ok.1 hsame

theorem recoveredNode_tree {view : View} {tree : RepositoryTree} {entry : Text × DesiredNode}
    {node : DesiredNode} (hview : view.Of tree) (h : recoveredNode view entry = .ok node) :
    tree.node entry.1 = some (.owned node) := by
  obtain ⟨captured, hcaptured, hnode⟩ := except_bind_eq_ok.1 h
  exact tree_of_capturedNode hnode (hview.captures _ _ hcaptured)

/-- The approved nodes, captured twice with the same result, are in the repository. -/
theorem captured_tree {approved actual revalidated : DesiredMap} {mode : InitMode}
    {first second : View} {tree : RepositoryTree} (hview : second.Of tree)
    (hactual : captureNodes (approvedNode first mode) approved.toList ∅ = .ok actual)
    (hagain : captureNodes (recoveredNode second) approved.toList ∅ = .ok revalidated)
    (hsame : revalidated.toList = actual.toList) {path : Text} {node : DesiredNode}
    (hnode : approved[path]? = some node) : tree.node path = some (.owned node) := by
  have hentry : (path, node) ∈ approved.toList :=
    Std.ExtTreeMap.mem_toList_iff_getElem?_eq_some.2 hnode
  obtain ⟨found, hfound, hmap⟩ :=
    (captureNodes_found hactual (nodup_paths approved)).2 _ hentry
  obtain ⟨again, htree, hmapAgain⟩ :=
    (captureNodes_found hagain (nodup_paths approved)).2 _ hentry
  obtain rfl := approvedNode_eq_ok hfound
  have heq : revalidated = actual := Std.ExtTreeMap.ext_toList (List.Perm.of_eq hsame)
  rw [heq, hmap] at hmapAgain
  rw [Option.some.inj hmapAgain]
  exact recoveredNode_tree hview htree

variable [Wiki.Unicode] {D : Type} [Sha256 D]

/-- After a successful validation the repository has the approved nodes, and of the
other owned paths none. -/
theorem finalizeAndValidate_tree {manifest : InitManifest} {approved : DesiredMap}
    {runtimeLock : Captured} {first second : View} {tree : RepositoryTree}
    (hview : second.Of tree) (hset : validSet approved manifest.mode = true)
    (h : finalizeAndValidate D manifest approved runtimeLock first second = .ok ())
    {path : Text} (howned : isInitializationOwnedPath path = true) :
    tree.node path = approved[path]?.map .owned := by
  obtain ⟨_, -, h⟩ := except_bind_eq_ok.1 h
  obtain ⟨_, -, h⟩ := except_bind_eq_ok.1 h
  obtain ⟨actual, hactual, h⟩ := except_bind_eq_ok.1 h
  obtain ⟨_, -, h⟩ := except_bind_eq_ok.1 h
  obtain ⟨_, -, h⟩ := except_bind_eq_ok.1 h
  obtain ⟨_, -, h⟩ := except_bind_eq_ok.1 h
  obtain ⟨_, -, h⟩ := except_bind_eq_ok.1 h
  obtain ⟨_, -, h⟩ := except_bind_eq_ok.1 h
  obtain ⟨revalidated, hagain, h⟩ := except_bind_eq_ok.1 h
  obtain ⟨_, hsame, h⟩ := except_bind_eq_ok.1 h
  obtain ⟨_, hlayout, -⟩ := except_bind_eq_ok.1 h
  cases hnode : approved[path]? with
  | some node => exact captured_tree hview hactual hagain (refuseUnless_eq_ok.1 hsame) hnode
  | none =>
      have hpath : path ∉ approved := fun hmem => by
        rw [Std.ExtTreeMap.mem_iff_isSome_getElem?, hnode] at hmem
        cases hmem
      exact layout_missing hview hset hlayout howned hpath

theorem validSet_of_validate {desired : DesiredMap} {mode : InitMode}
    (h : validateOwnedCandidate desired mode = .ok ()) : validSet desired mode = true :=
  (require_bind_eq_ok.1 h).1

/-- What is reconstructed has an acceptable node set and the approved digest. -/
theorem reconstructCandidate_eq_ok {initial : RepositorySnapshot} {manifest : InitManifest}
    {approved : DesiredMap} (h : reconstructCandidate D initial manifest = .ok approved) :
    buildCandidate initial manifest = .ok approved ∧
      validSet approved manifest.mode = true ∧
        ownedCandidateSha256 D approved = manifest.candidateSha256 := by
  obtain ⟨desired, hbuilt, h⟩ := except_bind_eq_ok.1 h
  obtain ⟨_, hvalid, h⟩ := except_bind_eq_ok.1 h
  split at h
  next => cases h
  next hdigest =>
    obtain rfl := Except.ok.inj h
    exact ⟨hbuilt, validSet_of_validate (except_mapError_eq_ok.1 hvalid),
      Decidable.not_not.1 hdigest⟩

variable (D) in
/-- The approval digests bind the candidate: the encodings determine the maps of owned
nodes and the listings, and without collisions an apply only succeeds with the nodes of
every candidate that has the approved digest. -/
theorem approval_binds :
    (∀ desired other : DesiredMap, MapFits desired → MapFits other →
      (∀ path ∈ desired, isInitializationOwnedPath path = true) →
      (∀ path ∈ other, isInitializationOwnedPath path = true) →
      ownedPreimage desired = ownedPreimage other → desired = other) ∧
    (∀ signatures others : List EntrySignature,
      (∀ signature ∈ signatures, Store.Fits signature.name) →
      (∀ signature ∈ others, Store.Fits signature.name) →
      entriesPreimage signatures = entriesPreimage others →
      List.Forall₂ SameSignature signatures others) ∧
    (Function.Injective (sha256 D) →
      ∀ (manifest : InitManifest) (initial : RepositorySnapshot)
        (operated : Except ApplyFailure Captured) (first second : View)
        (tree : RepositoryTree) (desired : DesiredMap),
      InputsFit initial manifest → MapFits desired →
      ownedCandidateSha256 D desired = manifest.candidateSha256 → second.Of tree →
      applyManifest D manifest initial operated first second = .ok () →
      ∀ path, isInitializationOwnedPath path = true →
        tree.node path = desired[path]?.map .owned) := by
  refine ⟨?_, fun _ _ hsignatures hothers h => signatures_of_preimage hsignatures hothers h, ?_⟩
  · intro desired other hdesired hother howned hownedOther h
    have hentries := ownedEntries_of_preimage hdesired hother h
    apply Std.ExtTreeMap.ext_getElem?
    intro path
    by_cases hpath : isInitializationOwnedPath path = true
    · exact owned_nodes_eq hentries hpath
    · have hnone {map : DesiredMap}
          (hmap : ∀ path ∈ map, isInitializationOwnedPath path = true) :
          map[path]? = none :=
        Std.ExtTreeMap.getElem?_eq_none fun hmem => hpath (hmap path hmem)
      rw [hnone howned, hnone hownedOther]
  · intro hinjective manifest initial operated first second tree desired hfit hdesired
      hdigest hview h path howned
    obtain ⟨approved, hreconstructed, h⟩ := except_bind_eq_ok.1 h
    obtain ⟨runtimeLock, -, hfinal⟩ := except_bind_eq_ok.1 h
    obtain ⟨hbuilt, hset, hsame⟩ :=
      reconstructCandidate_eq_ok (except_mapError_eq_ok.1 hreconstructed)
    have hpreimage : ownedPreimage desired = ownedPreimage approved :=
      hinjective (hdigest.trans hsame.symm)
    have hentries :=
      ownedEntries_of_preimage hdesired (buildCandidate_fits hfit hbuilt) hpreimage
    rw [owned_nodes_eq hentries howned]
    exact finalizeAndValidate_tree hview hset hfinal howned

end Binding

namespace BindingWitness

open LayoutWitness

local instance : Wiki.Unicode := Wiki.Unicode.ascii

/-- A digest without collisions: the bytes themselves. -/
local instance : Sha256 Bytes := ⟨id, List.map Char.ofUInt8⟩

theorem sha256_injective : Function.Injective (sha256 Bytes) := by
  apply List.map_injective_iff.2
  intro x y h
  exact UInt8.toUInt32_inj.1 (congrArg Char.val h)

/-- The approved nodes. -/
def approved : DesiredMap := candidate memoryGitignore.toBytes

def create (kind : OperationKind) (path : Text) (mode : UInt32) (content : Option Text) :
    InitOperation :=
  ⟨kind, path, some mode, content⟩

/-- The initialization of an empty repository. -/
def manifest : InitManifest where
  mode := .minimal
  operations := [
    create .createFile agentsPath 0o644 (some agentPolicy),
    create .createDirectory ".agents".toList 0o755 none,
    create .createDirectory memoryPath 0o755 none,
    create .createFile gitignorePath 0o644 (some memoryGitignore),
    create .createFile flatPagePath 0o644 (some page)]
  candidateSha256 := ownedCandidateSha256 Bytes approved

def initial : RepositorySnapshot := ⟨[], ∅⟩

/-- The capture of a node. -/
def captureOf (path : Text) : Option DesiredNode → Captured
  | none => ⟨⟨path, .missing, none, none, none⟩, none, none⟩
  | some (.directory mode) => ⟨⟨path, .directory, some mode, none, none⟩, none, none⟩
  | some (.file mode bytes) => ⟨⟨path, .file, some mode, none, none⟩, some bytes, none⟩

def view : View where
  verifyRoot := .ok ()
  residues := .ok []
  capture path := .ok (captureOf path approved[path]?)
  pageNames := .ok []

theorem pages_empty (name : Text) : approved[pagePathOf name]? = none := by
  apply Std.ExtTreeMap.getElem?_eq_none
  intro hmem
  obtain ⟨node, hnode⟩ := exists_of_mem hmem
  have hdepth : ∀ path ∈ expectedDirectories .minimal ++
      [gitignorePath, flatPagePath, agentsPath], path.count '/' ≤ 2 := by decide
  have hpath : pagePathOf name ∈ expectedDirectories .minimal ++
      [gitignorePath, flatPagePath, agentsPath] := by
    rcases candidate_cases hnode with ⟨hdir, -⟩ | ⟨hfile, -⟩
    · exact List.mem_append_left _ hdir
    · exact List.mem_append_right _ hfile
  have hcount := hdepth _ hpath
  have hpages : pagesPath.count '/' = 2 := by decide
  rw [pagePathOf, List.count_append, List.count_cons_self, hpages] at hcount
  omega

def tree : RepositoryTree where
  node path := approved[path]?.map .owned
  pages_above name h := by
    rw [pages_empty] at h
    cases h

theorem view_of : view.Of tree where
  captures path captured h := by
    obtain rfl := Except.ok.inj h
    change (captureOf path approved[path]?).Shows (approved[path]?.map .owned)
    rcases approved[path]? with _ | ⟨mode⟩ | ⟨mode, bytes⟩
    · rfl
    · intro found hfound
      rw [← Option.some.inj hfound]
      rfl
    · intro found hfound content hcontent
      rw [← Option.some.inj hfound, ← Option.some.inj hcontent]
      rfl
  names names h name hne hslash := by
    obtain rfl := Except.ok.inj h
    change _ ↔ (approved[pagePathOf name]?.map TreeNode.owned).isSome = true
    rw [pages_empty]
    exact ⟨fun hmem => absurd hmem List.not_mem_nil, fun h => nomatch h⟩

theorem candidate_built : buildCandidate initial manifest = .ok approved := rfl

theorem candidate_valid : validateOwnedCandidate approved .minimal = .ok () :=
  (validateOwnedCandidate_eq_ok (owned _)).2 (contents _)

theorem reconstructed : reconstructCandidate Bytes initial manifest = .ok approved := by
  apply except_bind_eq_ok.2
  refine ⟨approved, candidate_built, ?_⟩
  apply except_bind_eq_ok.2
  refine ⟨(), except_mapError_eq_ok.2 candidate_valid, ?_⟩
  exact if_neg fun hne => hne rfl

theorem capturedNode_captureOf {path : Text} {node : DesiredNode} (a b c d : Text) :
    capturedNode (captureOf path (some node)) a b c d = .ok node := by
  cases node <;> rfl

theorem nodes_approved : ∀ entry ∈ approved.toList,
    approvedNode view .minimal entry = .ok entry.2 := by
  rintro ⟨path, node⟩ hentry
  have hnode := mem_toList.1 hentry
  have hpath : candidateOwnedPath path .minimal = true := by
    have hall : ∀ path ∈ expectedDirectories .minimal ++
        [gitignorePath, flatPagePath, agentsPath], candidateOwnedPath path .minimal = true := by
      decide
    rcases candidate_cases hnode with ⟨hdir, -⟩ | ⟨hfile, -⟩
    · exact hall path (List.mem_append_left _ hdir)
    · exact hall path (List.mem_append_right _ hfile)
  apply except_bind_eq_ok.2
  refine ⟨(), refuseUnless_eq_ok.2 hpath, ?_⟩
  apply except_bind_eq_ok.2
  refine ⟨_, rfl, ?_⟩
  dsimp only
  rw [hnode, capturedNode_captureOf]
  apply except_bind_eq_ok.2
  exact ⟨_, rfl, except_bind_eq_ok.2 ⟨(), refuseUnless_eq_ok.2 rfl, rfl⟩⟩

theorem nodes_recovered : ∀ entry ∈ approved.toList,
    recoveredNode view entry = .ok entry.2 := by
  rintro ⟨path, node⟩ hentry
  change capturedNode (captureOf path approved[path]?) _ _ _ _ = _
  rw [mem_toList.1 hentry, capturedNode_captureOf]

theorem captureNodes_eq {node : Text × DesiredNode → Except ApplyFailure DesiredNode}
    {entries : List (Text × DesiredNode)} {found : DesiredMap}
    (h : ∀ entry ∈ entries, node entry = .ok entry.2) :
    captureNodes node entries found =
      .ok (entries.foldl (fun found entry => found.insert entry.1 entry.2) found) := by
  induction entries generalizing found with
  | nil => rfl
  | cons first rest ih =>
      rw [captureNodes, List.foldlM_cons, h first List.mem_cons_self]
      exact ih fun entry hentry => h entry (List.mem_cons_of_mem _ hentry)

/-- Capturing the approved nodes gives them back. -/
theorem captured {node : Text × DesiredNode → Except ApplyFailure DesiredNode}
    (h : ∀ entry ∈ approved.toList, node entry = .ok entry.2) :
    captureNodes node approved.toList ∅ = .ok approved := by
  rw [captureNodes_eq h]
  rfl

theorem layout_checked (fragment flat membership : Text) :
    checkLayout view .minimal approved fragment flat membership = .ok () := rfl

theorem finalized : finalizeAndValidate Bytes manifest approved (captureOf lockPath none)
    view view = .ok () := by
  apply except_bind_eq_ok.2
  refine ⟨(), rfl, except_bind_eq_ok.2 ⟨(), rfl, ?_⟩⟩
  apply except_bind_eq_ok.2
  refine ⟨approved, captured nodes_approved, ?_⟩
  apply except_bind_eq_ok.2
  refine ⟨(), layout_checked _ _ _, except_bind_eq_ok.2 ⟨_, rfl, ?_⟩⟩
  apply except_bind_eq_ok.2
  refine ⟨(), refuseUnless_eq_ok.2 rfl, ?_⟩
  apply except_bind_eq_ok.2
  refine ⟨(), except_mapError_eq_ok.2 candidate_valid, ?_⟩
  apply except_bind_eq_ok.2
  refine ⟨(), refuseUnless_eq_ok.2 rfl, ?_⟩
  apply except_bind_eq_ok.2
  refine ⟨approved, captured nodes_recovered, ?_⟩
  apply except_bind_eq_ok.2
  refine ⟨(), refuseUnless_eq_ok.2 rfl, ?_⟩
  apply except_bind_eq_ok.2
  refine ⟨(), layout_checked _ _ _, except_bind_eq_ok.2 ⟨_, rfl, ?_⟩⟩
  apply except_bind_eq_ok.2
  refine ⟨(), refuseUnless_eq_ok.2 rfl, ?_⟩
  exact except_bind_eq_ok.2 ⟨(), rfl, rfl⟩

theorem applied : applyManifest Bytes manifest initial
    (.ok (captureOf lockPath none)) view view = .ok () := by
  apply except_bind_eq_ok.2
  refine ⟨approved, except_mapError_eq_ok.2 reconstructed, ?_⟩
  apply except_bind_eq_ok.2
  exact ⟨_, rfl, finalized⟩

theorem fits_text {text : Text} (h : text.length < 2 ^ 60) : Store.Fits text.toBytes := by
  have hbytes : text.byteLength ≤ 4 * text.length := by
    clear h
    induction text with
    | nil => exact Nat.le_refl 0
    | cons c rest ih =>
        have hc := c.utf8Size_le_four
        rw [Text.byteLength_cons, List.length_cons]
        omega
  change text.byteLength < 2 ^ 64
  omega

theorem inputs_fit : InputsFit initial manifest where
  prestates _ h := absurd h List.not_mem_nil
  contents path bytes h := by
    rw [show initial.contents[path]? = none from rfl] at h
    cases h
  operations := by
    have hpolicy : agentPolicy.length < 2 ^ 60 := by
      unfold agentPolicy policyLines
      repeat rw [String.toList_ofList]
      decide +kernel
    have hfiles : memoryGitignore.length < 2 ^ 60 ∧ page.length < 2 ^ 60 := by
      unfold memoryGitignore page
      repeat rw [String.toList_append]
      repeat rw [String.toList_ofList]
      decide +kernel
    have hfile (path content : Text) (hpath : path.length < 2 ^ 60)
        (hcontent : content.length < 2 ^ 60) : Store.Fits path.toBytes ∧
          ∀ found ∈ some content, Store.Fits found.toBytes :=
      ⟨fits_text hpath, fun found hfound => Option.some.inj hfound ▸ fits_text hcontent⟩
    have hdirectory (path : Text) (hpath : path.length < 2 ^ 60) :
        Store.Fits path.toBytes ∧ ∀ found ∈ (none : Option Text), Store.Fits found.toBytes :=
      ⟨fits_text hpath, fun found hfound => by cases hfound⟩
    exact List.forall_mem_cons.2 ⟨hfile _ _ (by decide) hpolicy,
      List.forall_mem_cons.2 ⟨hdirectory _ (by decide),
      List.forall_mem_cons.2 ⟨hdirectory _ (by decide),
      List.forall_mem_cons.2 ⟨hfile _ _ (by decide) hfiles.1,
      List.forall_mem_cons.2 ⟨hfile _ _ (by decide) hfiles.2,
      fun _ hnone => absurd hnone List.not_mem_nil⟩⟩⟩⟩⟩

theorem approved_fits : MapFits approved := buildCandidate_fits inputs_fit candidate_built

/-- An initialized repository: its policy is the approved one, and it has no schema. -/
theorem approval_binds_here :
    tree.node agentsPath = some (.owned (.file 0o644 agentPolicy.toBytes)) ∧
      tree.node schemaPath = none := by
  have happlied := (approval_binds Bytes).2.2 sha256_injective manifest initial _ view view
    tree approved inputs_fit approved_fits rfl view_of applied
  exact ⟨happlied agentsPath (by decide), happlied schemaPath (by decide)⟩

end BindingWitness

end Yams.Init
