/-
Staging a candidate.  A map whose nodes stand in its own directories is staged
exactly if the file system takes its paths, and the tree then shows every node
with the mode it was to get.
-/
import Mathlib.Data.List.Nodup
import Yams.InitCandidate

namespace Yams.Init

open FileTree

section Folds

variable {σ α ε : Type} {f : σ → α → Except ε σ} {inv : σ → List α → Prop}
  {takes : α → Prop}

/-- A fold whose steps succeed exactly on the elements that can be taken: the
invariant is of the state and the elements still to come. -/
theorem foldlM_takes
    (hstep : ∀ s a rest, inv s (a :: rest) →
      (takes a ∧ ∃ next, f s a = .ok next ∧ inv next rest) ∨
        (¬ takes a ∧ ∃ error, f s a = .error error))
    {s : σ} {list : List α} (h : inv s list) :
    ((∀ a ∈ list, takes a) → ∃ last, list.foldlM f s = .ok last ∧ inv last []) ∧
      ∀ last, list.foldlM f s = .ok last → ∀ a ∈ list, takes a := by
  induction list generalizing s with
  | nil => exact ⟨fun _ => ⟨s, rfl, h⟩, fun _ _ a ha => absurd ha List.not_mem_nil⟩
  | cons a list ih =>
      rw [List.foldlM_cons]
      rcases hstep s a list h with ⟨htakes, next, hnext, hinv⟩ | ⟨hnot, error, herror⟩
      · rw [hnext, except_ok_bind]
        obtain ⟨hall, honly⟩ := ih hinv
        refine ⟨fun htaken => hall fun b hb => htaken b (List.mem_cons_of_mem _ hb), ?_⟩
        intro last hlast b hb
        rcases List.mem_cons.1 hb with rfl | hb
        · exact htakes
        · exact honly last hlast b hb
      · rw [herror]
        exact ⟨fun htaken => absurd (htaken a List.mem_cons_self) hnot,
          fun last hlast => nomatch hlast⟩

end Folds

section Nodes

/-- A node while the candidate is being staged. -/
def stagedNode : DesiredNode → Node
  | .directory mode => .directory (keptMode (mode ||| 0o700))
  | .file mode bytes => .file (keptMode (mode ||| 0o600)) bytes

/-- A node of a staged candidate. -/
def finalNode : DesiredNode → Node
  | .directory mode => .directory (keptMode mode)
  | .file mode bytes => .file (keptMode mode) bytes

theorem withMode_stagedNode (node : DesiredNode) :
    (stagedNode node).withMode node.mode = finalNode node := by
  cases node <;> rfl

variable {host : Host}

theorem staged_permits (mode : UInt32) {bit : Nat} (hbit : 6 ≤ bit ∧ bit ≤ 8) :
    host.permits bit (keptMode (mode ||| 0o700)) = true := by
  rw [permits_keptMode (by omega)]
  apply permits_of_testBit
  apply testBit_or
  obtain rfl | rfl | rfl : bit = 6 ∨ bit = 7 ∨ bit = 8 := by omega
  all_goals decide

variable {desired : DesiredMap} {tree : Tree} {path : Text} {node : DesiredNode}
  {rest : List Text}

/-- Every node stands in directories of the map. -/
def Closed (desired : DesiredMap) : Prop :=
  ∀ path ∈ desired, ∀ dir ∈ ancestors path, ∃ mode,
    desired[dir]? = some (.directory mode)

/-- The tree shows the nodes that are not still to come. -/
def Staged (desired : DesiredMap) (tree : Tree) (rest : List Text) : Prop :=
  ∀ path, tree[path]? = if path ∈ rest then none else desired[path]?.map stagedNode

/-- The tree shows all nodes, those still to come with the modes of the staging. -/
def Finalized (desired : DesiredMap) (tree : Tree) (rest : List Text) : Prop :=
  ∀ path, tree[path]? = desired[path]?.map fun node =>
    if path ∈ rest then stagedNode node else finalNode node

theorem getElem?_insert_node (tree : Tree) (path other : Text) (node : Node) :
    (tree.insert path node)[other]? = if other = path then some node else tree[other]? := by
  rw [Std.ExtTreeMap.getElem?_insert]
  by_cases heq : other = path
  · rw [if_pos heq, if_pos (heq ▸ Std.ReflCmp.compare_self)]
  · rw [if_neg heq, if_neg fun hcompare => heq (Std.LawfulEqCmp.eq_of_compare hcompare).symm]

theorem Staged.insert (h : Staged desired tree (path :: rest)) (hnot : path ∉ rest)
    (hnode : desired[path]? = some node) :
    Staged desired (tree.insert path (stagedNode node)) rest := by
  intro other
  rw [getElem?_insert_node, h other]
  by_cases heq : other = path
  · subst heq
    rw [if_pos rfl, if_neg hnot, hnode]
    rfl
  · rw [if_neg heq]
    simp [heq]

theorem Finalized.insert (h : Finalized desired tree (path :: rest)) (hnot : path ∉ rest)
    (hnode : desired[path]? = some node) :
    Finalized desired (tree.insert path (finalNode node)) rest := by
  intro other
  rw [getElem?_insert_node, h other]
  by_cases heq : other = path
  · subst heq
    rw [if_pos rfl, hnode, Option.map_some, if_neg hnot]
  · rw [if_neg heq]
    simp [heq]

/-- The owner gets to a node below directories with the modes of the staging. -/
theorem reaches_of_staged (hclosed : Closed desired) (hpath : path ∈ desired)
    (hdirs : ∀ dir ∈ ancestors path, tree[dir]? = desired[dir]?.map stagedNode) :
    Reaches host tree path ∧ takesEntry host tree path = true := by
  have hdir {dir : Text} (hmem : dir ∈ ancestors path) :
      ∃ mode, tree[dir]? = some (.directory (keptMode (mode ||| 0o700))) := by
    obtain ⟨mode, hmode⟩ := hclosed path hpath dir hmem
    exact ⟨mode, by rw [hdirs dir hmem, hmode]; rfl⟩
  constructor
  · intro dir hmem
    obtain ⟨mode, hmode⟩ := hdir hmem
    exact ⟨_, hmode, staged_permits mode ⟨by decide, by decide⟩⟩
  · unfold takesEntry
    cases hlast : (ancestors path).getLast? with
    | none => rfl
    | some parent =>
        obtain ⟨mode, hmode⟩ := hdir (List.mem_of_getLast? hlast)
        dsimp only
        rw [hmode]
        exact staged_permits mode ⟨by decide, by decide⟩

theorem setMode_of_reaches {tree : Tree} {node : Node} (mode : UInt32)
    (hreaches : Reaches host tree path) (hnode : tree[path]? = some node) :
    setMode host tree path mode = .ok (tree.insert path (node.withMode mode)) := by
  rw [setMode, changeMode_of_reaches mode hreaches hnode]
  rfl

theorem insert_insert_node (tree : Tree) (path : Text) (first second : Node) :
    (tree.insert path first).insert path second = tree.insert path second := by
  apply Std.ExtTreeMap.ext_getElem?
  intro other
  rw [getElem?_insert_node, getElem?_insert_node, getElem?_insert_node]
  split <;> rfl

/-- A new entry changes nothing above its path. -/
theorem reaches_insert {tree : Tree} (h : Reaches host tree path) (node : Node) :
    Reaches host (tree.insert path node) path := by
  intro dir hdir
  have hne : dir ≠ path := by
    rintro rfl
    exact absurd (count_lt_of_mem_ancestors hdir) (lt_irrefl _)
  rw [getElem?_insert_node, if_neg hne]
  exact h dir hdir

/-- A node is created with a mode of its own and then given another. -/
theorem setMode_inserted {tree : Tree} (mode : UInt32) (hreaches : Reaches host tree path)
    (node : Node) :
    setMode host (tree.insert path node) path mode =
      .ok (tree.insert path (node.withMode mode)) := by
  have hnode : (tree.insert path node)[path]? = some node := by
    rw [getElem?_insert_node, if_pos rfl]
  rw [setMode_of_reaches mode (reaches_insert hreaches node) hnode, insert_insert_node]

theorem insertNew_of_takes {tree : Tree} (htakes : host.takesPath path = true)
    (hentry : takesEntry host tree path = true) (node : Node) :
    FileTree.insertNew host tree path node = .ok (tree.insert path node) :=
  insertNew_eq_ok.2 ⟨htakes, hentry, rfl⟩

theorem insertNew_of_not {tree : Tree} (hnot : ¬ host.takesPath path = true)
    (node : Node) : FileTree.insertNew host tree path node = .error .invalidName :=
  if_pos hnot

section Steps

variable {α : Type}

/-- A step that creates a node where nothing is in its way, unless the file system
does not take the path. -/
def Stages (host : Host) (step : Tree → α → Except InitError Tree) (path : α → Text)
    (node : α → DesiredNode) : Prop :=
  ∀ tree a, Reaches host tree (path a) ∧ takesEntry host tree (path a) = true →
    tree[path a]? = none →
    (host.takesPath (path a) = true →
      step tree a = .ok (tree.insert (path a) (stagedNode (node a)))) ∧
    (¬ host.takesPath (path a) = true → ∃ error, step tree a = .error error)

theorem stageDirectory_stages :
    Stages host (stageDirectory host) Prod.fst fun entry => .directory entry.2 := by
  intro tree entry hready hnew
  obtain ⟨hreaches, hentry⟩ := hready
  rw [stageDirectory, createDirectory_of_new hreaches hnew]
  constructor
  · intro htakes
    rw [insertNew_of_takes htakes hentry]
    exact setMode_inserted _ hreaches _
  · intro hnot
    rw [insertNew_of_not hnot]
    exact ⟨_, rfl⟩

theorem stageFile_stages :
    Stages host (stageFile host) Prod.fst fun entry => .file entry.2.1 entry.2.2 := by
  intro tree entry hready hnew
  obtain ⟨hreaches, hentry⟩ := hready
  rw [stageFile, writeFile_of_new entry.2.2 hreaches hnew]
  constructor
  · intro htakes
    rw [insertNew_of_takes htakes hentry]
    exact setMode_inserted _ hreaches _
  · intro hnot
    rw [insertNew_of_not hnot]
    exact ⟨_, rfl⟩

end Steps

end Nodes

section Order

theorem pathDepth_lt {dir path : Text} (h : dir ∈ ancestors path) :
    pathDepth dir < pathDepth path :=
  Nat.succ_lt_succ (count_lt_of_mem_ancestors h)

instance : Std.TransCmp shallowFirst :=
  inferInstanceAs (Std.TransCmp (compareLex (compareOn pathDepth) compare))

instance : Std.TransCmp deepFirst :=
  haveI : Std.TransCmp (fun left right : Text =>
      compare (pathDepth right) (pathDepth left)) :=
    @Std.TransCmp.opposite _ (compareOn pathDepth) inferInstance
  inferInstanceAs (Std.TransCmp (compareLex _ compare))

instance {β : Type} {cmp : Text → Text → Ordering} [Std.TransCmp cmp] :
    Std.TransCmp fun left right : Text × β => cmp left.1 right.1 where
  eq_swap := Std.OrientedCmp.eq_swap
  isLE_trans := Std.TransCmp.isLE_trans

theorem pathDepth_le_of_shallowFirst {left right : Text}
    (h : (shallowFirst left right).isLE) : pathDepth left ≤ pathDepth right := by
  have hfirst := Ordering.isLE_left_of_isLE_then h
  exact Std.isLE_compare.1 hfirst

theorem pathDepth_le_of_deepFirst {left right : Text}
    (h : (deepFirst left right).isLE) : pathDepth right ≤ pathDepth left := by
  have hfirst := Ordering.isLE_left_of_isLE_then h
  exact Std.isLE_compare.1 hfirst

/-- A path is not among the directories above one of no greater depth. -/
theorem not_mem_ancestors {path other : Text} (h : pathDepth path ≤ pathDepth other) :
    other ∉ ancestors path :=
  fun hmem => absurd (pathDepth_lt hmem) (Nat.not_lt.2 h)

end Order

section Runs

variable {host : Host} {desired : DesiredMap} {tree : Tree} {path : Text}
  {rest : List Text}

/-- The nodes still to come while the others have been staged: no path comes twice,
and none is above an earlier one. -/
structure Pending (desired : DesiredMap) (tree : Tree) (rest : List Text) : Prop where
  staged : Staged desired tree rest
  nodup : rest.Nodup
  above : rest.Pairwise fun path later => later ∉ ancestors path

theorem Pending.ready (hclosed : Closed desired)
    (h : Pending desired tree (path :: rest)) (hpath : path ∈ desired) :
    (Reaches host tree path ∧ takesEntry host tree path = true) ∧
      tree[path]? = none := by
  constructor
  · apply reaches_of_staged hclosed hpath
    intro dir hdir
    have hnot : dir ∉ path :: rest := by
      intro hmem
      rcases List.mem_cons.1 hmem with rfl | hmem
      · exact not_mem_ancestors le_rfl hdir
      · exact (List.pairwise_cons.1 h.above).1 dir hmem hdir
    rw [h.staged dir, if_neg hnot]
  · rw [h.staged path, if_pos List.mem_cons_self]

theorem Pending.next {node : DesiredNode} (h : Pending desired tree (path :: rest))
    (hnode : desired[path]? = some node) :
    Pending desired (tree.insert path (stagedNode node)) rest :=
  have ⟨hnot, hnodup⟩ := List.nodup_cons.1 h.nodup
  ⟨h.staged.insert hnot hnode, hnodup, (List.pairwise_cons.1 h.above).2⟩

theorem mem_of_getElem? {node : DesiredNode} (h : desired[path]? = some node) :
    path ∈ desired :=
  Std.ExtTreeMap.mem_iff_isSome_getElem?.2 (by rw [h]; rfl)

theorem exists_of_mem (h : path ∈ desired) : ∃ node, desired[path]? = some node :=
  Option.isSome_iff_exists.1 (Std.ExtTreeMap.mem_iff_isSome_getElem?.1 h)

section Nodes

variable {α : Type} {step : Tree → α → Except InitError Tree} {pathOf : α → Text}
  {nodeOf : α → DesiredNode} {entries : List α} {others : List Text}

/-- The nodes are created one after another, the others still to come. -/
theorem stageNodes (host : Host) (hclosed : Closed desired)
    (hstages : Stages host step pathOf nodeOf)
    (h : Pending desired tree (entries.map pathOf ++ others))
    (hentries : ∀ entry ∈ entries, desired[pathOf entry]? = some (nodeOf entry)) :
    ((∀ entry ∈ entries, host.takesPath (pathOf entry) = true) →
      ∃ last, entries.foldlM step tree = .ok last ∧ Pending desired last others) ∧
      ∀ last, entries.foldlM step tree = .ok last →
        ∀ entry ∈ entries, host.takesPath (pathOf entry) = true := by
  let inv (tree : Tree) (entries : List α) : Prop :=
    Pending desired tree (entries.map pathOf ++ others) ∧
      ∀ entry ∈ entries, desired[pathOf entry]? = some (nodeOf entry)
  have hstep : ∀ tree entry rest, inv tree (entry :: rest) →
      (host.takesPath (pathOf entry) = true ∧
        ∃ next, step tree entry = .ok next ∧ inv next rest) ∨
      (¬ host.takesPath (pathOf entry) = true ∧
        ∃ error, step tree entry = .error error) := by
    rintro tree entry rest ⟨hpending, hrest⟩
    have hnode := hrest entry List.mem_cons_self
    obtain ⟨hready, hnew⟩ := hpending.ready hclosed (mem_of_getElem? hnode)
    obtain ⟨hok, herror⟩ := hstages tree entry hready hnew
    by_cases htakes : host.takesPath (pathOf entry) = true
    · exact .inl ⟨htakes, _, hok htakes, hpending.next hnode,
        fun other hother => hrest other (List.mem_cons_of_mem _ hother)⟩
    · exact .inr ⟨htakes, herror htakes⟩
  have hinv : inv tree entries := ⟨h, hentries⟩
  obtain ⟨hall, honly⟩ := foldlM_takes hstep hinv
  refine ⟨fun htakes => ?_, honly⟩
  obtain ⟨last, hlast, hpending, -⟩ := hall htakes
  exact ⟨last, hlast, hpending⟩

end Nodes

section Entries

theorem mem_toList {node : DesiredNode} :
    (path, node) ∈ desired.toList ↔ desired[path]? = some node :=
  Std.ExtTreeMap.mem_toList_iff_getElem?_eq_some

theorem mem_directoriesOf {entry : Text × UInt32} :
    entry ∈ directoriesOf desired ↔ desired[entry.1]? = some (.directory entry.2) := by
  rw [directoriesOf, mem_sortBy, List.mem_filterMap, ← mem_toList]
  constructor
  · rintro ⟨⟨path, node⟩, hmem, hentry⟩
    cases node with
    | directory mode =>
        obtain rfl := Option.some.inj hentry
        exact hmem
    | file mode bytes => cases hentry
  · intro hmem
    exact ⟨_, hmem, rfl⟩

/-- The files of a map, in the order of their paths. -/
def filesOf (desired : DesiredMap) : List (Text × UInt32 × Bytes) :=
  desired.toList.filterMap fileEntry

theorem mem_filesOf {entry : Text × UInt32 × Bytes} :
    entry ∈ filesOf desired ↔
      desired[entry.1]? = some (.file entry.2.1 entry.2.2) := by
  rw [filesOf, List.mem_filterMap, ← mem_toList]
  constructor
  · rintro ⟨⟨path, node⟩, hmem, hentry⟩
    cases node with
    | directory mode => cases hentry
    | file mode bytes =>
        obtain rfl := Option.some.inj hentry
        exact hmem
  · intro hmem
    exact ⟨_, hmem, rfl⟩

theorem map_fst_filterMap_sublist {β : Type} {g : Text × DesiredNode → Option (Text × β)}
    (hg : ∀ entry found, g entry = some found → found.1 = entry.1)
    (entries : List (Text × DesiredNode)) :
    ((entries.filterMap g).map Prod.fst).Sublist (entries.map Prod.fst) := by
  induction entries with
  | nil => exact List.Sublist.slnil
  | cons entry entries ih =>
      cases hfound : g entry with
      | none =>
          rw [List.filterMap_cons_none hfound]
          exact ih.cons _
      | some found =>
          rw [List.filterMap_cons_some hfound, List.map_cons, List.map_cons,
            hg entry found hfound]
          exact ih.cons_cons _

theorem nodup_paths (desired : DesiredMap) : (desired.toList.map Prod.fst).Nodup := by
  rw [Std.ExtTreeMap.map_fst_toList_eq_keys]
  exact Std.ExtTreeMap.nodup_keys

/-- The paths of a map in the order in which they are staged. -/
def stagingOrder (desired : DesiredMap) : List Text :=
  (directoriesOf desired).map Prod.fst ++ (filesOf desired).map Prod.fst

theorem mem_stagingOrder : path ∈ stagingOrder desired ↔ path ∈ desired := by
  rw [stagingOrder, List.mem_append, List.mem_map, List.mem_map]
  constructor
  · rintro (⟨entry, hentry, rfl⟩ | ⟨entry, hentry, rfl⟩)
    · exact mem_of_getElem? (mem_directoriesOf.1 hentry)
    · exact mem_of_getElem? (mem_filesOf.1 hentry)
  · intro hmem
    obtain ⟨node, hnode⟩ := exists_of_mem hmem
    cases node with
    | directory mode => exact .inl ⟨(path, mode), mem_directoriesOf.2 hnode, rfl⟩
    | file mode bytes => exact .inr ⟨(path, mode, bytes), mem_filesOf.2 hnode, rfl⟩

theorem stagingOrder_nodup (desired : DesiredMap) : (stagingOrder desired).Nodup := by
  have hdirectories : ((directoriesOf desired).map Prod.fst).Nodup := by
    have hperm := (sortBy_perm (fun left right : Text × UInt32 =>
      shallowFirst left.1 right.1) (desired.toList.filterMap directoryEntry)).map Prod.fst
    apply hperm.nodup_iff.2
    apply (map_fst_filterMap_sublist _ desired.toList).nodup (nodup_paths desired)
    rintro ⟨path, node⟩ found hfound
    cases node with
    | directory mode => rw [← Option.some.inj hfound]
    | file mode bytes => cases hfound
  have hfiles : ((filesOf desired).map Prod.fst).Nodup := by
    apply (map_fst_filterMap_sublist _ desired.toList).nodup (nodup_paths desired)
    rintro ⟨path, node⟩ found hfound
    cases node with
    | directory mode => cases hfound
    | file mode bytes => rw [← Option.some.inj hfound]
  apply List.Nodup.append hdirectories hfiles
  intro path hdir hfile
  obtain ⟨directory, hdirectory, rfl⟩ := List.mem_map.1 hdir
  obtain ⟨file, hfile, heq⟩ := List.mem_map.1 hfile
  have hnode := mem_filesOf.1 hfile
  rw [heq, mem_directoriesOf.1 hdirectory] at hnode
  cases hnode

/-- Directories come before what is in them. -/
theorem stagingOrder_above (hclosed : Closed desired) :
    (stagingOrder desired).Pairwise fun path later => later ∉ ancestors path := by
  have hfile {path : Text} (hpath : path ∈ desired) :
      ∀ later ∈ (filesOf desired).map Prod.fst, later ∉ ancestors path := by
    intro later hlater hmem
    obtain ⟨file, hfile, rfl⟩ := List.mem_map.1 hlater
    obtain ⟨mode, hmode⟩ := hclosed path hpath _ hmem
    rw [mem_filesOf.1 hfile] at hmode
    cases hmode
  have hmem {path : Text} (h : path ∈ stagingOrder desired) : path ∈ desired :=
    mem_stagingOrder.1 h
  apply List.pairwise_append.2
  refine ⟨?_, ?_, ?_⟩
  · have hsorted : (directoriesOf desired).Pairwise fun left right =>
        (shallowFirst left.1 right.1).isLE :=
      sortBy_pairwise (desired.toList.filterMap directoryEntry)
    apply List.pairwise_map.2
    exact hsorted.imp fun h => not_mem_ancestors (pathDepth_le_of_shallowFirst h)
  · apply List.pairwise_of_forall_mem_list
    intro path hpath later hlater
    exact hfile (hmem (List.mem_append_right _ hpath)) later hlater
  · intro path hpath
    exact hfile (hmem (List.mem_append_left _ hpath))

end Entries

section Modes

/-- The nodes whose modes are still to be set: the directories above them are among
them. -/
structure Pausing (desired : DesiredMap) (tree : Tree) (rest : List Text) : Prop where
  finalized : Finalized desired tree rest
  nodup : rest.Nodup
  above : rest.Pairwise fun path later => path ∉ ancestors later
  closed : ∀ later ∈ rest, ∀ dir ∈ ancestors later, dir ∈ rest

theorem Pausing.next {node : DesiredNode} (h : Pausing desired tree (path :: rest))
    (hnode : desired[path]? = some node) :
    Pausing desired (tree.insert path (finalNode node)) rest := by
  obtain ⟨hnot, hnodup⟩ := List.nodup_cons.1 h.nodup
  obtain ⟨hfirst, habove⟩ := List.pairwise_cons.1 h.above
  refine ⟨h.finalized.insert hnot hnode, hnodup, habove, ?_⟩
  intro later hlater dir hdir
  rcases List.mem_cons.1 (h.closed later (List.mem_cons_of_mem _ hlater) dir hdir) with
    rfl | hmem
  · exact absurd hdir (hfirst later hlater)
  · exact hmem

theorem finalizeNodes (hclosed : Closed desired) {entries : List (Text × DesiredNode)}
    (h : Pausing desired tree (entries.map Prod.fst))
    (hentries : ∀ entry ∈ entries, desired[entry.1]? = some entry.2) :
    ∃ last, entries.foldlM
        (fun tree entry => setMode host tree entry.1 entry.2.mode) tree = .ok last ∧
      Finalized desired last [] := by
  induction entries generalizing tree with
  | nil => exact ⟨tree, rfl, h.finalized⟩
  | cons entry entries ih =>
      obtain ⟨path, node⟩ := entry
      have hnode : desired[path]? = some node := hentries (path, node) List.mem_cons_self
      have hreaches : Reaches host tree path := by
        apply (reaches_of_staged hclosed (mem_of_getElem? hnode) ?_).1
        intro dir hdir
        have hmem := h.closed path List.mem_cons_self dir hdir
        rw [h.finalized dir]
        simp only [List.map_cons] at hmem ⊢
        simp only [if_pos hmem]
      have hfound : tree[path]? = some (stagedNode node) := by
        rw [h.finalized path, hnode, Option.map_some, List.map_cons,
          if_pos List.mem_cons_self]
      rw [List.foldlM_cons]
      dsimp only
      rw [setMode_of_reaches node.mode hreaches hfound, withMode_stagedNode, except_ok_bind]
      apply ih (h.next hnode)
      exact fun other hother => hentries other (List.mem_cons_of_mem _ hother)

theorem finalizeCandidateModes_ok (host : Host) (hclosed : Closed desired)
    (h : Pending desired tree []) :
    ∃ last, finalizeCandidateModes host desired tree = .ok last ∧
      Finalized desired last [] := by
  have hperm := sortBy_perm (fun left right : Text × DesiredNode =>
    deepFirst left.1 right.1) desired.toList
  have hmem {path : Text} (hpath : path ∈ desired) :
      path ∈ (sortBy (fun left right : Text × DesiredNode => deepFirst left.1 right.1)
        desired.toList).map Prod.fst := by
    obtain ⟨node, hnode⟩ := exists_of_mem hpath
    exact List.mem_map.2 ⟨(path, node), mem_sortBy.2 (mem_toList.2 hnode), rfl⟩
  apply finalizeNodes hclosed
  · refine ⟨?_, (hperm.map Prod.fst).nodup_iff.2 (nodup_paths desired), ?_, ?_⟩
    · intro path
      rw [h.staged path, if_neg List.not_mem_nil]
      cases hnode : desired[path]? with
      | none => rfl
      | some node =>
          rw [Option.map_some, Option.map_some, if_pos (hmem (mem_of_getElem? hnode))]
    · have hsorted : (sortBy (fun left right : Text × DesiredNode =>
          deepFirst left.1 right.1) desired.toList).Pairwise fun left right =>
          (deepFirst left.1 right.1).isLE :=
        sortBy_pairwise desired.toList
      apply List.pairwise_map.2
      exact hsorted.imp fun h => not_mem_ancestors (pathDepth_le_of_deepFirst h)
    · intro later hlater dir hdir
      obtain ⟨⟨path, node⟩, hentry, rfl⟩ := List.mem_map.1 hlater
      have hnode := mem_toList.1 (mem_sortBy.1 hentry)
      obtain ⟨mode, hmode⟩ := hclosed path (mem_of_getElem? hnode) dir hdir
      exact hmem (mem_of_getElem? hmode)
  · intro entry hentry
    exact mem_toList.1 (mem_sortBy.1 hentry)

end Modes

theorem pending_empty (hclosed : Closed desired) :
    Pending desired ∅ (stagingOrder desired) := by
  refine ⟨?_, stagingOrder_nodup desired, stagingOrder_above hclosed⟩
  intro path
  rw [Std.ExtTreeMap.getElem?_empty]
  split
  next => rfl
  next hnot =>
    have hnone : desired[path]? = none := by
      cases hnode : desired[path]? with
      | none => rfl
      | some node => exact absurd (mem_stagingOrder.2 (mem_of_getElem? hnode)) hnot
    rw [hnone]
    rfl

/-- All nodes are staged exactly if the file system takes their paths. -/
theorem stageCandidateNodes_takes (host : Host) (hclosed : Closed desired) :
    ((∀ path ∈ desired, host.takesPath path = true) →
      ∃ last, stageCandidateNodes host desired ∅ = .ok last ∧ Pending desired last []) ∧
      ∀ last, stageCandidateNodes host desired ∅ = .ok last →
        ∀ path ∈ desired, host.takesPath path = true := by
  obtain ⟨hall, honly⟩ := stageNodes host hclosed stageDirectory_stages
    (pending_empty hclosed) fun entry hentry => mem_directoriesOf.1 hentry
  have hfile : ∀ entry ∈ filesOf desired,
      desired[entry.1]? = some (.file entry.2.1 entry.2.2) :=
    fun entry hentry => mem_filesOf.1 hentry
  constructor
  · intro htakes
    obtain ⟨middle, hmiddle, hpending⟩ := hall fun entry hentry =>
      htakes _ (mem_of_getElem? (mem_directoriesOf.1 hentry))
    rw [← List.append_nil ((filesOf desired).map Prod.fst)] at hpending
    obtain ⟨last, hlast, hdone⟩ := (stageNodes host hclosed stageFile_stages
      hpending hfile).1 fun entry hentry => htakes _ (mem_of_getElem? (hfile entry hentry))
    refine ⟨last, ?_, hdone⟩
    rw [stageCandidateNodes, hmiddle, except_ok_bind]
    exact hlast
  · intro last hlast path hpath
    rw [stageCandidateNodes] at hlast
    obtain ⟨middle, hmiddle, hlast⟩ := except_bind_eq_ok.1 hlast
    have hdirectory := honly middle hmiddle
    obtain ⟨found, hfound, hpending⟩ := hall hdirectory
    obtain rfl : found = middle := by
      rw [hmiddle] at hfound
      exact (Except.ok.inj hfound).symm
    rw [← List.append_nil ((filesOf desired).map Prod.fst)] at hpending
    have htaken := (stageNodes host hclosed stageFile_stages hpending hfile).2
      last hlast
    obtain ⟨node, hnode⟩ := exists_of_mem hpath
    cases node with
    | directory mode => exact hdirectory (path, mode) (mem_directoriesOf.2 hnode)
    | file mode bytes => exact htaken (path, mode, bytes) (mem_filesOf.2 hnode)

/-- A candidate is staged exactly if the file system takes all its paths, and the
tree then shows all its nodes. -/
theorem stageCandidate_eq_ok (hclosed : Closed desired) :
    stageCandidate host desired ∅ = .ok tree ↔
      (∀ path ∈ desired, host.takesPath path = true) ∧
        ∀ path : Text, tree[path]? = desired[path]?.map finalNode := by
  obtain ⟨hall, honly⟩ := stageCandidateNodes_takes host hclosed
  have hstage (htakes : ∀ path ∈ desired, host.takesPath path = true) :
      ∃ last, stageCandidate host desired ∅ = .ok last ∧
        ∀ path : Text, last[path]? = desired[path]?.map finalNode := by
    obtain ⟨middle, hmiddle, hpending⟩ := hall htakes
    obtain ⟨last, hlast, hfinal⟩ := finalizeCandidateModes_ok host hclosed hpending
    refine ⟨last, ?_, ?_⟩
    · rw [stageCandidate, hmiddle, except_ok_bind]
      exact hlast
    · intro path
      rw [hfinal path]
      simp only [if_neg List.not_mem_nil]
  constructor
  · intro hok
    obtain ⟨middle, hmiddle, -⟩ := except_bind_eq_ok.1 hok
    have htakes := honly middle hmiddle
    obtain ⟨last, hlast, hshows⟩ := hstage htakes
    obtain rfl : last = tree := by
      rw [hok] at hlast
      exact (Except.ok.inj hlast).symm
    exact ⟨htakes, hshows⟩
  · rintro ⟨htakes, hshows⟩
    obtain ⟨last, hlast, hlastShows⟩ := hstage htakes
    have heq : last = tree := by
      apply Std.ExtTreeMap.ext_getElem?
      intro path
      rw [hshows, hlastShows]
    rw [hlast, heq]

end Runs

end Yams.Init
